import Mathlib.Algebra.Order.Ring.Nat
import NvUvm.Lib.Run

/-!
# Tracking semaphores

Model of the tracking semaphore of a channel (`uvm8_gpu_semaphore.c`).  The GPU releases 32-bit
payloads, one for each push and in order, and the threads of the driver extend the payload to the
64-bit `completed_value`.  The value is updated under the spinlock of the semaphore and read
without it, so an update takes three steps, and every other step can come in between.

The 64-bit values start at 0 and grow by one for each push; they are natural numbers here.  Memory
is sequentially consistent: the barriers of the source are what makes it so.
-/

namespace NvUvm

open Lib
open Function (update update_of_ne update_self)

def semaphorePayloads : ℕ := 2 ^ 32

/-- The value that `update_completed_value_locked` returns and leaves in `completed_value`. -/
def updateCompletedValueLocked (oldValue newSemValue : ℕ) : ℕ :=
  let oldSemValue := oldValue % semaphorePayloads
  if oldSemValue = newSemValue then oldValue
  else
    -- replace the bottom 32 bits with the new semaphore value
    let newValue := oldValue / semaphorePayloads * semaphorePayloads + newSemValue
    if newSemValue < oldSemValue then newValue + semaphorePayloads else newValue

/-- The 64-bit value is recovered from its bottom 32 bits, as long as the old value lags behind by
less than one turn of the payload. -/
theorem updateCompletedValueLocked_eq {oldValue released : ℕ} (hold : oldValue ≤ released)
    (hlag : released < oldValue + semaphorePayloads) :
    updateCompletedValueLocked oldValue (released % semaphorePayloads) = released := by
  have hpos : 0 < semaphorePayloads := by simp [semaphorePayloads]
  have hturnOld := Nat.div_add_mod oldValue semaphorePayloads
  have hturnNew := Nat.div_add_mod released semaphorePayloads
  have hmono : oldValue / semaphorePayloads ≤ released / semaphorePayloads :=
    Nat.div_le_div_right hold
  -- the two values are in the same turn of the payload, or in neighbouring ones
  have hturns : released / semaphorePayloads ≤ oldValue / semaphorePayloads + 1 := by
    have h : released / semaphorePayloads ≤ (oldValue + semaphorePayloads) / semaphorePayloads :=
      Nat.div_le_div_right (Nat.le_of_lt hlag)
    rwa [Nat.add_div_right _ hpos] at h
  unfold updateCompletedValueLocked
  dsimp only
  rw [Nat.mul_comm (oldValue / semaphorePayloads)]
  generalize released / semaphorePayloads = turn at *
  generalize oldValue / semaphorePayloads = turn₀ at *
  obtain rfl | rfl : turn = turn₀ ∨ turn = turn₀ + 1 := by omega
  · split
    · omega
    · rw [if_neg (by omega), hturnNew]
  · rw [Nat.mul_succ] at hturnNew
    rw [if_neg (by omega), if_pos (by omega)]
    omega

/-- What a thread asked for: the update itself, or whether a value is completed. -/
inductive Request where
  | update
  | isValueCompleted (value : ℕ)
  deriving DecidableEq, Repr

/-- Where a thread is in `uvm_gpu_tracking_semaphore_update_completed_value` or in
`uvm_gpu_tracking_semaphore_is_value_completed`. -/
inductive UpdatePhase where
  | idle
  /-- Before `uvm_spin_lock`. -/
  | unlocked (request : Request)
  /-- Under the lock, `old_value` read. -/
  | locked (request : Request) (oldValue : ℕ)
  /-- Under the lock, the payload read. -/
  | payloadRead (request : Request) (oldValue newSemValue : ℕ)
  /-- The update returned this value. -/
  | updated (completed : ℕ)
  /-- `is_value_completed` returned this answer. -/
  | answered (value : ℕ) (isCompleted : Bool)
  deriving DecidableEq, Repr

/-- `uvm_gpu_tracking_semaphore_t`, with the GPU and the threads that use it.  `released` is the
value of the last push whose payload the GPU has written; it writes them in order, so the values it
has released are those up to `released`. -/
structure TrackingSemaphore where
  completedValue : ℕ
  queuedValue : ℕ
  lockHeld : Bool
  released : ℕ
  threads : ℕ → UpdatePhase

/-- A step: a push is queued, the GPU releases a payload, or a thread goes on. -/
inductive SemaphoreStep where
  | endPush
  | release
  | updateCompletedValue (thread : ℕ)
  | isValueCompleted (thread value : ℕ)
  | lock (thread : ℕ)
  | readPayload (thread : ℕ)
  | unlock (thread : ℕ)
  deriving DecidableEq, Repr

namespace TrackingSemaphore

variable (s : TrackingSemaphore)

def payload : ℕ := s.released % semaphorePayloads

def setThread (thread : ℕ) (phase : UpdatePhase) : TrackingSemaphore :=
  { s with threads := update s.threads thread phase }

/-- A thread can make a new call when it is in none. -/
def Returned : UpdatePhase → Prop
  | .idle | .updated _ | .answered _ _ => True
  | .unlocked _ | .locked _ _ | .payloadRead _ _ _ => False

instance : DecidablePred Returned := fun phase => by
  cases phase <;> unfold Returned <;> infer_instance

def returnValue (completed : ℕ) : Request → UpdatePhase
  | .update => .updated completed
  | .isValueCompleted value => .answered value (decide (value ≤ completed))

/-- The entry of `uvm_gpu_tracking_semaphore_is_value_completed`: it reads the value without the
lock, and updates it only if that is not enough. -/
def askValueCompleted (thread value : ℕ) : TrackingSemaphore :=
  if value ≤ s.completedValue then s.setThread thread (.answered value true)
  else s.setThread thread (.unlocked (.isValueCompleted value))

/-- One step.  A step that is not possible leaves the state as it is. -/
def step : SemaphoreStep → TrackingSemaphore
  | .endPush => { s with queuedValue := s.queuedValue + 1 }
  | .release =>
    -- the GPU executes the pushes that were queued, in order
    if s.released < s.queuedValue then { s with released := s.released + 1 } else s
  | .updateCompletedValue thread =>
    if Returned (s.threads thread) then s.setThread thread (.unlocked .update) else s
  | .isValueCompleted thread value =>
    if Returned (s.threads thread) then s.askValueCompleted thread value else s
  | .lock thread =>
    match s.threads thread with
    | .unlocked request =>
      if s.lockHeld then s
      else { s.setThread thread (.locked request s.completedValue) with lockHeld := true }
    | _ => s
  | .readPayload thread =>
    match s.threads thread with
    | .locked request oldValue => s.setThread thread (.payloadRead request oldValue s.payload)
    | _ => s
  | .unlock thread =>
    match s.threads thread with
    | .payloadRead request oldValue newSemValue =>
      let completed := updateCompletedValueLocked oldValue newSemValue
      { s.setThread thread (returnValue completed request) with
        completedValue := completed
        lockHeld := false }
    | _ => s

/-- `uvm_gpu_tracking_semaphore_alloc`. -/
def init : TrackingSemaphore where
  completedValue := 0
  queuedValue := 0
  lockHeld := false
  released := 0
  threads := fun _ => .idle

/-- Fewer than 2^32 pushes have been queued past the last update. -/
def PendingBelowTurn (s : TrackingSemaphore) : Prop :=
  s.queuedValue < s.completedValue + semaphorePayloads

instance : DecidablePred PendingBelowTurn :=
  fun s => inferInstanceAs (Decidable (s.queuedValue < s.completedValue + semaphorePayloads))

/-- What a returned value means: the GPU has released a value as high. -/
def PhaseTracks (s : TrackingSemaphore) : UpdatePhase → Prop
  | .updated completed => completed ≤ s.completedValue
  | .answered value isCompleted => isCompleted = true → value ≤ s.released
  | _ => True

/-- The completed value is one that the GPU has released, and so are the values that a caller was
told about. -/
structure TracksReleases (s : TrackingSemaphore) : Prop where
  queued : s.completedValue ≤ s.queuedValue
  released : s.completedValue ≤ s.released
  threads : ∀ thread, PhaseTracks s (s.threads thread)

section Invariant

/-- The phases between `uvm_spin_lock` and `uvm_spin_unlock`. -/
def HoldsLock : UpdatePhase → Prop
  | .locked _ _ | .payloadRead _ _ _ => True
  | _ => False

/-- What holds of a thread in a phase.  Under the lock the old value is still the completed one,
and the payload that a thread has read belongs to a value released since. -/
def PhaseInv (s : TrackingSemaphore) : UpdatePhase → Prop
  | .locked _ oldValue => s.lockHeld = true ∧ oldValue = s.completedValue
  | .payloadRead _ oldValue newSemValue =>
    s.lockHeld = true ∧ oldValue = s.completedValue ∧
      ∃ r, oldValue ≤ r ∧ r ≤ s.released ∧ newSemValue = r % semaphorePayloads
  | phase => PhaseTracks s phase

/-- The invariant of the semaphore. -/
structure Inv (s : TrackingSemaphore) : Prop where
  released : s.completedValue ≤ s.released
  executed : s.released ≤ s.queuedValue
  phases : ∀ thread, PhaseInv s (s.threads thread)
  exclusive : ∀ thread thread', HoldsLock (s.threads thread) → HoldsLock (s.threads thread') →
    thread = thread'

theorem inv_init : Inv init where
  released := le_rfl
  executed := le_rfl
  phases := fun _ => trivial
  exclusive := fun _ _ h _ => absurd h id

variable {s s' : TrackingSemaphore}

theorem Inv.tracksReleases (h : Inv s) : TracksReleases s where
  queued := h.released.trans h.executed
  released := h.released
  threads := by
    intro thread
    have hphase := h.phases thread
    cases hthr : s.threads thread <;> simp_all [PhaseInv, PhaseTracks]

variable {phase : UpdatePhase} {thread : ℕ}

theorem PhaseInv.keep (h : PhaseInv s phase) (hcompl : s.completedValue ≤ s'.completedValue)
    (hreleased : s.released ≤ s'.released) (hlock : HoldsLock phase →
      s'.completedValue = s.completedValue ∧ s'.lockHeld = s.lockHeld) : PhaseInv s' phase := by
  cases phase with
  | idle => trivial
  | unlocked request => trivial
  | locked request oldValue =>
    obtain ⟨hsame, hheld⟩ := hlock trivial
    exact ⟨hheld.trans h.1, h.2.trans hsame.symm⟩
  | payloadRead request oldValue newSemValue =>
    obtain ⟨hsame, hheld⟩ := hlock trivial
    obtain ⟨hlocked, hold, r, hlow, hhigh, hsem⟩ := h
    exact ⟨hheld.trans hlocked, hold.trans hsame.symm, r, hlow, hhigh.trans hreleased, hsem⟩
  | updated completed => exact le_trans h hcompl
  | answered value isCompleted => exact fun hyes => (h hyes).trans hreleased

theorem Inv.thread_step (h : Inv s) (hthreads : s'.threads = update s.threads thread phase)
    (hqueue : s'.queuedValue = s.queuedValue) (hrel : s'.released = s.released)
    (hcompl : s.completedValue ≤ s'.completedValue) (hsound : s'.completedValue ≤ s.released)
    (hothers : ∀ other, other ≠ thread → HoldsLock (s.threads other) →
      s'.completedValue = s.completedValue ∧ s'.lockHeld = s.lockHeld ∧ ¬ HoldsLock phase)
    (hphase : PhaseInv s' phase) : Inv s' where
  released := by rw [hrel]; exact hsound
  executed := by rw [hrel, hqueue]; exact h.executed
  phases := by
    intro other
    rw [hthreads]
    by_cases heq : other = thread
    · subst heq
      rwa [update_self]
    · rw [update_of_ne heq]
      apply (h.phases other).keep hcompl hrel.ge
      exact fun hhold => ⟨(hothers other heq hhold).1, (hothers other heq hhold).2.1⟩
  exclusive := by
    intro t t' ht ht'
    rw [hthreads] at ht ht'
    by_cases heq : t = thread
    · by_cases heq' : t' = thread
      · rw [heq, heq']
      · rw [heq, update_self] at ht
        rw [update_of_ne heq'] at ht'
        exact absurd ht (hothers t' heq' ht').2.2
    · rw [update_of_ne heq] at ht
      by_cases heq' : t' = thread
      · rw [heq', update_self] at ht'
        exact absurd ht' (hothers t heq ht).2.2
      · rw [update_of_ne heq'] at ht'
        exact h.exclusive t t' ht ht'

theorem Inv.setThread (h : Inv s) (hfree : ¬ HoldsLock phase) (hphase : PhaseInv s phase) :
    Inv (s.setThread thread phase) := by
  refine h.thread_step rfl rfl rfl le_rfl h.released ?_ ?_
  · exact fun _ _ _ => ⟨rfl, rfl, hfree⟩
  · exact hphase.keep le_rfl le_rfl fun _ => ⟨rfl, rfl⟩

theorem Inv.only_holder (h : Inv s) {other : ℕ} (hheld : HoldsLock (s.threads thread))
    (hne : other ≠ thread) : ¬ HoldsLock (s.threads other) :=
  fun hother => hne (h.exclusive other thread hother hheld)

theorem Inv.lock (h : Inv s) (thread : ℕ) : Inv (s.step (.lock thread)) := by
  unfold step
  dsimp only
  split
  case h_2 => exact h
  case h_1 request hthr =>
    split
    case isTrue => exact h
    case isFalse hfree =>
      refine h.thread_step rfl rfl rfl le_rfl h.released ?_ ⟨rfl, rfl⟩
      -- the lock is free, so no thread is in it
      intro other _ hhold
      have hphase := h.phases other
      cases hother : s.threads other with
      | locked request oldValue =>
        rw [hother] at hphase
        exact absurd hphase.1 hfree
      | payloadRead request oldValue newSemValue =>
        rw [hother] at hphase
        exact absurd hphase.1 hfree
      | _ => rw [hother] at hhold; exact absurd hhold id

theorem Inv.readPayload (h : Inv s) (thread : ℕ) : Inv (s.step (.readPayload thread)) := by
  unfold step
  dsimp only
  split
  case h_2 => exact h
  case h_1 request oldValue hthr =>
    have hphase := h.phases thread
    rw [hthr] at hphase
    obtain ⟨hlocked, hold⟩ := hphase
    refine h.thread_step rfl rfl rfl le_rfl h.released ?_ ?_
    · have hheld : HoldsLock (s.threads thread) := by rw [hthr]; trivial
      exact fun other hne hhold => absurd hhold (h.only_holder hheld hne)
    · exact ⟨hlocked, hold, s.released, hold ▸ h.released, le_rfl, rfl⟩

theorem Inv.newValue (h : Inv s) (hpend : PendingBelowTurn s) {oldValue newSemValue : ℕ}
    {request : Request} (hthr : s.threads thread = .payloadRead request oldValue newSemValue) :
    s.completedValue ≤ updateCompletedValueLocked oldValue newSemValue ∧
      updateCompletedValueLocked oldValue newSemValue ≤ s.released := by
  have hphase := h.phases thread
  rw [hthr] at hphase
  obtain ⟨-, rfl, r, hlow, hhigh, rfl⟩ := hphase
  have hlag : r < s.completedValue + semaphorePayloads :=
    (hhigh.trans h.executed).trans_lt hpend
  rw [updateCompletedValueLocked_eq hlow hlag]
  exact ⟨hlow, hhigh⟩

theorem Inv.unlock (h : Inv s) (hpend : PendingBelowTurn s) (thread : ℕ) :
    Inv (s.step (.unlock thread)) := by
  unfold step
  dsimp only
  split
  case h_2 => exact h
  case h_1 request oldValue newSemValue hthr =>
    obtain ⟨hgrows, hsound⟩ := h.newValue hpend hthr
    refine h.thread_step rfl rfl rfl hgrows hsound ?_ ?_
    · have hheld : HoldsLock (s.threads thread) := by rw [hthr]; trivial
      exact fun other hne hhold => absurd hhold (h.only_holder hheld hne)
    · cases request with
      | update => exact le_rfl
      | isValueCompleted value =>
        intro hyes
        exact (of_decide_eq_true hyes).trans hsound

theorem Inv.askValueCompleted (h : Inv s) (thread value : ℕ) :
    Inv (s.askValueCompleted thread value) := by
  unfold TrackingSemaphore.askValueCompleted
  split
  case isTrue hcompl =>
    exact h.setThread id fun _ => hcompl.trans h.released
  case isFalse => exact h.setThread id trivial

theorem Inv.step (h : Inv s) (hpend : PendingBelowTurn s) (op : SemaphoreStep) :
    Inv (s.step op) := by
  cases op with
  | endPush =>
    exact ⟨h.released, Nat.le_succ_of_le h.executed, fun thread =>
      (h.phases thread).keep le_rfl le_rfl fun _ => ⟨rfl, rfl⟩, h.exclusive⟩
  | release =>
    unfold TrackingSemaphore.step
    dsimp only
    split
    case isTrue hqueue =>
      exact ⟨Nat.le_succ_of_le h.released, hqueue, fun thread =>
        (h.phases thread).keep le_rfl (Nat.le_succ _) fun _ => ⟨rfl, rfl⟩, h.exclusive⟩
    case isFalse => exact h
  | updateCompletedValue thread =>
    unfold TrackingSemaphore.step
    dsimp only
    split
    · exact h.setThread id trivial
    · exact h
  | isValueCompleted thread value =>
    unfold TrackingSemaphore.step
    dsimp only
    split
    · exact h.askValueCompleted thread value
    · exact h
  | lock thread => exact h.lock thread
  | readPayload thread => exact h.readPayload thread
  | unlock thread => exact h.unlock hpend thread

theorem Inv.completedValue_le_step (h : Inv s) (hpend : PendingBelowTurn s)
    (op : SemaphoreStep) : s.completedValue ≤ (s.step op).completedValue := by
  cases op with
  | unlock thread =>
    unfold TrackingSemaphore.step
    dsimp only
    split
    case h_1 hthr => exact (h.newValue hpend hthr).1
    case h_2 => exact le_rfl
  | isValueCompleted thread value =>
    simp only [TrackingSemaphore.step, TrackingSemaphore.askValueCompleted]
    split
    · split <;> exact le_rfl
    · exact le_rfl
  | _ =>
    unfold TrackingSemaphore.step
    dsimp only
    repeat' split
    all_goals exact le_rfl

end Invariant

theorem inv_along {ops : List SemaphoreStep}
    (h : StepsMeet step (fun s _ => PendingBelowTurn s) init ops) : HoldsAlong step Inv init ops :=
  holds_along_of_meets step inv_init (fun _ h => h) (fun _ op h hpend => h.step hpend op) h

/-- **The completed value of a tracking semaphore**: in every run in which fewer than 2^32 pushes
are pending between two updates, with the threads and the GPU taking their steps in any order, the
completed value never decreases, and in every state it is at most the queued value and is one that
the GPU has released, and so are the values that updates and `is_value_completed` told their
callers. -/
theorem tracksReleases_along (ops : List SemaphoreStep)
    (h : StepsMeet step (fun s _ => PendingBelowTurn s) init ops) :
    HoldsAlong step TracksReleases init ops ∧
      ∀ pre op, pre ++ [op] <+: ops →
        (run step init pre).completedValue ≤ (run step init (pre ++ [op])).completedValue := by
  have hinv := inv_along h
  constructor
  · exact fun pre hpre => (hinv pre hpre).tracksReleases
  · intro pre op hpre
    rw [run_concat]
    have hbefore := hinv pre ((List.prefix_append pre [op]).trans hpre)
    exact hbefore.completedValue_le_step (h pre op hpre) op

/-- A run with two pushes, an update by one thread and a question by another. -/
def twoThreads : List SemaphoreStep :=
  [.endPush, .release, .updateCompletedValue 0, .lock 0, .endPush, .isValueCompleted 1 1,
    .lock 1, .readPayload 0, .release, .unlock 0, .lock 1, .readPayload 1, .unlock 1]

theorem tracksReleases_along_twoThreads : (run step init twoThreads).threads 1 = .answered 1 true ∧
      HoldsAlong step TracksReleases init twoThreads := by
  constructor
  · decide
  · apply (tracksReleases_along twoThreads ?_).1
    unfold twoThreads
    simp only [stepsMeet_cons]
    exact ⟨by decide, by decide, by decide, by decide, by decide, by decide, by decide, by decide,
      by decide, by decide, by decide, by decide, by decide, stepsMeet_nil _ _ _⟩

end TrackingSemaphore

end NvUvm
