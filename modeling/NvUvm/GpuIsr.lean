import NvUvm.Lib.CountedList
import NvUvm.Lib.FairRun

/-!
# Page fault interrupts of a GPU

The top half and the bottom half of the replayable fault interrupt of a GPU, the threads that take
`isr_lock`, and the removal of the GPU (`uvm8_gpu_page_fault.c`, `uvm8_gpu.c`).  The top half takes
`isr_lock` and a reference to the GPU and leaves both to the bottom half that it schedules; each of
them, and each thread that takes the lock, disables the interrupt by a count that they share;
`remove_gpu` clears `handling_replayable_faults` in between.

A step is a section under `page_fault_interrupts_lock` or the GPU table lock, or an operation on
`isr_lock`, on the reference count of the GPU, or of the thread that runs the bottom halves.
-/

namespace NvUvm.GpuIsr

/-! ## The GPU -/

/-- A call of `uvm8_isr_top_half` that found the GPU. -/
inductive TopHalf where
  /-- Before the section. -/
  | entered
  /-- At `done_no_bottom_half`, before `uvm_gpu_kref_put`. -/
  | quits
  | returned
  deriving DecidableEq, Repr

/-- The thread of `bottom_half_q`. -/
inductive BottomHalf where
  | idle
  /-- In `uvm8_isr_bottom_half`, before `uvm_gpu_isr_unlock`. -/
  | running
  /-- Before `uvm_gpu_kref_put`. -/
  | unlocked
  deriving DecidableEq, Repr

/-- A thread that holds a reference to the GPU and calls `uvm_gpu_isr_lock` and
`uvm_gpu_isr_unlock`. -/
inductive Thread where
  | retained
  /-- Before `mutex_lock`. -/
  | waits
  | locked
  | unlocked
  | released
  deriving DecidableEq, Repr

/-- Where `remove_gpu` is. -/
inductive Removal where
  | none
  /-- The GPU is out of the table. -/
  | outOfTable
  /-- `handling_replayable_faults` is cleared; it was set or not. -/
  | cleared (was : Bool)
  /-- In the flush of `nv_kthread_q_stop`, for what was scheduled before it. -/
  | flushing (target : ℕ)
  | flushed
  | stopped
  /-- After the last `uvm_gpu_kref_put`. -/
  | done
  deriving DecidableEq, Repr

/-- `uvm_gpu_t`, what the interrupt handling reads and writes, the interrupt itself, and the parties.
The history counts the bottom halves that were scheduled, started and finished and how often
`isr_lock` was acquired and released, and notes an unlock of a free lock and a bottom half that could
not be scheduled. -/
structure State where
  handlingReplayableFaults : Bool
  disableIntrRefCount : ℕ := 0
  interruptsEnabled : Bool
  isrLock : Bool := false
  gpuKref : ℕ := 1
  bottomHalfPending : Bool := false
  queueStopped : Bool := false
  bottomHalf : BottomHalf := .idle
  topHalves : List TopHalf := []
  threads : List Thread := []
  removal : Removal := .none
  scheduled : ℕ := 0
  started : ℕ := 0
  finished : ℕ := 0
  acquired : ℕ := 0
  releases : ℕ := 0
  badUnlock : Bool := false
  notScheduled : Bool := false
  deriving DecidableEq, Repr

/-- `add_gpu`, for a GPU that has a fault buffer or has none. -/
def State.added (handlesFaults : Bool) : State :=
  { handlingReplayableFaults := handlesFaults, interruptsEnabled := handlesFaults }

/-- `uvm_gpu_disable_replayable_faults`. -/
def disableReplayableFaults (s : State) : State :=
  { s with
      interruptsEnabled := if s.disableIntrRefCount = 0 then false else s.interruptsEnabled
      disableIntrRefCount := s.disableIntrRefCount + 1 }

/-- `uvm_gpu_enable_replayable_faults`. -/
def enableReplayableFaults (s : State) : State :=
  { s with
      interruptsEnabled := if s.disableIntrRefCount - 1 = 0 then true else s.interruptsEnabled
      disableIntrRefCount := s.disableIntrRefCount - 1 }

/-- `mutex_lock`, or a `mutex_trylock` that succeeds. -/
def lockIsr (s : State) : State := { s with isrLock := true, acquired := s.acquired + 1 }

/-- `mutex_unlock`. -/
def unlockIsr (s : State) : State :=
  { s with isrLock := false, releases := s.releases + 1, badUnlock := s.badUnlock || !s.isrLock }

/-- `nv_kthread_q_schedule_q_item` of the bottom half. -/
def scheduleBottomHalf (s : State) : State :=
  if s.queueStopped || s.bottomHalfPending then { s with notScheduled := true }
  else { s with bottomHalfPending := true, scheduled := s.scheduled + 1 }

/-- `uvm_gpu_kref_put`. -/
def krefPut (s : State) : State := { s with gpuKref := s.gpuKref - 1 }

/-- `uvm_gpu_isr_lock` up to `mutex_lock`. -/
def gpuIsrLock (s : State) : State :=
  if s.handlingReplayableFaults then disableReplayableFaults s else s

/-- `uvm_gpu_isr_unlock`. -/
def gpuIsrUnlock (s : State) : State :=
  unlockIsr (if s.handlingReplayableFaults then enableReplayableFaults s else s)

def State.setTopHalf (s : State) (i : ℕ) (t : TopHalf) : State :=
  { s with topHalves := s.topHalves.set i t }

def State.setThread (s : State) (i : ℕ) (t : Thread) : State :=
  { s with threads := s.threads.set i t }

/-- The section of `uvm8_isr_top_half` of the `i`-th top half. -/
def topHalfSection (s : State) (i : ℕ) (faultsPending : Bool) : State :=
  if !s.handlingReplayableFaults then s.setTopHalf i .quits
  else if s.isrLock then s.setTopHalf i .quits
  else if !faultsPending then (unlockIsr (lockIsr s)).setTopHalf i .quits
  else (scheduleBottomHalf (disableReplayableFaults (lockIsr s))).setTopHalf i .returned

def topHalfStep (s : State) (i : ℕ) (faultsPending : Bool) : TopHalf → State
  | .entered => topHalfSection s i faultsPending
  | .quits => krefPut (s.setTopHalf i .returned)
  | .returned => s

/-- The next step of the thread of `bottom_half_q`. -/
def bottomHalfStep (s : State) : State :=
  match s.bottomHalf with
  | .idle =>
    if s.bottomHalfPending && !s.queueStopped then
      { s with bottomHalfPending := false, bottomHalf := .running, started := s.started + 1 }
    else s
  | .running => { gpuIsrUnlock s with bottomHalf := .unlocked }
  | .unlocked => { krefPut s with bottomHalf := .idle, finished := s.finished + 1 }

/-- The next step of a thread that takes `isr_lock`. -/
def threadStep (s : State) (i : ℕ) : Thread → State
  | .retained => (gpuIsrLock s).setThread i .waits
  | .waits => if s.isrLock then s else (lockIsr s).setThread i .locked
  | .locked => (gpuIsrUnlock s).setThread i .unlocked
  | .unlocked => s.setThread i .released
  | .released => s

/-- The next step of `remove_gpu`, which is called once no thread retains the GPU. -/
def removeGpuStep (s : State) : State :=
  match s.removal with
  | .none => if s.threads.all (· == .released) then { s with removal := .outOfTable } else s
  | .outOfTable =>
    let was := s.handlingReplayableFaults
    { (if was then disableReplayableFaults s else s) with
        handlingReplayableFaults := false
        removal := .cleared was }
  | .cleared was =>
    if was then { s with removal := .flushing s.scheduled } else { s with removal := .stopped }
  | .flushing target => if target ≤ s.finished then { s with removal := .flushed } else s
  | .flushed => { s with queueStopped := true, removal := .stopped }
  | .stopped => { krefPut s with removal := .done }
  | .done => s

/-- An interrupt, a thread that retains the GPU, or the next step of a party. -/
inductive Op where
  | interrupt
  | topHalf (i : ℕ) (faultsPending : Bool)
  | bottomHalf
  | retain
  | thread (i : ℕ)
  | removeGpu
  deriving DecidableEq, Repr

/-- One step.  A GPU that is not in the table is neither found by a top half nor retained. -/
def step (s : State) : Op → State
  | .interrupt =>
    if s.removal = .none then
      { s with gpuKref := s.gpuKref + 1, topHalves := s.topHalves ++ [.entered] }
    else s
  | .topHalf i faultsPending =>
    match s.topHalves[i]? with
    | none => s
    | some t => topHalfStep s i faultsPending t
  | .bottomHalf => bottomHalfStep s
  | .retain =>
    if s.removal = .none then { s with threads := s.threads ++ [.retained] } else s
  | .thread i =>
    match s.threads[i]? with
    | none => s
    | some t => threadStep s i t
  | .removeGpu => removeGpuStep s

/-! ## Who holds what -/

def TopHalf.holdsGpu : TopHalf → Bool
  | .entered | .quits => true
  | .returned => false

def Thread.disables : Thread → Bool
  | .waits | .locked => true
  | _ => false

/-- A thread that holds `isr_lock`. -/
def Thread.holdsLock : Thread → Bool
  | .locked => true
  | _ => false

/-- The bottom half between its top half and `uvm_gpu_isr_unlock`. -/
def State.outstanding (s : State) : ℕ :=
  s.bottomHalfPending.toNat + (if s.bottomHalf = .running then 1 else 0)

/-- The bottom half between its top half and `uvm_gpu_kref_put`. -/
def State.unfinished (s : State) : ℕ :=
  s.bottomHalfPending.toNat + (if s.bottomHalf = .idle then 0 else 1)

/-- `remove_gpu` has cleared `handling_replayable_faults`. -/
def Removal.isCleared : Removal → Bool
  | .none | .outOfTable => false
  | _ => true

/-- The interrupt and the lock, for a number of holders of the lock and of those that have disabled
the interrupt. -/
structure Core (holders disablers : ℕ) (s : State) : Prop where
  lock : s.isrLock.toNat = holders
  count : s.handlingReplayableFaults = true → s.disableIntrRefCount = disablers
  enabled : s.handlingReplayableFaults = true →
    (s.interruptsEnabled = true ↔ s.disableIntrRefCount = 0)
  off : s.handlingReplayableFaults = false → s.interruptsEnabled = false
  acquired : s.acquired = s.releases + s.isrLock.toNat
  noBadUnlock : s.badUnlock = false

/-- The invariant of the interrupt handling. -/
structure Inv (s : State) : Prop where
  core : Core (s.outstanding + s.threads.countP Thread.holdsLock)
    (s.outstanding + s.threads.countP Thread.disables) s
  cleared : s.removal.isCleared = true → s.handlingReplayableFaults = false
  threads : s.removal ≠ .none → ∀ t ∈ s.threads, t = .released
  kref : s.gpuKref = (if s.removal = .done then 0 else 1) + s.topHalves.countP TopHalf.holdsGpu +
    s.unfinished
  scheduled : s.scheduled = s.started + s.bottomHalfPending.toNat
  started : s.started = s.finished + (if s.bottomHalf = .idle then 0 else 1)
  allScheduled : s.notScheduled = false
  flushing : ∀ target, s.removal = .flushing target → target = s.scheduled
  flushed : s.removal = .flushed → s.finished = s.scheduled
  stopped : s.queueStopped = true → s.handlingReplayableFaults = false ∧ s.finished = s.scheduled

theorem added_inv (handlesFaults : Bool) : Inv (State.added handlesFaults) where
  core := by constructor <;> simp [State.added, State.outstanding]
  cleared h := by cases h
  threads h := absurd rfl h
  kref := rfl
  scheduled := rfl
  started := rfl
  allScheduled := rfl
  flushing _ h := by cases h
  flushed h := by cases h
  stopped h := by cases h

/-! ## The interrupt and the lock -/

variable {s s' : State} {i o d : ℕ}

theorem Core.frame (h : Core o d s)
    (hhand : s'.handlingReplayableFaults = s.handlingReplayableFaults)
    (hcnt : s'.disableIntrRefCount = s.disableIntrRefCount)
    (hen : s'.interruptsEnabled = s.interruptsEnabled) (hlock : s'.isrLock = s.isrLock)
    (hacquired : s'.acquired = s.acquired) (hreleases : s'.releases = s.releases)
    (hbad : s'.badUnlock = s.badUnlock) : Core o d s' := by
  constructor
  · rw [hlock]
    exact h.lock
  · rw [hhand, hcnt]
    exact h.count
  · rw [hhand, hen, hcnt]
    exact h.enabled
  · rw [hhand, hen]
    exact h.off
  · rw [hacquired, hreleases, hlock]
    exact h.acquired
  · rw [hbad]
    exact h.noBadUnlock

theorem Core.disable (h : Core o d s) : Core o (d + 1) (disableReplayableFaults s) where
  lock := h.lock
  count hhand := congrArg (· + 1) (h.count hhand)
  enabled hhand := by
    have hen := h.enabled hhand
    simp only [disableReplayableFaults]
    split
    · simp
    · next hzero => simpa [hzero] using hen
  off hhand := by
    simp only [disableReplayableFaults]
    split
    · rfl
    · exact h.off hhand
  acquired := h.acquired
  noBadUnlock := h.noBadUnlock

theorem Core.enable (h : Core o (d + 1) s) (hhand : s.handlingReplayableFaults = true) :
    Core o d (enableReplayableFaults s) where
  lock := h.lock
  count _ := by
    simp only [enableReplayableFaults, h.count hhand]
    rfl
  enabled _ := by
    have hcnt := h.count hhand
    have hen := h.enabled hhand
    simp only [enableReplayableFaults]
    split
    · next hzero => simp [hzero]
    · next hpos =>
      simpa [hen, hcnt] using hpos
  off hnot := by
    rw [enableReplayableFaults, hhand] at hnot
    cases hnot
  acquired := h.acquired
  noBadUnlock := h.noBadUnlock

theorem Core.lockFree (h : Core o d s) (hfree : s.isrLock = false) :
    Core (o + 1) d (lockIsr s) where
  lock := by
    have := h.lock
    rw [hfree] at this
    rw [← this]
    rfl
  count := h.count
  enabled := h.enabled
  off := h.off
  acquired := by
    have := h.acquired
    rw [hfree] at this
    simpa [lockIsr] using this
  noBadUnlock := h.noBadUnlock

theorem Core.unlock (h : Core (o + 1) d s) : Core o d (unlockIsr s) := by
  have hlock := h.lock
  have hheld : s.isrLock = true := by
    cases hfree : s.isrLock with
    | true => rfl
    | false =>
      rw [hfree] at hlock
      cases hlock
  rw [hheld] at hlock
  obtain rfl : o = 0 := by simpa using hlock
  have hacquired := h.acquired
  rw [hheld] at hacquired
  exact ⟨rfl, h.count, h.enabled, h.off, hacquired, by simp [unlockIsr, h.noBadUnlock, hheld]⟩

theorem Core.isrLockEnter (h : Core o d s) : Core o (d + 1) (gpuIsrLock s) := by
  unfold gpuIsrLock
  split
  · exact h.disable
  · next hnot =>
    exact ⟨h.lock, fun hhand => absurd hhand hnot, h.enabled, h.off, h.acquired,
      h.noBadUnlock⟩

theorem Core.isrUnlock (h : Core (o + 1) (d + 1) s) : Core o d (gpuIsrUnlock s) := by
  unfold gpuIsrUnlock
  split
  · next hhand => exact (h.enable hhand).unlock
  · next hnot =>
    have h : Core (o + 1) d s := ⟨h.lock, fun hhand => absurd hhand hnot, h.enabled, h.off,
      h.acquired, h.noBadUnlock⟩
    exact h.unlock

/-! ## One step -/

theorem gpuIsrUnlock_frame (s : State) : ∃ interrupts count releases bad, gpuIsrUnlock s = { s with
      interruptsEnabled := interrupts
      disableIntrRefCount := count
      isrLock := false
      releases := releases
      badUnlock := bad } := by
  unfold gpuIsrUnlock
  split <;> exact ⟨_, _, _, _, rfl⟩

theorem gpuIsrLock_frame (s : State) : ∃ interrupts count, gpuIsrLock s = { s with
      interruptsEnabled := interrupts
      disableIntrRefCount := count } := by
  unfold gpuIsrLock
  split
  · exact ⟨_, _, rfl⟩
  · exact ⟨s.interruptsEnabled, s.disableIntrRefCount, rfl⟩

theorem bottomHalfStep_inv (h : Inv s) : Inv (bottomHalfStep s) := by
  have hcore := h.core
  have hkref := h.kref
  have hscheduled := h.scheduled
  have hstarted := h.started
  unfold bottomHalfStep
  split
  · next hidle =>
    split
    · next hpend =>
      simp only [Bool.and_eq_true] at hpend
      simp only [State.outstanding, State.unfinished, hidle, hpend, Bool.toNat_true, reduceCtorEq,
        if_true] at hcore hkref hscheduled hstarted
      refine ⟨?_, h.cleared, h.threads, ?_, ?_, ?_, h.allScheduled, h.flushing, h.flushed,
        h.stopped⟩
      · simp only [State.outstanding, Bool.toNat_false]
        exact ⟨hcore.lock, hcore.count, hcore.enabled, hcore.off, hcore.acquired,
          hcore.noBadUnlock⟩
      · simp only [State.unfinished, Bool.toNat_false, reduceCtorEq, if_false]
        omega
      · simpa using hscheduled
      · simp [hstarted]
    · exact h
  · next hrun =>
    simp only [State.outstanding, State.unfinished, hrun, reduceCtorEq, if_true,
      Nat.add_right_comm _ 1] at hcore hkref hstarted
    have hunlocked := hcore.isrUnlock
    obtain ⟨interrupts, count, releases, bad, heq⟩ := gpuIsrUnlock_frame s
    rw [heq] at hunlocked ⊢
    refine ⟨?_, h.cleared, h.threads, ?_, hscheduled, ?_, h.allScheduled, h.flushing, h.flushed,
      h.stopped⟩
    · simp only [State.outstanding, reduceCtorEq, if_false]
      exact ⟨hunlocked.lock, hunlocked.count, hunlocked.enabled, hunlocked.off,
        hunlocked.acquired, hunlocked.noBadUnlock⟩
    · simpa [State.unfinished] using hkref
    · simpa using hstarted
  · next hunlocked =>
    simp only [State.outstanding, State.unfinished, hunlocked, reduceCtorEq,
      if_false] at hcore hkref hstarted
    refine ⟨?_, h.cleared, h.threads, ?_, hscheduled, ?_, h.allScheduled, h.flushing, ?_, ?_⟩
    · simp only [State.outstanding, reduceCtorEq]
      exact ⟨hcore.lock, hcore.count, hcore.enabled, hcore.off, hcore.acquired, hcore.noBadUnlock⟩
    · change s.gpuKref - 1 = (if s.removal = .done then 0 else 1) +
        s.topHalves.countP TopHalf.holdsGpu + s.bottomHalfPending.toNat
      omega
    · simp only [if_true]
      exact hstarted
    · intro hflushed
      have := h.flushed hflushed
      omega
    · intro hstop
      have := (h.stopped hstop).2
      omega

theorem topHalfStep_inv {t : TopHalf} (h : Inv s) (hi : s.topHalves[i]? = some t)
    (faultsPending : Bool) : Inv (topHalfStep s i faultsPending t) := by
  have hcore := h.core
  have hkref := h.kref
  have hcnt := fun t' => Lib.countP_set_add hi t' TopHalf.holdsGpu
  cases t with
  | entered =>
    have hquits : Inv (s.setTopHalf i .quits) := by
      refine ⟨hcore.frame rfl rfl rfl rfl rfl rfl rfl, h.cleared, h.threads, ?_, h.scheduled,
        h.started, h.allScheduled, h.flushing, h.flushed, h.stopped⟩
      have := hcnt .quits
      simp only [TopHalf.holdsGpu] at this
      change s.gpuKref = (if s.removal = .done then 0 else 1) +
        (s.topHalves.set i .quits).countP TopHalf.holdsGpu + s.unfinished
      omega
    rw [topHalfStep, topHalfSection]
    split
    · exact hquits
    next hhand =>
    split
    · exact hquits
    next hlocked =>
    simp only [Bool.not_eq_true', Bool.not_eq_false] at hhand
    simp only [Bool.not_eq_true] at hlocked
    have htaken := hcore.lockFree hlocked
    split
    · -- no fault is pending
      exact ⟨htaken.unlock.frame rfl rfl rfl rfl rfl rfl rfl, hquits.cleared, hquits.threads,
        hquits.kref, hquits.scheduled, hquits.started, hquits.allScheduled, hquits.flushing,
        hquits.flushed, hquits.stopped⟩
    · -- the lock was free, so that no bottom half is on its way
      have hfree := hcore.lock
      rw [hlocked, Bool.toNat_false] at hfree
      have hnone : s.outstanding = 0 := by omega
      obtain ⟨hpend, hrun⟩ : s.bottomHalfPending = false ∧ s.bottomHalf ≠ .running := by
        rw [State.outstanding, Nat.add_eq_zero_iff] at hnone
        exact ⟨by simpa using hnone.1, by simpa using hnone.2⟩
      have hopen : s.queueStopped = false := by
        by_contra hstop
        rw [Bool.not_eq_false] at hstop
        rw [(h.stopped hstop).1] at hhand
        cases hhand
      have hdisabled := htaken.disable
      have hschedule : scheduleBottomHalf (disableReplayableFaults (lockIsr s)) =
          { disableReplayableFaults (lockIsr s) with
              bottomHalfPending := true
              scheduled := s.scheduled + 1 } := by
        simp [scheduleBottomHalf, disableReplayableFaults, lockIsr, hpend, hopen]
      rw [hschedule]
      have hkept : s.removal.isCleared ≠ true := fun hcleared => by
        rw [h.cleared hcleared] at hhand
        cases hhand
      refine ⟨?_, h.cleared, h.threads, ?_, ?_, h.started, h.allScheduled, ?_, ?_, ?_⟩
      · rw [hnone, Nat.zero_add, Nat.zero_add, Nat.add_comm _ 1, Nat.add_comm _ 1] at hdisabled
        change Core ((1 + if s.bottomHalf = .running then 1 else 0) +
          s.threads.countP Thread.holdsLock) ((1 + if s.bottomHalf = .running then 1 else 0) +
          s.threads.countP Thread.disables) _
        rw [if_neg hrun]
        exact hdisabled.frame rfl rfl rfl rfl rfl rfl rfl
      · have := hcnt .returned
        simp only [TopHalf.holdsGpu, if_true, Bool.false_eq_true, if_false] at this
        rw [State.unfinished, hpend, Bool.toNat_false] at hkref
        change s.gpuKref = (if s.removal = .done then 0 else 1) +
          (s.topHalves.set i .returned).countP TopHalf.holdsGpu +
          (1 + if s.bottomHalf = .idle then 0 else 1)
        omega
      · have hscheduled := h.scheduled
        rw [hpend] at hscheduled
        exact congrArg (· + 1) hscheduled
      · rintro target htarget
        exact absurd (congrArg Removal.isCleared htarget) hkept
      · intro hflushed
        exact absurd (congrArg Removal.isCleared hflushed) hkept
      · intro hstop
        rw [show s.queueStopped = true from hstop] at hopen
        cases hopen
  | quits =>
    refine ⟨hcore.frame rfl rfl rfl rfl rfl rfl rfl, h.cleared, h.threads, ?_, h.scheduled,
      h.started, h.allScheduled, h.flushing, h.flushed, h.stopped⟩
    have := hcnt .returned
    simp only [TopHalf.holdsGpu, if_true, Bool.false_eq_true, if_false] at this
    change s.gpuKref - 1 = (if s.removal = .done then 0 else 1) +
      (s.topHalves.set i .returned).countP TopHalf.holdsGpu + s.unfinished
    omega
  | returned => exact h

theorem threadStep_inv {t : Thread} (h : Inv s) (hi : s.threads[i]? = some t) :
    Inv (threadStep s i t) := by
  have hcore := h.core
  have hhold := fun t' => Lib.countP_set_add hi t' Thread.holdsLock
  have hdisables := fun t' => Lib.countP_set_add hi t' Thread.disables
  -- a thread that goes on retains the GPU
  have hnotRemoved : t ≠ .released → s.removal = .none := by
    intro hne
    by_contra hremoval
    exact hne (h.threads hremoval t (List.mem_of_getElem? hi))
  cases t with
  | retained =>
    have hlocked := hcore.isrLockEnter
    have hdisables := hdisables .waits
    simp only [Thread.holdsLock, Thread.disables, Bool.false_eq_true, if_false, if_true,
      Nat.add_zero] at hhold hdisables
    obtain ⟨interrupts, count, heq⟩ := gpuIsrLock_frame s
    rw [threadStep]
    rw [heq] at hlocked ⊢
    refine ⟨?_, h.cleared, fun hremoval => absurd (hnotRemoved (by simp)) hremoval, h.kref,
      h.scheduled, h.started, h.allScheduled, h.flushing, h.flushed, h.stopped⟩
    change Core (s.outstanding + (s.threads.set i .waits).countP Thread.holdsLock)
      (s.outstanding + (s.threads.set i .waits).countP Thread.disables) _
    rw [hhold, hdisables]
    exact hlocked.frame rfl rfl rfl rfl rfl rfl rfl
  | waits =>
    rw [threadStep]
    split
    · exact h
    next hlocked =>
    have htaken := hcore.lockFree (by simpa using hlocked)
    have hdisables := hdisables .locked
    simp only [Thread.holdsLock, Thread.disables, Bool.false_eq_true, if_false,
      Nat.add_zero, Nat.add_left_inj] at hhold hdisables
    refine ⟨?_, h.cleared, fun hremoval => absurd (hnotRemoved (by simp)) hremoval, h.kref,
      h.scheduled, h.started, h.allScheduled, h.flushing, h.flushed, h.stopped⟩
    change Core (s.outstanding + (s.threads.set i .locked).countP Thread.holdsLock)
      (s.outstanding + (s.threads.set i .locked).countP Thread.disables) _
    rw [hhold, hdisables]
    exact htaken.frame rfl rfl rfl rfl rfl rfl rfl
  | locked =>
    have hhold := hhold .unlocked
    have hdisables := hdisables .unlocked
    simp only [Thread.holdsLock, Thread.disables, Bool.false_eq_true, if_false, if_true,
      Nat.add_zero] at hhold hdisables
    rw [← hhold, ← hdisables] at hcore
    have hunlocked := hcore.isrUnlock
    obtain ⟨interrupts, count, releases, bad, heq⟩ := gpuIsrUnlock_frame s
    rw [threadStep]
    rw [heq] at hunlocked ⊢
    refine ⟨?_, h.cleared, fun hremoval => absurd (hnotRemoved (by simp)) hremoval, h.kref,
      h.scheduled, h.started, h.allScheduled, h.flushing, h.flushed, h.stopped⟩
    exact hunlocked.frame rfl rfl rfl rfl rfl rfl rfl
  | unlocked =>
    have hhold := hhold .released
    have hdisables := hdisables .released
    simp only [Thread.holdsLock, Thread.disables, Bool.false_eq_true, if_false,
      Nat.add_zero] at hhold hdisables
    rw [← hhold, ← hdisables] at hcore
    refine ⟨?_, h.cleared, fun hremoval => absurd (hnotRemoved (by simp)) hremoval, h.kref,
      h.scheduled, h.started, h.allScheduled, h.flushing, h.flushed, h.stopped⟩
    exact hcore.frame rfl rfl rfl rfl rfl rfl rfl
  | released => exact h

theorem Inv.setRemoval (h : Inv s) {r : Removal} (hdone : s.removal ≠ .done) (hdone' : r ≠ .done)
    (hthreads : ∀ t ∈ s.threads, t = .released)
    (hcleared : r.isCleared = true → s.handlingReplayableFaults = false)
    (hflushing : ∀ target, r = .flushing target → target = s.scheduled)
    (hflushed : r = .flushed → s.finished = s.scheduled) : Inv { s with removal := r } := by
  refine ⟨h.core.frame rfl rfl rfl rfl rfl rfl rfl, hcleared, fun _ => hthreads, ?_, h.scheduled,
    h.started, h.allScheduled, hflushing, hflushed, h.stopped⟩
  have hkref := h.kref
  rw [if_neg hdone] at hkref
  rw [if_neg hdone']
  exact hkref

theorem Core.remove (h : Core o d s) : Core o d
    { (if s.handlingReplayableFaults then disableReplayableFaults s else s) with
        handlingReplayableFaults := false } := by
  cases hhand : s.handlingReplayableFaults with
  | true =>
    refine ⟨h.lock, nofun, nofun, fun _ => ?_, h.acquired, h.noBadUnlock⟩
    have hen := h.enabled hhand
    simp only [if_true, disableReplayableFaults]
    split
    · rfl
    · next hcnt =>
      rw [← hen] at hcnt
      simpa using hcnt
  | false =>
    exact ⟨h.lock, nofun, nofun, fun _ => h.off hhand, h.acquired, h.noBadUnlock⟩

theorem removeGpuStep_inv (h : Inv s) : Inv (removeGpuStep s) := by
  have hkref := h.kref
  unfold removeGpuStep
  split
  · next hremoval =>
    split
    · next hreleased =>
      simp only [List.all_eq_true, beq_iff_eq] at hreleased
      exact h.setRemoval (by simp [hremoval]) (by simp) hreleased nofun nofun nofun
    · exact h
  · next hremoval =>
    have hthreads := h.threads (by simp [hremoval])
    rw [hremoval] at hkref
    have hremoved := h.core.remove
    cases hhand : s.handlingReplayableFaults with
    | true =>
      rw [hhand] at hremoved
      exact ⟨hremoved.frame rfl rfl rfl rfl rfl rfl rfl, fun _ => rfl, fun _ => hthreads, hkref,
        h.scheduled, h.started, h.allScheduled, nofun, nofun,
        fun hstop => ⟨rfl, (h.stopped hstop).2⟩⟩
    | false =>
      rw [hhand] at hremoved
      exact ⟨hremoved.frame rfl rfl rfl rfl rfl rfl rfl, fun _ => rfl, fun _ => hthreads, hkref,
        h.scheduled, h.started, h.allScheduled, nofun, nofun,
        fun hstop => ⟨rfl, (h.stopped hstop).2⟩⟩
  · next was hremoval =>
    have hthreads := h.threads (by simp [hremoval])
    have hcleared := h.cleared (by rw [hremoval]; rfl)
    split
    · refine h.setRemoval (by simp [hremoval]) (by simp) hthreads (fun _ => hcleared) ?_ nofun
      intro target htarget
      injection htarget with htarget
      exact htarget.symm
    · exact h.setRemoval (by simp [hremoval]) (by simp) hthreads (fun _ => hcleared) nofun nofun
  · next target hremoval =>
    have hthreads := h.threads (by simp [hremoval])
    have hcleared := h.cleared (by rw [hremoval]; rfl)
    split
    · next hfin =>
      refine h.setRemoval (by simp [hremoval]) (by simp) hthreads (fun _ => hcleared) nofun ?_
      -- nothing was scheduled after the flush began
      have htarget := h.flushing target hremoval
      have hscheduled := h.scheduled
      have hstarted := h.started
      omega
    · exact h
  · next hremoval =>
    have hthreads := h.threads (by simp [hremoval])
    have hcleared := h.cleared (by rw [hremoval]; rfl)
    have hstopped : Inv { s with removal := .stopped } :=
      h.setRemoval (by simp [hremoval]) (by simp) hthreads (fun _ => hcleared) nofun nofun
    exact ⟨hstopped.core.frame rfl rfl rfl rfl rfl rfl rfl, hstopped.cleared, hstopped.threads,
      hstopped.kref, hstopped.scheduled, hstopped.started, hstopped.allScheduled,
      hstopped.flushing, hstopped.flushed, fun _ => ⟨hcleared, h.flushed hremoval⟩⟩
  · next hremoval =>
    have hthreads := h.threads (by simp [hremoval])
    have hcleared := h.cleared (by rw [hremoval]; rfl)
    rw [hremoval] at hkref
    refine ⟨h.core.frame rfl rfl rfl rfl rfl rfl rfl, fun _ => hcleared, fun _ => hthreads, ?_,
      h.scheduled, h.started, h.allScheduled, nofun, nofun, h.stopped⟩
    change s.gpuKref - 1 = 0 + s.topHalves.countP TopHalf.holdsGpu + s.unfinished
    simp only [reduceCtorEq, if_false] at hkref
    omega
  · exact h

theorem step_inv (s : State) (op : Op) (h : Inv s) : Inv (step s op) := by
  cases op with
  | interrupt =>
    rw [step]
    split
    · next hremoval =>
      have hkref := h.kref
      refine ⟨h.core.frame rfl rfl rfl rfl rfl rfl rfl, h.cleared, h.threads, ?_, h.scheduled,
        h.started, h.allScheduled, h.flushing, h.flushed, h.stopped⟩
      change s.gpuKref + 1 = (if s.removal = .done then 0 else 1) +
        (s.topHalves ++ [TopHalf.entered]).countP TopHalf.holdsGpu + s.unfinished
      rw [List.countP_append, List.countP_singleton]
      simp only [TopHalf.holdsGpu, if_true]
      omega
    · exact h
  | topHalf i faultsPending =>
    rw [step]
    split
    · exact h
    · next t hi => exact topHalfStep_inv h hi faultsPending
  | bottomHalf => exact bottomHalfStep_inv h
  | retain =>
    rw [step]
    split
    · next hremoval =>
      have hcore : Core (s.outstanding + (s.threads ++ [Thread.retained]).countP Thread.holdsLock)
          (s.outstanding + (s.threads ++ [Thread.retained]).countP Thread.disables) s := by
        simpa [List.countP_append, Thread.holdsLock, Thread.disables]
          using h.core
      exact ⟨hcore.frame rfl rfl rfl rfl rfl rfl rfl, h.cleared,
        fun hnot => absurd hremoval hnot, h.kref, h.scheduled, h.started, h.allScheduled,
        h.flushing, h.flushed, h.stopped⟩
    · exact h
  | thread i =>
    rw [step]
    split
    · exact h
    · next t hi => exact threadStep_inv h hi
  | removeGpu => exact removeGpuStep_inv h

theorem run_inv (handlesFaults : Bool) (ops : List Op) :
    Inv (Lib.run step (State.added handlesFaults) ops) :=
  Lib.run_inv step (added_inv handlesFaults) step_inv ops

/-! ## Runs -/

theorem step_removal {op : Op} (hop : op ≠ .removeGpu) : (step s op).removal = s.removal := by
  have hunlock : (gpuIsrUnlock s).removal = s.removal := by
    obtain ⟨_, _, _, _, heq⟩ := gpuIsrUnlock_frame s
    rw [heq]
  have hlock : (gpuIsrLock s).removal = s.removal := by
    obtain ⟨_, _, heq⟩ := gpuIsrLock_frame s
    rw [heq]
  cases op with
  | interrupt =>
    rw [step]
    split <;> rfl
  | topHalf i faultsPending =>
    rw [step]
    split
    · rfl
    · next t hi =>
      cases t with
      | entered =>
        rw [topHalfStep, topHalfSection, scheduleBottomHalf]
        split_ifs <;> rfl
      | quits => rfl
      | returned => rfl
  | bottomHalf =>
    rw [step, bottomHalfStep]
    split
    · split <;> rfl
    · exact hunlock
    · rfl
  | retain =>
    rw [step]
    split <;> rfl
  | thread i =>
    rw [step]
    split
    · rfl
    · next t hi =>
      cases t with
      | retained => exact hlock
      | waits =>
        rw [threadStep]
        split <;> rfl
      | locked => exact hunlock
      | unlocked => rfl
      | released => rfl
  | removeGpu => exact absurd rfl hop

theorem step_cleared (s : State) (op : Op) (h : s.removal.isCleared = true) :
    (step s op).removal.isCleared = true := by
  by_cases hop : op = .removeGpu
  · subst hop
    rw [step, removeGpuStep]
    split
    · next hremoval =>
      rw [hremoval] at h
      cases h
    · next hremoval =>
      rw [hremoval] at h
      cases h
    · split <;> rfl
    · split
      · rfl
      · exact h
    · rfl
    · rfl
    · exact h
  · rw [step_removal hop]
    exact h

theorem step_other {op : Op} (hop : op ≠ .bottomHalf) :
    (step s op).bottomHalf = s.bottomHalf ∧ (step s op).finished = s.finished ∧
      (s.bottomHalfPending = true → (step s op).bottomHalfPending = true) ∧
      s.scheduled ≤ (step s op).scheduled := by
  cases op with
  | interrupt =>
    rw [step]
    split <;> exact ⟨rfl, rfl, id, Nat.le_refl _⟩
  | topHalf i faultsPending =>
    rw [step]
    split
    · exact ⟨rfl, rfl, id, Nat.le_refl _⟩
    · next t hi =>
      cases t with
      | entered =>
        rw [topHalfStep, topHalfSection, scheduleBottomHalf]
        split_ifs
        · exact ⟨rfl, rfl, id, Nat.le_refl _⟩
        · exact ⟨rfl, rfl, id, Nat.le_refl _⟩
        · exact ⟨rfl, rfl, id, Nat.le_refl _⟩
        · exact ⟨rfl, rfl, id, Nat.le_refl _⟩
        · exact ⟨rfl, rfl, fun _ => rfl, Nat.le_succ _⟩
      | quits => exact ⟨rfl, rfl, id, Nat.le_refl _⟩
      | returned => exact ⟨rfl, rfl, id, Nat.le_refl _⟩
  | bottomHalf => exact absurd rfl hop
  | retain =>
    rw [step]
    split <;> exact ⟨rfl, rfl, id, Nat.le_refl _⟩
  | thread i =>
    rw [step]
    split
    · exact ⟨rfl, rfl, id, Nat.le_refl _⟩
    · next t hi =>
      cases t with
      | retained =>
        obtain ⟨_, _, heq⟩ := gpuIsrLock_frame s
        rw [threadStep, heq]
        exact ⟨rfl, rfl, id, Nat.le_refl _⟩
      | waits =>
        rw [threadStep]
        split <;> exact ⟨rfl, rfl, id, Nat.le_refl _⟩
      | locked =>
        obtain ⟨_, _, _, _, heq⟩ := gpuIsrUnlock_frame s
        rw [threadStep, heq]
        exact ⟨rfl, rfl, id, Nat.le_refl _⟩
      | unlocked => exact ⟨rfl, rfl, id, Nat.le_refl _⟩
      | released => exact ⟨rfl, rfl, id, Nat.le_refl _⟩
  | removeGpu =>
    rw [step, removeGpuStep]
    split
    · split <;> exact ⟨rfl, rfl, id, Nat.le_refl _⟩
    · dsimp only
      split <;> exact ⟨rfl, rfl, id, Nat.le_refl _⟩
    · split <;> exact ⟨rfl, rfl, id, Nat.le_refl _⟩
    · split <;> exact ⟨rfl, rfl, id, Nat.le_refl _⟩
    · exact ⟨rfl, rfl, id, Nat.le_refl _⟩
    · exact ⟨rfl, rfl, id, Nat.le_refl _⟩
    · exact ⟨rfl, rfl, id, Nat.le_refl _⟩

theorem step_scheduled (s : State) (op : Op) : s.scheduled ≤ (step s op).scheduled := by
  by_cases hop : op = .bottomHalf
  · subst hop
    rw [step, bottomHalfStep]
    split
    · split <;> exact Nat.le_refl _
    · obtain ⟨_, _, _, _, heq⟩ := gpuIsrUnlock_frame s
      exact Nat.le_of_eq (congrArg State.scheduled heq).symm
    · exact Nat.le_refl _
  · exact (step_other hop).2.2.2

section Progress

variable {handlesFaults : Bool} {ops : ℕ → Op} {n k : ℕ}

/-- The states of an infinite run. -/
abbrev states (handlesFaults : Bool) (ops : ℕ → Op) (n : ℕ) : State :=
  Lib.states step (State.added handlesFaults) ops n

theorem states_inv (handlesFaults : Bool) (ops : ℕ → Op) (n : ℕ) : Inv (states handlesFaults ops n) :=
  Lib.states_inv (added_inv handlesFaults) step_inv n

theorem phase_ends {P Q : State → Prop} {b : BottomHalf} (hfair : ∀ n, ∃ m ≥ n, ops m = .bottomHalf)
    (hkeep : ∀ s op, op ≠ .bottomHalf → P s → P (step s op))
    (hdo : ∀ s, Inv s → s.bottomHalf = b → s.finished = k → P s → Q (bottomHalfStep s))
    (hphase : (states handlesFaults ops n).bottomHalf = b)
    (hk : (states handlesFaults ops n).finished = k) (hP : P (states handlesFaults ops n)) :
    ∃ m ≥ n, Q (states handlesFaults ops m) := by
  refine Lib.eventually_of_taken (P := fun s => s.bottomHalf = b ∧ s.finished = k ∧ P s) .bottomHalf
    (states_inv handlesFaults ops) ?_ (fun s hinv h => hdo s hinv h.1 h.2.1 h.2.2)
    ⟨hphase, hk, hP⟩ (hfair n)
  rintro s op hinv ⟨hphase, hk, hP⟩
  by_cases hop : op = .bottomHalf
  · subst hop
    exact .inr (hdo s hinv hphase hk hP)
  · obtain ⟨hsame, hfin, -, -⟩ := step_other (s := s) hop
    exact .inl ⟨hsame.trans hphase, hfin.trans hk, hkeep s op hop hP⟩

theorem unlocked_finishes (hfair : ∀ n, ∃ m ≥ n, ops m = .bottomHalf)
    (hphase : (states handlesFaults ops n).bottomHalf = .unlocked)
    (hk : (states handlesFaults ops n).finished = k) :
    ∃ m ≥ n, k < (states handlesFaults ops m).finished := by
  refine phase_ends (P := fun _ => True) (Q := fun s => k < s.finished) hfair (fun _ _ _ h => h)
    (fun s _ hunlocked hfin _ => ?_) hphase hk trivial
  simp [bottomHalfStep, hunlocked, ← hfin]

theorem running_finishes (hfair : ∀ n, ∃ m ≥ n, ops m = .bottomHalf)
    (hphase : (states handlesFaults ops n).bottomHalf = .running)
    (hk : (states handlesFaults ops n).finished = k) :
    ∃ m ≥ n, k < (states handlesFaults ops m).finished := by
  obtain ⟨m, hm, hunlocked, hk'⟩ := phase_ends (P := fun _ => True)
    (Q := fun s => s.bottomHalf = .unlocked ∧ s.finished = k) hfair (fun _ _ _ h => h)
    (fun s _ hrun hfin _ => by
      obtain ⟨_, _, _, _, heq⟩ := gpuIsrUnlock_frame s
      rw [bottomHalfStep, hrun, heq]
      exact ⟨rfl, hfin⟩) hphase hk trivial
  obtain ⟨m', hm', hfin⟩ := unlocked_finishes hfair hunlocked hk'
  exact ⟨m', Nat.le_trans hm hm', hfin⟩

theorem pending_finishes (hfair : ∀ n, ∃ m ≥ n, ops m = .bottomHalf)
    (hphase : (states handlesFaults ops n).bottomHalf = .idle)
    (hpend : (states handlesFaults ops n).bottomHalfPending = true)
    (hk : (states handlesFaults ops n).finished = k) :
    ∃ m ≥ n, k < (states handlesFaults ops m).finished := by
  obtain ⟨m, hm, hrun, hk'⟩ := phase_ends (P := fun s => s.bottomHalfPending = true)
    (Q := fun s => s.bottomHalf = .running ∧ s.finished = k) hfair
    (fun s op hop h => (step_other hop).2.2.1 h)
    (fun s hinv hidle hfin hpend => by
      have hopen : s.queueStopped = false := by
        by_contra hstop
        have hdone := (hinv.stopped (by simpa using hstop)).2
        have hscheduled := hinv.scheduled
        have hstarted := hinv.started
        rw [hpend, Bool.toNat_true] at hscheduled
        omega
      simp [bottomHalfStep, hidle, hpend, hopen, hfin]) hphase hk hpend
  obtain ⟨m', hm', hfin⟩ := running_finishes hfair hrun hk'
  exact ⟨m', Nat.le_trans hm hm', hfin⟩

theorem scheduled_finishes (hfair : ∀ n, ∃ m ≥ n, ops m = .bottomHalf) (n : ℕ) :
    ∃ m ≥ n, (states handlesFaults ops n).scheduled ≤ (states handlesFaults ops m).finished := by
  have hmore : ∀ d, ∃ m ≥ n, d ≤ (states handlesFaults ops m).finished ∨
      (states handlesFaults ops n).scheduled ≤ (states handlesFaults ops m).finished := by
    intro d
    induction d with
    | zero => exact ⟨n, Nat.le_refl _, .inl (Nat.zero_le _)⟩
    | succ d ih =>
      obtain ⟨m, hm, hd | hd⟩ := ih
      swap
      · exact ⟨m, hm, .inr hd⟩
      by_cases hdone : (states handlesFaults ops n).scheduled ≤ (states handlesFaults ops m).finished
      · exact ⟨m, hm, .inr hdone⟩
      have hnext : ∃ m' ≥ m, (states handlesFaults ops m).finished <
          (states handlesFaults ops m').finished := by
        cases hphase : (states handlesFaults ops m).bottomHalf with
        | running => exact running_finishes hfair hphase rfl
        | unlocked => exact unlocked_finishes hfair hphase rfl
        | idle =>
          refine pending_finishes hfair hphase ?_ rfl
          have hgrows : (states handlesFaults ops n).scheduled ≤
              (states handlesFaults ops m).scheduled :=
            Lib.states_mono (R := fun s t : State => s.scheduled ≤ t.scheduled) (fun _ => Nat.le_refl _)
              (fun _ _ _ => Nat.le_trans) step_scheduled hm
          have hinv := states_inv handlesFaults ops m
          have hscheduled := hinv.scheduled
          have hstarted := hinv.started
          rw [hphase, if_pos rfl] at hstarted
          cases hpend : (states handlesFaults ops m).bottomHalfPending with
          | true => rfl
          | false =>
            rw [hpend, Bool.toNat_false] at hscheduled
            omega
      obtain ⟨m', hm', hfin⟩ := hnext
      exact ⟨m', Nat.le_trans hm hm', .inl (by omega)⟩
  obtain ⟨m, hm, hdone⟩ := hmore (states handlesFaults ops n).scheduled
  exact ⟨m, hm, hdone.elim id id⟩

end Progress

/-! ## The interrupt handling -/

/-- What holds in every state: the interrupt is enabled if nobody has disabled it; the lock is held
by one holder, who has released it as often as it was acquired once it is free; a bottom half that
was scheduled has started once, unless it is pending, and has a reference to the GPU until it has
finished. -/
structure Handled (s : State) : Prop where
  enabled : s.handlingReplayableFaults = true →
    (s.interruptsEnabled = true ↔ s.disableIntrRefCount = 0)
  holder : s.isrLock.toNat = s.outstanding + s.threads.countP Thread.holdsLock
  released : s.acquired = s.releases + s.isrLock.toNat
  noBadUnlock : s.badUnlock = false
  allScheduled : s.notScheduled = false
  scheduled : s.scheduled = s.started + s.bottomHalfPending.toNat
  started : s.started = s.finished + (if s.bottomHalf = .idle then 0 else 1)
  references : s.gpuKref = (if s.removal = .done then 0 else 1) +
    s.topHalves.countP TopHalf.holdsGpu + s.unfinished

theorem handled_run (handlesFaults : Bool) (ops : List Op) :
    Handled (Lib.run step (State.added handlesFaults) ops) := by
  have h := run_inv handlesFaults ops
  exact ⟨h.core.enabled, h.core.lock, h.core.acquired, h.core.noBadUnlock, h.allScheduled,
    h.scheduled, h.started, h.kref⟩

theorem cleared_run (handlesFaults : Bool) (ops more : List Op)
    (hcleared : (Lib.run step (State.added handlesFaults) ops).removal.isCleared = true) :
    (Lib.run step (State.added handlesFaults) (ops ++ more)).handlingReplayableFaults = false ∧
      (Lib.run step (State.added handlesFaults) (ops ++ more)).interruptsEnabled = false := by
  have hstays : (Lib.run step (State.added handlesFaults) (ops ++ more)).removal.isCleared =
      true := by
    induction more using List.reverseRecOn with
    | nil => simpa using hcleared
    | append_singleton more op ih =>
      rw [← List.append_assoc, Lib.run_concat]
      exact step_cleared _ _ ih
  have h := run_inv handlesFaults (ops ++ more)
  have hnot := h.cleared hstays
  exact ⟨hnot, h.core.off hnot⟩

/-- **The interrupt handling of a GPU**, in every interleaving: interrupts, lock, bottom halves and
references are right in every state, interrupts stay disabled once `remove_gpu` has cleared
`handling_replayable_faults`, and if the thread of the queue goes on, every bottom half that was
scheduled finishes. -/
theorem isr_right (handlesFaults : Bool) :
    (∀ ops, Handled (Lib.run step (State.added handlesFaults) ops)) ∧
    (∀ ops more, (Lib.run step (State.added handlesFaults) ops).removal.isCleared = true →
      (Lib.run step (State.added handlesFaults) (ops ++ more)).handlingReplayableFaults = false ∧
        (Lib.run step (State.added handlesFaults) (ops ++ more)).interruptsEnabled = false) ∧
    (∀ ops : ℕ → Op, (∀ n, ∃ m ≥ n, ops m = .bottomHalf) → ∀ n, ∃ m ≥ n,
      (states handlesFaults ops n).scheduled ≤ (states handlesFaults ops m).finished) :=
  ⟨handled_run handlesFaults, cleared_run handlesFaults, fun _ hfair n =>
    scheduled_finishes hfair n⟩

/-- A fault whose bottom half runs while the GPU is removed, and one whose bottom half is the only
party that goes on. -/
theorem isr_right_removal :
    (Lib.run step (State.added true) ([.interrupt, .topHalf 0 true, .removeGpu, .removeGpu] ++
      [.bottomHalf, .bottomHalf, .bottomHalf, .removeGpu, .removeGpu, .removeGpu,
        .removeGpu])).interruptsEnabled = false ∧
      ∃ m, 1 ≤ (states true (fun n => if n = 0 then .interrupt else if n = 1 then .topHalf 0 true
        else .bottomHalf) m).finished := by
  refine ⟨((isr_right true).2.1 _ _ (by decide)).2, ?_⟩
  obtain ⟨m, -, hfin⟩ := (isr_right true).2.2
    (fun n => if n = 0 then .interrupt else if n = 1 then .topHalf 0 true else .bottomHalf)
    (fun n => ⟨n + 2, by omega, by simp⟩) 2
  exact ⟨m, hfin⟩

end NvUvm.GpuIsr
