import NvUvm.Lib.Run
import NvUvm.Lib.Waiting
import NvUvm.Processor

/-!
# Lock orders

`uvm8_lock.c`: the debug build records the locks of a thread in its context and asserts that each
record is right.  A lock is recorded before the thread waits for it, and its record goes when it has
been released.  When the kernel grants a lock is left open.  A context is kept from the first lock to
the last; what it holds without locks is what a new one holds.
-/

namespace NvUvm.LockTracking

open Lib
open Function (update update_self update_of_ne)

/-- `uvm_lock_order_t`. -/
inductive LockOrder where
  | invalid | global | isr | mmapSem | vaSpaceSerializeWriters | vaSpace | gpuSemaphorePool
  | rmApi | rmGpus | vaBlock | pageTree | swizzleStaging | push | pmm | pmmPma | pmmRootChunk
  | channel | toolsVaSpaceList | vaSpaceEvents | semaPoolTracker | leaf
  deriving DecidableEq

/-- `UVM_LOCK_ORDER_COUNT`. -/
def lockOrderCount : ℕ := 21

/-- `uvm_thread_context_t`. -/
structure ThreadContext where
  skipLockTracking : ℕ := 0
  acquiredLockOrders : LockOrder → Bool := fun _ => false
  exclusiveAcquiredLockOrders : LockOrder → Bool := fun _ => false
  acquiredLocks : LockOrder → Option ℕ := fun _ => none

namespace ThreadContext

variable (c : ThreadContext) (lock : ℕ) (order : LockOrder)

/-- `find_next_bit` finds an acquired order from `first` on. -/
def acquiredFrom (first : ℕ) : Bool :=
  (List.range lockOrderCount).any fun i => first ≤ i && c.acquiredLockOrders (.ofNat i)

/-- `__uvm_record_lock`. -/
def recordLock (exclusive : Bool) : Bool × ThreadContext :=
  if 0 < c.skipLockTracking then (true, c)
  else if order = .invalid then (false, c)
  else
    -- the special rules for the RM locks
    let rm := order = .rmGpus → c.exclusiveAcquiredLockOrders .vaSpace = false ∧
      (c.acquiredLockOrders .vaSpace = true → c.acquiredLockOrders .vaSpaceSerializeWriters = true)
    (decide (rm ∧ ¬ c.acquiredFrom order.ctorIdx), { c with
      acquiredLockOrders := update c.acquiredLockOrders order true
      exclusiveAcquiredLockOrders :=
        if exclusive then update c.exclusiveAcquiredLockOrders order true
        else c.exclusiveAcquiredLockOrders
      acquiredLocks := update c.acquiredLocks order (some lock) })

/-- `__uvm_record_unlock`. -/
def recordUnlock (exclusive outOfOrder : Bool) : Bool × ThreadContext :=
  if 0 < c.skipLockTracking then (true, c)
  else if order = .invalid then (false, c)
  else
    let ordered := outOfOrder = true ∨ ¬ c.acquiredFrom (order.ctorIdx + 1)
    let same := c.acquiredLockOrders order = true ∧ c.acquiredLocks order = some lock
    (decide (ordered ∧ same ∧ c.exclusiveAcquiredLockOrders order = exclusive), { c with
      acquiredLockOrders := update c.acquiredLockOrders order false
      exclusiveAcquiredLockOrders :=
        if same then update c.exclusiveAcquiredLockOrders order false
        else c.exclusiveAcquiredLockOrders
      acquiredLocks := update c.acquiredLocks order none })

/-- `__uvm_check_locked`; no mode is `UVM_LOCK_MODE_ANY`. -/
def checkLocked (exclusive : Option Bool) : Bool :=
  decide (0 < c.skipLockTracking) || (c.acquiredLockOrders order &&
    decide (c.acquiredLocks order = some lock) &&
      exclusive.all fun e => c.exclusiveAcquiredLockOrders order == e)

/-- `__uvm_check_all_unlocked`. -/
def checkAllUnlocked : Bool := !c.acquiredFrom 0

end ThreadContext

/-- A thread: its context, the locks that it has or waits for, exclusively or not, and the one that
it waits for. -/
structure LockThread where
  context : ThreadContext := {}
  locks : ℕ → Option Bool := fun _ => none
  waitsFor : Option ℕ := none

def LockThread.Holds (t : LockThread) (l : ℕ) : Prop := t.locks l ≠ none ∧ t.waitsFor ≠ some l

/-- What a thread does to its locks. -/
inductive LockOp where
  | lock (lock : ℕ) (exclusive : Bool)
  | acquired
  | unlock (lock : ℕ) (exclusive outOfOrder : Bool)

variable (order : ℕ → LockOrder)

/-- A step, and whether its record is right.  A thread that waits does nothing but that. -/
def LockThread.step (t : LockThread) : LockOp → Bool × LockThread
  | .lock l exclusive =>
    if t.waitsFor = none then
      let r := t.context.recordLock l (order l) exclusive
      (r.1, ⟨r.2, update t.locks l (some exclusive), some l⟩)
    else (true, t)
  | .acquired => (true, { t with waitsFor := none })
  | .unlock l exclusive outOfOrder =>
    if t.waitsFor = none then
      let r := t.context.recordUnlock l (order l) exclusive outOfOrder
      (r.1, ⟨r.2, update t.locks l none, none⟩)
    else (true, t)

/-- The threads, of which one takes a step. -/
def step (s : ℕ → LockThread) (op : ℕ × LockOp) : ℕ → LockThread :=
  update s op.1 ((s op.1).step order op.2).2

def RecordsRight (s : ℕ → LockThread) (op : ℕ × LockOp) : Prop :=
  ((s op.1).step order op.2).1 = true

/-- In every set of threads there is one that waits for no lock that one of them holds. -/
def NoDeadlock (s : ℕ → LockThread) : Prop :=
  ∀ S : Set ℕ, S.Nonempty → ∃ t ∈ S, ∀ l, (s t).waitsFor = some l → ∀ u ∈ S, ¬ (s u).Holds l

/-- A thread is told right which locks it has. -/
def ChecksRight (s : ℕ → LockThread) : Prop :=
  ∀ t, (∀ l mode, (s t).context.checkLocked l (order l) mode = true ↔
      ∃ exclusive, (s t).locks l = some exclusive ∧ ∀ e, mode = some e → exclusive = e) ∧
    ((s t).context.checkAllUnlocked = true ↔ ∀ l, (s t).locks l = none)

/-! ## The record of one thread -/

theorem LockOrder.ctorIdx_lt (o : LockOrder) : o.ctorIdx < lockOrderCount := by
  cases o <;> decide

theorem ThreadContext.acquiredFrom_iff {c : ThreadContext} {first : ℕ} :
    c.acquiredFrom first = true ↔
      ∃ o : LockOrder, first ≤ o.ctorIdx ∧ c.acquiredLockOrders o = true := by
  have hidx : ∀ i < lockOrderCount, (LockOrder.ofNat i).ctorIdx = i := by decide
  simp only [acquiredFrom, List.any_eq_true, List.mem_range, Bool.and_eq_true, decide_eq_true_eq]
  constructor
  · rintro ⟨i, hi, hle, hacq⟩
    exact ⟨.ofNat i, by rwa [hidx i hi], hacq⟩
  · rintro ⟨o, hle, hacq⟩
    exact ⟨o.ctorIdx, o.ctorIdx_lt, hle, by rwa [LockOrder.ofNat_ctorIdx]⟩

/-- The context says what locks there are, and a thread waits behind all the others that it has. -/
structure Tracked (t : LockThread) : Prop where
  skip : t.context.skipLockTracking = 0
  recorded : ∀ l exclusive, t.locks l = some exclusive →
    t.context.acquiredLockOrders (order l) = true ∧
      t.context.acquiredLocks (order l) = some l ∧
        t.context.exclusiveAcquiredLockOrders (order l) = exclusive
  only : ∀ o, t.context.acquiredLockOrders o = true → ∃ l, order l = o ∧ t.locks l ≠ none
  exclusive : ∀ o, t.context.exclusiveAcquiredLockOrders o = true →
    t.context.acquiredLockOrders o = true
  behind : ∀ l, t.waitsFor = some l → ∀ l', t.Holds l' → (order l').ctorIdx < (order l).ctorIdx

variable {order} {t : LockThread} {l : ℕ}

/-- One lock of an order at a time. -/
theorem Tracked.alone (h : Tracked order t) {e : Bool} (hl : t.locks l = some e) (l' : ℕ)
    (hne : l' ≠ l) (hl' : t.locks l' ≠ none) : order l' ≠ order l := by
  intro ho
  obtain ⟨e', he'⟩ := Option.ne_none_iff_exists'.mp hl'
  have hlock := (h.recorded l' e' he').2.1
  rw [ho, (h.recorded l e hl).2.1] at hlock
  exact hne (Option.some.inj hlock).symm

/-- The entry of `l` changes, with the record of its order. -/
theorem Tracked.set (h : Tracked order t) {entry : Option Bool} {waits : Option ℕ}
    {c : ThreadContext} (hskip : c.skipLockTracking = 0)
    (hothers : ∀ o ≠ order l, c.acquiredLockOrders o = t.context.acquiredLockOrders o ∧
      c.acquiredLocks o = t.context.acquiredLocks o ∧
        c.exclusiveAcquiredLockOrders o = t.context.exclusiveAcquiredLockOrders o)
    (hown : c.acquiredLockOrders (order l) = entry.isSome ∧
      (entry.isSome → c.acquiredLocks (order l) = some l) ∧
        c.exclusiveAcquiredLockOrders (order l) = (entry == some true))
    (halone : ∀ l' ≠ l, t.locks l' ≠ none → order l' ≠ order l)
    (hbehind : ∀ l', waits = some l' → l' = l ∧
      ∀ o, t.context.acquiredLockOrders o = true → o.ctorIdx < (order l).ctorIdx) :
    Tracked order ⟨c, update t.locks l entry, waits⟩ := by
  refine ⟨hskip, fun l' e hl' => ?_, fun o hacq => ?_, fun o hex => ?_,
    fun l' hwaits l'' hl'' => ?_⟩
  · by_cases hl : l' = l
    · obtain rfl : entry = some e := by simpa [hl] using hl'
      simpa [hl] using hown
    · replace hl' := (update_of_ne hl _ _).symm.trans hl'
      have ho := hothers _ (halone l' hl (by simp [hl']))
      simpa [ho] using h.recorded l' e hl'
  · by_cases ho : o = order l
    · exact ⟨l, ho.symm, by simpa [ho, hown.1, Option.isSome_iff_ne_none] using hacq⟩
    · obtain ⟨l', ho', hl'⟩ := h.only o ((hothers o ho).1.symm.trans hacq)
      have hl : l' ≠ l := fun heq => ho (heq ▸ ho'.symm)
      exact ⟨l', ho', by simpa [hl] using hl'⟩
  · by_cases ho : o = order l
    · subst ho
      rw [hown.2.2, beq_iff_eq] at hex
      simp [hown.1, hex]
    · rw [(hothers o ho).1]
      exact h.exclusive o ((hothers o ho).2.2.symm.trans hex)
  · obtain ⟨rfl, hlt⟩ := hbehind l' hwaits
    have hl : l'' ≠ l' := fun heq => hl''.2 (heq ▸ hwaits)
    obtain ⟨e, he⟩ := Option.ne_none_iff_exists'.mp (by simpa [hl] using hl''.1)
    exact hlt _ (h.recorded l'' e he).1

theorem Tracked.lock (h : Tracked order t) {exclusive : Bool}
    (hright : (t.context.recordLock l (order l) exclusive).1 = true) :
    Tracked order ⟨(t.context.recordLock l (order l) exclusive).2,
      update t.locks l (some exclusive), some l⟩ := by
  unfold ThreadContext.recordLock at hright ⊢
  rw [if_neg (by simp [h.skip])] at hright ⊢
  by_cases hinv : order l = .invalid
  · simp [hinv] at hright
  rw [if_neg hinv] at hright ⊢
  have hfree := (of_decide_eq_true hright).2
  rw [ThreadContext.acquiredFrom_iff] at hfree
  have hbehind : ∀ o, t.context.acquiredLockOrders o = true → o.ctorIdx < (order l).ctorIdx :=
    fun o hacq => Nat.lt_of_not_le fun hle => hfree ⟨o, hle, hacq⟩
  have hnone : ∀ o, t.context.acquiredLockOrders o = true → o ≠ order l := fun o hacq heq =>
    (hbehind o hacq).ne (congrArg LockOrder.ctorIdx heq)
  have hshared : t.context.exclusiveAcquiredLockOrders (order l) = false := by
    by_contra hex
    exact hnone _ (h.exclusive _ (by simpa using hex)) rfl
  refine h.set h.skip (fun o ho => ?_) ?_ (fun l' _ hl' => ?_) fun l' hwaits =>
    ⟨(Option.some.inj hwaits).symm, hbehind⟩
  · cases exclusive <;> simp [ho]
  · cases exclusive <;> simp [hshared]
  · obtain ⟨e, he⟩ := Option.ne_none_iff_exists'.mp hl'
    exact hnone _ (h.recorded l' e he).1

theorem Tracked.unlock (h : Tracked order t) {exclusive outOfOrder : Bool}
    (hright : (t.context.recordUnlock l (order l) exclusive outOfOrder).1 = true) :
    Tracked order ⟨(t.context.recordUnlock l (order l) exclusive outOfOrder).2,
      update t.locks l none, none⟩ := by
  unfold ThreadContext.recordUnlock at hright ⊢
  rw [if_neg (by simp [h.skip])] at hright ⊢
  by_cases hinv : order l = .invalid
  · simp [hinv] at hright
  rw [if_neg hinv] at hright ⊢
  obtain ⟨-, hsame, -⟩ := of_decide_eq_true hright
  simp only [if_pos hsame]
  -- the lock of the record is one that the thread has
  obtain ⟨l', ho, hl'⟩ := h.only _ hsame.1
  obtain ⟨e, he⟩ := Option.ne_none_iff_exists'.mp hl'
  have hlock := (h.recorded l' e he).2.1
  rw [ho, hsame.2] at hlock
  obtain rfl := Option.some.inj hlock
  exact h.set h.skip (fun o ho => by simp [ho]) (by simp) (h.alone he) (by simp)

/-- **Step lemma**: a step whose record is right keeps the records of its thread. -/
theorem Tracked.step (h : Tracked order t) (op : LockOp) (hright : (t.step order op).1 = true) :
    Tracked order (t.step order op).2 := by
  cases op with
  | lock l exclusive =>
    simp only [LockThread.step] at hright ⊢
    split
    · next hidle => exact h.lock (by rwa [if_pos hidle] at hright)
    · exact h
  | acquired => exact ⟨h.skip, h.recorded, h.only, h.exclusive, by simp [LockThread.step]⟩
  | unlock l exclusive outOfOrder =>
    simp only [LockThread.step] at hright ⊢
    split
    · next hidle => exact h.unlock (by rwa [if_pos hidle] at hright)
    · exact h

/-! ## Runs -/

theorem noDeadlock (s : ℕ → LockThread) (h : ∀ t, Tracked order (s t)) : NoDeadlock s := by
  intro S hS
  exact exists_unblocked (fun t => (s t).Holds) (fun t l => (s t).waitsFor = some l)
    (fun l => (order l).ctorIdx) (fun l => (order l).ctorIdx_lt)
    (fun t l l' hheld hwaits => (h t).behind l' hwaits l hheld) hS

theorem checksRight (s : ℕ → LockThread) (h : ∀ t, Tracked order (s t)) : ChecksRight order s := by
  intro t
  refine ⟨fun l mode => ?_, ?_⟩
  · simp only [ThreadContext.checkLocked, (h t).skip, Nat.lt_irrefl, decide_false, Bool.false_or,
      Bool.and_eq_true, decide_eq_true_eq]
    constructor
    · rintro ⟨⟨hacq, hlock⟩, hmode⟩
      obtain ⟨l', ho, hhas⟩ := (h t).only _ hacq
      obtain ⟨e, he⟩ := Option.ne_none_iff_exists'.mp hhas
      obtain ⟨-, hlock', hex⟩ := (h t).recorded l' e he
      rw [ho, hlock] at hlock'
      obtain rfl := Option.some.inj hlock'
      exact ⟨e, he, fun e' he' => by simpa [he', hex] using hmode⟩
    · rintro ⟨e, he, hmode⟩
      obtain ⟨hacq, hlock, hex⟩ := (h t).recorded l e he
      refine ⟨⟨hacq, hlock⟩, ?_⟩
      cases mode with
      | none => rfl
      | some e' => simp [hex, hmode e' rfl]
  · rw [ThreadContext.checkAllUnlocked, Bool.not_eq_true', ← Bool.not_eq_true,
      ThreadContext.acquiredFrom_iff]
    simp only [Nat.zero_le, true_and, not_exists]
    constructor
    · intro hnone l
      by_contra hhas
      obtain ⟨e, he⟩ := Option.ne_none_iff_exists'.mp hhas
      exact hnone _ ((h t).recorded l e he).1
    · intro hnone o hacq
      obtain ⟨l, -, hhas⟩ := (h t).only o hacq
      exact hhas (hnone l)

/-- **Locks that are taken in order** do not deadlock: in every run of any threads whose records are
all right, every set of threads has one that waits for no lock of the others, and the checks of a
thread answer what it has. -/
theorem noDeadlock_along (order : ℕ → LockOrder) (ops : List (ℕ × LockOp))
    (h : StepsMeet (step order) (RecordsRight order) (fun _ => {}) ops) :
    HoldsAlong (step order) (fun s => NoDeadlock s ∧ ChecksRight order s) (fun _ => {}) ops := by
  refine holds_along_of_meets (step order) (W := fun s => ∀ t, Tracked order (s t))
    (fun _ => ⟨rfl, by simp, by simp, by simp, by simp⟩)
    (fun s hs => ⟨noDeadlock s hs, checksRight s hs⟩) (fun s op hs hright t => ?_) h
  unfold LockTracking.step
  by_cases ht : t = op.1
  · subst ht
    rw [update_self]
    exact (hs _).step op.2 hright
  · rw [update_of_ne ht]
    exact hs t

/-- Two threads take a lock of each of two orders; the second waits for the first. -/
theorem noDeadlock_along_two :
    let order := fun l => if l = 0 then LockOrder.vaSpace else .vaBlock
    HoldsAlong (step order) (fun s => NoDeadlock s ∧ ChecksRight order s) (fun _ => {})
      [(0, .lock 0 false), (0, .acquired), (0, .lock 1 true), (0, .acquired), (1, .lock 0 false),
        (1, .acquired), (1, .lock 1 true), (0, .unlock 1 true false), (1, .acquired)] := by
  intro order
  apply noDeadlock_along
  simp only [stepsMeet_cons, stepsMeet_nil, RecordsRight]
  decide

end NvUvm.LockTracking
