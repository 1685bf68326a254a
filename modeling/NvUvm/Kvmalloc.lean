import Mathlib.Algebra.BigOperators.Group.List.Basic
import Mathlib.Algebra.Order.Ring.Int
import NvUvm.Lib.Run

/-!
# The leak checker

The allocations of `uvm8_kvmalloc.c` with the counters of its leak checker, which counts the bytes that
are allocated, and at level 2 has a record of each allocation, or counts those that have none.
-/

namespace NvUvm.Kvmalloc

open Lib Function

inductive Kind where
  | kmalloc
  | vmalloc
  deriving DecidableEq, Repr

/-- An allocation, with what `uvm_kvsize` says of it. -/
structure Alloc where
  addr : ℕ
  kind : Kind
  size : ℕ
  deriving DecidableEq, Repr

/-- What a call meets: the address that the kernel has for it with the size that it can be used for,
the memory for a record, and whether the radix tree can be extended. -/
structure Outcome where
  memory : Option (ℕ × ℕ)
  info : Bool
  preload : Bool

/-- The live allocations and `g_uvm_leak_checker`; `level` is `uvm_leak_checker`. -/
structure KvState where
  level : ℕ
  live : List Alloc
  allocationInfo : ℕ → Bool
  bytesAllocated : ℤ
  untrackedAllocations : ℤ

/-- `UVM_KMALLOC_THRESHOLD`. -/
def kmallocThreshold : ℕ := 4 * 4096

/-- `alloc_internal`; an allocation of size zero has no memory. -/
def allocInternal (size : ℕ) (o : Outcome) : Option Alloc :=
  if size = 0 then none
  else if size ≤ kmallocThreshold then o.memory.map fun m => ⟨m.1, .kmalloc, m.2⟩
  else o.memory.map fun m => ⟨m.1, .vmalloc, size⟩

/-- `realloc_from_kmalloc` and `realloc_from_vmalloc`, for a size that is not zero. -/
def reallocMemory (a : Alloc) (newSize : ℕ) (o : Outcome) : Option Alloc :=
  match a.kind with
  | .kmalloc =>
    if newSize ≤ kmallocThreshold ∧ newSize ≤ a.size then some a else allocInternal newSize o
  | .vmalloc => if newSize = a.size then some a else allocInternal newSize o

namespace KvState

variable (s : KvState)

def init (level : ℕ) : KvState := ⟨level, [], fun _ => false, 0, 0⟩

/-- `insert_info`. -/
def insertInfo (p : ℕ) (preload : Bool) : KvState :=
  if preload then { s with allocationInfo := update s.allocationInfo p true }
  else { s with untrackedAllocations := s.untrackedAllocations + 1 }

/-- `remove_info`. -/
def removeInfo (p : ℕ) : KvState :=
  if s.allocationInfo p then { s with allocationInfo := update s.allocationInfo p false }
  else { s with untrackedAllocations := s.untrackedAllocations - 1 }

def addBytes (n : ℤ) : KvState := { s with bytesAllocated := s.bytesAllocated + n }

/-- `alloc_tracking_add`. -/
def allocTrackingAdd (a : Alloc) (o : Outcome) : KvState :=
  let s := s.addBytes a.size
  if 2 ≤ s.level then
    if o.info then s.insertInfo a.addr o.preload
    else { s with untrackedAllocations := s.untrackedAllocations + 1 }
  else s

/-- `alloc_tracking_remove`. -/
def allocTrackingRemove (a : Alloc) : KvState :=
  let s := s.addBytes (-a.size)
  if 2 ≤ s.level then s.removeInfo a.addr else s

/-- The tracking is on. -/
def tracked (f : KvState → KvState) : KvState := if s.level = 0 then s else f s

def setLive (live : List Alloc) : KvState := { s with live := live }

/-- `__uvm_kvmalloc` and `__uvm_kvmalloc_zero`. -/
def kvmalloc (size : ℕ) (o : Outcome) : KvState :=
  match allocInternal size o with
  | none => s
  | some a => (s.tracked (·.allocTrackingAdd a o)).setLive (a :: s.live)

/-- The allocation at a pointer; null pointers have none. -/
def lookup (p : ℕ) : Option Alloc := s.live.find? fun a => a.addr = p

def kvfree (p : ℕ) : KvState :=
  match s.lookup p with
  | none => s
  | some a => (s.tracked (·.allocTrackingRemove a)).setLive (s.live.erase a)

/-- What `__uvm_kvrealloc` puts back when it fails. -/
def putBack (a : Alloc) (info preload : Bool) : KvState :=
  let s := s.addBytes a.size
  if 2 ≤ s.level ∧ info then s.insertInfo a.addr preload else s

/-- `__uvm_kvrealloc`. -/
def kvrealloc (p newSize : ℕ) (o : Outcome) : KvState :=
  match s.lookup p with
  | none => s.kvmalloc newSize o
  | some a =>
    -- of memory that stays allocated, the bytes and the record are removed in the same way
    let removed := s.tracked (·.allocTrackingRemove a)
    if newSize = 0 then removed.setLive (s.live.erase a)
    else
      match reallocMemory a newSize o with
      | none => (removed.tracked (·.putBack a (s.allocationInfo a.addr) o.preload)).setLive s.live
      | some b => (removed.tracked (·.allocTrackingAdd b o)).setLive (b :: s.live.erase a)

end KvState

inductive KvOp where
  | kvmalloc (size : ℕ) (o : Outcome)
  | kvfree (p : ℕ)
  | kvrealloc (p newSize : ℕ) (o : Outcome)

/-- The memory that the kernel has for a call. -/
def KvOp.memory : KvOp → Option (ℕ × ℕ)
  | .kvmalloc _ o | .kvrealloc _ _ o => o.memory
  | .kvfree _ => none

/-- It is not in use. -/
def KvState.Fresh (s : KvState) (op : KvOp) : Prop :=
  ∀ a ∈ s.live, ∀ m ∈ op.memory, a.addr ≠ m.1

instance (s : KvState) (op : KvOp) : Decidable (s.Fresh op) := by
  unfold KvState.Fresh
  infer_instance

/-- A call; one for which the kernel has memory that is in use does not happen. -/
def step (s : KvState) (op : KvOp) : KvState :=
  if s.Fresh op then
    match op with
    | .kvmalloc size o => s.kvmalloc size o
    | .kvfree p => s.kvfree p
    | .kvrealloc p newSize o => s.kvrealloc p newSize o
  else s

/-- What the counters should say. -/
structure CountersRight (s : KvState) : Prop where
  bytes : 1 ≤ s.level → s.bytesAllocated = (s.live.map fun a => (a.size : ℤ)).sum
  untracked : 2 ≤ s.level →
    s.untrackedAllocations = s.live.countP fun a => !s.allocationInfo a.addr

/-- A call does not fail to reallocate memory without a record. -/
def Restores (s : KvState) : KvOp → Prop
  | .kvrealloc p newSize o => 2 ≤ s.level → s.Fresh (.kvrealloc p newSize o) →
    ∀ a ∈ s.lookup p, !s.allocationInfo a.addr → newSize ≠ 0 → reallocMemory a newSize o ≠ none
  | _ => True

/-! ## What the checker says of a list of allocations -/

structure Tracks (s : KvState) (l : List Alloc) : Prop where
  addrs : (l.map Alloc.addr).Nodup
  bytes : 1 ≤ s.level → s.bytesAllocated = (l.map fun a => (a.size : ℤ)).sum
  untracked : 2 ≤ s.level → s.untrackedAllocations = l.countP fun a => !s.allocationInfo a.addr
  known : 2 ≤ s.level → ∀ p, s.allocationInfo p → p ∈ l.map Alloc.addr

variable {s : KvState} {l l' : List Alloc} {a b : Alloc} {o : Outcome} {n p : ℕ} {op : KvOp}

namespace Tracks

theorem perm (h : Tracks s l) (hl : l.Perm l') : Tracks s l' where
  addrs := (hl.map _).nodup_iff.mp h.addrs
  bytes := fun hs => (h.bytes hs).trans (hl.map _).sum_eq
  untracked := fun hs => (h.untracked hs).trans (congrArg _ (hl.countP_eq _))
  known := fun hs p hp => (hl.map _).mem_iff.mp (h.known hs p hp)

theorem setLive (h : Tracks s l) : Tracks (s.setLive l') l := ⟨h.1, h.2, h.3, h.4⟩

theorem countP_update (info : ℕ → Bool) (v : Bool) (ha : a.addr ∉ l.map Alloc.addr) :
    l.countP (fun c => !update info a.addr v c.addr) = l.countP fun c => !info c.addr := by
  refine List.countP_congr fun c hc => ?_
  have hne : c.addr ≠ a.addr := fun h => ha (h ▸ List.mem_map_of_mem hc)
  rw [update_of_ne hne]

theorem add (h : Tracks s l) (ha : a.addr ∉ l.map Alloc.addr) :
    Tracks (s.tracked (·.allocTrackingAdd a o)) (a :: l) := by
  have haddrs : ((a :: l).map Alloc.addr).Nodup := List.nodup_cons.mpr ⟨ha, h.addrs⟩
  unfold KvState.tracked KvState.allocTrackingAdd KvState.insertInfo KvState.addBytes
  have hbytes := h.bytes
  have hun := h.untracked
  have hsame := countP_update s.allocationInfo true ha
  -- only live allocations have records, so that a new one has none yet
  have hno : 2 ≤ s.level → s.allocationInfo a.addr = false := fun hs =>
    Bool.eq_false_iff.mpr fun hi => ha (h.known hs _ hi)
  have hkn := h.known
  dsimp only
  split_ifs with h0 h2 <;> constructor <;> grind

theorem remove (h : Tracks s (a :: l)) : Tracks (s.tracked (·.allocTrackingRemove a)) l := by
  obtain ⟨ha, hl⟩ := List.nodup_cons.mp h.addrs
  have hsame := countP_update s.allocationInfo false ha
  have hbytes := h.bytes
  have hun := h.untracked
  have hkn := h.known
  unfold KvState.tracked KvState.allocTrackingRemove KvState.removeInfo KvState.addBytes
  dsimp only
  split_ifs with h0 h2 <;> constructor <;> grind

end Tracks

theorem level_removed : (s.tracked (·.allocTrackingRemove a)).level = s.level := by
  unfold KvState.tracked KvState.allocTrackingRemove KvState.removeInfo
  dsimp only
  split_ifs <;> rfl

theorem putBack_eq {info preload : Bool} (h : 2 ≤ s.level → info) :
    s.tracked (·.putBack a info preload) =
      s.tracked (·.allocTrackingAdd a ⟨none, true, preload⟩) := by
  unfold KvState.tracked KvState.putBack KvState.allocTrackingAdd
  by_cases hs : 2 ≤ s.level
  · simp [KvState.addBytes, hs, h hs]
  · simp [KvState.addBytes, hs]

theorem allocInternal_addr (h : allocInternal n o = some b) : ∃ m ∈ o.memory, b.addr = m.1 := by
  unfold allocInternal at h
  split_ifs at h <;> obtain ⟨m, hm, rfl⟩ := Option.map_eq_some_iff.mp h <;> exact ⟨m, hm, rfl⟩

theorem reallocMemory_addr (h : reallocMemory a n o = some b) :
    b = a ∨ ∃ m ∈ o.memory, b.addr = m.1 := by
  unfold reallocMemory at h
  split at h <;> split_ifs at h
  all_goals first
    | exact .inl (Option.some.inj h).symm
    | exact .inr (allocInternal_addr h)

/-- The checker is right about the live allocations. -/
def Inv (s : KvState) : Prop := Tracks s s.live

theorem Inv.countersRight (h : Inv s) : CountersRight s := ⟨h.bytes, h.untracked⟩

theorem lookup_mem (h : s.lookup p = some a) : a ∈ s.live := List.mem_of_find?_eq_some h

theorem Inv.kvmalloc (h : Inv s) (hfresh : s.Fresh (.kvmalloc n o)) : Inv (s.kvmalloc n o) := by
  unfold KvState.kvmalloc
  split
  · exact h
  · next b hb =>
    obtain ⟨m, hm, haddr⟩ := allocInternal_addr hb
    refine (Tracks.add h ?_).setLive
    simp only [List.mem_map, not_exists, not_and]
    exact fun c hc => haddr ▸ hfresh c hc m hm

theorem Inv.removed (h : Inv s) (ha : a ∈ s.live) :
    Tracks (s.tracked (·.allocTrackingRemove a)) (s.live.erase a) :=
  (Tracks.perm h (List.perm_cons_erase ha)).remove

theorem Inv.kvfree (h : Inv s) (p : ℕ) : Inv (s.kvfree p) := by
  unfold KvState.kvfree
  split
  · exact h
  · next a ha => exact (h.removed (lookup_mem ha)).setLive

theorem Inv.kvrealloc (h : Inv s) (hfresh : s.Fresh (.kvrealloc p n o))
    (hok : Restores s (.kvrealloc p n o)) : Inv (s.kvrealloc p n o) := by
  unfold KvState.kvrealloc
  split
  · exact h.kvmalloc hfresh
  next a ha =>
  have hmem := lookup_mem ha
  have hperm := List.perm_cons_erase hmem
  have hold : a.addr ∉ (s.live.erase a).map Alloc.addr :=
    (List.nodup_cons.mp (Tracks.perm h hperm).addrs).1
  dsimp only
  split_ifs with hn
  · exact (h.removed hmem).setLive
  split
  · next hfail =>
    -- what is put back is what was removed, since there was a record
    have hinfo : 2 ≤ (s.tracked (·.allocTrackingRemove a)).level → s.allocationInfo a.addr := by
      intro hs
      by_contra hno
      exact hok (level_removed ▸ hs) hfresh a ha (by simpa using hno) hn hfail
    rw [putBack_eq hinfo]
    exact (((h.removed hmem).add hold).perm hperm.symm).setLive
  · next b hb =>
    refine ((h.removed hmem).add ?_).setLive
    -- the memory stays where it is, or is new
    obtain rfl | ⟨m, hm, haddr⟩ := reallocMemory_addr hb
    · exact hold
    · simp only [List.mem_map, not_exists, not_and]
      exact fun c hc => haddr ▸ hfresh c (List.mem_of_mem_erase hc) m hm

theorem Inv.step (h : Inv s) (hok : Restores s op) : Inv (step s op) := by
  unfold Kvmalloc.step
  split_ifs with hfresh
  · cases op with
    | kvmalloc size o => exact h.kvmalloc hfresh
    | kvfree p => exact h.kvfree p
    | kvrealloc p newSize o => exact h.kvrealloc hfresh hok
  · exact h

theorem Inv.restores (h : Inv s) (hright : CountersRight (Kvmalloc.step s op)) :
    Restores s op := by
  cases op with
  | kvmalloc | kvfree => trivial
  | kvrealloc p newSize o =>
    intro hs hfresh a ha hinfo hn hfail
    -- removing the allocation has counted it, and nothing counts it again
    have hone : s.level ≠ 0 := by omega
    have hno : s.allocationInfo a.addr = false := by simpa using hinfo
    have hun := hright.untracked
    simp only [Kvmalloc.step, if_pos hfresh, KvState.kvrealloc, Option.mem_def.mp ha, if_neg hn,
      hfail] at hun
    simp [KvState.tracked, KvState.allocTrackingRemove, KvState.removeInfo, KvState.putBack,
      KvState.addBytes, KvState.setLive, hone, hs, hno, h.untracked hs] at hun

/-- **The counters are right exactly along the runs whose calls restore them.** -/
theorem countersRight_along_iff (level : ℕ) (ops : List KvOp) :
    HoldsAlong step CountersRight (KvState.init level) ops ↔
      StepsMeet step Restores (KvState.init level) ops := by
  have hinit : Inv (KvState.init level) :=
    ⟨List.nodup_nil, fun _ => rfl, fun _ => rfl, fun _ _ h => absurd h Bool.false_ne_true⟩
  refine holds_along_iff_of_guarded step hinit (fun _ h => h.countersRight) (fun s op h => ?_)
    (fun s op h => h.step) ops
  exact ⟨h.restores, fun hok => (h.step hok).countersRight⟩

/-- Memory without a record that cannot be made larger is no longer counted. -/
theorem not_countersRight_run : ¬∀ level ops,
    HoldsAlong step CountersRight (KvState.init level) ops := by
  intro h
  have hrun := (h 2 [.kvmalloc 100 ⟨some (1, 128), false, true⟩,
    .kvrealloc 1 200 ⟨none, true, true⟩] _ (List.prefix_refl _)).untracked le_rfl
  exact absurd hrun (by decide)

end NvUvm.Kvmalloc
