import Mathlib.Algebra.Ring.Nat
import Mathlib.Data.List.Chain
import NvUvm.Lib.Intervals

/-!
# Range groups and their migratability iterator

Model of the iterator over range groups in `uvm8_range_group.c`, which `uvm_migrate` uses to
cut a VA range into segments that are either entirely migratable or entirely not.

A range tree is its list of nodes in address order, and a pointer to a node is the suffix of
that list that starts there, so that `NULL` is the empty list and the tree's next node is the
tail.  The caller must pass `start <= end`.
-/

namespace NvUvm

open Lib

/-- `uvm_range_group_t`: its id, and whether migration out of its location is allowed. -/
structure RangeGroup where
  id : ℕ
  allowMigration : Bool
  deriving DecidableEq, Repr

/-- `uvm_range_group_range_t`. -/
abbrev RangeGroupRange := Interval RangeGroup

/-- `uvm_range_group_migratable` of the group of a range group range. -/
def uvmRangeGroupMigratable (rgr : RangeGroupRange) : Bool :=
  rgr.val.allowMigration

/-- `uvm_range_group_address_migratable`: false exactly in a range of a group that forbids
migration. -/
def uvmRangeGroupAddressMigratable (tree : List RangeGroupRange) (address : ℕ) : Bool :=
  match lookup tree address with
  | none => true
  | some rgr => uvmRangeGroupMigratable rgr

/-- `uvm_range_group_all_migratable`, over the addresses of `[start, end]`. -/
def uvmRangeGroupAllMigratable (tree : List RangeGroupRange) (start last : ℕ) : Prop :=
  ∀ a, start ≤ a → a ≤ last → uvmRangeGroupAddressMigratable tree a = true

/-- `uvm_range_group_range_iter_t`. -/
structure RangeGroupRangeIter where
  start : ℕ
  last : ℕ
  migratable : Bool
  valid : Bool
  isCurrent : Bool
  node : List RangeGroupRange
  deriving DecidableEq, Repr

/-! ## The iterator -/

/-- `uvm_range_group_range_iter_first`: the first node that is not before `start`, unless it
begins after `last`. -/
def rangeGroupRangeIterFirst (tree : List RangeGroupRange) (start last : ℕ) :
    List RangeGroupRange :=
  match seek tree start with
  | [] => []
  | n :: rest => if n.start ≤ last then n :: rest else []

/-- `uvm_range_group_range_iter_next`: the following node, unless it begins after `last`. -/
def rangeGroupRangeIterNext (node : List RangeGroupRange) (last : ℕ) : List RangeGroupRange :=
  match node.tail with
  | [] => []
  | n :: rest => if n.start ≤ last then n :: rest else []

def rangeGroupRangeIterAdvance (iter : RangeGroupRangeIter) (hi : ℕ) : RangeGroupRangeIter :=
  match iter.node with
  | [] => { iter with last := hi, migratable := true }
  | n :: _ =>
    if n.start ≤ iter.start then
      { iter with isCurrent := true, last := min n.last hi
                  migratable := uvmRangeGroupMigratable n }
    else
      { iter with isCurrent := false, last := min (n.start - 1) hi, migratable := true }

/-- `uvm_range_group_range_iter_all_first`. -/
def rangeGroupRangeIterAllFirst (tree : List RangeGroupRange) (start hi : ℕ) :
    RangeGroupRangeIter :=
  rangeGroupRangeIterAdvance
    { start := start, last := start, migratable := true, valid := true, isCurrent := false
      node := rangeGroupRangeIterFirst tree start hi } hi

/-- `uvm_range_group_range_iter_all_next`; its return value is the `valid` field. -/
def rangeGroupRangeIterAllNext (iter : RangeGroupRangeIter) (hi : ℕ) : RangeGroupRangeIter :=
  if iter.last < hi then
    rangeGroupRangeIterAdvance
      { iter with start := iter.last + 1, valid := true
                  node := if iter.isCurrent then rangeGroupRangeIterNext iter.node hi
                          else iter.node } hi
  else
    { iter with valid := false }

/-- The `while` loop of the migratability iterators: `next` starts as a copy of `iter` and is
copied back after every step that finds the same migratability.  Each such step moves
`iter.last` up, so `hi - iter.last` steps are enough (`extendWhile_stops`). -/
def extendWhile (hi : ℕ) : ℕ → RangeGroupRangeIter → RangeGroupRangeIter
  | 0, iter => iter
  | fuel + 1, iter =>
    let next := rangeGroupRangeIterAllNext iter hi
    if next.valid && next.migratable == iter.migratable then extendWhile hi fuel next
    else iter

/-- `uvm_range_group_range_migratability_iter_first`. -/
def migratabilityIterFirst (tree : List RangeGroupRange) (start hi : ℕ) :
    RangeGroupRangeIter :=
  let iter := rangeGroupRangeIterAllFirst tree start hi
  { extendWhile hi (hi - iter.last) iter with start := start }

/-- `uvm_range_group_range_migratability_iter_next`. -/
def migratabilityIterNext (iter : RangeGroupRangeIter) (hi : ℕ) : RangeGroupRangeIter :=
  let iter' := rangeGroupRangeIterAllNext iter hi
  if iter'.valid then
    { extendWhile hi (hi - iter'.last) iter' with start := iter'.start }
  else
    iter'

/-- A segment the migratability iterator stops at: its bounds and whether it may migrate. -/
structure Segment where
  start : ℕ
  last : ℕ
  migratable : Bool
  deriving DecidableEq, Repr

def RangeGroupRangeIter.segment (iter : RangeGroupRangeIter) : Segment :=
  ⟨iter.start, iter.last, iter.migratable⟩

/-- The segments from `iter` on, as the `for` loop meets them. -/
def segmentsFrom (hi : ℕ) : ℕ → RangeGroupRangeIter → List Segment
  | 0, _ => []
  | fuel + 1, iter =>
    if iter.valid then iter.segment :: segmentsFrom hi fuel (migratabilityIterNext iter hi)
    else []

/-- `uvm_range_group_for_each_migratability_in`.  Every segment takes at least one address,
so `end - start + 1` rounds reach the end (`migratabilitySegments_tiles`). -/
def migratabilitySegments (tree : List RangeGroupRange) (start hi : ℕ) : List Segment :=
  segmentsFrom hi (hi - start + 1) (migratabilityIterFirst tree start hi)

/-! ## Where an iterator stands -/

/-- The addresses `[iter.start, iter.last]` lie in the caller's range and share the
iterator's migratability; and while the end of the range is not reached, `iter.node` is the
node that decides what comes next: the one that ends here, or the one the gap ends at. -/
structure IterInv (tree : List RangeGroupRange) (hi : ℕ) (iter : RangeGroupRangeIter) : Prop where
  startLe : iter.start ≤ iter.last
  lastLe : iter.last ≤ hi
  homogeneous : ∀ a, iter.start ≤ a → a ≤ iter.last →
    uvmRangeGroupAddressMigratable tree a = iter.migratable
  position : iter.last < hi → ∃ pre n rest, iter.node = n :: rest ∧ tree = pre ++ n :: rest ∧
    iter.last + 1 = if iter.isCurrent then n.last + 1 else n.start

variable {tree : List RangeGroupRange} {hi start lo : ℕ} {iter : RangeGroupRangeIter}
  {segs : List Segment} {s : Segment}

private theorem addressMigratable_of_none {a : ℕ} (h : lookup tree a = none) :
    uvmRangeGroupAddressMigratable tree a = true := by
  simp [uvmRangeGroupAddressMigratable, h]

theorem rangeGroupRangeIterAdvance_inv (ht : Ordered tree) (hi : ℕ) (iter : RangeGroupRangeIter)
    (hs : iter.start ≤ hi) (hnode : iter.node = rangeGroupRangeIterFirst tree iter.start hi) :
    IterInv tree hi (rangeGroupRangeIterAdvance iter hi) := by
  unfold rangeGroupRangeIterFirst at hnode
  split at hnode
  · -- nothing follows: the rest of the range belongs to no group
    rename_i hseek
    simp only [rangeGroupRangeIterAdvance, hnode]
    refine ⟨hs, le_refl _, fun a ha _ => ?_, fun h => absurd h (by simp)⟩
    exact addressMigratable_of_none (lookup_of_seek_nil ht hseek ha)
  · rename_i n rest hseek
    obtain ⟨pre, hpre⟩ := seek_suffix tree iter.start
    rw [hseek] at hpre
    split at hnode
    · rename_i hnhi
      by_cases hcur : n.start ≤ iter.start
      · -- the iterator stands inside a range group range
        have hlast := le_last_of_seek hseek
        simp only [rangeGroupRangeIterAdvance, hnode, if_pos hcur]
        refine ⟨by simp only; omega, by simp only; omega, fun a ha ha' => ?_, fun h => ?_⟩
        · have hmem : n ∈ tree := by rw [← hpre]; simp
          have hc : n.Contains a := by
            simp only at ha ha'
            exact ⟨by omega, by omega⟩
          simp [uvmRangeGroupAddressMigratable, (lookup_eq_some ht).mpr ⟨hmem, hc⟩]
        · simp only at h ⊢
          exact ⟨pre, n, rest, rfl, hpre.symm, by simp; omega⟩
      · -- the iterator stands in the gap before `n`
        simp only [rangeGroupRangeIterAdvance, hnode, if_neg hcur]
        refine ⟨by simp only; omega, by simp only; omega, fun a ha ha' => ?_, fun h => ?_⟩
        · simp only at ha ha'
          exact addressMigratable_of_none (lookup_of_gap ht hseek ha (by omega))
        · simp only at h ⊢
          exact ⟨pre, n, rest, rfl, hpre.symm, by simp; omega⟩
    · -- the next range group range begins after the range
      simp only [rangeGroupRangeIterAdvance, hnode]
      refine ⟨hs, le_refl _, fun a ha ha' => ?_, fun h => absurd h (by simp)⟩
      simp only at ha ha'
      exact addressMigratable_of_none (lookup_of_gap ht hseek ha (by omega))

@[simp] theorem rangeGroupRangeIterAdvance_start (iter : RangeGroupRangeIter) (hi : ℕ) :
    (rangeGroupRangeIterAdvance iter hi).start = iter.start := by
  unfold rangeGroupRangeIterAdvance
  split
  · rfl
  · split <;> rfl

@[simp] theorem rangeGroupRangeIterAdvance_valid (iter : RangeGroupRangeIter) (hi : ℕ) :
    (rangeGroupRangeIterAdvance iter hi).valid = iter.valid := by
  unfold rangeGroupRangeIterAdvance
  split
  · rfl
  · split <;> rfl

theorem rangeGroupRangeIterAllFirst_inv (ht : Ordered tree) (hs : start ≤ hi) :
    IterInv tree hi (rangeGroupRangeIterAllFirst tree start hi) :=
  rangeGroupRangeIterAdvance_inv ht hi _ hs rfl

/-- Stepping is possible exactly before the end of the range; it starts a new piece right
after the old one and keeps the invariant. -/
theorem rangeGroupRangeIterAllNext_spec (ht : Ordered tree) (h : IterInv tree hi iter)
    (hlt : iter.last < hi) :
    IterInv tree hi (rangeGroupRangeIterAllNext iter hi) ∧
      (rangeGroupRangeIterAllNext iter hi).valid = true ∧
      (rangeGroupRangeIterAllNext iter hi).start = iter.last + 1 := by
  simp only [rangeGroupRangeIterAllNext, if_pos hlt]
  refine ⟨rangeGroupRangeIterAdvance_inv ht hi _ hlt ?_, by simp, by simp⟩
  obtain ⟨pre, n, rest, hnode, htree, hpos⟩ := h.position hlt
  cases hcur : iter.isCurrent with
  | true =>
    -- the node ends here, and the one after it is the first not before the next address
    simp only [hcur] at hpos
    simp only [if_true, hnode, rangeGroupRangeIterNext,
      rangeGroupRangeIterFirst, hpos, seek_succ_last ht htree]
    cases rest <;> rfl
  | false =>
    -- the gap ends at the node
    simp only [hcur, if_false, Bool.false_eq_true] at hpos
    have hle : n.start ≤ hi := by omega
    simp only [Bool.false_eq_true, if_false, hnode, rangeGroupRangeIterFirst, hpos,
      seek_start ht htree, if_pos hle]

theorem rangeGroupRangeIterAllNext_valid :
    (rangeGroupRangeIterAllNext iter hi).valid = true ↔ iter.last < hi := by
  unfold rangeGroupRangeIterAllNext
  split <;> simp_all

/-! ## Maximal runs -/

private theorem allNext_start_irrelevant (iter : RangeGroupRangeIter) (s hi : ℕ)
    (hlt : iter.last < hi) :
    rangeGroupRangeIterAllNext { iter with start := s } hi =
      rangeGroupRangeIterAllNext iter hi := by
  simp [rangeGroupRangeIterAllNext, hlt]

theorem extendWhile_inv (ht : Ordered tree) (s : ℕ) : ∀ (fuel : ℕ) (iter : RangeGroupRangeIter),
      IterInv tree hi { iter with start := s } → iter.valid = true →
      IterInv tree hi { extendWhile hi fuel iter with start := s } ∧
        (extendWhile hi fuel iter).valid = true ∧
        iter.last ≤ (extendWhile hi fuel iter).last := by
  intro fuel
  induction fuel with
  | zero => exact fun iter h hv => ⟨h, hv, le_refl _⟩
  | succ fuel ih =>
    intro iter h hv
    simp only [extendWhile]
    split
    · rename_i hcond
      simp only [Bool.and_eq_true, beq_iff_eq, rangeGroupRangeIterAllNext_valid] at hcond
      obtain ⟨hlt, hmig⟩ := hcond
      obtain ⟨hnext, hnv, hnstart⟩ := rangeGroupRangeIterAllNext_spec ht h hlt
      rw [allNext_start_irrelevant iter s hi hlt] at hnext hnv hnstart
      simp only at hnstart
      have hstart := hnext.startLe
      have hgrow : iter.last ≤ (rangeGroupRangeIterAllNext iter hi).last := by omega
      have hjoined : IterInv tree hi
          { rangeGroupRangeIterAllNext iter hi with start := s } := by
        refine ⟨le_trans h.startLe hgrow, hnext.lastLe, fun a ha ha' => ?_, hnext.position⟩
        -- an address of the joined piece lies in the old part or in the new one
        by_cases hold : a ≤ iter.last
        · rw [h.homogeneous a ha hold]
          exact hmig.symm
        · exact hnext.homogeneous a (by omega) ha'
      obtain ⟨hinv, hvalid, hle⟩ := ih _ hjoined hnv
      exact ⟨hinv, hvalid, le_trans hgrow hle⟩
    · exact ⟨h, hv, le_refl _⟩

/-- **The fuel is enough**: the loop stops only where the range ends or the next piece has
the other migratability. -/
theorem extendWhile_stops (ht : Ordered tree) :
    ∀ (fuel : ℕ) (iter : RangeGroupRangeIter), IterInv tree hi iter →
      hi - iter.last ≤ fuel → (extendWhile hi fuel iter).last < hi →
      (rangeGroupRangeIterAllNext (extendWhile hi fuel iter) hi).migratable ≠
        (extendWhile hi fuel iter).migratable := by
  intro fuel
  induction fuel with
  | zero =>
    intro iter _ hfuel hlt
    simp only [extendWhile] at hlt
    omega
  | succ fuel ih =>
    intro iter h hfuel hlt
    simp only [extendWhile] at hlt ⊢
    split at hlt
    · rename_i hcond
      rw [if_pos hcond]
      simp only [Bool.and_eq_true, rangeGroupRangeIterAllNext_valid] at hcond
      obtain ⟨hnext, -, hnstart⟩ := rangeGroupRangeIterAllNext_spec ht h hcond.1
      have := hnext.startLe
      exact ih _ hnext (by omega) hlt
    · rename_i hcond
      rw [if_neg hcond]
      have hvalid : (rangeGroupRangeIterAllNext iter _).valid = true :=
        rangeGroupRangeIterAllNext_valid.mpr hlt
      simpa [hvalid] using hcond

/-! ## The segments of a range -/

/-- The segments follow each other from `lo` to `hi`, each of them non-empty. -/
def Tiles (hi : ℕ) : ℕ → List Segment → Prop
  | lo, [] => lo = hi + 1
  | lo, s :: rest => s.start = lo ∧ s.start ≤ s.last ∧ Tiles hi (s.last + 1) rest

theorem Tiles.covers (h : Tiles hi lo segs) {a : ℕ} (hlo : lo ≤ a) (hhi : a ≤ hi) :
    ∃ s ∈ segs, s.start ≤ a ∧ a ≤ s.last := by
  induction segs generalizing lo with
  | nil =>
    simp only [Tiles] at h
    omega
  | cons s rest ih =>
    obtain ⟨hstart, -, hrest⟩ := h
    by_cases ha : a ≤ s.last
    · exact ⟨s, by simp, by omega, ha⟩
    · obtain ⟨t, ht, hta⟩ := ih hrest (by omega)
      exact ⟨t, List.mem_cons_of_mem _ ht, hta⟩

theorem Tiles.le_succ (h : Tiles hi lo segs) : lo ≤ hi + 1 := by
  induction segs generalizing lo with
  | nil => exact le_of_eq h
  | cons s rest ih =>
    obtain ⟨hstart, hle, hrest⟩ := h
    have := ih hrest
    omega

theorem Tiles.bounds (h : Tiles hi lo segs) (hs : s ∈ segs) :
    lo ≤ s.start ∧ s.start ≤ s.last ∧ s.last ≤ hi := by
  induction segs generalizing lo with
  | nil => simp at hs
  | cons t rest ih =>
    obtain ⟨hstart, hle, hrest⟩ := h
    rcases List.mem_cons.mp hs with rfl | hs'
    · have := hrest.le_succ
      omega
    · have := ih hrest hs'
      omega

theorem migratabilityIterNext_spec (ht : Ordered tree) (h : IterInv tree hi iter)
    (hlt : iter.last < hi) :
    IterInv tree hi (migratabilityIterNext iter hi) ∧
      (migratabilityIterNext iter hi).valid = true ∧
      (migratabilityIterNext iter hi).start = iter.last + 1 := by
  obtain ⟨hnext, hnv, hnstart⟩ := rangeGroupRangeIterAllNext_spec ht h hlt
  simp only [migratabilityIterNext, hnv]
  obtain ⟨hinv, hvalid, -⟩ := extendWhile_inv ht (rangeGroupRangeIterAllNext iter hi).start
    (hi - (rangeGroupRangeIterAllNext iter hi).last) _ hnext hnv
  exact ⟨hinv, hvalid, hnstart⟩

private theorem migratabilityIterNext_invalid (hlt : ¬ iter.last < hi) :
    (migratabilityIterNext iter hi).valid = false := by
  simp [migratabilityIterNext, rangeGroupRangeIterAllNext, hlt]

theorem migratabilityIterFirst_spec (ht : Ordered tree) (hs : start ≤ hi) :
    IterInv tree hi (migratabilityIterFirst tree start hi) ∧
      (migratabilityIterFirst tree start hi).valid = true := by
  have hfirst := rangeGroupRangeIterAllFirst_inv ht hs
  have hstart : (rangeGroupRangeIterAllFirst tree start hi).start = start := by
    simp [rangeGroupRangeIterAllFirst]
  have hvalid : (rangeGroupRangeIterAllFirst tree start hi).valid = true := by
    simp [rangeGroupRangeIterAllFirst]
  obtain ⟨hinv, hv, -⟩ := extendWhile_inv ht (rangeGroupRangeIterAllFirst tree start hi).start
    (hi - (rangeGroupRangeIterAllFirst tree start hi).last) _ hfirst hvalid
  rw [hstart] at hinv
  exact ⟨hinv, hv⟩

private theorem segmentsFrom_spec (ht : Ordered tree) :
    ∀ (fuel : ℕ) (iter : RangeGroupRangeIter), IterInv tree hi iter → iter.valid = true →
      hi - iter.start + 1 ≤ fuel →
      Tiles hi iter.start (segmentsFrom hi fuel iter) ∧
        ∀ s ∈ segmentsFrom hi fuel iter, ∀ a, s.start ≤ a → a ≤ s.last →
          uvmRangeGroupAddressMigratable tree a = s.migratable := by
  intro fuel
  induction fuel with
  | zero => exact fun iter _ _ hfuel => absurd hfuel (by omega)
  | succ fuel ih =>
    intro iter h hv hfuel
    have hle := h.startLe
    simp only [segmentsFrom, hv]
    by_cases hlt : iter.last < hi
    · obtain ⟨hinv, hvalid, hstart⟩ := migratabilityIterNext_spec ht h hlt
      obtain ⟨htiles, hhom⟩ := ih _ hinv hvalid (by omega)
      refine ⟨⟨rfl, hle, hstart ▸ htiles⟩, fun s hs a ha ha' => ?_⟩
      rcases List.mem_cons.mp hs with rfl | hs'
      · exact h.homogeneous a ha ha'
      · exact hhom s hs' a ha ha'
    · -- the range ends with this segment
      have hlast : iter.last = hi := by have := h.lastLe; omega
      have hend : segmentsFrom hi fuel (migratabilityIterNext iter hi) = [] := by
        cases fuel with
        | zero => rfl
        | succ n => simp [segmentsFrom, migratabilityIterNext_invalid hlt]
      rw [hend]
      refine ⟨⟨rfl, hle, by simp [Tiles, RangeGroupRangeIter.segment, hlast]⟩,
        fun s hs a ha ha' => ?_⟩
      obtain rfl := List.mem_singleton.mp hs
      exact h.homogeneous a ha ha'

theorem migratabilitySegments_tiles (ht : Ordered tree) (hs : start ≤ hi) :
    Tiles hi start (migratabilitySegments tree start hi) := by
  obtain ⟨hinv, hvalid⟩ := migratabilityIterFirst_spec ht hs
  exact (segmentsFrom_spec ht (hi - start + 1) _ hinv hvalid (le_refl _)).1

theorem migratabilitySegments_homogeneous (ht : Ordered tree) (hs : start ≤ hi)
    (hmem : s ∈ migratabilitySegments tree start hi) {a : ℕ} (ha : s.start ≤ a) (ha' : a ≤ s.last) :
    uvmRangeGroupAddressMigratable tree a = s.migratable := by
  obtain ⟨hinv, hvalid⟩ := migratabilityIterFirst_spec ht hs
  exact (segmentsFrom_spec ht (hi - start + 1) _ hinv hvalid (le_refl _)).2 s hmem a ha ha'

/-! ## Where a segment ends -/

/-- The iterator goes on as far as its migratability reaches. -/
private def Maximal (hi : ℕ) (iter : RangeGroupRangeIter) : Prop :=
  iter.last < hi → (rangeGroupRangeIterAllNext iter hi).migratable ≠ iter.migratable

private theorem maximal_extendWhile (ht : Ordered tree) (h : IterInv tree hi iter) (start : ℕ) :
    Maximal hi { extendWhile hi (hi - iter.last) iter with start := start } := by
  intro hlt
  have hstop := extendWhile_stops ht _ _ h (le_refl _) hlt
  rw [← allNext_start_irrelevant (extendWhile hi (hi - iter.last) iter) start hi hlt] at hstop
  exact hstop

private theorem maximal_iterNext (ht : Ordered tree) (h : IterInv tree hi iter)
    (hlt : iter.last < hi) : Maximal hi (migratabilityIterNext iter hi) := by
  obtain ⟨hnext, hnv, -⟩ := rangeGroupRangeIterAllNext_spec ht h hlt
  simp only [migratabilityIterNext, hnv]
  exact maximal_extendWhile ht hnext _

private theorem segmentsFrom_boundary (ht : Ordered tree) :
    ∀ (fuel : ℕ) (iter : RangeGroupRangeIter), IterInv tree hi iter → iter.valid = true →
      Maximal hi iter → ∀ s ∈ segmentsFrom hi fuel iter, s.last < hi →
        uvmRangeGroupAddressMigratable tree (s.last + 1) ≠ s.migratable := by
  intro fuel
  induction fuel with
  | zero =>
    intro iter _ _ _ s hs
    cases hs
  | succ fuel ih =>
    intro iter h hv hmax s hs hlt
    simp only [segmentsFrom, hv] at hs
    rcases List.mem_cons.mp hs with rfl | hs
    · -- the next piece begins at the next address
      have hlt' : iter.last < hi := hlt
      obtain ⟨hnext, -, hstart⟩ := rangeGroupRangeIterAllNext_spec ht h hlt'
      have hhom := hnext.homogeneous (iter.last + 1) (le_of_eq hstart)
        (hstart ▸ hnext.startLe)
      change uvmRangeGroupAddressMigratable tree (iter.last + 1) ≠ iter.migratable
      rw [hhom]
      exact hmax hlt'
    · by_cases hlast : iter.last < hi
      · obtain ⟨hinv, hvalid, -⟩ := migratabilityIterNext_spec ht h hlast
        exact ih _ hinv hvalid (maximal_iterNext ht h hlast) s hs hlt
      · cases fuel with
        | zero => cases hs
        | succ fuel =>
          rw [segmentsFrom, migratabilityIterNext_invalid hlast] at hs
          cases hs

theorem migratabilitySegments_boundary (ht : Ordered tree) (hs : start ≤ hi)
    (hmem : s ∈ migratabilitySegments tree start hi) (hlt : s.last < hi) :
    uvmRangeGroupAddressMigratable tree (s.last + 1) ≠ s.migratable := by
  obtain ⟨hinv, hvalid⟩ := migratabilityIterFirst_spec ht hs
  have hmax : Maximal hi (migratabilityIterFirst tree start hi) :=
    maximal_extendWhile ht (rangeGroupRangeIterAllFirst_inv ht hs) start
  exact segmentsFrom_boundary ht (hi - start + 1) _ hinv hvalid hmax s hmem hlt

/-! ## All segments -/

theorem segmentsFrom_add (ht : Ordered tree) (k : ℕ) {fuel : ℕ} (h : IterInv tree hi iter)
    (hfuel : hi - iter.start + 1 ≤ fuel) :
    segmentsFrom hi (fuel + k) iter = segmentsFrom hi fuel iter := by
  induction fuel generalizing iter with
  | zero => omega
  | succ fuel ih =>
    rw [Nat.add_right_comm, segmentsFrom, segmentsFrom]
    split
    · by_cases hlast : iter.last < hi
      · obtain ⟨hinv, -, hstart⟩ := migratabilityIterNext_spec ht h hlast
        have hle := h.startLe
        rw [ih hinv (by omega)]
      · have hend : ∀ n, segmentsFrom hi n (migratabilityIterNext iter hi) = [] := by
          intro n
          cases n with
          | zero => rfl
          | succ n =>
            rw [segmentsFrom, migratabilityIterNext_invalid hlast]
            rfl
        rw [hend, hend]
    · rfl

theorem Tiles.maximal (h : Tiles hi lo segs) (hhom : ∀ s ∈ segs, ∀ a, s.start ≤ a → a ≤ s.last →
      uvmRangeGroupAddressMigratable tree a = s.migratable)
    (hbound : ∀ s ∈ segs, s.last < hi →
      uvmRangeGroupAddressMigratable tree (s.last + 1) ≠ s.migratable) :
    segs.IsChain fun s t => s.migratable ≠ t.migratable := by
  induction segs generalizing lo with
  | nil => exact .nil
  | cons s rest ih =>
    obtain ⟨-, -, hrest⟩ := h
    have htail := ih hrest (fun t ht => hhom t (List.mem_cons_of_mem s ht)) fun t ht =>
      hbound t (List.mem_cons_of_mem s ht)
    cases rest with
    | nil => exact .singleton s
    | cons t rest =>
      obtain ⟨hstart, hle, hend⟩ := hrest
      have hbehind := hend.le_succ
      refine List.isChain_cons_cons.mpr ⟨fun heq => hbound s List.mem_cons_self (by omega) ?_, htail⟩
      rw [heq]
      exact hhom t (List.mem_cons_of_mem s List.mem_cons_self) _ hstart.le (hstart ▸ hle)

/-- **The segments partition the range into maximal runs of one migratability**, and the loop over
them ends. -/
theorem migratabilitySegments_right (ht : Ordered tree) (hs : start ≤ hi) :
    Tiles hi start (migratabilitySegments tree start hi) ∧
      (∀ s ∈ migratabilitySegments tree start hi, ∀ a, s.start ≤ a → a ≤ s.last →
        uvmRangeGroupAddressMigratable tree a = s.migratable) ∧
      ((migratabilitySegments tree start hi).IsChain fun s t => s.migratable ≠ t.migratable) ∧
      ∀ k, segmentsFrom hi (hi - start + 1 + k) (migratabilityIterFirst tree start hi) =
        migratabilitySegments tree start hi := by
  have htiles := migratabilitySegments_tiles ht hs
  have hhom : ∀ s ∈ migratabilitySegments tree start hi, ∀ a, s.start ≤ a → a ≤ s.last →
      uvmRangeGroupAddressMigratable tree a = s.migratable := fun s hmem a ha ha' =>
    migratabilitySegments_homogeneous ht hs hmem ha ha'
  refine ⟨htiles, hhom, htiles.maximal hhom fun s hmem => migratabilitySegments_boundary ht hs hmem,
    fun k => segmentsFrom_add ht k (migratabilityIterFirst_spec ht hs).1 le_rfl⟩

/-- The last segment ends at the top of the address space. -/
theorem migratabilitySegments_right_top : Tiles (2 ^ 64 - 1) 0 (migratabilitySegments
      [⟨4096, 8191, ⟨1, false⟩⟩, ⟨8192, 2 ^ 64 - 1, ⟨2, true⟩⟩] 0 (2 ^ 64 - 1)) :=
  (migratabilitySegments_right (by decide) (by decide)).1

end NvUvm
