import NvUvm.Lib.IntervalEdit
import NvUvm.Processor

/-!
# Assigning addresses to range groups

Model of `uvm_range_group_assign_range` (`uvm8_range_group.c`).
-/

namespace NvUvm

open Lib

/-- `uvm_range_group_range_t` without its bounds: its group, and whether it is on the group's
list of migrated ranges. -/
structure GroupRangeInfo where
  rangeGroup : ℕ
  migrated : Bool
  deriving DecidableEq, Repr

/-- `uvm_range_group_range_t`. -/
abbrev GroupRange := Interval GroupRangeInfo

def groupAt (tree : List GroupRange) (a : ℕ) : Option ℕ :=
  valueAt GroupRangeInfo.rangeGroup tree a

/-- Whether `range_group_range_create` finds memory, for the new range and for the upper part
of a range that is split. -/
structure AssignAlloc where
  newRgr : Bool
  next : Bool
  deriving DecidableEq, Repr

/-- The loop over the ranges that overlap `[start, last]`.  An `error` is the early return; it is
taken at the only range of the loop, so that nothing has changed by then. -/
def assignLoop (alloc : AssignAlloc) (rangeGroup : Option ℕ) (start last : ℕ) :
    List GroupRange → Except NvStatus (List GroupRange)
  | [] => .ok []
  | rgr :: rest =>
    if last < rgr.start then .ok (rgr :: rest)
    else if rgr.last < start then (assignLoop alloc rangeGroup start last rest).map (rgr :: ·)
    else if rgr.start < start ∧ last < rgr.last then
      if some rgr.val.rangeGroup = rangeGroup then .error .ok
      else if !alloc.next then .error .errNoMemory
      -- the upper part is on the group's migrated list if the whole range was
      else .ok ({ rgr with last := start - 1 } :: { rgr with start := last + 1 } :: rest)
    else if rgr.start < start then
      (assignLoop alloc rangeGroup start last rest).map ({ rgr with last := start - 1 } :: ·)
    else if last < rgr.last then .ok ({ rgr with start := last + 1 } :: rest)
    else assignLoop alloc rangeGroup start last rest

/-- Two range group ranges that are joined when they are adjacent. -/
def sameGroup (r q : GroupRangeInfo) : Bool := decide (r.rangeGroup = q.rangeGroup)

def uvmRangeGroupAssignRange (alloc : AssignAlloc) (rangeGroup : Option ℕ) (start last : ℕ)
    (tree : List GroupRange) : NvStatus × List GroupRange :=
  if rangeGroup ≠ none ∧ !alloc.newRgr then (.errNoMemory, tree)
  else
    match assignLoop alloc rangeGroup start last tree with
    | .error status => (status, tree)
    | .ok tree =>
      match rangeGroup with
      | none => (.ok, tree)
      -- the new range is always on the migrated list
      | some id => (.ok, insertMerged sameGroup ⟨start, last, ⟨id, true⟩⟩ tree)

/-! ## What it does -/

variable {alloc : AssignAlloc} {rangeGroup : Option ℕ} {start last : ℕ} {tree : List GroupRange}

private theorem cut_of_after (h : ∀ rgr ∈ tree, last < rgr.start) : cut start last tree = tree := by
  induction tree with
  | nil => rfl
  | cons rgr rest ih =>
    have hrest := ih fun r hr => h r (by simp [hr])
    rw [cut] at hrest
    rw [cut, List.flatMap_cons, hrest]
    simp [cutInterval, h rgr (by simp)]

/-- What the loop can do: it cuts the region out of the tree, unless one range contains it
strictly; that range may be in the group already, or there may be no memory to split it. -/
private def LoopSpec (alloc : AssignAlloc) (rangeGroup : Option ℕ) (start last : ℕ)
    (tree : List GroupRange) : Except NvStatus (List GroupRange) → Prop
  | .ok tree' => tree' = cut start last tree ∧
      ∀ rgr ∈ tree, rgr.start < start → last < rgr.last → alloc.next = true
  | .error status => ∃ rgr ∈ tree, rgr.start < start ∧ last < rgr.last ∧
      (status = .ok ∧ some rgr.val.rangeGroup = rangeGroup ∨
        status = .errNoMemory ∧ alloc.next = false)

private theorem LoopSpec.map {rgr : GroupRange} {pieces : List GroupRange}
    {r : Except NvStatus (List GroupRange)} (h : LoopSpec alloc rangeGroup start last tree r)
    (hpieces : cutInterval start last rgr = pieces) (hin : ¬ (rgr.start < start ∧ last < rgr.last)) :
    LoopSpec alloc rangeGroup start last (rgr :: tree) (r.map (pieces ++ ·)) := by
  cases r with
  | error status =>
    obtain ⟨q, hq, hrest⟩ := h
    exact ⟨q, List.mem_cons_of_mem _ hq, hrest⟩
  | ok tree' =>
    obtain ⟨rfl, hnext⟩ := h
    refine ⟨by simp [cut, hpieces], fun q hq h1 h2 => ?_⟩
    rcases List.mem_cons.mp hq with rfl | hq
    · exact absurd ⟨h1, h2⟩ hin
    · exact hnext q hq h1 h2

private theorem assignLoop_spec (ht : Ordered tree) (hsl : start ≤ last) :
    LoopSpec alloc rangeGroup start last tree
      (assignLoop alloc rangeGroup start last tree) := by
  induction tree with
  | nil => exact ⟨rfl, by simp⟩
  | cons rgr rest ih =>
    have ih := ih ht.tail
    have hrgr := ht.1 rgr (by simp)
    have hafter : ∀ q ∈ rest, rgr.last < q.start := fun q hq => ht.head_lt hq
    unfold assignLoop
    split
    · next hbeyond =>
      -- the loop has passed the region
      refine ⟨(cut_of_after fun q hq => ?_).symm, fun q hq h1 h2 => ?_⟩
      · rcases List.mem_cons.mp hq with rfl | hq
        · exact hbeyond
        · have := hafter q hq
          omega
      · rcases List.mem_cons.mp hq with rfl | hq
        · omega
        · have := hafter q hq
          omega
    · next hreach =>
      split
      · next hbefore =>
        have hpieces : cutInterval start last rgr = [rgr] := by simp [cutInterval, hbefore]
        exact ih.map hpieces (by omega)
      · next hnotBefore =>
        have hover : ¬ (rgr.last < start ∨ last < rgr.start) := by omega
        split
        · next hstrict =>
          split
          · next hgroup => exact ⟨rgr, by simp, hstrict.1, hstrict.2, .inl ⟨rfl, hgroup⟩⟩
          · split
            · next hnext =>
              exact ⟨rgr, by simp, hstrict.1, hstrict.2, .inr ⟨rfl, by simpa using hnext⟩⟩
            · next hnext =>
              have hrest : cut start last rest = rest := cut_of_after fun q hq => by
                have := hafter q hq
                omega
              refine ⟨?_, fun _ _ _ _ => by simpa using hnext⟩
              rw [cut] at hrest
              rw [cut, List.flatMap_cons, hrest]
              simp [cutInterval, hover, hstrict]
        · next hinside =>
          split
          · next hlow =>
            have hlast : ¬ last < rgr.last := fun hc => hinside ⟨hlow, hc⟩
            have hpieces : cutInterval start last rgr = [{ rgr with last := start - 1 }] := by
              simp [cutInterval, hover, hlow, hlast]
            exact ih.map hpieces hinside
          · next hlow =>
            split
            · next hhigh =>
              have hrest : cut start last rest = rest := cut_of_after fun q hq => by
                have := hafter q hq
                omega
              refine ⟨?_, fun q hq h1 h2 => ?_⟩
              · rw [cut] at hrest
                rw [cut, List.flatMap_cons, hrest]
                simp [cutInterval, hover, hlow, hhigh]
              · rcases List.mem_cons.mp hq with rfl | hq
                · exact absurd h1 hlow
                · have := hafter q hq
                  omega
            · next hhigh =>
              have hpieces : cutInterval start last rgr = [] := by
                simp [cutInterval, hover, hlow, hhigh]
              have hmap := ih.map hpieces hinside
              generalize assignLoop alloc rangeGroup start last rest = r at hmap ⊢
              cases r <;> simpa [Except.map] using hmap

/-- **Specification of `uvm_range_group_assign_range`.** -/
structure AssignSpec (rangeGroup : Option ℕ) (start last : ℕ) (tree : List GroupRange)
    (r : NvStatus × List GroupRange) : Prop where
  ordered : Ordered r.2
  status : r.1 = .ok ∨ r.1 = .errNoMemory
  assigned : r.1 = .ok → ∀ a, groupAt r.2 a =
    if start ≤ a ∧ a ≤ last then rangeGroup else groupAt tree a
  failed : r.1 ≠ .ok → r.2 = tree

variable (alloc rangeGroup) in
theorem assignRange_spec (ht : Ordered tree) (hsl : start ≤ last) :
    AssignSpec rangeGroup start last tree
      (uvmRangeGroupAssignRange alloc rangeGroup start last tree) := by
  have hloop : LoopSpec alloc rangeGroup start last tree _ := assignLoop_spec ht hsl
  unfold uvmRangeGroupAssignRange
  split
  · exact ⟨ht, .inr rfl, fun h => by simp at h, fun _ => rfl⟩
  · generalize assignLoop alloc rangeGroup start last tree = r at hloop ⊢
    cases r with
    | error status =>
      obtain ⟨rgr, hmem, hstart, hlast, ⟨rfl, hgroup⟩ | ⟨rfl, -⟩⟩ := hloop
      · dsimp only
        refine ⟨ht, .inl rfl, fun _ a => ?_, fun _ => rfl⟩
        split
        · next ha =>
          rw [groupAt, ← hgroup]
          exact (valueAt_eq_some ht).mpr ⟨rgr, hmem, ⟨by omega, by omega⟩, rfl⟩
        · rfl
      · exact ⟨ht, .inr rfl, fun h => by simp at h, fun _ => rfl⟩
    | ok tree' =>
      obtain ⟨rfl, -⟩ := hloop
      have hcut := ordered_cut ht hsl
      cases rangeGroup with
      | none => exact ⟨hcut, .inl rfl, fun _ a => valueAt_cut ht hsl a, fun h => absurd rfl h⟩
      | some id =>
        have hinsert := ordered_insertAt (n := ⟨start, last, ⟨id, true⟩⟩) hcut hsl
          fun m hm => mem_cut_outside ht hm
        have halike : ∀ r q, sameGroup r q = true → r.rangeGroup = q.rangeGroup := fun r q h => by
          simpa [sameGroup] using h
        obtain ⟨hord, hmarks⟩ := insertMerged_spec halike hinsert
        refine ⟨hord, .inl rfl, fun _ a => ?_, fun h => absurd rfl h⟩
        apply Option.ext
        intro g
        rw [groupAt, valueAt_eq_some hord, hmarks, marks_insertAt, marks_cut ht]
        split
        · next ha => simp [Interval.Contains, ha]
        · next ha =>
          rw [groupAt, valueAt_eq_some ht]
          simp [Interval.Contains, ha]

private theorem sameGroup_iff (u v : GroupRangeInfo) :
    sameGroup u v = true ↔ u.rangeGroup = v.rangeGroup := by
  simp [sameGroup]

variable (alloc rangeGroup) in
private theorem assignRange_tree (ht : Ordered tree) (hsl : start ≤ last) :
    (uvmRangeGroupAssignRange alloc rangeGroup start last tree).2 = tree ∨
      (uvmRangeGroupAssignRange alloc rangeGroup start last tree).2 = cut start last tree ∨
        ∃ id, (uvmRangeGroupAssignRange alloc rangeGroup start last tree).2 =
          insertMerged sameGroup ⟨start, last, ⟨id, true⟩⟩ (cut start last tree) := by
  have hloop : LoopSpec alloc rangeGroup start last tree _ := assignLoop_spec ht hsl
  unfold uvmRangeGroupAssignRange
  split
  · exact .inl rfl
  · generalize assignLoop alloc rangeGroup start last tree = r at hloop ⊢
    cases r with
    | error status => exact .inl rfl
    | ok tree' =>
      obtain ⟨rfl, -⟩ := hloop
      cases rangeGroup with
      | none => exact .inr (.inl rfl)
      | some id => exact .inr (.inr ⟨id, rfl⟩)

variable (alloc rangeGroup) in
theorem assignRange_separated (ht : Ordered tree) (hsl : start ≤ last)
    (h : Separated GroupRangeInfo.rangeGroup tree) :
    Separated GroupRangeInfo.rangeGroup
      (uvmRangeGroupAssignRange alloc rangeGroup start last tree).2 := by
  rcases assignRange_tree alloc rangeGroup ht hsl with
    heq | heq | ⟨id, heq⟩
  · rw [heq]
    exact h
  · rw [heq]
    exact separated_cut ht h hsl
  · rw [heq]
    exact separated_insertMerged sameGroup_iff (ordered_insertAt (ordered_cut ht hsl) hsl
      fun m hm => mem_cut_outside ht hm) (separated_cut ht h hsl)

variable (alloc rangeGroup) in
theorem assignRange_migrated (ht : Ordered tree) (hsl : start ≤ last) {m k : GroupRange} {a : ℕ}
    (hm : m ∈ tree) (hma : m.Contains a) (hmig : m.val.migrated = true)
    (hk : k ∈ (uvmRangeGroupAssignRange alloc rangeGroup start last tree).2) (hka : k.Contains a) :
    k.val.migrated = true := by
  have hcut : ∀ {k : GroupRange}, k ∈ cut start last tree → k.Contains a →
      k.val.migrated = true := by
    intro k hk hka
    obtain ⟨x, hx, hkx⟩ := List.mem_flatMap.mp hk
    obtain ⟨hval, hstart, hlast, -, -⟩ := mem_cutInterval (ht.1 x hx) hkx
    have hxa : x.Contains a := ⟨hstart.trans hka.1, hka.2.trans hlast⟩
    rw [hval, ht.unique hx hm hxa hma]
    exact hmig
  rcases assignRange_tree alloc rangeGroup ht hsl with
    heq | heq | ⟨id, heq⟩
  · rw [heq] at hk
    rw [ht.unique hk hm hka hma]
    exact hmig
  · rw [heq] at hk
    exact hcut hk hka
  · rw [heq] at hk
    rcases val_of_mem_insertMerged hk with hval | hk
    · rw [hval]
    · exact hcut hk hka

theorem assignRange_none_fails_iff (alloc : AssignAlloc) (ht : Ordered tree) (hsl : start ≤ last) :
    (uvmRangeGroupAssignRange alloc none start last tree).1 ≠ .ok ↔
      alloc.next = false ∧ ∃ rgr ∈ tree, rgr.start < start ∧ last < rgr.last := by
  have hloop : LoopSpec alloc none start last tree _ := assignLoop_spec ht hsl
  unfold uvmRangeGroupAssignRange
  generalize assignLoop alloc none start last tree = r at hloop ⊢
  cases r with
  | error status =>
    obtain ⟨rgr, hmem, hstart, hlast, ⟨-, hgroup⟩ | ⟨rfl, hnext⟩⟩ := hloop
    · simp at hgroup
    · simpa [hnext] using ⟨rgr, hmem, hstart, hlast⟩
  | ok tree' =>
    obtain ⟨-, hnext⟩ := hloop
    refine ⟨fun h => absurd rfl h, fun ⟨hfalse, rgr, hmem, hstart, hlast⟩ => ?_⟩
    simp [hnext rgr hmem hstart hlast] at hfalse

end NvUvm
