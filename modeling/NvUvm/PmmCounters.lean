import NvUvm.PmmTree

/-!
# The counters of the chunks
-/

namespace NvUvm

open Lib TreePtr
open Function (update_of_ne update_self)

namespace Pmm

variable {s s' : Pmm} {p q : TreePtr}

def countAllocated (s : Pmm) (p : TreePtr) : ℕ :=
  ((Finset.range (s.numSubchunks p)).filter fun i => s.state (p.child i) ≠ some .free).card

/-- The number of pinned chunks under a root chunk. -/
def CountsPinned (s : Pmm) (root n : ℕ) : Prop :=
  ∃ pinned : Finset TreePtr, pinned.card = n ∧
    ∀ p, p ∈ pinned ↔ p.root = root ∧ s.state p = some .tempPinned

/-- The counters of the split chunks are right. -/
structure CountersTrue (s : Pmm) : Prop where
  allocated : ∀ p, s.state p = some .isSplit → s.allocated p = s.countAllocated p
  pinned : ∀ r, s.state ⟨r, []⟩ = some .isSplit → s.CountsPinned r (s.pinnedLeafChunks r)

theorem CountsPinned.unique {root n n' : ℕ} (h : s.CountsPinned root n)
    (h' : s.CountsPinned root n') : n = n' := by
  obtain ⟨S, hcard, hmem⟩ := h
  obtain ⟨S', hcard', hmem'⟩ := h'
  have heq : S = S' := Finset.ext fun p => (hmem p).trans (hmem' p).symm
  rw [← hcard, ← hcard', heq]

/-! ## One chunk -/

private theorem card_filter_update {n i : ℕ} (hi : i < n) {P Q : ℕ → Prop} [DecidablePred P]
    [DecidablePred Q] (h : ∀ j ≠ i, Q j ↔ P j) :
    ((Finset.range n).filter Q).card + (if P i then 1 else 0) =
      ((Finset.range n).filter P).card + (if Q i then 1 else 0) := by
  have hinsert : ∀ {R R' : ℕ → Prop} [DecidablePred R] [DecidablePred R'],
      (∀ j ≠ i, R' j ↔ R j) → ¬ R i → R' i →
        ((Finset.range n).filter R').card = ((Finset.range n).filter R).card + 1 := by
    intro R R' _ _ hR hnot hyes
    have heq : (Finset.range n).filter R' = insert i ((Finset.range n).filter R) := by
      ext j
      by_cases hj : j = i
      · subst hj
        simp [hi, hyes]
      · simp [hj, hR j hj]
    rw [heq, Finset.card_insert_of_notMem (by simp [hnot])]
  by_cases hP : P i <;> by_cases hQ : Q i
  · have heq : (Finset.range n).filter Q = (Finset.range n).filter P := by
      ext j
      by_cases hj : j = i
      · simp [hj, hP, hQ]
      · simp [h j hj]
    simp [heq, hP, hQ]
  · have := hinsert (fun j hj => (h j hj).symm) hQ hP
    simp [hP, hQ, this]
  · have := hinsert h hP hQ
    simp [hP, hQ, this]
  · have heq : (Finset.range n).filter Q = (Finset.range n).filter P := by
      ext j
      by_cases hj : j = i
      · simp [hj, hP, hQ]
      · simp [h j hj]
    simp [heq, hP, hQ]

private theorem CountsPinned.update {root n n' : ℕ} (h : s.CountsPinned root n) {old new : ChunkState}
    (hp : s.state p = some old) (hstate : s'.state = Function.update s.state p (some new))
    (hn : n' + (if p.root = root ∧ old = .tempPinned then 1 else 0) =
      n + if p.root = root ∧ new = .tempPinned then 1 else 0) : s'.CountsPinned root n' := by
  obtain ⟨S, hcard, hmem⟩ := h
  have hother : ∀ q, q ≠ p → s'.state q = s.state q := fun q hq => by
    rw [hstate, update_of_ne hq]
  have hself : s'.state p = some new := by rw [hstate, update_self]
  have hmemp : p ∈ S ↔ p.root = root ∧ old = .tempPinned := by rw [hmem, hp, Option.some.injEq]
  by_cases hnew : p.root = root ∧ new = .tempPinned
  · refine ⟨insert p S, ?_, fun q => ?_⟩
    · rw [Finset.card_insert_eq_ite, hcard]
      simp only [hmemp, if_pos hnew] at hn ⊢
      split_ifs at hn ⊢ <;> omega
    · by_cases hq : q = p
      · simp [hq, hself, hnew]
      · simp [hq, hmem, hother q hq]
  · refine ⟨S.erase p, ?_, fun q => ?_⟩
    · rw [Finset.card_erase_eq_ite, hcard]
      simp only [hmemp, if_neg hnew] at hn ⊢
      split_ifs at hn ⊢ <;> omega
    · by_cases hq : q = p
      · subst hq
        simp only [Finset.mem_erase, ne_eq, not_true_eq_false, false_and, hself, Option.some.injEq,
          false_iff]
        exact hnew
      · simp [hq, hmem, hother q hq]

theorem CountersTrue.relabel (h : s.CountersTrue) (htree : s.TreeInv) {old new : ChunkState}
    (hp : s.state p = some old) (hnew : new ≠ .isSplit)
    (hstate : s'.state = Function.update s.state p (some new)) (hsize : s'.size = s.size)
    (hpar : ∀ q i, p = q.child i → s'.allocated q + (if old ≠ .free then 1 else 0) =
      s.allocated q + if new ≠ .free then 1 else 0)
    (hothers : ∀ q, p.parent ≠ some q → s'.allocated q = s.allocated q)
    (hpin : p ≠ p.rootPtr → s'.pinnedLeafChunks p.root + (if old = .tempPinned then 1 else 0) =
      s.pinnedLeafChunks p.root + if new = .tempPinned then 1 else 0)
    (hroots : ∀ r ≠ p.root, s'.pinnedLeafChunks r = s.pinnedLeafChunks r) : s'.CountersTrue := by
  have hother : ∀ q, q ≠ p → s'.state q = s.state q := fun q hq => by
    rw [hstate, update_of_ne hq]
  have hself : s'.state p = some new := by rw [hstate, update_self]
  have hnum : ∀ q, s'.numSubchunks q = s.numSubchunks q := fun q => by
    simp only [numSubchunks, hsize]
  constructor
  · intro q hq
    have hne : q ≠ p := by
      rintro rfl
      rw [hself, Option.some.injEq] at hq
      exact hnew hq
    rw [hother q hne] at hq
    have htrue := h.allocated q hq
    by_cases hparentq : p.parent = some q
    · obtain ⟨i, rfl⟩ := parent_eq_some.mp hparentq
      have hi : i < s.numSubchunks q := (htree.child_exists_iff hq i).mp (by rw [hp]; simp)
      have hcnt := card_filter_update hi (P := fun j => s.state (q.child j) ≠ some .free)
        (Q := fun j => s'.state (q.child j) ≠ some .free) fun j hj => by
          rw [hother _ (by simpa using hj)]
      simp only [hp, hself, ne_eq, Option.some.injEq] at hcnt
      have hallocated := hpar q i rfl
      rw [countAllocated, hnum]
      rw [countAllocated] at htrue
      simp only [ne_eq] at hallocated htrue ⊢
      omega
    · rw [hothers q hparentq, htrue, countAllocated, countAllocated, hnum]
      congr 1
      apply Finset.filter_congr
      intro i _
      rw [hother]
      rintro rfl
      simp at hparentq
  · intro r hr
    by_cases hroot : p = ⟨r, []⟩
    · rw [← hroot, hself, Option.some.injEq] at hr
      exact absurd hr hnew
    · rw [hother _ (Ne.symm hroot)] at hr
      refine (h.pinned r hr).update hp hstate ?_
      by_cases hrp : p.root = r
      · subst hrp
        simpa using hpin hroot
      · simp [hrp, hroots r (Ne.symm hrp)]

/-! ## The subchunks of a chunk -/

/-- The subchunks of a chunk, as far as an index. -/
def subchunkSet (p : TreePtr) (n : ℕ) : Finset TreePtr := (Finset.range n).image p.child

theorem mem_subchunkSet {n : ℕ} : q ∈ subchunkSet p n ↔ ∃ i < n, q = p.child i := by
  simp [subchunkSet, eq_comm]

theorem card_subchunkSet (n : ℕ) : (subchunkSet p n).card = n := by
  rw [subchunkSet, Finset.card_image_of_injective _ child_injective, Finset.card_range]

theorem countAllocated_eq (h : ∀ i < s.numSubchunks p, s.state (p.child i) ≠ some .free) :
    s.countAllocated p = s.numSubchunks p := by
  rw [countAllocated, Finset.filter_true_of_mem fun i hi => h i (Finset.mem_range.mp hi),
    Finset.card_range]

theorem countAllocated_congr (hnum : s'.numSubchunks p = s.numSubchunks p)
    (hstate : ∀ i < s.numSubchunks p, s'.state (p.child i) = some .free ↔
      s.state (p.child i) = some .free) : s'.countAllocated p = s.countAllocated p := by
  rw [countAllocated, countAllocated, hnum]
  congr 1
  apply Finset.filter_congr
  intro i hi
  exact not_congr (hstate i (Finset.mem_range.mp hi))

section PinSubchunks

theorem pinSubchunks_state_child {i : ℕ} (hi : i < s.numSubchunks p) :
    (s.pinSubchunks p).state (p.child i) = some .tempPinned :=
  updateChildren_child hi

theorem pinSubchunks_state_of_ne (h : ∀ i < s.numSubchunks p, q ≠ p.child i) :
    (s.pinSubchunks p).state q = s.state q :=
  updateChildren_of_ne h

@[simp] theorem pinSubchunks_numSubchunks : (s.pinSubchunks p).numSubchunks q = s.numSubchunks q :=
  rfl

theorem pinSubchunks_allocated :
    (s.pinSubchunks p).allocated = Function.update s.allocated p (s.numSubchunks p) := rfl

theorem pinSubchunks_pinnedLeafChunks : (s.pinSubchunks p).pinnedLeafChunks =
    Function.update s.pinnedLeafChunks p.root (s.pinnedLeafChunks p.root + s.numSubchunks p) := rfl

theorem pinSubchunks_countsPinned {root n : ℕ} (h : s.CountsPinned root n)
    {k : ℕ} (hk : ∃ old : Finset TreePtr, old.card = k ∧ ∀ q, q ∈ old ↔
      q ∈ subchunkSet p (s.numSubchunks p) ∧ s.state q = some .tempPinned) :
    (s.pinSubchunks p).CountsPinned root
      (if p.root = root then n + s.numSubchunks p - k else n) := by
  obtain ⟨S, hcard, hmem⟩ := h
  obtain ⟨old, hold, hmemold⟩ := hk
  split
  · next hroot =>
    refine ⟨S ∪ subchunkSet p (s.numSubchunks p), ?_, fun q => ?_⟩
    · -- the subchunks that were pinned before count once
      have hinter : S ∩ subchunkSet p (s.numSubchunks p) = old := by
        ext q
        rw [Finset.mem_inter, hmem, hmemold]
        constructor
        · rintro ⟨⟨-, hpin⟩, hsub⟩
          exact ⟨hsub, hpin⟩
        · rintro ⟨hsub, hpin⟩
          refine ⟨⟨?_, hpin⟩, hsub⟩
          obtain ⟨i, -, rfl⟩ := mem_subchunkSet.mp hsub
          exact hroot
      rw [Finset.card_union, hinter, card_subchunkSet, hcard, hold]
    · rw [Finset.mem_union, hmem]
      by_cases hq : q ∈ subchunkSet p (s.numSubchunks p)
      · obtain ⟨i, hi, rfl⟩ := mem_subchunkSet.mp hq
        simp [hq, pinSubchunks_state_child hi, hroot]
      · rw [pinSubchunks_state_of_ne fun i hi heq => hq (mem_subchunkSet.mpr ⟨i, hi, heq⟩)]
        simp [hq]
  · next hroot =>
    refine ⟨S, hcard, fun q => ?_⟩
    rw [hmem]
    refine and_congr_right fun hq => ?_
    rw [pinSubchunks_state_of_ne]
    rintro i - rfl
    exact hroot hq

theorem TreeInv.pinSubchunks (h : s.TreeInv)
    (hleaf : ∀ i < s.numSubchunks p, s.state (p.child i) ≠ none ∧
      s.state (p.child i) ≠ some .isSplit) : (s.pinSubchunks p).TreeInv := by
  have hstate : ∀ q, (s.pinSubchunks p).state q = s.state q ∨
      (s.pinSubchunks p).state q = some .tempPinned ∧ s.state q ≠ none ∧
        s.state q ≠ some .isSplit := by
    intro q
    by_cases hq : q ∈ subchunkSet p (s.numSubchunks p)
    · obtain ⟨i, hi, rfl⟩ := mem_subchunkSet.mp hq
      exact .inr ⟨pinSubchunks_state_child hi, hleaf i hi⟩
    · exact .inl (pinSubchunks_state_of_ne fun i hi heq => hq (mem_subchunkSet.mpr ⟨i, hi, heq⟩))
  refine h.congr rfl rfl rfl (fun _ => .inl rfl) (fun q => ?_) (fun q => ?_) fun q i => ?_
  · rcases hstate q with heq | ⟨hnew, hnone, -⟩
    · rw [heq]
    · simp [hnew, hnone]
  · rcases hstate q with heq | ⟨hnew, -, hsplit⟩
    · rw [heq]
    · simp [hnew, hsplit]
  · rcases hstate (q.child i) with heq | ⟨hnew, -⟩
    · rw [heq]
      exact h.notOwned q i
    · simp [hnew]

theorem pinSubchunks_countAllocated (hq : q ≠ p) :
    (s.pinSubchunks p).countAllocated q = s.countAllocated q := by
  refine countAllocated_congr pinSubchunks_numSubchunks fun i _ => ?_
  rw [pinSubchunks_state_of_ne]
  intro j _ heq
  exact hq (child_eq_child.mp heq).1

theorem CountersTrue.pinSubchunks (h : s.CountersTrue)
    (hfree : ∀ i < s.numSubchunks p, s.state (p.child i) = some .free) :
    (s.pinSubchunks p).CountersTrue := by
  have hsplit : ∀ {q}, (s.pinSubchunks p).state q = some .isSplit → s.state q = some .isSplit := by
    intro q hq
    by_cases hsub : q ∈ subchunkSet p (s.numSubchunks p)
    · obtain ⟨i, hi, rfl⟩ := mem_subchunkSet.mp hsub
      simp [pinSubchunks_state_child hi] at hq
    · rwa [pinSubchunks_state_of_ne fun i hi heq => hsub (mem_subchunkSet.mpr ⟨i, hi, heq⟩)] at hq
  constructor
  · intro q hq
    by_cases hqp : q = p
    · subst hqp
      have hcnt : (s.pinSubchunks q).countAllocated q = s.numSubchunks q :=
        countAllocated_eq fun i hi => by simp [pinSubchunks_state_child (s := s) (p := q) hi]
      rw [hcnt, pinSubchunks_allocated, update_self]
    · rw [pinSubchunks_countAllocated hqp, ← h.allocated q (hsplit hq), pinSubchunks_allocated,
        update_of_ne hqp]
  · intro r hr
    have hcnts := pinSubchunks_countsPinned (p := p) (h.pinned r (hsplit hr))
      ⟨∅, Finset.card_empty, fun q => ?_⟩
    · simp only [Nat.sub_zero] at hcnts
      by_cases hroot : p.root = r
      · rw [if_pos hroot] at hcnts
        simpa [pinSubchunks_pinnedLeafChunks, hroot] using hcnts
      · rw [if_neg hroot] at hcnts
        simpa [pinSubchunks_pinnedLeafChunks, Ne.symm hroot] using hcnts
    · -- none of them was pinned before
      simp only [Finset.notMem_empty, false_iff, not_and]
      intro hsub
      obtain ⟨i, hi, rfl⟩ := mem_subchunkSet.mp hsub
      simp [hfree i hi]

end PinSubchunks

/-! ## Merges -/

section Merge

variable {st : ChunkState}

theorem mergeGpuChunk_state_of_ne (hq : q ≠ p) (h : q ∉ subchunkSet p (s.numSubchunks p)) :
    (s.mergeGpuChunk p).state q = s.state q := by
  have hne : ∀ i < s.numSubchunks p, q ≠ p.child i := fun i hi heq =>
    h (mem_subchunkSet.mpr ⟨i, hi, heq⟩)
  exact (updateChildren_of_ne hne).trans (update_of_ne hq ..)

theorem mergeGpuChunk_state_self : (s.mergeGpuChunk p).state p = s.state (p.child 0) :=
  updateChildren_self.trans (update_self ..)

theorem mergeGpuChunk_state_child (h : q ∈ subchunkSet p (s.numSubchunks p)) :
    (s.mergeGpuChunk p).state q = none := by
  obtain ⟨i, hi, rfl⟩ := mem_subchunkSet.mp h
  exact updateChildren_child hi

variable (htree : s.TreeInv) (hp : s.state p = some .isSplit)
  (hchildren : ∀ i < s.numSubchunks p, s.state (p.child i) = some st)
  (hsplit : st ≠ .isSplit)

include htree hp hchildren

private theorem mergeGpuChunk_self : (s.mergeGpuChunk p).state p = some st := by
  have hpos := htree.one_lt_numSubchunks hp
  rw [mergeGpuChunk_state_self]
  exact hchildren 0 (by omega)

include hsplit

private theorem mergeGpuChunk_split (hq : (s.mergeGpuChunk p).state q = some .isSplit) :
    q ≠ p ∧ q ∉ subchunkSet p (s.numSubchunks p) ∧ s.state q = some .isSplit := by
  have hne : q ≠ p := by
    rintro rfl
    rw [mergeGpuChunk_self htree hp hchildren, Option.some.injEq] at hq
    exact hsplit hq
  have hsub : q ∉ subchunkSet p (s.numSubchunks p) := fun hsub => by
    simp [mergeGpuChunk_state_child hsub] at hq
  rw [mergeGpuChunk_state_of_ne hne hsub] at hq
  exact ⟨hne, hsub, hq⟩

omit hsplit in
private theorem mergeGpuChunk_child (hq : q ≠ p) (i : ℕ) :
    (s.mergeGpuChunk p).state (q.child i) = s.state (q.child i) ∨
      (s.mergeGpuChunk p).state (q.child i) = some st ∧ s.state (q.child i) = some .isSplit := by
  by_cases heq : q.child i = p
  · right
    rw [heq]
    exact ⟨mergeGpuChunk_self htree hp hchildren, hp⟩
  · left
    apply mergeGpuChunk_state_of_ne heq
    rintro hsub
    obtain ⟨j, -, hj⟩ := mem_subchunkSet.mp hsub
    exact hq (child_eq_child.mp hj).1

theorem TreeInv.mergeGpuChunk : (s.mergeGpuChunk p).TreeInv where
  rootState := by
    intro r
    by_cases hr : (⟨r, []⟩ : TreePtr) = p
    · rw [hr, mergeGpuChunk_self htree hp hchildren]
      simp
    · rw [mergeGpuChunk_state_of_ne hr]
      · exact htree.rootState r
      · intro hsub
        obtain ⟨i, -, hi⟩ := mem_subchunkSet.mp hsub
        simp [child] at hi
  rootAddress := htree.rootAddress
  rootSize := htree.rootSize
  parent := by
    intro q i hi
    have hqp : q ≠ p := by
      rintro rfl
      -- the merged chunk has no subchunks
      by_cases hlt : i < s.numSubchunks q
      · exact hi (mergeGpuChunk_state_child (mem_subchunkSet.mpr ⟨i, hlt, rfl⟩))
      · rw [mergeGpuChunk_state_of_ne (child_ne_self i)] at hi
        · exact hlt ((htree.child_exists_iff hp i).mp hi)
        · intro hsub
          obtain ⟨j, hj, heq⟩ := mem_subchunkSet.mp hsub
          rw [child_inj] at heq
          omega
    have hexists : s.state (q.child i) ≠ none := by
      rcases mergeGpuChunk_child htree hp hchildren hqp i with heq | ⟨-, hq⟩
      · rwa [heq] at hi
      · rw [hq]
        simp
    have hqsplit := htree.parent q i hexists
    rw [mergeGpuChunk_state_of_ne hqp, hqsplit]
    -- the subchunks of the chunk are leaves
    intro hsub
    obtain ⟨j, hj, rfl⟩ := mem_subchunkSet.mp hsub
    rw [hchildren j hj, Option.some.injEq] at hqsplit
    exact hsplit hqsplit
  notOwned := by
    intro q i
    by_cases hqp : q = p
    · subst hqp
      by_cases hlt : i < s.numSubchunks q
      · simp [mergeGpuChunk_state_child (mem_subchunkSet.mpr ⟨i, hlt, rfl⟩)]
      · rw [mergeGpuChunk_state_of_ne (child_ne_self i)]
        · exact htree.notOwned q i
        · intro hsub
          obtain ⟨j, hj, heq⟩ := mem_subchunkSet.mp hsub
          rw [child_inj] at heq
          omega
    · rcases mergeGpuChunk_child htree hp hchildren hqp i with heq | ⟨hst, -⟩
      · rw [heq]
        exact htree.notOwned q i
      · have hpos := htree.one_lt_numSubchunks hp
        rw [hst, ← hchildren 0 (by omega)]
        exact htree.notOwned p 0
  subchunks := by
    intro q hq
    obtain ⟨hqp, -, hq⟩ := mergeGpuChunk_split htree hp hchildren hsplit hq
    obtain ⟨size, hprev, hsub⟩ := htree.subchunks q hq
    refine ⟨size, hprev, fun i => ⟨?_, (hsub i).2⟩⟩
    rcases mergeGpuChunk_child htree hp hchildren hqp i with heq | ⟨hst, hold⟩
    · rw [heq]
      exact (hsub i).1
    · have hi := (hsub i).1
      rw [hold] at hi
      rw [hst]
      exact ⟨fun _ => hi.mp (by simp), fun _ => by simp⟩

theorem CountersTrue.mergeGpuChunk (h : s.CountersTrue) (hfree : st ≠ .free) :
    (s.mergeGpuChunk p).CountersTrue := by
  have hzero : s.state (p.child 0) = some st := by
    have hpos := htree.one_lt_numSubchunks hp
    exact hchildren 0 (by omega)
  constructor
  · intro q hq
    obtain ⟨hqp, -, hq⟩ := mergeGpuChunk_split htree hp hchildren hsplit hq
    have hcnt : (s.mergeGpuChunk p).countAllocated q = s.countAllocated q := by
      refine countAllocated_congr rfl fun i _ => ?_
      rcases mergeGpuChunk_child htree hp hchildren hqp i with heq | ⟨hst, hold⟩
      · rw [heq]
      · simp [hst, hold, hfree]
    rw [hcnt]
    exact h.allocated q hq
  · intro r hr
    obtain ⟨hrp, -, hr⟩ := mergeGpuChunk_split htree hp hchildren hsplit hr
    obtain ⟨S, hcard, hmem⟩ := h.pinned r hr
    by_cases hpin : st = .tempPinned ∧ p.root = r
    · obtain ⟨rfl, rfl⟩ := hpin
      have hsub : subchunkSet p (s.numSubchunks p) ⊆ S := by
        intro q hq
        obtain ⟨i, hi, rfl⟩ := mem_subchunkSet.mp hq
        exact (hmem _).mpr ⟨rfl, hchildren i hi⟩
      have hnotMem : p ∉ S \ subchunkSet p (s.numSubchunks p) := by
        simp [hmem, hp]
      have hle := Finset.card_le_card hsub
      refine ⟨insert p (S \ subchunkSet p (s.numSubchunks p)), ?_, fun q => ?_⟩
      · rw [Finset.card_insert_of_notMem hnotMem, Finset.card_sdiff_of_subset hsub, card_subchunkSet,
          hcard]
        rw [card_subchunkSet, hcard] at hle
        simp only [Pmm.mergeGpuChunk, hzero, if_true, update_self]
        omega
      · rw [Finset.mem_insert, Finset.mem_sdiff, hmem]
        by_cases hq : q = p
        · simp [hq, mergeGpuChunk_self htree hp hchildren]
        · by_cases hqsub : q ∈ subchunkSet p (s.numSubchunks p)
          · simp [hq, hqsub, mergeGpuChunk_state_child hqsub]
          · simp [hq, hqsub, mergeGpuChunk_state_of_ne hq hqsub]
    · refine ⟨S, ?_, fun q => ?_⟩
      · rw [hcard]
        simp only [Pmm.mergeGpuChunk, hzero, Option.some.injEq]
        split
        · next hst => rw [update_of_ne fun heq => hpin ⟨hst, heq.symm⟩]
        · rfl
      · rw [hmem]
        refine and_congr_right fun hqr => ?_
        by_cases hq : q = p
        · subst hq
          have hst : st ≠ .tempPinned := fun hst => hpin ⟨hst, hqr⟩
          simp [mergeGpuChunk_self htree hp hchildren, hp, hst]
        · by_cases hqsub : q ∈ subchunkSet p (s.numSubchunks p)
          · obtain ⟨i, hi, rfl⟩ := mem_subchunkSet.mp hqsub
            have hst : st ≠ .tempPinned := fun hst => hpin ⟨hst, hqr⟩
            simp [mergeGpuChunk_state_child hqsub, hchildren i hi, hst]
          · rw [mergeGpuChunk_state_of_ne hq hqsub]

end Merge

/-! ## Splits -/

theorem splitGpuChunk_eq_some {fails : Bool} (h : s.splitGpuChunk p fails = some s') :
    fails = false ∧ ∃ size, (s.chunkSizes (s.type p)).findPrevSize (s.size p) = some size ∧
      s' = s.splitInto p size := by
  unfold splitGpuChunk at h
  split at h
  · simp at h
  · next size hsize =>
    cases fails
    · exact ⟨rfl, size, hsize, by simpa using h.symm⟩
    · simp at h

section Split

variable {st : ChunkState} {z : ℕ}

theorem splitInto_state_child {i : ℕ} (hi : i < s.size p / z) :
    (s.splitInto p z).state (p.child i) = s.state p :=
  updateChildren_child hi

theorem splitInto_state_self : (s.splitInto p z).state p = some .isSplit :=
  updateChildren_self.trans (update_self ..)

theorem splitInto_state_of_ne (hq : q ≠ p) (h : q ∉ subchunkSet p (s.size p / z)) :
    (s.splitInto p z).state q = s.state q :=
  (updateChildren_of_ne fun i hi heq => h (mem_subchunkSet.mpr ⟨i, hi, heq⟩)).trans
    (update_of_ne hq ..)

theorem splitInto_size_of_ne (h : q ∉ subchunkSet p (s.size p / z)) :
    (s.splitInto p z).size q = s.size q :=
  updateChildren_of_ne fun i hi heq => h (mem_subchunkSet.mpr ⟨i, hi, heq⟩)

theorem splitInto_type_of_ne (h : q ∉ subchunkSet p (s.size p / z)) :
    (s.splitInto p z).type q = s.type q :=
  updateChildren_of_ne fun i hi heq => h (mem_subchunkSet.mpr ⟨i, hi, heq⟩)

theorem splitInto_address_of_ne (h : q ∉ subchunkSet p (s.size p / z)) :
    (s.splitInto p z).address q = s.address q :=
  updateChildren_of_ne fun i hi heq => h (mem_subchunkSet.mpr ⟨i, hi, heq⟩)

theorem rootPtr_notMem_subchunkSet {n : ℕ} (r : ℕ) : (⟨r, []⟩ : TreePtr) ∉ subchunkSet p n := by
  intro h
  obtain ⟨i, -, hi⟩ := mem_subchunkSet.mp h
  simp [child] at hi

theorem self_notMem_subchunkSet {n : ℕ} : p ∉ subchunkSet p n := by
  intro h
  obtain ⟨i, -, hi⟩ := mem_subchunkSet.mp h
  simp at hi

theorem child_notMem_subchunkSet {n i : ℕ} (hq : q ≠ p) : q.child i ∉ subchunkSet p n := by
  intro h
  obtain ⟨j, -, hj⟩ := mem_subchunkSet.mp h
  exact hq (child_eq_child.mp hj).1

private theorem splitInto_countsPinned_root {r : ℕ} {st : ChunkState}
    (htree : s.TreeInv) (hp : s.state ⟨r, []⟩ = some st) (hsplit : st ≠ .isSplit)
    (hpos : 1 < s.size ⟨r, []⟩ / z) :
    (s.splitInto ⟨r, []⟩ z).CountsPinned r ((s.splitInto ⟨r, []⟩ z).pinnedLeafChunks r) := by
  have hroot : s.chunkIsRootChunk ⟨r, []⟩ = true := by simp [chunkIsRootChunk, htree.rootSize]
  -- nothing else is under the root
  have hnone : ∀ q : TreePtr, q.root = r → q ≠ ⟨r, []⟩ → s.state q = none := by
    rintro q rfl hq
    by_contra hexists
    have hrootSplit := htree.split_of_exists hexists hq
    rw [rootPtr, hp, Option.some.injEq] at hrootSplit
    exact hsplit hrootSplit
  by_cases hst : st = .tempPinned
  · subst hst
    refine ⟨subchunkSet ⟨r, []⟩ (s.size ⟨r, []⟩ / z), ?_, fun q => ?_⟩
    · simp only [card_subchunkSet, splitInto, hp, if_true, hroot, update_self]
      omega
    · by_cases hq : q ∈ subchunkSet ⟨r, []⟩ (s.size ⟨r, []⟩ / z)
      · obtain ⟨i, hi, rfl⟩ := mem_subchunkSet.mp hq
        simp [hq, splitInto_state_child hi, hp]
      · simp only [hq, false_iff, not_and]
        intro hqr
        by_cases hself : q = ⟨r, []⟩
        · simp [hself, splitInto_state_self]
        · simp [splitInto_state_of_ne hself hq, hnone q hqr hself]
  · refine ⟨∅, ?_, fun q => ?_⟩
    · simp [splitInto, hp, hst, hroot]
    · simp only [Finset.notMem_empty, false_iff, not_and]
      intro hqr
      by_cases hq : q ∈ subchunkSet ⟨r, []⟩ (s.size ⟨r, []⟩ / z)
      · obtain ⟨i, hi, rfl⟩ := mem_subchunkSet.mp hq
        simp [splitInto_state_child hi, hp, hst]
      · by_cases hself : q = ⟨r, []⟩
        · simp [hself, splitInto_state_self]
        · simp [splitInto_state_of_ne hself hq, hnone q hqr hself]

variable (htree : s.TreeInv) (hp : s.state p = some st) (hsplit : st ≠ .isSplit)

include htree hp hsplit

private theorem state_child_eq_none (i : ℕ) : s.state (p.child i) = none := by
  by_contra hi
  have hpar := htree.parent p i hi
  rw [hp, Option.some.injEq] at hpar
  exact hsplit hpar

omit htree in
private theorem splitInto_split (hq : (s.splitInto p z).state q = some .isSplit) (hqp : q ≠ p) :
    q ∉ subchunkSet p (s.size p / z) ∧ s.state q = some .isSplit := by
  have hsub : q ∉ subchunkSet p (s.size p / z) := fun hsub => by
    obtain ⟨i, hi, rfl⟩ := mem_subchunkSet.mp hsub
    rw [splitInto_state_child hi, hp, Option.some.injEq] at hq
    exact hsplit hq
  rw [splitInto_state_of_ne hqp hsub] at hq
  exact ⟨hsub, hq⟩

omit htree hsplit in
private theorem splitInto_child (hq : q ≠ p) (i : ℕ) :
    (s.splitInto p z).state (q.child i) = s.state (q.child i) ∨
      (s.splitInto p z).state (q.child i) = some .isSplit ∧ s.state (q.child i) = some st := by
  by_cases heq : q.child i = p
  · right
    rw [heq]
    exact ⟨splitInto_state_self, hp⟩
  · left
    exact splitInto_state_of_ne heq (child_notMem_subchunkSet hq)

theorem TreeInv.splitInto (hz : (s.chunkSizes (s.type p)).findPrevSize (s.size p) = some z)
    (howned : st ≠ .pmaOwned) : (s.splitInto p z).TreeInv where
  rootState := by
    intro r
    by_cases hr : (⟨r, []⟩ : TreePtr) = p
    · rw [hr, splitInto_state_self]
      simp
    · rw [splitInto_state_of_ne hr (rootPtr_notMem_subchunkSet r)]
      exact htree.rootState r
  rootAddress := by
    intro r
    rw [splitInto_address_of_ne (rootPtr_notMem_subchunkSet r)]
    exact htree.rootAddress r
  rootSize := by
    intro r
    rw [splitInto_size_of_ne (rootPtr_notMem_subchunkSet r)]
    exact htree.rootSize r
  parent := by
    intro q i hi
    by_cases hqp : q = p
    · rw [hqp, splitInto_state_self]
    · have hexists : s.state (q.child i) ≠ none := by
        rcases splitInto_child (z := z) hp hqp i with heq | ⟨-, hq⟩
        · rwa [heq] at hi
        · rw [hq]
          simp
      have hqsplit := htree.parent q i hexists
      rw [splitInto_state_of_ne hqp, hqsplit]
      intro hsub
      obtain ⟨j, -, rfl⟩ := mem_subchunkSet.mp hsub
      rw [state_child_eq_none htree hp hsplit j] at hqsplit
      simp at hqsplit
  notOwned := by
    intro q i
    by_cases hqp : q = p
    · subst hqp
      by_cases hi : i < s.size q / z
      · rw [splitInto_state_child hi, hp]
        simpa using howned
      · rw [splitInto_state_of_ne (child_ne_self i), state_child_eq_none htree hp hsplit]
        · simp
        · intro hsub
          obtain ⟨j, hj, heq⟩ := mem_subchunkSet.mp hsub
          rw [child_inj] at heq
          omega
    · rcases splitInto_child (z := z) hp hqp i with heq | ⟨hst, -⟩
      · rw [heq]
        exact htree.notOwned q i
      · simp [hst]
  subchunks := by
    intro q hq
    by_cases hqp : q = p
    · subst hqp
      refine ⟨z, ?_, fun i => ⟨?_, fun hi => ?_⟩⟩
      · rw [splitInto_type_of_ne self_notMem_subchunkSet,
          splitInto_size_of_ne self_notMem_subchunkSet]
        exact hz
      · rw [splitInto_size_of_ne self_notMem_subchunkSet]
        by_cases hi : i < s.size q / z
        · simp [splitInto_state_child hi, hp, hi]
        · rw [splitInto_state_of_ne (child_ne_self i), state_child_eq_none htree hp hsplit]
          · simp [hi]
          · intro hsub
            obtain ⟨j, hj, heq⟩ := mem_subchunkSet.mp hsub
            rw [child_inj] at heq
            omega
      · rw [splitInto_size_of_ne self_notMem_subchunkSet] at hi
        rw [splitInto_type_of_ne self_notMem_subchunkSet,
          splitInto_address_of_ne self_notMem_subchunkSet]
        exact ⟨updateChildren_child hi, updateChildren_child hi, updateChildren_child hi⟩
    · obtain ⟨hsub, hqsplit⟩ := splitInto_split hp hsplit hq hqp
      obtain ⟨size, hprev, hsubchunks⟩ := htree.subchunks q hqsplit
      have hchild : ∀ i, q.child i ∉ subchunkSet p (s.size p / z) := fun i =>
        child_notMem_subchunkSet hqp
      refine ⟨size, ?_, fun i => ?_⟩
      · rw [splitInto_type_of_ne hsub, splitInto_size_of_ne hsub]
        exact hprev
      · rw [splitInto_size_of_ne hsub, splitInto_type_of_ne hsub, splitInto_address_of_ne hsub,
          splitInto_size_of_ne (hchild i), splitInto_type_of_ne (hchild i),
          splitInto_address_of_ne (hchild i)]
        refine ⟨?_, (hsubchunks i).2⟩
        rw [← (hsubchunks i).1]
        rcases splitInto_child (z := z) hp hqp i with heq | ⟨hst, hold⟩
        · rw [heq]
        · simp [hst, hold]

private theorem splitInto_countsPinned {r : ℕ} (hpos : 1 < s.size p / z) (hpr : p ≠ ⟨r, []⟩)
    (h : s.CountsPinned r (s.pinnedLeafChunks r)) :
    (s.splitInto p z).CountsPinned r ((s.splitInto p z).pinnedLeafChunks r) := by
  obtain ⟨S, hcard, hmem⟩ := h
  by_cases hroot : p.root = r
  · subst hroot
    have hnotRoot : s.chunkIsRootChunk p = false := by
      rw [← Bool.not_eq_true, htree.chunkIsRootChunk_iff (by rw [hp]; simp)]
      exact hpr
    by_cases hst : st = .tempPinned
    · subst hst
      have hpS : p ∈ S := (hmem p).mpr ⟨rfl, hp⟩
      have hdisj : Disjoint (S.erase p) (subchunkSet p (s.size p / z)) := by
        rw [Finset.disjoint_left]
        intro q hq hsub
        obtain ⟨i, -, rfl⟩ := mem_subchunkSet.mp hsub
        have hpin := ((hmem _).mp (Finset.mem_of_mem_erase hq)).2
        rw [state_child_eq_none htree hp hsplit] at hpin
        simp at hpin
      have hcardPos := Finset.card_pos.mpr ⟨p, hpS⟩
      refine ⟨S.erase p ∪ subchunkSet p (s.size p / z), ?_, fun q => ?_⟩
      · rw [Finset.card_union_of_disjoint hdisj, Finset.card_erase_of_mem hpS, card_subchunkSet,
          hcard]
        simp only [splitInto, hp, if_true, hnotRoot, update_self, Bool.false_eq_true,
          if_false]
        omega
      · rw [Finset.mem_union, Finset.mem_erase, hmem]
        by_cases hq : q ∈ subchunkSet p (s.size p / z)
        · obtain ⟨i, hi, rfl⟩ := mem_subchunkSet.mp hq
          simp [hq, splitInto_state_child hi, hp]
        · by_cases hself : q = p
          · simp [hself, self_notMem_subchunkSet, splitInto_state_self]
          · simp [hq, hself, splitInto_state_of_ne hself hq]
    · refine ⟨S, ?_, fun q => ?_⟩
      · simp [splitInto, hp, hst, hnotRoot, hcard]
      · rw [hmem]
        by_cases hq : q ∈ subchunkSet p (s.size p / z)
        · obtain ⟨i, hi, rfl⟩ := mem_subchunkSet.mp hq
          simp [splitInto_state_child hi, hp, hst, state_child_eq_none htree hp hsplit]
        · by_cases hself : q = p
          · simp [hself, splitInto_state_self, hp, hst]
          · rw [splitInto_state_of_ne hself hq]
  · refine ⟨S, ?_, fun q => ?_⟩
    · simp [splitInto, update_of_ne (Ne.symm hroot), hcard]
    · rw [hmem]
      refine and_congr_right fun hqr => ?_
      rw [splitInto_state_of_ne]
      · rintro rfl
        exact hroot hqr
      · intro hq
        obtain ⟨i, -, rfl⟩ := mem_subchunkSet.mp hq
        exact hroot hqr

theorem CountersTrue.splitInto (h : s.CountersTrue)
    (hz : (s.chunkSizes (s.type p)).findPrevSize (s.size p) = some z)
    (howned : st ≠ .pmaOwned) (hfree : st ≠ .free) : (s.splitInto p z).CountersTrue := by
  have htree' := htree.splitInto hp hsplit hz howned
  obtain ⟨hdvd, hpos⟩ := ChunkSizes.findPrevSize_dvd (htree.size_mem (by rw [hp]; simp)) hz
  have hnum : (s.splitInto p z).numSubchunks p = s.size p / z := by
    have hzero : (s.splitInto p z).size (p.child 0) = z := updateChildren_child (by omega)
    rw [numSubchunks, hzero, splitInto_size_of_ne self_notMem_subchunkSet]
  constructor
  · intro q hq
    by_cases hqp : q = p
    · subst hqp
      have hcnt := countAllocated_eq (s := s.splitInto q z) (p := q) fun i hi => by
        rw [hnum] at hi
        simpa [splitInto_state_child hi, hp] using hfree
      rw [hcnt, hnum]
      exact update_self ..
    · obtain ⟨hsub, hqsplit⟩ := splitInto_split hp hsplit hq hqp
      have hnumq : (s.splitInto p z).numSubchunks q = s.numSubchunks q := by
        rw [numSubchunks, numSubchunks, splitInto_size_of_ne hsub,
          splitInto_size_of_ne (child_notMem_subchunkSet hqp)]
      have hcnt : (s.splitInto p z).countAllocated q = s.countAllocated q := by
        refine countAllocated_congr hnumq fun i _ => ?_
        rcases splitInto_child (z := z) hp hqp i with heq | ⟨hst, hold⟩
        · rw [heq]
        · simp [hst, hold, hfree]
      rw [hcnt, ← h.allocated q hqsplit]
      exact update_of_ne hqp ..
  · intro r hr
    by_cases hpr : p = ⟨r, []⟩
    · subst hpr
      exact splitInto_countsPinned_root htree hp hsplit hpos
    · have hrs := (splitInto_split hp hsplit hr (Ne.symm hpr)).2
      exact splitInto_countsPinned htree hp hsplit hpos hpr (h.pinned r hrs)

end Split

end Pmm

end NvUvm
