import NvUvm.PmmInv
import NvUvm.PmmOps

/-!
# The walks keep the invariant

The walk of `uvm_pmm_gpu_split_chunk`, which splits the chunks on its way down, and that of
`uvm_pmm_gpu_merge_chunk`, which merges them on its way up.
-/

namespace NvUvm

open Lib TreePtr

namespace Pmm

variable {s s' : Pmm} {p q : TreePtr} {st : ChunkState} {fuel : ℕ}

/-! ## Leaves -/

def Leaf (s : Pmm) (p : TreePtr) : Prop := s.state p ≠ none ∧ s.state p ≠ some .isSplit

theorem Held.leaf (h : s.Held p) : s.Leaf p := ⟨h.ne_none, h.ne_split⟩

theorem TreeInv.eq_of_under_leaf (h : s.TreeInv) (hp : s.state p ≠ some .isSplit)
    (hq : s.state q ≠ none) (hunder : q.Under p) : q = p := by
  by_contra hne
  exact hp (h.split_of_under hq hunder hne)

theorem TreeInv.child_size_lt (h : s.TreeInv) {i : ℕ} (hi : s.state (p.child i) ≠ none) :
    s.size (p.child i) < s.size p := by
  obtain ⟨size, hprev, hsub⟩ := h.subchunks p (h.parent p i hi)
  rw [((hsub i).2 ((hsub i).1.mp hi)).1]
  exact (ChunkSizes.findPrevSize_mem hprev).2

theorem TreeInv.size_pos (h : s.TreeInv) (hp : s.state p ≠ none) : 0 < s.size p :=
  ChunkSizes.pos_of_mem (h.size_mem hp)

theorem TreeInv.mem_leaves (h : s.TreeInv) (hp : s.state p ≠ none) (hfuel : s.size p ≤ fuel) :
    q ∈ s.leaves fuel p ↔ q.Under p ∧ s.Leaf q := by
  induction fuel generalizing p with
  | zero =>
    have := h.size_pos hp
    omega
  | succ fuel ih =>
    rw [leaves]
    split
    · next hsplit =>
      simp only [List.mem_flatMap, List.mem_range]
      constructor
      · rintro ⟨i, hi, hq⟩
        have hexists := (h.child_exists_iff hsplit i).mpr hi
        have hsize := h.child_size_lt hexists
        obtain ⟨hunder, hleaf⟩ := (ih hexists (by omega)).mp hq
        exact ⟨hunder.trans (child_under i), hleaf⟩
      · rintro ⟨hunder, hleaf⟩
        rcases hunder.eq_or_child with rfl | ⟨i, hi⟩
        · exact absurd hsplit hleaf.2
        · have hexists := h.tiled.live_of_under hi hleaf.1
          have hsize := h.child_size_lt hexists
          exact ⟨i, (h.child_exists_iff hsplit i).mp hexists,
            (ih hexists (by omega)).mpr ⟨hi, hleaf⟩⟩
    · next hsplit =>
      rw [List.mem_singleton]
      constructor
      · rintro rfl
        exact ⟨Under.refl _, hp, hsplit⟩
      · rintro ⟨hunder, hleaf⟩
        exact h.eq_of_under_leaf hsplit hleaf.1 hunder

theorem TreeInv.mem_getSubchunks (h : s.TreeInv) (hp : s.state p ≠ none) :
    q ∈ s.getSubchunks p ↔ q.Under p ∧ s.Leaf q := h.mem_leaves hp le_rfl

/-! ## The walk that merges -/

/-- The leaves under a chunk are all in one state. -/
def Uniform (s : Pmm) (p : TreePtr) (st : ChunkState) : Prop :=
  s.state p ≠ none ∧ ∀ q, q.Under p → s.Leaf q → s.state q = some st

/-- What the walk that merges the chunks under a chunk does. -/
structure MergesTo (st : ChunkState) (s : Pmm) (p : TreePtr) (s' : Pmm) : Prop where
  inv : s'.Inv
  state : s'.state p = some st
  keeps : ∀ q, ¬ q.Under p → s'.state q = s.state q
  size : s'.size = s.size

private theorem Uniform.congr (h : s.Uniform p st)
    (hstate : ∀ q, q.Under p → s'.state q = s.state q) : s'.Uniform p st := by
  refine ⟨?_, fun q hq hleaf => ?_⟩
  · rw [hstate p (Under.refl p)]
    exact h.1
  · unfold Leaf at hleaf
    rw [hstate q hq] at hleaf ⊢
    exact h.2 q hq hleaf

private theorem foldl_merges {walk : ℕ → Pmm → Pmm} {size : TreePtr → ℕ} {is : List ℕ}
    (hwalk : ∀ i ∈ is, ∀ s : Pmm, s.Inv → s.size = size → s.Uniform (p.child i) st →
      MergesTo st s (p.child i) (walk i s)) (hnd : is.Nodup) (h : s.Inv)
    (hsize : s.size = size) (huniform : ∀ i ∈ is, s.Uniform (p.child i) st) :
    (is.foldl (fun s i => walk i s) s).Inv ∧ (is.foldl (fun s i => walk i s) s).size = s.size ∧
      (∀ i ∈ is, (is.foldl (fun s i => walk i s) s).state (p.child i) = some st) ∧
        ∀ q, (∀ i ∈ is, ¬ q.Under (p.child i)) →
          (is.foldl (fun s i => walk i s) s).state q = s.state q := by
  induction is generalizing s with
  | nil => exact ⟨h, rfl, by simp, fun _ _ => rfl⟩
  | cons i is ih =>
    obtain ⟨hnot, hnd⟩ := List.nodup_cons.mp hnd
    have hfirst := hwalk i List.mem_cons_self s h hsize (huniform i List.mem_cons_self)
    have hapart : ∀ j ∈ is, ∀ q : TreePtr, q.Under (p.child j) → ¬ q.Under (p.child i) := by
      intro j hj q hqj hqi
      obtain rfl := hqi.child_eq hqj
      exact hnot hj
    obtain ⟨hinv, hsizes, hstates, hkeep⟩ := ih
      (fun j hj => hwalk j (List.mem_cons_of_mem i hj)) hnd hfirst.inv (hfirst.size.trans hsize)
      fun j hj => (huniform j (List.mem_cons_of_mem i hj)).congr fun q hq =>
        hfirst.keeps q (hapart j hj q hq)
    refine ⟨hinv, hsizes.trans hfirst.size, fun j hj => ?_, fun q hq => ?_⟩
    · rcases List.mem_cons.mp hj with rfl | hj
      · refine (hkeep (p.child j) fun k hk hunder => ?_).trans hfirst.state
        exact hapart k hk _ hunder (Under.refl _)
      · exact hstates j hj
    · exact (hkeep q fun j hj => hq j (List.mem_cons_of_mem i hj)).trans
        (hfirst.keeps q (hq i List.mem_cons_self))

theorem Inv.mergeWalk (h : s.Inv) (hst : st = .tempPinned ∨ st = .allocated)
    (hfuel : s.size p ≤ fuel) (hp : s.Uniform p st) : MergesTo st s p (mergeWalk fuel p s) := by
  induction fuel generalizing s p with
  | zero =>
    have := h.tree.size_pos hp.1
    omega
  | succ fuel ih =>
    rw [Pmm.mergeWalk]
    split
    · next hsplit =>
      have hchild := h.tree.child_exists_iff hsplit
      have hlt : ∀ i, i ∈ List.range (s.numSubchunks p) → s.Uniform (p.child i) st ∧
          s.size (p.child i) ≤ fuel := by
        intro i hi
        have hexists := (hchild i).mpr (List.mem_range.mp hi)
        have hsize := h.tree.child_size_lt hexists
        exact ⟨⟨hexists, fun q hq => hp.2 q (hq.trans (child_under i))⟩, by omega⟩
      have hwalk : ∀ i ∈ List.range (s.numSubchunks p), ∀ s' : Pmm, s'.Inv → s'.size = s.size →
          s'.Uniform (p.child i) st →
            MergesTo st s' (p.child i) (Pmm.mergeWalk fuel (p.child i) s') :=
        fun i hi s' hinv hsize hs' => ih hinv (by rw [hsize]; exact (hlt i hi).2) hs'
      obtain ⟨hinv, hsizes, hstates, hkeep⟩ := foldl_merges hwalk List.nodup_range h rfl
        fun i hi => (hlt i hi).1
      generalize (List.range (s.numSubchunks p)).foldl
        (fun s i => Pmm.mergeWalk fuel (p.child i) s) s = s₁ at hinv hsizes hstates hkeep
      have hnum : s₁.numSubchunks p = s.numSubchunks p := by rw [numSubchunks, numSubchunks, hsizes]
      have hsplit₁ : s₁.state p = some .isSplit := by
        rw [hkeep p fun i _ => not_under_child i]
        exact hsplit
      have hchildren : ∀ i < s₁.numSubchunks p, s₁.state (p.child i) = some st := fun i hi =>
        hstates i (List.mem_range.mpr (hnum ▸ hi))
      have hone := hinv.tree.one_lt_numSubchunks hsplit₁
      refine ⟨hinv.mergeGpuChunk hsplit₁ hchildren hst,
        mergeGpuChunk_state_self.trans (hchildren 0 (by omega)), fun q hq => ?_, hsizes⟩
      rw [mergeGpuChunk_state_of_ne, hkeep]
      · exact fun i _ hunder => hq (hunder.trans (child_under i))
      · rintro rfl
        exact hq (Under.refl _)
      · intro hsub
        obtain ⟨i, -, rfl⟩ := mem_subchunkSet.mp hsub
        exact hq (child_under i)
    · next hsplit =>
      exact ⟨h, hp.2 p (Under.refl p) ⟨hp.1, hsplit⟩, fun _ _ => rfl, rfl⟩

/-! ## The walk that splits -/

/-- What the walk that splits a chunk does: the leaves under it have the state that it had, and the
walk gives some of them, each once. -/
structure SplitsInto (st : ChunkState) (s : Pmm) (p : TreePtr) (r : Option (List TreePtr) × Pmm) :
    Prop where
  inv : r.2.Inv
  keeps : ∀ q, ¬ q.Under p → r.2.state q = s.state q
  uniform : r.2.Uniform p st
  nodup : ∀ l, r.1 = some l → l.Nodup
  mem : ∀ l, r.1 = some l → ∀ q ∈ l, q.Under p ∧ r.2.Leaf q

/-- What the walk does that goes through the subchunks of a chunk. -/
private structure SplitsSubchunks (st : ChunkState) (s : Pmm) (p : TreePtr) (is : List ℕ)
    (r : Option (List TreePtr) × Pmm) : Prop where
  inv : r.2.Inv
  keeps : ∀ q, (∀ i ∈ is, ¬ q.Under (p.child i)) → r.2.state q = s.state q
  uniform : ∀ i ∈ is, r.2.Uniform (p.child i) st
  nodup : ∀ l, r.1 = some l → l.Nodup
  mem : ∀ l, r.1 = some l → ∀ q ∈ l, (∃ i ∈ is, q.Under (p.child i)) ∧ r.2.Leaf q

private theorem Inv.uniform (h : s.Inv) (hst : st ≠ .isSplit) (hp : s.state p = some st) :
    s.Uniform p st := by
  refine ⟨by simp [hp], fun q hq hleaf => ?_⟩
  rw [h.tree.eq_of_under_leaf (by rw [hp]; simpa using hst) hleaf.1 hq]
  exact hp

private theorem walkSubchunks_spec {walk : TreePtr → Pmm → Option (List TreePtr) × Pmm}
    (hst : st ≠ .isSplit)
    (hwalk : ∀ i (s : Pmm), s.Inv → s.state (p.child i) = some st →
      SplitsInto st s (p.child i) (walk (p.child i) s)) {is : List ℕ} (hnd : is.Nodup)
    (h : s.Inv) (hstate : ∀ i ∈ is, s.state (p.child i) = some st) :
    SplitsSubchunks st s p is (walkSubchunks walk (is.map p.child) s) := by
  induction is generalizing s with
  | nil =>
    refine ⟨h, fun _ _ => rfl, by simp, ?_, ?_⟩
    · rintro l ⟨⟩
      exact List.nodup_nil
    · rintro l ⟨⟩
      simp
  | cons i is ih =>
    obtain ⟨hnot, hnd⟩ := List.nodup_cons.mp hnd
    have hfirst := hwalk i s h (hstate i List.mem_cons_self)
    have hapart : ∀ j ∈ is, ∀ q : TreePtr, q.Under (p.child j) → ¬ q.Under (p.child i) := by
      intro j hj q hqj hqi
      obtain rfl := hqi.child_eq hqj
      exact hnot hj
    rw [List.map_cons, walkSubchunks]
    cases hr : walk (p.child i) s with
    | mk found s₁ =>
      rw [hr] at hfirst
      have hstate₁ : ∀ j ∈ is, s₁.state (p.child j) = some st := fun j hj =>
        (hfirst.keeps _ (hapart j hj _ (Under.refl _))).trans
          (hstate j (List.mem_cons_of_mem i hj))
      cases found with
      | none =>
        -- the subchunks that the walk has not come to are leaves
        refine ⟨hfirst.inv, fun q hq => hfirst.keeps q (hq i List.mem_cons_self), fun j hj => ?_,
          by simp, by simp⟩
        rcases List.mem_cons.mp hj with rfl | hj
        · exact hfirst.uniform
        · exact hfirst.inv.uniform hst (hstate₁ j hj)
      | some l =>
        have hrest := ih hnd hfirst.inv hstate₁
        dsimp only
        cases hr' : walkSubchunks walk (is.map p.child) s₁ with
        | mk found' s₂ =>
          rw [hr'] at hrest
          have hkeep : ∀ q, (∀ j ∈ i :: is, ¬ q.Under (p.child j)) → s₂.state q = s.state q :=
            fun q hq => (hrest.keeps q fun j hj => hq j (List.mem_cons_of_mem i hj)).trans
              (hfirst.keeps q (hq i List.mem_cons_self))
          have hsame : ∀ q : TreePtr, q.Under (p.child i) → s₂.state q = s₁.state q := fun q hq =>
            hrest.keeps q fun j hj hqj => hapart j hj q hqj hq
          have huniform : ∀ j ∈ i :: is, s₂.Uniform (p.child j) st := by
            intro j hj
            rcases List.mem_cons.mp hj with rfl | hj
            · exact hfirst.uniform.congr hsame
            · exact hrest.uniform j hj
          cases found' with
          | none => exact ⟨hrest.inv, hkeep, huniform, by simp, by simp⟩
          | some l' =>
            refine ⟨hrest.inv, hkeep, huniform, ?_, ?_⟩
            · rintro _ ⟨⟩
              refine (hfirst.nodup l rfl).append (hrest.nodup l' rfl) fun q hq hq' => ?_
              obtain ⟨⟨j, hj, hqj⟩, -⟩ := hrest.mem l' rfl q hq'
              exact hapart j hj q hqj (hfirst.mem l rfl q hq).1
            · rintro _ ⟨⟩ q hq
              rcases List.mem_append.mp hq with hq | hq
              · obtain ⟨hunder, hleaf⟩ := hfirst.mem l rfl q hq
                refine ⟨⟨i, List.mem_cons_self, hunder⟩, ?_⟩
                unfold Leaf
                rw [hsame q hunder]
                exact hleaf
              · obtain ⟨⟨j, hj, hunder⟩, hleaf⟩ := hrest.mem l' rfl q hq
                exact ⟨⟨j, List.mem_cons_of_mem i hj, hunder⟩, hleaf⟩

theorem Inv.splitWalk (h : s.Inv) (hst : st = .tempPinned ∨ st = .allocated)
    (hp : s.state p = some st) (minSize : ℕ) (fails : TreePtr → Bool) :
    SplitsInto st s p (splitWalk minSize fails fuel p s) := by
  have hsplit : st ≠ .isSplit := by rcases hst with rfl | rfl <;> simp
  have hheld : ∀ {s' : Pmm} {q}, s'.state q = some st → s'.Held q := by
    intro s' q hq
    rcases hst with rfl | rfl
    · exact .inl hq
    · exact .inr hq
  have hunchanged : ∀ {s' : Pmm} {q}, s'.Inv → s'.state q = some st →
      SplitsInto st s' q (none, s') := fun hinv hq =>
    ⟨hinv, fun _ _ => rfl, hinv.uniform hsplit hq, by simp, by simp⟩
  induction fuel generalizing s p with
  | zero => exact hunchanged h hp
  | succ fuel ih =>
    rw [Pmm.splitWalk]
    cases hr : s.splitGpuChunk p (fails p) with
    | none => exact hunchanged h hp
    | some s₁ =>
      obtain ⟨-, z, hz, rfl⟩ := splitGpuChunk_eq_some hr
      have hinv := h.splitInto (hheld hp) hz
      have hchild : ∀ i ∈ List.range ((s.splitInto p z).numSubchunks p),
          (s.splitInto p z).state (p.child i) = some st := fun i hi =>
        (splitInto_child_eq h (hheld hp) hz (List.mem_range.mp hi)).trans hp
      have hselfSplit : (s.splitInto p z).state p = some .isSplit := splitInto_state_self
      have hkeep : ∀ q, ¬ q.Under p → (s.splitInto p z).state q = s.state q := fun _ hq =>
        splitInto_state_of_not_under hq
      generalize s.splitInto p z = s₁ at hinv hchild hselfSplit hkeep
      -- what lies under the chunk lies under one of its subchunks
      have hunder : ∀ {s' : Pmm} {q}, s'.Inv → s'.state p = some .isSplit →
          (∀ q, (∀ i ∈ List.range (s₁.numSubchunks p), ¬ q.Under (p.child i)) →
            s'.state q = s₁.state q) → q.Under p → s'.Leaf q →
              ∃ i ∈ List.range (s₁.numSubchunks p), q.Under (p.child i) := by
        intro s' q hinv' hsplit' hsame hq hleaf
        rcases hq.eq_or_child with rfl | ⟨i, hi⟩
        · exact absurd hsplit' hleaf.2
        · refine ⟨i, ?_, hi⟩
          by_contra hnot
          have hexists := hinv'.tree.tiled.live_of_under hi hleaf.1
          rw [hsame (p.child i) fun j hj hij => hnot ((Under.refl _).child_eq hij ▸ hj)] at hexists
          exact hnot (List.mem_range.mpr ((hinv.tree.child_exists_iff hselfSplit i).mp hexists))
      dsimp only
      split
      · refine ⟨hinv, hkeep, ⟨by simp [hselfSplit], fun q hq hleaf => ?_⟩, ?_, ?_⟩
        · obtain ⟨i, hi, hqi⟩ := hunder hinv hselfSplit (fun _ _ => rfl) hq hleaf
          exact (hinv.uniform hsplit (hchild i hi)).2 q hqi hleaf
        · rintro _ ⟨⟩
          exact List.nodup_range.map child_injective
        · rintro _ ⟨⟩ q hq
          obtain ⟨i, hi, rfl⟩ := List.mem_map.mp hq
          exact ⟨child_under i, (hheld (hchild i hi)).leaf⟩
      · have hrest := walkSubchunks_spec hsplit (fun i s' hinv' hi => ih hinv' hi) List.nodup_range
          hinv hchild
        have hsplit' := hrest.keeps p fun i _ => not_under_child i
        rw [hselfSplit] at hsplit'
        refine ⟨hrest.inv, fun q hq => ?_, ⟨by simp [hsplit'], fun q hq hleaf => ?_⟩, hrest.nodup,
          fun l hl q hq => ?_⟩
        · refine (hrest.keeps q fun i _ hqi => hq (hqi.trans (child_under i))).trans (hkeep q hq)
        · obtain ⟨i, hi, hqi⟩ := hunder hrest.inv hsplit' hrest.keeps hq hleaf
          exact (hrest.uniform i hi).2 q hqi hleaf
        · obtain ⟨⟨i, -, hqi⟩, hleaf⟩ := hrest.mem l hl q hq
          exact ⟨hqi.trans (child_under i), hleaf⟩

theorem Inv.splitChunk (h : s.Inv) (hst : st = .tempPinned ∨ st = .allocated)
    (hp : s.state p = some st) (size : ℕ) (fails : TreePtr → Bool) :
    SplitsInto st s p (s.splitChunk p size fails) ∧
      ((s.splitChunk p size fails).1 = none → (s.splitChunk p size fails).2.state p = some st) := by
  have hwalk : SplitsInto st s p (Pmm.splitWalk size fails (s.size p) p s) :=
    h.splitWalk hst hp size fails
  unfold Pmm.splitChunk
  cases hr : Pmm.splitWalk size fails (s.size p) p s with
  | mk found s₁ =>
    rw [hr] at hwalk
    cases found with
    | some l => exact ⟨hwalk, by simp⟩
    | none =>
      have hmerge := hwalk.inv.mergeWalk hst le_rfl hwalk.uniform
      have hsplit : st ≠ .isSplit := by rcases hst with rfl | rfl <;> simp
      exact ⟨⟨hmerge.inv, fun q hq => (hmerge.keeps q hq).trans (hwalk.keeps q hq),
        hmerge.inv.uniform hsplit hmerge.state, by simp, by simp⟩, fun _ => hmerge.state⟩

end Pmm

end NvUvm
