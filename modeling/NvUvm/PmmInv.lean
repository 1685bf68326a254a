import NvUvm.PmmSections

/-!
# The invariant of the chunks

What holds of the chunks whenever no call is in the middle of a merge, as long as no root chunk is
in eviction, and the steps of the allocator and the free path that keep it.
-/

namespace NvUvm

open Lib TreePtr
open Function (update update_of_ne update_self)

namespace Pmm

variable {s s' : Pmm} {p q : TreePtr}

/-- The invariant of the chunks. -/
structure Inv (s : Pmm) : Prop where
  tree : s.TreeInv
  counters : s.CountersTrue
  lists : s.ListsInv
  allocated_pos : ∀ p, s.state p = some .isSplit → 1 ≤ s.allocated p
  notEvicting : ∀ r, s.inEviction r = false

/-- The chunks that somebody holds have not changed, but for one. -/
def KeepsHeld (s s' : Pmm) (p : TreePtr) : Prop := ∀ q ≠ p, s.Held q → s'.state q = s.state q

theorem KeepsHeld.held (h : KeepsHeld s s' p) (hne : q ≠ p) (hq : s.Held q) : s'.Held q := by
  unfold Held
  rw [h q hne hq]
  exact hq

/-! ## One chunk gets another state -/

namespace Relabelled

variable {old new : ChunkState}

theorem keepsHeld (h : Relabelled p old new s s') : KeepsHeld s s' p := fun _ hne _ =>
  h.state_of_ne hne

theorem inv (h : Relabelled p old new s s') (hs : s.Inv) (hold : old ≠ .isSplit)
    (hnew : new ≠ .isSplit) (howned : new = .pmaOwned → p = p.rootPtr)
    (hpos : new = .free → ∀ q, p.parent = some q → 1 < s.allocated q) (hlists : s'.ListsInv) :
    s'.Inv where
  tree := h.treeInv hs.tree hold hnew howned
  counters := h.countersTrue hs.tree hs.counters hnew
  lists := hlists
  allocated_pos := by
    intro q hq
    have hne : q ≠ p := by
      rintro rfl
      rw [h.state_self, Option.some.injEq] at hq
      exact hnew hq
    rw [h.state_of_ne hne] at hq
    have hposq := hs.allocated_pos q hq
    by_cases hpar : p.parent = some q
    · obtain ⟨i, rfl⟩ := parent_eq_some.mp hpar
      have hcnt := h.parent q i rfl
      by_cases hfree : new = .free
      · have := hpos hfree q hpar
        split at hcnt <;> omega
      · rw [if_pos hfree] at hcnt
        split at hcnt <;> omega
    · rw [h.others q hpar]
      exact hposq
  notEvicting := by
    rw [h.inEviction]
    exact hs.notEvicting

end Relabelled

theorem chunkIsLastAllocatedChild_eq_false :
    s.chunkIsLastAllocatedChild p = false ↔ ∀ q, p.parent = some q → s.allocated q ≠ 1 := by
  unfold chunkIsLastAllocatedChild
  cases p.parent with
  | none => simp
  | some parent => simp

variable {i : ℕ}

theorem chunkIsLastAllocatedChild_child :
    s.chunkIsLastAllocatedChild (p.child i) = true ↔ s.allocated p = 1 := by
  simp [chunkIsLastAllocatedChild]

theorem ListsInv.chunkFreeLocked (h : s.ListsInv) (hevict : s.inEviction p.root = false) :
    (s.chunkFreeLocked p).ListsInv := by
  unfold Pmm.chunkFreeLocked
  simp only [hevict, Bool.false_eq_true, if_false]
  split
  · rw [chunkUnpin_eq]
    apply ListsOff.chunkUpdateListsLocked
    · exact h.off rfl (fun q hq => update_of_ne hq ..) rfl rfl
    · exact .inl (update_self ..)
  · apply ListsOff.chunkUpdateListsLocked
    · exact h.off rfl (fun q hq => update_of_ne hq ..) rfl rfl
    · exact .inl (update_self ..)

theorem ListsInv.claimChunk (h : s.ListsInv) : (s.claimChunk p).ListsInv := by
  unfold Pmm.claimChunk
  rw [chunkPin_eq]
  apply ListsOff.chunkUpdateListsLocked
  · exact h.off rfl (fun q hq => update_of_ne hq ..) rfl rfl
  · exact .inr (update_self ..)

theorem ListsInv.chunkUnpin (h : s.ListsInv) (hp : s.state p ≠ some .free) {new : ChunkState}
    (hnew : new ≠ .free) : (s.chunkUnpin p new).ListsInv := by
  have hstate : (s.chunkUnpin p new).state = update s.state p (some new) := by
    rw [chunkUnpin_eq]
  have hlists : (s.chunkUnpin p new).lists = s.lists := by rw [chunkUnpin_eq]
  have htype : (s.chunkUnpin p new).type = s.type := by rw [chunkUnpin_eq]
  have hsize : (s.chunkUnpin p new).size = s.size := by rw [chunkUnpin_eq]
  refine h.congr hlists (fun q => ?_) fun q _ => by rw [htype, hsize]; exact ⟨rfl, rfl⟩
  rw [hstate]
  by_cases hq : q = p
  · subst hq
    simp [hp, hnew]
  · rw [update_of_ne hq]

theorem Inv.chunkFreeLocked (h : s.Inv) (hp : s.Held p)
    (hlast : s.chunkIsLastAllocatedChild p = false) :
    (s.chunkFreeLocked p).Inv ∧ (s.chunkFreeLocked p).state p = some .free ∧
      KeepsHeld s (s.chunkFreeLocked p) p := by
  have hpos : ∀ q, p.parent = some q → 1 < s.allocated q := by
    intro q hq
    obtain ⟨i, rfl⟩ := parent_eq_some.mp hq
    have hpos := h.counters.allocated_pos h.tree hp.ne_none hp.ne_free
    have hne := chunkIsLastAllocatedChild_eq_false.mp hlast q hq
    omega
  have hlists := h.lists.chunkFreeLocked (h.notEvicting p.root)
  rcases hp with hp | hp
  · have hr := chunkFreeLocked_relabelled h.tree h.counters hp (.inl rfl) (h.notEvicting p.root)
    exact ⟨hr.inv h (by simp) (by simp) (by simp) (fun _ => hpos) hlists, hr.state_self,
      hr.keepsHeld⟩
  · have hr := chunkFreeLocked_relabelled h.tree h.counters hp (.inr rfl) (h.notEvicting p.root)
    exact ⟨hr.inv h (by simp) (by simp) (by simp) (fun _ => hpos) hlists, hr.state_self,
      hr.keepsHeld⟩

theorem Inv.claimChunk (h : s.Inv) (hp : s.state p = some .free) :
    (s.claimChunk p).Inv ∧ (s.claimChunk p).state p = some .tempPinned ∧
      KeepsHeld s (s.claimChunk p) p := by
  have hr := claimChunk_relabelled h.tree hp
  exact ⟨hr.inv h (by simp) (by simp) (by simp) (by simp) h.lists.claimChunk, hr.state_self,
    hr.keepsHeld⟩

/-! ## Merges -/

theorem CountersTrue.free_of_last (h : s.CountersTrue) (htree : s.TreeInv)
    (hp : s.state (p.child i) ≠ none) (hfree : s.state (p.child i) ≠ some .free)
    (hlast : s.allocated p = 1) {j : ℕ} (hj : j < s.numSubchunks p) (hne : j ≠ i) :
    s.state (p.child j) = some .free := by
  have hsplit := htree.parent p i hp
  have hi := (htree.child_exists_iff hsplit i).mp hp
  rw [h.allocated p hsplit, countAllocated, Finset.card_eq_one] at hlast
  obtain ⟨k, hk⟩ := hlast
  by_contra hjfree
  have hmem : ∀ l, l < s.numSubchunks p → s.state (p.child l) ≠ some .free → l = k := by
    intro l hl hlfree
    have : l ∈ ({k} : Finset ℕ) := by
      rw [← hk]
      simp [hl, hlfree]
    simpa using this
  exact hne ((hmem j hj hjfree).trans (hmem i hi hfree).symm)

theorem ListsInv.pinSubchunks (h : s.ListsInv) : (s.pinSubchunks p).ListsInv where
  nodup := fun type size => (h.nodup type size).filter _
  mem := by
    intro q type size
    change q ∈ (s.lists (.free type size)).filter (fun q => decide (∀ i < s.numSubchunks p,
      q ≠ p.child i)) ↔ _ ∧ s.type q = type ∧ s.size q = size
    rw [List.mem_filter, decide_eq_true_iff, h.mem]
    by_cases hq : q ∈ subchunkSet p (s.numSubchunks p)
    · obtain ⟨i, hi, rfl⟩ := mem_subchunkSet.mp hq
      simp only [pinSubchunks_state_child hi, Option.some.injEq, reduceCtorEq, false_and, iff_false,
        not_and]
      exact fun _ hall => hall i hi rfl
    · have hne : ∀ i < s.numSubchunks p, q ≠ p.child i := fun i hi heq =>
        hq (mem_subchunkSet.mpr ⟨i, hi, heq⟩)
      rw [pinSubchunks_state_of_ne hne]
      exact and_iff_left hne

/-- The state after the section that prepares a merge. -/
structure Prepared (s : Pmm) (p : TreePtr) : Prop where
  inv : s.Inv
  split : s.state p = some .isSplit
  pinned : ∀ i < s.numSubchunks p, s.state (p.child i) = some .tempPinned

theorem Inv.prepareMerge (h : s.Inv) (hp : s.Held (p.child i)) (hlast : s.allocated p = 1) :
    ((s.chunkFreeLocked (p.child i)).pinSubchunks p).Prepared p ∧
      KeepsHeld s ((s.chunkFreeLocked (p.child i)).pinSubchunks p) (p.child i) := by
  set t := s.chunkFreeLocked (p.child i)
  obtain ⟨old, hold, hr⟩ : ∃ old, (old = .tempPinned ∨ old = .allocated) ∧
      Relabelled (p.child i) old .free s t := by
    rcases hp with hp | hp
    · exact ⟨_, .inl rfl, chunkFreeLocked_relabelled h.tree h.counters hp (.inl rfl)
        (h.notEvicting _)⟩
    · exact ⟨_, .inr rfl, chunkFreeLocked_relabelled h.tree h.counters hp (.inr rfl)
        (h.notEvicting _)⟩
  have hnotSplit : old ≠ .isSplit := by rcases hold with rfl | rfl <;> simp
  have htree := hr.treeInv h.tree hnotSplit (by simp) (by simp)
  have hctrs := hr.countersTrue h.tree h.counters (by simp)
  have hsplit : t.state p = some .isSplit := by
    rw [hr.state_of_ne (self_ne_child i)]
    exact h.tree.parent p i hp.ne_none
  have hnum : t.numSubchunks p = s.numSubchunks p := by
    rw [numSubchunks, numSubchunks, hr.size]
  have hfree : ∀ j < t.numSubchunks p, t.state (p.child j) = some .free := by
    intro j hj
    by_cases hji : j = i
    · rw [hji]
      exact hr.state_self
    · rw [hr.state_of_ne (by simpa using hji)]
      rw [hnum] at hj
      exact h.counters.free_of_last h.tree hp.ne_none hp.ne_free hlast hj hji
  have hexists : ∀ j < t.numSubchunks p,
      t.state (p.child j) ≠ none := fun j hj => by simp [hfree j hj]
  have hpin : ∀ j < t.numSubchunks p, (t.pinSubchunks p).state (p.child j) = some .tempPinned :=
    fun j hj => pinSubchunks_state_child hj
  have hself : ∀ j < t.numSubchunks p, p ≠ p.child j :=
    fun j _ => self_ne_child j
  refine ⟨⟨⟨htree.pinSubchunks fun j hj => ⟨hexists j hj, by simp [hfree j hj]⟩,
    hctrs.pinSubchunks hfree, (h.lists.chunkFreeLocked (h.notEvicting _)).pinSubchunks,
    fun q hq => ?_, ?_⟩, (pinSubchunks_state_of_ne hself).trans hsplit, hpin⟩, fun q hne hq => ?_⟩
  · -- every split chunk has an allocated subchunk again
    by_cases hqp : q = p
    · subst hqp
      rw [pinSubchunks_allocated, update_self]
      have := htree.one_lt_numSubchunks hsplit
      omega
    · rw [pinSubchunks_allocated, update_of_ne hqp, hr.others q (by simpa using Ne.symm hqp)]
      apply h.allocated_pos
      have hnot : ∀ j < t.numSubchunks p, q ≠ p.child j := by
        rintro j hj rfl
        rw [hpin j hj] at hq
        simp at hq
      rw [pinSubchunks_state_of_ne hnot] at hq
      by_cases hqi : q = p.child i
      · rw [hqi, hr.state_self] at hq
        simp at hq
      · rwa [hr.state_of_ne hqi] at hq
  · intro r
    exact (congrFun hr.inEviction r).trans (h.notEvicting r)
  · have hnot : ∀ j < t.numSubchunks p, q ≠ p.child j := by
      rintro j hj rfl
      have hfreej := hfree j hj
      rw [hr.state_of_ne hne] at hfreej
      exact hq.ne_free hfreej
    rw [pinSubchunks_state_of_ne hnot, hr.state_of_ne hne]

theorem Inv.mergeGpuChunk (h : s.Inv) (hp : s.state p = some .isSplit) {st : ChunkState}
    (hchildren : ∀ i < s.numSubchunks p, s.state (p.child i) = some st)
    (hst : st = .tempPinned ∨ st = .allocated) : (s.mergeGpuChunk p).Inv := by
  have hsplit : st ≠ .isSplit := by rcases hst with rfl | rfl <;> simp
  have hfree : st ≠ .free := by rcases hst with rfl | rfl <;> simp
  have hpos := h.tree.one_lt_numSubchunks hp
  have hself : (s.mergeGpuChunk p).state p = some st :=
    mergeGpuChunk_state_self.trans (hchildren 0 (by omega))
  refine ⟨h.tree.mergeGpuChunk hp hchildren hsplit,
    h.counters.mergeGpuChunk h.tree hp hchildren hsplit hfree, ?_, fun q hq => ?_, h.notEvicting⟩
  · refine h.lists.congr rfl (fun q => ?_) fun _ _ => ⟨rfl, rfl⟩
    by_cases hq : q = p
    · rw [hq, hself, hp]
      simp [hfree]
    · by_cases hsub : q ∈ subchunkSet p (s.numSubchunks p)
      · obtain ⟨i, hi, rfl⟩ := mem_subchunkSet.mp hsub
        rw [mergeGpuChunk_state_child hsub, hchildren i hi]
        simp [hfree]
      · rw [mergeGpuChunk_state_of_ne hq hsub]
  · apply h.allocated_pos
    by_cases hqp : q = p
    · rw [hqp]
      exact hp
    · by_cases hsub : q ∈ subchunkSet p (s.numSubchunks p)
      · rw [mergeGpuChunk_state_child hsub] at hq
        simp at hq
      · rwa [mergeGpuChunk_state_of_ne hqp hsub] at hq

theorem mergeGpuChunk_keepsHeld {st : ChunkState} (hp : s.state p = some .isSplit)
    (hchildren : ∀ i < s.numSubchunks p, s.state (p.child i) = some st)
    (hq : q ∉ subchunkSet p (s.numSubchunks p)) (hheld : s.Held q) :
    (s.mergeGpuChunk p).state q = s.state q := by
  apply mergeGpuChunk_state_of_ne _ hq
  rintro rfl
  exact hheld.ne_split hp

/-! ## Splits -/

theorem Inv.splitInto (h : s.Inv) (hp : s.Held p) {z : ℕ}
    (hz : (s.chunkSizes (s.type p)).findPrevSize (s.size p) = some z) : (s.splitInto p z).Inv := by
  obtain ⟨st, hst, hpst⟩ : ∃ st, (st = .tempPinned ∨ st = .allocated) ∧ s.state p = some st := by
    rcases hp with hp | hp
    · exact ⟨_, .inl rfl, hp⟩
    · exact ⟨_, .inr rfl, hp⟩
  have hsplit : st ≠ .isSplit := by rcases hst with rfl | rfl <;> simp
  have hfree : st ≠ .free := by rcases hst with rfl | rfl <;> simp
  have howned : st ≠ .pmaOwned := by rcases hst with rfl | rfl <;> simp
  have hnone : ∀ i, s.state (p.child i) = none := by
    intro i
    by_contra hi
    exact hp.ne_split (h.tree.parent p i hi)
  have hstate : ∀ q, (s.splitInto p z).state q = s.state q ∨
      q = p ∧ (s.splitInto p z).state q = some .isSplit ∨
        q ∈ subchunkSet p (s.size p / z) ∧ (s.splitInto p z).state q = some st := by
    intro q
    by_cases hqp : q = p
    · right
      left
      rw [hqp]
      exact ⟨rfl, splitInto_state_self⟩
    · by_cases hsub : q ∈ subchunkSet p (s.size p / z)
      · right
        right
        obtain ⟨i, hi, rfl⟩ := mem_subchunkSet.mp hsub
        exact ⟨hsub, (splitInto_state_child hi).trans hpst⟩
      · left
        exact splitInto_state_of_ne hqp hsub
  have hfreeSub : ∀ q, s.state q = some .free → q ∉ subchunkSet p (s.size p / z) := by
    intro q hq hsub
    obtain ⟨i, hi, rfl⟩ := mem_subchunkSet.mp hsub
    rw [hnone i] at hq
    simp at hq
  refine ⟨h.tree.splitInto hpst hsplit hz howned,
    h.counters.splitInto h.tree hpst hsplit hz howned hfree, ?_, fun q hq => ?_, h.notEvicting⟩
  · refine h.lists.congr rfl (fun q => ?_) fun q hq =>
      ⟨splitInto_type_of_ne (hfreeSub q hq), splitInto_size_of_ne (hfreeSub q hq)⟩
    rcases hstate q with heq | ⟨rfl, hq⟩ | ⟨hsub, hq⟩
    · rw [heq]
    · rw [hq, hpst]
      simp [hfree]
    · obtain ⟨i, hi, rfl⟩ := mem_subchunkSet.mp hsub
      rw [hq, hnone i]
      simp [hfree]
  · rcases hstate q with heq | ⟨rfl, -⟩ | ⟨-, hq'⟩
    · by_cases hqp : q = p
      · rw [heq, hqp] at hq
        exact absurd hq hp.ne_split
      · have hpos := h.allocated_pos q (heq ▸ hq)
        change 1 ≤ update s.allocated p _ q
        rwa [update_of_ne hqp]
    · change 1 ≤ update s.allocated q _ q
      rw [update_self]
      exact (ChunkSizes.findPrevSize_dvd (h.tree.size_mem hp.ne_none) hz).2.le
    · rw [hq', Option.some.injEq] at hq
      exact absurd hq hsplit

theorem splitInto_child_eq (h : s.Inv) (hp : s.Held p) {z : ℕ}
    (hz : (s.chunkSizes (s.type p)).findPrevSize (s.size p) = some z)
    (hi : i < (s.splitInto p z).numSubchunks p) :
    (s.splitInto p z).state (p.child i) = s.state p := by
  have hexists := ((h.splitInto hp hz).tree.child_exists_iff splitInto_state_self i).mpr hi
  by_cases hlt : i < s.size p / z
  · exact splitInto_state_child hlt
  · have hsub : p.child i ∉ subchunkSet p (s.size p / z) := by
      intro hsub
      obtain ⟨j, hj, heq⟩ := mem_subchunkSet.mp hsub
      rw [child_inj] at heq
      omega
    rw [splitInto_state_of_ne (child_ne_self i) hsub] at hexists
    exact absurd (h.tree.parent p i hexists) hp.ne_split

theorem splitInto_state_of_not_under {z : ℕ} (hq : ¬ q.Under p) :
    (s.splitInto p z).state q = s.state q := by
  apply splitInto_state_of_ne
  · rintro rfl
    exact hq (Under.refl q)
  · intro hsub
    obtain ⟨i, -, rfl⟩ := mem_subchunkSet.mp hsub
    exact hq (child_under i)

/-! ## The free path -/

theorem Inv.freeChunkWithMerges (h : s.Inv) (root : ℕ) (path : List ℕ) (hp : s.Held ⟨root, path⟩) :
    (freeChunkWithMerges root path s).Inv ∧
      KeepsHeld s (freeChunkWithMerges root path s) ⟨root, path⟩ := by
  induction path generalizing s with
  | nil =>
    have hlast : s.chunkIsLastAllocatedChild ⟨root, []⟩ = false := rfl
    obtain ⟨hinv, -, hkeeps⟩ := h.chunkFreeLocked hp hlast
    exact ⟨hinv, hkeeps⟩
  | cons i path ih =>
    change s.Held (child ⟨root, path⟩ i) at hp
    change _ ∧ KeepsHeld s _ (child ⟨root, path⟩ i)
    by_cases hlast : s.chunkIsLastAllocatedChild (child ⟨root, path⟩ i) = true
    · have hone := chunkIsLastAllocatedChild_child.mp hlast
      obtain ⟨hprepared, hkeeps⟩ := h.prepareMerge hp hone
      -- the parent is pinned, and freed in its turn
      have hmerged := hprepared.inv.mergeGpuChunk hprepared.split hprepared.pinned (.inl rfl)
      have hpos := hprepared.inv.tree.one_lt_numSubchunks hprepared.split
      have hstate := mergeGpuChunk_state_self.trans (hprepared.pinned 0 (by omega))
      obtain ⟨hinv, hup⟩ := ih hmerged (.inl hstate)
      have hdef : Pmm.freeChunkWithMerges root (i :: path) s = Pmm.freeChunkWithMerges root path
          (((s.chunkFreeLocked (child ⟨root, path⟩ i)).pinSubchunks ⟨root, path⟩).mergeGpuChunk
            ⟨root, path⟩) := by
        have hpar : (⟨root, i :: path⟩ : TreePtr).parent = some ⟨root, path⟩ := rfl
        have hlast' : s.chunkIsLastAllocatedChild ⟨root, i :: path⟩ = true := hlast
        rw [Pmm.freeChunkWithMerges]
        simp only [freeOrPrepareForMerge, hpar, hlast']
        rfl
      rw [hdef]
      refine ⟨hinv, fun q hne hq => ?_⟩
      have hq' := hkeeps.held hne hq
      have hsub : q ∉ subchunkSet ⟨root, path⟩ (Pmm.numSubchunks
          ((s.chunkFreeLocked (child ⟨root, path⟩ i)).pinSubchunks ⟨root, path⟩) ⟨root, path⟩) := by
        intro hsub
        obtain ⟨j, hj, rfl⟩ := mem_subchunkSet.mp hsub
        have hji : j ≠ i := fun heq => hne (by rw [heq])
        have hsplit := h.tree.parent _ _ hp.ne_none
        have hjfree := h.counters.free_of_last h.tree hp.ne_none hp.ne_free hone
          ((h.tree.child_exists_iff hsplit j).mp hq.ne_none) hji
        exact hq.ne_free hjfree
      have hkeep := mergeGpuChunk_keepsHeld hprepared.split hprepared.pinned hsub hq'
      have hqp : q ≠ ⟨root, path⟩ := by
        rintro rfl
        exact hq'.ne_split hprepared.split
      rw [hup q hqp (by rw [Held, hkeep]; exact hq'), hkeep]
      exact hkeeps q hne hq
    · rw [Bool.not_eq_true] at hlast
      obtain ⟨hinv, -, hkeeps⟩ := h.chunkFreeLocked hp hlast
      have hdef : Pmm.freeChunkWithMerges root (i :: path) s =
          s.chunkFreeLocked (child ⟨root, path⟩ i) := by
        have hpar : (⟨root, i :: path⟩ : TreePtr).parent = some ⟨root, path⟩ := rfl
        have hlast' : s.chunkIsLastAllocatedChild ⟨root, i :: path⟩ = false := hlast
        rw [Pmm.freeChunkWithMerges]
        simp only [freeOrPrepareForMerge, hpar, hlast', Bool.false_eq_true]
        rfl
      rw [hdef]
      exact ⟨hinv, hkeeps⟩

theorem pickFreeRootChunk_eq_some (h : s.pickFreeRootChunk = (some p, s')) :
    (∃ type, p ∈ s.lists (.free type uvmChunkSizeMax)) ∧ s' = (s.listDelInit p).chunkPin p := by
  unfold Pmm.pickFreeRootChunk at h
  dsimp only at h
  split at h
  · simp at h
  · next q hq =>
    obtain ⟨rfl, rfl⟩ := h
    refine ⟨?_, rfl⟩
    rcases Option.or_eq_some_iff.mp hq with hq | ⟨-, hq⟩
    · exact ⟨_, List.mem_of_head? hq⟩
    · exact ⟨_, List.mem_of_head? hq⟩

theorem pickFreeRootChunk_eq_none (h : s.pickFreeRootChunk = (none, s')) : s' = s := by
  unfold Pmm.pickFreeRootChunk at h
  dsimp only at h
  split at h
  · simpa using h.symm
  · simp at h

theorem pickFreeRootChunk_relabelled (htree : s.TreeInv) (hp : s.state p = some .free)
    (hroot : p = p.rootPtr) :
    Relabelled p .free .tempPinned s ((s.listDelInit p).chunkPin p) := by
  have hpin : (s.listDelInit p).chunkIsRootChunk p = true :=
    (htree.chunkIsRootChunk_iff (by simp [hp])).mpr hroot
  have hpar : p.parent = none := parent_eq_none.mpr hroot
  rw [chunkPin_eq]
  refine ⟨hp, rfl, rfl, rfl, rfl, rfl, rfl, ?_, fun _ _ => rfl, fun hne => absurd hroot hne,
    fun r _ => ?_⟩
  · rintro q i rfl
    simp at hpar
  · rw [if_pos hpin]
    rfl

theorem Inv.freeNextAvailableRootChunk (h : s.Inv) : s.freeNextAvailableRootChunk.Inv ∧
      ∀ q, s.Held q → s.freeNextAvailableRootChunk.state q = s.state q := by
  unfold Pmm.freeNextAvailableRootChunk
  split
  · next s' hpick =>
    rw [pickFreeRootChunk_eq_none hpick]
    exact ⟨h, fun _ _ => rfl⟩
  · next p s' hpick =>
    obtain ⟨⟨type, hmem⟩, rfl⟩ := pickFreeRootChunk_eq_some hpick
    obtain ⟨hp, -, hsize⟩ := (h.lists.mem p type _).mp hmem
    have hroot := (h.tree.chunkIsRootChunk_iff (by simp [hp])).mp (decide_eq_true hsize)
    have hr := pickFreeRootChunk_relabelled h.tree hp hroot
    have hlists : ((s.listDelInit p).chunkPin p).ListsInv := by
      have hcomm : (s.listDelInit p).chunkPin p = (s.chunkPin p).listDelInit p := by
        rw [chunkPin_eq, chunkPin_eq]
        rfl
      have hstate : (s.chunkPin p).state = update s.state p (some .tempPinned) := by
        rw [chunkPin_eq]
      rw [hcomm]
      apply ListsOff.listDelInit
      · rw [chunkPin_eq]
        exact h.lists.off rfl (fun q hq => update_of_ne hq ..) rfl rfl
      · rw [hstate, update_self]
        simp
    have hinv := hr.inv h (by simp) (by simp) (by simp) (by simp) hlists
    have hr' := chunkUnpin_relabelled hinv.tree hinv.counters hr.state_self .pmaOwned
      (by simp) (by simp)
    refine ⟨hr'.inv hinv (by simp) (by simp) (fun _ => hroot) (by simp) ?_, fun q hq => ?_⟩
    · exact hinv.lists.chunkUnpin (by simp [hr.state_self]) (by simp)
    · have hne : q ≠ p := by
        rintro rfl
        exact hq.ne_free hp
      exact (hr'.state_of_ne hne).trans (hr.state_of_ne hne)

theorem Inv.freeChunk (h : s.Inv) (hp : s.Held p) :
    (s.freeChunk p).Inv ∧ KeepsHeld s (s.freeChunk p) p := by
  -- what is left of the call, when the chunk has been freed
  have hnext : ∀ {s' : Pmm}, s'.Inv ∧ KeepsHeld s s' p →
      s'.freeNextAvailableRootChunk.Inv ∧ KeepsHeld s s'.freeNextAvailableRootChunk p := by
    rintro s' ⟨hinv, hkeep⟩
    obtain ⟨hinv', hkeeps'⟩ := hinv.freeNextAvailableRootChunk
    exact ⟨hinv', fun q hne hq => (hkeeps' q (hkeep.held hne hq)).trans (hkeep q hne hq)⟩
  unfold Pmm.freeChunk tryChunkFree
  by_cases hlast : s.chunkIsLastAllocatedChild p = true
  · simp only [hlast, if_true, Bool.false_eq_true]
    exact hnext (h.freeChunkWithMerges _ _ hp)
  · rw [Bool.not_eq_true] at hlast
    obtain ⟨hinv, -, hkeep⟩ := h.chunkFreeLocked hp hlast
    simp only [hlast, Bool.false_eq_true, if_false, if_true]
    split
    · exact hnext ⟨hinv, hkeep⟩
    · exact ⟨hinv, hkeep⟩

end Pmm

end NvUvm
