import NvUvm.Lib.Run
import NvUvm.PmmAlloc
import NvUvm.PmmWalks

/-!
# Runs of calls of the physical memory manager
-/

namespace NvUvm

open Lib TreePtr

namespace Pmm

variable {s s' : Pmm} {p q : TreePtr}

/-- The chunks of a list are held, each by one owner. -/
structure Owned (s : Pmm) (l : List TreePtr) : Prop where
  nodup : l.Nodup
  held : ∀ p ∈ l, s.Held p

namespace Owned

variable {l l' : List TreePtr}

theorem perm (h : s.Owned l) (hl : l.Perm l') : s.Owned l' :=
  ⟨hl.nodup_iff.mp h.nodup, fun p hp => h.held p (hl.mem_iff.mpr hp)⟩

theorem sublist (h : s.Owned l) (hl : l'.Sublist l) : s.Owned l' :=
  ⟨h.nodup.sublist hl, fun p hp => h.held p (hl.subset hp)⟩

theorem congr (h : s.Owned l) (hstate : ∀ p ∈ l, s'.Held p) : s'.Owned l := ⟨h.nodup, hstate⟩

theorem cons (h : s.Owned l) {r : Option TreePtr × Pmm} (hr : Allocates s r) (hp : r.1 = some p) :
    r.2.Owned (p :: l) := by
  obtain ⟨hpin, hfresh⟩ := hr.fresh p hp
  refine ⟨List.nodup_cons.mpr ⟨fun hmem => hfresh (h.held p hmem), h.nodup⟩, fun q hq => ?_⟩
  rcases List.mem_cons.mp hq with rfl | hq
  · exact .inl hpin
  · rw [Held, hr.keeps q (h.held q hq)]
    exact h.held q hq

theorem tail (h : s.Owned (p :: l)) (hkeep : KeepsHeld s s' p) : s'.Owned l := by
  obtain ⟨hnot, hnd⟩ := List.nodup_cons.mp h.nodup
  refine ⟨hnd, fun q hq => hkeep.held ?_ (h.held q (List.mem_cons_of_mem p hq))⟩
  rintro rfl
  exact hnot hq

end Owned

/-! ## Allocation of several chunks -/

variable {held : List TreePtr}

theorem Inv.allocLoop (h : s.Inv) (type : MemoryType) (size : ℕ) (os : List AllocOutcome)
    (chunks : List TreePtr) (ho : s.Owned (chunks ++ held))
    (hpin : ∀ p ∈ chunks, s.state p = some .tempPinned) :
    (allocLoop type size os chunks s).2.2.Inv ∧
      (allocLoop type size os chunks s).2.2.Owned
        ((allocLoop type size os chunks s).2.1 ++ held) ∧
        ∀ p ∈ (allocLoop type size os chunks s).2.1,
          (allocLoop type size os chunks s).2.2.state p = some .tempPinned := by
  induction os generalizing s chunks with
  | nil => exact ⟨h, ho, hpin⟩
  | cons o os ih =>
    have halloc := h.allocChunk type size o
    have hkeep : ∀ p ∈ chunks, (s.allocChunk type size o).2.state p = some .tempPinned :=
      fun p hp => (halloc.keeps p (.inl (hpin p hp))).trans (hpin p hp)
    rw [Pmm.allocLoop]
    cases hr : s.allocChunk type size o with
    | mk found s₁ =>
      rw [hr] at halloc hkeep
      cases found with
      | none =>
        refine ⟨halloc.inv, ho.congr fun q hq => ?_, hkeep⟩
        rw [Held, halloc.keeps q (ho.held q hq)]
        exact ho.held q hq
      | some p =>
        have ho₁ := ho.cons halloc rfl
        have hpinned₁ : ∀ q ∈ p :: chunks, s₁.state q = some .tempPinned := by
          intro q hq
          rcases List.mem_cons.mp hq with rfl | hq
          · exact (halloc.fresh q rfl).1
          · exact hkeep q hq
        dsimp only
        split
        · exact ⟨halloc.inv, ho₁, hpinned₁⟩
        · exact ih halloc.inv (p :: chunks) ho₁ hpinned₁

theorem Inv.foldl_freeChunk (h : s.Inv) {chunks : List TreePtr} (ho : s.Owned (chunks ++ held)) :
    (chunks.foldl Pmm.freeChunk s).Inv ∧ (chunks.foldl Pmm.freeChunk s).Owned held := by
  induction chunks generalizing s with
  | nil => exact ⟨h, ho⟩
  | cons p chunks ih =>
    obtain ⟨hinv, hkeep⟩ := h.freeChunk (ho.held p List.mem_cons_self)
    exact ih hinv (ho.tail hkeep)

theorem Inv.alloc (h : s.Inv) (type : MemoryType) (size : ℕ) (os : List AllocOutcome)
    (ending : AllocEnd) (ho : s.Owned held) :
    (s.alloc type size os ending).2.Inv ∧
      (s.alloc type size os ending).2.Owned ((s.alloc type size os ending).1.getD [] ++ held) ∧
        ∀ p ∈ (s.alloc type size os ending).1.getD [],
          (s.alloc type size os ending).2.state p = some .tempPinned := by
  obtain ⟨hinv, ho', hpin⟩ := h.allocLoop type size os [] ho (by simp)
  unfold Pmm.alloc
  dsimp only
  split
  · dsimp only
    split
    · refine ⟨hinv, ho'.perm ((List.reverse_perm _).symm.append_right held), fun p hp => ?_⟩
      exact hpin p (List.mem_reverse.mp hp)
    · -- nobody owns the chunks of a call whose last wait fails
      exact ⟨hinv, ho'.sublist (List.sublist_append_right ..), by simp⟩
  · obtain ⟨hinv', ho''⟩ := hinv.foldl_freeChunk ho'
    exact ⟨hinv', ho'', by simp⟩

/-! ## Chunks that are unpinned -/

theorem Inv.chunkUnpin_allocated (h : s.Inv) (hp : s.state p = some .tempPinned) :
    (s.chunkUnpin p .allocated).Inv ∧
      Relabelled p .tempPinned .allocated s (s.chunkUnpin p .allocated) := by
  have hr := chunkUnpin_relabelled h.tree h.counters hp .allocated (by simp) (by simp)
  exact ⟨hr.inv h (by simp) (by simp) (by simp) (by simp)
    (h.lists.chunkUnpin (by simp [hp]) (by simp)), hr⟩

theorem Relabelled.keepsAll {old new : ChunkState} (h : Relabelled p old new s s')
    (hnew : new = .allocated) (hq : s.Held q) : s'.Held q := by
  by_cases hqp : q = p
  · right
    rw [hqp, h.state_self, hnew]
  · rw [Held, h.state_of_ne hqp]
    exact hq

theorem Inv.unpinTemp (h : s.Inv) (hp : s.state p = some .tempPinned) (vaBlock : ℕ) :
    (s.unpinTemp p vaBlock).Inv ∧ ∀ q, s.Held q → (s.unpinTemp p vaBlock).Held q := by
  obtain ⟨hinv, hr⟩ := h.chunkUnpin_allocated hp
  have hstate : ((s.chunkUnpin p .allocated).setVaBlock p (some vaBlock)).state p =
      some .allocated := hr.state_self
  obtain ⟨lists, hlists⟩ := chunkUpdateListsLocked_eq
    (s := (s.chunkUnpin p .allocated).setVaBlock p (some vaBlock)) (p := p)
  have hinv' : ((s.chunkUnpin p .allocated).setVaBlock p (some vaBlock)).ListsInv :=
    hinv.lists.congr rfl (fun _ => Iff.rfl) fun _ _ => ⟨rfl, rfl⟩
  have hnew : (((s.chunkUnpin p .allocated).setVaBlock p
      (some vaBlock)).chunkUpdateListsLocked p).ListsInv := by
    have hroot : (((s.chunkUnpin p .allocated).setVaBlock p (some vaBlock)).updateRootList
        p).ListsInv :=
      listsInv_iff_off.mpr fun k => (listsInv_iff_off.mp hinv' k).updateRootList
    unfold Pmm.chunkUpdateListsLocked
    rw [hstate]
    exact hroot
  unfold Pmm.unpinTemp
  rw [hlists] at hnew ⊢
  refine ⟨⟨hinv.tree.congr rfl rfl rfl (fun _ => .inl rfl) (fun _ => Iff.rfl) (fun _ => Iff.rfl)
    hinv.tree.notOwned, ⟨hinv.counters.allocated, hinv.counters.pinned⟩, hnew, hinv.allocated_pos,
    hinv.notEvicting⟩, fun q hq => hr.keepsAll rfl hq⟩

theorem Inv.foldl_chunkUnpin (h : s.Inv) {chunks : List TreePtr} (hnd : chunks.Nodup)
    (hpin : ∀ p ∈ chunks, s.state p = some .tempPinned) :
    (chunks.foldl (fun s p => s.chunkUnpin p .allocated) s).Inv ∧
      ∀ q, s.Held q → (chunks.foldl (fun s p => s.chunkUnpin p .allocated) s).Held q := by
  induction chunks generalizing s with
  | nil => exact ⟨h, fun _ hq => hq⟩
  | cons p chunks ih =>
    obtain ⟨hnot, hnd⟩ := List.nodup_cons.mp hnd
    obtain ⟨hinv, hr⟩ := h.chunkUnpin_allocated (hpin p List.mem_cons_self)
    obtain ⟨hinv', hheld⟩ := ih hinv hnd fun q hq => by
      rw [hr.state_of_ne fun heq => hnot (heq ▸ hq)]
      exact hpin q (List.mem_cons_of_mem p hq)
    exact ⟨hinv', fun q hq => hheld q (hr.keepsAll rfl hq)⟩

theorem Inv.allocKernel (h : s.Inv) (size : ℕ) (os : List AllocOutcome) (ending : AllocEnd)
    (ho : s.Owned held) :
    (s.allocKernel size os ending).2.Inv ∧
      (s.allocKernel size os ending).2.Owned
        ((s.allocKernel size os ending).1.getD [] ++ held) := by
  obtain ⟨hinv, ho', hpin⟩ := h.alloc .kernel size os ending ho
  unfold Pmm.allocKernel
  cases hr : s.alloc .kernel size os ending with
  | mk found s₁ =>
    rw [hr] at hinv ho' hpin
    cases found with
    | none => exact ⟨hinv, ho'⟩
    | some chunks =>
      obtain ⟨hinv', hheld⟩ := hinv.foldl_chunkUnpin
        (ho'.sublist (List.sublist_append_left ..)).nodup hpin
      exact ⟨hinv', ho'.congr fun p hp => hheld p (ho'.held p hp)⟩

theorem Held.exists_state (h : s.Held p) :
    ∃ st, (st = .tempPinned ∨ st = .allocated) ∧ s.state p = some st := by
  rcases h with h | h
  · exact ⟨_, .inl rfl, h⟩
  · exact ⟨_, .inr rfl, h⟩

theorem held_of_state {st : ChunkState} (hst : st = .tempPinned ∨ st = .allocated)
    (hp : s.state p = some st) : s.Held p := by
  rcases hst with rfl | rfl
  · exact .inl hp
  · exact .inr hp

private theorem Inv.not_under_of_ne (h : s.Inv) (hp : s.Held p) (hq : s.Held q) (hne : q ≠ p) :
    ¬ q.Under p := fun hunder => hne (h.tree.eq_of_under_leaf hp.ne_split hq.ne_none hunder)

theorem inv_init (chunkSizes : MemoryType → ChunkSizes) : (init chunkSizes).Inv := by
  -- PMA owns every chunk that there is
  have hstate : ∀ {p st}, (init chunkSizes).state p = some st → st = .pmaOwned := by
    intro p st hp
    simp only [init] at hp
    split at hp
    · exact (Option.some.inj hp).symm
    · simp at hp
  have hchild : ∀ (p : TreePtr) i, (init chunkSizes).state (p.child i) = none := fun p i => by
    simp [init, child]
  refine ⟨⟨fun r => by simp [init], fun _ => rfl, fun _ => rfl,
    fun p i hi => absurd (hchild p i) hi, fun p i => by simp [hchild], fun p hp => ?_⟩,
    ⟨fun p hp => ?_, fun r hr => ?_⟩, ⟨fun _ _ => List.nodup_nil, fun p type size => ?_⟩,
    fun p hp => ?_, fun _ => rfl⟩
  · exact absurd (hstate hp) (by simp)
  · exact absurd (hstate hp) (by simp)
  · exact absurd (hstate hr) (by simp)
  · constructor
    · intro hmem
      simp [init] at hmem
    · intro hp
      exact absurd (hstate hp.1) (by simp)
  · exact absurd (hstate hp) (by simp)

end Pmm

namespace PmmCalls

open Pmm

variable {s : PmmCalls}

/-- The invariant of the calls. -/
structure CallsInv (s : PmmCalls) : Prop where
  inv : s.pmm.Inv
  owned : s.pmm.Owned s.held

theorem init_inv (chunkSizes : MemoryType → ChunkSizes) : (init chunkSizes).CallsInv :=
  ⟨inv_init chunkSizes, ⟨List.nodup_nil, by simp [init]⟩⟩

private theorem splitChunk_inv (h : s.CallsInv) {p : TreePtr} (hp : p ∈ s.held) (size : ℕ)
    (fails : TreePtr → Bool) : (s.exec (.splitChunk p size fails)).CallsInv := by
  have hheld := h.owned.held p hp
  obtain ⟨st, hst, hstate⟩ := hheld.exists_state
  obtain ⟨hsplits, hfailed⟩ := h.inv.splitChunk hst hstate size fails
  -- the chunks of the other owners
  have hothers : ∀ q ∈ s.held, q ≠ p → ¬ q.Under p ∧ (s.pmm.splitChunk p size fails).2.Held q := by
    intro q hq hne
    have hunder := h.inv.not_under_of_ne hheld (h.owned.held q hq) hne
    refine ⟨hunder, ?_⟩
    rw [Held, hsplits.keeps q hunder]
    exact h.owned.held q hq
  simp only [exec]
  cases hr : s.pmm.splitChunk p size fails with
  | mk found pmm =>
    rw [hr] at hsplits hfailed hothers
    cases found with
    | none =>
      refine ⟨hsplits.inv, h.owned.congr fun q hq => ?_⟩
      by_cases hqp : q = p
      · rw [hqp]
        exact held_of_state hst (hfailed rfl)
      · exact (hothers q hq hqp).2
    | some subchunks =>
      have herase := (h.owned.perm (List.perm_cons_erase hp)).nodup
      obtain ⟨hnot, hnd⟩ := List.nodup_cons.mp herase
      refine ⟨hsplits.inv, (hsplits.nodup _ rfl).append hnd fun q hq hq' => ?_, fun q hq => ?_⟩
      · have hne : q ≠ p := fun heq => hnot (heq ▸ hq')
        exact (hothers q (List.mem_of_mem_erase hq') hne).1 (hsplits.mem _ rfl q hq).1
      · rcases List.mem_append.mp hq with hq | hq
        · obtain ⟨hunder, hleaf⟩ := hsplits.mem _ rfl q hq
          exact held_of_state hst (hsplits.uniform.2 q hunder hleaf)
        · have hne : q ≠ p := fun heq => hnot (heq ▸ hq)
          exact (hothers q (List.mem_of_mem_erase hq) hne).2

private theorem mergeChunk_inv (h : s.CallsInv) {p : TreePtr} (hallowed : s.Allowed (.mergeChunk p)) :
    (s.exec (.mergeChunk p)).CallsInv := by
  obtain ⟨hexists, hheld, hstates⟩ := hallowed
  have hmem : ∀ {q}, q ∈ s.pmm.getSubchunks p ↔ q.Under p ∧ s.pmm.Leaf q :=
    h.inv.tree.mem_getSubchunks hexists
  obtain ⟨st, hst, huniform⟩ : ∃ st, (st = .tempPinned ∨ st = .allocated) ∧ s.pmm.Uniform p st := by
    rcases hstates with hstates | hstates
    · exact ⟨_, .inl rfl, hexists, fun q hq hleaf => hstates q (hmem.mpr ⟨hq, hleaf⟩)⟩
    · exact ⟨_, .inr rfl, hexists, fun q hq hleaf => hstates q (hmem.mpr ⟨hq, hleaf⟩)⟩
  have hmerge := h.inv.mergeWalk hst le_rfl huniform
  have hothers : ∀ q ∈ s.held, q ∉ s.pmm.getSubchunks p → ¬ q.Under p := fun q hq hnot hunder =>
    hnot (hmem.mpr ⟨hunder, (h.owned.held q hq).leaf⟩)
  refine ⟨hmerge.inv, List.nodup_cons.mpr ⟨fun hp => ?_, h.owned.nodup.filter _⟩, fun q hq => ?_⟩
  · obtain ⟨hp, hnot⟩ := List.mem_filter.mp hp
    exact hothers p hp (of_decide_eq_true hnot) (Under.refl p)
  · rcases List.mem_cons.mp hq with rfl | hq
    · exact held_of_state hst hmerge.state
    · obtain ⟨hq, hnot⟩ := List.mem_filter.mp hq
      have hkeep := hmerge.keeps q (hothers q hq (of_decide_eq_true hnot))
      change (mergeWalk (s.pmm.size p) p s.pmm).Held q
      rw [Held, hkeep]
      exact h.owned.held q hq

theorem inv_step (s : PmmCalls) (op : PmmOp) (h : s.CallsInv) : (s.step op).CallsInv := by
  unfold step
  split
  · next hallowed =>
    cases op with
    | alloc type size os ending =>
      obtain ⟨hinv, ho, -⟩ := h.inv.alloc type size os ending h.owned
      exact ⟨hinv, ho⟩
    | allocKernel size os ending =>
      obtain ⟨hinv, ho⟩ := h.inv.allocKernel size os ending h.owned
      exact ⟨hinv, ho⟩
    | unpinTemp p vaBlock =>
      obtain ⟨hinv, hheld⟩ := h.inv.unpinTemp hallowed.2 vaBlock
      exact ⟨hinv, h.owned.congr fun q hq => hheld q (h.owned.held q hq)⟩
    | free p =>
      obtain ⟨hinv, hkeep⟩ := h.inv.freeChunk (h.owned.held p hallowed)
      exact ⟨hinv, (h.owned.perm (List.perm_cons_erase hallowed)).tail hkeep⟩
    | splitChunk p size fails => exact splitChunk_inv h hallowed.1 size fails
    | mergeChunk p => exact mergeChunk_inv h hallowed
  · exact h

/-- The chunks are what the calls take them for. -/
structure Representation (s : PmmCalls) : Prop where
  tiled : ∀ p, s.pmm.state p = some .isSplit → ∃ size,
    (s.pmm.chunkSizes (s.pmm.type p)).findPrevSize (s.pmm.size p) = some size ∧
      s.pmm.numSubchunks p * size = s.pmm.size p ∧
        (∀ i, s.pmm.state (p.child i) ≠ none ↔ i < s.pmm.numSubchunks p) ∧
          ∀ i < s.pmm.numSubchunks p, s.pmm.range (p.child i) =
            ⟨s.pmm.address p + i * size, size⟩
  allocated : ∀ p, s.pmm.state p = some .isSplit →
    s.pmm.allocated p = s.pmm.countAllocated p ∧ 1 ≤ s.pmm.allocated p
  pinned : ∀ r, s.pmm.state ⟨r, []⟩ = some .isSplit →
    s.pmm.CountsPinned r (s.pmm.pinnedLeafChunks r)
  free : ∀ p type size, p ∈ s.pmm.lists (.free type size) ↔
    s.pmm.state p = some .free ∧ s.pmm.type p = type ∧ s.pmm.size p = size
  leaves : ∀ p ∈ s.held, s.pmm.Leaf p
  disjoint : s.held.Pairwise fun p q => (s.pmm.range p).Disjoint (s.pmm.range q)

theorem CallsInv.representation (h : s.CallsInv) : s.Representation where
  tiled := fun p hp => by
    obtain ⟨size, hprev, hsub⟩ := h.inv.tree.subchunks p hp
    have hnum := (h.inv.tree.numSubchunks_eq hp hprev).1
    have hdvd := ChunkSizes.findPrevSize_dvd (h.inv.tree.size_mem (by simp [hp])) hprev
    refine ⟨size, hprev, by rw [hnum]; exact hdvd.1, h.inv.tree.child_exists_iff hp, fun i hi => ?_⟩
    rw [hnum] at hi
    obtain ⟨hsize, -, haddress⟩ := (hsub i).2 hi
    rw [range, hsize, haddress]
  allocated := fun p hp => ⟨h.inv.counters.allocated p hp, h.inv.allocated_pos p hp⟩
  pinned := h.inv.counters.pinned
  free := h.inv.lists.mem
  leaves := fun p hp => (h.owned.held p hp).leaf
  disjoint := by
    refine h.owned.nodup.imp_of_mem fun {p q} hp hq hne => ?_
    have hpheld := h.owned.held p hp
    have hqheld := h.owned.held q hq
    exact h.inv.tree.leaves_disjoint hpheld.ne_none hqheld.ne_none hpheld.ne_split hqheld.ne_split
      hne

/-- **After every sequence of calls the chunks are what the calls take them for**, whatever fails
in them. -/
theorem representation_along (chunkSizes : MemoryType → ChunkSizes) (ops : List PmmOp) :
    HoldsAlong step Representation (init chunkSizes) ops := fun pre _ =>
  (run_inv step (init_inv chunkSizes) inv_step pre).representation

end PmmCalls

end NvUvm
