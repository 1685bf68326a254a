import NvUvm.PmmInv
import NvUvm.PmmOps

/-!
# The allocation keeps the invariant
-/

namespace NvUvm

open Lib TreePtr

namespace Pmm

variable {s s' : Pmm} {p q : TreePtr}

/-! ## Allocation -/

/-- What the allocation of one chunk does. -/
structure Allocates (s : Pmm) (r : Option TreePtr × Pmm) : Prop where
  inv : r.2.Inv
  keeps : ∀ q, s.Held q → r.2.state q = s.state q
  fresh : ∀ p, r.1 = some p → r.2.state p = some .tempPinned ∧ ¬ s.Held p

theorem Inv.claimFreeChunk_cases (h : s.Inv) (type : MemoryType) (size : ℕ) :
    s.claimFreeChunk type size = (none, s) ∨
      ∃ p, s.state p = some .free ∧ s.claimFreeChunk type size = (some p, s.claimChunk p) := by
  have hnone : (s.lists (.free type size)).takeWhile (fun p => s.inEviction p.root) = [] := by
    cases s.lists (.free type size) with
    | nil => rfl
    | cons p ps => simp [h.notEvicting]
  unfold Pmm.claimFreeChunk
  simp only [hnone, List.foldl_nil]
  cases hhead : (s.lists (.free type size)).head? with
  | none => exact .inl rfl
  | some p => exact .inr ⟨p, ((h.lists.mem p type size).mp (List.mem_of_head? hhead)).1, rfl⟩

theorem Inv.claimLargerChunk_cases (h : s.Inv) (type : MemoryType) (sizes : List ℕ) :
    claimLargerChunk type sizes s = (none, s) ∨ ∃ p curSize, s.state p = some .free ∧
      claimLargerChunk type sizes s = (some (p, curSize), s.claimChunk p) := by
  induction sizes with
  | nil => exact .inl rfl
  | cons size sizes ih =>
    rw [claimLargerChunk]
    rcases h.claimFreeChunk_cases type size with hclaim | ⟨p, hp, hclaim⟩
    · rw [hclaim]
      exact ih
    · rw [hclaim]
      exact .inr ⟨p, size, hp, rfl⟩

theorem Inv.allocates_claimChunk (h : s.Inv) (hp : s.state p = some .free) :
    Allocates s (some p, s.claimChunk p) := by
  obtain ⟨hinv, hstate, hkeep⟩ := h.claimChunk hp
  have hnot : ¬ s.Held p := fun hheld => hheld.ne_free hp
  refine ⟨hinv, fun q hq => hkeep q ?_ hq, ?_⟩
  · rintro rfl
    exact hnot hq
  · rintro _ ⟨⟩
    exact ⟨hstate, hnot⟩

theorem takeRootChunk_state_self {type : MemoryType} :
    (s.takeRootChunk p type).state p = some .tempPinned := Function.update_self ..

theorem takeRootChunk_state_of_ne {type : MemoryType} (hq : q ≠ p) :
    (s.takeRootChunk p type).state q = s.state q := Function.update_of_ne hq ..

private theorem Inv.takeRootChunk (h : s.Inv) {root : ℕ} (type : MemoryType)
    (hp : s.state ⟨root, []⟩ = some .pmaOwned) : (s.takeRootChunk ⟨root, []⟩ type).Inv := by
  -- neither free nor split, before and after
  have hiff : ∀ {st}, st ≠ some .pmaOwned → st ≠ some .tempPinned → ∀ q,
      (s.takeRootChunk ⟨root, []⟩ type).state q = st ↔ s.state q = st := by
    intro st howned hpin q
    by_cases hq : q = ⟨root, []⟩
    · rw [hq, takeRootChunk_state_self, hp]
      exact ⟨fun heq => absurd heq.symm hpin, fun heq => absurd heq.symm howned⟩
    · rw [takeRootChunk_state_of_ne hq]
  refine ⟨?_, ?_, ?_, fun q hq => ?_, h.notEvicting⟩
  · refine h.tree.congr rfl rfl rfl (fun q => ?_) (hiff (by simp) (by simp))
      (hiff (by simp) (by simp)) fun q i => ?_
    · by_cases hq : q = ⟨root, []⟩
      · right
        rw [hq]
        exact ⟨rfl, by simp [hp]⟩
      · exact .inl (Function.update_of_ne hq ..)
    · rw [takeRootChunk_state_of_ne (by simp [child])]
      exact h.tree.notOwned q i
  · have hsplit : ChunkState.tempPinned ≠ .isSplit := by simp
    refine h.counters.relabel h.tree hp hsplit rfl rfl ?_
      (fun _ _ => rfl) (fun hroot => absurd rfl hroot) fun _ _ => rfl
    intro q i hq
    simp [child] at hq
  · refine h.lists.congr rfl (hiff (by simp) (by simp)) fun q hq =>
      ⟨Function.update_of_ne ?_ .., rfl⟩
    rintro rfl
    simp [hp] at hq
  · exact h.allocated_pos q ((hiff (by simp) (by simp) q).mp hq)

theorem Inv.allocRootChunk (h : s.Inv) (type : MemoryType) (pma : Option ℕ) :
    Allocates s (s.allocRootChunk type pma) ∧
      ∀ p s', s.allocRootChunk type pma = (some p, s') → s.state p = some .pmaOwned := by
  unfold Pmm.allocRootChunk
  cases pma with
  | none => exact ⟨⟨h, fun _ _ => rfl, by simp⟩, by simp⟩
  | some root =>
    dsimp only
    split
    · next hp =>
      have hnot : ¬ s.Held ⟨root, []⟩ := by
        rintro (hheld | hheld) <;> simp [hp] at hheld
      refine ⟨⟨h.takeRootChunk type hp, fun q hq => takeRootChunk_state_of_ne ?_, ?_⟩, ?_⟩
      · rintro rfl
        exact hnot hq
      · rintro _ ⟨⟩
        exact ⟨takeRootChunk_state_self, hnot⟩
      · intro p s' heq
        simp only [Prod.mk.injEq, Option.some.injEq] at heq
        rw [← heq.1]
        exact hp
    · exact ⟨⟨h, fun _ _ => rfl, by simp⟩, by simp⟩

/-! ## Splits for an allocation -/

/-- What the loop that splits a pinned chunk does. -/
structure SplitsDown (s : Pmm) (p : TreePtr) (r : Option TreePtr × Pmm) : Prop where
  inv : r.2.Inv
  keeps : ∀ q, ¬ q.Under p → s.Held q → r.2.state q = s.state q
  fresh : ∀ c, r.1 = some c → c.Under p ∧ r.2.state c = some .tempPinned

private theorem Inv.freeSubchunks (h : s.Inv) (hfirst : s.Held (p.child 0)) (is : List ℕ)
    (hnd : is.Nodup) (hzero : 0 ∉ is) (hheld : ∀ i ∈ is, s.Held (p.child i)) :
    (is.foldl (fun s i => s.chunkFreeLocked (p.child i)) s).Inv ∧
      ∀ q, (∀ i ∈ is, q ≠ p.child i) → s.Held q →
        (is.foldl (fun s i => s.chunkFreeLocked (p.child i)) s).state q = s.state q := by
  induction is generalizing s with
  | nil => exact ⟨h, fun _ _ _ => rfl⟩
  | cons i is ih =>
    simp only [List.mem_cons, not_or] at hzero
    obtain ⟨hi0, hzero⟩ := hzero
    obtain ⟨hnot, hnd⟩ := List.nodup_cons.mp hnd
    have hi := hheld i List.mem_cons_self
    have hsplit := h.tree.parent _ _ hi.ne_none
    have hlast : s.chunkIsLastAllocatedChild (p.child i) = false := by
      rw [← Bool.not_eq_true, chunkIsLastAllocatedChild_child]
      intro hone
      -- the first subchunk is allocated as well
      have hfree := h.counters.free_of_last h.tree hi.ne_none hi.ne_free hone
        ((h.tree.child_exists_iff hsplit 0).mp hfirst.ne_none) hi0
      exact hfirst.ne_free hfree
    obtain ⟨hinv, -, hkeep⟩ := h.chunkFreeLocked hi hlast
    have hother : ∀ j, j ≠ i → p.child j ≠ p.child i := fun j hj => by simpa using hj
    obtain ⟨hinv', hkeeps'⟩ := ih hinv (hkeep.held (hother 0 hi0) hfirst) hnd hzero
      fun j hj => hkeep.held (hother j fun heq => hnot (heq ▸ hj))
        (hheld j (List.mem_cons_of_mem i hj))
    refine ⟨hinv', fun q hne hq => ?_⟩
    have hqi := hne i List.mem_cons_self
    rw [List.foldl_cons,
      hkeeps' q (fun j hj => hne j (List.mem_cons_of_mem i hj)) (hkeep.held hqi hq)]
    exact hkeep q hqi hq

private theorem Inv.splitRound (h : s.Inv) (hp : s.state p = some .tempPinned) {z : ℕ}
    (hz : (s.chunkSizes (s.type p)).findPrevSize (s.size p) = some z) :
    ((s.splitInto p z).freeOtherSubchunks p).Inv ∧
      ((s.splitInto p z).freeOtherSubchunks p).state (p.child 0) = some .tempPinned ∧
        ∀ q, ¬ q.Under p → s.Held q →
          ((s.splitInto p z).freeOtherSubchunks p).state q = s.state q := by
  have hinv := h.splitInto (.inl hp) hz
  have hchild : ∀ i < (s.splitInto p z).numSubchunks p,
      (s.splitInto p z).state (p.child i) = some .tempPinned := fun i hi =>
    (splitInto_child_eq h (.inl hp) hz hi).trans hp
  have hone := hinv.tree.one_lt_numSubchunks (p := p) splitInto_state_self
  have hfirst : (s.splitInto p z).Held (p.child 0) := .inl (hchild 0 (by omega))
  obtain ⟨hinv', hkeep⟩ := hinv.freeSubchunks hfirst
    (List.range' 1 ((s.splitInto p z).numSubchunks p - 1)) List.nodup_range' (by simp)
    fun i hi => .inl (hchild i (by
      rw [List.mem_range'_1] at hi
      omega))
  refine ⟨hinv', (hkeep (p.child 0) (fun i hi heq => ?_) hfirst).trans (hchild 0 (by omega)),
    fun q hq hqheld => ?_⟩
  · rw [child_inj] at heq
    subst heq
    simp at hi
  · have hsame := splitInto_state_of_not_under (s := s) (z := z) hq
    refine (hkeep q ?_ (by rw [Held, hsame]; exact hqheld)).trans hsame
    rintro i - rfl
    exact hq (child_under i)

theorem Inv.splitDown (h : s.Inv) (hp : s.state p = some .tempPinned) (size : ℕ)
    (fails : ℕ → Bool) (sizes : List ℕ) : SplitsDown s p (splitDown size fails sizes p s) := by
  induction sizes generalizing s p with
  | nil => exact ⟨h, fun _ _ _ => rfl, by simp [Pmm.splitDown]⟩
  | cons curSize sizes ih =>
    rw [Pmm.splitDown]
    split
    · refine ⟨h, fun _ _ _ => rfl, ?_⟩
      rintro _ ⟨⟩
      exact ⟨Under.refl p, hp⟩
    · cases hsplit : s.splitGpuChunk p (fails curSize) with
      | none =>
        obtain ⟨hinv, hkeep⟩ := h.freeChunkWithMerges p.root p.path (.inl hp)
        refine ⟨hinv, fun q hq => hkeep q ?_, by simp⟩
        rintro rfl
        exact hq (Under.refl _)
      | some s₁ =>
        obtain ⟨-, z, hz, rfl⟩ := splitGpuChunk_eq_some hsplit
        obtain ⟨hinv, hfirst, hkeep⟩ := h.splitRound hp hz
        have hrec := ih (p := p.child 0) hinv hfirst
        refine ⟨hrec.inv, fun q hq hqheld => ?_, fun c hc => ?_⟩
        · have hsame := hkeep q hq hqheld
          refine (hrec.keeps q (fun hunder => hq (hunder.trans (child_under 0))) ?_).trans hsame
          rw [Held, hsame]
          exact hqheld
        · exact ⟨(hrec.fresh c hc).1.trans (child_under 0), (hrec.fresh c hc).2⟩

private theorem SplitsDown.allocates {r : Option TreePtr × Pmm} (h : s.Inv)
    (hheld : ¬ s.Held p) (hsplit : s.state p ≠ some .isSplit)
    (hkeep : ∀ q, s.Held q → s'.state q = s.state q) (hr : SplitsDown s' p r) : Allocates s r := by
  have hunder : ∀ q, s.Held q → ¬ q.Under p := by
    intro q hq hqp
    by_cases hne : q = p
    · exact hheld (hne ▸ hq)
    · exact hsplit (h.tree.split_of_under hq.ne_none hqp hne)
  refine ⟨hr.inv, fun q hq => ?_, fun c hc => ⟨(hr.fresh c hc).2, fun hq => ?_⟩⟩
  · rw [hr.keeps q (hunder q hq) (by rw [Held, hkeep q hq]; exact hq), hkeep q hq]
  · exact hunder c hq (hr.fresh c hc).1

theorem Inv.allocChunkWithSplits (h : s.Inv) (type : MemoryType) (size : ℕ) (o : AllocOutcome) :
    Allocates s (s.allocChunkWithSplits type size o) := by
  unfold Pmm.allocChunkWithSplits
  rcases h.claimFreeChunk_cases type size with hclaim | ⟨p, hp, hclaim⟩
  · rw [hclaim]
    dsimp only
    rcases h.claimLargerChunk_cases type
      ((s.chunkSizes type).sizes.filter (size ≤ ·)) with hlarger | ⟨p, curSize, hp, hlarger⟩
    · rw [hlarger]
      dsimp only
      obtain ⟨halloc, howned⟩ := h.allocRootChunk type o.pma
      cases hroot : s.allocRootChunk type o.pma with
      | mk found s' =>
        rw [hroot] at halloc
        cases found with
        | none => exact halloc
        | some p =>
          -- the root chunk from PMA is split
          have hp := howned p s' hroot
          obtain ⟨hpin, hnot⟩ := halloc.fresh p rfl
          exact SplitsDown.allocates h hnot (by simp [hp]) halloc.keeps
            (halloc.inv.splitDown hpin ..)
    · rw [hlarger]
      have halloc := h.allocates_claimChunk hp
      obtain ⟨hpin, hnot⟩ := halloc.fresh p rfl
      exact SplitsDown.allocates h hnot (by simp [hp]) halloc.keeps
        (halloc.inv.splitDown hpin ..)
  · rw [hclaim]
    exact h.allocates_claimChunk hp

theorem Inv.allocChunk (h : s.Inv) (type : MemoryType) (size : ℕ) (o : AllocOutcome) :
    Allocates s (s.allocChunk type size o) := by
  unfold Pmm.allocChunk
  rcases h.claimFreeChunk_cases type size with hclaim | ⟨p, hp, hclaim⟩
  · rw [hclaim]
    dsimp only
    split
    · exact (h.allocRootChunk type o.pma).1
    · have halloc := h.allocChunkWithSplits type size o
      cases hsplits : s.allocChunkWithSplits type size o with
      | mk found s' =>
        rw [hsplits] at halloc
        cases found with
        | some p => exact halloc
        | none =>
          obtain ⟨hinv, hkeep⟩ := halloc.inv.freeNextAvailableRootChunk
          refine ⟨hinv, fun q hq => ?_, by simp⟩
          have hsame := halloc.keeps q hq
          exact (hkeep q (by rw [Held, hsame]; exact hq)).trans hsame
  · rw [hclaim]
    exact h.allocates_claimChunk hp

end Pmm

end NvUvm
