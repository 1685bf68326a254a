import NvUvm.VaRangeBlockRuns

/-!
# What the splits of managed ranges do to their blocks

A split moves the blocks above the split point to the new range and divides the one that spans it.
All that can fail comes before the first block moves.
-/

namespace NvUvm.RangeBlocks

open Lib
open Function (update update_of_ne update_self)

variable {s s' t : State} {r i j b existing new k : ℕ} {l : List ℕ}

/-! ## The loop -/

/-- The elements from `k` on, with their offsets in `l`, move from one range to the other. -/
structure Moved (s s' : State) (existing new k : ℕ) (l : List ℕ) : Prop where
  ranges : s'.ranges = s.ranges
  numRanges : s'.numRanges = s.numRanges
  numVaBlocks : s'.numVaBlocks = s.numVaBlocks
  creating : s'.creating = s.creating
  oops : s'.oops = s.oops
  others : ∀ q, q ≠ existing → q ≠ new → s'.range q = s.range q
  node : ∀ q, (s'.range q).node = (s.range q).node
  numEntries : ∀ q, (s'.range q).numEntries = (s.range q).numEntries
  kept : ∀ i, (∀ j ∈ l, i ≠ k + j) → (s'.range existing).blocks i = (s.range existing).blocks i
  gone : ∀ j ∈ l, (s'.range existing).blocks (k + j) = none
  moved : ∀ j ∈ l, (s'.range new).blocks j = (s.range existing).blocks (k + j)
  stay : ∀ j, j ∉ l → (s'.range new).blocks j = (s.range new).blocks j
  given : ∀ j ∈ l, ∀ b, (s.range existing).blocks (k + j) = some b →
    s'.block b = { s.block b with vaRange := new }
  block : ∀ b, (∀ j ∈ l, (s.range existing).blocks (k + j) ≠ some b) → s'.block b = s.block b

theorem Moved.nil : Moved s s existing new k [] := by
  refine ⟨rfl, rfl, rfl, rfl, rfl, fun q _ _ => rfl, fun q => rfl, fun q => rfl, fun i _ => rfl,
    fun j hj => ?_, fun j hj => ?_, fun j _ => rfl, fun j hj => ?_, fun b _ => rfl⟩
  · exact absurd hj List.not_mem_nil
  · exact absurd hj List.not_mem_nil
  · exact absurd hj List.not_mem_nil

theorem Moved.cons (hj : j ∉ l) (h : Moved s t existing new k [j])
    (h' : Moved t s' existing new k l) : Moved s s' existing new k (j :: l) := by
  have hmem : j ∈ [j] := List.mem_singleton_self j
  -- the other elements are as they were before the first turn
  have hrest : ∀ m ∈ l, (t.range existing).blocks (k + m) = (s.range existing).blocks (k + m) := by
    intro m hm
    refine h.kept (k + m) fun j' hj' heq => ?_
    rw [List.mem_singleton.mp hj'] at heq
    exact hj (Nat.add_left_cancel heq ▸ hm)
  refine ⟨h'.ranges.trans h.ranges, h'.numRanges.trans h.numRanges,
    h'.numVaBlocks.trans h.numVaBlocks, h'.creating.trans h.creating, h'.oops.trans h.oops,
    fun q hq hq' => (h'.others q hq hq').trans (h.others q hq hq'),
    fun q => (h'.node q).trans (h.node q), fun q => (h'.numEntries q).trans (h.numEntries q),
    fun i hi => ?_, fun m hm => ?_, fun m hm => ?_, fun m hm => ?_, fun m hm b hb => ?_,
    fun b hb => ?_⟩
  · refine (h'.kept i fun m hm => hi m (List.mem_cons_of_mem _ hm)).trans (h.kept i fun m hm => ?_)
    rw [List.mem_singleton.mp hm]
    exact hi j List.mem_cons_self
  · rcases List.mem_cons.mp hm with rfl | hm
    · refine (h'.kept (k + m) fun j' hj' heq => ?_).trans (h.gone m hmem)
      exact hj (Nat.add_left_cancel heq ▸ hj')
    · exact h'.gone m hm
  · rcases List.mem_cons.mp hm with rfl | hm
    · exact (h'.stay m hj).trans (h.moved m hmem)
    · exact (h'.moved m hm).trans (hrest m hm)
  · have hmj : m ∉ [j] := fun heq => hm (List.mem_singleton.mp heq ▸ List.mem_cons_self)
    exact (h'.stay m fun hml => hm (List.mem_cons_of_mem _ hml)).trans (h.stay m hmj)
  · -- a block in two places would be given twice, to the same range
    by_cases hlater : ∃ m' ∈ l, (t.range existing).blocks (k + m') = some b
    · obtain ⟨m', hm', hb'⟩ := hlater
      rw [h'.given m' hm' b hb']
      by_cases hfirst : (s.range existing).blocks (k + j) = some b
      · rw [h.given j hmem b hfirst]
      · rw [h.block b fun j' hj' => by rw [List.mem_singleton.mp hj']; exact hfirst]
    · rw [h'.block b fun m' hm' hb' => hlater ⟨m', hm', hb'⟩]
      rcases List.mem_cons.mp hm with rfl | hm
      · exact h.given m hmem b hb
      · exact absurd ⟨m, hm, (hrest m hm).trans hb⟩ hlater
  · refine (h'.block b fun m hm => ?_).trans (h.block b fun m hm => ?_)
    · rw [hrest m hm]
      exact hb m (List.mem_cons_of_mem _ hm)
    · rw [List.mem_singleton.mp hm]
      exact hb j List.mem_cons_self

theorem moveBlock_moved (hne : existing ≠ new) (hk : k + j < (s.range existing).numEntries)
    (hj : j < (s.range new).numEntries) (hnone : (s.range new).blocks j = none) :
    Moved s (s.moveBlock existing new k j) existing new k [j] := by
  unfold State.moveBlock
  rw [access_of_lt hk]
  dsimp only
  split
  · next hentry =>
    rw [access_of_lt hj]
    refine ⟨rfl, rfl, rfl, rfl, rfl, fun q _ _ => rfl, fun q => rfl, fun q => rfl, fun i _ => rfl,
      fun m hm => ?_, fun m hm => ?_, fun m _ => rfl, fun m hm b hb => ?_, fun b _ => rfl⟩
    · rw [List.mem_singleton.mp hm, hentry]
    · rw [List.mem_singleton.mp hm, hentry, hnone]
    · rw [List.mem_singleton.mp hm, hentry] at hb
      exact nomatch hb
  · next c hentry =>
    rw [access_of_lt (s := s.setBlock c { s.block c with vaRange := new }) hj]
    generalize hs₁ : s.setBlock c { s.block c with vaRange := new } = s₁
    have hrange : s₁.range = s.range := hs₁ ▸ rfl
    have hframe : ∀ q, (((s₁.setEntry new j (some c)).setEntry existing (k + j) none).range q).node =
          (s.range q).node ∧
        (((s₁.setEntry new j (some c)).setEntry existing (k + j) none).range q).numEntries =
          (s.range q).numEntries := by
      intro q
      obtain ⟨hnode, hnum⟩ := setEntry_frame s₁ new j (some c) q
      obtain ⟨hnode', hnum'⟩ :=
        setEntry_frame (s₁.setEntry new j (some c)) existing (k + j) none q
      rw [hrange] at hnode hnum
      exact ⟨hnode'.trans hnode, hnum'.trans hnum⟩
    have hblock : ((s₁.setEntry new j (some c)).setEntry existing (k + j) none).block =
        update s.block c { s.block c with vaRange := new } := hs₁ ▸ rfl
    refine ⟨hs₁ ▸ rfl, hs₁ ▸ rfl, hs₁ ▸ rfl, hs₁ ▸ rfl, hs₁ ▸ rfl, fun q hq hq' => ?_,
      fun q => (hframe q).1, fun q => (hframe q).2, fun i hi => ?_, fun m hm => ?_, fun m hm => ?_,
      fun m hm => ?_, fun m hm b hb => ?_, fun b hb => ?_⟩
    · rw [setEntry_range_of_ne _ _ _ hq, setEntry_range_of_ne _ _ _ hq', hrange]
    · have hik := hi j (List.mem_singleton_self j)
      rw [setEntry_blocks, if_neg fun h => hik h.2, setEntry_blocks, if_neg fun h => hne h.1, hrange]
    · rw [List.mem_singleton.mp hm, setEntry_blocks, if_pos ⟨rfl, rfl⟩]
    · rw [List.mem_singleton.mp hm, setEntry_blocks, if_neg fun h => hne.symm h.1, setEntry_blocks,
        if_pos ⟨rfl, rfl⟩, hentry]
    · have hmj : m ≠ j := fun heq => hm (heq ▸ List.mem_singleton_self j)
      rw [setEntry_blocks, if_neg fun h => hne.symm h.1, setEntry_blocks, if_neg fun h => hmj h.2,
        hrange]
    · rw [List.mem_singleton.mp hm, hentry] at hb
      rw [hblock, ← Option.some.inj hb, update_self]
    · have hbc : b ≠ c := fun heq => hb j (List.mem_singleton_self j) (heq ▸ hentry)
      rw [hblock, update_of_ne hbc]

theorem moveBlocks (hne : existing ≠ new) (hl : l.Nodup)
    (hk : ∀ j ∈ l, k + j < (s.range existing).numEntries)
    (hj : ∀ j ∈ l, j < (s.range new).numEntries)
    (hnone : ∀ j ∈ l, (s.range new).blocks j = none) :
    Moved s (l.foldl (fun s j => s.moveBlock existing new k j) s) existing new k l := by
  induction l generalizing s with
  | nil => exact Moved.nil
  | cons j l ih =>
    obtain ⟨hjl, hl⟩ := List.nodup_cons.mp hl
    have hfirst := moveBlock_moved hne (hk j List.mem_cons_self) (hj j List.mem_cons_self)
      (hnone j List.mem_cons_self)
    refine hfirst.cons hjl (ih hl (fun m hm => ?_) (fun m hm => ?_) fun m hm => ?_)
    · rw [hfirst.numEntries]
      exact hk m (List.mem_cons_of_mem _ hm)
    · rw [hfirst.numEntries]
      exact hj m (List.mem_cons_of_mem _ hm)
    · have hmj : m ∉ [j] := fun hmem => hjl (List.mem_singleton.mp hmem ▸ hm)
      exact (hfirst.stay m hmj).trans (hnone m (List.mem_cons_of_mem _ hm))

/-! ## A whole split -/

variable {m old newEnd : ℕ} {io : SplitInput}

/-- The block that spans the split point becomes two. -/
structure Divided (s t : State) (m old : ℕ) : Prop where
  entry : (t.range s.numRanges).blocks 0 = some s.numVaBlocks
  numVaBlocks : t.numVaBlocks = s.numVaBlocks + 1
  new : t.block s.numVaBlocks = ⟨m, (s.block old).last, s.numRanges, false⟩
  old : t.block old = { s.block old with last := m - 1 }

/-- The element of the new range for the part of a block behind the split point. -/
def FirstRight (s t : State) (r m : ℕ) : Prop :=
  match (s.range r).blocks (uvmVaRangeBlockIndex (s.range r).node m) with
  | none => (t.range s.numRanges).blocks 0 = none
  | some old => Divided s t m old

/-- What the loop of a split begins with. -/
structure Ready (s t : State) (r m : ℕ) : Prop where
  ranges : t.ranges = s.ranges
  numRanges : t.numRanges = s.numRanges + 1
  numVaBlocks : s.numVaBlocks ≤ t.numVaBlocks
  creating : t.creating = s.creating
  oops : t.oops = s.oops
  others : ∀ q, q ≠ s.numRanges → t.range q = s.range q
  node : (t.range s.numRanges).node = upper (s.range r).node m
  numEntries : (t.range s.numRanges).numEntries = numBlocks (upper (s.range r).node m)
  empty : ∀ j, spans (s.range r).node m ≤ j → (t.range s.numRanges).blocks j = none
  first : spans (s.range r).node m = 1 → FirstRight s t r m
  block : ∀ b < s.numVaBlocks, (spans (s.range r).node m = 1 →
    (s.range r).blocks (uvmVaRangeBlockIndex (s.range r).node m) ≠ some b) → t.block b = s.block b

/-- What `uvm_va_range_split` leaves when it succeeds. -/
structure Split (s s' : State) (r m : ℕ) : Prop where
  ranges : s'.ranges = s.ranges ++ [s.numRanges]
  numRanges : s'.numRanges = s.numRanges + 1
  numVaBlocks : s.numVaBlocks ≤ s'.numVaBlocks
  creating : s'.creating = s.creating
  oops : s'.oops = s.oops
  others : ∀ q, q ≠ r → q ≠ s.numRanges → s'.range q = s.range q
  nodeLower : (s'.range r).node = lower (s.range r).node m
  nodeUpper : (s'.range s.numRanges).node = upper (s.range r).node m
  sizedLower : numBlocks (lower (s.range r).node m) ≤ (s'.range r).numEntries
  sizedUpper : (s'.range s.numRanges).numEntries = numBlocks (upper (s.range r).node m)
  low : ∀ i < uvmVaRangeBlockIndex (s.range r).node m + spans (s.range r).node m,
    (s'.range r).blocks i = (s.range r).blocks i
  high : ∀ i, uvmVaRangeBlockIndex (s.range r).node m + spans (s.range r).node m ≤ i →
    (s'.range r).blocks i = none
  up : ∀ j, spans (s.range r).node m ≤ j → (s'.range s.numRanges).blocks j =
    (s.range r).blocks (uvmVaRangeBlockIndex (s.range r).node m + j)
  first : spans (s.range r).node m = 1 → FirstRight s s' r m
  given : ∀ j b, spans (s.range r).node m ≤ j →
    (s.range r).blocks (uvmVaRangeBlockIndex (s.range r).node m + j) = some b →
    s'.block b = { s.block b with vaRange := s.numRanges }
  block : ∀ b < s.numVaBlocks, (∀ i, uvmVaRangeBlockIndex (s.range r).node m ≤ i →
    (s.range r).blocks i ≠ some b) → s'.block b = s.block b

/-- What a split that fails leaves: it has cleared the request for an error at most. -/
structure Unsplit (s s' : State) : Prop where
  ranges : s'.ranges = s.ranges
  numRanges : s.numRanges ≤ s'.numRanges
  numVaBlocks : s'.numVaBlocks = s.numVaBlocks
  creating : s'.creating = s.creating
  oops : s'.oops = s.oops
  node : ∀ q < s.numRanges, (s'.range q).node = (s.range q).node
  numEntries : ∀ q < s.numRanges, (s'.range q).numEntries = (s.range q).numEntries
  blocks : ∀ q < s.numRanges, (s'.range q).blocks = (s.range q).blocks
  block : s'.block = s.block

theorem Cut.of_allowed (h : Inv s) (hallowed : s.SplitAllowed r newEnd) :
    Cut (s.range r).node (newEnd + 1) := by
  obtain ⟨-, hr, hlo, hhi, hpage⟩ := hallowed
  exact ⟨Nat.lt_succ_of_lt hlo, hhi, hpage, (h.wf r hr).last⟩

theorem Ready.allocManaged (hspans : spans (s.range r).node m = 1 →
    (s.range r).blocks (uvmVaRangeBlockIndex (s.range r).node m) = none) :
    Ready s (s.allocManaged r m (s.range r).node.last) r m := by
  have hself : (s.allocManaged r m (s.range r).node.last).range s.numRanges =
      ⟨upper (s.range r).node m, fun _ => none, numBlocks (upper (s.range r).node m), false⟩ :=
    update_self ..
  refine ⟨rfl, rfl, Nat.le_refl _, rfl, rfl, fun q hq => update_of_ne hq _ _, ?_, ?_,
    fun j _ => ?_, fun he => ?_, fun b _ _ => rfl⟩
  · rw [hself]
  · rw [hself]
  · rw [hself]
  · unfold FirstRight
    rw [hspans he, hself]

theorem Ready.divide (hspans : spans (s.range r).node m = 1)
    (hentry : (s.range r).blocks (uvmVaRangeBlockIndex (s.range r).node m) = some old)
    (hold : old < s.numVaBlocks) :
    Ready s (((((s.allocManaged r m (s.range r).node.last).uvmVaBlockCreate s.numRanges m
      (s.block old).last).setBlock old { s.block old with last := m - 1 })).setEntry s.numRanges 0
        (some s.numVaBlocks)) r m := by
  have hself : (s.allocManaged r m (s.range r).node.last).range s.numRanges =
      ⟨upper (s.range r).node m, fun _ => none, numBlocks (upper (s.range r).node m), false⟩ :=
    update_self ..
  have hne : s.numVaBlocks ≠ old := (Nat.ne_of_lt hold).symm
  generalize ht : ((s.allocManaged r m (s.range r).node.last).uvmVaBlockCreate s.numRanges m
      (s.block old).last).setBlock old { s.block old with last := m - 1 } = t
  have hrange : t.range = (s.allocManaged r m (s.range r).node.last).range := ht ▸ rfl
  have hblock : t.block = update (update s.block s.numVaBlocks
      ⟨m, (s.block old).last, s.numRanges, false⟩) old { s.block old with last := m - 1 } := ht ▸ rfl
  have hnum : t.numVaBlocks = s.numVaBlocks + 1 := ht ▸ rfl
  obtain ⟨hnode, hents⟩ := setEntry_frame t s.numRanges 0 (some s.numVaBlocks) s.numRanges
  rw [hrange, hself] at hnode hents
  refine ⟨ht ▸ rfl, ht ▸ rfl, ?_, ht ▸ rfl, ht ▸ rfl, fun q hq => ?_, hnode, hents, fun j hj => ?_,
    fun _ => ?_, fun b hb hnone => ?_⟩
  · exact (Nat.le_succ _).trans_eq hnum.symm
  · rw [setEntry_range_of_ne _ _ _ hq, hrange]
    exact update_of_ne hq _ _
  · rw [hspans] at hj
    rw [setEntry_blocks, if_neg fun h => absurd (h.2 ▸ hj) (by decide), hrange, hself]
  · unfold FirstRight
    rw [hentry]
    refine ⟨?_, hnum, ?_, ?_⟩
    · rw [setEntry_blocks, if_pos ⟨rfl, rfl⟩]
    · show t.block s.numVaBlocks = _
      rw [hblock, update_of_ne hne, update_self]
    · show t.block old = _
      rw [hblock, update_self]
  · have hbold : b ≠ old := fun heq => hnone hspans (heq ▸ hentry)
    show t.block b = _
    rw [hblock, update_of_ne hbold, update_of_ne (Nat.ne_of_lt hb)]

theorem Ready.split (h : Inv s) (hr : r ∈ s.ranges) (hcut : Cut (s.range r).node m)
    (hready : Ready s t r m) {v : State} (hmoved : Moved t v r s.numRanges
      (uvmVaRangeBlockIndex (s.range r).node m) (List.range' (spans (s.range r).node m)
        (numBlocks (upper (s.range r).node m) - spans (s.range r).node m))) (x : Range)
    (hnode : x.node = lower (s.range r).node m) (hblocks : x.blocks = (v.range r).blocks)
    (hsized : numBlocks (lower (s.range r).node m) ≤ x.numEntries) :
    Split s { v.setRange r x with ranges := v.ranges ++ [s.numRanges] } r m := by
  have hne : r ≠ s.numRanges := Nat.ne_of_lt (h.allocated r hr)
  have hwf := h.wf r hr
  have htr : t.range r = s.range r := hready.others r hne
  have hupper := numBlocks_upper hcut
  have hle := spans_le (s.range r).node m
  generalize hk : uvmVaRangeBlockIndex (s.range r).node m = k at *
  generalize he : spans (s.range r).node m = e at *
  generalize hn : numBlocks (upper (s.range r).node m) = n at *
  have hmem : ∀ j, j ∈ List.range' e (n - e) ↔ e ≤ j ∧ j < n := by
    intro j
    rw [List.mem_range'_1]
    constructor
    · rintro ⟨hlo, hhi⟩
      exact ⟨hlo, by omega⟩
    · rintro ⟨hlo, hhi⟩
      exact ⟨hlo, by omega⟩
  -- behind the elements that move there is nothing
  have hbeyond : ∀ i, k + n ≤ i → (s.range r).blocks i = none := by
    intro i hi
    cases hb : (s.range r).blocks i with
    | none => rfl
    | some b => exact absurd (hwf.inside i b hb) (Nat.not_lt.mpr (hupper ▸ hi))
  have hself : ∀ q, q ≠ r → (v.setRange r x).range q = v.range q :=
    fun q hq => update_of_ne hq _ _
  have hselfr : (v.setRange r x).range r = x := update_self ..
  refine ⟨?_, ?_, ?_, ?_, ?_, fun q hq hq' => ?_, ?_, ?_, ?_, ?_, fun i hi => ?_, fun i hi => ?_,
    fun j hj => ?_, fun hspans => ?_, fun j b hj hb => ?_, fun b hb hnone => ?_⟩
  · show v.ranges ++ _ = _
    rw [hmoved.ranges, hready.ranges]
  · exact hmoved.numRanges.trans hready.numRanges
  · exact hready.numVaBlocks.trans_eq hmoved.numVaBlocks.symm
  · exact hmoved.creating.trans hready.creating
  · exact hmoved.oops.trans hready.oops
  · exact (hself q hq).trans ((hmoved.others q hq hq').trans (hready.others q hq'))
  · exact (congrArg Range.node hselfr).trans hnode
  · exact (congrArg Range.node (hself _ hne.symm)).trans ((hmoved.node _).trans hready.node)
  · exact hsized.trans_eq (congrArg Range.numEntries hselfr).symm
  · rw [hn]
    exact (congrArg Range.numEntries (hself _ hne.symm)).trans
      ((hmoved.numEntries _).trans (hready.numEntries.trans hn))
  · rw [hk, he] at hi
    have hkept := hmoved.kept i fun j hj heq => by
      have hle := ((hmem j).mp hj).1
      omega
    rw [htr] at hkept
    exact (congrArg (fun y : Range => y.blocks i) hselfr).trans
      ((congrFun hblocks i).trans hkept)
  · rw [hk, he] at hi
    refine (congrArg (fun y : Range => y.blocks i) hselfr).trans ((congrFun hblocks i).trans ?_)
    by_cases hin : i < k + n
    · have hgone := hmoved.gone (i - k) ((hmem _).mpr ⟨by omega, by omega⟩)
      rw [Nat.add_sub_cancel' (by omega)] at hgone
      exact hgone
    · have hkept := hmoved.kept i fun j hj heq => by
        have hlt := ((hmem j).mp hj).2
        omega
      rw [hkept, htr]
      exact hbeyond i (Nat.not_lt.mp hin)
  · rw [he] at hj
    rw [hk]
    refine (congrArg (fun y : Range => y.blocks j) (hself _ hne.symm)).trans ?_
    by_cases hin : j < n
    · have hto := hmoved.moved j ((hmem j).mpr ⟨hj, hin⟩)
      rw [htr] at hto
      exact hto
    · have hstay := hmoved.stay j fun hjl => hin ((hmem j).mp hjl).2
      rw [hstay, hready.empty j (he ▸ hj)]
      exact (hbeyond _ (by omega)).symm
  · have hfirst := hready.first hspans
    have hstay : ((v.setRange r x).range s.numRanges).blocks 0 = (t.range s.numRanges).blocks 0 := by
      rw [hself _ hne.symm]
      refine hmoved.stay 0 fun hmem0 => ?_
      have hle := ((hmem 0).mp hmem0).1
      omega
    unfold FirstRight at hfirst ⊢
    rw [hk] at hfirst ⊢
    cases hold : (s.range r).blocks k with
    | none =>
      rw [hold] at hfirst
      exact hstay.trans hfirst
    | some old =>
      rw [hold] at hfirst
      -- neither of the two halves is among the blocks that move
      have hstill : ∀ c, (∀ j, j ≠ 0 → (s.range r).blocks (k + j) ≠ some c) →
          v.block c = t.block c := by
        intro c hc
        refine hmoved.block c fun j hj => ?_
        rw [htr]
        refine hc j fun hzero => ?_
        have hle := ((hmem j).mp hj).1
        omega
      refine ⟨hstay.trans hfirst.entry, hmoved.numVaBlocks.trans hfirst.numVaBlocks,
        (hstill _ fun j _ hj => ?_).trans hfirst.new, (hstill old fun j hj0 hj => ?_).trans hfirst.old⟩
      · exact absurd (h.blocks r _ _ ⟨hr, hj⟩).allocated (Nat.lt_irrefl _)
      · have hsame := (h.holds_inj ⟨hr, hj⟩ ⟨hr, hold⟩).2
        omega
  · rw [he] at hj
    rw [hk] at hb
    have hjn : j < n := by
      by_contra hge
      rw [hbeyond _ (by omega)] at hb
      exact nomatch hb
    have hgiven := hmoved.given j ((hmem j).mpr ⟨hj, hjn⟩) b (by rw [htr]; exact hb)
    -- a block that moves is not the one that is divided
    have hsame := hready.block b (h.blocks r _ b ⟨hr, hb⟩).allocated fun hspans hb0 => by
      have hsame := (h.holds_inj ⟨hr, hb⟩ ⟨hr, hb0⟩).2
      omega
    show v.block b = _
    rw [hgiven, hsame]
  · rw [hk] at hnone
    have hstill := hmoved.block b fun j hj => by
      rw [htr]
      exact hnone (k + j) (Nat.le_add_right _ _)
    exact hstill.trans (hready.block b hb fun _ => hk ▸ hnone k (Nat.le_refl k))

theorem Ready.loop (h : Inv s) (hr : r ∈ s.ranges) (hcut : Cut (s.range r).node m)
    (hready : Ready s t r m) (hinject : (s.range r).injectSplitError = false) (io : SplitInput) :
    ∃ v, Moved t v r s.numRanges (uvmVaRangeBlockIndex (s.range r).node m)
        (List.range' (spans (s.range r).node m)
          (numBlocks (upper (s.range r).node m) - spans (s.range r).node m)) ∧
      t.splitBlocksTail io r s.numRanges (uvmVaRangeBlockIndex (s.range r).node m)
          (spans (s.range r).node m) =
        (.ok, v.blocksArrayShrink r (uvmVaRangeBlockIndex (s.range r).node m +
          spans (s.range r).node m) io.shrinks) := by
  have hne : r ≠ s.numRanges := Nat.ne_of_lt (h.allocated r hr)
  have htr : t.range r = s.range r := hready.others r hne
  have hsized := (h.wf r hr).sized
  have hupper := numBlocks_upper hcut
  have hinject : (t.range r).injectSplitError = false := htr ▸ hinject
  have hnode := hready.node
  have hents := hready.numEntries
  have hempty := hready.empty
  rw [← htr] at hsized
  generalize uvmVaRangeBlockIndex (s.range r).node m = k at *
  generalize spans (s.range r).node m = e at *
  have hn : numBlocks (t.range s.numRanges).node = numBlocks (upper (s.range r).node m) :=
    congrArg numBlocks hnode
  generalize numBlocks (upper (s.range r).node m) = n at *
  refine ⟨(List.range' e (n - e)).foldl (fun t j => t.moveBlock r s.numRanges k j) t,
    moveBlocks hne List.nodup_range' (fun j hj => ?_) (fun j hj => ?_) fun j hj => ?_, ?_⟩
  · obtain ⟨hlo, hhi⟩ := List.mem_range'_1.mp hj
    rw [← htr] at hupper
    omega
  · obtain ⟨hlo, hhi⟩ := List.mem_range'_1.mp hj
    omega
  · exact hempty j (List.mem_range'_1.mp hj).1
  · unfold State.splitBlocksTail
    rw [hinject, if_neg Bool.false_ne_true, hn]

theorem Ready.tail (h : Inv s) (hr : r ∈ s.ranges) (hcut : Cut (s.range r).node (newEnd + 1))
    (hready : Ready s t r (newEnd + 1)) (hinject : (s.range r).injectSplitError = false)
    (io : SplitInput) (res : NvStatus × State)
    (hres : res = t.splitBlocksTail io r s.numRanges
      (uvmVaRangeBlockIndex (s.range r).node (newEnd + 1))
      (spans (s.range r).node (newEnd + 1))) :
    res.1 = .ok ∧ Split s { res.2.setRange r { res.2.range r with
      node := { (res.2.range r).node with last := newEnd } } with
        ranges := res.2.ranges ++ [s.numRanges] } r (newEnd + 1) := by
  obtain ⟨v, hmoved, heq⟩ := hready.loop h hr hcut hinject io
  rw [heq] at hres
  subst hres
  refine ⟨rfl, ?_⟩
  have htr : t.range r = s.range r := hready.others r (Nat.ne_of_lt (h.allocated r hr))
  have hvr : (v.range r).node = (s.range r).node := (hmoved.node r).trans (congrArg _ htr)
  have hlower := numBlocks_lower hcut
  unfold State.blocksArrayShrink
  split
  · -- the smaller array has the elements that the lower part needs
    generalize uvmVaRangeBlockIndex (s.range r).node (newEnd + 1) +
      spans (s.range r).node (newEnd + 1) = n at *
    have hself : (v.setRange r { v.range r with numEntries := n }).range r =
        { v.range r with numEntries := n } := update_self ..
    rw [hself]
    have hidem : ∀ x y : Range, (v.setRange r x).setRange r y = v.setRange r y := fun x y => by
      unfold State.setRange
      rw [Function.update_idem]
    rw [hidem]
    refine hready.split h hr hcut hmoved _ ?_ rfl hlower.le
    rw [hvr]
    rfl
  · refine hready.split h hr hcut hmoved _ ?_ rfl ?_
    · dsimp only
      rw [hvr]
      rfl
    · dsimp only
      rw [hmoved.numEntries, htr, hlower]
      have hupper := numBlocks_upper hcut
      have hspans := spans_le_upper hcut
      have hsized := (h.wf r hr).sized
      omega

theorem Unsplit.allocManaged (s : State) (r m last : ℕ) : Unsplit s (s.allocManaged r m last) := by
  have hrange : ∀ q < s.numRanges, (s.allocManaged r m last).range q = s.range q :=
    fun q hq => update_of_ne (Nat.ne_of_lt hq) _ _
  refine ⟨rfl, Nat.le_succ _, rfl, rfl, rfl, fun q hq => ?_, fun q hq => ?_, fun q hq => ?_, rfl⟩
  · rw [hrange q hq]
  · rw [hrange q hq]
  · rw [hrange q hq]

theorem Unsplit.inject (h : Unsplit s t) (r : ℕ) (flag : Bool) :
    Unsplit s (t.setRange r { t.range r with injectSplitError := flag }) := by
  have hparts : ∀ q, ((t.setRange r { t.range r with
      injectSplitError := flag }).range q).node = (t.range q).node ∧
        ((t.setRange r { t.range r with injectSplitError := flag }).range q).numEntries =
          (t.range q).numEntries ∧
        ((t.setRange r { t.range r with injectSplitError := flag }).range q).blocks =
          (t.range q).blocks := by
    intro q
    by_cases hqr : q = r
    · have hself : (t.setRange r { t.range r with injectSplitError := flag }).range r =
          { t.range r with injectSplitError := flag } := update_self ..
      rw [hqr, hself]
      exact ⟨rfl, rfl, rfl⟩
    · have hother : (t.setRange r { t.range r with injectSplitError := flag }).range q =
          t.range q := update_of_ne hqr _ _
      rw [hother]
      exact ⟨rfl, rfl, rfl⟩
  exact ⟨h.ranges, h.numRanges, h.numVaBlocks, h.creating, h.oops,
    fun q hq => (hparts q).1.trans (h.node q hq),
    fun q hq => (hparts q).2.1.trans (h.numEntries q hq),
    fun q hq => (hparts q).2.2.trans (h.blocks q hq), h.block⟩

theorem splitBlocksTail_fails (io : SplitInput) (k e : ℕ)
    (hinject : (t.range r).injectSplitError = true) : t.splitBlocksTail io r new k e =
      (.errNoMemory, t.setRange r { t.range r with injectSplitError := false }) := by
  unfold State.splitBlocksTail
  rw [if_pos hinject]

theorem uvmVaRangeSplitBlocks_spec (h : Inv s) (hr : r ∈ s.ranges)
    (hcut : Cut (s.range r).node (newEnd + 1)) (io : SplitInput) (res : NvStatus × State)
    (hres : res = (s.allocManaged r (newEnd + 1) (s.range r).node.last).uvmVaRangeSplitBlocks io r
      s.numRanges) :
    (res.1 ≠ .ok ∧ Unsplit s res.2) ∨
      (res.1 = .ok ∧ Split s { res.2.setRange r { res.2.range r with
        node := { (res.2.range r).node with last := newEnd } } with
          ranges := res.2.ranges ++ [s.numRanges] } r (newEnd + 1)) := by
  have hne : r ≠ s.numRanges := Nat.ne_of_lt (h.allocated r hr)
  have hsized := (h.wf r hr).sized
  have hupper := numBlocks_upper hcut
  have hspansLe := spans_le_upper hcut
  have hunsplit := Unsplit.allocManaged s r (newEnd + 1) (s.range r).node.last
  have hreadyNone := Ready.allocManaged (s := s) (r := r) (m := newEnd + 1)
  generalize ht : s.allocManaged r (newEnd + 1) (s.range r).node.last = t at *
  have htr : t.range r = s.range r := ht ▸ update_of_ne hne _ _
  have htnew : (t.range s.numRanges).node = upper (s.range r).node (newEnd + 1) ∧
      (t.range s.numRanges).numEntries = numBlocks (upper (s.range r).node (newEnd + 1)) := by
    subst ht
    unfold State.allocManaged State.setRange
    dsimp only
    rw [update_self]
    exact ⟨rfl, rfl⟩
  -- a split that has no block to divide
  let u := uvmVaRangeBlockIndex (s.range r).node (newEnd + 1)
  have htail : (spans (s.range r).node (newEnd + 1) = 1 → (s.range r).blocks u = none) →
      res = t.splitBlocksTail io r s.numRanges
        u
        (spans (s.range r).node (newEnd + 1)) →
      (res.1 ≠ .ok ∧ Unsplit s res.2) ∨
        (res.1 = .ok ∧ Split s { res.2.setRange r { res.2.range r with
          node := { (res.2.range r).node with last := newEnd } } with
            ranges := res.2.ranges ++ [s.numRanges] } r (newEnd + 1)) := by
    intro hnone heq
    cases hinject : (s.range r).injectSplitError with
    | true =>
      rw [splitBlocksTail_fails io _ _ (by rw [htr]; exact hinject)] at heq
      rw [heq]
      exact .inl ⟨nofun, hunsplit.inject r false⟩
    | false =>
      exact .inr ((hreadyNone hnone).tail h hr hcut hinject io res heq)
  have hstart : (t.range s.numRanges).node.start = newEnd + 1 := congrArg Interval.start htnew.1
  unfold State.uvmVaRangeSplitBlocks at hres
  dsimp only at hres
  rw [hstart, htr] at hres
  by_cases hcalc : blockCalcStart (s.range r).node u ≠ newEnd + 1
  swap
  · have hspans : spans (s.range r).node (newEnd + 1) = 0 := if_neg hcalc
    rw [if_neg hcalc] at hres
    rw [hspans] at htail
    exact htail nofun hres
  have hspans : spans (s.range r).node (newEnd + 1) = 1 := if_pos hcalc
  rw [hspans] at hspansLe
  have haccess : uvmVaRangeBlockIndex (s.range r).node (newEnd + 1) < (t.range r).numEntries := by
    rw [htr]
    omega
  rw [if_pos hcalc, access_of_lt haccess, htr] at hres
  cases hentry : (s.range r).blocks u with
  | none =>
    rw [hentry] at hres
    refine htail (fun _ => hentry) (hres.trans ?_)
    rw [hspans]
  | some old =>
    have hold := (h.blocks r _ old ⟨hr, hentry⟩).allocated
    rw [hentry] at hres
    dsimp only at hres
    rw [Nat.add_sub_cancel] at hres
    unfold State.uvmVaBlockSplit at hres
    rw [htr] at hres
    by_cases hpresplit : io.presplit ≠ .ok
    · rw [if_pos hpresplit, if_pos hpresplit] at hres
      rw [hres]
      exact .inl ⟨hpresplit, hunsplit⟩
    rw [if_neg hpresplit] at hres
    cases hinject : (s.range r).injectSplitError with
    | true =>
      rw [hinject, if_pos rfl, if_pos nofun] at hres
      rw [hres]
      have hclear := hunsplit.inject r false
      rw [htr] at hclear
      exact .inl ⟨nofun, hclear⟩
    | false =>
      rw [hinject, if_neg Bool.false_ne_true] at hres
      by_cases hwait : io.trackerWait ≠ .ok
      · rw [if_pos hwait, if_pos hwait] at hres
        rw [hres]
        exact .inl ⟨hwait, hunsplit⟩
      rw [if_neg hwait, if_neg (not_not_intro rfl)] at hres
      have hdivide := Ready.divide (m := newEnd + 1) hspans hentry hold
      rw [ht, Nat.add_sub_cancel] at hdivide
      have hblock : t.block = s.block := ht ▸ rfl
      have hnum : t.numVaBlocks = s.numVaBlocks := ht ▸ rfl
      have hfirst : 0 < (t.range s.numRanges).numEntries := by
        rw [htnew.2]
        exact hspansLe
      have hacc := access_of_lt (i := 0) (s := (t.uvmVaBlockCreate s.numRanges (newEnd + 1)
        (s.block old).last).setBlock old { s.block old with last := newEnd }) hfirst
      rw [hblock, hnum] at hres
      rw [hacc] at hres
      exact .inr (hdivide.tail h hr hcut hinject io res (by rw [hspans]; exact hres))

theorem uvmVaRangeSplit_spec (h : Inv s) (hallowed : s.SplitAllowed r newEnd) (io : SplitInput) :
    ((s.uvmVaRangeSplit io r newEnd).1 ≠ .ok ∧ Unsplit s (s.uvmVaRangeSplit io r newEnd).2) ∨
      ((s.uvmVaRangeSplit io r newEnd).1 = .ok ∧
        Split s (s.uvmVaRangeSplit io r newEnd).2 r (newEnd + 1)) := by
  have hspec := uvmVaRangeSplitBlocks_spec h hallowed.2.1 (Cut.of_allowed h hallowed) io _ rfl
  unfold State.uvmVaRangeSplit
  split
  · exact .inl ⟨nofun, rfl, Nat.le_refl _, rfl, rfl, rfl, fun _ _ => rfl, fun _ _ => rfl,
      fun _ _ => rfl, rfl⟩
  · dsimp only
    rcases hspec with ⟨hfails, hunsplit⟩ | ⟨hok, hsplit⟩
    · rw [if_pos hfails]
      exact .inl ⟨hfails, hunsplit⟩
    · rw [if_neg (not_not_intro hok)]
      exact .inr ⟨rfl, hsplit⟩

/-! ## The invariant -/

theorem Split.holds_cases (hr : r ∈ s.ranges) (hs : Split s s' r m) {q : ℕ}
    (hold : s'.Holds q i b) :
    (q = r ∧ i < uvmVaRangeBlockIndex (s.range r).node m + spans (s.range r).node m ∧
        s.Holds r i b) ∨
      (q = s.numRanges ∧ spans (s.range r).node m ≤ i ∧
        s.Holds r (uvmVaRangeBlockIndex (s.range r).node m + i) b) ∨
      (q = s.numRanges ∧ i = 0 ∧ spans (s.range r).node m = 1 ∧ b = s.numVaBlocks ∧
        ∃ old, s.Holds r (uvmVaRangeBlockIndex (s.range r).node m) old ∧ Divided s s' m old) ∨
      (q ≠ r ∧ q ≠ s.numRanges ∧ s.Holds q i b) := by
  obtain ⟨hq, hb⟩ := hold
  rw [hs.ranges] at hq
  by_cases hqr : q = r
  · subst hqr
    by_cases hi : i < uvmVaRangeBlockIndex (s.range q).node m + spans (s.range q).node m
    · rw [hs.low i hi] at hb
      exact .inl ⟨rfl, hi, hr, hb⟩
    · rw [hs.high i (Nat.not_lt.mp hi)] at hb
      exact nomatch hb
  · by_cases hqn : q = s.numRanges
    · subst hqn
      by_cases hi : spans (s.range r).node m ≤ i
      · rw [hs.up i hi] at hb
        exact .inr (.inl ⟨rfl, hi, hr, hb⟩)
      · -- the first element of the new range, below those that move
        have hle := spans_le (s.range r).node m
        have hspans : spans (s.range r).node m = 1 := by omega
        have hzero : i = 0 := by omega
        subst hzero
        have hfirst := hs.first hspans
        unfold FirstRight at hfirst
        cases hentry : (s.range r).blocks (uvmVaRangeBlockIndex (s.range r).node m) with
        | none =>
          rw [hentry] at hfirst
          exact nomatch hfirst.symm.trans hb
        | some old =>
          rw [hentry] at hfirst
          have heq : b = s.numVaBlocks := (Option.some.inj (hfirst.entry.symm.trans hb)).symm
          exact .inr (.inr (.inl ⟨rfl, rfl, hspans, heq, old, ⟨hr, hentry⟩, hfirst⟩))
    · rw [hs.others q hqr hqn] at hb
      rcases List.mem_append.mp hq with hq | hq
      · exact .inr (.inr (.inr ⟨hqr, hqn, hq, hb⟩))
      · exact absurd (List.mem_singleton.mp hq) hqn

theorem Split.divided (hs : Split s s' r m) (hspans : spans (s.range r).node m = 1)
    (hentry : (s.range r).blocks (uvmVaRangeBlockIndex (s.range r).node m) = some old) :
    Divided s s' m old := by
  have hfirst := hs.first hspans
  unfold FirstRight at hfirst
  rw [hentry] at hfirst
  exact hfirst

theorem Split.isBlock (h : Inv s) (hr : r ∈ s.ranges) (hcut : Cut (s.range r).node m)
    (hs : Split s s' r m) {q : ℕ} (hold : s'.Holds q i b) : s'.IsBlock q i b := by
  rcases hs.holds_cases hr hold with ⟨rfl, hi, hb⟩ | ⟨rfl, hi, hb⟩ |
    ⟨rfl, rfl, hspans, rfl, old, hb, hdivided⟩ | ⟨hqr, hqn, hb⟩
  · have hisBlock := h.blocks q i b hb
    have hlt := hisBlock.allocated.trans_le hs.numVaBlocks
    by_cases hik : i < uvmVaRangeBlockIndex (s.range q).node m
    · have hstay := hs.block b hisBlock.allocated fun i' hi' hb' => by
        have hsame := (h.holds_inj hb ⟨hr, hb'⟩).2
        omega
      obtain ⟨hstart, hlast⟩ := calc_lower hcut hik
      refine ⟨hlt, ?_, ?_, ?_, ?_⟩
      · rw [hstay, hs.nodeLower, hstart, hisBlock.start]
      · rw [hstay, hs.nodeLower, hlast, hisBlock.last]
      · rw [hstay, hisBlock.vaRange]
      · rw [hstay, hisBlock.freed]
    · have hle := spans_le (s.range q).node m
      have hspans : spans (s.range q).node m = 1 := by omega
      have heq : i = uvmVaRangeBlockIndex (s.range q).node m := by omega
      subst heq
      have hdivided := (hs.divided hspans hb.2).old
      obtain ⟨hstart, hlast, -, -⟩ := calc_spans hcut hspans
      refine ⟨hlt, ?_, ?_, ?_, ?_⟩
      · rw [hdivided, hs.nodeLower, hstart, hisBlock.start]
      · rw [hdivided, hs.nodeLower, hlast]
      · rw [hdivided, hisBlock.vaRange]
      · rw [hdivided, hisBlock.freed]
  · have hisBlock := h.blocks r _ b hb
    have hgiven := hs.given i b hi hb.2
    obtain ⟨hstart, hlast⟩ := calc_upper hcut hi
    refine ⟨hisBlock.allocated.trans_le hs.numVaBlocks, ?_, ?_, ?_, ?_⟩
    · rw [hgiven, hs.nodeUpper, hstart, hisBlock.start]
    · rw [hgiven, hs.nodeUpper, hlast, hisBlock.last]
    · rw [hgiven]
    · rw [hgiven, hisBlock.freed]
  · have hisBlock := h.blocks r _ old hb
    obtain ⟨-, -, hstart, hlast⟩ := calc_spans hcut hspans
    refine ⟨?_, ?_, ?_, ?_, ?_⟩
    · rw [hdivided.numVaBlocks]
      exact Nat.lt_succ_self _
    · rw [hdivided.new, hs.nodeUpper, hstart]
    · rw [hdivided.new, hs.nodeUpper, hlast, hisBlock.last]
    · rw [hdivided.new]
    · rw [hdivided.new]
  · have hisBlock := h.blocks q i b hb
    have hstay := hs.block b hisBlock.allocated fun i' _ hb' => hqr (h.holds_inj hb ⟨hr, hb'⟩).1
    refine ⟨hisBlock.allocated.trans_le hs.numVaBlocks, ?_, ?_, ?_, ?_⟩
    · rw [hstay, hs.others q hqr hqn, hisBlock.start]
    · rw [hstay, hs.others q hqr hqn, hisBlock.last]
    · rw [hstay, hisBlock.vaRange]
    · rw [hstay, hisBlock.freed]

theorem Inv.split (h : Inv s) (hcreating : s.creating = []) (hr : r ∈ s.ranges)
    (hcut : Cut (s.range r).node m) (hs : Split s s' r m) : Inv s' := by
  have hnew : s.numRanges ∉ s.ranges := fun hmem => absurd (h.allocated _ hmem) (Nat.lt_irrefl _)
  obtain ⟨hle, hstart, hlast, -, hinside⟩ := h.wf r hr
  have hupper := numBlocks_upper hcut
  have hmem : ∀ q ∈ s'.ranges, q = r ∨ q = s.numRanges ∨ (q ∈ s.ranges ∧ q ≠ r ∧ q ≠ s.numRanges) := by
    intro q hq
    rw [hs.ranges] at hq
    rcases List.mem_append.mp hq with hq | hq
    · by_cases hqr : q = r
      · exact .inl hqr
      · exact .inr (.inr ⟨hq, hqr, fun heq => hnew (heq ▸ hq)⟩)
    · exact .inr (.inl (List.mem_singleton.mp hq))
  -- the ranges that the two parts were apart from are apart from both
  have hbounds : (lower (s.range r).node m).last < m ∧ m ≤ (s.range r).node.last ∧
      (s.range r).node.start < m := by
    have hlt := hcut.start_lt
    refine ⟨?_, hcut.le_last, hlt⟩
    show m - 1 < m
    omega
  refine ⟨hs.oops.trans h.calm, ?_, fun q hq => ?_, fun q hq => ?_, fun q hq q' hq' hneq => ?_,
    fun q i b hold => hs.isBlock h hr hcut hold, fun q i b hc => ?_, ?_⟩
  · rw [hs.ranges]
    exact h.nodup.append (List.nodup_singleton _) (List.disjoint_singleton.mpr hnew)
  · rw [hs.numRanges]
    rcases hmem q hq with rfl | rfl | ⟨hq, -, -⟩
    · exact Nat.lt_succ_of_lt (h.allocated _ hr)
    · exact Nat.lt_succ_self _
    · exact Nat.lt_succ_of_lt (h.allocated q hq)
  · rcases hmem q hq with rfl | rfl | ⟨hq, hqr, hqn⟩
    · refine ⟨?_, ?_, ?_, ?_, fun i b hb => ?_⟩
      · rw [hs.nodeLower]
        exact Nat.le_sub_one_of_lt hbounds.2.2
      · rw [hs.nodeLower]
        exact hstart
      · rw [hs.nodeLower]
        show 4096 ∣ m - 1 + 1
        rw [Nat.sub_add_cancel (Nat.one_le_of_lt hbounds.2.2)]
        exact hcut.page
      · rw [hs.nodeLower]
        exact hs.sizedLower
      · rw [hs.nodeLower, numBlocks_lower hcut]
        by_contra hge
        rw [hs.high i (Nat.not_lt.mp hge)] at hb
        exact nomatch hb
    · refine ⟨?_, ?_, ?_, ?_, fun i b hb => ?_⟩
      · rw [hs.nodeUpper]
        exact hbounds.2.1
      · rw [hs.nodeUpper]
        exact hcut.page
      · rw [hs.nodeUpper]
        exact hlast
      · rw [hs.nodeUpper]
        exact hs.sizedUpper.ge
      · rw [hs.nodeUpper]
        have hspansLe := spans_le_upper hcut
        by_cases hi : spans (s.range r).node m ≤ i
        · rw [hs.up i hi] at hb
          have hlt := hinside _ b hb
          omega
        · have hspans := spans_le (s.range r).node m
          omega
    · rw [hs.others q hqr hqn]
      exact h.wf q hq
  · rcases hmem q hq with rfl | rfl | ⟨hq, hqr, hqn⟩ <;>
      rcases hmem q' hq' with rfl | rfl | ⟨hq', hqr', hqn'⟩
    · exact absurd rfl hneq
    · rw [hs.nodeLower, hs.nodeUpper]
      exact .inl hbounds.1
    · have hapart := h.apart q hr q' hq' hneq
      rw [hs.nodeLower, hs.others q' hqr' hqn']
      refine hapart.imp (fun hlt => ?_) id
      have hlt' := hbounds.1.trans_le (hbounds.2.1.trans hlt.le)
      exact hlt'
    · rw [hs.nodeLower, hs.nodeUpper]
      exact .inr hbounds.1
    · exact absurd rfl hneq
    · have hapart := h.apart r hr q' hq' hqr'.symm
      rw [hs.nodeUpper, hs.others q' hqr' hqn']
      exact hapart.imp id fun hlt => hlt.trans hbounds.2.2
    · have hapart := h.apart q hq q' hr hneq
      rw [hs.nodeLower, hs.others q hqr hqn]
      refine hapart.imp id fun hlt => ?_
      exact hbounds.1.trans_le (hbounds.2.1.trans hlt.le)
    · have hapart := h.apart q hq r hr hqr
      rw [hs.nodeUpper, hs.others q hqr hqn]
      exact hapart.imp (fun hlt => hlt.trans hbounds.2.2) id
    · rw [hs.others q hqr hqn, hs.others q' hqr' hqn']
      exact h.apart q hq q' hq' hneq
  · rw [hs.creating, hcreating] at hc
    exact absurd hc List.not_mem_nil
  · rw [hs.creating, hcreating]
    exact List.nodup_nil

theorem Unsplit.holds_iff (h : Inv s) (hs : Unsplit s s') {q : ℕ} :
    s'.Holds q i b ↔ s.Holds q i b := by
  unfold State.Holds
  rw [hs.ranges]
  refine and_congr_right fun hq => ?_
  rw [hs.blocks q (h.allocated q hq)]

theorem Inv.unsplit (h : Inv s) (hs : Unsplit s s') : Inv s' := by
  have hnode : ∀ q ∈ s.ranges, (s'.range q).node = (s.range q).node :=
    fun q hq => hs.node q (h.allocated q hq)
  have hisBlock : ∀ q ∈ s.ranges, ∀ i b, s.IsBlock q i b → s'.IsBlock q i b := by
    intro q hq i b hb
    refine ⟨?_, ?_, ?_, ?_, ?_⟩
    · rw [hs.numVaBlocks]
      exact hb.allocated
    · rw [hs.block, hnode q hq]
      exact hb.start
    · rw [hs.block, hnode q hq]
      exact hb.last
    · rw [hs.block]
      exact hb.vaRange
    · rw [hs.block]
      exact hb.freed
  refine ⟨hs.oops.trans h.calm, ?_, fun q hq => ?_, fun q hq => ?_, fun q hq q' hq' hneq => ?_,
    fun q i b hold => ?_, fun q i b hc => ?_, ?_⟩
  · rw [hs.ranges]
    exact h.nodup
  · rw [hs.ranges] at hq
    exact (h.allocated q hq).trans_le hs.numRanges
  · rw [hs.ranges] at hq
    obtain ⟨hle, hstart, hlast, hsized, hinside⟩ := h.wf q hq
    rw [← hnode q hq] at hle hstart hlast hsized
    refine ⟨hle, hstart, hlast, ?_, fun i b hb => ?_⟩
    · rw [hs.numEntries q (h.allocated q hq)]
      exact hsized
    · rw [hs.blocks q (h.allocated q hq)] at hb
      rw [hnode q hq]
      exact hinside i b hb
  · rw [hs.ranges] at hq hq'
    rw [hnode q hq, hnode q' hq']
    exact h.apart q hq q' hq' hneq
  · have hold := (hs.holds_iff h).mp hold
    exact hisBlock q hold.1 i b (h.blocks q i b hold)
  · rw [hs.creating] at hc
    obtain ⟨hq, hi, hb, hnone⟩ := h.creating q i b hc
    refine ⟨hs.ranges.symm ▸ hq, ?_, hisBlock q hq i b hb, fun q' j hold => ?_⟩
    · rw [hnode q hq]
      exact hi
    · exact hnone q' j ((hs.holds_iff h).mp hold)
  · rw [hs.creating]
    exact h.distinct

theorem Unsplit.refl (s : State) : Unsplit s s :=
  ⟨rfl, Nat.le_refl _, rfl, rfl, rfl, fun _ _ => rfl, fun _ _ => rfl, fun _ _ => rfl, rfl⟩

theorem Inv.step (h : Inv s) (op : Op) : Inv (step s op) := by
  cases op with
  | blockCreate r i allocOk =>
    unfold RangeBlocks.step
    dsimp only
    split
    · next hallowed => exact h.blockCreate hallowed allocOk
    · exact h
  | insertBlock r i b => exact h.insertBlock r i b
  | split io r newEnd =>
    unfold RangeBlocks.step
    dsimp only
    split
    · next hallowed =>
      rcases uvmVaRangeSplit_spec h hallowed io with ⟨-, hs⟩ | ⟨-, hs⟩
      · exact h.unsplit hs
      · exact h.split hallowed.1 hallowed.2.1 (Cut.of_allowed h hallowed) hs
    · exact h
  | injectSplitError r => exact h.unsplit ((Unsplit.refl s).inject r true)

/-! ## Runs -/

/-- Managed ranges as `uvm_mmap` creates them: they consist of pages and do not overlap. -/
structure Mappings where
  count : ℕ
  node : ℕ → VaRange
  pages : ∀ r < count, (node r).start ≤ (node r).last ∧ 4096 ∣ (node r).start ∧
    4096 ∣ (node r).last + 1
  apart : ∀ r < count, ∀ q < count, r ≠ q →
    (node r).last < (node q).start ∨ (node q).last < (node r).start

/-- The ranges before any of their blocks is created. -/
def Mappings.init (c : Mappings) : State where
  ranges := List.range c.count
  numRanges := c.count
  range r := ⟨c.node r, fun _ => none, numBlocks (c.node r), false⟩
  numVaBlocks := 0
  block _ := ⟨0, 0, 0, false⟩
  creating := []
  oops := false

theorem Mappings.inv_init (c : Mappings) : Inv c.init := by
  refine ⟨rfl, List.nodup_range, fun r hr => List.mem_range.mp hr, fun r hr => ?_,
    fun r hr q hq => c.apart r (List.mem_range.mp hr) q (List.mem_range.mp hq),
    fun r i b hold => ?_, fun r i b hc => absurd hc List.not_mem_nil, List.nodup_nil⟩
  swap
  · exact nomatch hold.2
  obtain ⟨hle, hstart, hlast⟩ := c.pages r (List.mem_range.mp hr)
  exact ⟨hle, hstart, hlast, Nat.le_refl _, fun i b hb => nomatch hb⟩

/-- The blocks are where their indices say, and no address is in two of them. -/
structure Right (s : State) : Prop where
  bounds : ∀ r i b, s.Holds r i b → (s.block b).start = blockCalcStart (s.range r).node i ∧
    (s.block b).last = blockCalcEnd (s.range r).node i
  owner : ∀ r i b, s.Holds r i b → (s.block b).vaRange = r
  index : ∀ r ∈ s.ranges, ∀ a, (s.range r).node.Contains a → ∀ i b, s.Holds r i b →
    ((s.block b).start ≤ a ∧ a ≤ (s.block b).last ↔ i = uvmVaRangeBlockIndex (s.range r).node a)
  once : ∀ r i b, s.Holds r i b → ∀ q j c, s.Holds q j c → ∀ a,
    (s.block b).start ≤ a → a ≤ (s.block b).last → (s.block c).start ≤ a → a ≤ (s.block c).last →
      r = q ∧ i = j ∧ b = c
  live : ∀ r i b, s.Holds r i b → (s.block b).freed = false
  calm : s.oops = false

theorem Inv.right (h : Inv s) : Right s := by
  have hwithin : ∀ r i b, s.Holds r i b → ∀ a, (s.block b).start ≤ a → a ≤ (s.block b).last →
      (s.range r).node.Contains a := by
    intro r i b hold a hlo hhi
    have hb := h.blocks r i b hold
    rw [hb.start, blockCalcStart_eq] at hlo
    rw [hb.last, blockCalcEnd_eq] at hhi
    exact ⟨(le_max_left _ _).trans hlo, hhi.trans (min_le_left _ _)⟩
  have hidx : ∀ r ∈ s.ranges, ∀ a, (s.range r).node.Contains a → ∀ i b, s.Holds r i b →
      ((s.block b).start ≤ a ∧ a ≤ (s.block b).last ↔
        i = uvmVaRangeBlockIndex (s.range r).node a) := by
    intro r _ a ha i b hold
    have hb := h.blocks r i b hold
    rw [hb.start, hb.last]
    exact in_block_iff ha
  refine ⟨fun r i b hold => ?_, fun r i b hold => (h.blocks r i b hold).vaRange, hidx,
    fun r i b hold q j c hold' a hlo hhi hlo' hhi' => ?_,
    fun r i b hold => (h.blocks r i b hold).freed, h.calm⟩
  · exact ⟨(h.blocks r i b hold).start, (h.blocks r i b hold).last⟩
  · have ha := hwithin r i b hold a hlo hhi
    have ha' := hwithin q j c hold' a hlo' hhi'
    have hrq : r = q := by
      by_contra hne
      have hapart := h.apart r hold.1 q hold'.1 hne
      have hlo := ha.1
      have hhi := ha.2
      have hlo' := ha'.1
      have hhi' := ha'.2
      omega
    subst hrq
    have hij : i = j := ((hidx r hold.1 a ha i b hold).mp ⟨hlo, hhi⟩).trans
      ((hidx r hold.1 a ha j c hold').mp ⟨hlo', hhi'⟩).symm
    subst hij
    exact ⟨rfl, rfl, Option.some.inj (hold.2.symm.trans hold'.2)⟩

end NvUvm.RangeBlocks
