import Mathlib.Data.List.Nodup
import NvUvm.VaRangeBlocks

/-!
# The invariant of the blocks of managed ranges

Every element of a range's array of blocks points to the block that the element is for, and the block
points back to the range.  A block that a thread has created but not inserted is in no array, and is
released when another thread was faster.
-/

namespace NvUvm.RangeBlocks

open Lib
open Function (update update_of_ne update_self)

variable {s s' : State} {r i b existing new k : ℕ}

/-! ## The invariant -/

/-- An element of the array of a range points to a block. -/
def State.Holds (s : State) (r i b : ℕ) : Prop := r ∈ s.ranges ∧ (s.range r).blocks i = some b

/-- The block is the one for an index of a range. -/
structure State.IsBlock (s : State) (r i b : ℕ) : Prop where
  allocated : b < s.numVaBlocks
  start : (s.block b).start = blockCalcStart (s.range r).node i
  last : (s.block b).last = blockCalcEnd (s.range r).node i
  vaRange : (s.block b).vaRange = r
  freed : (s.block b).freed = false

/-- The range consists of pages, and its array has the elements it needs. -/
structure Range.Wf (x : Range) : Prop where
  start_le : x.node.start ≤ x.node.last
  start : 4096 ∣ x.node.start
  last : 4096 ∣ x.node.last + 1
  sized : numBlocks x.node ≤ x.numEntries
  inside : ∀ i b, x.blocks i = some b → i < numBlocks x.node

/-- The ranges are apart, and the elements of their arrays point to the blocks that they are for. -/
structure Inv (s : State) : Prop where
  calm : s.oops = false
  nodup : s.ranges.Nodup
  allocated : ∀ r ∈ s.ranges, r < s.numRanges
  wf : ∀ r ∈ s.ranges, (s.range r).Wf
  apart : ∀ r ∈ s.ranges, ∀ q ∈ s.ranges, r ≠ q →
    (s.range r).node.last < (s.range q).node.start ∨ (s.range q).node.last < (s.range r).node.start
  blocks : ∀ r i b, s.Holds r i b → s.IsBlock r i b
  creating : ∀ r i b, (r, i, b) ∈ s.creating → r ∈ s.ranges ∧ i < numBlocks (s.range r).node ∧
    s.IsBlock r i b ∧ ∀ q j, ¬ s.Holds q j b
  distinct : (s.creating.map fun c => c.2.2).Nodup

theorem Inv.holds_inj (h : Inv s) {q j : ℕ} (hi : s.Holds r i b) (hj : s.Holds q j b) :
    r = q ∧ i = j := by
  have hr : r = q := (h.blocks r i b hi).vaRange.symm.trans (h.blocks q j b hj).vaRange
  subst hr
  have hwf := h.wf r hi.1
  -- both indices are that of the address at which the block starts
  have hidx : ∀ i, s.Holds r i b → i = uvmVaRangeBlockIndex (s.range r).node (s.block b).start := by
    intro i hi
    have hb := h.blocks r i b hi
    have hlt := hwf.inside i b hi.2
    rw [numBlocks_eq hwf.last] at hlt
    have hin : (s.range r).node.Contains (s.block b).start ∧
        (s.block b).start ≤ blockCalcEnd (s.range r).node i := by
      have hle := hwf.start_le
      rw [hb.start, blockCalcStart_eq, blockCalcEnd_eq]
      unfold Interval.Contains
      unfold vaBlockSize at *
      omega
    exact (in_block_iff hin.1).mp ⟨by rw [hb.start], hin.2⟩
  exact ⟨rfl, (hidx i hi).trans (hidx j hj).symm⟩

/-! ## Creating blocks -/

theorem access_of_lt (h : i < (s.range r).numEntries) : s.access r i = s := by
  unfold State.access
  rw [decide_eq_false (Nat.not_le.mpr h), Bool.or_false]

theorem setEntry_blocks (s : State) (r i : ℕ) (o : Option ℕ) (q j : ℕ) :
    ((s.setEntry r i o).range q).blocks j =
      if q = r ∧ j = i then o else (s.range q).blocks j := by
  show (update s.range r _ q).blocks j = _
  by_cases hq : q = r
  · subst hq
    rw [update_self]
    show update (s.range q).blocks i o j = _
    by_cases hj : j = i
    · rw [if_pos ⟨rfl, hj⟩, hj, update_self]
    · rw [if_neg fun h => hj h.2, update_of_ne hj]
  · rw [update_of_ne hq, if_neg fun h => hq h.1]

theorem setEntry_range_of_ne (s : State) (i : ℕ) (o : Option ℕ) {q : ℕ} (hq : q ≠ r) :
    (s.setEntry r i o).range q = s.range q := update_of_ne hq _ _

theorem setEntry_frame (s : State) (r i : ℕ) (o : Option ℕ) (q : ℕ) :
    ((s.setEntry r i o).range q).node = (s.range q).node ∧
      ((s.setEntry r i o).range q).numEntries = (s.range q).numEntries := by
  by_cases hq : q = r
  · subst hq
    show (update s.range q _ q).node = _ ∧ (update s.range q _ q).numEntries = _
    rw [update_self]
    exact ⟨rfl, rfl⟩
  · rw [setEntry_range_of_ne s i o hq]
    exact ⟨rfl, rfl⟩

theorem Inv.blockCreate (h : Inv s) (hallowed : s.CreateAllowed r i) (allocOk : Bool) :
    Inv (s.uvmVaRangeBlockCreate r i allocOk) := by
  obtain ⟨hr, hi⟩ := hallowed
  unfold State.uvmVaRangeBlockCreate
  rw [access_of_lt (hi.trans_le (h.wf r hr).sized)]
  dsimp only
  split
  · exact h
  · split
    · exact h
    · -- the new block is in no array, and every other one is as it was
      have hblock : ∀ c, c < s.numVaBlocks →
          update s.block s.numVaBlocks ⟨blockCalcStart (s.range r).node i,
            blockCalcEnd (s.range r).node i, r, false⟩ c = s.block c :=
        fun c hc => update_of_ne (Nat.ne_of_lt hc) _ _
      have hkeep : ∀ q j c, s.IsBlock q j c → State.IsBlock
          { s.uvmVaBlockCreate r (blockCalcStart (s.range r).node i)
              (blockCalcEnd (s.range r).node i) with
            creating := (r, i, s.numVaBlocks) :: s.creating } q j c := by
        intro q j c hc
        have heq := hblock c hc.allocated
        refine ⟨Nat.lt_succ_of_lt hc.allocated, ?_, ?_, ?_, ?_⟩
        · exact (congrArg VaBlock.start heq).trans hc.start
        · exact (congrArg VaBlock.last heq).trans hc.last
        · exact (congrArg VaBlock.vaRange heq).trans hc.vaRange
        · exact (congrArg VaBlock.freed heq).trans hc.freed
      refine ⟨h.calm, h.nodup, h.allocated, h.wf, h.apart,
        fun q j c hc => hkeep q j c (h.blocks q j c hc), fun q j c hc => ?_, ?_⟩
      · rcases List.mem_cons.mp hc with heq | hc
        · obtain ⟨rfl, rfl, rfl⟩ : q = r ∧ j = i ∧ c = s.numVaBlocks := by simpa using heq
          have hself := update_self s.numVaBlocks (⟨blockCalcStart (s.range q).node j,
            blockCalcEnd (s.range q).node j, q, false⟩ : VaBlock) s.block
          refine ⟨hr, hi, ⟨Nat.lt_succ_self _, ?_, ?_, ?_, ?_⟩, fun q' j' hold => ?_⟩
          · exact congrArg VaBlock.start hself
          · exact congrArg VaBlock.last hself
          · exact congrArg VaBlock.vaRange hself
          · exact congrArg VaBlock.freed hself
          · exact absurd (h.blocks q' j' _ hold).allocated (Nat.lt_irrefl _)
        · obtain ⟨hq, hj, hisBlock, hnone⟩ := h.creating q j c hc
          exact ⟨hq, hj, hkeep q j c hisBlock, hnone⟩
      · refine List.nodup_cons.mpr ⟨fun hmem => ?_, h.distinct⟩
        obtain ⟨⟨q, j, c⟩, hc, heq⟩ := List.mem_map.mp hmem
        obtain ⟨-, -, hisBlock, -⟩ := h.creating q j c hc
        exact absurd hisBlock.allocated (by rw [show c = s.numVaBlocks from heq]; exact Nat.lt_irrefl _)

theorem Inv.insertBlock (h : Inv s) (r i b : ℕ) : Inv (s.insertBlock r i b) := by
  unfold State.insertBlock
  split
  swap
  · exact h
  next hmem =>
  obtain ⟨hr, hi, hisBlock, hnone⟩ := h.creating r i b hmem
  have hacc := access_of_lt (s := { s with creating := s.creating.erase (r, i, b) })
    (hi.trans_le (h.wf r hr).sized)
  have hnd : s.creating.Nodup := List.Nodup.of_map _ h.distinct
  -- the other threads have other blocks
  have hother : ∀ q j c, (q, j, c) ∈ s.creating.erase (r, i, b) →
      (q, j, c) ∈ s.creating ∧ c ≠ b := by
    intro q j c hc
    obtain ⟨hne, hc⟩ := hnd.mem_erase_iff.mp hc
    exact ⟨hc, fun heq => hne (List.inj_on_of_nodup_map h.distinct hc hmem heq)⟩
  have hdistinct : ((s.creating.erase (r, i, b)).map fun c => c.2.2).Nodup :=
    h.distinct.sublist (List.erase_sublist.map _)
  rw [hacc]
  dsimp only
  split
  · next hentry =>
    have hnode : ∀ q, (({ s with creating := s.creating.erase (r, i, b) }.setEntry r i
        (some b)).range q).node = (s.range q).node := fun q => (setEntry_frame _ r i (some b) q).1
    have hhold : ∀ q j c, (State.Holds ({ s with creating := s.creating.erase (r, i, b) }.setEntry
        r i (some b)) q j c) → s.Holds q j c ∨ (q = r ∧ j = i ∧ c = b) := by
      rintro q j c ⟨hq, hc⟩
      rw [setEntry_blocks] at hc
      split at hc
      · next heq => exact .inr ⟨heq.1, heq.2, (Option.some.inj hc).symm⟩
      · exact .inl ⟨hq, hc⟩
    have hkeep : ∀ q j c, s.IsBlock q j c → State.IsBlock
        ({ s with creating := s.creating.erase (r, i, b) }.setEntry r i (some b)) q j c := by
      intro q j c hc
      refine ⟨hc.allocated, ?_, ?_, hc.vaRange, hc.freed⟩
      · exact hc.start.trans (congrArg (blockCalcStart · j) (hnode q).symm)
      · exact hc.last.trans (congrArg (blockCalcEnd · j) (hnode q).symm)
    refine ⟨h.calm, h.nodup, h.allocated, fun q hq => ?_, fun q hq q' hq' hne => ?_,
      fun q j c hc => ?_, fun q j c hc => ?_, hdistinct⟩
    · obtain ⟨hle, hstart, hlast, hsized, hinside⟩ := h.wf q hq
      obtain ⟨hnode, hnum⟩ := setEntry_frame { s with creating := s.creating.erase (r, i, b) } r i
        (some b) q
      rw [← hnode] at hle hstart hlast
      refine ⟨hle, hstart, hlast, ?_, fun j c hc => ?_⟩
      · rw [hnode, hnum]
        exact hsized
      · rw [hnode]
        rcases hhold q j c ⟨hq, hc⟩ with hc | ⟨rfl, rfl, -⟩
        · exact hinside j c hc.2
        · exact hi
    · have hapart := h.apart q hq q' hq' hne
      rw [← hnode q, ← hnode q'] at hapart
      exact hapart
    · rcases hhold q j c hc with hc | ⟨rfl, rfl, rfl⟩
      · exact hkeep q j c (h.blocks q j c hc)
      · exact hkeep q j c hisBlock
    · obtain ⟨hc, hne⟩ := hother q j c hc
      obtain ⟨hq, hj, hisBlock', hnone'⟩ := h.creating q j c hc
      refine ⟨hq, hj.trans_eq (congrArg numBlocks (hnode q).symm), hkeep q j c hisBlock',
        fun q' j' hc' => ?_⟩
      rcases hhold q' j' c hc' with hc' | ⟨-, -, heq⟩
      · exact hnone' q' j' hc'
      · exact hne heq
  · -- the block that is released is in no array
    have hkeep : ∀ q j c, c ≠ b → s.IsBlock q j c → State.IsBlock
        ({ s with creating := s.creating.erase (r, i, b) }.setBlock b
          { s.block b with freed := true }) q j c := by
      intro q j c hne hc
      have heq : update s.block b { s.block b with freed := true } c = s.block c :=
        update_of_ne hne _ _
      refine ⟨hc.allocated, ?_, ?_, ?_, ?_⟩
      · exact (congrArg VaBlock.start heq).trans hc.start
      · exact (congrArg VaBlock.last heq).trans hc.last
      · exact (congrArg VaBlock.vaRange heq).trans hc.vaRange
      · exact (congrArg VaBlock.freed heq).trans hc.freed
    refine ⟨h.calm, h.nodup, h.allocated, h.wf, h.apart, fun q j c hc => ?_, fun q j c hc => ?_,
      hdistinct⟩
    · exact hkeep q j c (fun heq => hnone q j (heq ▸ hc)) (h.blocks q j c hc)
    · obtain ⟨hc, hne⟩ := hother q j c hc
      obtain ⟨hq, hj, hisBlock', hnone'⟩ := h.creating q j c hc
      exact ⟨hq, hj, hkeep q j c hne hisBlock', hnone'⟩

end NvUvm.RangeBlocks
