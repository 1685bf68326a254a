import NvUvm.BlockCopy
import NvUvm.Lib.BitRuns

/-!
# The subregions of a mask

`for_each_va_block_subregion_in_mask` (`uvm8_va_block.h`): the loops of the block code over the
pages of a region that a mask has set, run by run.
-/

namespace NvUvm

open Lib

namespace BlockRegion

variable (region : BlockRegion) (pageMask : Option PageMask)

/-- Where both searches go on from an offset. -/
def subregionBehind (mask : PageMask) (offset : ℕ) : BlockRegion :=
  let first := findNextBit mask region.outer offset
  ⟨first, findNextBit (fun p => !mask p) region.outer (first + 1)⟩

/-- `uvm_va_block_first_subregion_in_mask`. -/
def firstSubregionInMask : BlockRegion :=
  match pageMask with
  | none => region
  | some mask => region.subregionBehind mask region.first

/-- `uvm_va_block_next_subregion_in_mask`. -/
def nextSubregionInMask (previous : BlockRegion) : BlockRegion :=
  match pageMask with
  | none => ⟨region.outer, region.outer⟩
  | some mask => region.subregionBehind mask (previous.outer + 1)

/-- The `for` loop from a subregion on, if it ends before the fuel does. -/
def subregionsFrom : ℕ → BlockRegion → Option (List BlockRegion)
  | 0, _ => none
  | fuel + 1, subregion =>
    if subregion.first ≠ region.outer then
      (subregionsFrom fuel (region.nextSubregionInMask pageMask subregion)).map (subregion :: ·)
    else some []

/-- `for_each_va_block_subregion_in_mask`. -/
def subregionsInMask (fuel : ℕ) : Option (List BlockRegion) :=
  region.subregionsFrom pageMask fuel (region.firstSubregionInMask pageMask)

/-- The page is one that the loops over the mask are about; no mask stands for a full one. -/
def Selects (p : ℕ) : Prop := region.first ≤ p ∧ p < region.outer ∧ pageMask.all (· p) = true

/-- A run of such pages that cannot be made longer. -/
structure Maximal (r : BlockRegion) : Prop where
  nonempty : r.first < r.outer
  selects : ∀ p, r.first ≤ p → p < r.outer → region.Selects pageMask p
  start : r.first ≠ 0 → ¬ region.Selects pageMask (r.first - 1)
  stop : ¬ region.Selects pageMask r.outer

variable {region} {pageMask}

theorem maximal_iff {r : BlockRegion} : region.Maximal pageMask r ↔
    IsRun (fun p => pageMask.all (· p)) region.outer region.first (r.first, r.outer) := by
  constructor
  · intro h
    have hfirst := h.selects r.first le_rfl h.nonempty
    have hlast := h.selects (r.outer - 1) (by have := h.nonempty; omega) (by have := h.nonempty; omega)
    refine ⟨hfirst.1, h.nonempty, ?_, fun p hlo hhi => (h.selects p hlo hhi).2.2, ?_, ?_⟩
    · have := h.nonempty
      have := hlast.2.1
      change r.outer ≤ region.outer
      omega
    · by_contra hno
      rw [not_or, Bool.not_eq_false] at hno
      have := hfirst.1
      have := hfirst.2.1
      exact h.start (by omega) ⟨by omega, by omega, hno.2⟩
    · by_contra hno
      rw [not_or, Bool.not_eq_false] at hno
      have := h.nonempty
      have := hlast.2.1
      have := hfirst.1
      exact h.stop ⟨by omega, by omega, hno.2⟩
  · intro h
    refine ⟨h.nonempty, fun p hlo hhi => ⟨h.lo.trans hlo, lt_of_lt_of_le hhi h.hi, h.set p hlo hhi⟩,
      fun hne hsel => ?_, fun hsel => ?_⟩
    · rcases h.start with heq | hclear
      · have := hsel.1
        dsimp only at heq
        omega
      · exact absurd (hsel.2.2.symm.trans hclear) (by simp)
    · rcases h.stop with heq | hclear
      · exact absurd hsel.2.1 (Nat.not_lt.mpr (Nat.le_of_eq heq.symm))
      · exact absurd (hsel.2.2.symm.trans hclear) (by simp)

theorem subregionsFrom_eq (mask : PageMask) {fuel offset : ℕ} (hfuel : region.outer - offset < fuel) :
    region.subregionsFrom (some mask) fuel (region.subregionBehind mask offset) =
      some ((runsFrom mask region.outer offset).map fun r => ⟨r.1, r.2⟩) := by
  induction fuel generalizing offset with
  | zero => omega
  | succ fuel ih =>
    have hle := findNextBit_le mask region.outer offset
    have hfirst : (region.subregionBehind mask offset).first = findNextBit mask region.outer offset := rfl
    rw [subregionsFrom, runsFrom, hfirst]
    by_cases hlt : findNextBit mask region.outer offset < region.outer
    · have hbegin : offset ≤ findNextBit mask region.outer offset :=
        le_findNextBit (lt_of_findNextBit_lt hlt).le
      have hend : findNextBit mask region.outer offset + 1 ≤
          findNextBit (fun p => !mask p) region.outer (findNextBit mask region.outer offset + 1) :=
        le_findNextBit hlt
      rw [if_pos (Nat.ne_of_lt hlt), if_pos hlt]
      rw [nextSubregionInMask, ih (by
        change _ - (findNextBit (fun p => !mask p) region.outer _ + 1) < _
        omega)]
      rfl
    · rw [if_neg (not_not.mpr (Nat.le_antisymm hle (Nat.not_lt.mp hlt))), if_neg hlt]
      rfl

/-- **The loop ends, and meets exactly the maximal runs of the mask in the region, in ascending
order and with pages between them.** -/
theorem subregionsInMask_right (region : BlockRegion) (hregion : region.first ≤ region.outer)
    (pageMask : Option PageMask) :
    ∃ l : List BlockRegion,
      (∀ fuel, region.outer - region.first + 1 < fuel →
        region.subregionsInMask pageMask fuel = some l) ∧
      (∀ r, r ∈ l ↔ region.Maximal pageMask r) ∧
      (l.Pairwise fun r t => r.outer < t.first) ∧
      ∀ p, (∃ r ∈ l, r.first ≤ p ∧ p < r.outer) ↔ region.Selects pageMask p := by
  cases pageMask with
  | none =>
    rcases Nat.eq_or_lt_of_le hregion with heq | hlt
    · refine ⟨[], fun fuel hfuel => ?_, fun r => ?_, .nil, fun p => ?_⟩
      · obtain ⟨n, rfl⟩ : ∃ n, fuel = n + 1 := ⟨fuel - 1, by omega⟩
        exact if_neg (not_not.mpr heq)
      · refine iff_of_false List.not_mem_nil fun h => ?_
        have hsel := h.selects r.first le_rfl h.nonempty
        exact absurd (lt_of_le_of_lt hsel.1 hsel.2.1) (heq ▸ lt_irrefl _)
      · refine iff_of_false (fun ⟨_, hr, _⟩ => List.not_mem_nil hr) fun h => ?_
        exact absurd (lt_of_le_of_lt h.1 h.2.1) (heq ▸ lt_irrefl _)
    · refine ⟨[region], fun fuel hfuel => ?_, fun r => ?_, List.pairwise_singleton _ _, fun p => ?_⟩
      · obtain ⟨n, rfl⟩ : ∃ n, fuel = n + 2 := ⟨fuel - 2, by omega⟩
        change subregionsFrom region none (n + 1 + 1) region = some [region]
        rw [subregionsFrom, if_pos (Nat.ne_of_lt hlt), subregionsFrom, nextSubregionInMask,
          if_neg (not_not.mpr rfl)]
        rfl
      · have hself : region.Maximal none region := by
          refine ⟨hlt, fun p hlo hhi => ⟨hlo, hhi, rfl⟩, fun hne hsel => ?_, fun hsel => ?_⟩
          · have := hsel.1
            omega
          · exact lt_irrefl _ hsel.2.1
        refine List.mem_singleton.trans ⟨fun heq => heq ▸ hself, fun h => ?_⟩
        have hrun := maximal_iff.mp h
        have heq := hrun.eq (maximal_iff.mp hself) hrun.lo (lt_of_lt_of_le hrun.nonempty hrun.hi)
        exact congrArg (fun t => (⟨t.1, t.2⟩ : BlockRegion)) heq
      · simp [Selects]
  | some mask =>
    obtain ⟨hruns, hsorted⟩ := runsFrom_spec mask region.outer region.first
    refine ⟨(runsFrom mask region.outer region.first).map fun r : ℕ × ℕ => (⟨r.1, r.2⟩ : BlockRegion),
      fun fuel hfuel => subregionsFrom_eq mask (Nat.lt_of_succ_lt hfuel), fun r => ?_,
      List.pairwise_map.mpr hsorted, fun p => ?_⟩
    · rw [maximal_iff, ← mem_runsFrom_iff, List.mem_map]
      constructor
      · rintro ⟨t, ht, rfl⟩
        exact ht
      · exact fun hr => ⟨_, hr, rfl⟩
    · constructor
      · rintro ⟨r, hr, hlo, hhi⟩
        obtain ⟨t, ht, rfl⟩ := List.mem_map.mp hr
        have hrun := hruns t ht
        exact ⟨hrun.lo.trans hlo, lt_of_lt_of_le hhi hrun.hi, hrun.set p hlo hhi⟩
      · rintro ⟨hlo, hhi, hset⟩
        obtain ⟨t, ht, hin⟩ := exists_run hhi hlo hset
        exact ⟨_, List.mem_map_of_mem ht, hin⟩

/-- Two runs of a mask, one of which the region cuts. -/
theorem subregionsInMask_right_two : ∃ l : List BlockRegion,
    ∀ r, r ∈ l ↔ Maximal ⟨2, 9⟩ (some fun p => p != 5) r := by
  obtain ⟨l, -, hmem, -⟩ := subregionsInMask_right ⟨2, 9⟩ (by decide) (some fun p => p != 5)
  exact ⟨l, hmem⟩

end BlockRegion

end NvUvm
