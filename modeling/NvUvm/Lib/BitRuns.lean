import Mathlib.Algebra.Order.Ring.Nat
import Mathlib.Data.List.Basic

/-!
# The runs of a bitmap

A bitmap is walked run by run: from the next bit that is set up to the next one that is clear, and on
behind that.
-/

namespace NvUvm.Lib

/-- The first set bit of `mask` from `offset` on, or `size` if there is none below it. -/
def findNextBit (mask : ℕ → Bool) (size offset : ℕ) : ℕ :=
  ((List.range' offset (size - offset)).find? mask).getD size

variable {mask : ℕ → Bool} {size offset p : ℕ}

theorem findNextBit_le (mask : ℕ → Bool) (size offset : ℕ) : findNextBit mask size offset ≤ size := by
  unfold findNextBit
  cases hfind : (List.range' offset (size - offset)).find? mask with
  | none => exact le_rfl
  | some q =>
    have := List.mem_range'_1.mp (List.mem_of_find?_eq_some hfind)
    show q ≤ size
    omega

theorem le_findNextBit (h : offset ≤ size) : offset ≤ findNextBit mask size offset := by
  unfold findNextBit
  cases hfind : (List.range' offset (size - offset)).find? mask with
  | none => exact h
  | some q => exact (List.mem_range'_1.mp (List.mem_of_find?_eq_some hfind)).1

theorem lt_of_findNextBit_lt (h : findNextBit mask size offset < size) : offset < size := by
  by_contra hc
  have hnone : findNextBit mask size offset = size := by
    unfold findNextBit
    rw [Nat.sub_eq_zero_of_le (Nat.le_of_not_lt hc)]
    rfl
  omega

theorem findNextBit_set (h : findNextBit mask size offset < size) :
    mask (findNextBit mask size offset) = true := by
  unfold findNextBit at h ⊢
  cases hfind : (List.range' offset (size - offset)).find? mask with
  | none =>
    rw [hfind] at h
    exact absurd h (lt_irrefl size)
  | some q => exact List.find?_some hfind

theorem eq_false_of_lt_findNextBit (hle : offset ≤ p) (hlt : p < findNextBit mask size offset) :
    mask p = false := by
  have hsize := lt_of_lt_of_le hlt (findNextBit_le mask size offset)
  unfold findNextBit at hlt
  cases hfind : (List.range' offset (size - offset)).find? mask with
  | none =>
    have := List.find?_eq_none.mp hfind p (List.mem_range'_1.mpr ⟨hle, by omega⟩)
    simpa using this
  | some q =>
    rw [hfind] at hlt
    have := (List.find?_range'_eq_some.mp hfind).2.2 p hle hlt
    simpa using this

/-- The runs of `mask` from `offset` on.  The bit behind a run is clear, and the walk goes on behind
that. -/
def runsFrom (mask : ℕ → Bool) (size offset : ℕ) : List (ℕ × ℕ) :=
  let first := findNextBit mask size offset
  if first < size then
    let outer := findNextBit (fun p => !mask p) size (first + 1)
    (first, outer) :: runsFrom mask size (outer + 1)
  else []
termination_by size - offset
decreasing_by
  have hlt : findNextBit mask size offset < size := by assumption
  have hfirst : offset ≤ findNextBit mask size offset :=
    le_findNextBit (lt_of_findNextBit_lt hlt).le
  have houter : findNextBit mask size offset + 1 ≤
      findNextBit (fun p => !mask p) size (findNextBit mask size offset + 1) := le_findNextBit hlt
  omega

/-- **The runs partition the bits that are set.** -/
theorem runsFrom_countP (mask : ℕ → Bool) (hp : p < size) (offset : ℕ) :
    (runsFrom mask size offset).countP (fun r => decide (r.1 ≤ p) && decide (p < r.2)) =
      (decide (offset ≤ p) && mask p).toNat := by
  -- from the end of the bitmap: the walk behind a run starts further on
  induction hrest : size - offset using Nat.strong_induction_on generalizing offset with
  | _ rest ih =>
    rw [runsFrom]
    dsimp only
    by_cases hlt : findNextBit mask size offset < size
    · have hfirst : offset ≤ findNextBit mask size offset :=
        le_findNextBit (lt_of_findNextBit_lt hlt).le
      have houter : findNextBit mask size offset + 1 ≤
          findNextBit (fun p => !mask p) size (findNextBit mask size offset + 1) := le_findNextBit hlt
      have hset := findNextBit_set hlt
      rw [if_pos hlt, List.countP_cons, ih _ (by omega) _ rfl]
      generalize hfirstDef : findNextBit mask size offset = first at hlt hfirst houter hset ⊢
      generalize houterDef : findNextBit (fun p => !mask p) size (first + 1) = outer at houter ⊢
      rcases Nat.lt_or_ge p first with hbefore | hbehind
      · have hclear : offset ≤ p → mask p = false := fun hle =>
          eq_false_of_lt_findNextBit hle (hfirstDef ▸ hbefore)
        have hout : (decide (offset ≤ p) && mask p) = false := by simpa using hclear
        rw [hout, decide_eq_false (by omega : ¬ outer + 1 ≤ p),
          decide_eq_false (by omega : ¬ first ≤ p)]
        rfl
      · rw [decide_eq_true hbehind, decide_eq_true (by omega : offset ≤ p), Bool.true_and,
          Bool.true_and]
        rcases Nat.lt_or_ge p outer with hin | hafter
        · -- in the run
          have hbit : mask p = true := by
            rcases Nat.eq_or_lt_of_le hbehind with rfl | hgt
            · exact hset
            · have hclear : (!mask p) = false :=
                @eq_false_of_lt_findNextBit (fun p => !mask p) _ _ _ (Nat.succ_le_of_lt hgt)
                  (houterDef ▸ hin)
              simpa using hclear
          rw [hbit, decide_eq_true hin, decide_eq_false (by omega : ¬ outer + 1 ≤ p)]
          rfl
        · rw [decide_eq_false (by omega : ¬ p < outer)]
          rcases Nat.eq_or_lt_of_le hafter with rfl | hgt
          · -- the clear bit behind the run
            have hclear : mask outer = false := by
              have := @findNextBit_set (fun p => !mask p) _ _ (by rw [houterDef]; exact hp)
              rw [houterDef] at this
              simpa using this
            rw [hclear, Bool.and_false]
            rfl
          · rw [decide_eq_true (by omega : outer + 1 ≤ p), Bool.true_and]
            rfl
    · rw [if_neg hlt]
      by_cases hle : offset ≤ p
      · have hclear := eq_false_of_lt_findNextBit hle (by omega : p < findNextBit mask size offset)
        rw [hclear, Bool.and_false]
        rfl
      · rw [decide_eq_false hle]
        rfl

/-! ## Maximal runs -/

/-- A run of bits that are set in `[offset, size)`, which cannot be made longer. -/
structure IsRun (mask : ℕ → Bool) (size offset : ℕ) (r : ℕ × ℕ) : Prop where
  lo : offset ≤ r.1
  nonempty : r.1 < r.2
  hi : r.2 ≤ size
  set : ∀ p, r.1 ≤ p → p < r.2 → mask p = true
  start : r.1 = offset ∨ mask (r.1 - 1) = false
  stop : r.2 = size ∨ mask r.2 = false

theorem IsRun.eq {r t : ℕ × ℕ} (hr : IsRun mask size offset r) (ht : IsRun mask size offset t)
    (hlo : t.1 ≤ r.1) (hhi : r.1 < t.2) : r = t := by
  refine Prod.ext (Nat.le_antisymm (Nat.le_of_not_lt fun hlt => ?_) hlo)
    (Nat.le_antisymm (Nat.le_of_not_lt fun hlt => ?_) (Nat.le_of_not_lt fun hlt => ?_))
  · have hset := ht.set (r.1 - 1) (by omega) (by omega)
    rcases hr.start with heq | hclear
    · have := ht.lo
      omega
    · rw [hclear] at hset
      cases hset
  · have hset := hr.set t.2 (by omega) hlt
    rcases ht.stop with heq | hclear
    · have := hr.hi
      omega
    · rw [hclear] at hset
      cases hset
  · have hset := ht.set r.2 (hlo.trans hr.nonempty.le) hlt
    rcases hr.stop with heq | hclear
    · have := ht.hi
      omega
    · rw [hclear] at hset
      cases hset

theorem runsFrom_spec (mask : ℕ → Bool) (size offset : ℕ) :
    (∀ r ∈ runsFrom mask size offset, IsRun mask size offset r) ∧
      (runsFrom mask size offset).Pairwise fun r t => r.2 < t.1 := by
  induction hrest : size - offset using Nat.strong_induction_on generalizing offset with
  | _ rest ih =>
    rw [runsFrom]
    dsimp only
    by_cases hlt : findNextBit mask size offset < size
    · have hfirst : offset ≤ findNextBit mask size offset :=
        le_findNextBit (lt_of_findNextBit_lt hlt).le
      have houter : findNextBit mask size offset + 1 ≤
          findNextBit (fun p => !mask p) size (findNextBit mask size offset + 1) := le_findNextBit hlt
      have hset := findNextBit_set hlt
      have hle := findNextBit_le (fun p => !mask p) size (findNextBit mask size offset + 1)
      have hbefore : ∀ p, offset ≤ p → p < findNextBit mask size offset → mask p = false :=
        fun p => eq_false_of_lt_findNextBit
      have hrun : ∀ p, findNextBit mask size offset + 1 ≤ p →
          p < findNextBit (fun p => !mask p) size (findNextBit mask size offset + 1) →
            (!mask p) = false := fun p => eq_false_of_lt_findNextBit
      have hbehind : findNextBit (fun p => !mask p) size (findNextBit mask size offset + 1) < size →
          (!mask (findNextBit (fun p => !mask p) size (findNextBit mask size offset + 1))) = true :=
        findNextBit_set
      rw [if_pos hlt]
      generalize findNextBit mask size offset = first at hlt hfirst houter hset hle hbefore hrun hbehind ⊢
      generalize findNextBit (fun p => !mask p) size (first + 1) = outer at houter hle hrun hbehind ⊢
      obtain ⟨hruns, hsorted⟩ := ih _ (by omega) (outer + 1) rfl
      refine ⟨List.forall_mem_cons.mpr ⟨⟨hfirst, houter, hle, fun p hlo hhi => ?_, ?_, ?_⟩,
        fun r hr => ?_⟩, List.pairwise_cons.mpr ⟨fun r hr => (hruns r hr).lo, hsorted⟩⟩
      · rcases Nat.eq_or_lt_of_le hlo with rfl | hgt
        · exact hset
        · simpa using hrun p hgt hhi
      · rcases Nat.eq_or_lt_of_le hfirst with heq | hgt
        · exact .inl heq.symm
        · exact .inr (hbefore _ (by omega) (by omega))
      · rcases Nat.eq_or_lt_of_le hle with heq | hgt
        · exact .inl heq
        · exact .inr (by simpa using hbehind hgt)
      · obtain ⟨hlo, hne, hhi, hbits, hstart, hstop⟩ := hruns r hr
        refine ⟨by omega, hne, hhi, hbits, .inr ?_, hstop⟩
        rcases hstart with heq | hclear
        · -- the bit behind the run before is clear
          rw [heq, Nat.add_sub_cancel]
          simpa using hbehind (by omega)
        · exact hclear
    · rw [if_neg hlt]
      exact ⟨fun r hr => absurd hr List.not_mem_nil, .nil⟩

theorem exists_run (hp : p < size) (hle : offset ≤ p) (hset : mask p = true) :
    ∃ r ∈ runsFrom mask size offset, r.1 ≤ p ∧ p < r.2 := by
  have hcnt := runsFrom_countP mask hp offset
  rw [hset, decide_eq_true hle] at hcnt
  obtain ⟨r, hr, hin⟩ := List.countP_pos_iff.mp (by
    rw [hcnt]
    exact Nat.one_pos)
  simp only [Bool.and_eq_true, decide_eq_true_iff] at hin
  exact ⟨r, hr, hin⟩

/-- **The runs are the maximal ones.** -/
theorem mem_runsFrom_iff {r : ℕ × ℕ} :
    r ∈ runsFrom mask size offset ↔ IsRun mask size offset r := by
  obtain ⟨hruns, -⟩ := runsFrom_spec mask size offset
  refine ⟨hruns r, fun hr => ?_⟩
  obtain ⟨t, ht, hlo, hhi⟩ := exists_run (lt_of_lt_of_le hr.nonempty hr.hi) hr.lo
    (hr.set r.1 le_rfl hr.nonempty)
  rwa [hr.eq (hruns t ht) hlo hhi]

end NvUvm.Lib
