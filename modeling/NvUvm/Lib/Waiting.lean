import Mathlib.Data.Set.Basic
import Mathlib.Order.Nat

/-!
# Waiting in the order of a rank
-/

namespace NvUvm.Lib

/-- Where everyone waits for something of a higher rank than all that they hold, no set of them waits
for itself: the ranks are bounded. -/
theorem exists_unblocked {T L : Type*} (holds waits : T → L → Prop) (rank : L → ℕ) {bound : ℕ}
    (hbound : ∀ l, rank l < bound)
    (hlt : ∀ t l l', holds t l → waits t l' → rank l < rank l') {S : Set T} (hS : S.Nonempty) :
    ∃ t ∈ S, ∀ l, waits t l → ∀ u ∈ S, ¬ holds u l := by
  by_contra hall
  push Not at hall
  have hdeep : ∀ n, ∃ l, n ≤ rank l ∧ ∃ u ∈ S, holds u l := by
    intro n
    induction n with
    | zero =>
      obtain ⟨t, ht⟩ := hS
      obtain ⟨l, -, hheld⟩ := hall t ht
      exact ⟨l, Nat.zero_le _, hheld⟩
    | succ n ih =>
      obtain ⟨l, hle, u, hu, hheld⟩ := ih
      obtain ⟨l', hwaits, hheld'⟩ := hall u hu
      exact ⟨l', Nat.succ_le_of_lt (hle.trans_lt (hlt u l l' hheld hwaits)), hheld'⟩
  obtain ⟨l, hle, -⟩ := hdeep bound
  exact absurd (hbound l) (Nat.not_lt.mpr hle)

end NvUvm.Lib
