import Mathlib.Algebra.Order.Ring.Nat

/-!
# Rounding up to an alignment
-/

namespace NvUvm.Lib

/-- The least multiple of `a` from `n` on. -/
def ceilTo (a n : ℕ) : ℕ := (n + a - 1) / a * a

variable {a n m : ℕ}

theorem le_ceilTo (ha : 0 < a) (n : ℕ) : n ≤ ceilTo a n := by
  have hdiv := Nat.div_add_mod (n + a - 1) a
  have hmod := Nat.mod_lt (n + a - 1) ha
  unfold ceilTo
  rw [Nat.mul_comm]
  omega

theorem dvd_ceilTo (a n : ℕ) : a ∣ ceilTo a n := Nat.dvd_mul_left ..

theorem ceilTo_add (ha : 0 < a) (hdvd : a ∣ m) (n : ℕ) : ceilTo a (m + n) = m + ceilTo a n := by
  obtain ⟨k, rfl⟩ := hdvd
  unfold ceilTo
  rw [show a * k + n + a - 1 = n + a - 1 + a * k by omega, Nat.add_mul_div_left _ _ ha, Nat.add_mul,
    Nat.mul_comm k a, Nat.add_comm]

end NvUvm.Lib
