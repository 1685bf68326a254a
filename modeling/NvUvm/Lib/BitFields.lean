import Mathlib.Data.List.Induction
import Mathlib.Data.Nat.Bitwise

/-!
# Fields of bits in a word

A word is packed by or-ing shifted values, and read back by shift and mask.
-/

namespace NvUvm.Lib

/-- The bits `low`, …, `low + width - 1` of a word. -/
structure BitField where
  low : ℕ
  width : ℕ

namespace BitField

/-- The value, cut to the field's width, at its place. -/
def num (f : BitField) (v : ℕ) : ℕ := (v % 2 ^ f.width) <<< f.low

def get (f : BitField) (x : ℕ) : ℕ := (x >>> f.low) % 2 ^ f.width

def Disjoint (f g : BitField) : Prop := f.low + f.width ≤ g.low ∨ g.low + g.width ≤ f.low

instance (f g : BitField) : Decidable (f.Disjoint g) := inferInstanceAs (Decidable (_ ∨ _))

/-- The values of the fields, or-ed one after the other. -/
def pack (values : List (BitField × ℕ)) : ℕ := values.foldl (fun x fv => x ||| fv.1.num fv.2) 0

variable {f g : BitField} {v x y : ℕ}

/-! ## One value -/

theorem testBit_num (f : BitField) (v i : ℕ) : (f.num v).testBit i =
    (decide (f.low ≤ i) && decide (i < f.low + f.width) && v.testBit (i - f.low)) := by
  unfold num
  by_cases hlow : f.low ≤ i
  · have hwidth : i - f.low < f.width ↔ i < f.low + f.width := by omega
    simp [hlow, hwidth]
  · simp [hlow]

theorem testBit_get (f : BitField) (x i : ℕ) :
    (f.get x).testBit i = (decide (i < f.width) && x.testBit (f.low + i)) := by
  unfold get
  rw [Nat.testBit_mod_two_pow, Nat.testBit_shiftRight]

@[simp]
theorem get_zero (f : BitField) : f.get 0 = 0 := by
  simp [get]

@[simp]
theorem num_zero (f : BitField) : f.num 0 = 0 := by
  simp [num]

@[simp]
theorem get_or (f : BitField) (x y : ℕ) : f.get (x ||| y) = f.get x ||| f.get y := by
  apply Nat.eq_of_testBit_eq
  intro i
  rw [Nat.testBit_or, testBit_get, testBit_get, testBit_get, Nat.testBit_or]
  exact Bool.and_or_distrib_left ..

@[simp]
theorem get_num (f : BitField) (v : ℕ) : f.get (f.num v) = v % 2 ^ f.width := by
  unfold get num
  rw [Nat.shiftLeft_shiftRight, Nat.mod_mod]

theorem get_num_of_disjoint (h : f.Disjoint g) (v : ℕ) : f.get (g.num v) = 0 := by
  apply Nat.eq_of_testBit_eq
  intro i
  rw [testBit_get, testBit_num, Nat.zero_testBit]
  by_cases hi : i < f.width
  · have hout : ¬ (g.low ≤ f.low + i ∧ f.low + i < g.low + g.width) := by
      unfold Disjoint at h
      omega
    rw [← Bool.decide_and, decide_eq_false hout, Bool.false_and, Bool.and_false]
  · rw [decide_eq_false hi, Bool.false_and]

theorem num_lt {n : ℕ} (hfits : f.low + f.width ≤ n) (v : ℕ) : f.num v < 2 ^ n := by
  apply Nat.lt_pow_two_of_testBit
  intro i hi
  rw [testBit_num, decide_eq_false (by omega : ¬ i < f.low + f.width), Bool.and_false, Bool.false_and]

/-! ## Packed words -/

@[simp]

theorem pack_concat (values : List (BitField × ℕ)) (f : BitField) (v : ℕ) :
    pack (values ++ [(f, v)]) = pack values ||| f.num v := by
  unfold pack
  rw [List.foldl_append]
  rfl

theorem pack_lt {n : ℕ} {values : List (BitField × ℕ)}
    (hfits : ∀ fv ∈ values, fv.1.low + fv.1.width ≤ n) : pack values < 2 ^ n := by
  induction values using List.reverseRecOn with
  | nil => exact Nat.two_pow_pos n
  | append_singleton values last ih =>
    rw [pack_concat]
    apply Nat.or_lt_two_pow
    · exact ih fun fv hfv => hfits fv (List.mem_append_left _ hfv)
    · exact num_lt (hfits last (List.mem_append_right _ List.mem_cons_self)) _

end BitField

end NvUvm.Lib
