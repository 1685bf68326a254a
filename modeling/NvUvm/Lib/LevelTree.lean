import Mathlib.Algebra.Order.Ring.Nat
import Mathlib.Order.Interval.Finset.Nat

/-!
# A complete binary tree stored level by level

The tree over `2 ^ k` leaves lies in one array: the leaves first, then each level behind the one below it.
Node `e` of level `l` is above the leaves `i` with `i / 2 ^ l = e`.
-/

namespace NvUvm.Lib

variable {k l l' e e' : ℕ}

/-- Where level `l` of the tree over `2 ^ k` leaves begins. -/
def levelOffset (k l : ℕ) : ℕ := 2 ^ (k + 1) - 2 ^ (k + 1 - l)

theorem levelOffset_zero (k : ℕ) : levelOffset k 0 = 0 := Nat.sub_self _

theorem levelOffset_succ (hl : l ≤ k) : levelOffset k (l + 1) = levelOffset k l + 2 ^ (k - l) := by
  have hhalf : 2 ^ (k + 1 - l) = 2 * 2 ^ (k - l) := by
    rw [← Nat.pow_succ', Nat.succ_sub hl]
  have hle : 2 ^ (k + 1 - l) ≤ 2 ^ (k + 1) := Nat.pow_le_pow_right (by decide) (Nat.sub_le ..)
  unfold levelOffset
  rw [Nat.add_sub_add_right]
  omega

theorem levelOffset_mono (hle : l ≤ l') : levelOffset k l ≤ levelOffset k l' :=
  Nat.sub_le_sub_left (Nat.pow_le_pow_right (by decide) (Nat.sub_le_sub_left hle _)) _

theorem levelOffset_add_lt (hl : l ≤ k) (he : e < 2 ^ (k - l)) : levelOffset k l + e < 2 * 2 ^ k - 1 := by
  have hnext := levelOffset_succ hl
  have hpos : 0 < 2 ^ (k + 1 - (l + 1)) := Nat.two_pow_pos _
  unfold levelOffset at hnext ⊢
  omega

theorem levelOffset_add_inj (hl : l ≤ k) (hl' : l' ≤ k) (he : e < 2 ^ (k - l)) (he' : e' < 2 ^ (k - l')) :
    levelOffset k l + e = levelOffset k l' + e' ↔ l = l' ∧ e = e' := by
  constructor
  · intro heq
    rcases Nat.lt_trichotomy l l' with hlt | rfl | hgt
    · have := levelOffset_succ hl
      have hmono : levelOffset k (l + 1) ≤ levelOffset k l' := levelOffset_mono hlt
      omega
    · exact ⟨rfl, Nat.add_left_cancel heq⟩
    · have := levelOffset_succ hl'
      have hmono : levelOffset k (l' + 1) ≤ levelOffset k l := levelOffset_mono hgt
      omega
  · rintro ⟨rfl, rfl⟩
    rfl

theorem div_pow_lt {i : ℕ} (hi : i < 2 ^ k) (hl : l ≤ k) : i / 2 ^ l < 2 ^ (k - l) := by
  apply Nat.div_lt_of_lt_mul
  rwa [← Nat.pow_add, Nat.add_sub_cancel' hl]

/-- The marked ones of the leaves below node `e` of level `l`. -/
def leavesBelow (k : ℕ) (marked : ℕ → Bool) (l e : ℕ) : ℕ :=
  ((Finset.range (2 ^ k)).filter fun i => i / 2 ^ l = e ∧ marked i = true).card

theorem leavesBelow_le (k : ℕ) (marked : ℕ → Bool) (l e : ℕ) : leavesBelow k marked l e ≤ 2 ^ l := by
  have hsub : ((Finset.range (2 ^ k)).filter fun i => i / 2 ^ l = e ∧ marked i = true) ⊆
      Finset.Ico (e * 2 ^ l) (e * 2 ^ l + 2 ^ l) := by
    intro i hi
    obtain ⟨-, rfl, -⟩ := Finset.mem_filter.mp hi
    have hlow := Nat.div_mul_le_self i (2 ^ l)
    have hhigh := Nat.lt_div_mul_add (a := i) (Nat.two_pow_pos l)
    exact Finset.mem_Ico.mpr ⟨hlow, hhigh⟩
  have hcard := Finset.card_le_card hsub
  rwa [Nat.card_Ico, Nat.add_sub_cancel_left] at hcard

theorem leavesBelow_congr {a b : ℕ → Bool} (h : ∀ i < 2 ^ k, a i = b i) (l e : ℕ) :
    leavesBelow k a l e = leavesBelow k b l e := by
  apply congrArg Finset.card
  apply Finset.filter_congr
  intro i hi
  rw [h i (Finset.mem_range.mp hi)]

theorem leavesBelow_mark {a b : ℕ → Bool} {i : ℕ} (hi : i < 2 ^ k) (hclear : a i = false)
    (hset : b i = true) (hother : ∀ j, j ≠ i → b j = a j) (l e : ℕ) :
    leavesBelow k b l e = leavesBelow k a l e + if i / 2 ^ l = e then 1 else 0 := by
  unfold leavesBelow
  by_cases habove : i / 2 ^ l = e
  · rw [if_pos habove]
    have hnot : i ∉ (Finset.range (2 ^ k)).filter fun j => j / 2 ^ l = e ∧ a j = true := by
      simp [hclear]
    rw [← Finset.card_insert_of_notMem hnot]
    apply congrArg Finset.card
    ext j
    by_cases hj : j = i
    · simp [hj, hi, habove, hset]
    · simp [hj, hother j hj]
  · rw [if_neg habove, Nat.add_zero]
    apply congrArg Finset.card
    apply Finset.filter_congr
    intro j _
    by_cases hj : j = i
    · simp [hj, habove]
    · rw [hother j hj]

end NvUvm.Lib
