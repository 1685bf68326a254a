import Mathlib.Data.Nat.ModEq
import NvUvm.Lib.Ring

/-!
# The end of a log in a ring of slots

A log of which the last entries lie in `n` slots: entry number `i` is in slot `(base + i) % n`, and
the entries from some number on are there.
-/

namespace NvUvm.Lib.RingLog

variable {α : Type*} {n base lo hi i j : ℕ} {slots : ℕ → Option α} {log : List α}

/-- The slot of entry number `i`. -/
def slot (n base i : ℕ) : ℕ := (base + i) % n

/-- The slots hold the entries of the log from number `lo` on. -/
def Holds (n base : ℕ) (slots : ℕ → Option α) (log : List α) (lo : ℕ) : Prop :=
  ∀ i, lo ≤ i → ∀ h : i < log.length, slots (slot n base i) = some log[i]

theorem slot_lt (hn : 0 < n) : slot n base i < n := Nat.mod_lt _ hn

theorem slot_ne (hlt : i < j) (hroom : j - i < n) : slot n base i ≠ slot n base j := by
  intro heq
  have hdvd : n ∣ base + j - (base + i) := (Nat.modEq_iff_dvd' (by omega)).mp heq
  have := Nat.le_of_dvd (by omega) hdvd
  omega

theorem Holds.mono (h : Holds n base slots log lo) (hle : lo ≤ hi) : Holds n base slots log hi :=
  fun i hi' hlt => h i (hle.trans hi') hlt

/-- **The slot behind the last entry may be written**, as long as it is not that of the first. -/
theorem Holds.write (h : Holds n base slots log lo) (hroom : log.length - lo < n)
    (value : Option α) :
    Holds n base (Function.update slots (slot n base log.length) value) log lo := by
  intro i hlo hlt
  have hne : slot n base i ≠ slot n base log.length := slot_ne hlt (by omega)
  rw [Function.update_of_ne hne]
  exact h i hlo hlt

/-- **The next entry** of the log is the one in the slot behind the last. -/
theorem Holds.append (h : Holds n base slots log lo) {entry : α}
    (hnew : slots (slot n base log.length) = some entry) :
    Holds n base slots (log ++ [entry]) lo := by
  intro i hlo hlt
  rw [List.length_append, List.length_singleton] at hlt
  rcases Nat.lt_succ_iff_lt_or_eq.mp hlt with hlt | rfl
  · rw [List.getElem_append_left hlt]
    exact h i hlo hlt
  · rw [List.getElem_concat_length rfl]
    exact hnew

theorem slot_distance (hle : lo ≤ hi) (hroom : hi - lo < n) :
    (slot n base hi + (n - slot n base lo)) % n = hi - lo := by
  have hlt : slot n base lo < n := slot_lt (by omega)
  have hmod : slot n base hi + (n - slot n base lo) ≡ hi - lo [MOD n] := by
    apply Nat.ModEq.add_right_cancel' (slot n base lo)
    have hleft : slot n base hi + (n - slot n base lo) + slot n base lo = slot n base hi + n := by
      omega
    rw [hleft]
    calc slot n base hi + n ≡ slot n base hi [MOD n] := Nat.add_modEq_right
      _ ≡ base + hi [MOD n] := Nat.mod_modEq _ _
      _ = hi - lo + (base + lo) := by omega
      _ ≡ hi - lo + slot n base lo [MOD n] := (Nat.mod_modEq _ _).symm.add_left _
  rw [hmod, Nat.mod_eq_of_lt hroom]

variable (base) in
theorem slot_room (hle : lo ≤ hi) (hroom : hi - lo < n) :
    (slot n base lo + (n - slot n base hi)) % n = (n - (hi - lo)) % n := by
  have hlt : slot n base hi < n := slot_lt (by omega)
  apply Nat.ModEq.add_right_cancel' (slot n base hi)
  have hleft : slot n base lo + (n - slot n base hi) + slot n base hi = slot n base lo + n := by
    omega
  rw [hleft]
  calc slot n base lo + n ≡ slot n base lo [MOD n] := Nat.add_modEq_right
    _ ≡ base + lo [MOD n] := Nat.mod_modEq _ _
    _ ≡ base + lo + n [MOD n] := Nat.add_modEq_right.symm
    _ = n - (hi - lo) + (base + hi) := by omega
    _ ≡ n - (hi - lo) + slot n base hi [MOD n] := (Nat.mod_modEq _ _).symm.add_left _

/-! ## Slots as indices of a ring -/

theorem slot_zero (hbase : base < n) : slot n base 0 = base := Nat.mod_eq_of_lt hbase

theorem slot_add_size : slot n base (i + n) = slot n base i := by
  unfold slot
  rw [← Nat.add_assoc, Nat.add_mod_right]

theorem next_slot : Ring.next n (slot n base i) = slot n base (i + 1) := by
  unfold Ring.next slot
  rw [Nat.mod_add_mod, Nat.add_assoc]

theorem slot_dist (hbase : base < n) (hi : i < n) : slot n base (Ring.dist n base i) = i := by
  unfold slot Ring.dist
  split
  · rw [Nat.add_sub_cancel' (by omega), Nat.mod_eq_of_lt hi]
  · have hturn : base + (n - base + i) = i + n := by omega
    rw [hturn, Nat.add_mod_right, Nat.mod_eq_of_lt hi]

theorem dist_slot (hle : lo ≤ hi) (hroom : hi - lo < n) :
    Ring.dist n (slot n base lo) (slot n base hi) = hi - lo := by
  have hhi : slot n base hi < n := slot_lt (by omega)
  have hdistance : (slot n base hi + (n - slot n base lo)) % n = hi - lo :=
    slot_distance hle hroom
  rw [← hdistance]
  unfold Ring.dist
  split
  · next hcase =>
    have hturn : slot n base hi + (n - slot n base lo) = slot n base hi - slot n base lo + n := by
      omega
    rw [hturn, Nat.add_mod_right, Nat.mod_eq_of_lt (by omega)]
  · rw [Nat.mod_eq_of_lt (by omega)]
    omega

end NvUvm.Lib.RingLog
