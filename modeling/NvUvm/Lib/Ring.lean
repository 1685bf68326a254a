import Mathlib.Tactic.Common

/-!
# Index arithmetic of a ring

A ring of `n` slots between a get and a put index, each of which moves by one slot at a time.
-/

namespace NvUvm.Lib.Ring

/-- The slot after slot `i`. -/
def next (n i : ℕ) : ℕ := (i + 1) % n

/-- The number of slots from slot `get` up to slot `i`. -/
def dist (n get i : ℕ) : ℕ := if get ≤ i then i - get else n - get + i

/-- Slot `i` lies between `get` and `put`. -/
def InRing (n get put i : ℕ) : Prop := i < n ∧ dist n get i < dist n get put

variable {n get put i j : ℕ}

theorem next_eq (h : i < n) : next n i = if i + 1 = n then 0 else i + 1 := by
  unfold next
  split
  · next hlast => rw [hlast, Nat.mod_self]
  · exact Nat.mod_eq_of_lt (by omega)

theorem next_lt (h : i < n) : next n i < n := Nat.mod_lt _ (by omega)

@[simp] theorem dist_self : dist n get get = 0 := by simp [dist]

theorem dist_lt (hget : get < n) (hi : i < n) : dist n get i < n := by
  unfold dist
  split <;> omega

theorem dist_eq_zero_iff (hget : get < n) : dist n get i = 0 ↔ i = get := by
  unfold dist
  split <;> omega

theorem dist_injective (hi : i < n) (hj : j < n) (hget : get < n)
    (h : dist n get i = dist n get j) : i = j := by
  unfold dist at h
  split at h <;> split at h <;> omega

theorem dist_next_put (hget : get < n) (hput : put < n) (hroom : dist n get put + 1 < n) :
    dist n get (next n put) = dist n get put + 1 := by
  rw [next_eq hput]
  unfold dist at hroom ⊢
  split at hroom <;> split <;> split <;> omega

theorem dist_next_get (hget : get < n) (hi : i < n) (hne : i ≠ get) :
    dist n (next n get) i + 1 = dist n get i := by
  rw [next_eq hget]
  unfold dist
  split <;> split <;> split <;> omega

/-- A put index that can advance by `k + 1` slots without meeting the get index: if `k` slots fit,
so do `k + 1`. -/
theorem room_of_ne {k : ℕ} (hget : get < n) (hroom : dist n get put + k < n)
    (hne : (put + k + 1) % n ≠ get) : dist n get put + (k + 1) < n := by
  by_contra hfull
  apply hne
  unfold dist at hroom hfull
  by_cases hle : get ≤ put
  · rw [if_pos hle] at hroom hfull
    have hwrap : put + k + 1 = get + n := by omega
    rw [hwrap, Nat.add_mod_right, Nat.mod_eq_of_lt hget]
  · rw [if_neg hle] at hroom hfull
    have hwrap : put + k + 1 = get := by omega
    rw [hwrap, Nat.mod_eq_of_lt hget]

theorem dist_next_get_self (hget : get < n) : dist n (next n get) get = n - 1 := by
  rw [next_eq hget]
  unfold dist
  split <;> split <;> omega

theorem inRing_next_put (hget : get < n) (hput : put < n) (hroom : dist n get put + 1 < n) :
    InRing n get (next n put) i ↔ InRing n get put i ∨ i = put := by
  unfold InRing
  rw [dist_next_put hget hput hroom]
  constructor
  · rintro ⟨hi, hlt⟩
    by_cases heq : dist n get i = dist n get put
    · exact .inr (dist_injective hi hput hget heq)
    · exact .inl ⟨hi, by omega⟩
  · rintro (⟨hi, hlt⟩ | rfl)
    · exact ⟨hi, by omega⟩
    · exact ⟨hput, by omega⟩

theorem not_inRing_put : ¬ InRing n get put put := fun h => absurd h.2 (Nat.lt_irrefl _)

theorem inRing_get (hget : get < n) (hne : get ≠ put) : InRing n get put get := by
  refine ⟨hget, ?_⟩
  rw [dist_self]
  exact Nat.pos_of_ne_zero fun h => hne ((dist_eq_zero_iff hget).mp h).symm

theorem inRing_next_get (hget : get < n) (hput : put < n) (hne : get ≠ put) :
    InRing n (next n get) put i ↔ InRing n get put i ∧ i ≠ get := by
  have hdist := dist_next_get hget hput hne.symm
  constructor
  · rintro ⟨hi, hlt⟩
    have hi' : i ≠ get := by
      rintro rfl
      -- seen from the next slot, the slot left behind is the last one
      have := dist_lt (next_lt hget) hput
      rw [dist_next_get_self hget] at hlt
      omega
    have := dist_next_get hget hi hi'
    exact ⟨⟨hi, by omega⟩, hi'⟩
  · rintro ⟨⟨hi, hlt⟩, hi'⟩
    have := dist_next_get hget hi hi'
    exact ⟨hi, by omega⟩

theorem exists_inRing {d : ℕ} (hget : get < n) (hput : put < n) (hd : d < dist n get put) :
    ∃ i, InRing n get put i ∧ dist n get i = d := by
  have hlt := dist_lt hget hput
  have hi : dist n get (if get + d < n then get + d else get + d - n) = d := by
    unfold dist
    split <;> split <;> omega
  exact ⟨_, ⟨by split <;> omega, by omega⟩, hi⟩

end NvUvm.Lib.Ring
