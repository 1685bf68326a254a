import Mathlib.Algebra.BigOperators.Group.List.Basic
import Mathlib.Algebra.Ring.Nat
import Mathlib.Data.Set.Function

/-!
# References held by a list of holders

Each holder holds a number of references to each key; a count is right when it is the sum of what
all holders hold.
-/

namespace NvUvm.Lib

variable {η κ : Type*} (refs : η → κ → ℕ)

/-- The references to a key held by a list of holders. -/
def held (holders : List η) (k : κ) : ℕ := (holders.map (refs · k)).sum

@[simp] theorem held_nil (k : κ) : held refs [] k = 0 := rfl

@[simp] theorem held_cons (h : η) (holders : List η) (k : κ) :
    held refs (h :: holders) k = refs h k + held refs holders k := by
  simp [held]

@[simp] theorem held_append (holders holders' : List η) (k : κ) :
    held refs (holders ++ holders') k = held refs holders k + held refs holders' k := by
  simp [held]

theorem held_concat (holders : List η) (h : η) (k : κ) :
    held refs (holders ++ [h]) k = held refs holders k + refs h k := by
  simp

variable {holders : List η} {k : κ}

/-- **One holder changes**: the sum changes by what it takes and drops. -/
theorem held_set {i : ℕ} {h : η} (hi : holders[i]? = some h) (h' : η) (k : κ) :
    held refs (holders.set i h') k + refs h k = held refs holders k + refs h' k := by
  induction holders generalizing i with
  | nil => simp at hi
  | cons first rest ih =>
    cases i with
    | zero =>
      obtain rfl : first = h := by simpa using hi
      simp only [List.set_cons_zero, held_cons]
      omega
    | succ i =>
      have hrest := ih (by simpa using hi)
      simp only [List.set_cons_succ, held_cons]
      omega

theorem le_held {h : η} (hmem : h ∈ holders) (k : κ) : refs h k ≤ held refs holders k := by
  induction hmem with
  | head rest => simp
  | tail first _ ih =>
    rw [held_cons]
    omega

theorem add_le_held {i j : ℕ} {a b : η} (hi : holders[i]? = some a) (hj : holders[j]? = some b)
    (hne : i ≠ j) (k : κ) : refs a k + refs b k ≤ held refs holders k := by
  induction holders generalizing i j with
  | nil => simp at hi
  | cons first rest ih =>
    rw [held_cons]
    cases i with
    | zero =>
      obtain rfl : first = a := by simpa using hi
      cases j with
      | zero => exact absurd rfl hne
      | succ j =>
        have hmem : b ∈ rest := List.mem_of_getElem? (by simpa using hj)
        exact Nat.add_le_add_left (le_held refs hmem k) _
    | succ i =>
      cases j with
      | zero =>
        obtain rfl : first = b := by simpa using hj
        have hmem : a ∈ rest := List.mem_of_getElem? (by simpa using hi)
        rw [Nat.add_comm]
        exact Nat.add_le_add_left (le_held refs hmem k) _
      | succ j =>
        have hrest := ih (by simpa using hi) (by simpa using hj) fun h => hne (congrArg _ h)
        omega

theorem held_eq_zero (h : ∀ x ∈ holders, refs x k = 0) : held refs holders k = 0 := by
  induction holders with
  | nil => rfl
  | cons first rest ih =>
    rw [held_cons, h first List.mem_cons_self, ih fun x hx => h x (List.mem_cons_of_mem _ hx)]

theorem held_congr {refs' : η → κ → ℕ} (h : ∀ x ∈ holders, refs' x k = refs x k) :
    held refs' holders k = held refs holders k := by
  induction holders with
  | nil => rfl
  | cons first rest ih =>
    rw [held_cons, held_cons, h first List.mem_cons_self,
      ih fun x hx => h x (List.mem_cons_of_mem _ hx)]

/-- **One of the holders holds something else**: the sum changes by that. -/
theorem held_change (refs' : η → κ → ℕ) (hnd : holders.Nodup) {h : η} (hmem : h ∈ holders)
    (hother : ∀ x ∈ holders, x ≠ h → refs' x k = refs x k) :
    held refs' holders k + refs h k = held refs holders k + refs' h k := by
  induction holders with
  | nil => cases hmem
  | cons first rest ih =>
    obtain ⟨hfirst, hrest⟩ := List.nodup_cons.mp hnd
    rw [held_cons, held_cons]
    rcases List.mem_cons.mp hmem with rfl | hmem
    · have hsame : held refs' rest k = held refs rest k := by
        refine held_congr refs fun x hx => hother x (List.mem_cons_of_mem _ hx) ?_
        exact fun heq => hfirst (heq ▸ hx)
      omega
    · have hne : first ≠ h := fun heq => hfirst (heq ▸ hmem)
      have hsum := ih hrest hmem fun x hx => hother x (List.mem_cons_of_mem _ hx)
      have hhead := hother first List.mem_cons_self hne
      omega

theorem held_of_bool {p : η → Bool} (h : ∀ x ∈ holders, refs x k = if p x then 1 else 0) :
    held refs holders k = holders.countP p := by
  induction holders with
  | nil => rfl
  | cons first rest ih =>
    rw [held_cons, List.countP_cons, h first List.mem_cons_self,
      ih fun x hx => h x (List.mem_cons_of_mem _ hx), Nat.add_comm]

theorem exists_of_held_pos (h : 0 < held refs holders k) : ∃ x ∈ holders, 0 < refs x k := by
  by_contra hnone
  have hzero : held refs holders k = 0 := by
    refine held_eq_zero refs fun x hx => ?_
    by_contra hx'
    exact hnone ⟨x, hx, Nat.pos_of_ne_zero hx'⟩
  omega

end NvUvm.Lib
