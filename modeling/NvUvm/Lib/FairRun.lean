import NvUvm.Lib.Run
import Mathlib.Data.Nat.Init

/-!
# Infinite runs and fairness

A run that goes on forever, as a sequence of operations, and the rule by which something that is
pending is done in the end: it stays pending until one particular operation is taken, and that
operation is taken again and again.
-/

namespace NvUvm.Lib

variable {σ ι : Type*} (step : σ → ι → σ)

/-- The states of the run that takes the operations of a sequence one after the other. -/
def states (s : σ) (ops : ℕ → ι) : ℕ → σ
  | 0 => s
  | n + 1 => step (states s ops n) (ops n)

variable {step} {s : σ} {ops : ℕ → ι} {I P Q : σ → Prop}

/-- **Invariant rule** for infinite runs. -/
theorem states_inv (h₀ : I s) (hstep : ∀ s op, I s → I (step s op)) (n : ℕ) :
    I (states step s ops n) := by
  induction n with
  | zero => exact h₀
  | succ n ih => exact hstep _ _ ih

theorem states_mono {R : σ → σ → Prop} (hrefl : ∀ s, R s s)
    (htrans : ∀ s t u, R s t → R t u → R s u)
    (hstep : ∀ s op, R s (step s op)) {n m : ℕ} (h : n ≤ m) :
    R (states step s ops n) (states step s ops m) := by
  induction m, h using Nat.le_induction with
  | base => exact hrefl _
  | succ m _ ih => exact htrans _ _ _ ih (hstep _ _)

/-- **What is pending is done in the end**, if a step that does not do it leaves it pending, one
operation does it, and that operation is taken later. -/
theorem eventually_of_taken (op : ι) (hI : ∀ n, I (states step s ops n))
    (hkeep : ∀ s op, I s → P s → P (step s op) ∨ Q (step s op))
    (hdo : ∀ s, I s → P s → Q (step s op)) {n : ℕ} (hP : P (states step s ops n))
    (htaken : ∃ m ≥ n, ops m = op) : ∃ m ≥ n, Q (states step s ops m) := by
  obtain ⟨m, hm, htaken⟩ := htaken
  have hpend : ∀ k, n ≤ k → P (states step s ops k) ∨ ∃ m ≥ n, Q (states step s ops m) := by
    intro k hk
    induction k, hk using Nat.le_induction with
    | base => exact .inl hP
    | succ k hk ih =>
      rcases ih with ih | ih
      · rcases hkeep _ (ops k) (hI k) ih with h | h
        · exact .inl h
        · exact .inr ⟨k + 1, by omega, h⟩
      · exact .inr ih
  rcases hpend m hm with h | h
  · exact ⟨m + 1, by omega, by rw [states, htaken]; exact hdo _ (hI m) h⟩
  · exact h

end NvUvm.Lib
