import Mathlib.Data.List.Induction

/-!
# Runs of a system that takes one operation after another

A system with a step function: an operation, with whatever outcomes it meets as part of it,
takes a state to the next.  A run is a list of operations.
-/

namespace NvUvm.Lib

variable {σ ι : Type*} (step : σ → ι → σ)

def run (s : σ) (ops : List ι) : σ := ops.foldl step s

@[simp] theorem run_nil (s : σ) : run step s [] = s := rfl

theorem run_concat (s : σ) (ops : List ι) (op : ι) :
    run step s (ops ++ [op]) = step (run step s ops) op := by
  simp [run]

variable {s : σ} {C : σ → ι → Prop} {G W : σ → Prop}

/-- **Invariant rule** for runs. -/
theorem run_inv {I : σ → Prop} (h₀ : I s) (hstep : ∀ s op, I s → I (step s op)) (ops : List ι) :
    I (run step s ops) := by
  induction ops generalizing s with
  | nil => exact h₀
  | cons op ops ih => exact ih (hstep s op h₀)

/-- The property holds in every state of the run. -/
def HoldsAlong (G : σ → Prop) (s : σ) (ops : List ι) : Prop :=
  ∀ pre, pre <+: ops → G (run step s pre)

/-- Every operation of the run is taken in a state that meets the condition. -/
def StepsMeet (C : σ → ι → Prop) (s : σ) (ops : List ι) : Prop :=
  ∀ pre op, pre ++ [op] <+: ops → C (run step s pre) op

@[simp] theorem stepsMeet_nil (C : σ → ι → Prop) (s : σ) : StepsMeet step C s [] := by
  intro pre op h
  simp at h

@[simp] theorem stepsMeet_cons {op : ι} {ops : List ι} :
    StepsMeet step C s (op :: ops) ↔ C s op ∧ StepsMeet step C (step s op) ops := by
  constructor
  · intro h
    refine ⟨h [] op (by simp), fun pre op' hpre => ?_⟩
    have := h (op :: pre) op' (by simpa using hpre)
    simpa [run] using this
  · rintro ⟨hfirst, hrest⟩ pre op' hpre
    cases pre with
    | nil =>
      obtain rfl : op' = op := by simpa using hpre
      exact hfirst
    | cons op'' pre =>
      simp only [List.cons_append, List.cons_prefix_cons] at hpre
      obtain ⟨rfl, hpre⟩ := hpre
      simpa [run] using hrest pre op' hpre

/-- **Exact condition rule**: with an invariant `W` that every step keeps, if from a state
where `G` holds a step keeps `G` exactly when `C` is met, then `G` holds along a run exactly
when every step of the run meets `C`. -/
theorem holds_along_iff (hW : W s) (hG : G s) (hWstep : ∀ s op, W s → W (step s op))
    (hGstep : ∀ s op, W s → G s → (G (step s op) ↔ C s op)) (ops : List ι) :
    HoldsAlong step G s ops ↔ StepsMeet step C s ops := by
  constructor
  · intro h pre op hpre
    have hbefore := h pre ((List.prefix_append pre [op]).trans hpre)
    have hafter := h (pre ++ [op]) hpre
    rw [run_concat] at hafter
    exact (hGstep _ _ (run_inv step hW hWstep pre) hbefore).mp hafter
  · intro h pre
    induction pre using List.reverseRecOn with
    | nil => exact fun _ => hG
    | append_singleton pre op ih =>
      intro hpre
      have hbefore := ih ((List.prefix_append pre [op]).trans hpre)
      rw [run_concat]
      exact (hGstep _ _ (run_inv step hW hWstep pre) hbefore).mpr (h pre op hpre)

/-- **Sufficient condition rule**: an invariant `W` implies `G` and is kept by the steps that meet
`C`, so `G` holds along every run whose steps meet `C`. -/
theorem holds_along_of_meets (hW : W s) (hWG : ∀ s, W s → G s)
    (hkeep : ∀ s op, W s → C s op → W (step s op)) {ops : List ι} (h : StepsMeet step C s ops) :
    HoldsAlong step G s ops := by
  intro pre hpre
  apply hWG
  induction pre using List.reverseRecOn with
  | nil => exact hW
  | append_singleton pre op ih =>
    rw [run_concat]
    exact hkeep _ _ (ih ((List.prefix_append pre [op]).trans hpre)) (h pre op hpre)

/-- **Exact condition rule, guarded**: an invariant `W` implies `G` and is kept by the steps
that meet `C`; if from a state of `W` a step leads to `G` exactly when it meets `C`, then `G`
holds along a run exactly when every step of the run meets `C`. -/
theorem holds_along_iff_of_guarded (hW : W s) (hWG : ∀ s, W s → G s)
    (hstep : ∀ s op, W s → (G (step s op) ↔ C s op)) (hkeep : ∀ s op, W s → C s op → W (step s op))
    (ops : List ι) : HoldsAlong step G s ops ↔ StepsMeet step C s ops := by
  constructor
  · intro h
    -- the property along the run gives the condition, and with it the invariant
    have hinv : ∀ pre, pre <+: ops → W (run step s pre) := by
      intro pre
      induction pre using List.reverseRecOn with
      | nil => exact fun _ => hW
      | append_singleton pre op ih =>
        intro hpre
        have hbefore := ih ((List.prefix_append pre [op]).trans hpre)
        have hafter := h (pre ++ [op]) hpre
        rw [run_concat] at hafter ⊢
        exact hkeep _ _ hbefore ((hstep _ _ hbefore).mp hafter)
    intro pre op hpre
    have hafter := h (pre ++ [op]) hpre
    rw [run_concat] at hafter
    exact (hstep _ _ (hinv pre ((List.prefix_append pre [op]).trans hpre))).mp hafter
  · exact holds_along_of_meets step hW hWG hkeep

end NvUvm.Lib
