import Mathlib.Data.List.Basic

/-!
# Loops that stop early

A `for` loop over a finite list of items whose body returns a result and a new state, and
which is left as soon as a result is not one to go on with.  The two shapes that C programs
use are instances of it: a loop that `return`s (or `break`s on) the first error, and a
search that stops at the first hit.
-/

namespace NvUvm.Lib

variable {α σ ρ : Type*}

/-- Run `body` over the items in order, as long as its result satisfies `go`.  The result is
the one that stopped the loop, or `done` when no item did. -/
def runUntil (go : ρ → Bool) (done : ρ) (body : α → σ → ρ × σ) : List α → σ → ρ × σ
  | [], s => (done, s)
  | x :: xs, s =>
    let r := body x s
    if go r.1 then runUntil go done body xs r.2 else r

section Rules

variable {go : ρ → Bool} {done : ρ} {body : α → σ → ρ × σ}

@[simp] theorem runUntil_nil (s : σ) : runUntil go done body [] s = (done, s) := rfl

theorem runUntil_cons_go {x : α} {xs : List α} {s : σ} (h : go (body x s).1 = true) :
    runUntil go done body (x :: xs) s = runUntil go done body xs (body x s).2 := by
  simp [runUntil, h]

theorem runUntil_cons_stop {x : α} {xs : List α} {s : σ} (h : go (body x s).1 = false) :
    runUntil go done body (x :: xs) s = body x s := by
  simp [runUntil, h]

/-- **Invariant rule**: what holds before the first item and is kept by every item the loop
handles holds of the state the loop ends in.  The invariant may speak of the items handled so
far, the one that stopped the loop included. -/
theorem runUntil_inv (I : List α → σ → Prop) (items : List α)
    (step : ∀ pre x post s, items = pre ++ x :: post → I pre s →
      I (pre ++ [x]) (body x s).2) :
    ∀ (todo pre : List α) (s : σ), items = pre ++ todo → I pre s →
      ∃ handled, handled <+: items ∧ I handled (runUntil go done body todo s).2 := by
  intro todo
  induction todo with
  | nil =>
    intro pre s hsplit hI
    exact ⟨pre, ⟨[], by rw [hsplit]⟩, hI⟩
  | cons x rest ih =>
    intro pre s hsplit hI
    have hI' := step pre x rest s hsplit hI
    by_cases hgo : go (body x s).1 = true
    · rw [runUntil_cons_go hgo]
      exact ih (pre ++ [x]) (body x s).2 (by simp [hsplit]) hI'
    · rw [runUntil_cons_stop (by simpa using hgo)]
      exact ⟨pre ++ [x], ⟨rest, by simp [hsplit]⟩, hI'⟩

theorem runUntil_keeps (I : σ → Prop) (items : List α)
    (step : ∀ x ∈ items, ∀ s, I s → I (body x s).2) (s : σ) (hI : I s) :
    I (runUntil go done body items s).2 := by
  induction items generalizing s with
  | nil => exact hI
  | cons x rest ih =>
    have hI' := step x (by simp) s hI
    by_cases hgo : go (body x s).1 = true
    · rw [runUntil_cons_go hgo]
      exact ih (fun y hy => step y (by simp [hy])) _ hI'
    · rwa [runUntil_cons_stop (by simpa using hgo)]

/-- **Completion rule**: when the result is one to go on with, no item stopped the loop, and
an invariant kept by the items that go on holds of all of them. -/
theorem runUntil_completed (I : List α → σ → Prop) (items : List α)
    (step : ∀ pre x post s, items = pre ++ x :: post → I pre s →
      go (body x s).1 = true → I (pre ++ [x]) (body x s).2) :
    ∀ (todo pre : List α) (s : σ), items = pre ++ todo → I pre s →
      go (runUntil go done body todo s).1 = true →
      I items (runUntil go done body todo s).2 := by
  intro todo
  induction todo with
  | nil =>
    intro pre s hsplit hI _
    simpa [hsplit] using hI
  | cons x rest ih =>
    intro pre s hsplit hI hfin
    by_cases hgo : go (body x s).1 = true
    · rw [runUntil_cons_go hgo] at hfin ⊢
      exact ih (pre ++ [x]) (body x s).2 (by simp [hsplit]) (step pre x rest s hsplit hI hgo)
        hfin
    · rw [runUntil_cons_stop (by simpa using hgo)] at hfin
      exact absurd hfin hgo

/-- **Stop rule**: when the result is not one to go on with, an item stopped the loop, and an
invariant kept by the items that go on holds before it. -/
theorem runUntil_stopped (I : List α → σ → Prop) (items : List α) (hdone : go done = true)
    (step : ∀ pre x post s, items = pre ++ x :: post → I pre s →
      go (body x s).1 = true → I (pre ++ [x]) (body x s).2) :
    ∀ (todo pre : List α) (s : σ), items = pre ++ todo → I pre s →
      go (runUntil go done body todo s).1 = false →
      ∃ handled x rest s', items = handled ++ x :: rest ∧ I handled s' ∧
        go (body x s').1 = false := by
  intro todo
  induction todo with
  | nil =>
    intro pre s _ _ hfin
    exact absurd (hdone.symm.trans hfin) (by simp)
  | cons x rest ih =>
    intro pre s hsplit hI hfin
    by_cases hgo : go (body x s).1 = true
    · rw [runUntil_cons_go hgo] at hfin
      exact ih (pre ++ [x]) (body x s).2 (by simp [hsplit]) (step pre x rest s hsplit hI hgo)
        hfin
    · exact ⟨pre, x, rest, s, hsplit, hI, by simpa using hgo⟩

end Rules

end NvUvm.Lib
