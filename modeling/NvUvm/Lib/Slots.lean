import Mathlib.Tactic.Common

/-!
# Objects that are held in slots

Objects are allocated one after another.  Each is put into a slot when it is allocated, and freed when
the slot gives it up.
-/

namespace NvUvm.Lib

open Function (update update_of_ne update_self)

variable {ι : Type*}

/-- The objects below `allocated`, how often each was freed, and the slots that hold them. -/
structure Slotted (allocated : ℕ) (freed : ℕ → ℕ) (slot : ι → Option ℕ) : Prop where
  inj : ∀ i j t, slot i = some t → slot j = some t → i = j
  held : ∀ i t, slot i = some t → t < allocated ∧ freed t = 0
  gone : ∀ t, t < allocated → (∀ i, slot i ≠ some t) → freed t = 1
  fresh : ∀ t, allocated ≤ t → freed t = 0

namespace Slotted

variable {allocated : ℕ} {freed : ℕ → ℕ} {slot slot' : ι → Option ℕ} {i : ι} {t : ℕ}

theorem congr (h : Slotted allocated freed slot) (hslot : ∀ i, slot' i = slot i) :
    Slotted allocated freed slot' := by
  rwa [funext hslot]

theorem init : Slotted 0 (fun _ => 0) fun _ : ι => none where
  inj _ _ _ h := nomatch h
  held _ _ h := nomatch h
  gone _ h := absurd h (Nat.not_lt_zero _)
  fresh _ _ := rfl

theorem freed_iff (h : Slotted allocated freed slot) (ht : t < allocated) :
    freed t = 1 ↔ ∀ i, slot i ≠ some t := by
  constructor
  · intro hfreed i hi
    have hzero := (h.held i t hi).2
    omega
  · exact h.gone t ht

theorem freed_le (h : Slotted allocated freed slot) (t : ℕ) : freed t ≤ 1 := by
  by_cases ht : t < allocated
  · by_cases hslot : ∃ i, slot i = some t
    · obtain ⟨i, hi⟩ := hslot
      exact (h.held i t hi).2 ▸ Nat.zero_le 1
    · exact Nat.le_of_eq (h.gone t ht fun i hi => hslot ⟨i, hi⟩)
  · exact h.fresh t (Nat.not_lt.mp ht) ▸ Nat.zero_le 1

/-- **A new object** is put into an empty slot. -/
theorem put [DecidableEq ι] (h : Slotted allocated freed slot) (hi : slot i = none) :
    Slotted (allocated + 1) freed (update slot i (some allocated)) := by
  -- the new object was in no slot
  have hnew : ∀ j t, update slot i (some allocated) j = some t →
      (j = i ∧ t = allocated) ∨ (j ≠ i ∧ slot j = some t) := by
    intro j t hj
    by_cases hji : j = i
    · subst hji
      rw [update_self] at hj
      exact .inl ⟨rfl, (Option.some.inj hj).symm⟩
    · rw [update_of_ne hji] at hj
      exact .inr ⟨hji, hj⟩
  refine ⟨fun j k t hj hk => ?_, fun j t hj => ?_, fun t ht hnone => ?_, fun t ht => ?_⟩
  · rcases hnew j t hj with ⟨hji, heq⟩ | ⟨-, hj⟩
    · rcases hnew k t hk with ⟨hki, -⟩ | ⟨-, hk⟩
      · exact hji.trans hki.symm
      · exact absurd (heq ▸ (h.held k t hk).1) (Nat.lt_irrefl _)
    · rcases hnew k t hk with ⟨-, heq⟩ | ⟨-, hk⟩
      · exact absurd (heq ▸ (h.held j t hj).1) (Nat.lt_irrefl _)
      · exact h.inj j k t hj hk
  · rcases hnew j t hj with ⟨-, rfl⟩ | ⟨-, hj⟩
    · exact ⟨Nat.lt_succ_self _, h.fresh _ (Nat.le_refl _)⟩
    · obtain ⟨hlt, hfreed⟩ := h.held j t hj
      exact ⟨Nat.lt_succ_of_lt hlt, hfreed⟩
  · have hne : t ≠ allocated := by
      rintro rfl
      exact hnone i (update_self ..)
    refine h.gone t (by omega) fun j hj => hnone j ?_
    have hji : j ≠ i := by
      rintro rfl
      rw [hi] at hj
      exact nomatch hj
    rw [update_of_ne hji]
    exact hj
  · exact h.fresh t (by omega)

/-- **The object of a slot** is freed. -/
theorem take [DecidableEq ι] (h : Slotted allocated freed slot) (hi : slot i = some t) :
    Slotted allocated (update freed t (freed t + 1)) (update slot i none) := by
  obtain ⟨hlt, hzero⟩ := h.held i t hi
  have hold : ∀ j u, update slot i none j = some u → slot j = some u ∧ u ≠ t := by
    intro j u hj
    have hji : j ≠ i := by
      rintro rfl
      rw [update_self] at hj
      exact nomatch hj
    rw [update_of_ne hji] at hj
    refine ⟨hj, ?_⟩
    rintro rfl
    exact hji (h.inj j i u hj hi)
  refine ⟨fun j k u hj hk => ?_, fun j u hj => ?_, fun u hu hnone => ?_, fun u hu => ?_⟩
  · exact h.inj j k u (hold j u hj).1 (hold k u hk).1
  · obtain ⟨hj, hne⟩ := hold j u hj
    rw [update_of_ne hne]
    exact h.held j u hj
  · by_cases hut : u = t
    · subst hut
      rw [update_self, hzero]
    · rw [update_of_ne hut]
      refine h.gone u hu fun j hj => hnone j ?_
      have hji : j ≠ i := by
        rintro rfl
        rw [hi] at hj
        exact hut (Option.some.inj hj).symm
      rw [update_of_ne hji]
      exact hj
  · have hut : u ≠ t := by omega
    rw [update_of_ne hut]
    exact h.fresh u hu

/-- **A new object** is freed before it is put into a slot. -/
theorem discard (h : Slotted allocated freed slot) :
    Slotted (allocated + 1) (update freed allocated 1) slot := by
  refine ⟨h.inj, fun i t hi => ?_, fun t ht hnone => ?_, fun t ht => ?_⟩
  · obtain ⟨hlt, hfreed⟩ := h.held i t hi
    have hne : t ≠ allocated := by omega
    rw [update_of_ne hne]
    exact ⟨Nat.lt_succ_of_lt hlt, hfreed⟩
  · by_cases heq : t = allocated
    · rw [heq, update_self]
    · rw [update_of_ne heq]
      exact h.gone t (by omega) hnone
  · have hne : t ≠ allocated := by omega
    rw [update_of_ne hne]
    exact h.fresh t (by omega)

end Slotted

end NvUvm.Lib
