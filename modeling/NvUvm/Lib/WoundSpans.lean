import Mathlib.Data.List.Basic
import NvUvm.Lib.Span

/-!
# Spans cut from a memory that is used round and round

Spans of a memory are handed out one behind the other, and from the start of the memory again when
its end is reached.  They are kept in the order they were handed out, and may be given back in any
order.
-/

namespace NvUvm.Lib.Span

/-- Spans in the order they were handed out, with at most one turn. -/
def Wound (l : List Span) : Prop :=
  ∃ old new, l = old ++ new ∧ old.Pairwise Before ∧ new.Pairwise Before ∧
    ∀ a ∈ new, ∀ b ∈ old, a.Before b

variable {l l' : List Span} {first last x : Span}

theorem wound_nil : Wound [] := ⟨[], [], rfl, List.Pairwise.nil, List.Pairwise.nil, by simp⟩

theorem wound_of_pairwise (h : l.Pairwise Before) : Wound l :=
  ⟨l, [], by simp, h, List.Pairwise.nil, by simp⟩

theorem Wound.sublist (h : Wound l) (hsub : l'.Sublist l) : Wound l' := by
  obtain ⟨old, new, rfl, hold, hnew, hacross⟩ := h
  obtain ⟨old', new', rfl, hold', hnew'⟩ := List.sublist_append_iff.mp hsub
  exact ⟨old', new', rfl, hold.sublist hold', hnew.sublist hnew',
    fun a ha b hb => hacross a (hnew'.subset ha) b (hold'.subset hb)⟩

theorem Before.mono {r s r' s' : Span} (h : r'.Before s') (hr : r.Within r') (hs : s.Within s') :
    r.Before s :=
  le_trans hr.2 (le_trans h hs.1)

theorem Wound.map_within {α : Type*} {xs : List α} {f g : α → Span} (h : Wound (xs.map f))
    (hwithin : ∀ a ∈ xs, (g a).Within (f a)) : Wound (xs.map g) := by
  obtain ⟨old, new, heq, hold, hnew, hacross⟩ := h
  obtain ⟨xs₁, xs₂, rfl, rfl, rfl⟩ := List.map_eq_append_iff.mp heq
  have h₁ : ∀ a ∈ xs₁, (g a).Within (f a) := fun a ha => hwithin a (List.mem_append_left _ ha)
  have h₂ : ∀ a ∈ xs₂, (g a).Within (f a) := fun a ha => hwithin a (List.mem_append_right _ ha)
  refine ⟨xs₁.map g, xs₂.map g, List.map_append, ?_, ?_, ?_⟩
  · rw [List.pairwise_map] at hold ⊢
    exact hold.imp_of_mem fun ha hb hab => hab.mono (h₁ _ ha) (h₁ _ hb)
  · rw [List.pairwise_map] at hnew ⊢
    exact hnew.imp_of_mem fun ha hb hab => hab.mono (h₂ _ ha) (h₂ _ hb)
  · intro x hx y hy
    obtain ⟨a, ha, rfl⟩ := List.mem_map.mp hx
    obtain ⟨b, hb, rfl⟩ := List.mem_map.mp hy
    exact (hacross _ (List.mem_map_of_mem ha) _ (List.mem_map_of_mem hb)).mono (h₂ a ha) (h₁ b hb)

theorem Wound.pairwise_disjoint (h : Wound l) : l.Pairwise Disjoint := by
  obtain ⟨old, new, rfl, hold, hnew, hacross⟩ := h
  exact List.pairwise_append.mpr
    ⟨hold.imp .inl, hnew.imp .inl, fun b hb a ha => .inr (hacross a ha b hb)⟩

private theorem stop_le_last (h : l.Pairwise Before) (hlast : l.getLast? = some last) :
    ∀ a ∈ l, a.stop ≤ last.stop := by
  obtain ⟨pre, rfl⟩ : ∃ pre, l = pre ++ [last] := List.getLast?_eq_some_iff.mp hlast
  obtain ⟨-, -, hpre⟩ := List.pairwise_append.mp h
  intro a ha
  rcases List.mem_append.mp ha with ha | ha
  · exact le_trans (hpre a ha last (by simp)) last.start_le_stop
  · rw [List.mem_singleton.mp ha]

private theorem first_le_start (h : l.Pairwise Before) (hfirst : l.head? = some first) :
    ∀ a ∈ l, first.start ≤ a.start := by
  obtain ⟨rest, rfl⟩ : ∃ rest, l = first :: rest := List.head?_eq_some_iff.mp hfirst
  intro a ha
  rcases List.mem_cons.mp ha with rfl | ha
  · exact le_rfl
  · exact le_trans first.start_le_stop ((List.pairwise_cons.mp h).1 a ha)

theorem Wound.cases (h : Wound l) (hfirst : l.head? = some first) (hlast : l.getLast? = some last) :
    l.Pairwise Before ∨
      ∃ old new, l = old ++ new ∧ old.Pairwise Before ∧ new.Pairwise Before ∧
        (∀ a ∈ new, ∀ b ∈ old, a.Before b) ∧ old.head? = some first ∧
        new.getLast? = some last ∧ last.Before first := by
  obtain ⟨old, new, rfl, hold, hnew, hacross⟩ := h
  cases old with
  | nil => exact .inl hnew
  | cons b old =>
    rcases List.eq_nil_or_concat new with rfl | ⟨pre, a, rfl⟩
    · rw [List.append_nil]
      exact .inl hold
    · rw [List.concat_eq_append] at *
      obtain rfl : b = first := by simpa using hfirst
      rw [← List.append_assoc, List.getLast?_concat] at hlast
      obtain rfl : a = last := Option.some.inj hlast
      exact .inr ⟨b :: old, pre ++ [a], rfl, hold, hnew, hacross, rfl, by simp,
        hacross a (by simp) b (by simp)⟩

theorem Wound.before_of_lt (h : Wound l) (hfirst : l.head? = some first)
    (hlast : l.getLast? = some last) (hlt : last.start < first.start) : last.Before first := by
  rcases h.cases hfirst hlast with hord | ⟨-, -, -, -, -, -, -, -, hlf⟩
  · have hle := first_le_start hord hfirst last (List.mem_of_getLast? hlast)
    omega
  · exact hlf

/-- **The next span behind the last one**; if the list has turned, it must end before the first
one. -/
theorem Wound.append_behind (h : Wound l) (hfirst : l.head? = some first)
    (hlast : l.getLast? = some last) (hpos : 0 < last.size) (hbehind : last.Before x)
    (hturned : last.start < first.start → x.Before first) : Wound (l ++ [x]) := by
  rcases h.cases hfirst hlast with hord | ⟨old, new, rfl, hold, hnew, hacross, hf, hl, hlf⟩
  · apply wound_of_pairwise
    refine List.pairwise_append.mpr ⟨hord, List.pairwise_singleton _ _, fun a ha b hb => ?_⟩
    rw [List.mem_singleton.mp hb]
    exact le_trans (stop_le_last hord hlast a ha) hbehind
  · refine ⟨old, new ++ [x], List.append_assoc .., hold, ?_, fun a ha b hb => ?_⟩
    · refine List.pairwise_append.mpr ⟨hnew, List.pairwise_singleton _ _, fun a ha b hb => ?_⟩
      rw [List.mem_singleton.mp hb]
      exact le_trans (stop_le_last hnew hl a ha) hbehind
    · rcases List.mem_append.mp ha with ha | ha
      · exact hacross a ha b hb
      · rw [List.mem_singleton.mp ha]
        have hlt : last.start < first.start := by
          unfold Before stop at hlf
          omega
        exact le_trans (hturned hlt) (first_le_start hold hf b hb)

/-- **The next span from the start of the memory**, before the first one. -/
theorem Wound.append_turn (h : Wound l) (hfirst : l.head? = some first)
    (hlast : l.getLast? = some last) (hpos : 0 < last.size) (hle : first.start ≤ last.start)
    (hbefore : x.Before first) : Wound (l ++ [x]) := by
  rcases h.cases hfirst hlast with hord | ⟨-, -, -, -, -, -, -, -, hlf⟩
  · refine ⟨l, [x], rfl, hord, List.pairwise_singleton _ _, fun a ha b hb => ?_⟩
    rw [List.mem_singleton.mp ha]
    exact le_trans hbefore (first_le_start hord hfirst b hb)
  · unfold Before stop at hlf
    omega

end NvUvm.Lib.Span
