import Mathlib.Data.List.Basic
import NvUvm.Lib.Span

/-!
# Ranges handed out around a ring

A ring buffer hands out ranges of addresses from the bottom up and then once more from the bottom.
The ranges in use, in the order in which they were handed out, are an ascending run followed by
another one below it.
-/

namespace NvUvm.Lib

open NvUvm.Lib.Span

/-- The ranges in use, the oldest first: the ranges of this turn lie below those of the last. -/
def RingOrdered (l : List Span) : Prop :=
  ∃ a b : List Span, l = a ++ b ∧ a.Pairwise Before ∧ b.Pairwise Before ∧
    ∀ r ∈ a, ∀ s ∈ b, s.Before r

theorem ringOrdered_singleton (r : Span) : RingOrdered [r] :=
  ⟨[r], [], by simp⟩

theorem ringOrdered_of_pairwise {l : List Span} (h : l.Pairwise Before) : RingOrdered l :=
  ⟨l, [], by simpa using h⟩

namespace RingOrdered

variable {l l' : List Span} {r s first last : Span}

theorem sublist (h : RingOrdered l) (hl : l'.Sublist l) : RingOrdered l' := by
  obtain ⟨a, b, rfl, ha, hb, hab⟩ := h
  obtain ⟨a', b', rfl, ha', hb'⟩ := List.sublist_append_iff.mp hl
  exact ⟨a', b', rfl, ha.sublist ha', hb.sublist hb',
    fun r hr s hs => hab r (ha'.subset hr) s (hb'.subset hs)⟩

/-- **Ranges in ring order do not overlap.** -/
theorem pairwise_disjoint (h : RingOrdered l) : l.Pairwise Span.Disjoint := by
  obtain ⟨a, b, rfl, ha, hb, hab⟩ := h
  rw [List.pairwise_append]
  exact ⟨ha.imp .inl, hb.imp .inl, fun r hr s hs => .inr (hab r hr s hs)⟩

theorem disjoint_last (h : RingOrdered (l ++ [r])) (hs : s ∈ l) : r.Disjoint s := by
  have hpw := h.pairwise_disjoint
  rw [List.pairwise_append] at hpw
  exact (hpw.2.2 s hs r (List.mem_singleton_self r)).symm

end RingOrdered

/-! ## The next range -/

section Next

variable {l a b : List Span} {first last r : Span} {start : ℕ}

private theorem start_le_of_pairwise (h : l.Pairwise Before) (hfirst : l.head? = some first)
    (hr : r ∈ l) : first.start ≤ r.start := by
  obtain ⟨tail, rfl⟩ := List.head?_eq_some_iff.mp hfirst
  rcases List.mem_cons.mp hr with rfl | hr
  · rfl
  · exact le_trans first.start_le_stop ((List.pairwise_cons.mp h).1 r hr)

private theorem stop_le_of_pairwise (h : l.Pairwise Before) (hlast : l.getLast? = some last)
    (hr : r ∈ l) : r.stop ≤ last.stop := by
  obtain ⟨init, rfl⟩ := List.getLast?_eq_some_iff.mp hlast
  rcases List.mem_append.mp hr with hr | hr
  · exact le_trans ((List.pairwise_append.mp h).2.2 r hr last (by simp)) last.start_le_stop
  · rw [List.mem_singleton] at hr
    rw [hr]

private theorem pairwise_concat (h : l.Pairwise Before) (hr : ∀ s ∈ l, s.Before r) :
    (l ++ [r]).Pairwise Before := by
  rw [List.pairwise_append]
  refine ⟨h, List.pairwise_singleton _ _, fun s hs t ht => ?_⟩
  rw [List.mem_singleton] at ht
  rw [ht]
  exact hr s hs

private theorem head_getLast_append (ha : a ≠ []) (hb : b ≠ [])
    (hfirst : (a ++ b).head? = some first) (hlast : (a ++ b).getLast? = some last) :
    a.head? = some first ∧ b.getLast? = some last := by
  rw [List.head?_append_of_ne_nil _ ha] at hfirst
  rw [List.getLast?_append_of_ne_nil _ hb] at hlast
  exact ⟨hfirst, hlast⟩

namespace RingOrdered

theorem shrink_last {l : List Span} {r s : Span} (h : RingOrdered (l ++ [r])) (hs : s.Within r) :
    RingOrdered (l ++ [s]) := by
  obtain ⟨a, b, hl, ha, hb, hab⟩ := h
  rcases List.eq_nil_or_concat b with rfl | ⟨b, t, rfl⟩
  · -- the newest range is of the same turn as the others
    rw [List.append_nil] at hl
    obtain rfl := hl
    rw [List.pairwise_append] at ha
    apply ringOrdered_of_pairwise
    exact pairwise_concat ha.1 fun x hx => le_trans (ha.2.2 x hx r (by simp)) hs.1
  · simp only [List.concat_eq_append] at hl hb hab
    rw [← List.append_assoc] at hl
    obtain ⟨rfl, ht⟩ := List.append_inj' hl rfl
    obtain rfl : r = t := by simpa using ht
    rw [List.pairwise_append] at hb
    refine ⟨a, b ++ [s], by simp, ha, ?_, fun x hx y hy => ?_⟩
    · exact pairwise_concat hb.1 fun x hx => le_trans (hb.2.2 x hx r (by simp)) hs.1
    · rcases List.mem_append.mp hy with hy | hy
      · exact hab x hx y (List.mem_append_left _ hy)
      · rw [List.mem_singleton] at hy
        subst hy
        exact le_trans hs.2 (hab x hx r (by simp))

theorem pairwise_of_lt (h : RingOrdered l) (hfirst : l.head? = some first)
    (hlast : l.getLast? = some last) (hlt : first.start < last.stop) : l.Pairwise Before := by
  obtain ⟨a, b, rfl, ha, hb, hab⟩ := h
  by_cases ha' : a = []
  · simpa [ha'] using hb
  by_cases hb' : b = []
  · simpa [hb'] using ha
  -- otherwise the last range is of this turn and lies below the first
  obtain ⟨hfirst, hlast⟩ := head_getLast_append ha' hb' hfirst hlast
  have hbefore := hab first (List.mem_of_mem_head? hfirst) last (List.mem_of_getLast? hlast)
  exact absurd hlt (not_lt.mpr hbefore)

/-- **The next range behind the last one**: it has to end below the first range where the ring has
turned. -/
theorem concat_end (h : RingOrdered l) (hfirst : l.head? = some first)
    (hlast : l.getLast? = some last) (hr : last.stop ≤ r.start)
    (hfits : first.start < last.stop ∨ r.stop ≤ first.start) : RingOrdered (l ++ [r]) := by
  rcases hfits with hlt | hfits
  · have hpw := h.pairwise_of_lt hfirst hlast hlt
    apply ringOrdered_of_pairwise
    exact pairwise_concat hpw fun s hs =>
      le_trans (stop_le_of_pairwise hpw hlast hs) hr
  obtain ⟨a, b, rfl, ha, hb, hab⟩ := h
  by_cases ha' : a = []
  · subst ha'
    apply ringOrdered_of_pairwise
    exact pairwise_concat hb fun s hs => le_trans (stop_le_of_pairwise hb hlast hs) hr
  by_cases hb' : b = []
  · subst hb'
    rw [List.append_nil] at hlast ⊢
    apply ringOrdered_of_pairwise
    exact pairwise_concat ha fun s hs => le_trans (stop_le_of_pairwise ha hlast hs) hr
  obtain ⟨hfirst, hlast⟩ := head_getLast_append ha' hb' hfirst hlast
  refine ⟨a, b ++ [r], by simp, ha, ?_, fun s hs t ht => ?_⟩
  · exact pairwise_concat hb fun s hs => le_trans (stop_le_of_pairwise hb hlast hs) hr
  · rcases List.mem_append.mp ht with ht | ht
    · exact hab s hs t ht
    · rw [List.mem_singleton] at ht
      rw [ht]
      exact le_trans hfits (start_le_of_pairwise ha hfirst hs)

/-- **The next range at the bottom**: the ring turns, so the range has to end below the first
one. -/
theorem concat_bottom (h : RingOrdered l) (hfirst : l.head? = some first)
    (hlast : l.getLast? = some last) (hlt : first.start < last.stop)
    (hr : r.stop ≤ first.start) : RingOrdered (l ++ [r]) := by
  have hpw := h.pairwise_of_lt hfirst hlast hlt
  refine ⟨l, [r], rfl, hpw, List.pairwise_singleton _ _, fun s hs t ht => ?_⟩
  rw [List.mem_singleton] at ht
  rw [ht]
  exact le_trans hr (start_le_of_pairwise hpw hfirst hs)

end RingOrdered

end Next

end NvUvm.Lib
