import Mathlib.Algebra.Order.Ring.Nat

/-!
# Ranges of addresses
-/

namespace NvUvm.Lib

/-- A range of addresses. -/
structure Span where
  start : ℕ
  size : ℕ
  deriving DecidableEq, Repr

namespace Span

def stop (r : Span) : ℕ := r.start + r.size

/-- The first range ends where the second one begins or before. -/
def Before (r s : Span) : Prop := r.stop ≤ s.start

def Disjoint (r s : Span) : Prop := r.Before s ∨ s.Before r

def Within (r s : Span) : Prop := s.start ≤ r.start ∧ r.stop ≤ s.stop

instance (r s : Span) : Decidable (r.Before s) := inferInstanceAs (Decidable (_ ≤ _))

theorem start_le_stop (r : Span) : r.start ≤ r.stop := Nat.le_add_right _ _

theorem Disjoint.symm {r s : Span} (h : r.Disjoint s) : s.Disjoint r := Or.symm h

theorem Disjoint.mono {r s r' s' : Span} (h : r'.Disjoint s') (hr : r.Within r')
    (hs : s.Within s') : r.Disjoint s := by
  apply h.imp
  · exact fun h => le_trans hr.2 (le_trans h hs.1)
  · exact fun h => le_trans hs.2 (le_trans h hr.1)

theorem within_of_size_le {start m n : ℕ} (h : m ≤ n) : Within ⟨start, m⟩ ⟨start, n⟩ :=
  ⟨le_rfl, Nat.add_le_add_left h start⟩

theorem Within.trans {r s t : Span} (hrs : r.Within s) (hst : s.Within t) : r.Within t :=
  ⟨le_trans hst.1 hrs.1, le_trans hrs.2 hst.2⟩

end Span

end NvUvm.Lib
