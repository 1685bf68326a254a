import Mathlib.Data.Multiset.AddSub

/-!
# A ledger of resources

What a procedure holds, and whether it has released something that it did not hold.  A procedure
that fails is right when the ledger is as it was: then all that it has acquired was released once, and
nothing else was.
-/

namespace NvUvm.Lib

/-- The resources that are held, and whether a step was wrong. -/
@[ext]
structure Ledger (ρ : Type*) where
  live : Multiset ρ
  bad : Bool
  deriving DecidableEq

namespace Ledger

variable {ρ : Type*} [DecidableEq ρ]

def acquire (l : Ledger ρ) (r : ρ) : Ledger ρ := { l with live := r ::ₘ l.live }

/-- Releasing what is not held is wrong. -/
def release (l : Ledger ρ) (r : ρ) : Ledger ρ :=
  if r ∈ l.live then { l with live := l.live.erase r } else { l with bad := true }

/-- A step that is wrong unless the condition holds. -/
def require (l : Ledger ρ) (b : Bool) : Ledger ρ := { l with bad := l.bad || !b }

def acquireAll (l : Ledger ρ) (rs : List ρ) : Ledger ρ := rs.foldl acquire l

def releaseAll (l : Ledger ρ) (rs : List ρ) : Ledger ρ := rs.foldl release l

variable {l : Ledger ρ} {r : ρ} {rs qs : List ρ}

omit [DecidableEq ρ] in
theorem acquireAll_eq (l : Ledger ρ) (rs : List ρ) : l.acquireAll rs = ⟨(rs : Multiset ρ) + l.live, l.bad⟩ := by
  induction rs generalizing l with
  | nil => simp [acquireAll]
  | cons r rs ih =>
    have hrest : (l.acquire r).acquireAll rs = l.acquireAll (r :: rs) := rfl
    rw [← hrest, ih, acquire, ← Multiset.cons_coe, Multiset.cons_add, Multiset.add_cons]

theorem releaseAll_add (rs : List ρ) (m : Multiset ρ) (b : Bool) :
    releaseAll ⟨(rs : Multiset ρ) + m, b⟩ rs = ⟨m, b⟩ := by
  induction rs with
  | nil => simp [releaseAll]
  | cons r rs ih =>
    have hfirst : release ⟨((r :: rs : List ρ) : Multiset ρ) + m, b⟩ r = ⟨(rs : Multiset ρ) + m, b⟩ := by
      simp [release, ← Multiset.cons_coe]
    exact (congrArg (releaseAll · rs) hfirst).trans ih

/-- **What was acquired and not released is left**, in whatever order. -/
theorem releaseAll_part (l : Ledger ρ) {p : List ρ} (h : rs.Perm (qs ++ p)) :
    (l.acquireAll rs).releaseAll qs = l.acquireAll p := by
  rw [acquireAll_eq, acquireAll_eq, Multiset.coe_eq_coe.mpr h, ← Multiset.coe_add, Multiset.add_assoc, releaseAll_add]

/-- **All that was acquired is released**, in whatever order. -/
theorem releaseAll_acquireAll (l : Ledger ρ) (h : rs.Perm qs) : (l.acquireAll rs).releaseAll qs = l :=
  l.releaseAll_part (p := []) (by rwa [List.append_nil])

omit [DecidableEq ρ] in
@[simp] theorem require_true (l : Ledger ρ) : l.require true = l := by
  simp [require]

/-- A wrong step is not made good. -/
theorem release_bad (h : l.bad = true) (r : ρ) : (l.release r).bad = true := by
  unfold release
  split
  · exact h
  · rfl

theorem releaseAll_bad (h : l.bad = true) (rs : List ρ) : (l.releaseAll rs).bad = true := by
  induction rs generalizing l with
  | nil => exact h
  | cons r rs ih => exact ih (release_bad h r)

/-- What is released without being held is a wrong step, wherever it stands. -/
theorem releaseAll_bad_of_notMem (l : Ledger ρ) (rs : List ρ) (hr : r ∈ rs) (hlive : r ∉ l.live) :
    (l.releaseAll rs).bad = true := by
  induction rs generalizing l with
  | nil => cases hr
  | cons q rs ih =>
    show ((l.release q).releaseAll rs).bad = true
    rcases List.mem_cons.mp hr with rfl | hr
    · apply releaseAll_bad
      rw [release, if_neg hlive]
    · apply ih _ hr
      unfold release
      split
      · exact fun hmem => hlive (Multiset.mem_of_mem_erase hmem)
      · exact hlive

end Ledger

end NvUvm.Lib
