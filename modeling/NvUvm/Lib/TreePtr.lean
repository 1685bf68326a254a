import Mathlib.Data.List.Basic
import NvUvm.Lib.Span

/-!
# Nodes of a forest

The nodes of a forest whose trees are numbered: a node is reached from the root of its tree by a
path of child indices.
-/

namespace NvUvm.Lib

/-- A node of a forest: its tree and its path, with the last child index first. -/
structure TreePtr where
  root : ℕ
  path : List ℕ
  deriving DecidableEq, Repr

namespace TreePtr

variable (p q : TreePtr)

def rootPtr : TreePtr := ⟨p.root, []⟩

def child (i : ℕ) : TreePtr := ⟨p.root, i :: p.path⟩

def parent : Option TreePtr :=
  match p.path with
  | [] => none
  | _ :: path => some ⟨p.root, path⟩

/-- The second node is the first one or lies above it. -/
def Under : Prop := p.root = q.root ∧ q.path <:+ p.path

@[simp] theorem child_root (i : ℕ) : (p.child i).root = p.root := rfl

@[simp] theorem parent_child (i : ℕ) : (p.child i).parent = some p := rfl

@[simp] theorem rootPtr_root : p.rootPtr.root = p.root := rfl

@[simp] theorem rootPtr_path : p.rootPtr.path = [] := rfl

@[simp] theorem rootPtr_child (i : ℕ) : (p.child i).rootPtr = p.rootPtr := rfl

variable {p q}

theorem parent_eq_some : p.parent = some q ↔ ∃ i, p = q.child i := by
  obtain ⟨root, path⟩ := p
  cases path with
  | nil => simp [parent, child]
  | cons i path =>
    simp only [parent, child, Option.some.injEq]
    constructor
    · rintro rfl
      exact ⟨i, rfl⟩
    · rintro ⟨j, hj⟩
      cases hj
      rfl

theorem parent_eq_none : p.parent = none ↔ p = p.rootPtr := by
  obtain ⟨root, path⟩ := p
  cases path <;> simp [parent, rootPtr]

theorem child_injective : Function.Injective p.child := fun i j h => by
  simpa [child] using h

@[simp] theorem child_inj {i j : ℕ} : p.child i = p.child j ↔ i = j := child_injective.eq_iff

theorem child_eq_child {i j : ℕ} : p.child i = q.child j ↔ p = q ∧ i = j := by
  obtain ⟨root, path⟩ := p
  obtain ⟨root', path'⟩ := q
  simp only [child, mk.injEq, List.cons.injEq]
  tauto

@[simp] theorem child_ne_self (i : ℕ) : p.child i ≠ p := by
  intro h
  have := congrArg (fun p => p.path.length) h
  simp [child] at this

@[simp] theorem self_ne_child (i : ℕ) : p ≠ p.child i := (child_ne_self i).symm

@[simp] theorem child_ne_rootPtr (i : ℕ) : p.child i ≠ q.rootPtr := by simp [child, rootPtr]

/-! ## Children -/

/-- Which child of the first node the second one is. -/
def childIndex (p q : TreePtr) : Option ℕ := if q.parent = some p then q.path.head? else none

@[simp] theorem childIndex_child (i : ℕ) : p.childIndex (p.child i) = some i := by
  simp [childIndex, child, parent]

theorem childIndex_eq_some {i : ℕ} : p.childIndex q = some i ↔ q = p.child i := by
  constructor
  · intro h
    unfold childIndex at h
    split at h
    · next hpar =>
      obtain ⟨j, rfl⟩ := parent_eq_some.mp hpar
      obtain rfl : j = i := by simpa [child] using h
      rfl
    · simp at h
  · rintro rfl
    exact childIndex_child i

/-- A map with new values at the first `n` children of a node. -/
def updateChildren {α : Type*} (f : TreePtr → α) (p : TreePtr) (n : ℕ) (new : ℕ → α) : TreePtr → α :=
  fun q =>
    match p.childIndex q with
    | some i => if i < n then new i else f q
    | none => f q

section UpdateChildren

variable {α : Type*} {f : TreePtr → α} {n : ℕ} {new : ℕ → α}

theorem updateChildren_child {i : ℕ} (hi : i < n) : updateChildren f p n new (p.child i) = new i := by
  simp [updateChildren, hi]

theorem updateChildren_of_ne (h : ∀ i < n, q ≠ p.child i) : updateChildren f p n new q = f q := by
  unfold updateChildren
  cases hq : p.childIndex q with
  | none => rfl
  | some i =>
    obtain rfl := childIndex_eq_some.mp hq
    have hi : ¬ i < n := fun hi => h i hi rfl
    simp [hi]

@[simp] theorem updateChildren_self : updateChildren f p n new p = f p :=
  updateChildren_of_ne fun i _ => self_ne_child i

@[simp] theorem updateChildren_rootPtr : updateChildren f p n new q.rootPtr = f q.rootPtr :=
  updateChildren_of_ne fun i _ => (child_ne_rootPtr i).symm

end UpdateChildren

/-! ## Ancestors -/

theorem Under.refl (p : TreePtr) : p.Under p := ⟨rfl, List.suffix_refl _⟩

theorem Under.trans {r : TreePtr} (hpq : p.Under q) (hqr : q.Under r) : p.Under r :=
  ⟨hpq.1.trans hqr.1, hqr.2.trans hpq.2⟩

theorem child_under (i : ℕ) : (p.child i).Under p := ⟨rfl, List.suffix_cons i p.path⟩

theorem Under.eq_or_child (h : p.Under q) : p = q ∨ ∃ i, p.Under (q.child i) := by
  obtain ⟨root, path⟩ := p
  obtain ⟨hroot, l, hl⟩ := h
  dsimp only at hroot hl
  subst hroot hl
  rcases List.eq_nil_or_concat l with rfl | ⟨l, i, rfl⟩
  · exact .inl rfl
  · exact .inr ⟨i, rfl, l, by simp [child]⟩

theorem Under.child_eq {i j : ℕ} (hi : p.Under (q.child i)) (hj : p.Under (q.child j)) : i = j := by
  obtain ⟨-, l, hl⟩ := hi
  obtain ⟨-, l', hl'⟩ := hj
  have heq := List.append_inj_right' (hl.trans hl'.symm) rfl
  simpa [child] using heq

theorem not_under_child (i : ℕ) : ¬ p.Under (p.child i) := by
  rintro ⟨-, hsuffix⟩
  have hle := hsuffix.length_le
  simp [child] at hle

private theorem exists_fork_list {α : Type*} {l l' : List α} (h : ¬ l <+: l') (h' : ¬ l' <+: l) :
    ∃ (c : List α) (x y : α) (t t' : List α), x ≠ y ∧ l = c ++ x :: t ∧ l' = c ++ y :: t' := by
  induction l generalizing l' with
  | nil => exact absurd List.nil_prefix h
  | cons x l ih =>
    cases l' with
    | nil => exact absurd List.nil_prefix h'
    | cons y l' =>
      by_cases hxy : x = y
      · subst hxy
        rw [List.cons_prefix_cons] at h h'
        obtain ⟨c, u, v, t, t', huv, rfl, rfl⟩ := ih (fun hp => h ⟨rfl, hp⟩) fun hp => h' ⟨rfl, hp⟩
        exact ⟨x :: c, u, v, t, t', huv, rfl, rfl⟩
      · exact ⟨[], x, y, l, l', hxy, rfl, rfl⟩

/-- **Two nodes of one tree, neither of them under the other, part at a common ancestor.** -/
theorem exists_fork (hroot : p.root = q.root) (hpq : ¬ p.Under q) (hqp : ¬ q.Under p) :
    ∃ (a : TreePtr) (i j : ℕ), i ≠ j ∧ p.Under (a.child i) ∧ q.Under (a.child j) := by
  have hp' : ¬ p.path.reverse <+: q.path.reverse := fun h =>
    hqp ⟨hroot.symm, List.reverse_prefix.mp h⟩
  have hq' : ¬ q.path.reverse <+: p.path.reverse := fun h => hpq ⟨hroot, List.reverse_prefix.mp h⟩
  obtain ⟨c, i, j, t, t', hij, hp, hq⟩ := exists_fork_list hp' hq'
  refine ⟨⟨p.root, c.reverse⟩, i, j, hij, ⟨rfl, t.reverse, ?_⟩, hroot.symm, t'.reverse, ?_⟩
  · rw [← List.reverse_reverse p.path, hp]
    simp [child]
  · rw [← List.reverse_reverse q.path, hq]
    simp [child]

/-! ## Ranges -/

section Tiles

variable {live : TreePtr → Prop} {range : TreePtr → Span}

/-- The live nodes form trees, and the ranges of the children of a node lie side by side within its
own. -/
structure Tiled (live : TreePtr → Prop) (range : TreePtr → Span) : Prop where
  parent : ∀ (p : TreePtr) i, live (p.child i) → live p
  within : ∀ (p : TreePtr) i, live (p.child i) → (range (p.child i)).Within (range p)
  siblings : ∀ (p : TreePtr) i j, i ≠ j → live (p.child i) → live (p.child j) →
    (range (p.child i)).Disjoint (range (p.child j))
  roots : ∀ p q : TreePtr, p.root ≠ q.root → (range p.rootPtr).Disjoint (range q.rootPtr)

namespace Tiled

theorem live_of_under (h : Tiled live range) (hpq : p.Under q) (hp : live p) : live q := by
  obtain ⟨root, path⟩ := p
  obtain ⟨root', path'⟩ := q
  obtain ⟨hroot, l, hl⟩ := hpq
  dsimp only at hroot hl
  subst hroot hl
  induction l with
  | nil => exact hp
  | cons i l ih => exact ih (h.parent ⟨root, l ++ path'⟩ i hp)

theorem within_of_under (h : Tiled live range) (hpq : p.Under q) (hp : live p) :
    (range p).Within (range q) := by
  obtain ⟨root, path⟩ := p
  obtain ⟨root', path'⟩ := q
  obtain ⟨hroot, l, hl⟩ := hpq
  dsimp only at hroot hl
  subst hroot hl
  induction l with
  | nil => exact ⟨le_rfl, le_rfl⟩
  | cons i l ih =>
    have hup := h.parent ⟨root, l ++ path'⟩ i hp
    exact (h.within ⟨root, l ++ path'⟩ i hp).trans (ih hup)

/-- **Nodes that are not under each other do not overlap.** -/
theorem disjoint (h : Tiled live range) (hp : live p) (hq : live q) (hpq : ¬ p.Under q)
    (hqp : ¬ q.Under p) : (range p).Disjoint (range q) := by
  by_cases hroot : p.root = q.root
  · obtain ⟨a, i, j, hij, hpi, hqj⟩ := exists_fork hroot hpq hqp
    have hsiblings := h.siblings a i j hij (h.live_of_under hpi hp) (h.live_of_under hqj hq)
    exact hsiblings.mono (h.within_of_under hpi hp) (h.within_of_under hqj hq)
  · have hup : ∀ p : TreePtr, p.Under p.rootPtr := fun p => ⟨rfl, List.nil_suffix⟩
    exact (h.roots p q hroot).mono (h.within_of_under (hup p) hp) (h.within_of_under (hup q) hq)

end Tiled

end Tiles

end TreePtr

end NvUvm.Lib
