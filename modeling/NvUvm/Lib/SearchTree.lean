import Mathlib.Data.List.Nodup

/-!
# A search tree whose nodes are also on a list

A binary tree of named nodes, searched by a comparison with a target, and the operations on the
doubly linked list that keeps the same nodes in order.
-/

namespace NvUvm.Lib

variable {ι : Type*}

/-! ## The tree -/

/-- A binary tree with a name at each node. -/
inductive SearchTree (ι : Type*) where
  | nil
  | node (left : SearchTree ι) (val : ι) (right : SearchTree ι)
  deriving DecidableEq, Repr

namespace SearchTree

def inorder : SearchTree ι → List ι
  | nil => []
  | node l n r => l.inorder ++ n :: r.inorder

/-- The search for a target, which `cmp` compares with a node: the node found, and the node passed
last before the search ended. -/
def find (cmp : ι → Ordering) : SearchTree ι → Option ι → Option ι × Option ι
  | nil, parent => (none, parent)
  | node l n r, parent =>
    match cmp n with
    | .lt => l.find cmp (some n)
    | .gt => r.find cmp (some n)
    | .eq => (some n, parent)

variable [DecidableEq ι]

/-- Node `m` becomes the left child of node `n`. -/
def linkLeft (n m : ι) : SearchTree ι → SearchTree ι
  | nil => nil
  | node l k r =>
    if k = n then node (node nil m nil) k r else node (l.linkLeft n m) k (r.linkLeft n m)

/-- Node `m` becomes the right child of node `n`. -/
def linkRight (n m : ι) : SearchTree ι → SearchTree ι
  | nil => nil
  | node l k r =>
    if k = n then node l k (node nil m nil) else node (l.linkRight n m) k (r.linkRight n m)

theorem linkLeft_of_notMem {n m : ι} {t : SearchTree ι} (h : n ∉ t.inorder) :
    t.linkLeft n m = t := by
  induction t with
  | nil => rfl
  | node l k r ihl ihr =>
    simp only [inorder, List.mem_append, List.mem_cons, not_or] at h
    obtain ⟨hl, hk, hr⟩ := h
    rw [linkLeft, if_neg (Ne.symm hk), ihl hl, ihr hr]

theorem linkRight_of_notMem {n m : ι} {t : SearchTree ι} (h : n ∉ t.inorder) :
    t.linkRight n m = t := by
  induction t with
  | nil => rfl
  | node l k r ihl ihr =>
    simp only [inorder, List.mem_append, List.mem_cons, not_or] at h
    obtain ⟨hl, hk, hr⟩ := h
    rw [linkRight, if_neg (Ne.symm hk), ihl hl, ihr hr]

end SearchTree

/-! ## The search -/

/-- Nodes in the order of a comparison: those below the target come before those above it, and at
most one compares equal. -/
def Searchable (cmp : ι → Ordering) (l : List ι) : Prop :=
  l.Pairwise fun x y => cmp x = .gt ∨ cmp y = .lt

variable [DecidableEq ι] {cmp : ι → Ordering}

/-- A place for a leaf in the order of the nodes: left below the first node above the target, or
right below the last node under it. -/
def Place (cmp : ι → Ordering) (t : SearchTree ι) (n : ι) : Prop :=
  ∃ pre post, t.inorder = pre ++ n :: post ∧
    ((cmp n = .lt ∧ (∀ x ∈ pre, cmp x = .gt) ∧
        ∀ m, (t.linkLeft n m).inorder = pre ++ m :: n :: post) ∨
      (cmp n = .gt ∧ (∀ x ∈ post, cmp x = .lt) ∧
        ∀ m, (t.linkRight n m).inorder = pre ++ n :: m :: post))

omit [DecidableEq ι] in
private theorem Searchable.parts {l r : List ι} {n : ι} (h : Searchable cmp (l ++ n :: r)) :
    Searchable cmp l ∧ Searchable cmp r ∧ (∀ x ∈ l, cmp x = .gt ∨ cmp n = .lt) ∧
      ∀ y ∈ r, cmp n = .gt ∨ cmp y = .lt := by
  obtain ⟨hl, hr, hlr⟩ := List.pairwise_append.mp h
  obtain ⟨hn, hr⟩ := List.pairwise_cons.mp hr
  exact ⟨hl, hr, fun x hx => hlr x hx n List.mem_cons_self, hn⟩

private theorem Place.left {l r : SearchTree ι} {k n : ι} (h : Place cmp l n) (hk : cmp k = .lt)
    (hr : ∀ y ∈ r.inorder, cmp y = .lt) (hnd : (SearchTree.node l k r).inorder.Nodup) :
    Place cmp (.node l k r) n := by
  obtain ⟨pre, post, hord, h⟩ := h
  have hmem : n ∈ l.inorder := by simp [hord]
  obtain ⟨-, -, hdisj⟩ := List.nodup_append.mp hnd
  have hkn : k ≠ n := (hdisj n hmem k List.mem_cons_self).symm
  have hnr : n ∉ r.inorder := fun hn => hdisj n hmem n (List.mem_cons_of_mem k hn) rfl
  refine ⟨pre, post ++ k :: r.inorder, by simp [SearchTree.inorder, hord], ?_⟩
  rcases h with ⟨hn, hpre, hlink⟩ | ⟨hn, hpost, hlink⟩
  · refine .inl ⟨hn, hpre, fun m => ?_⟩
    rw [SearchTree.linkLeft, if_neg hkn, SearchTree.linkLeft_of_notMem hnr]
    simp [SearchTree.inorder, hlink]
  · refine .inr ⟨hn, fun x hx => ?_, fun m => ?_⟩
    · simp only [List.mem_append, List.mem_cons] at hx
      rcases hx with hx | rfl | hx
      · exact hpost x hx
      · exact hk
      · exact hr x hx
    · rw [SearchTree.linkRight, if_neg hkn, SearchTree.linkRight_of_notMem hnr]
      simp [SearchTree.inorder, hlink]

private theorem Place.right {l r : SearchTree ι} {k n : ι} (h : Place cmp r n) (hk : cmp k = .gt)
    (hl : ∀ x ∈ l.inorder, cmp x = .gt) (hnd : (SearchTree.node l k r).inorder.Nodup) :
    Place cmp (.node l k r) n := by
  obtain ⟨pre, post, hord, h⟩ := h
  have hmem : n ∈ r.inorder := by simp [hord]
  obtain ⟨-, hright, hdisj⟩ := List.nodup_append.mp hnd
  have hkn : k ≠ n := by
    rintro rfl
    exact (List.nodup_cons.mp hright).1 hmem
  have hnl : n ∉ l.inorder := fun hn => hdisj n hn n (List.mem_cons_of_mem k hmem) rfl
  refine ⟨l.inorder ++ k :: pre, post, by simp [SearchTree.inorder, hord], ?_⟩
  rcases h with ⟨hn, hpre, hlink⟩ | ⟨hn, hpost, hlink⟩
  · refine .inl ⟨hn, fun x hx => ?_, fun m => ?_⟩
    · simp only [List.mem_append, List.mem_cons] at hx
      rcases hx with hx | rfl | hx
      · exact hl x hx
      · exact hk
      · exact hpre x hx
    · rw [SearchTree.linkLeft, if_neg hkn, SearchTree.linkLeft_of_notMem hnl]
      simp [SearchTree.inorder, hlink]
  · refine .inr ⟨hn, hpost, fun m => ?_⟩
    rw [SearchTree.linkRight, if_neg hkn, SearchTree.linkRight_of_notMem hnl]
    simp [SearchTree.inorder, hlink]

def FindSpec (cmp : ι → Ordering) (t : SearchTree ι) (parent : Option ι) :
    Option ι × Option ι → Prop
  | (some n, _) => n ∈ t.inorder ∧ cmp n = .eq
  | (none, last) => (∀ n ∈ t.inorder, cmp n ≠ .eq) ∧
      (t = .nil ∧ last = parent ∨ ∃ n, last = some n ∧ Place cmp t n)

/-- **The search finds the node that compares equal**, and otherwise ends at a node below which a
leaf keeps the order. -/
theorem SearchTree.find_spec {t : SearchTree ι} (h : Searchable cmp t.inorder)
    (hnd : t.inorder.Nodup) (parent : Option ι) : FindSpec cmp t parent (t.find cmp parent) := by
  induction t generalizing parent with
  | nil => exact ⟨by simp [SearchTree.inorder], .inl ⟨rfl, rfl⟩⟩
  | node l n r ihl ihr =>
    obtain ⟨hl, hr, hln, hnr⟩ := Searchable.parts h
    obtain ⟨hnl, hnright, hdisj⟩ := List.nodup_append.mp hnd
    have hnotRight : n ∉ r.inorder := (List.nodup_cons.mp hnright).1
    have hnotLeft : n ∉ l.inorder := fun hn => hdisj n hn n List.mem_cons_self rfl
    unfold SearchTree.find
    cases hcmp : cmp n with
    | eq => exact ⟨by simp [SearchTree.inorder], hcmp⟩
    | lt =>
      -- the target lies before this node, and so before the right subtree
      have hright : ∀ y ∈ r.inorder, cmp y = .lt := fun y hy => by simpa [hcmp] using hnr y hy
      have hfind := ihl hl hnl (some n)
      cases hr : l.find cmp (some n) with
      | mk found last =>
        rw [hr] at hfind
        cases found with
        | some k => exact ⟨List.mem_append_left _ hfind.1, hfind.2⟩
        | none =>
          obtain ⟨hnone, hplace⟩ := hfind
          refine ⟨fun k hk => ?_, .inr ?_⟩
          · simp only [SearchTree.inorder, List.mem_append, List.mem_cons] at hk
            rcases hk with hk | rfl | hk
            · exact hnone k hk
            · simp [hcmp]
            · simp [hright k hk]
          · rcases hplace with ⟨rfl, rfl⟩ | ⟨k, rfl, hplace⟩
            · refine ⟨n, rfl, [], r.inorder, rfl, .inl ⟨hcmp, by simp, fun m => ?_⟩⟩
              simp [SearchTree.linkLeft, SearchTree.inorder]
            · exact ⟨k, rfl, hplace.left hcmp hright hnd⟩
    | gt =>
      -- the target lies after this node, and so after the left subtree
      have hleft : ∀ x ∈ l.inorder, cmp x = .gt := fun x hx => by simpa [hcmp] using hln x hx
      have hfind := ihr hr (List.nodup_cons.mp hnright).2 (some n)
      cases hr : r.find cmp (some n) with
      | mk found last =>
        rw [hr] at hfind
        cases found with
        | some k =>
          exact ⟨List.mem_append_right _ (List.mem_cons_of_mem n hfind.1), hfind.2⟩
        | none =>
          obtain ⟨hnone, hplace⟩ := hfind
          refine ⟨fun k hk => ?_, .inr ?_⟩
          · simp only [SearchTree.inorder, List.mem_append, List.mem_cons] at hk
            rcases hk with hk | rfl | hk
            · simp [hleft k hk]
            · simp [hcmp]
            · exact hnone k hk
          · rcases hplace with ⟨rfl, rfl⟩ | ⟨k, rfl, hplace⟩
            · refine ⟨n, rfl, l.inorder, [], rfl, .inr ⟨hcmp, by simp, fun m => ?_⟩⟩
              simp [SearchTree.linkRight, SearchTree.inorder]
            · exact ⟨k, rfl, hplace.right hcmp hleft hnd⟩

/-! ## The list -/

/-- The entry after `x`. -/
def nextOf (x : ι) : List ι → Option ι
  | a :: b :: l => if a = x then some b else nextOf x (b :: l)
  | _ => none

/-- The entry before `x`. -/
def prevOf (x : ι) : List ι → Option ι
  | a :: b :: l => if b = x then some a else prevOf x (b :: l)
  | _ => none

/-- `m` is put in front of `x`. -/
def insertBefore (x m : ι) : List ι → List ι
  | [] => []
  | a :: l => if a = x then m :: a :: l else a :: insertBefore x m l

/-- `m` is put behind `x`. -/
def insertAfter (x m : ι) : List ι → List ι
  | [] => []
  | a :: l => if a = x then a :: m :: l else a :: insertAfter x m l

variable {x m : ι} {pre post : List ι}

theorem nextOf_append (h : x ∉ pre) : nextOf x (pre ++ x :: post) = post.head? := by
  induction pre with
  | nil => cases post <;> simp [nextOf]
  | cons a pre ih =>
    simp only [List.mem_cons, not_or] at h
    have ih := ih h.2
    cases pre with
    | nil => simpa [nextOf, Ne.symm h.1] using ih
    | cons b pre => simpa [nextOf, Ne.symm h.1] using ih

theorem prevOf_append (h : x ∉ pre) (hpost : x ∉ post) :
    prevOf x (pre ++ x :: post) = pre.getLast? := by
  induction pre with
  | nil =>
    -- nothing behind `x` is `x` again
    have hnone : ∀ (a : ι) (l : List ι), x ∉ l → prevOf x (a :: l) = none := by
      intro a l hl
      induction l generalizing a with
      | nil => rfl
      | cons b l ih =>
        simp only [List.mem_cons, not_or] at hl
        rw [prevOf, if_neg (Ne.symm hl.1), ih b hl.2]
    exact hnone x post hpost
  | cons a pre ih =>
    simp only [List.mem_cons, not_or] at h
    have ih := ih h.2
    cases pre with
    | nil => simp [prevOf]
    | cons b pre =>
      have hb : ¬ b = x := fun heq => h.2 (by simp [heq])
      simpa [prevOf, hb] using ih

theorem insertBefore_append (h : x ∉ pre) :
    insertBefore x m (pre ++ x :: post) = pre ++ m :: x :: post := by
  induction pre with
  | nil => simp [insertBefore]
  | cons a pre ih =>
    simp only [List.mem_cons, not_or] at h
    simp [insertBefore, Ne.symm h.1, ih h.2]

theorem insertAfter_append (h : x ∉ pre) :
    insertAfter x m (pre ++ x :: post) = pre ++ x :: m :: post := by
  induction pre with
  | nil => simp [insertAfter]
  | cons a pre ih =>
    simp only [List.mem_cons, not_or] at h
    simp [insertAfter, Ne.symm h.1, ih h.2]

end NvUvm.Lib
