import NvUvm.RegionTracker

/-!
# Destroying regions of UVM-Lite

`uvm_destroy_included_regions` and `uvm_destroy_region_tracker` (`uvm_lite_region_tracking.c`).  The first
one should destroy the regions strictly inside a range, and its comparison is the other way: what it
destroys is the region that it finds around the range.
-/

namespace NvUvm

open Lib

namespace Lib.SearchTree

/-- The node at the root. -/
def rootNode : SearchTree ℕ → Option ℕ
  | nil => none
  | node _ n _ => some n

/-- `rb_left` and `rb_right` of a node of the tree. -/
def children (n : ℕ) : SearchTree ℕ → Option ℕ × Option ℕ
  | nil => (none, none)
  | node l k r => if k = n then (l.rootNode, r.rootNode) else if n ∈ l.inorder then l.children n else r.children n

/-- The tree has another one at one of its nodes. -/
def Has (t' : SearchTree ℕ) : SearchTree ℕ → Prop
  | nil => t' = nil
  | node l k r => t' = node l k r ∨ Has t' l ∨ Has t' r

/-- The colours of a red-black tree, with that of its root and its number of black levels. -/
inductive Coloured : SearchTree ℕ → Bool → ℕ → Prop where
  | nil : Coloured .nil false 0
  | red {l r : SearchTree ℕ} {h : ℕ} (n : ℕ) (hl : Coloured l false h) (hr : Coloured r false h) :
      Coloured (.node l n r) true h
  | black {l r : SearchTree ℕ} {a b : Bool} {h : ℕ} (n : ℕ) (hl : Coloured l a h) (hr : Coloured r b h) :
      Coloured (.node l n r) false (h + 1)

/-- A red-black tree, whose root is black. -/
def RedBlack (t : SearchTree ℕ) : Prop := ∃ h, t.Coloured false h

variable {l r t : SearchTree ℕ} {n : ℕ}

theorem Has.sublist {t' : SearchTree ℕ} (h : Has t' t) : t'.inorder.Sublist t.inorder := by
  induction t with
  | nil => rw [show t' = .nil from h]
  | node l' k r' ihl ihr =>
    rcases h with rfl | h | h
    · exact List.Sublist.refl _
    · exact (ihl h).trans (List.sublist_append_left ..)
    · exact (ihr h).trans ((List.sublist_cons_self ..).trans (List.sublist_append_right ..))

theorem Has.mem (h : Has (.node l n r) t) : n ∈ t.inorder := h.sublist.subset (by simp [inorder])

theorem exists_has (h : n ∈ t.inorder) : ∃ l r, Has (.node l n r) t := by
  induction t with
  | nil => cases h
  | node l' k r' ihl ihr =>
    simp only [inorder, List.mem_append, List.mem_cons] at h
    rcases h with h | rfl | h
    · obtain ⟨l, r, hhas⟩ := ihl h
      exact ⟨l, r, .inr (.inl hhas)⟩
    · exact ⟨l', r', .inl rfl⟩
    · obtain ⟨l, r, hhas⟩ := ihr h
      exact ⟨l, r, .inr (.inr hhas)⟩

theorem children_of_has (hnd : t.inorder.Nodup) (h : Has (.node l n r) t) :
    t.children n = (l.rootNode, r.rootNode) := by
  induction t with
  | nil => cases h
  | node l' k r' ihl ihr =>
    simp only [inorder, List.nodup_append, List.nodup_cons, List.mem_cons] at hnd
    obtain ⟨hl, ⟨hk, hr⟩, hdisj⟩ := hnd
    rcases h with heq | h | h
    · cases heq
      exact if_pos rfl
    · have hmem := h.mem
      rw [children, if_neg fun heq : k = n => hdisj n hmem k (.inl rfl) heq.symm, if_pos hmem, ihl hl h]
    · have hmem := h.mem
      rw [children, if_neg fun heq : k = n => hk (heq ▸ hmem), if_neg fun hin => hdisj n hin n (.inr hmem) rfl,
        ihr hr h]

theorem Has.left (h : Has (.node l n r) t) : Has l t := by
  induction t with
  | nil => cases h
  | node l' k r' ihl ihr =>
    rcases h with heq | h | h
    · cases heq
      refine .inr (.inl ?_)
      cases l with
      | nil => rfl
      | node => exact .inl rfl
    · exact .inr (.inl (ihl h))
    · exact .inr (.inr (ihr h))

theorem RedBlack.right_of_left_nil (h : RedBlack (.node .nil n r)) :
    r = .nil ∨ ∃ m, r = .node .nil m .nil := by
  obtain ⟨height, h⟩ := h
  cases h with
  | black _ hl hr =>
    cases hl
    cases hr with
    | nil => exact .inl rfl
    | red m hl' hr' =>
      cases hl'
      cases hr'
      exact .inr ⟨m, rfl⟩

theorem eq_of_inorder_singleton (h : t.inorder = [n]) : t = .node .nil n .nil := by
  cases t with
  | nil => cases h
  | node l k r =>
    have hlen := congrArg List.length h
    simp only [inorder, List.length_cons, List.length_nil] at hlen
    have hl : l = .nil := by
      cases l with
      | nil => rfl
      | node => simp only [inorder, List.length_append, List.length_cons] at hlen; omega
    have hr : r = .nil := by
      cases r with
      | nil => rfl
      | node => simp only [inorder, List.length_append, List.length_cons] at hlen; omega
    subst hl hr
    cases h
    rfl

theorem eq_nil_of_inorder (h : t.inorder = []) : t = .nil := by
  cases t with
  | nil => rfl
  | node => simp [inorder] at h

end Lib.SearchTree

open SearchTree

namespace RegionTracker

variable {D O : Type*} (rb : RbPrimitives) (s : RegionTracker D O)

/-! ## The functions -/

/-- `_uvm_destroy_included_regions_rec`, with the entries that were destroyed so far. -/
def destroyIncludedRegionsRec (q : Region) :
    ℕ → Option ℕ → RegionTracker D O × List ℕ → Option (RegionTracker D O × List ℕ)
  | 0, _, _ => none
  | _ + 1, none, done => some done
  | fuel + 1, some n, done =>
    if done.1.region n = q then destroyIncludedRegionsRec q fuel (done.1.rbRoot.children n).1 done
    else if q.Within (done.1.region n) then do
      let done ← destroyIncludedRegionsRec q fuel (done.1.rbRoot.children n).1 done
      let done ← destroyIncludedRegionsRec q fuel (done.1.rbRoot.children n).2 done
      some (done.1.eraseNode rb n, done.2 ++ [n])
    else some done

/-- `uvm_destroy_included_regions`. -/
def destroyIncludedRegions (fuel : ℕ) (q : Region) : Option (RegionTracker D O × List ℕ) :=
  match s.findContainingRegion q with
  | none => some (s, [])
  | some n => destroyIncludedRegionsRec rb q fuel (some n) (s, [])

/-- The first loop of `uvm_destroy_region_tracker`, with the number of its turns bounded. -/
def destroyLeft : ℕ → SearchTree ℕ × List ℕ → SearchTree ℕ × List ℕ
  | turns + 1, (.node (.node l m r) k r', done) =>
    destroyLeft turns (rb.erase m (.node (.node l m r) k r'), done ++ [m])
  | _, x => x

/-- The second loop. -/
def destroyRight : ℕ → SearchTree ℕ × List ℕ → SearchTree ℕ × List ℕ
  | turns + 1, (.node l k (.node l' m r), done) =>
    destroyRight turns (rb.erase m (.node l k (.node l' m r)), done ++ [m])
  | _, x => x

/-- `uvm_destroy_region_tracker`: what is left of the tree, and the entries that were destroyed. -/
def destroyRegionTracker (turns : ℕ) : SearchTree ℕ × List ℕ :=
  match destroyRight rb turns (destroyLeft rb turns (s.rbRoot, [])) with
  | (.nil, done) => (.nil, done)
  | (.node l k r, done) => (rb.erase k (.node l k r), done ++ [k])

/-! ## What is right -/

/-- The tracked regions strictly inside the range are destroyed, each once, and the others stay, those of
them that can be found findable. -/
def IncludedRight (q : Region) : Prop :=
  ∃ fuel s' done, s.destroyIncludedRegions rb fuel q = some (s', done) ∧ done.Nodup ∧
    (∀ n, n ∈ done ↔ n ∈ s.tracked ∧ (s.region n).Within q ∧ s.region n ≠ q) ∧
    (∀ n, n ∈ s'.tracked ↔ n ∈ s.tracked ∧ n ∉ done) ∧
    ∀ n ∈ s'.tracked, s.findContainingRegion (s.region n) = some n →
      s'.findContainingRegion (s.region n) = some n

/-- With enough turns nothing is left of the tree, and each entry was destroyed once. -/
def AllDestroyed : Prop :=
  ∃ turns, (s.destroyRegionTracker rb turns).1 = .nil ∧ (s.destroyRegionTracker rb turns).2.Perm s.tracked

/-- No tracked region lies strictly inside the range, and what the lookup finds around it, if anything, is
the range itself. -/
def NothingIncluded (q : Region) : Prop :=
  (∀ n ∈ s.tracked, (s.region n).Within q → s.region n = q) ∧
    ∀ n, s.findContainingRegion q = some n → s.region n = q

variable {s} {q : Region} {n : ℕ}

/-! ## The recursion -/

theorem rec_keeps (h : s.Inv) {t : SearchTree ℕ} (ht : Has t s.rbRoot)
    (hnone : ∀ n ∈ t.inorder, q.Within (s.region n) → s.region n = q) (fuel : ℕ) :
    (∀ r, destroyIncludedRegionsRec rb q fuel t.rootNode (s, []) = some r → r = (s, [])) ∧
      (t.inorder.length < fuel → destroyIncludedRegionsRec rb q fuel t.rootNode (s, []) = some (s, [])) := by
  induction t generalizing fuel with
  | nil =>
    cases fuel with
    | zero => exact ⟨fun _ hr => (by cases hr), fun hlt => absurd hlt (Nat.not_lt_zero _)⟩
    | succ fuel => exact ⟨fun r hr => (Option.some.inj hr).symm, fun _ => rfl⟩
  | node l k r ihl _ =>
    simp only [inorder, List.mem_append, List.mem_cons, List.length_append, List.length_cons] at hnone ⊢
    cases fuel with
    | zero => exact ⟨fun _ hr => (by cases hr), fun hlt => absurd hlt (Nat.not_lt_zero _)⟩
    | succ fuel =>
      have hchildren := children_of_has h.nodup ht
      obtain ⟨honly, henough⟩ := ihl ht.left (fun n hn => hnone n (.inl hn)) fuel
      simp only [rootNode, destroyIncludedRegionsRec, hchildren]
      by_cases heq : s.region k = q
      · rw [if_pos heq]
        exact ⟨honly, fun hlt => henough (by omega)⟩
      · rw [if_neg heq, if_neg fun hwithin => heq (hnone k (.inr (.inl rfl)) hwithin)]
        exact ⟨fun r hr => (Option.some.inj hr).symm, fun _ => rfl⟩

theorem within_of_findContainingRegion (h : s.findContainingRegion q = some n) : q.Within (s.region n) := by
  rcases findContaining_mem (s := s) (q := q) (t := s.rbRoot) none with heq | ⟨m, -, hm, heq⟩
  · simp [findContainingRegion, heq] at h
  · obtain rfl : m = n := Option.some.inj (heq.symm.trans h)
    exact hm

theorem destroy_keeps (h : s.Inv) (hfound : ∀ n, s.findContainingRegion q = some n → s.region n = q) :
    (∀ fuel r, s.destroyIncludedRegions rb fuel q = some r → r = (s, [])) ∧
      ∃ fuel, s.destroyIncludedRegions rb fuel q = some (s, []) := by
  unfold destroyIncludedRegions
  cases hfind : s.findContainingRegion q with
  | none => exact ⟨fun _ r hr => (Option.some.inj hr).symm, 0, rfl⟩
  | some n =>
    have hn := hfound n hfind
    obtain ⟨l, r, hhas⟩ := exists_has (mem_of_findContainingRegion hfind)
    -- what comes before the range does not lie around it
    have hnone : ∀ m ∈ l.inorder, q.Within (s.region m) → s.region m = q := by
      intro m hm hwithin
      have hbefore := (h.1.sublist hhas.sublist)
      rw [inorder, List.pairwise_append] at hbefore
      rcases hbefore.2.2 m hm n List.mem_cons_self with ⟨hin, -⟩ | hbelow
      · exact (hn ▸ hin).antisymm hwithin
      · exact absurd hbelow (Region.not_below_of_within hwithin (hn ▸ Region.Within.refl q))
    have hrec := rec_keeps rb h hhas.left hnone
    have hchildren := children_of_has h.nodup hhas
    refine ⟨fun fuel => ?_, l.inorder.length + 2, ?_⟩
    · cases fuel with
      | zero => exact fun _ hr => by cases hr
      | succ fuel =>
        simp only [destroyIncludedRegionsRec, hn, if_true, hchildren]
        exact (hrec fuel).1
    · simp only [destroyIncludedRegionsRec, hn, if_true, hchildren]
      exact (hrec _).2 (Nat.lt_succ_self _)

theorem mem_of_rec {fuel : ℕ} {r : RegionTracker D O × List ℕ} (hwithin : q.Within (s.region n))
    (hne : s.region n ≠ q) (h : destroyIncludedRegionsRec rb q fuel (some n) (s, []) = some r) :
    n ∈ r.2 := by
  cases fuel with
  | zero => cases h
  | succ fuel =>
    rw [destroyIncludedRegionsRec, if_neg hne, if_pos hwithin] at h
    simp only [Option.bind_eq_bind, Option.bind_eq_some_iff, Option.some.injEq] at h
    obtain ⟨-, -, -, -, rfl⟩ := h
    simp

theorem includedRight_iff (h : s.Inv) : s.IncludedRight rb q ↔ s.NothingIncluded q := by
  constructor
  · rintro ⟨fuel, s', done, hdone, -, hmem, -, -⟩
    have hfound : ∀ n, s.findContainingRegion q = some n → s.region n = q := by
      intro n hfind
      by_contra hne
      have hwithin := within_of_findContainingRegion hfind
      rw [destroyIncludedRegions, hfind] at hdone
      exact hne (((hmem n).mp (mem_of_rec rb hwithin hne hdone)).2.1.antisymm hwithin)
    refine ⟨fun n hn hin => ?_, hfound⟩
    cases (destroy_keeps rb h hfound).1 fuel _ hdone
    by_contra hne
    exact absurd ((hmem n).mpr ⟨hn, hin, hne⟩) List.not_mem_nil
  · rintro ⟨hnone, hfound⟩
    obtain ⟨-, fuel, hkeep⟩ := destroy_keeps rb h hfound
    exact ⟨fuel, s, [], hkeep, List.nodup_nil,
      fun n => iff_of_false List.not_mem_nil fun hn => hn.2.2 (hnone n hn.1 hn.2.1), by simp,
      fun _ _ hfind => hfind⟩

/-! ## The loops -/

/-- A run of the loops: what is left of the tree after the entries were erased, which with them makes up the
entries that there were. -/
structure Parts (s : RegionTracker D O) (x : SearchTree ℕ × List ℕ) : Prop where
  perm : (x.2 ++ x.1.inorder).Perm s.tracked
  erased : x.1 = x.2.foldl (fun t n => rb.erase n t) s.rbRoot

variable {rb} {x : SearchTree ℕ × List ℕ}

theorem Parts.erase (h : s.Inv) (hx : s.Parts rb x) (hn : n ∈ x.1.inorder) :
    s.Parts rb (rb.erase n x.1, x.2 ++ [n]) := by
  have hnd : x.1.inorder.Nodup := (List.nodup_append.mp (hx.perm.nodup_iff.mpr h.nodup)).2.1
  constructor
  · rw [rb.inorder_erase n _ hnd, List.append_assoc, List.singleton_append]
    exact ((List.perm_cons_erase hn).symm.append_left _).trans hx.perm
  · rw [List.foldl_append, ← hx.erased]
    rfl

theorem Parts.redBlack (hx : s.Parts rb x)

    (hshape : ∀ l : List ℕ, (∀ n ∈ l, n ∈ s.tracked) → RedBlack (l.foldl (fun t n => rb.erase n t) s.rbRoot)) :
    RedBlack x.1 := by
  rw [hx.erased]
  exact hshape x.2 fun n hn => hx.perm.subset (List.mem_append_left _ hn)

theorem destroyLeft_spec (h : s.Inv) (turns : ℕ) (hx : s.Parts rb x)
    (hturns : s.tracked.length ≤ turns + x.2.length) :
    s.Parts rb (destroyLeft rb turns x) ∧
      ((destroyLeft rb turns x).1 = .nil ∨ ∃ k r, (destroyLeft rb turns x).1 = .node .nil k r) := by
  induction turns generalizing x with
  | zero =>
    have hlen := hx.perm.length_eq
    rw [List.length_append] at hlen
    have hnil : x.1.inorder.length = 0 := by omega
    exact ⟨hx, .inl (eq_nil_of_inorder (List.length_eq_zero_iff.mp hnil))⟩
  | succ turns ih =>
    obtain ⟨t, done⟩ := x
    cases t with
    | nil => exact ⟨hx, .inl rfl⟩
    | node left k r =>
      cases left with
      | nil => exact ⟨hx, .inr ⟨k, r, rfl⟩⟩
      | node l m r' =>
        refine ih (hx.erase h (by simp [inorder])) ?_
        simp only [List.length_append, List.length_singleton] at hturns ⊢
        omega

theorem destroyRight_spec (h : s.Inv) (turns : ℕ) {k : ℕ} {r : SearchTree ℕ} {done : List ℕ}
    (hx : s.Parts rb (.node .nil k r, done)) (hrb : RedBlack (.node .nil k r)) :
    ∃ done', destroyRight rb (turns + 1) (.node .nil k r, done) = (.node .nil k .nil, done') ∧
      s.Parts rb (.node .nil k .nil, done') := by
  rcases hrb.right_of_left_nil with rfl | ⟨m, rfl⟩
  · exact ⟨done, rfl, hx⟩
  · have herase := hx.erase h (n := m) (by simp [inorder])
    have hnd : [k, m].Nodup := (List.nodup_append.mp (hx.perm.nodup_iff.mpr h.nodup)).2.1
    have hk : k ≠ m := by simpa using hnd
    have hlast : rb.erase m (.node .nil k (.node .nil m .nil)) = .node .nil k .nil := by
      apply eq_of_inorder_singleton
      rw [rb.inorder_erase m (.node .nil k (.node .nil m .nil)) hnd]
      show [k, m].erase m = [k]
      rw [List.erase_cons_tail (by simpa using hk), List.erase_cons_head]
    rw [hlast] at herase
    refine ⟨_, ?_, herase⟩
    rw [destroyRight, hlast]
    cases turns <;> rfl

theorem allDestroyed (h : s.Inv)
    (hshape : ∀ l : List ℕ, (∀ n ∈ l, n ∈ s.tracked) → RedBlack (l.foldl (fun t n => rb.erase n t) s.rbRoot)) :
    s.AllDestroyed rb := by
  obtain ⟨hparts, hleft⟩ := destroyLeft_spec h (s.tracked.length + 1) (x := (s.rbRoot, []))
    ⟨List.Perm.refl _, rfl⟩ (Nat.le_add_right ..)
  refine ⟨s.tracked.length + 1, ?_⟩
  unfold destroyRegionTracker
  generalize destroyLeft rb (s.tracked.length + 1) (s.rbRoot, []) = x at hparts hleft
  obtain ⟨t, done⟩ := x
  rcases hleft with rfl | ⟨k, r, rfl⟩
  · have hstops : destroyRight rb (s.tracked.length + 1) (.nil, done) = (.nil, done) := rfl
    rw [hstops]
    exact ⟨rfl, by simpa [inorder] using hparts.perm⟩
  · obtain ⟨done', hright, hparts'⟩ := destroyRight_spec h s.tracked.length hparts
      (hparts.redBlack hshape)
    have hlast := hparts'.erase h (n := k) (by simp [inorder])
    have hnil : rb.erase k (.node .nil k .nil) = .nil := by
      apply eq_nil_of_inorder
      rw [rb.inorder_erase k (.node .nil k .nil) (List.nodup_singleton k)]
      exact List.erase_cons_head ..
    rw [hnil] at hlast
    rw [hright]
    exact ⟨hnil, by simpa [inorder] using hlast.perm⟩

/-- **Destroying regions**: a call for the regions inside a range is right if and only if there is nothing
to do, and the call for a whole tracker is right. -/
theorem destroys_right_iff (rb : RbPrimitives) (s : RegionTracker D O) (h : s.Inv)
    (hshape : ∀ l : List ℕ, (∀ n ∈ l, n ∈ s.tracked) → RedBlack (l.foldl (fun t n => rb.erase n t) s.rbRoot)) :
    (∀ q, s.IncludedRight rb q ↔ s.NothingIncluded q) ∧ s.AllDestroyed rb :=
  ⟨fun _ => includedRight_iff rb h, allDestroyed h hshape⟩

private theorem oneRegion_lt : 0x2000 < 0x3000 := by decide

/-- A tracker of one region. -/
def oneRegion : RegionTracker Unit Unit :=
  emptyTracker.trackRegion rotates ⟨0x2000, 0x3000, oneRegion_lt⟩ () ()

theorem oneRegion_inv : oneRegion.Inv := by
  have hnests : emptyTracker.Nests ⟨0x2000, 0x3000, by decide⟩ := by decide
  exact ((create_inv _).trackRegion rotates hnests () ()).1

theorem oneRegion_redBlack (l : List ℕ) (hl : ∀ n ∈ l, n ∈ oneRegion.tracked) :
    RedBlack (l.foldl (fun t n => rotates.erase n t) oneRegion.rbRoot) := by
  suffices hboth : ∀ t, t = .node .nil 0 .nil ∨ t = .nil → RedBlack (l.foldl (fun t n => rotates.erase n t) t) from
    hboth _ (.inl rfl)
  induction l with
  | nil =>
    rintro t (rfl | rfl)
    · exact ⟨1, .black 0 .nil .nil⟩
    · exact ⟨0, .nil⟩
  | cons n l ih =>
    obtain rfl : n = 0 := List.mem_singleton.mp (hl n List.mem_cons_self)
    rintro t (rfl | rfl)
    · exact ih (fun m hm => hl m (List.mem_cons_of_mem _ hm)) _ (.inr rfl)
    · exact ih (fun m hm => hl m (List.mem_cons_of_mem _ hm)) _ (.inr rfl)

/-- A region inside the range is not found, and stays. -/
theorem included_region_stays :
    oneRegion.Inv ∧ ¬ oneRegion.IncludedRight rotates ⟨0x1000, 0x5000, by decide⟩ := by
  refine ⟨oneRegion_inv, fun hincluded => ?_⟩
  have hnothing := (includedRight_iff rotates oneRegion_inv).mp hincluded
  exact absurd (hnothing.1 0 (by decide) (by decide)) (by decide)

theorem destroys_right_iff_one :
    (∀ q, oneRegion.IncludedRight rotates q ↔ oneRegion.NothingIncluded q) ∧ oneRegion.AllDestroyed rotates :=
  destroys_right_iff rotates oneRegion oneRegion_inv oneRegion_redBlack

end RegionTracker

end NvUvm
