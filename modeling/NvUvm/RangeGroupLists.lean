import Mathlib.Data.Set.Insert
import NvUvm.RangeGroupAssign

/-!
# Assigning addresses to range groups, with the lists of the groups

The same operation, `uvm_range_group_assign_range`, with the two list memberships of every range:
the `ranges` list of its group, and the group's list of migrated ranges.  Ranges are numbered; the
tree is the sorted list that a range tree stands for.  Bounds are 64-bit values; where the source
adds 1 to an end or takes 1 from a start there is a range beyond, so nothing wraps.
-/

namespace NvUvm

open Lib
open Function (update update_of_ne update_self)

/-! ## The operation -/

/-- The fields of the ranges and of the groups: the group of each range, and the two lists of each
group. -/
structure GroupLists where
  rangeGroup : ℕ → ℕ
  ranges : ℕ → List ℕ
  migratedRanges : ℕ → List ℕ

/-- The range group tree with its groups. -/
structure GroupTree where
  tree : List (Lib.Interval ℕ)
  lists : GroupLists

namespace GroupLists

variable (l : GroupLists)

/-- `range_group_range_create`, without the bounds. -/
def create (group rgr : ℕ) : GroupLists :=
  { l with
    rangeGroup := update l.rangeGroup rgr group
    ranges := update l.ranges group (rgr :: l.ranges group) }

/-- The range leaves the `ranges` list of its group. -/
def leaveRanges (rgr : ℕ) : GroupLists :=
  let group := l.rangeGroup rgr
  { l with ranges := update l.ranges group ((l.ranges group).erase rgr) }

/-- `list_move_tail` to the list of migrated ranges of its group. -/
def moveToMigrated (rgr : ℕ) : GroupLists :=
  let group := l.rangeGroup rgr
  { l with migratedRanges :=
      update l.migratedRanges group ((l.migratedRanges group).erase rgr ++ [rgr]) }

/-- `uvm_range_group_range_destroy`.  A range that the operation has put on its internal list is on
no `ranges` list any more. -/
def destroy (rgr : ℕ) : GroupLists :=
  let group := l.rangeGroup rgr
  { l with
    ranges := update l.ranges group ((l.ranges group).erase rgr)
    migratedRanges :=
      update l.migratedRanges group ((l.migratedRanges group).erase rgr) }

/-- The range is on the list of migrated ranges of its group. -/
def Migrated (rgr : ℕ) : Prop := rgr ∈ l.migratedRanges (l.rangeGroup rgr)

instance (rgr : ℕ) : Decidable (l.Migrated rgr) := inferInstanceAs (Decidable (_ ∈ _))

def sameGroup (r q : ℕ) : Bool := decide (l.rangeGroup r = l.rangeGroup q)

end GroupLists

namespace GroupTree

/-- The loop over the ranges that overlap `[start, last]`, with the internal list of the ranges to
destroy; `next` is the range that is created for the upper part of a range that is split. -/
def assignLoop (next : Option ℕ) (rangeGroup : Option ℕ) (start last : ℕ) :
    List (Lib.Interval ℕ) → GroupLists → List ℕ →
      Except NvStatus (List (Lib.Interval ℕ) × GroupLists × List ℕ)
  | [], l, internal => .ok ([], l, internal)
  | rgr :: rest, l, internal =>
    if last < rgr.start then .ok (rgr :: rest, l, internal)
    else if rgr.last < start then
      (assignLoop next rangeGroup start last rest l internal).map fun r => (rgr :: r.1, r.2)
    else if rgr.start < start ∧ last < rgr.last then
      if some (l.rangeGroup rgr.val) = rangeGroup then .error .ok
      else
        match next with
        | none => .error .errNoMemory
        | some next =>
          let l' := l.create (l.rangeGroup rgr.val) next
          -- the upper part is on the group's migrated list if the whole range is
          let l' := if l.Migrated rgr.val then l'.moveToMigrated next else l'
          .ok ({ rgr with last := start - 1 } :: ⟨last + 1, rgr.last, next⟩ :: rest, l', internal)
    else if rgr.start < start then
      (assignLoop next rangeGroup start last rest l internal).map
        fun r => ({ rgr with last := start - 1 } :: r.1, r.2)
    else if last < rgr.last then .ok ({ rgr with start := last + 1 } :: rest, l, internal)
    else
      (assignLoop next rangeGroup start last rest (l.leaveRanges rgr.val) (rgr.val :: internal)).map
        fun r => (rgr :: r.1, r.2)

/-- The merge with the range before, which is destroyed. -/
def mergeWithPrev (l : GroupLists) (before : List (Lib.Interval ℕ)) (rgr : Lib.Interval ℕ) :
    List (Lib.Interval ℕ) × Lib.Interval ℕ × GroupLists :=
  match before.getLast? with
  | some prev =>
    if prev.last + 1 = rgr.start ∧ l.sameGroup prev.val rgr.val then
      (before.dropLast, { rgr with start := prev.start }, l.destroy prev.val)
    else (before, rgr, l)
  | none => (before, rgr, l)

/-- The merge with the range behind, which is destroyed. -/
def mergeWithNext (l : GroupLists) (rgr : Lib.Interval ℕ) :
    List (Lib.Interval ℕ) → Lib.Interval ℕ × List (Lib.Interval ℕ) × GroupLists
  | next :: rest =>
    if next.start - 1 = rgr.last ∧ l.sameGroup next.val rgr.val then
      ({ rgr with last := next.last }, rest, l.destroy next.val)
    else (rgr, next :: rest, l)
  | [] => (rgr, [], l)

/-- The ranges of the internal list leave the tree and are destroyed. -/
def destroyInternal (r : List (Lib.Interval ℕ) × GroupLists × List ℕ) : GroupTree where
  tree := r.1.filter fun rgr => rgr.val ∉ r.2.2
  lists := r.2.2.foldl GroupLists.destroy r.2.1

/-- The new range is added to the tree and merged with its neighbours. -/
def addMerged (s : GroupTree) (rgr : Lib.Interval ℕ) : GroupTree :=
  let prev := mergeWithPrev s.lists (s.tree.takeWhile fun m => decide (m.last < rgr.start)) rgr
  let next := mergeWithNext prev.2.2 prev.2.1 (seek s.tree rgr.start)
  ⟨prev.1 ++ next.1 :: next.2.1, next.2.2⟩

/-- `uvm_range_group_assign_range`; `newRgr` and `next` are what the two allocations of ranges
return. -/
def assignRange (newRgr next : Option ℕ) (rangeGroup : Option ℕ) (start last : ℕ) (s : GroupTree) :
    NvStatus × GroupTree :=
  match rangeGroup with
  | none =>
    match assignLoop next none start last s.tree s.lists [] with
    | .error status => (status, s)
    | .ok r => (.ok, destroyInternal r)
  | some group =>
    match newRgr with
    | none => (.errNoMemory, s)
    | some new =>
      let created := s.lists.create group new
      match assignLoop next (some group) start last s.tree created [] with
      | .error status => (status, ⟨s.tree, created.destroy new⟩)
      | .ok r =>
        -- the new range is always on the migrated list
        (.ok, addMerged (destroyInternal (r.1, r.2.1.moveToMigrated new, r.2.2))
          ⟨start, last, new⟩)

end GroupTree

/-! ## The lists -/

namespace GroupLists

/-- The lists hold the ranges of `live`, each on that of its group, and of those some are on the
migrated list; ranges of `pending` may still be there. -/
structure Sound (l : GroupLists) (live pending : Set ℕ) : Prop where
  rangesNodup : ∀ g, (l.ranges g).Nodup
  mem_ranges : ∀ g rgr, rgr ∈ l.ranges g ↔ rgr ∈ live ∧ l.rangeGroup rgr = g
  migratedNodup : ∀ g, (l.migratedRanges g).Nodup
  mem_migrated : ∀ g, ∀ rgr ∈ l.migratedRanges g, rgr ∈ live ∪ pending ∧ l.rangeGroup rgr = g

variable {l : GroupLists} {live pending : Set ℕ} {g rgr : ℕ}

@[simp] theorem create_rangeGroup : (l.create g rgr).rangeGroup = update l.rangeGroup rgr g := rfl

@[simp] theorem create_ranges :
    (l.create g rgr).ranges = update l.ranges g (rgr :: l.ranges g) := rfl

@[simp] theorem create_migratedRanges : (l.create g rgr).migratedRanges = l.migratedRanges := rfl

@[simp] theorem leaveRanges_rangeGroup : (l.leaveRanges rgr).rangeGroup = l.rangeGroup := rfl

@[simp] theorem leaveRanges_migratedRanges :
    (l.leaveRanges rgr).migratedRanges = l.migratedRanges := rfl

@[simp] theorem moveToMigrated_rangeGroup : (l.moveToMigrated rgr).rangeGroup = l.rangeGroup := rfl

@[simp] theorem moveToMigrated_ranges : (l.moveToMigrated rgr).ranges = l.ranges := rfl

@[simp] theorem moveToMigrated_migratedRanges : (l.moveToMigrated rgr).migratedRanges =
    update l.migratedRanges (l.rangeGroup rgr)
      ((l.migratedRanges (l.rangeGroup rgr)).erase rgr ++ [rgr]) := rfl

@[simp] theorem destroy_rangeGroup : (l.destroy rgr).rangeGroup = l.rangeGroup := rfl

theorem Sound.create (h : l.Sound live pending) (hlive : rgr ∉ live) (hpend : rgr ∉ pending) :
    (l.create g rgr).Sound (insert rgr live) pending := by
  have hne : ∀ {r}, r ∈ live ∪ pending → r ≠ rgr := by
    rintro r hr rfl
    rcases hr with hr | hr
    · exact hlive hr
    · exact hpend hr
  refine ⟨fun g' => ?_, fun g' r => ?_, h.migratedNodup, fun g' r hr => ?_⟩
  · rcases eq_or_ne g' g with rfl | hg
    · rw [create_ranges, update_self]
      refine List.nodup_cons.mpr ⟨fun hmem => ?_, h.rangesNodup g'⟩
      exact hlive ((h.mem_ranges g' rgr).mp hmem).1
    · rw [create_ranges, update_of_ne hg]
      exact h.rangesNodup g'
  · have hranges : r ∈ (l.create g rgr).ranges g' ↔ (g' = g ∧ r = rgr) ∨ r ∈ l.ranges g' := by
      rcases eq_or_ne g' g with rfl | hg
      · simp
      · simp [hg]
    rw [hranges, h.mem_ranges, Set.mem_insert_iff]
    rcases eq_or_ne r rgr with rfl | hr
    · simp [hlive, eq_comm]
    · simp [hr]
  · obtain ⟨hmem, hgroup⟩ := h.mem_migrated g' r hr
    refine ⟨?_, ?_⟩
    · rcases hmem with hmem | hmem
      · exact .inl (Set.mem_insert_of_mem rgr hmem)
      · exact .inr hmem
    · rw [create_rangeGroup, update_of_ne (hne hmem)]
      exact hgroup

private theorem mem_update_erase {lists : ℕ → List ℕ} (hnd : ∀ g, (lists g).Nodup)
    (hgroup : ∀ g, ∀ r ∈ lists g, l.rangeGroup r = g) (g r : ℕ) :
    r ∈ update lists (l.rangeGroup rgr) ((lists (l.rangeGroup rgr)).erase rgr) g ↔
      r ∈ lists g ∧ r ≠ rgr := by
  rcases eq_or_ne g (l.rangeGroup rgr) with rfl | hg
  · rw [update_self, (hnd _).mem_erase_iff]
    exact and_comm
  · rw [update_of_ne hg]
    constructor
    · intro hr
      refine ⟨hr, ?_⟩
      rintro rfl
      exact hg (hgroup g r hr).symm
    · exact And.left

private theorem nodup_update_erase {lists : ℕ → List ℕ} (hnd : ∀ g, (lists g).Nodup) (g : ℕ) :
    (update lists (l.rangeGroup rgr) ((lists (l.rangeGroup rgr)).erase rgr) g).Nodup := by
  rcases eq_or_ne g (l.rangeGroup rgr) with rfl | hg
  · rw [update_self]
    exact (hnd _).erase rgr
  · rw [update_of_ne hg]
    exact hnd g

theorem Sound.leaveRanges (h : l.Sound live pending) (hrgr : rgr ∈ live) :
    (l.leaveRanges rgr).Sound (live \ {rgr}) (insert rgr pending) := by
  refine ⟨nodup_update_erase h.rangesNodup, fun g r => ?_, h.migratedNodup, fun g r hr => ?_⟩
  · refine (mem_update_erase h.rangesNodup (fun g r hr => ((h.mem_ranges g r).mp hr).2) g r).trans ?_
    rw [h.mem_ranges, Set.mem_sdiff, Set.mem_singleton_iff]
    tauto
  · obtain ⟨hmem, hgroup⟩ := h.mem_migrated g r hr
    refine ⟨?_, hgroup⟩
    rcases eq_or_ne r rgr with rfl | hne
    · exact .inr (Set.mem_insert r pending)
    · rcases hmem with hmem | hmem
      · exact .inl ⟨hmem, hne⟩
      · exact .inr (Set.mem_insert_of_mem rgr hmem)

theorem Sound.moveToMigrated (h : l.Sound live pending) (hrgr : rgr ∈ live) :
    (l.moveToMigrated rgr).Sound live pending := by
  refine ⟨h.rangesNodup, h.mem_ranges, fun g => ?_, fun g r hr => ?_⟩
  · rcases eq_or_ne g (l.rangeGroup rgr) with rfl | hg
    · rw [moveToMigrated_migratedRanges, update_self]
      refine List.nodup_append.mpr ⟨(h.migratedNodup _).erase rgr, by simp, ?_⟩
      intro a ha b hb heq
      rw [heq, List.mem_singleton.mp hb] at ha
      exact ((h.migratedNodup _).mem_erase_iff.mp ha).1 rfl
    · rw [moveToMigrated_migratedRanges, update_of_ne hg]
      exact h.migratedNodup g
  · rcases eq_or_ne g (l.rangeGroup rgr) with rfl | hg
    · rw [moveToMigrated_migratedRanges, update_self] at hr
      rcases List.mem_append.mp hr with hr | hr
      · exact h.mem_migrated _ r (List.mem_of_mem_erase hr)
      · rw [List.mem_singleton.mp hr]
        exact ⟨.inl hrgr, rfl⟩
    · rw [moveToMigrated_migratedRanges, update_of_ne hg] at hr
      exact h.mem_migrated g r hr

variable (rgr) in
theorem Sound.destroy (h : l.Sound live pending) :
    (l.destroy rgr).Sound (live \ {rgr}) (pending \ {rgr}) := by
  refine ⟨nodup_update_erase h.rangesNodup, fun g r => ?_, nodup_update_erase h.migratedNodup,
    fun g r hr => ?_⟩
  · refine (mem_update_erase h.rangesNodup (fun g r hr => ((h.mem_ranges g r).mp hr).2) g r).trans ?_
    rw [h.mem_ranges, Set.mem_sdiff, Set.mem_singleton_iff]
    tauto
  · obtain ⟨hmem, hne⟩ := (mem_update_erase h.migratedNodup
      (fun g r hr => (h.mem_migrated g r hr).2) g r).mp hr
    obtain ⟨hin, hgroup⟩ := h.mem_migrated g r hmem
    refine ⟨?_, hgroup⟩
    rcases hin with hin | hin
    · exact .inl ⟨hin, hne⟩
    · exact .inr ⟨hin, hne⟩

theorem Sound.destroyAll (h : l.Sound live pending) (internal : List ℕ) :
    (internal.foldl GroupLists.destroy l).Sound (live \ { r | r ∈ internal })
      (pending \ { r | r ∈ internal }) := by
  induction internal generalizing l live pending with
  | nil =>
    have hnone : ∀ s : Set ℕ, s \ { r | r ∈ ([] : List ℕ) } = s := by
      intro s
      ext r
      simp
    rw [hnone, hnone]
    exact h
  | cons rgr internal ih =>
    have hnext := ih (h.destroy rgr)
    have hdiff : ∀ s : Set ℕ, (s \ {rgr}) \ { r | r ∈ internal } = s \ { r | r ∈ rgr :: internal } := by
      intro s
      ext r
      simp only [Set.mem_sdiff, Set.mem_singleton_iff, Set.mem_ofPred_eq, List.mem_cons]
      tauto
    rw [hdiff, hdiff] at hnext
    exact hnext

theorem migrated_destroy_of_ne {r : ℕ} (hne : r ≠ rgr) : (l.destroy rgr).Migrated r ↔ l.Migrated r := by
  unfold Migrated destroy
  dsimp only
  rcases eq_or_ne (l.rangeGroup r) (l.rangeGroup rgr) with hg | hg
  · rw [hg, update_self, List.mem_erase_of_ne hne]
  · rw [update_of_ne hg]

theorem migrated_moveToMigrated_of_ne {r : ℕ} (hne : r ≠ rgr) :
    (l.moveToMigrated rgr).Migrated r ↔ l.Migrated r := by
  unfold Migrated
  rw [moveToMigrated_rangeGroup, moveToMigrated_migratedRanges]
  rcases eq_or_ne (l.rangeGroup r) (l.rangeGroup rgr) with hg | hg
  · rw [hg, update_self, List.mem_append, List.mem_singleton, List.mem_erase_of_ne hne]
    simp [hne]
  · rw [update_of_ne hg]

theorem migrated_moveToMigrated_self : (l.moveToMigrated rgr).Migrated rgr := by
  unfold Migrated
  simp

theorem destroyAll_rangeGroup (internal : List ℕ) :
    (internal.foldl GroupLists.destroy l).rangeGroup = l.rangeGroup := by
  induction internal generalizing l with
  | nil => rfl
  | cons rgr internal ih => exact ih

theorem migrated_destroyAll {internal : List ℕ} {r : ℕ} (hr : r ∉ internal) :
    (internal.foldl GroupLists.destroy l).Migrated r ↔ l.Migrated r := by
  induction internal generalizing l with
  | nil => exact Iff.rfl
  | cons rgr internal ih =>
    simp only [List.mem_cons, not_or] at hr
    exact (ih hr.2).trans (migrated_destroy_of_ne hr.1)

end GroupLists

namespace GroupTree

/-! ## The loop -/

def view (l : GroupLists) (rgr : Lib.Interval ℕ) : GroupRange :=
  ⟨rgr.start, rgr.last, ⟨l.rangeGroup rgr.val, decide (l.Migrated rgr.val)⟩⟩

def ids (tree : List (Lib.Interval ℕ)) : List ℕ := tree.map Interval.val

variable {l l' : GroupLists} {tree rest : List (Lib.Interval ℕ)} {internal : List ℕ} {next : Option ℕ}
  {rangeGroup : Option ℕ} {start last : ℕ} {rgr rgr' : Lib.Interval ℕ}

theorem mem_ids {r : ℕ} : r ∈ ids tree ↔ ∃ m ∈ tree, m.val = r := List.mem_map

theorem view_congr (hgroup : l'.rangeGroup rgr.val = l.rangeGroup rgr.val)
    (hmig : l'.Migrated rgr.val ↔ l.Migrated rgr.val) : view l' rgr = view l rgr := by
  unfold view
  rw [hgroup]
  simp only [hmig]

theorem map_view_congr (h : ∀ m ∈ tree, l'.rangeGroup m.val = l.rangeGroup m.val ∧
    (l'.Migrated m.val ↔ l.Migrated m.val)) : tree.map (view l') = tree.map (view l) :=
  List.map_congr_left fun m hm => view_congr (h m hm).1 (h m hm).2

/-- What the loop leaves when it is not left early. -/
structure LoopDone (next : Option ℕ) (tree : List (Lib.Interval ℕ)) (l : GroupLists)
    (internal : List ℕ) (r : List (Lib.Interval ℕ) × GroupLists × List ℕ) : Prop where
  ids_subset : ∀ q ∈ ids tree, q ∈ ids r.1
  subset_ids : ∀ q ∈ ids r.1, q ∈ ids tree ∨ q ∈ next
  nodup : (ids r.1).Nodup
  grow : ∀ q ∈ internal, q ∈ r.2.2
  internal_subset : ∀ q ∈ r.2.2, q ∈ internal ∨ q ∈ ids tree
  frame : ∀ q, q ∉ next → r.2.1.rangeGroup q = l.rangeGroup q ∧ (r.2.1.Migrated q ↔ l.Migrated q)
  sound : ∀ live pending : Set ℕ, l.Sound live pending → (∀ q ∈ ids tree, q ∈ live) →
    (∀ q ∈ internal, q ∉ live) → (∀ q ∈ next, q ∉ live ∧ q ∉ pending) →
      r.2.1.Sound ((live ∪ { q | q ∈ ids r.1 }) \ { q | q ∈ r.2.2 }) (pending ∪ { q | q ∈ r.2.2 })

variable {r : List (Lib.Interval ℕ) × GroupLists × List ℕ} {q : ℕ} {s : GroupTree}

private theorem LoopDone.cons (h : LoopDone next rest l internal r) (hval : rgr'.val = rgr.val)
    (hnot : rgr.val ∉ ids rest) (hnext : rgr.val ∉ next) :
    LoopDone next (rgr :: rest) l internal (rgr' :: r.1, r.2) := by
  refine ⟨fun q hq => ?_, fun q hq => ?_, List.nodup_cons.mpr ⟨?_, h.nodup⟩, h.grow,
    fun q hq => ?_, h.frame, fun live pending hsound hlive hout hfresh => ?_⟩
  · rcases List.mem_cons.mp hq with rfl | hq
    · exact List.mem_cons.mpr (.inl hval.symm)
    · exact List.mem_cons_of_mem _ (h.ids_subset q hq)
  · rcases List.mem_cons.mp hq with rfl | hq
    · exact .inl (List.mem_cons.mpr (.inl hval))
    · exact (h.subset_ids q hq).imp_left fun hq => List.mem_cons_of_mem _ hq
  · rw [hval]
    intro hmem
    rcases h.subset_ids _ hmem with hmem | hmem
    · exact hnot hmem
    · exact hnext hmem
  · exact (h.internal_subset q hq).imp_right fun hq => List.mem_cons_of_mem _ hq
  · have hrest := h.sound live pending hsound (fun q hq => hlive q (List.mem_cons_of_mem _ hq)) hout
      hfresh
    have heq : live ∪ { q | q ∈ ids (rgr' :: r.1) } = live ∪ { q | q ∈ ids r.1 } := by
      ext q
      simp only [ids, List.map_cons, List.mem_cons, Set.mem_union, hval]
      have := hlive rgr.val List.mem_cons_self
      constructor
      · rintro (hq | rfl | hq)
        · exact .inl hq
        · exact .inl this
        · exact .inr hq
      · rintro (hq | hq)
        · exact .inl hq
        · exact .inr (.inr hq)
    rw [heq]
    exact hrest

private theorem LoopDone.inside
    (h : LoopDone next rest (l.leaveRanges rgr.val) (rgr.val :: internal) r)
    (hnot : rgr.val ∉ ids rest) (hnext : rgr.val ∉ next) :
    LoopDone next (rgr :: rest) l internal (rgr :: r.1, r.2) := by
  have hself : rgr.val ∈ r.2.2 := h.grow _ List.mem_cons_self
  refine ⟨fun q hq => ?_, fun q hq => ?_, List.nodup_cons.mpr ⟨fun hmem => ?_, h.nodup⟩,
    fun q hq => h.grow q (List.mem_cons_of_mem _ hq), fun q hq => ?_, h.frame,
    fun live pending hsound hlive hout hfresh => ?_⟩
  · rcases List.mem_cons.mp hq with rfl | hq
    · exact List.mem_cons_self
    · exact List.mem_cons_of_mem _ (h.ids_subset q hq)
  · rcases List.mem_cons.mp hq with rfl | hq
    · exact .inl List.mem_cons_self
    · exact (h.subset_ids q hq).imp_left fun hq => List.mem_cons_of_mem _ hq
  · rcases h.subset_ids _ hmem with hmem | hmem
    · exact hnot hmem
    · exact hnext hmem
  · rcases h.internal_subset q hq with hq | hq
    · rcases List.mem_cons.mp hq with rfl | hq
      · exact .inr List.mem_cons_self
      · exact .inl hq
    · exact .inr (List.mem_cons_of_mem _ hq)
  · have hrgr := hlive rgr.val List.mem_cons_self
    have hrest := h.sound _ _ (hsound.leaveRanges hrgr)
      (fun q hq => ⟨hlive q (List.mem_cons_of_mem _ hq), fun heq => hnot (heq ▸ hq)⟩)
      (fun q hq hin => by
        rcases List.mem_cons.mp hq with rfl | hq
        · exact hin.2 rfl
        · exact hout q hq hin.1)
      (fun q hq => ⟨fun hin => (hfresh q hq).1 hin.1, fun hin => by
        rcases hin with rfl | hin
        · exact hnext hq
        · exact (hfresh q hq).2 hin⟩)
    have hliveEq : (live \ {rgr.val} ∪ { q | q ∈ ids r.1 }) \ { q | q ∈ r.2.2 } =
        (live ∪ { q | q ∈ ids (rgr :: r.1) }) \ { q | q ∈ r.2.2 } := by
      ext q
      simp only [ids, List.map_cons, List.mem_cons, Set.mem_union, Set.mem_ofPred_eq,
        Set.mem_sdiff]
      rcases eq_or_ne q rgr.val with rfl | hne
      · simp [hself]
      · simp [hne]
    have hpendingEq : insert rgr.val pending ∪ { q | q ∈ r.2.2 } = pending ∪ { q | q ∈ r.2.2 } := by
      ext q
      rcases eq_or_ne q rgr.val with rfl | hne
      · simp [hself]
      · simp [hne]
    rw [hliveEq, hpendingEq] at hrest
    exact hrest

private theorem LoopDone.refl (hnd : (ids tree).Nodup) :
    LoopDone next tree l internal (tree, l, internal) := by
  refine ⟨fun _ hq => hq, fun _ hq => .inl hq, hnd, fun _ hq => hq, fun _ hq => .inl hq,
    fun _ _ => ⟨rfl, Iff.rfl⟩, fun live pending hsound hlive hout hfresh => ?_⟩
  have hliveEq : (live ∪ { q | q ∈ ids tree }) \ { q | q ∈ internal } = live := by
    ext q
    constructor
    · rintro ⟨hq | hq, -⟩
      · exact hq
      · exact hlive q hq
    · exact fun hq => ⟨.inl hq, fun hin => hout q hin hq⟩
  rw [hliveEq]
  exact ⟨hsound.rangesNodup, hsound.mem_ranges, hsound.migratedNodup, fun g q hq => by
    obtain ⟨hin, hg⟩ := hsound.mem_migrated g q hq
    exact ⟨hin.imp_right Or.inl, hg⟩⟩

/-- The ranges that stay after the loop, as the tree without lists has them. -/
def remaining (r : List (Lib.Interval ℕ) × GroupLists × List ℕ) : List GroupRange :=
  (r.1.filter fun rgr => rgr.val ∉ r.2.2).map (view r.2.1)

/-- The loop and the one on the tree without lists, whose result is `plain`. -/
def LoopAgrees (next : Option ℕ) (tree : List (Lib.Interval ℕ)) (l : GroupLists) (internal : List ℕ)
    (plain : Except NvStatus (List GroupRange)) :
    Except NvStatus (List (Lib.Interval ℕ) × GroupLists × List ℕ) → Prop
  | .error status => plain = .error status
  | .ok r => LoopDone next tree l internal r ∧ plain = .ok (remaining r)

private theorem LoopAgrees.cons {plain : Except NvStatus (List GroupRange)}
    {e : Except NvStatus (List (Lib.Interval ℕ) × GroupLists × List ℕ)}
    (h : LoopAgrees next rest l internal plain e) (hval : rgr'.val = rgr.val)
    (hnot : rgr.val ∉ ids rest) (hnext : rgr.val ∉ next) (hout : rgr.val ∉ internal) :
    LoopAgrees next (rgr :: rest) l internal (plain.map (view l rgr' :: ·))
      (e.map fun r => (rgr' :: r.1, r.2)) := by
  cases e with
  | error status =>
    rw [h]
    rfl
  | ok r =>
    obtain ⟨hdone, rfl⟩ := h
    have hstays : rgr'.val ∉ r.2.2 := by
      rw [hval]
      intro hin
      rcases hdone.internal_subset _ hin with hin | hin
      · exact hout hin
      · exact hnot hin
    obtain ⟨hgroup, hmig⟩ := hdone.frame rgr'.val (by rw [hval]; exact hnext)
    refine ⟨hdone.cons hval hnot hnext, ?_⟩
    unfold remaining
    rw [List.filter_cons_of_pos (by simpa using hstays), List.map_cons, view_congr hgroup hmig]
    rfl

/-- What the split of a range does to the groups and to the lists. -/
def splitLists (l : GroupLists) (rgr next : ℕ) : GroupLists :=
  let l' := l.create (l.rangeGroup rgr) next
  if l.Migrated rgr then l'.moveToMigrated next else l'

variable (rgr) in
private theorem splitLists_frame {r : ℕ} (hne : r ≠ q) :
    (splitLists l rgr.val q).rangeGroup r = l.rangeGroup r ∧
      ((splitLists l rgr.val q).Migrated r ↔ l.Migrated r) := by
  have hcreate : (l.create (l.rangeGroup rgr.val) q).rangeGroup r = l.rangeGroup r :=
    update_of_ne hne ..
  have hmig : (l.create (l.rangeGroup rgr.val) q).Migrated r ↔ l.Migrated r := by
    unfold GroupLists.Migrated
    rw [hcreate]
    rfl
  unfold splitLists
  split
  · exact ⟨hcreate, (GroupLists.migrated_moveToMigrated_of_ne hne).trans hmig⟩
  · exact ⟨hcreate, hmig⟩

variable (rgr) in
private theorem splitLists_self (hfresh : ∀ g, q ∉ l.migratedRanges g) :
    (splitLists l rgr.val q).rangeGroup q = l.rangeGroup rgr.val ∧
      ((splitLists l rgr.val q).Migrated q ↔ l.Migrated rgr.val) := by
  have hcreate : (l.create (l.rangeGroup rgr.val) q).rangeGroup q = l.rangeGroup rgr.val :=
    update_self ..
  unfold splitLists
  split
  · next hmig =>
    exact ⟨hcreate, iff_of_true GroupLists.migrated_moveToMigrated_self hmig⟩
  · next hmig =>
    exact ⟨hcreate, iff_of_false (hfresh _) hmig⟩

variable (rgr) in
private theorem splitLists_sound {live pending : Set ℕ} (h : l.Sound live pending)
    (hlive : q ∉ live) (hpend : q ∉ pending) :
    (splitLists l rgr.val q).Sound (insert q live) pending := by
  have hcreate := h.create (g := l.rangeGroup rgr.val) hlive hpend
  unfold splitLists
  split
  · exact hcreate.moveToMigrated (Set.mem_insert q live)
  · exact hcreate

private theorem splitAgrees (hnd : (ids (rgr :: rest)).Nodup) (hq : q ∉ ids (rgr :: rest))
    (hqout : q ∉ internal) (hfresh : ∀ g, q ∉ l.migratedRanges g) (hout : rgr.val ∉ internal)
    (hrest : ∀ m ∈ rest, m.val ∉ internal) :
    LoopAgrees (some q) (rgr :: rest) l internal
      (.ok ({ view l rgr with last := start - 1 } :: { view l rgr with start := last + 1 } ::
        rest.map (view l)))
      (.ok ({ rgr with last := start - 1 } :: ⟨last + 1, rgr.last, q⟩ :: rest,
        splitLists l rgr.val q, internal)) := by
  have hframe : ∀ r, r ≠ q → _ := fun r hr => splitLists_frame (l := l) rgr hr
  obtain ⟨hgroup, hmig⟩ := splitLists_self rgr hfresh
  have hne : ∀ m ∈ rgr :: rest, m.val ≠ q := fun m hm heq => hq (heq ▸ mem_ids.mpr ⟨m, hm, rfl⟩)
  refine ⟨⟨?_, ?_, ?_, fun _ hr => hr, fun _ hr => .inl hr, ?_, ?_⟩, ?_⟩
  · intro r hr
    rcases List.mem_cons.mp hr with rfl | hr
    · exact List.mem_cons_self
    · exact List.mem_cons_of_mem _ (List.mem_cons_of_mem _ hr)
  · intro r hr
    simp only [ids, List.map_cons, List.mem_cons] at hr ⊢
    rcases hr with rfl | rfl | hr
    · exact .inl (.inl rfl)
    · exact .inr rfl
    · exact .inl (.inr hr)
  · obtain ⟨hnot, hnodup'⟩ := List.nodup_cons.mp hnd
    simp only [ids, List.map_cons, List.mem_cons, not_or] at hq
    refine List.nodup_cons.mpr ⟨fun hmem => ?_, List.nodup_cons.mpr ⟨hq.2, hnodup'⟩⟩
    rcases List.mem_cons.mp hmem with heq | hmem
    · exact hq.1 heq.symm
    · exact hnot hmem
  · exact fun r hr => hframe r fun heq => hr (heq ▸ rfl)
  · intro live pending hsound hlive hdisj hnext
    have hsplit := splitLists_sound rgr hsound (hnext q rfl).1 (hnext q rfl).2
    have hliveEq : (live ∪ { r | r ∈ ids ({ rgr with last := start - 1 } ::
        (⟨last + 1, rgr.last, q⟩ : Lib.Interval ℕ) :: rest) }) \ { r | r ∈ internal } =
          insert q live := by
      ext r
      simp only [ids, List.map_cons, List.mem_cons, Set.mem_union, Set.mem_ofPred_eq,
        Set.mem_sdiff]
      constructor
      · rintro ⟨hr | rfl | rfl | hr, -⟩
        · exact .inr hr
        · exact .inr (hlive _ List.mem_cons_self)
        · exact .inl rfl
        · exact .inr (hlive r (List.mem_cons_of_mem _ hr))
      · rintro (rfl | hr)
        · exact ⟨.inr (.inr (.inl rfl)), hqout⟩
        · exact ⟨.inl hr, fun hin => hdisj r hin hr⟩
    rw [hliveEq]
    exact ⟨hsplit.rangesNodup, hsplit.mem_ranges, hsplit.migratedNodup, fun g r hr => by
      obtain ⟨hin, hg⟩ := hsplit.mem_migrated g r hr
      exact ⟨hin.imp_right Or.inl, hg⟩⟩
  · unfold remaining
    rw [List.filter_eq_self.mpr fun m hm => ?_]
    · rw [List.map_cons, List.map_cons, map_view_congr fun m hm =>
        hframe m.val (hne m (List.mem_cons_of_mem _ hm))]
      have hrgr := hframe rgr.val (hne rgr List.mem_cons_self)
      unfold view
      simp only [hgroup, hmig, hrgr]
    · rcases List.mem_cons.mp hm with rfl | hm
      · simpa using hout
      · rcases List.mem_cons.mp hm with rfl | hm
        · simpa using hqout
        · simpa using hrest m hm

private theorem assignLoop_agrees (b : Bool) (hnd : (ids tree).Nodup)
    (hinternal : ∀ q ∈ internal, q ∉ ids tree)
    (hnext : ∀ q ∈ next, q ∉ ids tree ∧ q ∉ internal ∧ ∀ g, q ∉ l.migratedRanges g) :
    LoopAgrees next tree l internal
      (NvUvm.assignLoop ⟨b, next.isSome⟩ rangeGroup start last (tree.map (view l)))
      (assignLoop next rangeGroup start last tree l internal) := by
  induction tree generalizing l internal with
  | nil => exact ⟨.refl hnd, rfl⟩
  | cons rgr rest ih =>
    obtain ⟨hnot, hnodup'⟩ := List.nodup_cons.mp hnd
    have hrgrNext : rgr.val ∉ next := fun hq => (hnext _ hq).1 List.mem_cons_self
    have hrgrOut : rgr.val ∉ internal := fun hq => hinternal _ hq List.mem_cons_self
    have hinternalRest : ∀ q ∈ internal, q ∉ ids rest := fun q hq hin =>
      hinternal q hq (List.mem_cons_of_mem _ hin)
    have hnextRest : ∀ q ∈ next, q ∉ ids rest ∧ q ∉ internal ∧ ∀ g, q ∉ l.migratedRanges g :=
      fun q hq => ⟨fun hin => (hnext q hq).1 (List.mem_cons_of_mem _ hin), (hnext q hq).2⟩
    have hrest := ih hnodup' hinternalRest hnextRest
    -- a tree of which nothing is on the internal list is left as it is
    have hkeep : ∀ {t : List (Lib.Interval ℕ)}, (∀ m ∈ t, m.val ∉ internal) →
        (t.filter fun m => decide (m.val ∉ internal)) = t := fun h =>
      List.filter_eq_self.mpr fun m hm => by simpa using h m hm
    have hrestOut : ∀ m ∈ rest, m.val ∉ internal := fun m hm hin =>
      hinternalRest _ hin (mem_ids.mpr ⟨m, hm, rfl⟩)
    unfold assignLoop NvUvm.assignLoop
    change LoopAgrees next (rgr :: rest) l internal (if last < rgr.start then _ else
      if rgr.last < start then _ else if rgr.start < start ∧ last < rgr.last then _ else
        if rgr.start < start then _ else if last < rgr.last then _ else _) _
    split
    · -- the loop has passed the region
      refine ⟨.refl hnd, ?_⟩
      unfold remaining
      rw [hkeep (t := rgr :: rest) fun m hm => ?_]
      · rfl
      · rcases List.mem_cons.mp hm with rfl | hm
        · exact hrgrOut
        · exact hrestOut m hm
    · split
      · exact hrest.cons rfl hnot hrgrNext hrgrOut
      · split
        · -- the region lies strictly inside of this range
          change LoopAgrees next (rgr :: rest) l internal
            (if some (l.rangeGroup rgr.val) = rangeGroup then _ else _) _
          split
          · rfl
          · cases next with
            | none => rfl
            | some q =>
              obtain ⟨hqids, hqout, hqmigrated⟩ := hnext q rfl
              exact splitAgrees hnd hqids hqout hqmigrated hrgrOut hrestOut
        · split
          · have hval : ({ rgr with last := start - 1 } : Lib.Interval ℕ).val = rgr.val := rfl
            exact hrest.cons hval hnot hrgrNext hrgrOut
          · split
            · refine ⟨(LoopDone.refl hnodup').cons rfl hnot hrgrNext, ?_⟩
              unfold remaining
              rw [hkeep (t := { rgr with start := last + 1 } :: rest) fun m hm => ?_]
              · rfl
              · rcases List.mem_cons.mp hm with rfl | hm
                · exact hrgrOut
                · exact hrestOut m hm
            · -- this range lies within the region
              have hnot' : ∀ q ∈ rgr.val :: internal, q ∉ ids rest := by
                intro q hq
                rcases List.mem_cons.mp hq with rfl | hq
                · exact hnot
                · exact hinternalRest q hq
              have hin := ih (l := l.leaveRanges rgr.val) hnodup' hnot' fun q hq =>
                ⟨(hnextRest q hq).1, fun hmem => by
                  rcases List.mem_cons.mp hmem with rfl | hmem
                  · exact hrgrNext hq
                  · exact (hnextRest q hq).2.1 hmem, (hnextRest q hq).2.2⟩
              generalize assignLoop next rangeGroup start last rest (l.leaveRanges rgr.val)
                (rgr.val :: internal) = e at hin ⊢
              cases e with
              | error status => exact hin
              | ok r =>
                obtain ⟨hdone, hplain⟩ := hin
                refine ⟨hdone.inside hnot hrgrNext, hplain.trans ?_⟩
                have hself : rgr.val ∈ r.2.2 := hdone.grow _ List.mem_cons_self
                unfold remaining
                rw [List.filter_cons_of_neg (by simpa using hself)]

/-! ## The new range -/

def Listed (l : GroupLists) (tree : List (Lib.Interval ℕ)) : Prop :=
  (ids tree).Nodup ∧ l.Sound { q | q ∈ ids tree } ∅

private theorem Listed.destroy (h : Listed l tree) (hperm : (ids tree).Perm (q :: ids rest)) :
    Listed (l.destroy q) rest := by
  obtain ⟨hnot, hnd⟩ := List.nodup_cons.mp (hperm.nodup_iff.mp h.1)
  refine ⟨hnd, ?_⟩
  have hsound := h.2.destroy q
  have hliveEq : ({ r | r ∈ ids tree } : Set ℕ) \ {q} = { r | r ∈ ids rest } := by
    ext r
    simp only [Set.mem_sdiff, Set.mem_singleton_iff, hperm.mem_iff,
      List.mem_cons]
    constructor
    · rintro ⟨rfl | hr, hne⟩
      · exact absurd rfl hne
      · exact hr
    · exact fun hr => ⟨.inr hr, fun heq => hnot (heq ▸ hr)⟩
  have hnone : (∅ : Set ℕ) \ {q} = ∅ := by
    ext r
    simp
  rw [hliveEq, hnone] at hsound
  exact hsound

private theorem Listed.view_destroy (h : Listed l tree) (hperm : (ids tree).Perm (q :: ids rest))
    {m : Lib.Interval ℕ} (hm : m.val ∈ ids rest) : view (l.destroy q) m = view l m := by
  obtain ⟨hnot, -⟩ := List.nodup_cons.mp (hperm.nodup_iff.mp h.1)
  apply view_congr
  · rfl
  · exact GroupLists.migrated_destroy_of_ne fun heq => hnot (heq ▸ hm)

private theorem Listed.map_view_destroy (h : Listed l tree)
    (hperm : (ids tree).Perm (q :: ids rest)) {sub : List (Lib.Interval ℕ)}
    (hsub : ∀ m ∈ sub, m ∈ rest) : sub.map (view (l.destroy q)) = sub.map (view l) :=
  List.map_congr_left fun m hm => h.view_destroy hperm (mem_ids.mpr ⟨m, hsub m hm, rfl⟩)

private theorem mergeWithPrev_spec {before after : List (Lib.Interval ℕ)}
    (h : Listed l (before ++ rgr :: after)) :
    Listed (mergeWithPrev l before rgr).2.2
        ((mergeWithPrev l before rgr).1 ++ (mergeWithPrev l before rgr).2.1 :: after) ∧
      ((mergeWithPrev l before rgr).1.map (view (mergeWithPrev l before rgr).2.2),
          view (mergeWithPrev l before rgr).2.2 (mergeWithPrev l before rgr).2.1) =
        mergePrev NvUvm.sameGroup (before.map (view l)) (view l rgr) ∧
        after.map (view (mergeWithPrev l before rgr).2.2) = after.map (view l) := by
  rcases List.eq_nil_or_concat before with rfl | ⟨pre, prev, rfl⟩
  · exact ⟨h, rfl, rfl⟩
  · rw [List.concat_eq_append] at h ⊢
    have hwith : mergeWithPrev l (pre ++ [prev]) rgr =
        if prev.last + 1 = rgr.start ∧ l.sameGroup prev.val rgr.val then
          (pre, { rgr with start := prev.start }, l.destroy prev.val)
        else (pre ++ [prev], rgr, l) := by
      unfold mergeWithPrev
      rw [List.getLast?_concat, List.dropLast_concat]
    have hplain : mergePrev NvUvm.sameGroup ((pre ++ [prev]).map (view l)) (view l rgr) =
        if prev.last + 1 = rgr.start ∧ l.sameGroup prev.val rgr.val then
          (pre.map (view l), { view l rgr with start := prev.start })
        else ((pre ++ [prev]).map (view l), view l rgr) := by
      unfold mergePrev
      rw [List.map_append, List.map_singleton, List.getLast?_concat, List.dropLast_concat]
      rfl
    rw [hwith, hplain]
    split
    · -- the range before is destroyed
      have hperm : (ids (pre ++ [prev] ++ rgr :: after)).Perm
          (prev.val :: ids (pre ++ { rgr with start := prev.start } :: after)) := by
        simp only [ids, List.map_append, List.map_cons, List.append_assoc]
        exact List.perm_middle
      have hview := h.view_destroy hperm (m := rgr)
        (mem_ids.mpr ⟨{ rgr with start := prev.start }, by simp, rfl⟩)
      refine ⟨h.destroy hperm, ?_, ?_⟩
      · dsimp only
        rw [h.map_view_destroy hperm (fun m hm => by simp [hm]), ← hview]
        rfl
      · exact h.map_view_destroy hperm fun m hm => by simp [hm]
    · exact ⟨h, rfl, rfl⟩

private theorem mergeWithNext_spec {before after : List (Lib.Interval ℕ)}
    (h : Listed l (before ++ rgr :: after)) :
    Listed (mergeWithNext l rgr after).2.2
        (before ++ (mergeWithNext l rgr after).1 :: (mergeWithNext l rgr after).2.1) ∧
      (view (mergeWithNext l rgr after).2.2 (mergeWithNext l rgr after).1,
          (mergeWithNext l rgr after).2.1.map (view (mergeWithNext l rgr after).2.2)) =
        mergeNext NvUvm.sameGroup (view l rgr) (after.map (view l)) ∧
        before.map (view (mergeWithNext l rgr after).2.2) = before.map (view l) := by
  cases after with
  | nil => exact ⟨h, rfl, rfl⟩
  | cons next rest =>
    have hwith : mergeWithNext l rgr (next :: rest) =
        if next.start - 1 = rgr.last ∧ l.sameGroup next.val rgr.val then
          ({ rgr with last := next.last }, rest, l.destroy next.val)
        else (rgr, next :: rest, l) := rfl
    have hplain : mergeNext NvUvm.sameGroup (view l rgr) ((next :: rest).map (view l)) =
        if next.start - 1 = rgr.last ∧ l.sameGroup next.val rgr.val then
          ({ view l rgr with last := next.last }, rest.map (view l))
        else (view l rgr, (next :: rest).map (view l)) := rfl
    rw [hwith, hplain]
    split
    · -- the range behind is destroyed
      have hperm : (ids (before ++ rgr :: next :: rest)).Perm
          (next.val :: ids (before ++ { rgr with last := next.last } :: rest)) := by
        simp only [ids, List.map_append, List.map_cons]
        have hmiddle : (before.map Interval.val ++ rgr.val :: next.val :: rest.map Interval.val) =
            (before.map Interval.val ++ [rgr.val]) ++ next.val :: rest.map Interval.val := by simp
        rw [hmiddle]
        refine List.perm_middle.trans ?_
        simp
      have hview := h.view_destroy hperm (m := rgr)
        (mem_ids.mpr ⟨{ rgr with last := next.last }, by simp, rfl⟩)
      refine ⟨h.destroy hperm, ?_, ?_⟩
      · dsimp only
        rw [h.map_view_destroy hperm (fun m hm => by simp [hm]), ← hview]
        rfl
      · exact h.map_view_destroy hperm fun m hm => by simp [hm]
    · exact ⟨h, rfl, rfl⟩

theorem takeWhile_map_view {p : ℕ} : (tree.map (view l)).takeWhile (fun m => decide (m.last < p)) =
      (tree.takeWhile fun m => decide (m.last < p)).map (view l) := by
  rw [List.takeWhile_map]
  rfl

theorem seek_map_view {p : ℕ} : seek (tree.map (view l)) p = (seek tree p).map (view l) := by
  unfold seek
  rw [List.dropWhile_map]
  rfl

private theorem addMerged_spec (h : Listed s.lists (insertAt rgr s.tree)) :
    Listed (addMerged s rgr).lists (addMerged s rgr).tree ∧
      (addMerged s rgr).tree.map (view (addMerged s rgr).lists) =
        insertMerged NvUvm.sameGroup (view s.lists rgr) (s.tree.map (view s.lists)) := by
  obtain ⟨hlisted, hprev, hafter⟩ := mergeWithPrev_spec h
  obtain ⟨hlisted', hnext, hbefore⟩ := mergeWithNext_spec hlisted
  unfold addMerged insertMerged
  refine ⟨hlisted', ?_⟩
  have hstart : (view s.lists rgr).start = rgr.start := rfl
  rw [hstart, takeWhile_map_view, seek_map_view, ← hprev]
  dsimp only
  rw [← hafter, ← hnext, List.map_append, List.map_cons, hbefore]

/-! ## The operation -/

def plain (s : GroupTree) : List GroupRange := s.tree.map (view s.lists)

/-- **The invariant**: the ranges are disjoint, adjacent ranges of one group are merged, and each
group's lists hold what they should. -/
structure Inv (s : GroupTree) : Prop where
  ordered : Ordered s.tree
  separated : Separated s.lists.rangeGroup s.tree
  nodup : (ids s.tree).Nodup
  lists : s.lists.Sound { q | q ∈ ids s.tree } ∅

theorem ordered_plain : Ordered s.plain ↔ Ordered s.tree := by
  unfold Ordered plain
  rw [List.pairwise_map]
  simp only [List.mem_map, forall_exists_index, and_imp, forall_apply_eq_imp_iff₂]
  rfl

theorem separated_plain :
    Separated GroupRangeInfo.rangeGroup s.plain ↔ Separated s.lists.rangeGroup s.tree := by
  unfold Separated plain
  simp only [List.mem_map, forall_exists_index, and_imp, forall_apply_eq_imp_iff₂]
  rfl

def groupOf (s : GroupTree) (a : ℕ) : Option ℕ := valueAt s.lists.rangeGroup s.tree a

theorem groupAt_plain (a : ℕ) : groupAt s.plain a = s.groupOf a := by
  unfold groupAt groupOf valueAt lookup plain
  rw [seek_map_view]
  cases seek s.tree a with
  | nil => rfl
  | cons m rest =>
    change Option.map _ (if m.start ≤ a then some (view s.lists m) else none) =
      Option.map _ (if m.start ≤ a then some m else none)
    split <;> rfl

/-! ## The whole operation and the one without lists -/

private theorem mem_ids_filter :
    q ∈ ids (tree.filter fun m => m.val ∉ internal) ↔ q ∈ ids tree ∧ q ∉ internal := by
  simp only [mem_ids, List.mem_filter, decide_eq_true_eq]
  constructor
  · rintro ⟨m, ⟨hm, hout⟩, rfl⟩
    exact ⟨⟨m, hm, rfl⟩, hout⟩
  · rintro ⟨⟨m, hm, rfl⟩, hout⟩
    exact ⟨m, ⟨hm, hout⟩, rfl⟩

private theorem ids_insertAt_perm : (ids (insertAt rgr tree)).Perm (rgr.val :: ids tree) := by
  have hparts : ids tree = ids (tree.takeWhile fun m => decide (m.last < rgr.start)) ++
      ids (seek tree rgr.start) := by
    unfold ids seek
    rw [← List.map_append, List.takeWhile_append_dropWhile]
  rw [hparts]
  unfold insertAt
  simp only [ids, List.map_append]
  exact List.perm_middle

private theorem destroyInternal_sound {live : Set ℕ}
    (h : r.2.1.Sound (live \ { q | q ∈ r.2.2 }) (∅ ∪ { q | q ∈ r.2.2 })) :
    (destroyInternal r).lists.Sound (live \ { q | q ∈ r.2.2 }) ∅ := by
  have hall := h.destroyAll r.2.2
  have hlive : (live \ { q | q ∈ r.2.2 }) \ { q | q ∈ r.2.2 } = live \ { q | q ∈ r.2.2 } := by
    ext q
    simp only [Set.mem_sdiff]
    tauto
  have hnone : (∅ ∪ { q | q ∈ r.2.2 }) \ { q | q ∈ r.2.2 } = (∅ : Set ℕ) := by
    ext q
    simp
  rw [hlive, hnone] at hall
  exact hall

private theorem destroyInternal_plain (r : List (Lib.Interval ℕ) × GroupLists × List ℕ) :
    (destroyInternal r).plain = remaining r := by
  refine map_view_congr fun m hm => ?_
  have hout : m.val ∉ r.2.2 := by simpa using (List.mem_filter.mp hm).2
  exact ⟨congrFun (GroupLists.destroyAll_rangeGroup r.2.2) m.val,
    GroupLists.migrated_destroyAll hout⟩

private theorem destroyInternal_nodup (h : (ids r.1).Nodup) :
    (ids (destroyInternal r).tree).Nodup :=
  h.sublist (List.filter_sublist.map Interval.val)

/-- The operation has not changed anything. -/
structure Unchanged (s s' : GroupTree) : Prop where
  tree : s'.tree = s.tree
  rangeGroup : ∀ m ∈ s.tree, s'.lists.rangeGroup m.val = s.lists.rangeGroup m.val
  ranges : s'.lists.ranges = s.lists.ranges
  migratedRanges : s'.lists.migratedRanges = s.lists.migratedRanges

private theorem unchanged_destroy_create {new : ℕ} (group : ℕ) (hlisted : Listed s.lists s.tree)
    (hnew : new ∉ ids s.tree) : Unchanged s ⟨s.tree, (s.lists.create group new).destroy new⟩ := by
  have hfresh : new ∉ s.lists.migratedRanges group := by
    intro hmem
    rcases (hlisted.2.mem_migrated group new hmem).1 with hin | hin
    · exact hnew hin
    · exact hin
  refine ⟨rfl, fun m hm => update_of_ne (fun heq => hnew ?_) .., ?_, ?_⟩
  · exact heq ▸ mem_ids.mpr ⟨m, hm, rfl⟩
  · unfold GroupLists.destroy
    simp
  · unfold GroupLists.destroy
    simp [List.erase_of_not_mem hfresh]

theorem Unchanged.plain_eq {s' : GroupTree} (h : Unchanged s s') : s'.plain = s.plain := by
  unfold plain
  rw [h.tree]
  refine map_view_congr fun m hm => ⟨h.rangeGroup m hm, ?_⟩
  unfold GroupLists.Migrated
  rw [h.rangeGroup m hm, h.migratedRanges]

theorem Unchanged.listed {s' : GroupTree} (h : Unchanged s s') (hlisted : Listed s.lists s.tree) :
    Listed s'.lists s'.tree := by
  have hgroup : ∀ q ∈ ids s.tree, s'.lists.rangeGroup q = s.lists.rangeGroup q := by
    intro q hq
    obtain ⟨m, hm, rfl⟩ := mem_ids.mp hq
    exact h.rangeGroup m hm
  rw [Listed, h.tree]
  refine ⟨hlisted.1, fun g => ?_, fun g q => ?_, fun g => ?_, fun g q hq => ?_⟩
  · rw [h.ranges]
    exact hlisted.2.rangesNodup g
  · rw [h.ranges, hlisted.2.mem_ranges]
    exact and_congr_right fun hq => by rw [hgroup q hq]
  · rw [h.migratedRanges]
    exact hlisted.2.migratedNodup g
  · rw [h.migratedRanges] at hq
    obtain ⟨hin, hg⟩ := hlisted.2.mem_migrated g q hq
    refine ⟨hin, ?_⟩
    rcases hin with hin | hin
    · rw [hgroup q hin, hg]
    · exact hin.elim

/-- What the operation is to the one on the tree without lists, whose result is `plain`. -/
structure Agrees (s : GroupTree) (plain : NvStatus × List GroupRange) (r : NvStatus × GroupTree) :
    Prop where
  plain_eq : (r.1, r.2.plain) = plain
  listed : Listed r.2.lists r.2.tree
  unchanged : r.1 ≠ .ok → Unchanged s r.2

private theorem agrees_new {group new : ℕ} (hlisted : Listed s.lists s.tree)
    (hnew : new ∉ ids s.tree) (hne : new ∉ next) (hnext : ∀ q ∈ next, q ∉ ids s.tree)
    (h : LoopDone next s.tree (s.lists.create group new) [] r) :
    Agrees s (.ok, insertMerged NvUvm.sameGroup ⟨start, last, ⟨group, true⟩⟩ (remaining r))
      (.ok, addMerged (destroyInternal (r.1, r.2.1.moveToMigrated new, r.2.2))
        ⟨start, last, new⟩) := by
  have hcreated := hlisted.2.create (g := group) hnew id
  have hout : new ∉ r.2.2 := fun hin => by
    rcases h.internal_subset new hin with hin | hin
    · exact List.not_mem_nil hin
    · exact hnew hin
  have hnotTree : new ∉ ids r.1 := fun hin => by
    rcases h.subset_ids new hin with hin | hin
    · exact hnew hin
    · exact hne hin
  have hsound := h.sound _ ∅ hcreated (fun q hq => Set.mem_insert_of_mem new hq)
    (fun q hq => absurd hq List.not_mem_nil)
    (fun q hq => ⟨fun hin => by
      rcases hin with rfl | hin
      · exact hne hq
      · exact hnext q hq hin, id⟩)
  have hmoved := destroyInternal_sound (r := (r.1, r.2.1.moveToMigrated new, r.2.2))
    (hsound.moveToMigrated ⟨.inl (Set.mem_insert new _), hout⟩)
  have hmem : ∀ q, q ∈ ids (insertAt ⟨start, last, new⟩
      (destroyInternal (r.1, r.2.1.moveToMigrated new, r.2.2)).tree) ↔
        q = new ∨ q ∈ ids r.1 ∧ q ∉ r.2.2 := by
    intro q
    rw [ids_insertAt_perm.mem_iff, List.mem_cons]
    exact or_congr_right mem_ids_filter
  have hinsert : Listed (destroyInternal (r.1, r.2.1.moveToMigrated new, r.2.2)).lists
      (insertAt ⟨start, last, new⟩
        (destroyInternal (r.1, r.2.1.moveToMigrated new, r.2.2)).tree) := by
    refine ⟨ids_insertAt_perm.nodup_iff.mpr (List.nodup_cons.mpr ⟨fun hin => ?_, ?_⟩), ?_⟩
    · exact hnotTree (mem_ids_filter.mp hin).1
    · exact destroyInternal_nodup h.nodup
    · have hlive : (insert new { q | q ∈ ids s.tree } ∪ { q | q ∈ ids r.1 }) \ { q | q ∈ r.2.2 } =
          { q | q ∈ ids (insertAt ⟨start, last, new⟩
            (destroyInternal (r.1, r.2.1.moveToMigrated new, r.2.2)).tree) } := by
        ext q
        simp only [Set.mem_sdiff, Set.mem_union, Set.mem_insert_iff, hmem]
        constructor
        · rintro ⟨(rfl | hq) | hq, hnot⟩
          · exact .inl rfl
          · exact .inr ⟨h.ids_subset q hq, hnot⟩
          · exact .inr ⟨hq, hnot⟩
        · rintro (rfl | ⟨hq, hnot⟩)
          · exact ⟨.inl (.inl rfl), hout⟩
          · exact ⟨.inr hq, hnot⟩
      rw [← hlive]
      exact hmoved
  obtain ⟨hfinal, hplain⟩ := addMerged_spec hinsert
  refine ⟨?_, hfinal, fun hstat => absurd rfl hstat⟩
  have hview : view (destroyInternal (r.1, r.2.1.moveToMigrated new, r.2.2)).lists
      ⟨start, last, new⟩ = ⟨start, last, ⟨group, true⟩⟩ := by
    have hgroup : (r.2.2.foldl GroupLists.destroy (r.2.1.moveToMigrated new)).rangeGroup new =
        group := by
      rw [GroupLists.destroyAll_rangeGroup, GroupLists.moveToMigrated_rangeGroup,
        (h.frame new hne).1]
      exact update_self ..
    have hmig : (r.2.2.foldl GroupLists.destroy (r.2.1.moveToMigrated new)).Migrated new :=
      (GroupLists.migrated_destroyAll hout).mpr GroupLists.migrated_moveToMigrated_self
    unfold view destroyInternal
    simp only [hgroup, hmig, decide_true]
  have hrem : (destroyInternal (r.1, r.2.1.moveToMigrated new, r.2.2)).plain =
      remaining r := by
    rw [destroyInternal_plain]
    refine map_view_congr fun m hm => ⟨rfl, GroupLists.migrated_moveToMigrated_of_ne ?_⟩
    rintro heq
    exact hnotTree (heq ▸ mem_ids.mpr ⟨m, (List.mem_filter.mp hm).1, rfl⟩)
  rw [hview] at hplain
  rw [← hrem]
  exact congrArg (Prod.mk NvStatus.ok) hplain

variable (rangeGroup start last) in
theorem assignRange_agrees {newRgr : Option ℕ} (hlisted : Listed s.lists s.tree)
    (hnew : ∀ q ∈ newRgr, q ∉ ids s.tree ∧ q ∉ next) (hnext : ∀ q ∈ next, q ∉ ids s.tree) :
    Agrees s (uvmRangeGroupAssignRange ⟨newRgr.isSome, next.isSome⟩ rangeGroup start last s.plain)
      (assignRange newRgr next rangeGroup start last s) := by
  have hself : Unchanged s s := ⟨rfl, fun _ _ => rfl, rfl, rfl⟩
  have hfresh : ∀ q ∈ next, ∀ g, q ∉ s.lists.migratedRanges g := by
    intro q hq g hmem
    rcases (hlisted.2.mem_migrated g q hmem).1 with hin | hin
    · exact hnext q hq hin
    · exact hin
  cases rangeGroup with
  | none =>
    have hloop : LoopAgrees next s.tree s.lists []
        (NvUvm.assignLoop ⟨newRgr.isSome, next.isSome⟩ none start last s.plain)
        (assignLoop next none start last s.tree s.lists []) :=
      assignLoop_agrees newRgr.isSome hlisted.1 (fun q hq => absurd hq List.not_mem_nil)
      (fun q hq => ⟨hnext q hq, List.not_mem_nil, hfresh q hq⟩)
    unfold assignRange uvmRangeGroupAssignRange
    rw [if_neg (by simp)]
    dsimp only
    generalize assignLoop next none start last s.tree s.lists [] = e at hloop ⊢
    cases e with
    | error status =>
      rw [hloop]
      exact ⟨rfl, hlisted, fun _ => hself⟩
    | ok r =>
      obtain ⟨hdone, hplain⟩ := hloop
      rw [hplain]
      have hsound := hdone.sound _ ∅ hlisted.2 (fun q hq => hq)
        (fun q hq => absurd hq List.not_mem_nil) (fun q hq => ⟨hnext q hq, id⟩)
      refine ⟨congrArg (Prod.mk NvStatus.ok) (destroyInternal_plain r),
        ⟨destroyInternal_nodup hdone.nodup, ?_⟩, fun hstat => absurd rfl hstat⟩
      have hlive : ({ q | q ∈ ids s.tree } ∪ { q | q ∈ ids r.1 }) \ { q | q ∈ r.2.2 } =
          { q | q ∈ ids (destroyInternal r).tree } := by
        ext q
        refine Iff.trans ?_ mem_ids_filter.symm
        constructor
        · rintro ⟨hq | hq, hnot⟩
          · exact ⟨hdone.ids_subset q hq, hnot⟩
          · exact ⟨hq, hnot⟩
        · exact fun hq => ⟨.inr hq.1, hq.2⟩
      rw [← hlive]
      exact destroyInternal_sound hsound
  | some group =>
    cases newRgr with
    | none => exact ⟨rfl, hlisted, fun _ => hself⟩
    | some new =>
      obtain ⟨hnewTree, hnewNext⟩ := hnew new rfl
      have hsame := unchanged_destroy_create group hlisted hnewTree
      have hloop : LoopAgrees next s.tree (s.lists.create group new) []
          (NvUvm.assignLoop ⟨(some new).isSome, next.isSome⟩ (some group) start last
            (s.tree.map (view (s.lists.create group new))))
          (assignLoop next (some group) start last s.tree (s.lists.create group new) []) :=
        assignLoop_agrees (some new).isSome hlisted.1 (fun q hq => absurd hq List.not_mem_nil)
          (fun q hq => ⟨hnext q hq, List.not_mem_nil, hfresh q hq⟩)
      have hview : s.tree.map (view (s.lists.create group new)) = s.plain :=
        map_view_congr fun m hm => by
          have hm' : m.val ≠ new := fun heq => hnewTree (heq ▸ mem_ids.mpr ⟨m, hm, rfl⟩)
          have hgroup : (s.lists.create group new).rangeGroup m.val = s.lists.rangeGroup m.val :=
            update_of_ne hm' ..
          refine ⟨hgroup, ?_⟩
          unfold GroupLists.Migrated
          rw [hgroup]
          rfl
      rw [hview] at hloop
      unfold assignRange uvmRangeGroupAssignRange
      dsimp only
      generalize assignLoop next (some group) start last s.tree (s.lists.create group new) [] = e
        at hloop ⊢
      cases e with
      | error status =>
        rw [hloop]
        exact ⟨congrArg (Prod.mk status) hsame.plain_eq, hsame.listed hlisted,
          fun _ => hsame⟩
      | ok r =>
        obtain ⟨hdone, hplain⟩ := hloop
        rw [hplain]
        exact agrees_new hlisted hnewTree hnewNext hnext hdone

/-! ## What the operation does -/

/-- **What the operation should do**: the groups of the addresses change on `[start, last]` and
nowhere else, what was with a migrated range stays with one, and nothing changes when it fails. -/
structure AssignRight (rangeGroup : Option ℕ) (start last : ℕ) (s : GroupTree)
    (r : NvStatus × GroupTree) : Prop where
  inv : r.2.Inv
  status : r.1 = .ok ∨ r.1 = .errNoMemory
  assigned : r.1 = .ok → ∀ a, r.2.groupOf a =
    if start ≤ a ∧ a ≤ last then rangeGroup else s.groupOf a
  migrated : ∀ m ∈ s.tree, ∀ k ∈ r.2.tree, ∀ a, m.Contains a → k.Contains a →
    s.lists.Migrated m.val → r.2.lists.Migrated k.val
  failed : r.1 ≠ .ok → Unchanged s r.2

/-- **The range group tree is changed as it should be**, for every tree, range and group; the ranges
that the operation may create are new ones. -/
theorem assignRange_right {s : GroupTree} (h : s.Inv) (hsl : start ≤ last) (rangeGroup : Option ℕ)
    {newRgr next : Option ℕ} (hnew : ∀ q ∈ newRgr, q ∉ ids s.tree ∧ q ∉ next)
    (hnext : ∀ q ∈ next, q ∉ ids s.tree) :
    AssignRight rangeGroup start last s (assignRange newRgr next rangeGroup start last s) := by
  obtain ⟨heq, hlisted, hsame⟩ := assignRange_agrees rangeGroup start last
    ⟨h.nodup, h.lists⟩ hnew hnext
  have hord := ordered_plain.mpr h.ordered
  generalize assignRange newRgr next rangeGroup start last s = r at heq hlisted hsame ⊢
  have hspec := assignRange_spec ⟨newRgr.isSome, next.isSome⟩ rangeGroup hord hsl
  rw [← heq] at hspec
  have hseparated := assignRange_separated ⟨newRgr.isSome, next.isSome⟩ rangeGroup hord hsl
    (separated_plain.mpr h.separated)
  rw [← heq] at hseparated
  refine ⟨⟨ordered_plain.mp hspec.ordered, separated_plain.mp hseparated, hlisted.1, hlisted.2⟩,
    hspec.status, fun hok a => ?_, fun m hm k hk a hma hka hmig => ?_, hsame⟩
  · rw [← groupAt_plain, hspec.assigned hok a, groupAt_plain]
  · have hview := assignRange_migrated ⟨newRgr.isSome, next.isSome⟩ rangeGroup
      hord hsl (m := view s.lists m) (k := view r.2.lists k)
      (List.mem_map_of_mem hm) hma (decide_eq_true hmig)
    rw [← heq] at hview
    exact of_decide_eq_true (hview (List.mem_map_of_mem hk) hka)

/-- Addresses in the middle of a range go to another group, and the range is split. -/
theorem assignRange_right_split :
    let s : GroupTree := ⟨[⟨0, 99, 1⟩], fun _ => 7, fun g => if g = 7 then [1] else [], fun _ => []⟩
    s.Inv ∧ AssignRight (some 8) 10 19 s (assignRange (some 2) (some 3) (some 8) 10 19 s) ∧
      (assignRange (some 2) (some 3) (some 8) 10 19 s).2.tree =
        [⟨0, 9, 1⟩, ⟨10, 19, 2⟩, ⟨20, 99, 3⟩] := by
  have hinv : Inv ⟨[⟨0, 99, 1⟩], ⟨fun _ => 7, fun g => if g = 7 then [1] else [], fun _ => []⟩⟩ := by
    refine ⟨by decide, ?_, by decide, fun g => ?_, fun g r => ?_, fun g => List.nodup_nil,
      fun g r hr => absurd hr List.not_mem_nil⟩
    · simp [Separated]
    · change (if g = 7 then [1] else []).Nodup
      split <;> simp
    · change r ∈ (if g = 7 then [1] else []) ↔ r ∈ [1] ∧ 7 = g
      split
      · next hg => simp [hg]
      · next hg => simp [Ne.symm hg]
  refine ⟨hinv, assignRange_right hinv (by decide) (some 8) ?_ ?_, by decide⟩
  · rintro q ⟨⟩
    decide
  · rintro q ⟨⟩
    decide

end GroupTree

end NvUvm
