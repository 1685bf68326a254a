import NvUvm.RangePolicy

/-!
# Ranges whose migration is prevented

While the migration of a group is prevented, the ranges in it should have a preferred location that
all their UVM-Lite GPUs can access.  `uvm_range_group_set_migration_policy` sets the policy before it
checks that and leaves it set when the check fails, `uvm_api_set_range_group` does not look at the
UVM-Lite GPUs, and a failing `uvm_va_range_set_accessed_by` leaves a GPU in `accessed_by` that a
later call makes a UVM-Lite GPU.
-/

namespace NvUvm

open Lib
open Function (update update_of_ne update_self)

/-- The range has a preferred location, and all its UVM-Lite GPUs can access it. -/
def Located (topo : Topology) (n : VaRangeNode) : Prop :=
  ∃ p, n.val.preferredLocation = some p ∧
    maskSubset n.val.uvmLiteGpus (topo.accessibleFrom p) = true

/-- The ranges of groups that may not migrate are located, so `uvm_va_range_set_accessed_by` and
`uvm_va_range_check_logical_permissions` read `accessible_from` at a processor. -/
structure PoliciesSafe (topo : Topology) (s : VaSpace) : Prop where
  located : ∀ n ∈ s.vaRangeTree, n.val.type = .managed → ∀ rgr ∈ s.rangeGroupRanges,
    VaSpace.overlaps n rgr.start rgr.last = true → s.groupMigratable rgr.val.rangeGroup = false →
    Located topo n
  setAccessedBy : ∀ n ∈ s.vaRangeTree, n.val.type = .managed →
    s.allMigratable n.start n.last = false → n.val.preferredLocation ≠ none
  permissions : ∀ n ∈ s.vaRangeTree, n.val.type = .managed → ∀ a, n.Contains a →
    uvmRangeGroupAddressMigratable s.groupTree a = false → n.val.preferredLocation ≠ none

/-- A GPU that a call may make a UVM-Lite GPU of the range later can access the preferred location
unless it is one already. -/
def LiteKept (topo : Topology) (n : VaRangeNode) : Prop :=
  ∀ p, n.val.preferredLocation = some p → ∀ id,
    calcUvmLiteGpusMask topo (some p) n.val.accessedBy id = true →
    n.val.uvmLiteGpus id = true ∨ topo.accessibleFrom p id = true

/-- The condition on a call.  Preventing the migration of groups: the ranges in them are located.
Assigning to a group whose migration is prevented: the UVM-Lite GPUs of the ranges can access the
preferred location.  Setting accessed-by: where the unmapping of a range fails, the processor can
access the preferred location. -/
def AllowsPrevention (topo : Topology) (s : VaSpace) : PolicyOp → Prop
  | .setMigrationPolicy _ ids allowMigration => allowMigration = false →
    ∀ id ∈ ids, ∀ rgr ∈ s.rangeGroupRanges, rgr.val.rangeGroup = id →
      ∀ n ∈ s.vaRangeTree, n.val.type = .managed →
        VaSpace.overlaps n rgr.start rgr.last = true → Located topo n
  | .setRangeGroup _ region id => ∀ g, id = some g → s.groupMigratable g = false →
    ∀ n ∈ s.vaRangeTree, n.val.type = .managed →
      VaSpace.overlaps n region.base region.last = true →
      ∀ p, n.val.preferredLocation = some p →
        maskSubset n.val.uvmLiteGpus (topo.accessibleFrom p) = true
  | .setAccessedBy io region id setBit => setBit = true →
    ∀ n ∈ s.vaRangeTree, n.val.type = .managed →
      VaSpace.overlaps n region.base region.last = true →
      ∀ p, n.val.preferredLocation = some p →
        topo.accessibleFrom p id = true ∨ ∀ a, n.Contains a → io.rangeUnmap a = .ok
  | .createGroup _ => True
  | .setPreferredLocation _ _ _ => True
  | .split _ _ => True

/-- The VA space before the calls: no range has a preferred location, and no address a group. -/
structure PoliciesInitial (s : VaSpace) : Prop where
  ranges : Ordered s.vaRangeTree
  fresh : ∀ n ∈ s.vaRangeTree, n.val.preferredLocation = none
  noGroups : s.rangeGroupRanges = []

/-! ## Addresses whose migration is prevented -/

/-- The address is in a group whose migration is prevented. -/
def VaSpace.Prevented (s : VaSpace) (a : ℕ) : Prop :=
  ∃ rgr ∈ s.rangeGroupRanges, rgr.Contains a ∧ s.groupMigratable rgr.val.rangeGroup = false

variable {a last start : ℕ} {s s' s₁ : VaSpace} {β : Type*} {topo : Topology} {m n n' : VaRangeNode}
  {io : PolicyInput} {accessedBy : ProcessorMask} {p q id : ProcessorId} {allowMigration : Bool}
  {ids : List ℕ}

theorem prevented_iff (hg : Ordered s.rangeGroupRanges) : s.Prevented a ↔
      ∃ g, groupAt s.rangeGroupRanges a = some g ∧ s.groupMigratable g = false := by
  constructor
  · rintro ⟨rgr, hmem, ha, hg'⟩
    exact ⟨rgr.val.rangeGroup, (valueAt_eq_some hg).mpr ⟨rgr, hmem, ha, rfl⟩, hg'⟩
  · rintro ⟨g, hgroup, hg'⟩
    obtain ⟨rgr, hmem, ha, rfl⟩ := (valueAt_eq_some hg).mp hgroup
    exact ⟨rgr, hmem, ha, hg'⟩

theorem overlaps_iff {n : Interval β} (hn : n.start ≤ n.last) (hsl : start ≤ last) :
    VaSpace.overlaps n start last = true ↔ ∃ a, n.Contains a ∧ start ≤ a ∧ a ≤ last := by
  unfold VaSpace.overlaps Interval.Contains
  rw [decide_eq_true_iff]
  constructor
  · rintro ⟨h1, h2⟩
    exact ⟨max n.start start, by omega⟩
  · rintro ⟨a, ha⟩
    omega

theorem overlaps_of_contains {n : Interval β} (ha : n.Contains a) (hlo : start ≤ a)
    (hhi : a ≤ last) : VaSpace.overlaps n start last = true := by
  have h1 := ha.1
  have h2 := ha.2
  simp only [VaSpace.overlaps, decide_eq_true_iff]
  omega

theorem not_prevented_of_allMigratable (h : s.allMigratable start last = true) (hlo : start ≤ a)
    (hhi : a ≤ last) : ¬ s.Prevented a := by
  rintro ⟨rgr, hmem, ha, hg⟩
  have hrgr := List.all_eq_true.mp h rgr hmem
  rw [overlaps_of_contains ha hlo hhi, hg] at hrgr
  cases hrgr

theorem prevented_of_not_allMigratable (hg : Ordered s.rangeGroupRanges) (hsl : start ≤ last)
    (h : s.allMigratable start last = false) : ∃ a, start ≤ a ∧ a ≤ last ∧ s.Prevented a := by
  unfold VaSpace.allMigratable at h
  rw [List.all_eq_false] at h
  obtain ⟨rgr, hmem, hrgr⟩ := h
  simp only [Bool.or_eq_true, Bool.not_eq_true', not_or, Bool.not_eq_false,
    Bool.not_eq_true] at hrgr
  obtain ⟨a, ha, hlo, hhi⟩ := (overlaps_iff (hg.1 rgr hmem) hsl).mp hrgr.1
  exact ⟨a, hlo, hhi, rgr, hmem, ha, hrgr.2⟩

theorem ordered_groupTree (hg : Ordered s.rangeGroupRanges) : Ordered s.groupTree := by
  apply ordered_map ?_ hg
  intro rgr
  exact ⟨rfl, rfl⟩

theorem prevented_of_not_addressMigratable (hg : Ordered s.rangeGroupRanges)
    (h : uvmRangeGroupAddressMigratable s.groupTree a = false) : s.Prevented a := by
  have hord := ordered_groupTree hg
  unfold uvmRangeGroupAddressMigratable at h
  split at h
  · cases h
  · next rgr hfind =>
    obtain ⟨hmem, ha⟩ := (lookup_eq_some hord).mp hfind
    obtain ⟨q, hq, rfl⟩ := List.mem_map.mp hmem
    exact ⟨q, hq, ha, h⟩

theorem addressMigratable_of_prevented (hg : Ordered s.rangeGroupRanges) (h : s.Prevented a) :
    uvmRangeGroupAddressMigratable s.groupTree a = false := by
  have hord := ordered_groupTree hg
  obtain ⟨rgr, hmem, ha, hfalse⟩ := h
  have hfind := (lookup_eq_some hord).mpr ⟨List.mem_map.mpr ⟨rgr, hmem, rfl⟩, ha⟩
  unfold uvmRangeGroupAddressMigratable
  rw [hfind]
  exact hfalse

/-! ## The invariant -/

/-- What the invariant says of a range. -/
structure RangeSafe (topo : Topology) (s : VaSpace) (n : VaRangeNode) : Prop where
  located : ∀ a, n.Contains a → s.Prevented a → Located topo n
  lite : LiteKept topo n

/-- The invariant of the calls. -/
structure PolicyInv (topo : Topology) (s : VaSpace) : Prop where
  ranges : Ordered s.vaRangeTree
  groups : Ordered s.rangeGroupRanges
  safe : ∀ n ∈ s.vaRangeTree, n.val.type = .managed → RangeSafe topo s n

theorem PolicyInv.policiesSafe (h : PolicyInv topo s) : PoliciesSafe topo s := by
  refine ⟨fun n hn hm rgr hmem hover hg => ?_, fun n hn hm hall hnone => ?_,
    fun n hn hm a ha hfalse hnone => ?_⟩
  · obtain ⟨a, ha, hlo, hhi⟩ := (overlaps_iff (h.ranges.1 n hn) (h.groups.1 rgr hmem)).mp hover
    exact (h.safe n hn hm).located a ha ⟨rgr, hmem, ⟨hlo, hhi⟩, hg⟩
  · obtain ⟨a, hlo, hhi, hprev⟩ :=
      prevented_of_not_allMigratable h.groups (h.ranges.1 n hn) hall
    obtain ⟨p, hp, -⟩ := (h.safe n hn hm).located a ⟨hlo, hhi⟩ hprev
    rw [hnone] at hp
    cases hp
  · obtain ⟨p, hp, -⟩ := (h.safe n hn hm).located a ha
      (prevented_of_not_addressMigratable h.groups hfalse)
    rw [hnone] at hp
    cases hp

theorem PoliciesInitial.inv (topo : Topology) (h : PoliciesInitial s) : PolicyInv topo s := by
  refine ⟨h.ranges, by rw [h.noGroups]; exact ⟨by simp, .nil⟩, fun n hn _ => ⟨?_, ?_⟩⟩
  · rintro a - ⟨rgr, hmem, -⟩
    rw [h.noGroups] at hmem
    cases hmem
  · intro p hp
    rw [h.fresh n hn] at hp
    cases hp

theorem PolicyInv.regroup (h : PolicyInv topo s) (htree : s'.vaRangeTree = s.vaRangeTree)
    (hg : Ordered s'.rangeGroupRanges) (hprev : ∀ a, s'.Prevented a → s.Prevented a ∨
      ∀ n ∈ s.vaRangeTree, n.val.type = .managed → n.Contains a → Located topo n) :
    PolicyInv topo s' := by
  refine ⟨htree ▸ h.ranges, hg, fun n hn hm => ?_⟩
  rw [htree] at hn
  refine ⟨fun a ha hnew => ?_, (h.safe n hn hm).lite⟩
  rcases hprev a hnew with hold | hloc
  · exact (h.safe n hn hm).located a ha hold
  · exact hloc n hn hm ha

theorem mem_setRange : m ∈ (s.setRange n).vaRangeTree ↔
      (m = n ∧ ∃ q ∈ s.vaRangeTree, q.start = n.start) ∨
        (m ∈ s.vaRangeTree ∧ m.start ≠ n.start) := by
  simp only [VaSpace.setRange, VaSpace.replaceRange, List.mem_flatMap]
  constructor
  · rintro ⟨q, hq, hm⟩
    split at hm
    · next hstart => exact .inl ⟨List.mem_singleton.mp hm, q, hq, hstart⟩
    · next hstart =>
      obtain rfl := List.mem_singleton.mp hm
      exact .inr ⟨hq, hstart⟩
  · rintro (⟨rfl, q, hq, hstart⟩ | ⟨hm, hstart⟩)
    · exact ⟨q, hq, by simp [hstart]⟩
    · exact ⟨m, hm, by simp [hstart]⟩

theorem setRange_map (n : VaRangeNode) : (s.setRange n).vaRangeTree =
      s.vaRangeTree.map fun m => if m.start = n.start then n else m := by
  simp only [VaSpace.setRange, VaSpace.replaceRange]
  induction s.vaRangeTree with
  | nil => rfl
  | cons m rest ih =>
    rw [List.flatMap_cons, List.map_cons, ih]
    split <;> rfl

theorem ordered_replaceRange (ht : Ordered s.vaRangeTree) (hn : n ∈ s.vaRangeTree)
    {nodes : List VaRangeNode} (hnodes : Ordered nodes)
    (hin : ∀ m ∈ nodes, n.start ≤ m.start ∧ m.last ≤ n.last) :
    Ordered (s.replaceRange n nodes).vaRangeTree := by
  refine ordered_flatMap ht fun m hm => ?_
  split
  · next heq =>
    have hself : m = n := ht.unique (a := n.start) hm hn ⟨heq.le, heq ▸ ht.1 m hm⟩
      ⟨le_refl _, ht.1 n hn⟩
    rw [hself]
    exact ⟨hnodes, hin⟩
  · refine ⟨⟨?_, List.pairwise_singleton _ _⟩, ?_⟩
    · simpa using ht.1 m hm
    · simp

theorem ordered_singleton {n : Interval β} (h : n.start ≤ n.last) : Ordered [n] :=
  ⟨by simpa using h, List.pairwise_singleton _ _⟩

theorem ordered_setRange (ht : Ordered s.vaRangeTree) (hn : n ∈ s.vaRangeTree)
    (hstart : n'.start = n.start) (hlast : n'.last = n.last) :
    Ordered (s.setRange n').vaRangeTree := by
  have hle := ht.1 n hn
  have hsame : s.setRange n' = s.replaceRange n [n'] := by
    unfold VaSpace.setRange VaSpace.replaceRange
    rw [hstart]
  rw [hsame]
  exact ordered_replaceRange ht hn (ordered_singleton (by omega)) (by simp [hstart, hlast])

theorem PolicyInv.setRange (h : PolicyInv topo s) (hn : n ∈ s.vaRangeTree)
    (hstart : n'.start = n.start) (hlast : n'.last = n.last)
    (hsafe : n'.val.type = .managed → RangeSafe topo s n') : PolicyInv topo (s.setRange n') := by
  refine ⟨ordered_setRange h.ranges hn hstart hlast, h.groups, fun m hm hman => ?_⟩
  have hm' : RangeSafe topo s m := by
    rcases mem_setRange.mp hm with ⟨rfl, -⟩ | ⟨hm, -⟩
    · exact hsafe hman
    · exact h.safe m hm hman
  exact ⟨hm'.located, hm'.lite⟩

/-! ## Changes of the groups -/

/-- The same ranges, and no address that migration is prevented for anew. -/
structure FewerPrevented (s s' : VaSpace) : Prop where
  ranges : s'.vaRangeTree = s.vaRangeTree
  groups : Ordered s'.rangeGroupRanges
  prevented : ∀ a, s'.Prevented a → s.Prevented a

theorem FewerPrevented.refl (hg : Ordered s.rangeGroupRanges) :
    FewerPrevented s s := ⟨rfl, hg, fun _ h => h⟩

theorem FewerPrevented.trans {s₂ : VaSpace} (h₁ : FewerPrevented s s₁) (h₂ : FewerPrevented s₁ s₂) :
    FewerPrevented s s₂ :=
  ⟨h₂.ranges.trans h₁.ranges, h₂.groups, fun a ha => h₁.prevented a (h₂.prevented a ha)⟩

theorem PolicyInv.fewer (h : PolicyInv topo s) (hf : FewerPrevented s s') : PolicyInv topo s' :=
  h.regroup hf.ranges hf.groups fun a ha => .inl (hf.prevented a ha)

theorem prevented_map (s s' : VaSpace) {g : GroupRange → GroupRange}
    (hmap : s'.rangeGroupRanges = s.rangeGroupRanges.map g) (hgroups : s'.rangeGroups = s.rangeGroups)
    (hg : ∀ q, (g q).start = q.start ∧ (g q).last = q.last)
    (hval : ∀ q, (g q).val.rangeGroup = q.val.rangeGroup) (a : ℕ) :
    s'.Prevented a ↔ s.Prevented a := by
  have hmig : ∀ id, s'.groupMigratable id = s.groupMigratable id := fun id => by
    unfold VaSpace.groupMigratable
    rw [hgroups]
  have hcont : ∀ q, (g q).Contains a ↔ q.Contains a := fun q => by
    unfold Interval.Contains
    rw [(hg q).1, (hg q).2]
  simp only [VaSpace.Prevented, hmap, List.mem_map, exists_exists_and_eq_and, hcont, hval, hmig]

theorem markMigrated_prevented (a : ℕ) :
    (s.markMigrated start last).Prevented a ↔ s.Prevented a := by
  refine prevented_map s (s.markMigrated start last) rfl rfl (fun q => ?_) (fun q => ?_) a
  · split <;> exact ⟨rfl, rfl⟩
  · split <;> rfl

theorem markMigrated_fewer (hg : Ordered s.rangeGroupRanges) (start last : ℕ) :
    FewerPrevented s (s.markMigrated start last) := by
  refine ⟨rfl, ?_, fun a ha => (markMigrated_prevented a).mp ha⟩
  apply ordered_map ?_ hg
  intro q
  split <;> exact ⟨rfl, rfl⟩

theorem unassign_fewer (alloc : AssignAlloc) (hg : Ordered s.rangeGroupRanges)
    (hsl : start ≤ last) :
    FewerPrevented s (s.unassign alloc start last).2 ∧
      ((s.unassign alloc start last).1 = .ok → ∀ a, start ≤ a → a ≤ last →
        ¬ (s.unassign alloc start last).2.Prevented a) := by
  have hspec : AssignSpec none start last s.rangeGroupRanges
    (uvmRangeGroupAssignRange alloc none start last s.rangeGroupRanges) := assignRange_spec _ _ hg hsl
  have hprev : ∀ a, (s.unassign alloc start last).2.Prevented a ↔ ∃ g,
      groupAt (uvmRangeGroupAssignRange alloc none start last s.rangeGroupRanges).2 a = some g ∧
        s.groupMigratable g = false := fun a => prevented_iff hspec.ordered
  by_cases hok : (uvmRangeGroupAssignRange alloc none start last s.rangeGroupRanges).1 = .ok
  · refine ⟨⟨rfl, hspec.ordered, fun a ha => ?_⟩, fun _ a hlo hhi ha => ?_⟩
    · obtain ⟨g, hgroup, hfalse⟩ := (hprev a).mp ha
      rw [hspec.assigned hok] at hgroup
      split at hgroup
      · cases hgroup
      · exact (prevented_iff hg).mpr ⟨g, hgroup, hfalse⟩
    · obtain ⟨g, hgroup, -⟩ := (hprev a).mp ha
      rw [hspec.assigned hok, if_pos ⟨hlo, hhi⟩] at hgroup
      cases hgroup
  · refine ⟨⟨rfl, hspec.ordered, fun a ha => ?_⟩, fun h => absurd h hok⟩
    obtain ⟨g, hgroup, hfalse⟩ := (hprev a).mp ha
    rw [hspec.failed hok] at hgroup
    exact (prevented_iff hg).mpr ⟨g, hgroup, hfalse⟩

theorem unassignUnmigratable_fewer (hg : Ordered s.rangeGroupRanges) (hn : n.start ≤ n.last) :
    FewerPrevented s (s.unassignUnmigratable io n).2 ∧
      ((s.unassignUnmigratable io n).1 = .ok → ∀ a, n.Contains a →
        ¬ (s.unassignUnmigratable io n).2.Prevented a) := by
  have hord := ordered_groupTree hg
  have htiles := migratabilitySegments_tiles hord hn
  -- one segment
  have hbody : ∀ seg ∈ migratabilitySegments s.groupTree n.start n.last, ∀ s' : VaSpace,
      FewerPrevented s s' →
      FewerPrevented s' (if !seg.migratable then s'.unassign (io.assign seg.start) seg.start seg.last
        else (.ok, s')).2 := fun seg hseg s' hs' => by
    split
    · exact (unassign_fewer _ hs'.groups (htiles.bounds hseg).2.1).1
    · exact .refl hs'.groups
  refine ⟨?_, fun hok a ha => ?_⟩
  · exact runUntil_keeps (FewerPrevented s) _ (fun seg hseg s' hs' => hs'.trans (hbody seg hseg s' hs'))
      s (.refl hg)
  · have hdone : FewerPrevented s (s.unassignUnmigratable io n).2 ∧
        ∀ seg ∈ migratabilitySegments s.groupTree n.start n.last, ∀ a, seg.start ≤ a →
          a ≤ seg.last → ¬ (s.unassignUnmigratable io n).2.Prevented a := by
      refine runUntil_completed (fun pre s' => FewerPrevented s s' ∧ ∀ seg ∈ pre, ∀ a,
        seg.start ≤ a → a ≤ seg.last → ¬ s'.Prevented a)
        (migratabilitySegments s.groupTree n.start n.last) (fun pre seg post s' hsplit hI hgo => ?_)
        _ [] s rfl ⟨.refl hg, List.forall_mem_nil _⟩ (NvStatus.isOk_eq_true.mpr hok)
      have hmem : seg ∈ migratabilitySegments s.groupTree n.start n.last := by
        rw [hsplit]
        simp
      have hfewer := hbody seg hmem s' hI.1
      refine ⟨hI.1.trans hfewer, fun q hq a hlo hhi hprev => ?_⟩
      rcases List.mem_append.mp hq with hq | hq
      · exact hI.2 q hq a hlo hhi (hfewer.prevented a hprev)
      · obtain rfl := List.mem_singleton.mp hq
        have hhom := migratabilitySegments_homogeneous hord hn hmem hlo hhi
        cases hmig : q.migratable with
        | true =>
          -- a segment that may migrate has no such address to begin with
          have hfalse := addressMigratable_of_prevented hg
            (hI.1.prevented a (hfewer.prevented a hprev))
          rw [hhom, hmig] at hfalse
          cases hfalse
        | false =>
          simp only [hmig, Bool.not_false] at hgo hprev
          exact (unassign_fewer _ hI.1.groups (htiles.bounds hmem).2.1).2
            (NvStatus.isOk_eq_true.mp hgo) a hlo hhi hprev
    obtain ⟨seg, hseg, hlo, hhi⟩ := htiles.covers ha.1 ha.2
    exact hdone.2 seg hseg a hlo hhi

/-! ## Changes of one range -/

/-- A call on the range `n`: it keeps the invariant and leaves the other ranges alone. -/
structure RangeStep (topo : Topology) (n : VaRangeNode) (s s' : VaSpace) : Prop where
  inv : PolicyInv topo s'
  others : ∀ m ∈ s.vaRangeTree, m.start ≠ n.start → m ∈ s'.vaRangeTree

theorem RangeStep.of_fewer (h : PolicyInv topo s) (hf : FewerPrevented s s') :
    RangeStep topo n s s' :=
  ⟨h.fewer hf, fun m hm _ => by rwa [hf.ranges]⟩

theorem RangeStep.of_setRange (h : PolicyInv topo s) (hf : FewerPrevented s s₁)
    (hn : n ∈ s.vaRangeTree) (hstart : n'.start = n.start) (hlast : n'.last = n.last)
    (hsafe : n'.val.type = .managed → RangeSafe topo s₁ n') :
    RangeStep topo n s (s₁.setRange n') := by
  have hn₁ : n ∈ s₁.vaRangeTree := by rwa [hf.ranges]
  refine ⟨(h.fewer hf).setRange hn₁ hstart hlast hsafe, fun m hm hne => ?_⟩
  exact mem_setRange.mpr (.inr ⟨by rwa [hf.ranges], by rwa [hstart]⟩)

theorem setRange_setRange (h : n.start = m.start) : (s.setRange n).setRange m = s.setRange m := by
  have htree : ((s.setRange n).setRange m).vaRangeTree = (s.setRange m).vaRangeTree := by
    rw [setRange_map, setRange_map, setRange_map, List.map_map]
    refine List.map_congr_left fun q _ => ?_
    by_cases hq : q.start = m.start
    · simp [hq, h]
    · simp [h, hq]
  rw [VaSpace.mk.injEq]
  exact ⟨htree, rfl, rfl, rfl⟩

theorem calcUvmLiteGpusMask_eq_true : calcUvmLiteGpusMask topo (some p) accessedBy q = true ↔
      ¬ (p ≠ cpuId ∧ topo.faultableProcessors p = true) ∧
        ((q ≠ cpuId ∧ accessedBy q = true ∧ topo.faultableProcessors q = false) ∨
          (p ≠ cpuId ∧ q = p)) := by
  unfold calcUvmLiteGpusMask
  dsimp only
  split
  · next hp => simp [hp]
  · next hp =>
    simp only [Bool.or_eq_true, Bool.and_eq_true, decide_eq_true_iff, Bool.not_eq_true', hp,
      not_false_eq_true, true_and, and_assoc]

theorem calcUvmLiteGpusMask_set
    (h : calcUvmLiteGpusMask topo (some p) (update accessedBy id true) q = true) :
    calcUvmLiteGpusMask topo (some p) accessedBy q = true ∨
      q = id ∧ id ≠ cpuId ∧ topo.faultableProcessors id = false := by
  rw [calcUvmLiteGpusMask_eq_true] at h ⊢
  by_cases hq : q = id
  · subst hq
    rcases h with ⟨hp, ⟨hcpu, -, hf⟩ | hpref⟩
    · exact .inr ⟨rfl, hcpu, hf⟩
    · exact .inl ⟨hp, .inr hpref⟩
  · rw [update_of_ne hq] at h
    exact .inl h

theorem calcUvmLiteGpusMask_unset
    (h : calcUvmLiteGpusMask topo (some p) (update accessedBy id false) q = true) :
    calcUvmLiteGpusMask topo (some p) accessedBy q = true := by
  rw [calcUvmLiteGpusMask_eq_true] at h ⊢
  by_cases hq : q = id
  · subst hq
    rcases h with ⟨hp, ⟨-, hset, -⟩ | hpref⟩
    · rw [update_self] at hset
      cases hset
    · exact ⟨hp, .inr hpref⟩
  · rwa [update_of_ne hq] at h

theorem Located.calc_accessible (hloc : Located topo n) (hlite : LiteKept topo n)
    (hp : n.val.preferredLocation = some p)
    (hid : calcUvmLiteGpusMask topo (some p) n.val.accessedBy id = true) :
    topo.accessibleFrom p id = true := by
  obtain ⟨p', hp', hsub⟩ := hloc
  obtain rfl : p' = p := Option.some.inj (hp'.symm.trans hp)
  rcases hlite p' hp id hid with hold | hacc
  · exact maskSubset_eq_true.mp hsub id hold
  · exact hacc

theorem liteKept_of_calc (h : n.val.uvmLiteGpus =
      calcUvmLiteGpusMask topo n.val.preferredLocation n.val.accessedBy) : LiteKept topo n := by
  intro p hp id hid
  rw [hp] at h
  exact .inl (by rwa [h])

theorem setPreferredLocation_step {preferredLocation : Option ProcessorId} (h : PolicyInv topo s)
    (hn : n ∈ s.vaRangeTree) :
    RangeStep topo n s (s.uvmVaRangeSetPreferredLocation topo io n preferredLocation).2 := by
  have hle := h.ranges.1 n hn
  unfold VaSpace.uvmVaRangeSetPreferredLocation
  split
  · exact .of_fewer h (.refl h.groups)
  · have hmark := markMigrated_fewer h.groups n.start n.last
    dsimp only
    generalize s.markMigrated n.start n.last = s₁ at hmark ⊢
    split
    · exact .of_fewer h hmark
    · next hcheck =>
      -- the groups after the loop that clears the association of unmigratable segments
      have hgroups : FewerPrevented s (if preferredLocation.isNone then
          s₁.unassignUnmigratable io n else (.ok, s₁)).2 := by
        split
        · exact hmark.trans (unassignUnmigratable_fewer hmark.groups hle).1
        · exact hmark
      have hlocated : (if preferredLocation.isNone then s₁.unassignUnmigratable io n
          else (.ok, s₁)).1 = .ok → ∀ a, n.Contains a →
          (if preferredLocation.isNone then s₁.unassignUnmigratable io n
            else (.ok, s₁)).2.Prevented a →
          ∃ p, preferredLocation = some p ∧
            maskSubset (calcUvmLiteGpusMask topo (some p) n.val.accessedBy)
              (topo.accessibleFrom p) = true := by
        intro hok a ha hprev
        cases preferredLocation with
        | none =>
          exact absurd hprev ((unassignUnmigratable_fewer hmark.groups hle).2 hok a ha)
        | some p =>
          have hall : s₁.allMigratable n.start n.last = false := by
            cases hall : s₁.allMigratable n.start n.last with
            | true => exact absurd hprev (not_prevented_of_allMigratable hall ha.1 ha.2)
            | false => rfl
          simpa [hall, Topology.accessible] using hcheck
      generalize (if preferredLocation.isNone then s₁.unassignUnmigratable io n
        else (.ok, s₁)) = r at hgroups hlocated ⊢
      split
      · exact .of_fewer h hgroups
      · next hok =>
        split
        · exact .of_fewer h hgroups
        · have hset : RangeStep topo n s (r.2.setRange { n with val := { n.val with
              preferredLocation := preferredLocation
              uvmLiteGpus := calcUvmLiteGpusMask topo preferredLocation n.val.accessedBy } }) := by
            refine .of_setRange h hgroups hn rfl rfl fun hm => ⟨fun a ha hprev => ?_, ?_⟩
            · obtain ⟨p, rfl, hsub⟩ := hlocated (not_not.mp hok) a ha hprev
              exact ⟨p, rfl, hsub⟩
            · exact liteKept_of_calc rfl
          split
          · exact hset
          · exact hset

theorem setAccessedBy_step (h : PolicyInv topo s) (hn : n ∈ s.vaRangeTree)
    (hunmap : n.val.type = .managed → ∀ p, n.val.preferredLocation = some p →
      topo.accessibleFrom p id = true ∨ io.rangeUnmap n.start = .ok) :
    RangeStep topo n s (s.uvmVaRangeSetAccessedBy topo io id n).2 := by
  have hrefl := FewerPrevented.refl h.groups
  unfold VaSpace.uvmVaRangeSetAccessedBy
  split
  · exact .of_fewer h hrefl
  · next hcheck =>
    dsimp only
    split
    · next hlite =>
      refine .of_setRange h hrefl hn rfl rfl fun hm => ⟨(h.safe n hn hm).located, ?_⟩
      intro p hp q hq
      rcases calcUvmLiteGpusMask_set hq with hold | ⟨rfl, -, -⟩
      · exact (h.safe n hn hm).lite p hp q hold
      · exact .inl hlite
    · split
      · next hfail =>
        refine .of_setRange h hrefl hn rfl rfl fun hm => ⟨(h.safe n hn hm).located, ?_⟩
        intro p hp q hq
        rcases calcUvmLiteGpusMask_set hq with hold | ⟨rfl, -, -⟩
        · exact (h.safe n hn hm).lite p hp q hold
        · exact .inr ((hunmap hm p hp).resolve_right hfail.2)
      · rw [setRange_setRange (by rfl)]
        refine .of_setRange h hrefl hn rfl rfl fun hm => ⟨fun a ha hprev => ?_, liteKept_of_calc rfl⟩
        have hsafe := h.safe n hn hm
        have hloc := hsafe.located a ha hprev
        have ⟨p, hp, _⟩ := hloc
        refine ⟨p, hp, maskSubset_eq_true.mpr fun q hq => ?_⟩
        rw [hp] at hq
        rcases calcUvmLiteGpusMask_set hq with hold | ⟨rfl, hcpu, hfault⟩
        · exact hloc.calc_accessible hsafe.lite hp hold
        · -- the check at the top
          have hall : s.allMigratable n.start n.last = false := by
            cases hall : s.allMigratable n.start n.last with
            | true => exact absurd hprev (not_prevented_of_allMigratable hall ha.1 ha.2)
            | false => rfl
          simpa [hall, hcpu, hfault, hp, Topology.accessible] using hcheck

theorem unsetAccessedBy_step (h : PolicyInv topo s) (hn : n ∈ s.vaRangeTree) :
    RangeStep topo n s (s.uvmVaRangeUnsetAccessedBy topo id n) := by
  have hmark := markMigrated_fewer h.groups n.start n.last
  refine .of_setRange h hmark hn rfl rfl fun hm => ⟨fun a ha hprev => ?_, liteKept_of_calc rfl⟩
  have hsafe := h.safe n hn hm
  have hloc := hsafe.located a ha (hmark.prevented a hprev)
  have ⟨p, hp, _⟩ := hloc
  refine ⟨p, hp, maskSubset_eq_true.mpr fun q hq => ?_⟩
  rw [hp] at hq
  exact hloc.calc_accessible hsafe.lite hp (calcUvmLiteGpusMask_unset hq)

theorem rangeLoop_inv {body : VaRangeNode → VaSpace → NvStatus × VaSpace} {items : List VaRangeNode}
    (hitems : items <:+: s.vaRangeTree)
    (hbody : ∀ n ∈ items, ∀ s', PolicyInv topo s' → n ∈ s'.vaRangeTree →
      RangeStep topo n s' (body n s').2) (h : PolicyInv topo s) :
    PolicyInv topo (runUntil NvStatus.isOk .ok body items s).2 := by
  have hord : items.Pairwise fun n m => n.last < m.start := h.ranges.2.sublist hitems.sublist
  -- the ranges still to come are in the tree as the loop read them
  obtain ⟨handled, -, hinv, -⟩ := runUntil_inv (fun pre (s' : VaSpace) => PolicyInv topo s' ∧
    ∀ n ∈ items, (∀ m ∈ pre, m.start ≠ n.start) → n ∈ s'.vaRangeTree) items
    (fun pre n post s' hsplit hI => by
      have hn : n ∈ items := by
        rw [hsplit]
        simp
      have hbefore : ∀ m ∈ pre, m.start ≠ n.start := fun m hm => by
        rw [hsplit] at hord
        have hlt := (List.pairwise_append.mp hord).2.2 m hm n (by simp)
        have hm' : m ∈ items := by
          rw [hsplit]
          simp [hm]
        have := h.ranges.1 m (hitems.subset hm')
        omega
      have hstep := hbody n hn s' hI.1 (hI.2 n hn hbefore)
      refine ⟨hstep.inv, fun m hm hne => hstep.others m (hI.2 m hm fun q hq => ?_) ?_⟩
      · exact hne q (by simp [hq])
      · exact (hne n (by simp)).symm)
    items [] s rfl ⟨h, fun n hn _ => hitems.subset hn⟩
  exact hinv

/-! ## Splits -/

/-- A part of a range, with its policy. -/
structure PartOf (n m : VaRangeNode) : Prop where
  start : n.start ≤ m.start
  last : m.last ≤ n.last
  policy : m.val.toVaRangePolicy = n.val.toVaRangePolicy
  accessedBy : m.val.accessedBy = n.val.accessedBy

theorem PartOf.refl (n : VaRangeNode) : PartOf n n := ⟨le_refl _, le_refl _, rfl, rfl⟩

theorem PartOf.trans {k : VaRangeNode} (h₁ : PartOf n m) (h₂ : PartOf m k) : PartOf n k :=
  ⟨h₁.start.trans h₂.start, h₂.last.trans h₁.last, h₂.policy.trans h₁.policy,
    h₂.accessedBy.trans h₁.accessedBy⟩

theorem PartOf.contains (h : PartOf n m) (ha : m.Contains a) :
    n.Contains a := ⟨h.start.trans ha.1, ha.2.trans h.last⟩

theorem PartOf.type (h : PartOf n m) : m.val.type = n.val.type :=
  congrArg VaRangePolicy.type h.policy

theorem PartOf.preferredLocation (h : PartOf n m) :
    m.val.preferredLocation = n.val.preferredLocation :=
  congrArg VaRangePolicy.preferredLocation h.policy

theorem PartOf.uvmLiteGpus (h : PartOf n m) : m.val.uvmLiteGpus = n.val.uvmLiteGpus :=
  congrArg VaRangePolicy.uvmLiteGpus h.policy

/-- The ranges are parts of those before, and no address is prevented from migrating anew. -/
structure SplitOf (s s' : VaSpace) : Prop where
  ranges : Ordered s'.vaRangeTree
  groups : Ordered s'.rangeGroupRanges
  prevented : ∀ a, s'.Prevented a → s.Prevented a
  parts : ∀ m ∈ s'.vaRangeTree, ∃ n ∈ s.vaRangeTree, PartOf n m

theorem SplitOf.refl (ht : Ordered s.vaRangeTree) (hg : Ordered s.rangeGroupRanges) :
    SplitOf s s := ⟨ht, hg, fun _ h => h, fun m hm => ⟨m, hm, .refl m⟩⟩

theorem SplitOf.trans {s₂ : VaSpace} (h₁ : SplitOf s s₁) (h₂ : SplitOf s₁ s₂) : SplitOf s s₂ := by
  refine ⟨h₂.ranges, h₂.groups, fun a ha => h₁.prevented a (h₂.prevented a ha), fun m hm => ?_⟩
  obtain ⟨q, hq, hqm⟩ := h₂.parts m hm
  obtain ⟨n, hn, hnq⟩ := h₁.parts q hq
  exact ⟨n, hn, hnq.trans hqm⟩

theorem PolicyInv.splitOf (h : PolicyInv topo s) (hs : SplitOf s s') : PolicyInv topo s' := by
  refine ⟨hs.ranges, hs.groups, fun m hm hman => ?_⟩
  obtain ⟨n, hn, hpart⟩ := hs.parts m hm
  have hsafe := h.safe n hn (hpart.type ▸ hman)
  refine ⟨fun a ha hprev => ?_, fun p hp id hid => ?_⟩
  · obtain ⟨p, hp, hsub⟩ := hsafe.located a (hpart.contains ha) (hs.prevented a hprev)
    exact ⟨p, hpart.preferredLocation.trans hp, by rwa [hpart.uvmLiteGpus]⟩
  · rw [hpart.accessedBy] at hid
    rw [hpart.uvmLiteGpus]
    exact hsafe.lite p (hpart.preferredLocation.symm.trans hp) id hid

theorem destroy_splitOf (ht : Ordered s.vaRangeTree) (hg : Ordered s.rangeGroupRanges)
    {alloc : AssignAlloc} (hsl : start ≤ last) :
    SplitOf s (s.uvmVaRangeDestroy alloc start last) := by
  have hfewer := (unassign_fewer alloc hg hsl).1
  exact ⟨ht, hfewer.groups, hfewer.prevented, fun m hm => ⟨m, hm, .refl m⟩⟩

theorem replaceRange_splitOf (ht : Ordered s.vaRangeTree) (hg : Ordered s.rangeGroupRanges)
    (hn : n ∈ s.vaRangeTree) {nodes : List VaRangeNode} (hnodes : Ordered nodes)
    (hparts : ∀ m ∈ nodes, PartOf n m) : SplitOf s (s.replaceRange n nodes) := by
  refine ⟨ordered_replaceRange ht hn hnodes fun m hm => ⟨(hparts m hm).start, (hparts m hm).last⟩,
    hg, fun _ h => h, fun m hm => ?_⟩
  obtain ⟨q, hq, hm⟩ := List.mem_flatMap.mp hm
  split at hm
  · exact ⟨n, hn, hparts m hm⟩
  · obtain rfl := List.mem_singleton.mp hm
    exact ⟨m, hq, .refl m⟩

theorem splitBlocks_parts {io : SplitInput} {existing new : VaRangeNode}
    {r : NvStatus × VaRangeNode × VaRangeNode} (hr : uvmVaRangeSplitBlocks io existing new = r) :
    (r.2.1.start = existing.start ∧ r.2.1.last = existing.last ∧ PartOf existing r.2.1) ∧
      r.2.2.start = new.start ∧ r.2.2.last = new.last ∧ PartOf new r.2.2 := by
  subst hr
  have hself : ∀ n m : VaRangeNode, m.start = n.start → m.last = n.last →
      m.val.toVaRangePolicy = n.val.toVaRangePolicy → m.val.accessedBy = n.val.accessedBy →
      m.start = n.start ∧ m.last = n.last ∧ PartOf n m :=
    fun n m h1 h2 h3 h4 => ⟨h1, h2, h1.ge, h2.le, h3, h4⟩
  unfold uvmVaRangeSplitBlocks splitBlocksTail
  dsimp only
  constructor
  · apply hself <;> repeat' (first | rfl | split)
  · apply hself <;> repeat' (first | rfl | split)

theorem split_splitOf (ht : Ordered s.vaRangeTree) (hg : Ordered s.rangeGroupRanges)
    {io : SplitInput} {newEnd : ℕ} (hn : n ∈ s.vaRangeTree) (hlo : n.start ≤ newEnd)
    (hhi : newEnd < n.last) : SplitOf s (s.uvmVaRangeSplit io n newEnd).2 := by
  unfold VaSpace.uvmVaRangeSplit VaSpace.uvmVaRangeAllocManaged
  cases io.zalloc with
  | false => exact .refl ht hg
  | true =>
    cases io.blocksAlloc with
    | false => exact destroy_splitOf ht hg (by omega)
    | true =>
      simp only [Bool.not_true, Bool.false_eq_true, if_false]
      generalize hr : uvmVaRangeSplitBlocks io n _ = r
      obtain ⟨⟨hs₁, hl₁, hpart₁⟩, hs₂, hl₂, hpart₂⟩ := splitBlocks_parts hr
      change r.2.2.start = newEnd + 1 at hs₂
      change r.2.2.last = n.last at hl₂
      have hpart : PartOf n r.2.2 :=
        ⟨by omega, by omega, hpart₂.policy, hpart₂.accessedBy⟩
      split
      · -- the range stays as it is, and the new one is destroyed
        have hrepl := replaceRange_splitOf ht hg hn
          (ordered_singleton (n := r.2.1) (by omega))
          (by simpa using hpart₁)
        exact hrepl.trans (destroy_splitOf hrepl.ranges hrepl.groups (by omega))
      · refine replaceRange_splitOf ht hg hn ⟨?_, ?_⟩ ?_
        · simp only [List.mem_cons, List.not_mem_nil, or_false, forall_eq_or_imp, forall_eq]
          omega
        · simp only [List.pairwise_cons, List.mem_cons, List.not_mem_nil, or_false]
          simp
          omega
        · simp only [List.mem_cons, List.not_mem_nil, or_false, forall_eq_or_imp, forall_eq]
          exact ⟨⟨hpart₁.start, by dsimp only; omega, hpart₁.policy, hpart₁.accessedBy⟩,
            hpart⟩

theorem splitAsNeeded_splitOf (ht : Ordered s.vaRangeTree) (hg : Ordered s.rangeGroupRanges)
    (io : PolicyInput) (splitNeeded : VaRangeNode → Bool) (addr : ℕ) :
    SplitOf s (s.uvmVaSpaceSplitAsNeeded io splitNeeded addr).2 := by
  unfold VaSpace.uvmVaSpaceSplitAsNeeded
  split
  · exact .refl ht hg
  · next n hfind =>
    obtain ⟨hn, hlo, hhi⟩ := (lookup_eq_some ht).mp hfind
    split
    · exact .refl ht hg
    · next hstart =>
      split
      · exact .refl ht hg
      · split
        · exact split_splitOf ht hg hn (by omega) (by omega)
        · exact .refl ht hg

theorem splitSpanAsNeeded_splitOf (ht : Ordered s.vaRangeTree) (hg : Ordered s.rangeGroupRanges)
    (io : PolicyInput) (splitNeeded : VaRangeNode → Bool) (startAddr endAddr : ℕ) :
    SplitOf s (s.uvmVaSpaceSplitSpanAsNeeded io splitNeeded startAddr endAddr).2 := by
  have hfirst := splitAsNeeded_splitOf ht hg io splitNeeded startAddr
  unfold VaSpace.uvmVaSpaceSplitSpanAsNeeded
  dsimp only
  split
  · exact hfirst
  · exact hfirst.trans (splitAsNeeded_splitOf hfirst.ranges hfirst.groups io splitNeeded endAddr)

/-! ## The calls -/

theorem managedInContig_isInfix (s : VaSpace) (start last : ℕ) :
    s.managedInContig start last <:+: s.vaRangeTree :=
  (List.takeWhile_prefix _).isInfix.trans (contigFromTo_isInfix _ _ _)

theorem overlaps_of_mem_contig {l : List (Interval β)} (hsl : start ≤ last) {n : Interval β}
    (hn : n ∈ contigFromTo l start last) (ht : Ordered l) :
    VaSpace.overlaps n start last = true := by
  unfold contigFromTo at hn
  split at hn
  · cases hn
  · next m rest hseek =>
    have hsuf : Ordered (m :: rest) := ht.of_suffix (hseek ▸ seek_suffix l start)
    have hm := le_last_of_seek hseek
    split at hn
    · next hstart =>
      rcases List.mem_cons.mp hn with rfl | hn
      · simp only [VaSpace.overlaps, decide_eq_true_iff]
        omega
      · have h1 := contigAfter_start_le hn
        have h2 := hsuf.head_lt ((contigAfter_isPrefix _ _ _).subset hn)
        have h3 := hsuf.1 n (List.mem_cons_of_mem _ ((contigAfter_isPrefix _ _ _).subset hn))
        simp only [VaSpace.overlaps, decide_eq_true_iff]
        omega
    · cases hn

theorem covers_of_coverStatus (h : VaSpace.coverStatus (s.managedInContig start last) last = .ok)
    (hlo : start ≤ a) (hhi : a ≤ last) : ∃ m ∈ s.managedInContig start last, m.Contains a := by
  unfold VaSpace.coverStatus at h
  split at h
  · cases h
  · next n hlast =>
    split at h
    · cases h
    · next hle =>
      exact covers_of_isPrefix (List.takeWhile_prefix _) hlast (Nat.not_lt.mp hle) hlo hhi

theorem preferredLocationSet_inv {base : ℕ} {preferredLocation : Option ProcessorId}
    (h : PolicyInv topo s) :
    PolicyInv topo (s.preferredLocationSet topo io base last preferredLocation).2 := by
  have hsplit := h.splitOf (splitSpanAsNeeded_splitOf h.ranges h.groups io
    (fun n => decide (preferredLocation ≠ n.val.preferredLocation)) base (last + 1))
  unfold VaSpace.preferredLocationSet
  dsimp only
  generalize s.uvmVaSpaceSplitSpanAsNeeded io _ base (last + 1) = r at hsplit ⊢
  split
  · exact hsplit
  · have hloop : PolicyInv topo (runUntil NvStatus.isOk .ok (fun n (s : VaSpace) =>
        s.preferredLocationSetRange topo io base last preferredLocation n)
        (r.2.managedInContig base last) r.2).2 := by
      apply rangeLoop_inv (managedInContig_isInfix r.2 base last) ?_ hsplit
      intro n _ s' hs' hn'
      unfold VaSpace.preferredLocationSetRange
      generalize (!s'.allMigratable (max base n.start) (min last n.last) && _) = faultCapable
      cases faultCapable with
      | true => exact .of_fewer hs' (.refl hs'.groups)
      | false => exact setPreferredLocation_step hs' hn'
    split
    · exact hloop
    · exact hloop

theorem accessedBySet_inv {region : ApiRegion} {setBit : Bool} (h : PolicyInv topo s)
    (hcond : AllowsPrevention topo s (.setAccessedBy io region id setBit)) :
    PolicyInv topo (s.accessedBySet topo io region.base region.last id setBit).2 := by
  have hof := splitSpanAsNeeded_splitOf h.ranges h.groups io
    (fun n => decide (n.val.accessedBy id ≠ setBit)) region.base (region.last + 1)
  unfold VaSpace.accessedBySet
  dsimp only
  generalize s.uvmVaSpaceSplitSpanAsNeeded io _ region.base (region.last + 1) = r at hof ⊢
  have hsplit := h.splitOf hof
  split
  · exact hsplit
  · have hloop : PolicyInv topo (runUntil NvStatus.isOk .ok (fun n (s : VaSpace) =>
        if setBit then s.uvmVaRangeSetAccessedBy topo io id n
        else (.ok, s.uvmVaRangeUnsetAccessedBy topo id n))
        (r.2.managedInContig region.base region.last) r.2).2 := by
      apply rangeLoop_inv (managedInContig_isInfix r.2 region.base region.last) ?_ hsplit
      intro n hn s' hs' hn'
      cases setBit with
      | false => exact unsetAccessedBy_step hs' hn'
      | true =>
        refine setAccessedBy_step hs' hn' fun hman p hp => ?_
        -- the range is part of one that the condition speaks of
        have hmem := (managedInContig_isInfix r.2 region.base region.last).subset hn
        obtain ⟨q, hq, hpart⟩ := hof.parts n hmem
        have hover := overlaps_of_mem_contig region.le ((List.takeWhile_prefix _).subset hn)
          hof.ranges
        obtain ⟨a, ha, hlo, hhi⟩ := (overlaps_iff (hof.ranges.1 n hmem) region.le).mp hover
        rcases hcond rfl q hq (hpart.type ▸ hman) (overlaps_of_contains (hpart.contains ha) hlo hhi)
          p (hpart.preferredLocation ▸ hp) with hacc | hok
        · exact .inl hacc
        · exact .inr (hok n.start (hpart.contains ⟨le_refl _, hof.ranges.1 n hmem⟩))
    generalize runUntil NvStatus.isOk .ok _ (r.2.managedInContig region.base region.last) r.2 = q
      at hloop ⊢
    split
    · exact hloop
    · exact hloop

theorem setRangeGroup_inv {region : ApiRegion} {id : Option ℕ} (h : PolicyInv topo s)
    (hcond : AllowsPrevention topo s (.setRangeGroup io region id)) :
    PolicyInv topo (s.uvmApiSetRangeGroup io region.base region.last id).2 := by
  unfold VaSpace.uvmApiSetRangeGroup
  split
  · exact h
  · dsimp only
    split
    · exact h
    · next hpref =>
      split
      · exact h
      · next hcover =>
        have hspec : AssignSpec id region.base region.last s.rangeGroupRanges
          (uvmRangeGroupAssignRange (io.assign region.base) id region.base region.last
            s.rangeGroupRanges) := assignRange_spec _ _ h.groups region.le
        generalize uvmRangeGroupAssignRange (io.assign region.base) id region.base region.last
          s.rangeGroupRanges = r at hspec ⊢
        have hinv : PolicyInv topo { s with rangeGroupRanges := r.2 } := by
          refine h.regroup rfl hspec.ordered fun a ha => ?_
          obtain ⟨g, hgroup, hfalse⟩ := (prevented_iff hspec.ordered).mp ha
          by_cases hok : r.1 = .ok
          · rw [hspec.assigned hok] at hgroup
            split at hgroup
            · next hin =>
              -- an address of the region: its range is one that the loop checked
              right
              intro n hn hman hna
              have hnone : ¬ n.val.preferredLocation = none := fun hnone => by
                have hmig : (id.map s.groupMigratable).getD true = false := by
                  rw [hgroup]
                  exact hfalse
                rw [hmig] at hpref
                apply hpref
                obtain ⟨m, hm, hma⟩ := covers_of_coverStatus (not_not.mp hcover) hin.1 hin.2
                have hmem := (managedInContig_isInfix s region.base region.last).subset hm
                obtain rfl := h.ranges.unique hmem hn hma hna
                simp only [Bool.not_false, Bool.true_and, List.any_eq_true]
                exact ⟨m, hm, by simp [hnone]⟩
              obtain ⟨p, hp⟩ := Option.ne_none_iff_exists'.mp hnone
              exact ⟨p, hp, hcond g hgroup hfalse n hn hman
                (overlaps_of_contains hna hin.1 hin.2) p hp⟩
            · exact .inl ((prevented_iff h.groups).mpr ⟨g, hgroup, hfalse⟩)
          · rw [hspec.failed hok] at hgroup
            exact .inl ((prevented_iff h.groups).mpr ⟨g, hgroup, hfalse⟩)
        split
        · exact hinv
        · exact hinv

/-- What a change of the migration policy of groups does to ranges and groups. -/
structure PolicyChange (ids : List ℕ) (allowMigration : Bool) (s s' : VaSpace) : Prop where
  ranges : s'.vaRangeTree = s.vaRangeTree
  ordered : Ordered s'.rangeGroupRanges
  groups : ∀ a, groupAt s'.rangeGroupRanges a = groupAt s.rangeGroupRanges a
  prevented : ∀ g, s'.groupMigratable g = false →
    s.groupMigratable g = false ∨ allowMigration = false ∧ g ∈ ids

theorem preventGroupRange_change {rgr : GroupRange} (h : PolicyChange ids allowMigration s s') :
    PolicyChange ids allowMigration s (s'.preventGroupRange topo io rgr).2 := by
  unfold VaSpace.preventGroupRange
  dsimp only
  split
  · exact h
  · have hbounds : ∀ q : GroupRange,
        (if q.start = rgr.start then { q with val := { q.val with migrated := false } }
          else q).start = q.start ∧
        (if q.start = rgr.start then { q with val := { q.val with migrated := false } }
          else q).last = q.last := fun q => by
      split <;> exact ⟨rfl, rfl⟩
    refine ⟨h.ranges, ordered_map hbounds h.ordered, fun a => ?_, h.prevented⟩
    rw [← h.groups a]
    refine valueAt_map hbounds (fun q => ?_) h.ordered a
    split <;> rfl

theorem setGroupPolicy_change {id : ℕ} (hid : id ∈ ids) (h : PolicyChange ids allowMigration s s') :
    PolicyChange ids allowMigration s
      (s'.uvmRangeGroupSetMigrationPolicy topo io id allowMigration).2 := by
  have hset : PolicyChange ids allowMigration s
      { s' with rangeGroups := update s'.rangeGroups id (some allowMigration) } := by
    refine ⟨h.ranges, h.ordered, h.groups, fun g hfalse => ?_⟩
    by_cases hg : g = id
    · subst hg
      simp only [VaSpace.groupMigratable, update_self] at hfalse
      exact .inr ⟨hfalse, hid⟩
    · simp only [VaSpace.groupMigratable, update_of_ne hg] at hfalse
      exact h.prevented g hfalse
  unfold VaSpace.uvmRangeGroupSetMigrationPolicy
  split
  · exact hset
  · exact runUntil_keeps (PolicyChange ids allowMigration s) _
      (fun _ _ _ hs => preventGroupRange_change hs) _ hset

theorem setMigrationPolicy_change (hg : Ordered s.rangeGroupRanges) :
    PolicyChange ids allowMigration s
      (s.uvmRangeGroupsSetMigrationPolicy topo io ids allowMigration).2 := by
  have hself : PolicyChange ids allowMigration s s :=
    ⟨rfl, hg, fun _ => rfl, fun _ hg => .inl hg⟩
  unfold VaSpace.uvmRangeGroupsSetMigrationPolicy
  split
  · exact hself
  · refine runUntil_keeps (PolicyChange ids allowMigration s) ids (fun id hid s' hs => ?_) s hself
    split
    · exact hs
    · exact setGroupPolicy_change hid hs

theorem setMigrationPolicy_inv (h : PolicyInv topo s)
    (hcond : AllowsPrevention topo s (.setMigrationPolicy io ids allowMigration)) :
    PolicyInv topo (s.uvmRangeGroupsSetMigrationPolicy topo io ids allowMigration).2 := by
  have hchange : PolicyChange ids allowMigration s
      (s.uvmRangeGroupsSetMigrationPolicy topo io ids allowMigration).2 :=
    setMigrationPolicy_change h.groups
  refine h.regroup hchange.ranges hchange.ordered fun a ha => ?_
  obtain ⟨g, hgroup, hfalse⟩ := (prevented_iff hchange.ordered).mp ha
  rw [hchange.groups] at hgroup
  rcases hchange.prevented g hfalse with hold | ⟨hprevent, hg⟩
  · exact .inl ((prevented_iff h.groups).mpr ⟨g, hgroup, hold⟩)
  · right
    intro n hn hman hna
    obtain ⟨rgr, hmem, hra, hval⟩ := (valueAt_eq_some h.groups).mp hgroup
    exact hcond hprevent g hg rgr hmem hval n hn hman (overlaps_of_contains hna hra.1 hra.2)

theorem createRangeGroup_inv (h : PolicyInv topo s) :
    PolicyInv topo (s.uvmApiCreateRangeGroup io).2 := by
  unfold VaSpace.uvmApiCreateRangeGroup
  split
  · exact h
  · dsimp only
    split
    · exact h.regroup rfl h.groups fun a ha => .inl ha
    · refine h.regroup rfl h.groups fun a ha => .inl ?_
      obtain ⟨rgr, hmem, hra, hfalse⟩ := ha
      refine ⟨rgr, hmem, hra, ?_⟩
      by_cases hid : rgr.val.rangeGroup = s.rangeGroupIdCounter + 1
      · rw [hid] at hfalse
        simp [VaSpace.groupMigratable] at hfalse
      · simpa [VaSpace.groupMigratable, update_of_ne hid] using hfalse

theorem policyStep_inv (topo : Topology) (s : VaSpace) (op : PolicyOp) (h : PolicyInv topo s)
    (hcond : AllowsPrevention topo s op) : PolicyInv topo (s.policyStep topo op) := by
  cases op with
  | createGroup io => exact createRangeGroup_inv h
  | setRangeGroup io region id => exact setRangeGroup_inv h hcond
  | setMigrationPolicy io ids allowMigration => exact setMigrationPolicy_inv h hcond
  | setPreferredLocation io region id => exact preferredLocationSet_inv h
  | setAccessedBy io region id setBit => exact accessedBySet_inv h hcond
  | split io newEnd =>
    simp only [VaSpace.policyStep]
    split
    · exact h
    · next n hfind =>
      split
      · next hsplit =>
        obtain ⟨hn, hlo, -⟩ := (lookup_eq_some h.ranges).mp hfind
        exact h.splitOf (split_splitOf h.ranges h.groups hn hlo hsplit.2)
      · exact h

/-- **Preventing migration along a run**: while every call meets the condition, every managed range
in a group that may not migrate has a preferred location that all its UVM-Lite GPUs can access, and
`accessible_from` is read at a processor only. -/
theorem policiesSafe_along (topo : Topology) {s : VaSpace} (hinit : PoliciesInitial s)
    (ops : List PolicyOp)
    (h : StepsMeet (VaSpace.policyStep topo) (AllowsPrevention topo) s ops) :
    HoldsAlong (VaSpace.policyStep topo) (PoliciesSafe topo) s ops :=
  holds_along_of_meets _ (hinit.inv topo) (fun _ hs => hs.policiesSafe)
    (fun s op hs hcond => policyStep_inv topo s op hs hcond) h

def policyInput : PolicyInput where
  split := fun _ => { noBlockArray with blocksAlloc := true }
  assign := fun _ => ⟨true, true⟩
  rangeUnmap := fun _ => .ok
  setAccessedBy := fun _ => .ok
  mapUvmLiteGpus := fun _ => .ok
  migrate := fun _ => .ok
  groupAlloc := true
  radixInsert := .ok
  migratedOrder := fun _ => 0

/-- A system whose GPUs cannot fault and access nothing but themselves. -/
def noPeerTopology : Topology where
  faultableProcessors := fun _ => false
  accessibleFrom := fun p id => decide (p = id)
  pastEnd := fun _ => false

def oneRangeSpace : VaSpace where
  vaRangeTree := [oneMbRange]
  rangeGroups := fun _ => none
  rangeGroupIdCounter := 0
  rangeGroupRanges := []

def oneRangeRegion : ApiRegion := ⟨2097152, 3145727, by decide⟩

theorem oneRangeSpace_initial : PoliciesInitial oneRangeSpace :=
  ⟨by decide, by simp [oneRangeSpace, oneMbRange], rfl⟩

/-- The range in a group, with a preferred location, and then its migration prevented. -/
theorem policiesSafe_along_located :
    HoldsAlong (VaSpace.policyStep noPeerTopology) (PoliciesSafe noPeerTopology) oneRangeSpace
      [.createGroup policyInput, .setRangeGroup policyInput oneRangeRegion (some 1),
        .setPreferredLocation policyInput oneRangeRegion (some 1),
        .setMigrationPolicy policyInput [1] false] := by
  apply policiesSafe_along noPeerTopology oneRangeSpace_initial
  rw [stepsMeet_cons, stepsMeet_cons, stepsMeet_cons, stepsMeet_cons]
  refine ⟨trivial, ?_, trivial, ?_, stepsMeet_nil _ _ _⟩
  · -- the group allows migration when the range is assigned to it
    rintro g hg hfalse
    obtain rfl := Option.some.inj hg
    exact absurd hfalse (by decide)
  · rintro - id - rgr - - n hn - -
    have htree : n ∈ [{ oneMbRange with val := { oneMbRange.val with
        preferredLocation := some 1
        uvmLiteGpus := calcUvmLiteGpusMask noPeerTopology (some 1) oneMbRange.val.accessedBy } }] :=
      hn
    obtain rfl := List.mem_singleton.mp htree
    exact ⟨1, rfl, by decide⟩

/-- The same without a preferred location: the last call fails, but the policy stays. -/
def unlocatedRun : List PolicyOp :=
  [.createGroup policyInput, .setRangeGroup policyInput oneRangeRegion (some 1),
    .setMigrationPolicy policyInput [1] false]

/-- Its state has the range in a group whose migration is prevented and no preferred location. -/
theorem failed_prevention_stays :
    ¬ HoldsAlong (VaSpace.policyStep noPeerTopology) (PoliciesSafe noPeerTopology) oneRangeSpace
      unlocatedRun := by
  intro h
  have hsafe := h unlocatedRun (List.prefix_refl _)
  have hgroups : (run (VaSpace.policyStep noPeerTopology) oneRangeSpace
      unlocatedRun).rangeGroupRanges = [⟨2097152, 3145727, ⟨1, true⟩⟩] := by decide +kernel
  have htree : (run (VaSpace.policyStep noPeerTopology) oneRangeSpace
      unlocatedRun).vaRangeTree = [oneMbRange] :=
    (setMigrationPolicy_change (by decide)).ranges
  obtain ⟨p, hp, -⟩ := hsafe.located oneMbRange (by rw [htree]; simp) rfl
    ⟨2097152, 3145727, ⟨1, true⟩⟩ (by rw [hgroups]; simp) (by decide) (by decide +kernel)
  cases hp

/-! ## Accesses where migration is prevented -/

/-- What the check of an access to a managed range finds, with the permissions of the range itself
given: where migration is prevented there is a preferred location, the GPUs that can access it pass,
all UVM-Lite GPUs among them, and the CPU does not. -/
def AccessesDecided (topo : Topology) (s : VaSpace) : Prop :=
  ∀ n ∈ s.vaRangeTree, n.val.type = .managed → ∀ a, n.Contains a → ∀ tests,
    let migratable := uvmRangeGroupAddressMigratable s.groupTree a
    let check := fun id => uvmVaRangeCheckLogicalPermissions topo tests true n id migratable
    if migratable then ∀ id, check id = .ok
    else check cpuId ≠ .ok ∧ ∃ p, n.val.preferredLocation = some p ∧ ∀ id ≠ cpuId,
      (check id = .ok ↔ topo.accessibleFrom p id = true) ∧
        (n.val.uvmLiteGpus id = true → check id = .ok)

theorem PolicyInv.accessesDecided (h : PolicyInv topo s) : AccessesDecided topo s := by
  intro n hn htype a ha tests
  cases hmig : uvmRangeGroupAddressMigratable s.groupTree a with
  | true => simp [uvmVaRangeCheckLogicalPermissions]
  | false =>
    obtain ⟨p, hp, hsub⟩ := (h.safe n hn htype).located a ha
      (prevented_of_not_addressMigratable h.groups hmig)
    have hcheck : ∀ id ≠ cpuId, (uvmVaRangeCheckLogicalPermissions topo tests true n id false = .ok ↔
        topo.accessibleFrom p id = true) := by
      intro id hid
      simp only [uvmVaRangeCheckLogicalPermissions, hp, Topology.accessible, if_neg hid]
      split <;> simp_all [errInvalidAccessType]
    refine ⟨by simp [uvmVaRangeCheckLogicalPermissions, errInvalidOperation], p, hp, ?_⟩
    exact fun id hid => ⟨hcheck id hid,
      fun hlite => (hcheck id hid).mpr (maskSubset_eq_true.mp hsub id hlite)⟩

/-- **Accesses along a run**: while every call meets the condition, the check of an access reads
`accessible_from` at a processor and decides by it. -/
theorem accessesDecided_along (topo : Topology) {s : VaSpace} (hinit : PoliciesInitial s)
    (ops : List PolicyOp)
    (h : StepsMeet (VaSpace.policyStep topo) (AllowsPrevention topo) s ops) :
    HoldsAlong (VaSpace.policyStep topo) (AccessesDecided topo) s ops :=
  holds_along_of_meets _ (hinit.inv topo) (fun _ hs => hs.accessesDecided)
    (fun s op hs hcond => policyStep_inv topo s op hs hcond) h

theorem accessesDecided_along_located :
    HoldsAlong (VaSpace.policyStep noPeerTopology) (AccessesDecided noPeerTopology) oneRangeSpace
      [.createGroup policyInput, .setRangeGroup policyInput oneRangeRegion (some 1),
        .setPreferredLocation policyInput oneRangeRegion (some 1),
        .setMigrationPolicy policyInput [1] false] := by
  apply accessesDecided_along noPeerTopology oneRangeSpace_initial
  rw [stepsMeet_cons, stepsMeet_cons, stepsMeet_cons, stepsMeet_cons]
  refine ⟨trivial, ?_, trivial, ?_, stepsMeet_nil _ _ _⟩
  · rintro g hg hfalse
    obtain rfl := Option.some.inj hg
    exact absurd hfalse (by decide)
  · rintro - id - rgr - - n hn - -
    have htree : n ∈ [{ oneMbRange with val := { oneMbRange.val with
        preferredLocation := some 1
        uvmLiteGpus := calcUvmLiteGpusMask noPeerTopology (some 1) oneMbRange.val.accessedBy } }] :=
      hn
    obtain rfl := List.mem_singleton.mp htree
    exact ⟨1, rfl, by decide⟩

end NvUvm
