import NvUvm.Lib.Loop
import NvUvm.Lib.Run
import NvUvm.RangeGroup
import NvUvm.VaRangeSplit

/-!
# Policies of managed ranges and range groups

Model of the calls that set preferred locations and accessed-by (`uvm8_policy.c`,
`uvm8_va_range.c`) and of those that assign ranges to groups and prevent or allow the migration of
a group (`uvm8_range_group.c`).  The calls hold the VA space lock, so a run is one call after
another.

- `calcUvmLiteGpusMask`: the GPUs that follow the UVM-Lite behaviour.
- `uvmVaRangeSetPreferredLocation`, `uvmVaRangeSetAccessedBy`, `uvmVaRangeUnsetAccessedBy`: the
  changes of one range.
- `uvmApiSetRangeGroup`, `uvmRangeGroupsSetMigrationPolicy`, `uvmApiSetPreferredLocation`,
  `uvmApiSetAccessedBy` and `PolicyOp`: the calls.
-/

namespace NvUvm

open Lib

/-- `faultable_processors` and `accessible_from` of the VA space.  `pastEnd` is what a read of
`accessible_from` at `UVM8_MAX_PROCESSORS` finds. -/
structure Topology where
  faultableProcessors : ProcessorMask
  accessibleFrom : ProcessorId → ProcessorMask
  pastEnd : ProcessorMask

/-- `accessible_from[preferred_location]`. -/
def Topology.accessible (topo : Topology) : Option ProcessorId → ProcessorMask
  | some id => topo.accessibleFrom id
  | none => topo.pastEnd

/-- `uvm_processor_mask_subset`. -/
def maskSubset (mask super : ProcessorMask) : Bool :=
  (List.finRange maxProcessors).all fun id => !mask id || super id

theorem maskSubset_eq_true {mask super : ProcessorMask} :
    maskSubset mask super = true ↔ ∀ id, mask id = true → super id = true := by
  simp only [maskSubset, List.all_eq_true, List.mem_finRange, forall_const, Bool.or_eq_true]
  exact forall_congr' fun id => by cases mask id <;> simp

def calcUvmLiteGpusMask (topo : Topology) (preferredLocation : Option ProcessorId)
    (accessedBy : ProcessorMask) : ProcessorMask :=
  match preferredLocation with
  | none => fun _ => false
  | some p =>
    if p ≠ cpuId ∧ topo.faultableProcessors p then fun _ => false
    else fun id =>
      (decide (id ≠ cpuId) && accessedBy id && !topo.faultableProcessors id) ||
        (decide (p ≠ cpuId) && decide (id = p))

/-- The statuses and allocations that a policy call meets. -/
structure PolicyInput where
  split : ℕ → SplitInput
  assign : ℕ → AssignAlloc
  rangeUnmap : ℕ → NvStatus
  setAccessedBy : ℕ → NvStatus
  mapUvmLiteGpus : ℕ → NvStatus
  migrate : ℕ → NvStatus
  groupAlloc : Bool
  radixInsert : NvStatus
  migratedOrder : GroupRange → ℕ

namespace VaSpace

variable (s : VaSpace)

/-- `uvm_range_group_migratable` of a group of the VA space. -/
def groupMigratable (id : ℕ) : Bool := (s.rangeGroups id).getD true

/-- The range group ranges as the migratability iterator sees them. -/
def groupTree : List RangeGroupRange :=
  s.rangeGroupRanges.map fun rgr =>
    ⟨rgr.start, rgr.last, ⟨rgr.val.rangeGroup, s.groupMigratable rgr.val.rangeGroup⟩⟩

/-- The range overlaps `[start, last]`. -/
def overlaps {β : Type*} (n : Interval β) (start last : ℕ) : Bool :=
  decide (n.start ≤ last ∧ start ≤ n.last)

/-- `uvm_range_group_all_migratable`. -/
def allMigratable (start last : ℕ) : Bool :=
  s.rangeGroupRanges.all fun rgr =>
    !overlaps rgr start last || s.groupMigratable rgr.val.rangeGroup

/-- All range group ranges that overlap `[start, last]` put on their migrated lists. -/
def markMigrated (start last : ℕ) : VaSpace :=
  { s with rangeGroupRanges := s.rangeGroupRanges.map fun rgr =>
      if overlaps rgr start last then { rgr with val := { rgr.val with migrated := true } }
      else rgr }

/-- A write to the range that starts where `n` does. -/
def setRange (n : VaRangeNode) : VaSpace := s.replaceRange n [n]

/-- Addresses taken out of their groups (`uvm_range_group_assign_range` with no group). -/
def unassign (alloc : AssignAlloc) (start last : ℕ) : NvStatus × VaSpace :=
  let r := uvmRangeGroupAssignRange alloc none start last s.rangeGroupRanges
  (r.1, { s with rangeGroupRanges := r.2 })

/-- The loop of `uvm_va_range_set_preferred_location` that clears the association of the
segments that may not migrate.  It changes no segment that is still to come, so all of them can be
taken from the tree as it is before. -/
def unassignUnmigratable (io : PolicyInput) (n : VaRangeNode) : NvStatus × VaSpace :=
  runUntil NvStatus.isOk .ok
    (fun (seg : Segment) (s : VaSpace) =>
      if !seg.migratable then s.unassign (io.assign seg.start) seg.start seg.last else (.ok, s))
    (migratabilitySegments s.groupTree n.start n.last) s

def uvmVaRangeSetPreferredLocation (topo : Topology) (io : PolicyInput) (n : VaRangeNode)
    (preferredLocation : Option ProcessorId) : NvStatus × VaSpace :=
  if n.val.preferredLocation = preferredLocation then (.ok, s)
  else
    let s := s.markMigrated n.start n.last
    let newUvmLiteGpus := calcUvmLiteGpusMask topo preferredLocation n.val.accessedBy
    if !s.allMigratable n.start n.last && preferredLocation.isSome &&
        !maskSubset newUvmLiteGpus (topo.accessible preferredLocation) then
      (.errInvalidDevice, s)
    else
      let r := if preferredLocation.isNone then s.unassignUnmigratable io n else (.ok, s)
      if r.1 ≠ .ok then r
      else if io.rangeUnmap n.start ≠ .ok then (io.rangeUnmap n.start, r.2)
      else
        let s := r.2.setRange { n with val := { n.val with
          preferredLocation := preferredLocation, uvmLiteGpus := newUvmLiteGpus } }
        if io.setAccessedBy n.start ≠ .ok then (io.setAccessedBy n.start, s)
        else (io.mapUvmLiteGpus n.start, s)

def uvmVaRangeSetAccessedBy (topo : Topology) (io : PolicyInput) (id : ProcessorId)
    (n : VaRangeNode) : NvStatus × VaSpace :=
  if !s.allMigratable n.start n.last && decide (id ≠ cpuId) && !topo.faultableProcessors id &&
      !topo.accessible n.val.preferredLocation id then (.errInvalidDevice, s)
  else
    let accessedBy := Function.update n.val.accessedBy id true
    let n := { n with val := { n.val with accessedBy := accessedBy } }
    let s := s.setRange n
    -- already a UVM-Lite GPU
    if n.val.uvmLiteGpus id then (.ok, s)
    else
      let newUvmLiteGpus := calcUvmLiteGpusMask topo n.val.preferredLocation accessedBy
      if newUvmLiteGpus id ∧ io.rangeUnmap n.start ≠ .ok then (io.rangeUnmap n.start, s)
      else
        (io.setAccessedBy n.start,
          s.setRange { n with val := { n.val with uvmLiteGpus := newUvmLiteGpus } })

/-- `uvm_va_range_unset_accessed_by`; it drops the status of the unmapping. -/
def uvmVaRangeUnsetAccessedBy (topo : Topology) (id : ProcessorId) (n : VaRangeNode) : VaSpace :=
  let s := s.markMigrated n.start n.last
  let accessedBy := Function.update n.val.accessedBy id false
  s.setRange { n with val := { n.val with
    accessedBy := accessedBy
    uvmLiteGpus := calcUvmLiteGpusMask topo n.val.preferredLocation accessedBy } }

def uvmVaSpaceSplitAsNeeded (io : PolicyInput) (splitNeeded : VaRangeNode → Bool) (addr : ℕ) :
    NvStatus × VaSpace :=
  match lookup s.vaRangeTree addr with
  | none => (.ok, s)
  | some n =>
    if addr = n.start then (.ok, s)
    else if n.val.type ≠ .managed then (.errInvalidAddress, s)
    else if splitNeeded n then s.uvmVaRangeSplit (io.split addr) n (addr - 1)
    else (.ok, s)

def uvmVaSpaceSplitSpanAsNeeded (io : PolicyInput) (splitNeeded : VaRangeNode → Bool)
    (startAddr endAddr : ℕ) : NvStatus × VaSpace :=
  let r := s.uvmVaSpaceSplitAsNeeded io splitNeeded startAddr
  if r.1 ≠ .ok then r else r.2.uvmVaSpaceSplitAsNeeded io splitNeeded endAddr

/-- `uvm_for_each_managed_va_range_in_contig`. -/
def managedInContig (start last : ℕ) : List VaRangeNode :=
  (contigFromTo s.vaRangeTree start last).takeWhile fun n => decide (n.val.type = .managed)

/-- The check after such a loop that the ranges covered the region. -/
def coverStatus (ranges : List VaRangeNode) (last : ℕ) : NvStatus :=
  match ranges.getLast? with
  | none => .errInvalidAddress
  | some n => if n.last < last then .errInvalidAddress else .ok

/-- The body of the loop of `preferred_location_set`. -/
def preferredLocationSetRange (topo : Topology) (io : PolicyInput) (base last : ℕ)
    (preferredLocation : Option ProcessorId) (n : VaRangeNode) : NvStatus × VaSpace :=
  if !s.allMigratable (max base n.start) (min last n.last) && (match preferredLocation with
        | some p => decide (p ≠ cpuId) && topo.faultableProcessors p
        | none => false) then (.errInvalidDevice, s)
  else s.uvmVaRangeSetPreferredLocation topo io n preferredLocation

def preferredLocationSet (topo : Topology) (io : PolicyInput) (base last : ℕ)
    (preferredLocation : Option ProcessorId) : NvStatus × VaSpace :=
  let r := s.uvmVaSpaceSplitSpanAsNeeded io
    (fun n => decide (preferredLocation ≠ n.val.preferredLocation)) base (last + 1)
  if r.1 ≠ .ok then r
  else
    let ranges := r.2.managedInContig base last
    let r := runUntil NvStatus.isOk .ok
      (fun n (s : VaSpace) => s.preferredLocationSetRange topo io base last preferredLocation n)
      ranges r.2
    if r.1 ≠ .ok then r else (coverStatus ranges last, r.2)

/-- `accessed_by_set` once the processor is known. -/
def accessedBySet (topo : Topology) (io : PolicyInput) (base last : ℕ) (id : ProcessorId)
    (setBit : Bool) : NvStatus × VaSpace :=
  let r := s.uvmVaSpaceSplitSpanAsNeeded io
    (fun n => decide (n.val.accessedBy id ≠ setBit)) base (last + 1)
  if r.1 ≠ .ok then r
  else
    let ranges := r.2.managedInContig base last
    let r := runUntil NvStatus.isOk .ok
      (fun n (s : VaSpace) =>
        if setBit then s.uvmVaRangeSetAccessedBy topo io id n
        else (.ok, s.uvmVaRangeUnsetAccessedBy topo id n)) ranges r.2
    if r.1 ≠ .ok then r else (coverStatus ranges last, r.2)

/-- `NV_ERR_OBJECT_NOT_FOUND`. -/
def errObjectNotFound : NvStatus := .other 0x57

def uvmApiCreateRangeGroup (io : PolicyInput) : NvStatus × VaSpace :=
  if !io.groupAlloc then (.errNoMemory, s)
  else
    let id := s.rangeGroupIdCounter + 1
    let s := { s with rangeGroupIdCounter := id }
    if io.radixInsert ≠ .ok then (io.radixInsert, s)
    else (.ok, { s with rangeGroups := Function.update s.rangeGroups id (some true) })

/-- `uvm_api_set_range_group`, for a region that passed the check of the addresses. -/
def uvmApiSetRangeGroup (io : PolicyInput) (base last : ℕ) (id : Option ℕ) : NvStatus × VaSpace :=
  if id.any fun id => (s.rangeGroups id).isNone then (errObjectNotFound, s)
  else
    let migratable := (id.map s.groupMigratable).getD true
    let ranges := s.managedInContig base last
    if !migratable && ranges.any fun n => n.val.preferredLocation.isNone then
      (.errInvalidAddress, s)
    else if coverStatus ranges last ≠ .ok then (coverStatus ranges last, s)
    else
      let r := uvmRangeGroupAssignRange (io.assign base) id base last s.rangeGroupRanges
      let s := { s with rangeGroupRanges := r.2 }
      if r.1 ≠ .ok ∨ migratable then (r.1, s)
      else (io.migrate base, s)

/-- The ranges of the VA space that overlap a range group range. -/
def vaRangesIn (start last : ℕ) : List VaRangeNode :=
  s.vaRangeTree.filter fun n => overlaps n start last

/-- The checks and the migration of one range when migration is prevented. -/
def preventRange (topo : Topology) (io : PolicyInput) (n : VaRangeNode) : NvStatus :=
  match n.val.preferredLocation with
  | none => .errInvalidArgument
  | some p =>
    if p ≠ cpuId ∧ topo.faultableProcessors p then .errInvalidDevice
    else if !maskSubset n.val.uvmLiteGpus (topo.accessibleFrom p) then .errInvalidDevice
    else io.migrate n.start

/-- One entry of the local list of migrated ranges: it comes off the list if all its ranges pass, and
goes back to the group's list otherwise. -/
def preventGroupRange (topo : Topology) (io : PolicyInput) (rgr : GroupRange) :
    NvStatus × VaSpace :=
  let status := (s.vaRangesIn rgr.start rgr.last).foldl
    (fun status n => if status = .ok then preventRange topo io n else status) .ok
  if status ≠ .ok then (status, s)
  else
    (.ok, { s with rangeGroupRanges := s.rangeGroupRanges.map fun q =>
      if q.start = rgr.start then { q with val := { q.val with migrated := false } } else q })

/-- `uvm_range_group_set_migration_policy`.  The entries of the migrated list come in the order
that the list has. -/
def uvmRangeGroupSetMigrationPolicy (topo : Topology) (io : PolicyInput) (id : ℕ)
    (allowMigration : Bool) : NvStatus × VaSpace :=
  let s := { s with rangeGroups := Function.update s.rangeGroups id (some allowMigration) }
  if allowMigration then (.ok, s)
  else
    let migrated := (s.rangeGroupRanges.filter fun rgr =>
      decide (rgr.val.rangeGroup = id) && rgr.val.migrated).mergeSort
        fun r q => decide (io.migratedOrder r ≤ io.migratedOrder q)
    runUntil NvStatus.isOk .ok (fun rgr (s : VaSpace) => s.preventGroupRange topo io rgr) migrated s

def uvmRangeGroupsSetMigrationPolicy (topo : Topology) (io : PolicyInput) (ids : List ℕ)
    (allowMigration : Bool) : NvStatus × VaSpace :=
  if ids = [] then (.errInvalidArgument, s)
  else
    runUntil NvStatus.isOk .ok
      (fun id (s : VaSpace) =>
        if (s.rangeGroups id).isNone then (errObjectNotFound, s)
        else s.uvmRangeGroupSetMigrationPolicy topo io id allowMigration) ids s

end VaSpace

/-- A region that passed `uvm_api_range_invalid`. -/
structure ApiRegion where
  base : ℕ
  last : ℕ
  le : base ≤ last

/-- The calls.  Those that fail before they look at the VA space are left out: they change
nothing. -/
inductive PolicyOp where
  | createGroup (io : PolicyInput)
  | setRangeGroup (io : PolicyInput) (region : ApiRegion) (id : Option ℕ)
  | setMigrationPolicy (io : PolicyInput) (ids : List ℕ) (allowMigration : Bool)
  | setPreferredLocation (io : PolicyInput) (region : ApiRegion) (id : Option ProcessorId)
  | setAccessedBy (io : PolicyInput) (region : ApiRegion) (id : ProcessorId) (setBit : Bool)
  | split (io : PolicyInput) (newEnd : ℕ)

/-- One call; its status and the migrations that follow leave the policies alone. -/
def VaSpace.policyStep (topo : Topology) (s : VaSpace) : PolicyOp → VaSpace
  | .createGroup io => (s.uvmApiCreateRangeGroup io).2
  | .setRangeGroup io region id => (s.uvmApiSetRangeGroup io region.base region.last id).2
  | .setMigrationPolicy io ids allowMigration =>
    (s.uvmRangeGroupsSetMigrationPolicy topo io ids allowMigration).2
  | .setPreferredLocation io region id =>
    (s.preferredLocationSet topo io region.base region.last id).2
  | .setAccessedBy io region id setBit =>
    (s.accessedBySet topo io region.base region.last id setBit).2
  | .split io newEnd =>
    match lookup s.vaRangeTree newEnd with
    | none => s
    | some n =>
      if n.val.type = .managed ∧ newEnd < n.last then
        (s.uvmVaRangeSplit (io.split newEnd) n newEnd).2
      else s

/-- `NV_ERR_INVALID_ACCESS_TYPE`. -/
def errInvalidAccessType : NvStatus := .other 0x1D

/-- `NV_ERR_INVALID_OPERATION`. -/
def errInvalidOperation : NvStatus := .other 0x38

/-- `uvm_va_range_check_logical_permissions`; `permitted` is the check of the range's own
permissions that the tests enable. -/
def uvmVaRangeCheckLogicalPermissions (topo : Topology) (enableBuiltinTests permitted : Bool)
    (n : VaRangeNode) (id : ProcessorId) (allowMigration : Bool) : NvStatus :=
  if enableBuiltinTests && decide (id ≠ cpuId) && !permitted then errInvalidAccessType
  else if !allowMigration then
    if id = cpuId then errInvalidOperation
    else if topo.accessible n.val.preferredLocation id then .ok else errInvalidAccessType
  else .ok

end NvUvm
