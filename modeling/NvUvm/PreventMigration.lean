import NvUvm.BlockCopy
import NvUvm.RangePolicy

/-!
# Preventing migration while pages move

Model of `uvm_range_group_set_migration_policy` and of the migration of ranges that it starts
(`uvm8_range_group.c`), next to the threads that service faults or migrate ranges
(`uvm8_va_block.c`, `uvm8_migrate.c`).  All of them hold the VA space lock for read.

A run is a sequence of steps: a section under a block lock begins or ends, a range group range is
put on the migrated list of its group or taken off it under the spinlock, or a policy is set.  A
section decides under its block lock what it does to the pages, and its changes show when it ends.
How far its copies get is an input.  There is one call that sets a policy at a time.
-/

namespace NvUvm

open Lib
open Function (update)

/-- The parts of the VA space that change only under the write lock: the managed ranges, the range
group ranges with the ids of their groups, and what is reachable from where. -/
structure GroupSpace where
  ranges : List VaRangeNode
  groupRanges : List (Lib.Interval ℕ)
  topo : Topology
  hasNvlinkTo : ProcessorId → ProcessorMask
  canAccess : ProcessorId → ProcessorMask
  hasNativeAtomics : ProcessorId → ProcessorMask
  canReadDuplicate : Bool
  faultForceSysmem : Bool
  ordered : Ordered ranges
  groupOrdered : Ordered groupRanges

/-- Where a page is, and whether the CPU has it mapped. -/
structure PageState where
  resident : ProcessorMask
  cpuMapped : Bool

def onlyProcessor (id : ProcessorId) : ProcessorMask := fun q => decide (q = id)

/-! ## A section under a block lock -/

/-- A run of the loop of `block_copy_resident_pages_between`: how many pages it looks at, and how
many of them it copies. -/
structure CopyLoop where
  src : ProcessorId
  dst : ProcessorId
  listed : ℕ
  copied : ℕ

/-- A call of `uvm_va_block_make_resident` or `uvm_va_block_make_resident_read_duplicate`: the pages
of the region in its mask, whether it gets to the copies, and the loops that these run. -/
structure MakeResident where
  dest : ProcessorId
  mode : TransferMode
  start : ℕ
  last : ℕ
  pages : List ℕ
  copies : Bool
  loops : List CopyLoop

/-- What a thread does with the block of an address while it holds its lock: the calls that make
pages resident, and the pages that it maps on the CPU then. -/
structure BlockSection where
  addr : ℕ
  moves : List MakeResident
  mapCpu : List ℕ

/-- The inner loop that moves on to the range group range of a page, or past it: the node, and
whether it changed. -/
def seekGroupRange (last a : ℕ) : List RangeGroupRange → Bool → List RangeGroupRange × Bool
  | [], changed => ([], changed)
  | r :: rest, changed =>
    if r.last < a then
      -- `uvm_range_group_range_iter_next`
      if rest.head?.any fun n => decide (n.start ≤ last) then seekGroupRange last a rest true
      else ([], true)
    else (r :: rest, changed)

/-- The pages that a loop of `block_copy_resident_pages_between` looks at on their preferred location, and
the region of the call. -/
structure PageLoop where
  start : ℕ
  last : ℕ
  pages : List ℕ

/-- The range group ranges that `block_copy_resident_pages_between` puts on their lists, for the pages
that it looks at on their preferred location.  `changed` is `rgr_has_changed`: it is cleared at the
end of each page. -/
def listRanges (last : ℕ) : List ℕ → List RangeGroupRange → Bool → List RangeGroupRange
  | [], _, _ => []
  | a :: rest, node, changed =>
    let r := seekGroupRange last a node changed
    let here := r.1.head?.toList.filter fun n => r.2 && decide (n.Contains a)
    here ++ listRanges last rest r.1 false

/-- The range group ranges that a loop puts on their lists. -/
def PageLoop.listed (k : PageLoop) (tree : List RangeGroupRange) : List RangeGroupRange :=
  listRanges k.last k.pages (rangeGroupRangeIterFirst tree k.start k.last) true

namespace MakeResident

variable (m : MakeResident)

/-- The pages that a loop goes over: `src_move_mask`. -/
def handled (l : CopyLoop) (r : ℕ → ProcessorMask) : List ℕ :=
  m.pages.filter fun a => r a l.src && !r a l.dst

/-- One loop: the pages that it looks at on their preferred location, and the residency behind it. -/
def runLoop (n : VaRangeNode) (l : CopyLoop) (r : ℕ → ProcessorMask) :
    List PageLoop × (ℕ → ProcessorMask) :=
  let handled := m.handled l r
  (if n.val.preferredLocation = some l.src then [⟨m.start, m.last, handled.take l.listed⟩] else [],
    fun a => if a ∈ handled.take l.copied then update (r a) l.dst true else r a)

def runLoops (n : VaRangeNode) : List CopyLoop → (ℕ → ProcessorMask) →
    List PageLoop × (ℕ → ProcessorMask)
  | [], r => ([], r)
  | l :: rest, r =>
    let here := m.runLoop n l r
    let more := runLoops n rest here.2
    (here.1 ++ more.1, more.2)

/-- A page of the mask after the call; `r` is where the loops left it.  What was not copied is taken to
have been populated at the destination. -/
def after (r : ProcessorMask) (p : PageState) : PageState :=
  match m.mode with
  | .move =>
    { resident := if m.copies then onlyProcessor m.dest else p.resident
      cpuMapped := p.cpuMapped && p.resident m.dest && decide (m.dest = cpuId) }
  | .copy =>
    { resident := if m.copies then update r m.dest true else p.resident
      cpuMapped := p.cpuMapped && p.resident cpuId }

/-- The call: its loops over pages at their preferred location, and the pages behind it. -/
def run (n : VaRangeNode) (pages : ℕ → PageState) : List PageLoop × (ℕ → PageState) :=
  let r := if m.copies then m.runLoops n m.loops fun a => (pages a).resident
    else ([], fun a => (pages a).resident)
  (r.1, fun a => if a ∈ m.pages then m.after (r.2 a) (pages a) else pages a)

end MakeResident

namespace BlockSection

variable (sec : BlockSection)

def touched : List ℕ := (sec.moves.flatMap MakeResident.pages) ++ sec.mapCpu

def runMoves (n : VaRangeNode) : List MakeResident → (ℕ → PageState) →
    List PageLoop × (ℕ → PageState)
  | [], pages => ([], pages)
  | m :: rest, pages =>
    let here := m.run n pages
    let more := runMoves n rest here.2
    (here.1 ++ more.1, more.2)

/-- The loops of the section over pages at their preferred location. -/
def pageLoops (n : VaRangeNode) (pages : ℕ → PageState) : List PageLoop :=
  (runMoves n sec.moves pages).1

/-- The range group ranges that the section puts on their lists.  `block_map_cpu_page` lists that of a
page whose preferred location is the CPU. -/
def listed (n : VaRangeNode) (tree : List RangeGroupRange) (pages : ℕ → PageState) :
    List RangeGroupRange :=
  (sec.pageLoops n pages).flatMap (fun k => k.listed tree) ++
    if n.val.preferredLocation = some cpuId then
      sec.mapCpu.flatMap fun a => (lookup tree a).toList
    else []

def after (n : VaRangeNode) (pages : ℕ → PageState) (a : ℕ) : PageState :=
  let p := (runMoves n sec.moves pages).2 a
  if a ∈ sec.mapCpu ∧ p.resident cpuId = true then { p with cpuMapped := true } else p

/-- The pages of a call come in ascending order and are in its region, and those of the section are in
the block of its address. -/
def within (n : VaRangeNode) : Bool :=
  let index := uvmVaRangeBlockIndex n.vaRange sec.addr
  (sec.moves.all fun m => decide (m.pages.Pairwise (· < ·)) &&
    m.pages.all fun a => decide (m.start ≤ a ∧ a ≤ m.last)) &&
  sec.touched.all fun a =>
    decide (blockCalcStart n.vaRange index ≤ a ∧ a ≤ blockCalcEnd n.vaRange index)

end BlockSection

/-! ## Faults -/

/-- What is known about a fault beside its page: a thrashing hint to pin the page, whether the page
can be read-duplicated for the fault, and whether the access is atomic. -/
structure FaultHint where
  pin : Option ProcessorId
  readDuplicate : Bool
  atomic : Bool

namespace GroupSpace

variable (sp : GroupSpace)

/-- `uvm_processor_mask_find_closest_id`. -/
def findClosestId (candidates : ProcessorMask) (src : ProcessorId) : Option ProcessorId :=
  if candidates src then some src
  else
    ((List.finRange maxProcessors).find? fun id => candidates id && sp.hasNvlinkTo src id).orElse
      fun _ => ((if src = cpuId then none
        else (List.finRange maxProcessors).find? fun id =>
          candidates id && sp.canAccess src id && decide (id ≠ cpuId)).orElse
      fun _ => (List.finRange maxProcessors).find? candidates)

/-- `uvm_va_block_select_residency_after_fault`. -/
def selectResidencyAfterFault (n : VaRangeNode) (id : ProcessorId) (hint : FaultHint)
    (p : PageState) : ProcessorId :=
  if sp.faultForceSysmem then cpuId
  else if id = cpuId ∨ hint.readDuplicate = true then id
  -- the preferred location gets the page in any case
  else if n.val.preferredLocation = some id then id
  else match hint.pin with
  | some residency => residency
  | none =>
    match sp.findClosestId p.resident id with
    | none => id
    | some closest =>
      if hint.atomic && sp.hasNativeAtomics closest id then closest
      else if n.val.preferredLocation ≠ some closest then id
      else if !sp.topo.accessibleFrom closest id then id
      else closest

end GroupSpace

/-! ## The state -/

/-- A piece of the migration of a range group range: a part of a VA range, the part of a block in it, or
the wait at the end of a range. -/
inductive PolicyTask where
  | range (n : VaRangeNode) (start last : ℕ)
  | block (n : VaRangeNode) (dest : ProcessorId) (index start last : ℕ)
  | wait

/-- Where `uvm_range_group_set_migration_policy` is when it prevents migration: it cleared the flag,
it works on its own list, or it failed and has not yet put back what is left of that. -/
inductive CallPhase where
  | flagged
  | draining (current : Option ℕ) (tasks : List PolicyTask) (localRanges : List ℕ)
  | failing (current : ℕ) (localRanges : List ℕ)

/-- A call that prevents the migration of a group. -/
structure PolicyCall where
  group : ℕ
  phase : CallPhase

/-- A thread that services faults or migrates: it tested migratability for the sections still to
come, or it holds a block lock, with range group ranges still to list, and with the changes of the
section. -/
inductive MoveThread where
  | idle
  | tested (todo : List BlockSection)
  | inBlock (block : ℕ) (adds : List RangeGroupRange) (touched : List ℕ) (after : ℕ → PageState)
      (todo : List BlockSection)

/-- The state.  `migratedRanges` holds the lists of the groups by the starts of the range group
ranges, and `prevented` says that a call returned `NV_OK` and migration was not allowed since. -/
structure PreventState where
  allowMigration : ℕ → Bool
  pages : ℕ → PageState
  migratedRanges : ℕ → List ℕ
  locks : ℕ → Option ℕ
  threads : ℕ → MoveThread
  call : Option PolicyCall
  prevented : ℕ → Bool

def PolicyCall.localRanges (c : PolicyCall) : List ℕ :=
  match c.phase with
  | .flagged => []
  | .draining _ _ localRanges => localRanges
  | .failing _ localRanges => localRanges

/-- `uvm_range_group_va_range_migrate`: the parts of the blocks of a VA range between two addresses. -/
def migrateTasks (n : VaRangeNode) (dest : ProcessorId) (start last : ℕ) : List PolicyTask :=
  let first := uvmVaRangeBlockIndex n.vaRange start
  ((List.range' first (uvmVaRangeBlockIndex n.vaRange last + 1 - first)).map fun i =>
    .block n dest i (max start (blockCalcStart n.vaRange i))
      (min last (blockCalcEnd n.vaRange i))) ++ [.wait]

/-- What is to do for the range group range that starts at an address. -/
def GroupSpace.rangeTasks (sp : GroupSpace) (start : ℕ) : List PolicyTask :=
  match sp.groupRanges.find? fun r => decide (r.start = start) with
  | none => []
  | some r => (sp.ranges.filter fun n => VaSpace.overlaps n r.start r.last).map fun n =>
    .range n (max n.start r.start) (min n.last r.last)

namespace PreventState

variable (s : PreventState)

/-- The range group ranges with the flags that their groups have now. -/
def tree (sp : GroupSpace) : List RangeGroupRange :=
  sp.groupRanges.map fun r => ⟨r.start, r.last, ⟨r.val, s.allowMigration r.val⟩⟩

/-- `uvm_range_group_address_migratable`. -/
def migratable (sp : GroupSpace) (a : ℕ) : Bool := uvmRangeGroupAddressMigratable (s.tree sp) a

def isListed (r : RangeGroupRange) : Bool :=
  (s.migratedRanges r.val.id).contains r.start ||
    (s.call.any fun c => c.localRanges.contains r.start)

/-- The range group range put on its group's list, unless it is on a list. -/
def addMigrated (r : RangeGroupRange) : PreventState :=
  if s.isListed r then s
  else
    { s with
      migratedRanges :=
        update s.migratedRanges r.val.id (s.migratedRanges r.val.id ++ [r.start]) }

/-- A thread takes a block lock that is free and begins a section. -/
def enter (sp : GroupSpace) (t : ℕ) (sec : BlockSection) (todo : List BlockSection) :
    PreventState :=
  match lookup sp.ranges sec.addr with
  | none => s
  | some n =>
    let range := VaRangeNode.vaRange n
    let block := blockCalcStart range (uvmVaRangeBlockIndex range sec.addr)
    if (s.locks block).isSome || !sec.within n then s
    else
      { s with
        locks := update s.locks block (some t)
        threads := update s.threads t (.inBlock block (sec.listed n (s.tree sp) s.pages)
          sec.touched (sec.after n s.pages) todo) }

/-- A GPU may fault on the page and gets it where the section says. -/
def gpuFaultMoves (sp : GroupSpace) (gpu : ProcessorId) (hints : ℕ → FaultHint) (n : VaRangeNode)
    (m : MakeResident) : Bool :=
  m.pages.all fun a => s.migratable sp a ||
    (sp.topo.accessible n.val.preferredLocation gpu &&
      decide (m.dest = sp.selectResidencyAfterFault n gpu (hints a) (s.pages a)) &&
      decide (m.mode = if (hints a).readDuplicate then .copy else .move))

end PreventState

/-- A step: of the call that sets a policy, or of one of the threads. -/
inductive PreventOp where
  | setPolicy (group : ℕ) (allow : Bool)
  | drain
  | next
  | task (io : PolicyInput) (create : NvStatus) (arrived : ℕ → Bool) (status : NvStatus)
  | putBack
  | migrateTest (t : ℕ) (todo : List BlockSection)
  | lockBlock (t : ℕ)
  | cpuFault (t : ℕ) (sec : BlockSection)
  | gpuFault (t : ℕ) (gpu : ProcessorId) (hints : ℕ → FaultHint) (sec : BlockSection)
  | addRange (t : ℕ)
  | unlock (t : ℕ)

namespace PreventState

variable (s : PreventState)

/-- A page after `uvm_range_group_va_range_migrate_block_locked`; the unmapping from the CPU does not
fail, and `arrived` says whether the page got to its preferred location. -/
def migratedPage (sp : GroupSpace) (n : VaRangeNode) (dest : ProcessorId) (arrived : Bool)
    (p : PageState) : PageState where
  resident :=
    if !arrived then p.resident
    else if n.val.readDuplication = .enabled ∧ sp.canReadDuplicate = true then
      update p.resident dest true
    else onlyProcessor dest
  cpuMapped := false

/-- A piece of the call's work: its status, the pieces that it leaves, and the pages.  `none` while the
block is locked. -/
def runTask (sp : GroupSpace) (io : PolicyInput) (create : NvStatus) (arrived : ℕ → Bool)
    (status : NvStatus) : PolicyTask → Option (NvStatus × List PolicyTask × (ℕ → PageState))
  | .range n start last =>
    match n.val.preferredLocation with
    | none => some (VaSpace.preventRange sp.topo io n, [], s.pages)
    | some dest =>
      some (VaSpace.preventRange sp.topo io n, migrateTasks n dest start last, s.pages)
  | .wait => some (status, [], s.pages)
  | .block n dest index start last =>
    if create ≠ .ok then some (create, [], s.pages)
    else if (s.locks (blockCalcStart n.vaRange index)).isSome then none
    else some (status, [], fun a =>
      if start ≤ a ∧ a ≤ last then
        migratedPage sp n dest (decide (status = .ok) || arrived a) (s.pages a)
      else s.pages a)

def callStep (sp : GroupSpace) (c : PolicyCall) : PreventOp → PreventState
  | .drain =>
    match c.phase with
    | .flagged => { s with
        migratedRanges := update s.migratedRanges c.group []
        call := some ⟨c.group, .draining none [] (s.migratedRanges c.group)⟩ }
    | _ => s
  | .next =>
    match c.phase with
    | .draining _ [] [] =>
      { s with call := none, prevented := update s.prevented c.group true }
    | .draining _ [] (start :: rest) =>
      { s with call := some ⟨c.group, .draining (some start) (sp.rangeTasks start) rest⟩ }
    | _ => s
  | .task io create arrived status =>
    match c.phase with
    | .draining (some current) (task :: tasks) localRanges =>
      match s.runTask sp io create arrived status task with
      | none => s
      | some r =>
        { s with
          pages := r.2.2
          call := some ⟨c.group,
            if r.1 = .ok then .draining (some current) (r.2.1 ++ tasks) localRanges
            else .failing current localRanges⟩ }
    | _ => s
  | .putBack =>
    match c.phase with
    | .failing current localRanges => { s with
        migratedRanges := update s.migratedRanges c.group
          (((s.migratedRanges c.group).erase current ++ [current]) ++ localRanges)
        call := none }
    | _ => s
  | _ => s

/-- One step; a step that is not possible is none. -/
def step (sp : GroupSpace) (s : PreventState) : PreventOp → PreventState
  | .setPolicy group allow =>
    if s.call.isSome then s
    else
      let s := { s with allowMigration := update s.allowMigration group allow }
      if allow then { s with prevented := update s.prevented group false }
      else { s with call := some ⟨group, .flagged⟩ }
  | .migrateTest t todo =>
    match s.threads t with
    | .idle =>
      if todo.all fun sec => sec.touched.all fun a => s.migratable sp a then
        { s with threads := update s.threads t (.tested todo) }
      else s
    | _ => s
  | .lockBlock t =>
    match s.threads t with
    | .tested (sec :: todo) => s.enter sp t sec todo
    | .tested [] => { s with threads := update s.threads t .idle }
    | _ => s
  | .cpuFault t sec =>
    match s.threads t with
    | .idle =>
      -- a fault on a page that may not migrate is fatal
      if sec.touched.all fun a => s.migratable sp a then s.enter sp t sec [] else s
    | _ => s
  | .gpuFault t gpu hints sec =>
    match s.threads t, lookup sp.ranges sec.addr with
    | .idle, some n =>
      if sec.mapCpu = [] ∧ gpu ≠ cpuId ∧
          sec.moves.all (fun m => s.gpuFaultMoves sp gpu hints n m) = true then
        s.enter sp t sec []
      else s
    | _, _ => s
  | .addRange t =>
    match s.threads t with
    | .inBlock block (r :: adds) touched after todo =>
      { s.addMigrated r with
        threads := update s.threads t (.inBlock block adds touched after todo) }
    | _ => s
  | .unlock t =>
    match s.threads t with
    | .inBlock block [] touched after todo =>
      { s with
        pages := fun a => if a ∈ touched then after a else s.pages a
        locks := update s.locks block none
        threads := update s.threads t (.tested todo) }
    | _ => s
  | op => s.call.elim s fun c => s.callStep sp c op

end PreventState

end NvUvm
