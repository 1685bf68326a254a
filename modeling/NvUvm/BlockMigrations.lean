import Mathlib.Data.List.Count
import NvUvm.Processor
import NvUvm.Lib.Run

/-!
# Block migrations of the tools

Model of the data that the tools keep of migrations (`uvm8_tools.c`): `block_migration_data_t` with
the entry of its channel, `migration_data_t`, and the list of channels with pending events.  They go
from the migrating thread to the callback of the push, and from there to the worker of the tools.

An object that is freed has no value, and its name is not used again; a section that touches such an
object has no result.
-/

namespace NvUvm

open Lib

/-- `tools_channel_entry_t`. -/
structure ToolsChannelEntry where
  channel : ℕ
  pendingEventCount : ℕ
  parentAlive : Bool

/-- `migration_data_t`.  Ghost is the block migration it is for. -/
structure MigrationData where
  bytes : ℕ
  address : ℕ
  endTimestampGpu : ℕ
  parent : ℕ

/-- What the event tells about a block migration. -/
structure BlockMigrationInfo where
  dst : ProcessorId
  src : ProcessorId
  rangeGroupId : ℕ
  cause : ℕ
  startTimestampCpu : ℕ

/-- `block_migration_data_t`.  An entry of a channel goes by the name of the block migration that it
is part of.  Ghost is the push. -/
structure BlockMigrationData where
  info : BlockMigrationInfo
  channelEntry : ℕ
  selfChannelEntry : ToolsChannelEntry
  events : List ℕ
  endTimestampCpu : ℕ
  startTimestampGpu : ℕ
  push : ℕ

structure UvmEventMigrationInfo where
  info : BlockMigrationInfo
  endTimeStamp : ℕ
  address : ℕ
  migratedBytes : ℕ
  beginTimeStampGpu : ℕ
  endTimeStampGpu : ℕ

/-- Where a push is: begun, ended, in its `on_complete` callback, or through with it. -/
inductive MigrationPushPhase where
  | building
  | pending
  | completing
  | completed
  deriving DecidableEq, Repr

/-- A push with the `on_complete_data` of its push info. -/
structure MigrationPush where
  channel : ℕ
  phase : MigrationPushPhase
  onCompleteData : Option ℕ

/-- Where a call of `uvm_tools_schedule_completed_events` is after its first section: before
`list_first_entry`, at an entry, or past the update of the entry's channel. -/
inductive SchedulePhase where
  | first
  | atEntry (i : ℕ) (channelEntry : Option ℕ)
  | updating (i : ℕ) (channelEntry : ℕ) (channel : ℕ)
  | finished

/-- Such a call.  Ghost are the entries that it has retained. -/
structure ScheduleCall where
  channelCount : ℕ
  phase : SchedulePhase
  retained : List ℕ

/-- The tools data of a VA space, and the parties. -/
structure MigrationTools where
  channelList : List ℕ
  blocks : ℕ → Option BlockMigrationData
  migs : ℕ → Option MigrationData
  nextBlock : ℕ
  nextMig : ℕ
  pushes : List MigrationPush
  calls : List ScheduleCall
  toolsQueue : List ℕ
  worker : Option (ℕ × ℕ)
  recorded : List UvmEventMigrationInfo
  touchedFreed : Bool

/-- A section of one of the parties. -/
inductive MigrationStep where
  | beginPush (channel : ℕ)
  | blockMigrationBegin (push : ℕ) (alloc : Bool) (info : BlockMigrationInfo)
  | migration (push : ℕ) (alloc : Bool) (address bytes : ℕ)
  | endPush (push : ℕ)
  | complete (push timestampCpu timestampGpu : ℕ) (endTimestampGpu : ℕ → ℕ)
  | handOver (push : ℕ)
  | work
  | schedule
  | walk (call : ℕ)
  | release (call : ℕ)

namespace MigrationTools

def start : MigrationTools where
  channelList := []
  blocks := fun _ => none
  migs := fun _ => none
  nextBlock := 0
  nextMig := 0
  pushes := []
  calls := []
  toolsQueue := []
  worker := none
  recorded := []
  touchedFreed := false

variable (s : MigrationTools)

def setBlock (b : ℕ) (data : BlockMigrationData) : MigrationTools :=
  { s with blocks := Function.update s.blocks b (some data) }

/-- `kmem_cache_free` of a block migration. -/
def freeBlock (b : ℕ) : Option MigrationTools :=
  (s.blocks b).map fun _ => { s with blocks := Function.update s.blocks b none }

def setPush (i : ℕ) (push : MigrationPush) : MigrationTools :=
  { s with pushes := s.pushes.set i push }

def setCall (i : ℕ) (call : ScheduleCall) : MigrationTools :=
  { s with calls := s.calls.set i call }

/-- A write to the `pending_event_count` of an entry. -/
def setPendingEventCount (e : ℕ) (data : BlockMigrationData) (count : ℕ) : MigrationTools :=
  s.setBlock e { data with
    selfChannelEntry := { data.selfChannelEntry with pendingEventCount := count } }

/-- The loop of `add_pending_event_for_channel` over the list of channels. -/
def findChannelEntry (channel : ℕ) : List ℕ → Option (Option ℕ)
  | [] => some none
  | e :: rest =>
    match s.blocks e with
    | none => none
    | some data =>
      if data.selfChannelEntry.channel = channel then some (some e)
      else findChannelEntry channel rest

def addPendingEventForChannel (b : ℕ) (data : BlockMigrationData) : Option MigrationTools :=
  match s.findChannelEntry data.selfChannelEntry.channel s.channelList with
  | none => none
  | some found =>
    let e := found.getD b
    -- without an entry of the channel, the one within the block migration is used
    let channelList := if found.isNone then s.channelList ++ [b] else s.channelList
    let s := { s.setBlock b { data with channelEntry := e } with channelList := channelList }
    match s.blocks e with
    | none => none
    | some entry =>
      some (s.setPendingEventCount e entry (entry.selfChannelEntry.pendingEventCount + 1))

def removePendingEventForChannel (e : ℕ) : Option MigrationTools :=
  match s.blocks e with
  | none => none
  | some data =>
    let count := data.selfChannelEntry.pendingEventCount - 1
    let s := s.setPendingEventCount e data count
    if count = 0 then
      let s := { s with channelList := s.channelList.erase e }
      if !data.selfChannelEntry.parentAlive then s.freeBlock e else some s
    else some s

/-- `uvm_tools_record_block_migration_begin`, with memory for the data.  It is not seen by others
before the section under the lock. -/
def recordBlockMigrationBegin (i : ℕ) (push : MigrationPush) (info : BlockMigrationInfo) :
    Option MigrationTools :=
  let b := s.nextBlock
  let s := { s.setPush i { push with onCompleteData := some b } with nextBlock := b + 1 }
  s.addPendingEventForChannel b {
    info := info
    channelEntry := b
    selfChannelEntry := { channel := push.channel, pendingEventCount := 0, parentAlive := true }
    events := []
    endTimestampCpu := 0
    startTimestampGpu := 0
    push := i }

/-- `uvm_tools_record_migration` as far as the migration data. -/
def recordMigration (push : MigrationPush) (alloc : Bool) (address bytes : ℕ) :
    Option MigrationTools :=
  match push.onCompleteData with
  | none => some s
  | some b =>
    if !alloc then some s
    else
      let m := s.nextMig
      (s.blocks b).map fun data =>
        { s.setBlock b { data with events := data.events ++ [m] } with
          migs := Function.update s.migs m (some ⟨bytes, address, 0, b⟩)
          nextMig := m + 1 }

/-- The loop of `on_block_migration_complete` that reads the timestamps of the events. -/
def readEndTimestamps (endTimestampGpu : ℕ → ℕ) (migs : ℕ → Option MigrationData) :
    List ℕ → Option (ℕ → Option MigrationData)
  | [] => some migs
  | m :: rest =>
    match migs m with
    | none => none
    | some mig =>
      readEndTimestamps endTimestampGpu
        (Function.update migs m (some { mig with endTimestampGpu := endTimestampGpu m })) rest

/-- `on_block_migration_complete` before its section under the lock. -/
def onBlockMigrationComplete (b timestampCpu timestampGpu : ℕ) (endTimestampGpu : ℕ → ℕ) :
    Option MigrationTools :=
  match s.blocks b with
  | none => none
  | some data =>
    (readEndTimestamps endTimestampGpu s.migs data.events).map fun migs =>
      { s.setBlock b { data with
          endTimestampCpu := timestampCpu, startTimestampGpu := timestampGpu } with migs := migs }

/-- `on_block_migration_complete` under the lock. -/
def handOver (b : ℕ) : Option MigrationTools :=
  match s.blocks b with
  | none => none
  | some data =>
    match s.removePendingEventForChannel data.channelEntry with
    | none => none
    | some s =>
      (s.blocks b).map fun _ => { s with toolsQueue := s.toolsQueue ++ [b] }

/-- The end of `record_migration_events`, under the lock. -/
def finishMigrationEvents (b : ℕ) (data : BlockMigrationData) : Option MigrationTools :=
  let entry := { data.selfChannelEntry with parentAlive := false }
  let s := s.setBlock b { data with selfChannelEntry := entry }
  if entry.pendingEventCount = 0 then s.freeBlock b else some s

/-- The worker of the tools: the next item of its queue, or the next event of the block migration
that `record_migration_events` runs for. -/
def recordMigrationEvents : Option MigrationTools :=
  match s.worker with
  | none =>
    match s.toolsQueue with
    | [] => some s
    | b :: rest =>
      (s.blocks b).map fun data =>
        { s with toolsQueue := rest, worker := some (b, data.startTimestampGpu) }
  | some (b, gpuTimestamp) =>
    match s.blocks b with
    | none => none
    | some data =>
      match data.events with
      | [] => ({ s with worker := none }).finishMigrationEvents b data
      | m :: events =>
        (s.migs m).map fun mig =>
          { s.setBlock b { data with events := events } with
            migs := Function.update s.migs m none
            worker := some (b, mig.endTimestampGpu)
            recorded := s.recorded ++ [⟨data.info, data.endTimestampCpu, mig.address, mig.bytes,
              gpuTimestamp, mig.endTimestampGpu⟩] }

/-- An entry of the list of channels is retained. -/
def retainEntry (e : ℕ) : Option MigrationTools :=
  (s.blocks e).map fun data =>
    s.setPendingEventCount e data (data.selfChannelEntry.pendingEventCount + 1)

/-- `uvm_tools_schedule_completed_events`: the first section. -/
def scheduleCompletedEvents : Option MigrationTools :=
  (s.channelList.foldlM retainEntry s).map fun r =>
    if s.channelList.length = 0 then r
    else { r with calls := r.calls ++ [⟨s.channelList.length, .first, s.channelList⟩] }

/-- `list_next_entry`: what comes after the entry, or the head of the list.  An entry that is not
on the list has no next. -/
def nextEntry (e : ℕ) : List ℕ → Option (Option ℕ)
  | [] => none
  | e' :: rest => if e' = e then some rest.head? else nextEntry e rest

/-- The walk over the entries, which takes no lock. -/
def walkEntries (i : ℕ) (call : ScheduleCall) : Option MigrationTools :=
  match call.phase with
  | .first => some (s.setCall i { call with phase := .atEntry 0 s.channelList.head? })
  | .atEntry k current =>
    if k < call.channelCount then
      match current with
      | none => none
      | some e =>
        (s.blocks e).map fun data =>
          s.setCall i { call with phase := .updating k e data.selfChannelEntry.channel }
    else some s
  | .updating k e _ =>
    match s.blocks e with
    | none => none
    | some _ =>
      (nextEntry e s.channelList).map fun next =>
        s.setCall i { call with phase := .atEntry (k + 1) next }
  | .finished => some s

/-- `uvm_tools_schedule_completed_events`: the last section.  The loop keeps the next entry before
it removes one, and stops at the count. -/
def releaseEntries (i : ℕ) (call : ScheduleCall) : Option MigrationTools :=
  (s.channelList.take call.channelCount).foldlM removePendingEventForChannel
    (s.setCall i { call with phase := .finished, retained := [] })

/-- The push takes a section that has to find it in the given phase. -/
def withPush (i : ℕ) (phase : MigrationPushPhase) (f : MigrationPush → Option MigrationTools) :
    Option MigrationTools :=
  match s.pushes[i]? with
  | none => some s
  | some push => if push.phase = phase then f push else some s

def withCall (i : ℕ) (f : ScheduleCall → Option MigrationTools) : Option MigrationTools :=
  match s.calls[i]? with
  | none => some s
  | some call => f call

/-- One section; one that its party cannot take now changes nothing. -/
def sectionOf : MigrationStep → Option MigrationTools
  | .beginPush channel => some { s with pushes := s.pushes ++ [⟨channel, .building, none⟩] }
  | .blockMigrationBegin i alloc info => s.withPush i .building fun push =>
    if alloc ∧ push.onCompleteData = none then s.recordBlockMigrationBegin i push info else some s
  | .migration i alloc address bytes => s.withPush i .building fun push =>
    s.recordMigration push alloc address bytes
  | .endPush i => s.withPush i .building fun push =>
    some (s.setPush i { push with phase := .pending })
  | .complete i timestampCpu timestampGpu endTimestampGpu => s.withPush i .pending fun push =>
    match push.onCompleteData with
    | none => some (s.setPush i { push with phase := .completed })
    | some b =>
      (s.onBlockMigrationComplete b timestampCpu timestampGpu endTimestampGpu).map fun s =>
        s.setPush i { push with phase := .completing }
  | .handOver i => s.withPush i .completing fun push =>
    match push.onCompleteData with
    | none => some s
    | some b =>
      -- the push info is reset after the callback
      (s.setPush i { push with phase := .completed, onCompleteData := none }).handOver b
  | .work => s.recordMigrationEvents
  | .schedule => s.scheduleCompletedEvents
  | .walk i => s.withCall i (s.walkEntries i)
  | .release i => s.withCall i fun call =>
    match call.phase with
    | .atEntry k _ => if k = call.channelCount then s.releaseEntries i call else some s
    | _ => some s

/-- One section, and whether it touches an object that is freed. -/
def step (op : MigrationStep) : MigrationTools :=
  (s.sectionOf op).getD { s with touchedFreed := true }

end MigrationTools

end NvUvm
