import NvUvm.Processor

/-!
# Commit records and streams of UVM-Lite

Model of the commit records of `uvm_lite.c` and of the streams they are attached to.  A record is
attached to one stream by its `streamRegionsListNode`; it is split into two children that take its
place on the stream.  The records of a running stream are not accessible to the CPU.

Records and streams are numbered.  A record that cannot be created takes a number all the same, so that
each attempt has its own outcome.
-/

namespace NvUvm.Lite

/-! ## The state -/

def pageSize : ℕ := 4096

/-- `PAGE_ALIGN` of an `NvU64`. -/
def pageAlign (x : ℕ) : ℕ := (x + (pageSize - 1)) % 2 ^ 64 / pageSize * pageSize

/-- `a - b` of two `NvU64`. -/
def sub64 (a b : ℕ) : ℕ := (a + 2 ^ 64 - b) % 2 ^ 64

/-- `UVM_STREAM_INVALID`. -/
def streamInvalid : ℕ := 0

/-- `UVM_STREAM_ALL`. -/
def streamAll : ℕ := 2

/-- `UVM_STREAM_NONE`. -/
def streamNone : ℕ := 3

/-- `UVM_STREAMS_CACHE_SIZE`. -/
def streamsCacheSize : ℕ := 1024

/-- `NV_ERR_GPU_DMA_NOT_INITIALIZED`. -/
def dmaNotInitialized : NvStatus := .other 0x0E

/-- `NV_ERR_INSUFFICIENT_RESOURCES`. -/
def insufficientResources : NvStatus := .other 0x1A

/-- A `struct list_head` that links a record to the list of a stream. -/
inductive ListNode where
  | init
  | linked (pStream : ℕ)
  | deleted
  deriving DecidableEq

/-- `commitRecordPages`: an array, numbered as the record it was allocated for, and an index in it. -/
structure Pages where
  array : ℕ
  offset : ℕ
  deriving DecidableEq

/-- `UvmCommitRecord`, and how often it was freed. -/
structure CommitRecord where
  baseAddress : ℕ
  length : ℕ
  isMapped : Bool
  isAccessible : Bool
  hasChildren : Bool
  isChild : Bool
  cachedHomeGpu : Option ℕ
  commitRecordPages : Pages
  pStream : Option ℕ
  streamRegionsListNode : ListNode
  freed : ℕ

/-- `UvmStreamRecord`, and whether it was freed. -/
structure StreamRecord where
  streamId : ℕ
  isRunning : Bool
  commitRecordsList : List ℕ
  freed : Bool

/-- The records and streams of a process, and what its `UvmProcessRecord` has of them.  `oops` is set
where the kernel would use a `NULL` pointer or a list node that was deleted. -/
structure State where
  record : ℕ → CommitRecord
  records : ℕ
  stream : ℕ → StreamRecord
  streams : ℕ
  allStreamList : List ℕ
  streamsCache : ℕ → Option ℕ
  runningStreams : ℕ
  oops : Bool

/-- What the calls of a function answer: the allocations for a record, the allocation of a stream, the
migration tracker of a GPU, the migration of a record, and whether it found its channel broken. -/
structure Io where
  createOk : ℕ → Bool
  streamOk : Bool
  migTracker : ℕ → Bool
  migrate : ℕ → NvStatus
  channelError : ℕ → Bool

namespace State

variable (s : State)

def setRecord (r : ℕ) (record : CommitRecord) : State :=
  { s with record := Function.update s.record r record }

def setStream (st : ℕ) (stream : StreamRecord) : State :=
  { s with stream := Function.update s.stream st stream }

/-- `_set_record_accessible` and `_set_record_inaccessible`. -/
def setAccessible (r : ℕ) (isAccessible : Bool) : State :=
  s.setRecord r { s.record r with isAccessible := isAccessible }

/-! ## Streams -/

def streamFindInCache (streamId : ℕ) : Option ℕ :=
  (s.streamsCache (streamId % streamsCacheSize)).filter fun st =>
    (s.stream st).streamId = streamId

def streamFindInList (streamId : ℕ) : Option ℕ :=
  s.allStreamList.find? fun st => (s.stream st).streamId = streamId

def streamFind (streamId : ℕ) : Option ℕ :=
  match s.streamFindInCache streamId with
  | some st => some st
  | none => s.streamFindInList streamId

def streamSaveInCache (st : ℕ) : State :=
  { s with streamsCache :=
      Function.update s.streamsCache ((s.stream st).streamId % streamsCacheSize) (some st) }

def streamRemoveFromCache (st : ℕ) : State :=
  let cacheIndex := (s.stream st).streamId % streamsCacheSize
  if s.streamsCache cacheIndex = some st then
    { s with streamsCache := Function.update s.streamsCache cacheIndex none }
  else s

/-- `_stream_alloc` of a stream that is allocated. -/
def streamAlloc (streamId : ℕ) : State :=
  { s.setStream s.streams ⟨streamId, false, [], false⟩ with
    streams := s.streams + 1
    allStreamList := s.allStreamList ++ [s.streams] }

/-- `_stream_find_or_alloc`, with whether an allocation succeeds. -/
def streamFindOrAlloc (streamId : ℕ) (streamOk : Bool) : Option ℕ × State :=
  match s.streamFind streamId with
  | some st => (some st, s.streamSaveInCache st)
  | none =>
    if streamOk then (some s.streams, (s.streamAlloc streamId).streamSaveInCache s.streams)
    else (none, s)

def streamDestroy (st : ℕ) : State :=
  let s := { s with allStreamList := s.allStreamList.erase st }.streamRemoveFromCache st
  s.setStream st { s.stream st with freed := true }

def streamDestroyIfEmpty : Option ℕ → State
  | none => s
  | some st =>
    if (s.stream st).isRunning then s
    else if (s.stream st).commitRecordsList ≠ [] then s
    else s.streamDestroy st

/-! ## The list of a stream -/

/-- `list_del` of the node of a record. -/
def listDel (r : ℕ) : State :=
  match (s.record r).streamRegionsListNode with
  | .init => s.setRecord r { s.record r with streamRegionsListNode := .deleted }
  | .linked st =>
    (s.setRecord r { s.record r with streamRegionsListNode := .deleted }).setStream st
      { s.stream st with commitRecordsList := (s.stream st).commitRecordsList.erase r }
  | .deleted => { s with oops := true }

/-- `list_add_tail` of the node of a record. -/
def listAddTail (r st : ℕ) : State :=
  (s.setRecord r { s.record r with streamRegionsListNode := .linked st }).setStream st
    { s.stream st with commitRecordsList := (s.stream st).commitRecordsList ++ [r] }

def recordDetachFromStream (r : ℕ) : State :=
  let s := (s.listDel r).streamDestroyIfEmpty (s.record r).pStream
  s.setRecord r { s.record r with pStream := none }

/-! ## Records -/

/-- `vmalloc` answers `NULL` for no bytes, and for more bytes than there is memory. -/
def fitsVmalloc (length : ℕ) : Bool := 0 < length && length < 2 ^ 63

/-- `uvmlite_create_commit_record`. -/
def createCommitRecord (baseAddress length : ℕ) (createOk : ℕ → Bool) : Option ℕ × State :=
  let r := s.records
  if createOk r && fitsVmalloc length then
    (some r, { s.setRecord r
        ⟨baseAddress, length, false, true, false, false, none, ⟨r, 0⟩, none, .init, 0⟩ with
      records := r + 1 })
  else
    (none, { s.setRecord r
        ⟨baseAddress, length, false, false, false, false, none, ⟨r, 0⟩, none, .deleted, 1⟩ with
      records := r + 1 })

/-- `uvmlite_destroy_commit_record`. -/
def destroyCommitRecord (r : ℕ) : State :=
  let s := s.setAccessible r false
  let s := if (s.record r).hasChildren then s else s.recordDetachFromStream r
  s.setRecord r { s.record r with freed := (s.record r).freed + 1 }

/-- `uvmlite_migrate_to_gpu`. -/
def migrateToGpu (r : ℕ) (io : Io) : NvStatus × State :=
  match (s.record r).cachedHomeGpu with
  | none => (dmaNotInitialized, s)
  | some gpu =>
    if !io.migTracker gpu then (dmaNotInitialized, s)
    -- no page is mapped
    else if !(s.record r).isMapped then (.ok, s)
    else
      (io.migrate r, s.setRecord r { s.record r with
        isMapped := false
        cachedHomeGpu := if io.channelError r then none else (s.record r).cachedHomeGpu })

def recordAttachToStream (r new : ℕ) (io : Io) : NvStatus × State :=
  let old := (s.record r).pStream
  let unchanged := old.any fun st => (s.stream st).isRunning = (s.stream new).isRunning
  let p : NvStatus × State :=
    if unchanged then (.ok, s)
    else if (s.stream new).isRunning then (s.setAccessible r false).migrateToGpu r io
    else (.ok, s.setAccessible r true)
  let s := (p.2.listDel r).listAddTail r new
  let s := s.setRecord r { s.record r with pStream := some new }
  (p.1, s.streamDestroyIfEmpty old)

/-- `uvmlite_region_set_stream`. -/
def regionSetStream (r newStreamId : ℕ) (io : Io) : NvStatus × State :=
  if (s.record r).pStream.any fun st => (s.stream st).streamId = newStreamId then (.ok, s)
  else
    let p := s.streamFindOrAlloc newStreamId io.streamOk
    match p.1 with
    | none => (insufficientResources, p.2)
    | some new => p.2.recordAttachToStream r new io

/-- The end of `uvmlite_update_commit_record`, once `_create_or_check_channel` has answered. -/
def updateCommitRecord (r streamId : ℕ) (channel : NvStatus) (gpu : ℕ) (io : Io) :
    NvStatus × State :=
  let s := s.setRecord r { s.record r with cachedHomeGpu := none }
  if channel ≠ .ok then (channel, s.destroyCommitRecord r)
  else
    let s := s.setRecord r { s.record r with cachedHomeGpu := some gpu }
    let p := s.streamFindOrAlloc streamId io.streamOk
    match p.1 with
    | none => (.errNoMemory, p.2.destroyCommitRecord r)
    | some st => (.ok, (p.2.recordAttachToStream r st io).2)

/-! ## Splits -/

/-- A child of a record: the fields that `uvmlite_split_commit_record` copies, with the index of its
first page. -/
def initChild (parent child pageIndex : ℕ) : State :=
  s.setRecord child { s.record child with
    isChild := true
    pStream := (s.record parent).pStream
    cachedHomeGpu := (s.record parent).cachedHomeGpu
    commitRecordPages :=
      ⟨(s.record parent).commitRecordPages.array,
        (s.record parent).commitRecordPages.offset + pageIndex⟩ }

/-- The children take the place of their parent on its stream. -/
def linkChildren (r left right : ℕ) : State :=
  let pStream := (s.record r).pStream
  let s := s.listDel r
  let s := s.setRecord r { s.record r with pStream := none }
  match pStream with
  | none => { s with oops := true }
  | some st =>
    let s := (s.listAddTail left st).listAddTail right st
    s.setRecord r { s.record r with hasChildren := true }

/-- `uvmlite_split_commit_record`, less the region tracker: the two children. -/
def splitCommitRecord (r splitPoint : ℕ) (createOk : ℕ → Bool) : Option (ℕ × ℕ) × State :=
  let splitPointAlign := pageAlign splitPoint
  let baseAddress := (s.record r).baseAddress
  let length := (s.record r).length
  let left := s.createCommitRecord baseAddress splitPointAlign createOk
  match left.1 with
  | none => (none, left.2)
  | some leftRecord =>
    let s := left.2.initChild r leftRecord 0
    let right := s.createCommitRecord ((baseAddress + splitPointAlign) % 2 ^ 64)
      (sub64 length splitPointAlign) createOk
    match right.1 with
    | none => (none, right.2.destroyCommitRecord leftRecord)
    | some rightRecord =>
      let s := right.2.initChild r rightRecord (splitPointAlign / pageSize)
      (some (leftRecord, rightRecord), s.linkChildren r leftRecord rightRecord)

/-! ## Starting and stopping streams -/

/-- The loop of `_set_stream_running` over the records of the stream. -/
def startRecords (io : Io) : List ℕ → State → NvStatus × State
  | [], s => (.ok, s)
  | r :: rest, s =>
    let p := (s.setAccessible r false).migrateToGpu r io
    if p.1 = .ok then startRecords io rest p.2 else p

/-- The body of `_set_stream_running`, with its recursive call for the all-stream. -/
def setRunningBody (io : Io) (streamOk : Bool) (startAll : State → NvStatus × State)
    (streamId : ℕ) : NvStatus × State :=
  let p := s.streamFindOrAlloc streamId streamOk
  match p.1 with
  | none => (.ok, { p.2 with oops := true })
  | some st =>
    let s := p.2
    if (s.stream st).isRunning then (.ok, s)
    else
      let p := startRecords io (s.stream st).commitRecordsList s
      if p.1 ≠ .ok then p
      else
        let s := p.2
        let p : NvStatus × State :=
          if streamId ≠ streamAll then
            let s := { s with runningStreams := s.runningStreams + 1 }
            if s.runningStreams = 1 then startAll s else (.ok, s)
          else (.ok, s)
        if p.1 ≠ .ok then p
        else (.ok, p.2.setStream st { p.2.stream st with isRunning := true })

/-- `_set_stream_running` of the all-stream. -/
def setAllRunning (io : Io) (allOk : Bool) : NvStatus × State :=
  s.setRunningBody io allOk (fun s => (.ok, s)) streamAll

def isSpecialStream (streamId : ℕ) : Bool :=
  streamId = streamInvalid || streamId = streamAll || streamId = streamNone

/-- `uvmlite_set_stream_running`; the all-stream may need an allocation of its own. -/
def setStreamRunning (streamId : ℕ) (io : Io) (allOk : Bool) : NvStatus × State :=
  if isSpecialStream streamId then (.errInvalidArgument, s)
  else s.setRunningBody io io.streamOk (fun s => s.setAllRunning io allOk) streamId

/-- The loop of `_set_stream_stopped` over the records of the stream. -/
def stopRecords (l : List ℕ) : State := l.foldl (fun s r => s.setAccessible r true) s

/-- The body of `_set_stream_stopped`, with its recursive call for the all-stream. -/
def setStoppedBody (stopAll : State → NvStatus × State) (streamId : ℕ) : NvStatus × State :=
  match s.streamFind streamId with
  | none => (.errInvalidArgument, s)
  | some st =>
    let s := s.streamSaveInCache st
    if !(s.stream st).isRunning then (.ok, s)
    else
      let s := s.stopRecords (s.stream st).commitRecordsList
      let p : NvStatus × State :=
        if streamId ≠ streamAll then
          let s := { s with runningStreams := s.runningStreams - 1 }
          if s.runningStreams = 0 then stopAll s else (.ok, s)
        else (.ok, s)
      if p.1 ≠ .ok then p
      else
        let s := p.2.setStream st { p.2.stream st with isRunning := false }
        (.ok, s.streamDestroyIfEmpty (some st))

/-- `_set_stream_stopped` of the all-stream. -/
def setAllStopped : NvStatus × State := s.setStoppedBody (fun s => (.ok, s)) streamAll

/-- The second loop of `uvmlite_set_streams_stopped`. -/
def stopStreams : List ℕ → State → NvStatus × State
  | [], s => (.ok, s)
  | streamId :: rest, s =>
    let p := s.setStoppedBody setAllStopped streamId
    if p.1 = .ok then stopStreams rest p.2 else p

/-- `uvmlite_set_streams_stopped`. -/
def setStreamsStopped (streamIdArray : List ℕ) : NvStatus × State :=
  if streamIdArray.any isSpecialStream then (.errInvalidArgument, s)
  else stopStreams streamIdArray s

end State

/-- The records and streams of a process that has just opened the device. -/
def State.initial : State where
  record _ := ⟨0, 0, false, false, false, false, none, ⟨0, 0⟩, none, .init, 0⟩
  records := 0
  stream _ := ⟨0, false, [], true⟩
  streams := 0
  allStreamList := []
  streamsCache _ := none
  runningStreams := 0
  oops := false

end NvUvm.Lite
