import NvUvm.Lib.Run
import NvUvm.Processor

/-!
# The event queues of UVM-Lite

A debugger creates event queues for a process; each of them is a buffer of `UvmEventEntry`s that the
driver and the debugger share.  The driver writes an event to every queue that listens to the type of
the event (`uvm_kernel_events.c`).

Queues are numbered in the order of their creation, and so are the event containers of the processes.
A buffer is the bytes from the address where it is mapped, and `overrun` says that a byte was written
behind its end.  `oops` is an access to a page that was not allocated.  A debugger does not write to
its own copy of the write index.
-/

namespace NvUvm.EventQueues

open Lib
open Function (update)

/-! ## Events -/

inductive UvmEventType where
  | invalid
  | cpuFault
  | migration
  | gpuFault
  | gpuFaultReplay
  | faultBufferOverflow
  | fatalFault
  | readDuplicate
  | readDuplicateInvalidate
  | pageSizeChange
  | thrashingDetected
  | throttlingStart
  | throttlingEnd
  | mapRemote
  | eviction
  deriving DecidableEq

namespace UvmEventType

def all : List UvmEventType :=
  [invalid, cpuFault, migration, gpuFault, gpuFaultReplay, faultBufferOverflow, fatalFault,
    readDuplicate, readDuplicateInvalidate, pageSizeChange, thrashingDetected, throttlingStart,
    throttlingEnd, mapRemote, eviction]

/-- The bytes of the structure for a type; where there is none, the byte of the type itself. -/
def structSize : UvmEventType → ℕ
  | invalid => 1
  | cpuFault => 32
  | migration => 64
  | gpuFault => 40
  | gpuFaultReplay => 24
  | faultBufferOverflow => 1
  | fatalFault => 24
  | readDuplicate => 40
  | readDuplicateInvalidate => 32
  | pageSizeChange => 24
  | thrashingDetected => 40
  | throttlingStart => 24
  | throttlingEnd => 24
  | mapRemote => 40
  | eviction => 40

end UvmEventType

/-- The bytes of `UvmEventEntry`, the union of these structures. -/
def eventEntrySize : ℕ := 64

theorem structSize_le (t : UvmEventType) : t.structSize ≤ eventEntrySize := by
  cases t <;> decide

/-- An event as its recorder fills it in. -/
structure Event where
  eventType : UvmEventType
  contents : List UInt8
  sized : contents.length = eventType.structSize

/-- `NV_ERR_INSUFFICIENT_RESOURCES`. -/
def errInsufficientResources : NvStatus := .other 0x1A

/-! ## The state -/

/-- `UvmEventQueueInfo`.  The buffer is mapped by `mappedPages` pages; `writeIndex` and
`maxEventCapacity` are in the page that the debugger reads, `userReadIndex` and `userWriteIndex` in the
one that it writes.  `recorded` are the events so far. -/
structure UvmEventQueueInfo where
  container : ℕ
  numQueuePages : ℕ
  mappedPages : ℕ
  maxEventCapacity : ℕ
  writeIndex : ℕ
  userReadIndex : ℕ
  userWriteIndex : ℕ
  notificationCount : ℕ
  enabledEvents : UvmEventType → Bool
  pBuffer : ℕ → UInt8
  recorded : List Event

/-- The queues that were created and those that are left, the listener lists of the containers, and
how often the waiters of a container were woken. -/
structure State where
  numQueues : ℕ
  queue : ℕ → UvmEventQueueInfo
  queues : List ℕ
  eventListenerLists : ℕ → UvmEventType → List ℕ
  wakeUps : ℕ → ℕ
  overrun : Bool
  oops : Bool

/-- What the allocations and mappings of a queue meet.  `pages` pages of the buffer can be
allocated. -/
structure CreateInput where
  vmallocInfo : Bool
  roPage : Bool
  roMap : Bool
  rwPage : Bool
  rwMap : Bool
  vmallocList : Bool
  pages : ℕ
  vmap : Bool

/-- `PAGE_ALIGN`, on 64-bit values. -/
def pageAlign (n : ℕ) : ℕ := (n + 4095) % 2 ^ 64 / 4096 * 4096

/-- The pages of a buffer, from a product of 64-bit values. -/
def queuePages (queueSize : ℕ) : ℕ := pageAlign (queueSize * eventEntrySize % 2 ^ 64) / 4096

/-- `vmap` takes the number of pages as an `unsigned int`. -/
def vmapCount (numQueuePages : ℕ) : ℕ := numQueuePages % 2 ^ 32

namespace State

variable (s : State)

def setQueue (q : ℕ) (info : UvmEventQueueInfo) : State :=
  { s with queue := update s.queue q info }

def setListeners (c : ℕ) (t : UvmEventType) (l : List ℕ) : State :=
  { s with
    eventListenerLists :=
      update s.eventListenerLists c (update (s.eventListenerLists c) t l) }

/-! ## Queues -/

/-- `uvm_create_event_queue`.  What a failure leaves allocated is not seen again; `vmalloc` and `vmap`
fail on a size of zero. -/
def uvmCreateEventQueue (io : CreateInput) (container queueSize notificationCount : ℕ) :
    NvStatus × State :=
  let numQueuePages := queuePages queueSize
  if !io.vmallocInfo then (.errNoMemory, s)
  else if !io.roPage then (.errNoMemory, s)
  else if !io.roMap then (errInsufficientResources, s)
  -- the test behind this allocation looks at the other page
  else if !io.rwPage then (errInsufficientResources, { s with oops := true })
  else if !io.rwMap then (errInsufficientResources, s)
  -- the clean-up frees the pages of a list that was not allocated, or not filled
  else if !io.vmallocList || numQueuePages = 0 then
    (.errNoMemory, { s with oops := s.oops || decide (numQueuePages ≠ 0) })
  else if io.pages < numQueuePages then (.errNoMemory, { s with oops := true })
  else if !io.vmap || vmapCount numQueuePages = 0 then (.errNoMemory, s)
  else
    (.ok, { s with
      numQueues := s.numQueues + 1
      queue := update s.queue s.numQueues
        { container := container
          numQueuePages := numQueuePages
          mappedPages := vmapCount numQueuePages
          maxEventCapacity := queueSize
          writeIndex := 0
          userReadIndex := 0
          userWriteIndex := 0
          notificationCount := notificationCount
          enabledEvents := fun _ => false
          pBuffer := fun _ => 0
          recorded := [] }
      queues := s.queues ++ [s.numQueues] })

/-- `uvm_api_create_event_queue`, for a session of the debugger. -/
def uvmApiCreateEventQueue (io : CreateInput) (container queueSize notificationCount : ℕ) :
    NvStatus × State :=
  if queueSize = 0 then (.errInvalidArgument, s)
  else s.uvmCreateEventQueue io container queueSize notificationCount

def uvmEnableEvent (q : ℕ) (t : UvmEventType) : State :=
  let info := s.queue q
  if info.enabledEvents t then s
  else
    (s.setListeners info.container t (s.eventListenerLists info.container t ++ [q])).setQueue q
      { info with enabledEvents := update info.enabledEvents t true }

def uvmDisableEvent (q : ℕ) (t : UvmEventType) : State :=
  let info := s.queue q
  if info.enabledEvents t then
    (s.setListeners info.container t ((s.eventListenerLists info.container t).erase q)).setQueue q
      { info with enabledEvents := update info.enabledEvents t false }
  else s

/-- `uvm_remove_event_queue`, of a queue that was created. -/
def uvmRemoveEventQueue (q : ℕ) : State :=
  let s := UvmEventType.all.foldl (fun s t => s.uvmDisableEvent q t) s
  { s with queues := s.queues.erase q }

/-! ## Recording events -/

/-- `memcpy` to an offset in a buffer. -/
def memcpy (buffer : ℕ → UInt8) (offset : ℕ) (bytes : List UInt8) : ℕ → UInt8 := fun a =>
  if offset ≤ a then bytes.getD (a - offset) (buffer a) else buffer a

/-- The offset of the entry that a queue writes next: a pointer to `UvmEventEntry`s, advanced by the
remainder of `NV_DIV64`. -/
def writeOffset (info : UvmEventQueueInfo) : ℕ :=
  eventEntrySize * (info.writeIndex % info.maxEventCapacity) % 2 ^ 64

def notifies (info : UvmEventQueueInfo) : Bool :=
  let pending := (info.writeIndex + 2 ^ 64 - info.userReadIndex) % 2 ^ 64
  decide (pending < 2 ^ 63) && decide (info.notificationCount < pending)

/-- One turn of the loop of `_uvm_record_event`. -/
def recordInQueue (event : Event) (q : ℕ) : State :=
  let info := s.queue q
  let offset := writeOffset info
  let written := { info with
    pBuffer := memcpy info.pBuffer offset event.contents
    writeIndex := (info.writeIndex + 1) % 2 ^ 64
    userWriteIndex := (info.userWriteIndex + 1) % 2 ^ 64
    recorded := info.recorded ++ [event] }
  { s.setQueue q written with
    overrun := s.overrun || decide (info.mappedPages * 4096 < offset + event.contents.length)
    wakeUps := if notifies written then
        update s.wakeUps info.container (s.wakeUps info.container + 1)
      else s.wakeUps }

def uvmRecordEvent (container : ℕ) (event : Event) : State :=
  (s.eventListenerLists container event.eventType).foldl (fun s q => s.recordInQueue event q) s

end State

/-! ## Runs -/

/-- What the debuggers and the driver do. -/
inductive Op where
  | create (io : CreateInput) (container queueSize notificationCount : ℕ)
  | remove (q : ℕ)
  | enable (q : ℕ) (t : UvmEventType)
  | disable (q : ℕ) (t : UvmEventType)
  | clientRead (q readIndex : ℕ)
  | record (container : ℕ) (event : Event)

/-- One step; a call for a queue that is not found returns. -/
def step (s : State) : Op → State
  | .create io container queueSize notificationCount =>
    (s.uvmApiCreateEventQueue io container queueSize notificationCount).2
  | .remove q => if q ∈ s.queues then s.uvmRemoveEventQueue q else s
  | .enable q t => if q ∈ s.queues then s.uvmEnableEvent q t else s
  | .disable q t => if q ∈ s.queues then s.uvmDisableEvent q t else s
  | .clientRead q readIndex =>
    if q ∈ s.queues then s.setQueue q { s.queue q with userReadIndex := readIndex } else s
  | .record container event => s.uvmRecordEvent container event

def init : State where
  numQueues := 0
  queue _ := ⟨0, 0, 0, 0, 0, 0, 0, 0, fun _ => false, fun _ => 0, []⟩
  queues := []
  eventListenerLists _ _ := []
  wakeUps _ := 0
  overrun := false
  oops := false

/-! ## Sizes -/

/-- The largest number of entries that a mapping of less than `2 ^ 32` pages has room for. -/
def maxQueueSize : ℕ := 2 ^ 38 - 64

theorem buffer_holds_iff {queueSize : ℕ} (h : queueSize < 2 ^ 64) :
    queueSize * eventEntrySize ≤ vmapCount (queuePages queueSize) * 4096 ↔
      queueSize ≤ maxQueueSize := by
  unfold vmapCount queuePages pageAlign eventEntrySize maxQueueSize
  constructor
  · intro hle
    omega
  · intro hle
    omega

end NvUvm.EventQueues
