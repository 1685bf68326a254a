import NvUvm.Lib.Ring
import NvUvm.Lib.Run
import NvUvm.Pushbuffer

/-!
# Pushes on the channels of one manager

Model of a push's way through a channel and the pushbuffer (`uvm8_channel.c`).  A thread that ends
a push takes two steps: `uvm_channel_end_push` writes the GPFIFO entry and GPPUT under the pool
lock, and then `uvm_pushbuffer_end_push` puts the entry on the list of its chunk under the
pushbuffer lock.  Between the two, another thread's `uvm_channel_update_progress` can find the entry
completed.
-/

namespace NvUvm

open Lib Lib.Ring Pushbuffer

/-- `uvm_channel_t`.  `semaphore` is the payload that the GPU has released, extended to the 64 bits
of the tracking values. -/
structure PushChannel where
  numGpFifoEntries : ℕ
  cpuPut : ℕ
  gpuGet : ℕ
  currentPushesCount : ℕ
  queuedValue : ℕ
  gpfifoEntries : ℕ → GpfifoEntry
  semaphore : ℕ

namespace PushChannel

variable (channel : PushChannel)

def isChannelAvailable : Bool :=
  decide ((channel.cpuPut + channel.currentPushesCount + 1) % channel.numGpFifoEntries ≠
    channel.gpuGet)

/-- The pending entries, as `uvm_channel_update_progress_with_max` counts them. -/
def pendingGpfifos (gpuGet : ℕ) : ℕ :=
  if gpuGet ≤ channel.cpuPut then channel.cpuPut - gpuGet
  else channel.numGpFifoEntries - gpuGet + channel.cpuPut

end PushChannel

/-- How far a push has come: not begun, its channel claimed, its chunk claimed, its entry written
for the GPU, its entry put on the list of its chunk. -/
inductive PushPhase where
  | free
  | reserved
  | begun
  | submitted
  | ended
  deriving DecidableEq, Repr

/-- A push (`uvm_push_t`): where it is written and which entry it got.  The counters say how often
its entry was added to a list, removed from one, and deleted while it was on none. -/
structure Push where
  phase : PushPhase
  channel : ℕ
  beginOffset : ℕ
  index : ℕ
  added : ℕ
  removed : ℕ
  stray : ℕ
  deriving DecidableEq, Repr

/-- `uvm_channel_manager_t`, with its pushes. -/
structure ChannelManager where
  channels : ℕ → PushChannel
  pushbuffer : Pushbuffer
  pushes : ℕ → Push

/-- `uvm_channel_update_mode_t`. -/
inductive UpdateMode where
  | completed
  | forceAll
  deriving DecidableEq, Repr

namespace ChannelManager

variable (m : ChannelManager)

def entry (slot : GpfifoSlot) : GpfifoEntry := (m.channels slot.1).gpfifoEntries slot.2

/-- `uvm_pushbuffer_mark_completed` for the entry in a slot. -/
def markCompleted (slot : GpfifoSlot) : ChannelManager :=
  let push := m.pushes (m.entry slot).push
  let linked := (m.pushbuffer.chunks (gpfifoToChunk (m.entry slot))).pendingGpfifos.contains slot
  { m with
    pushbuffer := uvmPushbufferMarkCompleted m.entry m.pushbuffer slot
    pushes := Function.update m.pushes (m.entry slot).push
      (if linked then { push with removed := push.removed + 1 }
       else { push with stray := push.stray + 1 }) }

/-- The loop of `uvm_channel_update_progress_with_max`, with `left` entries still allowed. -/
def completeEntries (mode : UpdateMode) (id completedValue : ℕ) :
    ℕ → ℕ × ChannelManager → ℕ × ChannelManager
  | 0, r => r
  | left + 1, (gpuGet, m) =>
    let channel := m.channels id
    if gpuGet = channel.cpuPut then (gpuGet, m)
    else if mode = .completed ∧
        completedValue < (m.entry (id, gpuGet)).trackingSemaphoreValue then (gpuGet, m)
    else completeEntries mode id completedValue left
      (next channel.numGpFifoEntries gpuGet, m.markCompleted (id, gpuGet))

def setChannel (id : ℕ) (channel : PushChannel) : ChannelManager :=
  { m with channels := Function.update m.channels id channel }

def setPush (id : ℕ) (push : Push) : ChannelManager :=
  { m with pushes := Function.update m.pushes id push }

/-- The write of `gpu_get`. -/
def setGpuGet (id gpuGet : ℕ) : ChannelManager :=
  m.setChannel id { m.channels id with gpuGet := gpuGet }

/-- `uvm_channel_update_progress_with_max`, with the completed value it has read before it takes
the lock. -/
def uvmChannelUpdateProgressWithMax (id completedValue maxToComplete : ℕ) (mode : UpdateMode) :
    ℕ × ChannelManager :=
  let r := completeEntries mode id completedValue maxToComplete ((m.channels id).gpuGet, m)
  ((m.channels id).pendingGpfifos r.1, r.2.setGpuGet id r.1)

def tryClaimChannel (id : ℕ) : Bool × ChannelManager :=
  let channel := m.channels id
  if channel.isChannelAvailable then
    (true, m.setChannel id { channel with currentPushesCount := channel.currentPushesCount + 1 })
  else (false, m)

/-- The section of `uvm_channel_end_push` under the pool lock. -/
def endPushSection (push : ℕ) (size : PushSize) : ChannelManager :=
  let p := m.pushes push
  let channel := m.channels p.channel
  let newTrackingValue := channel.queuedValue + 1
  let entry : GpfifoEntry := ⟨newTrackingValue, p.beginOffset, size.1, push⟩
  let m := m.setChannel p.channel { channel with
    queuedValue := newTrackingValue
    gpfifoEntries := Function.update channel.gpfifoEntries channel.cpuPut entry
    currentPushesCount := channel.currentPushesCount - 1
    cpuPut := next channel.numGpFifoEntries channel.cpuPut }
  m.setPush push { p with phase := .submitted, index := channel.cpuPut }

end ChannelManager

/-- The steps: the lock sections of the threads, and the GPU that releases a tracking semaphore.
`uvm_channel_update_progress` reads the semaphore before it takes the lock, so the value it has
read can be an older one. -/
inductive ManagerStep where
  | tryClaimChannel (push channel : ℕ)
  | tryClaimChunk (push : ℕ)
  | endPush (push : ℕ) (size : PushSize)
  | pushbufferEndPush (push : ℕ)
  | complete (channel value : ℕ)
  | updateProgress (channel completedValue maxToComplete : ℕ)

namespace ChannelManager

/-- One step; a step that its thread cannot take now changes nothing. -/
def step (m : ChannelManager) : ManagerStep → ChannelManager
  | .tryClaimChannel push channel =>
    let r := m.tryClaimChannel channel
    if (m.pushes push).phase = .free ∧ r.1 then
      r.2.setPush push { m.pushes push with phase := .reserved, channel := channel }
    else m
  | .tryClaimChunk push =>
    if (m.pushes push).phase = .reserved then
      match m.pushbuffer.tryClaimChunk push with
      | (none, _) => m
      | (some c, pb) =>
        { m with pushbuffer := pb }.setPush push { m.pushes push with
          phase := .begun, beginOffset := chunkGetNextPushStart pb c }
    else m
  | .endPush push size =>
    if (m.pushes push).phase = .begun then m.endPushSection push size else m
  | .pushbufferEndPush push =>
    let p := m.pushes push
    if p.phase = .submitted then
      { m with
        pushbuffer := uvmPushbufferEndPush m.entry m.pushbuffer (p.channel, p.index) }.setPush push
          { p with phase := .ended, added := p.added + 1 }
    else m
  | .complete id value =>
    let channel := m.channels id
    if channel.semaphore ≤ value ∧ value ≤ channel.queuedValue then
      m.setChannel id { channel with semaphore := value }
    else m
  | .updateProgress id completedValue maxToComplete =>
    if completedValue ≤ (m.channels id).semaphore then
      (m.uvmChannelUpdateProgressWithMax id completedValue maxToComplete .completed).2
    else m

/-- The channels and the pushbuffer as they are created, with the ring sizes that RM reports. -/
def init (numGpFifoEntries : ℕ → { n : ℕ // 0 < n }) : ChannelManager where
  channels := fun id => ⟨(numGpFifoEntries id).1, 0, 0, 0, 0, fun _ => ⟨0, 0, 0, 0⟩, 0⟩
  pushbuffer := Pushbuffer.init
  pushes := fun _ => ⟨.free, 0, 0, 0, 0, 0, 0⟩

def chunkOf (m : ChannelManager) (push : ℕ) : ℕ := offsetToChunk (m.pushes push).beginOffset

/-- The lists of the chunks are sound. -/
structure ListsSound (m : ChannelManager) : Prop where
  /-- Every entry that was marked completed was on the list of its chunk. -/
  linked : ∀ push, (m.pushes push).stray = 0
  /-- The entry of a push is added once. -/
  addedOnce : ∀ push, (m.pushes push).added = if (m.pushes push).phase = .ended then 1 else 0
  /-- It is removed at most once, after it was added. -/
  removedOnce : ∀ push, (m.pushes push).removed ≤ (m.pushes push).added
  /-- Until it is removed the ring of its channel holds it. -/
  pending : ∀ push, (m.pushes push).phase = .ended → (m.pushes push).removed = 0 →
    InRing (m.channels (m.pushes push).channel).numGpFifoEntries
        (m.channels (m.pushes push).channel).gpuGet
        (m.channels (m.pushes push).channel).cpuPut (m.pushes push).index ∧
      (m.entry ((m.pushes push).channel, (m.pushes push).index)).push = push
  /-- A chunk with no current push whose pushes have all completed is idle. -/
  idle : ∀ c < uvmPushbufferChunks, (m.pushbuffer.chunks c).currentPush = none →
    (∀ push, (m.pushes push).phase = .ended → m.chunkOf push = c →
      (m.pushes push).removed = 1) → m.pushbuffer.idleChunks c = true

/-- The progress loop finds its entries listed: none of the entries that it is about to complete
belongs to a push that is between the two sections of its end. -/
def FindsEntriesListed (m : ChannelManager) : ManagerStep → Prop
  | .updateProgress id completedValue maxToComplete =>
    ∀ push, (m.pushes push).phase = .submitted → (m.pushes push).channel = id →
      dist (m.channels id).numGpFifoEntries (m.channels id).gpuGet (m.pushes push).index <
          maxToComplete →
        completedValue < (m.entry (id, (m.pushes push).index)).trackingSemaphoreValue
  | _ => True

end ChannelManager

end NvUvm
