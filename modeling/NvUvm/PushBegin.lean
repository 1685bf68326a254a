import NvUvm.ChannelRing
import NvUvm.Processor

/-!
# How a push begins

Model of `__uvm_push_begin_on_channel` and `__uvm_push_begin_acquire` (`uvm8_push.c`) with the loops
they wait in: `uvm_channel_reserve` and `uvm_channel_reserve_type` (`uvm8_channel.c`) and
`claim_chunk` (`uvm8_pushbuffer.c`).  A call claims a place in the ring of a channel, one unit of
`concurrent_pushes_sema` and a chunk of the pushbuffer, in this order.  The loops look for channel
errors while they wait.

The progress of the channels that the loops update is a step of its own, which can come between any
two steps of a call.
-/

namespace NvUvm

open Lib Lib.Ring Pushbuffer

/-- Where a call is.  The loops keep the status of their last check for errors. -/
inductive BeginPhase where
  | start
  /-- `uvm_channel_reserve`, before its first try; then the condition and the body of its loop. -/
  | reserve (channel : ℕ)
  | reserveLoop (channel : ℕ) (status : NvStatus)
  | reserveCheck (channel : ℕ)
  /-- `uvm_channel_reserve_type`: its pass over the channels of the type; then the passes of its
  loop, before a try and behind one that has failed. -/
  | reserveType (left channels : List ℕ)
  | reserveTypeLoop (left channels : List ℕ)
  | reserveTypeCheck (left channels : List ℕ)
  /-- `uvm_pushbuffer_begin_push`, before `uvm_down`. -/
  | down (channel : ℕ)
  /-- `claim_chunk`, before its first try; then the condition and the body of its loop, and behind
  it with an error. -/
  | claim (channel : ℕ)
  | claimLoop (channel : ℕ) (status : NvStatus)
  | claimCheck (channel : ℕ)
  | claimFailed (channel : ℕ)
  /-- The call has returned an error. -/
  | failed
  /-- It has returned `NV_OK`; then `uvm_channel_end_push`. -/
  | begun (channel : ℕ)
  | submitted
  | ended
  | done
  deriving DecidableEq, Repr

namespace BeginPhase

/-- The channel whose `current_pushes_count` counts the call. -/
def channel : BeginPhase → Option ℕ
  | .down channel | .claim channel | .claimLoop channel _ | .claimCheck channel
  | .claimFailed channel | .begun channel => some channel
  | _ => none

/-- The call is between `uvm_down` and `uvm_up`. -/
def holdsSema : BeginPhase → Bool
  | .claim _ | .claimLoop _ _ | .claimCheck _ | .claimFailed _ | .begun _ | .submitted | .ended =>
    true
  | _ => false

end BeginPhase

/-- What a call is made for: `uvm_push_begin_on_channel`, or `uvm_push_begin_acquire` with the
channels of a type. -/
inductive BeginTarget where
  | onChannel (channel : ℕ)
  | ofType (channels : List ℕ)
  deriving DecidableEq, Repr

/-- The channel manager, the count of `concurrent_pushes_sema`, and the calls by their pushes. -/
structure PushBegins where
  manager : ChannelManager
  concurrentPushesSema : ℕ
  calls : ℕ → BeginPhase

/-- The steps: a call begins, goes on with the status that its check for errors finds, and its push
ends; the GPU completes entries, and a thread updates the progress of a channel. -/
inductive BeginStep where
  | begin (call : ℕ) (target : BeginTarget)
  | next (call : ℕ) (status : NvStatus)
  | endPush (call : ℕ) (size : PushSize)
  | pushbufferEndPush (call : ℕ)
  | complete (channel value : ℕ)
  | updateProgress (channel completedValue maxToComplete : ℕ)

def BeginStep.call : BeginStep → Option ℕ
  | .begin call _ | .next call _ | .endPush call _ | .pushbufferEndPush call => some call
  | .complete _ _ | .updateProgress _ _ _ => none

namespace PushBegins

def goto (s : PushBegins) (call : ℕ) (phase : BeginPhase) : PushBegins :=
  { s with calls := Function.update s.calls call phase }

def manage (s : PushBegins) (op : ManagerStep) : PushBegins :=
  { s with manager := s.manager.step op }

/-- `try_claim_channel`, and where the call goes on. -/
def tryClaimChannel (s : PushBegins) (call channel : ℕ) (claimed busy : BeginPhase) : PushBegins :=
  (s.manage (.tryClaimChannel call channel)).goto call
    (if (s.manager.channels channel).isChannelAvailable then claimed else busy)

/-- `try_claim_chunk`, and where the call goes on. -/
def tryClaimChunk (s : PushBegins) (call : ℕ) (claimed full : BeginPhase) : PushBegins :=
  (s.manage (.tryClaimChunk call)).goto call
    (if s.manager.pushbuffer.pickChunk.isSome then claimed else full)

/-- The next step of a call.  `status` is what `uvm_channel_check_errors` or
`uvm_channel_manager_check_errors` returns where the call looks for errors. -/
def next (s : PushBegins) (call : ℕ) (status : NvStatus) : PushBegins :=
  match s.calls call with
  | .reserve channel => s.tryClaimChannel call channel (.down channel) (.reserveLoop channel .ok)
  | .reserveLoop channel last =>
    -- `while (!try_claim_channel(channel) && status == NV_OK)`, and then `return status`
    if last.isOk then s.tryClaimChannel call channel (.down channel) (.reserveCheck channel)
    else s.tryClaimChannel call channel .failed .failed
  | .reserveCheck channel => s.goto call (.reserveLoop channel status)
  | .reserveType (channel :: left) channels =>
    s.tryClaimChannel call channel (.down channel) (.reserveType left channels)
  | .reserveType [] channels => s.goto call (.reserveTypeLoop channels channels)
  | .reserveTypeLoop (channel :: left) channels =>
    s.tryClaimChannel call channel (.down channel) (.reserveTypeCheck left channels)
  | .reserveTypeLoop [] channels => s.goto call (.reserveTypeLoop channels channels)
  | .reserveTypeCheck left channels =>
    s.goto call (if status.isOk then .reserveTypeLoop left channels else .failed)
  | .down channel =>
    if 0 < s.concurrentPushesSema then
      { s with concurrentPushesSema := s.concurrentPushesSema - 1 }.goto call (.claim channel)
    else s
  | .claim channel => s.tryClaimChunk call (.begun channel) (.claimLoop channel .ok)
  | .claimLoop channel last =>
    -- `while (!try_claim_chunk(..) && status == NV_OK)`, and then `return status`
    if last.isOk then s.tryClaimChunk call (.begun channel) (.claimCheck channel)
    else s.tryClaimChunk call (.claimFailed channel) (.claimFailed channel)
  | .claimCheck channel => s.goto call (.claimLoop channel status)
  | .claimFailed _ =>
    { s with concurrentPushesSema := s.concurrentPushesSema + 1 }.goto call .failed
  | .ended => { s with concurrentPushesSema := s.concurrentPushesSema + 1 }.goto call .done
  | .start | .failed | .begun _ | .submitted | .done => s

/-- One step; a step that its thread cannot take now changes nothing. -/
def step (s : PushBegins) : BeginStep → PushBegins
  | .begin call target =>
    match s.calls call, target with
    | .start, .onChannel channel => s.goto call (.reserve channel)
    | .start, .ofType channels => s.goto call (.reserveType channels channels)
    | _, _ => s
  | .next call status => s.next call status
  | .endPush call size =>
    match s.calls call with
    | .begun _ => (s.manage (.endPush call size)).goto call .submitted
    | _ => s
  | .pushbufferEndPush call =>
    match s.calls call with
    | .submitted => (s.manage (.pushbufferEndPush call)).goto call .ended
    | _ => s
  | .complete channel value => s.manage (.complete channel value)
  | .updateProgress channel completedValue maxToComplete =>
    s.manage (.updateProgress channel completedValue maxToComplete)

/-- The channels and the pushbuffer as they are created. -/
def init (numGpFifoEntries : ℕ → { n : ℕ // 0 < n }) : PushBegins where
  manager := ChannelManager.init numGpFifoEntries
  concurrentPushesSema := uvmPushbufferChunks
  calls := fun _ => .start

/-- Everything that is claimed belongs to a call that has not failed. -/
structure NothingLeft (s : PushBegins) : Prop where
  /-- `current_pushes_count` counts the calls that have reserved the channel and not failed. -/
  count : ∀ channel, ∃ l : List ℕ, l.Nodup ∧
    l.length = (s.manager.channels channel).currentPushesCount ∧
      ∀ call, call ∈ l ↔ (s.calls call).channel = some channel
  /-- No chunk keeps the push of a failed call. -/
  currentPush : ∀ c call, (s.manager.pushbuffer.chunks c).currentPush = some call →
    s.calls call ≠ .failed
  /-- A chunk that nobody uses is in both bitmaps. -/
  bitmaps : ∀ c, (s.manager.pushbuffer.chunks c).currentPush = none →
    (s.manager.pushbuffer.chunks c).pendingGpfifos = [] →
      s.manager.pushbuffer.idleChunks c = true ∧ s.manager.pushbuffer.availableChunks c = true
  /-- The semaphore counts the calls that are between `uvm_down` and `uvm_up`. -/
  sema : ∃ l : List ℕ, l.Nodup ∧ s.concurrentPushesSema + l.length = uvmPushbufferChunks ∧
    ∀ call, call ∈ l ↔ (s.calls call).holdsSema = true

/-- The call returns an error only where it holds nothing: while it reserves a channel, and the
channel is busy when the error has been found; `claim_chunk` does not return one. -/
def ReleasesOnError (s : PushBegins) : BeginStep → Prop
  | .next call _ =>
    match s.calls call with
    | .reserveLoop channel last =>
      last = .ok ∨ (s.manager.channels channel).isChannelAvailable = false
    | .claimFailed _ => False
    | _ => True
  | _ => True

end PushBegins

end NvUvm
