import NvUvm.Lib.Run
import NvUvm.LiteProgress

/-!
# The channel manager of UVM-Lite

Model of the channel manager of `uvm_channel_mgmt.c`: its channels, its ring buffers and the
pushbuffers that are cut from them.  Pushbuffers are obtained by `uvm_get_pushbuffer`, written, and
then submitted to a channel or cancelled; those submitted are freed by reclaim when the GPU has
completed them.

Channels, ring buffers and pushbuffer structures are numbered.  `uvm_get_pushbuffer` gives up the lock
of the manager between two tries, so each of its lock sections is a step of its own; a thread may hold
a ring buffer from one to the next.
-/

namespace NvUvm.LiteChannel

/-! ## The state -/

/-- `UvmChannel` with its `UvmChannelTracking`.  The GPU has completed the pushbuffers up to
`completed`, and the semaphore shows the lower half of it. -/
structure Channel where
  numGpFifoEntries : ℕ
  curGpFifoOffset : ℕ
  numReservedGpFifoEntries : ℕ
  numFreeGpFifoEntries : ℕ
  seqNumDone : ℕ
  seqNumPending : ℕ
  completed : ℕ
  pbSubmittedList : List ℕ

/-- `UvmRingbuffer`. -/
structure Ringbuffer where
  cpuBegin : ℕ
  cpuEnd : ℕ
  curOffset : ℕ
  pbList : List ℕ

/-- `UvmPushbuffer`. -/
structure Pushbuffer where
  cpuBegin : ℕ
  curOffset : ℕ
  ringbuffer : ℕ
  channel : ℕ
  gpFifoOffset : ℕ
  seqNum : ℕ

/-- `UvmChannelManager`; `waiting` gives the ring buffer that a thread in `uvm_get_pushbuffer` holds
while it waits for a channel, and `obtained` lists the pushbuffers that were obtained and neither
submitted nor cancelled. -/
structure State where
  channel : ℕ → Channel
  channelList : List ℕ
  ringbuffer : ℕ → Ringbuffer
  ringbufferList : List ℕ
  ringbufferFreeList : List ℕ
  pushbuffer : ℕ → Pushbuffer
  pbFreeList : List ℕ
  allocated : ℕ
  waiting : ℕ → Option ℕ
  obtained : List ℕ

/-- `UVM_PUSHBUFFER_RESERVATION_SIZE`. -/
def reservationSize : ℕ := 128 * 1024

/-- `UVM_RINGBUFFER_DEFAULT_SIZE`. -/
def ringbufferSize : ℕ := 2 * reservationSize

/-- `a - b` of two `NvU64`. -/
def sub64 (a b : ℕ) : ℕ := (a + 2 ^ 64 - b) % 2 ^ 64

/-- The sequence number of a pushbuffer that is not submitted. -/
def maxSeqNum : ℕ := 2 ^ 64 - 1

namespace State

variable (s : State)

def setChannel (c : ℕ) (ch : Channel) : State :=
  { s with channel := Function.update s.channel c ch }

def setRingbuffer (r : ℕ) (rb : Ringbuffer) : State :=
  { s with ringbuffer := Function.update s.ringbuffer r rb }

def setPushbuffer (x : ℕ) (pb : Pushbuffer) : State :=
  { s with pushbuffer := Function.update s.pushbuffer x pb }

/-- A thread takes a ring buffer with it, or no longer holds one. -/
def setWaiting (i : ℕ) (r : Option ℕ) : State :=
  { s with waiting := Function.update s.waiting i r }

/-! ## Progress and reclaim -/

/-- `uvm_update_channel_progress`, of a channel. -/
def updateProgress (c : ℕ) : State :=
  s.setChannel c { s.channel c with
    seqNumDone := LiteChannel.updateProgress (s.channel c).seqNumDone
      (semaphore (s.channel c).completed) }

/-- `uvm_query_channel_seq_done`, of a channel. -/
def querySeqDone (c seq : ℕ) : Bool × State :=
  let r := LiteChannel.querySeqDone (s.channel c).seqNumDone (semaphore (s.channel c).completed) seq
  (r.1, s.setChannel c { s.channel c with seqNumDone := r.2 })

/-- `uvm_channel_manager_free_pushbuffer_structure`: the pushbuffer goes from the list of its ring
buffer to the free list. -/
def freePushbufferStructure (x : ℕ) : State :=
  let r := (s.pushbuffer x).ringbuffer
  { s.setRingbuffer r { s.ringbuffer r with pbList := (s.ringbuffer r).pbList.erase x } with
    pbFreeList := x :: s.pbFreeList }

def freeSubmittedPushbuffer (x : ℕ) : State :=
  let c := (s.pushbuffer x).channel
  (s.setChannel c { s.channel c with
    numFreeGpFifoEntries := (s.channel c).numFreeGpFifoEntries + 1
    pbSubmittedList := (s.channel c).pbSubmittedList.erase x }).freePushbufferStructure x

/-- The loop of `_reclaim_pushbuffers`. -/
def reclaimLoop (curSeq : ℕ) : List ℕ → State → State
  | [], s => s
  | x :: rest, s =>
    if (s.pushbuffer x).seqNum ≤ curSeq then
      reclaimLoop curSeq rest (s.freeSubmittedPushbuffer x)
    else s

/-- `_reclaim_pushbuffers`; `curSeq` is an `NvU32`. -/
def reclaimPushbuffers (c : ℕ) : State :=
  let s := s.updateProgress c
  reclaimLoop ((s.channel c).seqNumDone % 2 ^ 32) (s.channel c).pbSubmittedList s

/-- The body of the loop of `uvm_channel_manager_reclaim`. -/
def reclaimRingbuffer (r : ℕ) : State :=
  match (s.ringbuffer r).pbList with
  | [] => s
  | x :: _ =>
    let c := (s.pushbuffer x).channel
    let q := s.querySeqDone c (s.pushbuffer x).seqNum
    if q.1 then q.2.reclaimPushbuffers c else q.2

/-- `uvm_channel_manager_reclaim`. -/
def reclaim : State := s.ringbufferList.foldl reclaimRingbuffer s

/-- `uvm_update_all_channel_progress_for_manager`. -/
def updateAllProgress : State := s.channelList.foldl updateProgress s

/-! ## Ring buffers and channels -/

def findMemoryInRingbuffer (r : ℕ) : Option ℕ :=
  let rb := s.ringbuffer r
  match rb.pbList.head?, rb.pbList.getLast? with
  | some pbHead, some pbTail =>
    let pbHeadBegin := (s.pushbuffer pbHead).cpuBegin
    let pbTailBegin := (s.pushbuffer pbTail).cpuBegin
    let pbTailEnd := pbTailBegin + (s.pushbuffer pbTail).curOffset
    if pbTailBegin < pbHeadBegin then
      if reservationSize ≤ sub64 pbHeadBegin pbTailEnd then some pbTailEnd else none
    else if reservationSize ≤ sub64 rb.cpuEnd pbTailEnd then some pbTailEnd
    else if reservationSize ≤ sub64 pbHeadBegin rb.cpuBegin then some rb.cpuBegin
    else none
  | _, _ => some rb.cpuBegin

/-- The walk of `uvm_channel_manager_get_ringbuffer` over the free list. -/
def getRingbufferWalk : List ℕ → Option (ℕ × State)
  | [] => none
  | r :: rest =>
    match s.findMemoryInRingbuffer r with
    | some curAddr =>
      let rb := s.ringbuffer r
      some (r, { s.setRingbuffer r { rb with curOffset := sub64 curAddr rb.cpuBegin } with
        ringbufferFreeList := s.ringbufferFreeList.erase r })
    | none => getRingbufferWalk rest

/-- `uvm_channel_manager_get_ringbuffer`. -/
def getRingbuffer : Option (ℕ × State) := s.getRingbufferWalk s.ringbufferFreeList

/-- `uvm_channel_manager_put_ringbuffer`. -/
def putRingbuffer (r : ℕ) : State :=
  { s with ringbufferFreeList := s.ringbufferFreeList ++ [r] }

/-- `uvm_channel_manager_get_channel`: the first channel with a free GPFIFO entry goes to the tail of
the list, and the entry is reserved. -/
def getChannel : Option (ℕ × State) :=
  match s.channelList.find? fun c => (s.channel c).numFreeGpFifoEntries ≠ 0 with
  | none => none
  | some c =>
    some (c, { s.setChannel c { s.channel c with
        numFreeGpFifoEntries := (s.channel c).numFreeGpFifoEntries - 1
        numReservedGpFifoEntries := (s.channel c).numReservedGpFifoEntries + 1 } with
      channelList := s.channelList.erase c ++ [c] })

/-- `uvm_channel_manager_put_channel`. -/
def putChannel (c : ℕ) : State :=
  { s.setChannel c { s.channel c with
      numReservedGpFifoEntries := (s.channel c).numReservedGpFifoEntries - 1 } with
    channelList := c :: s.channelList.erase c }

/-- `uvm_channel_manager_alloc_pushbuffer_structure`, with whether an allocation succeeds. -/
def allocPushbufferStructure (allocOk : Bool) : Option (ℕ × State) :=
  match s.pbFreeList with
  | x :: rest => some (x, { s with pbFreeList := rest })
  | [] => if allocOk then some (s.allocated, { s with allocated := s.allocated + 1 }) else none

/-! ## The calls -/

/-- The end of `uvm_get_pushbuffer` that has got a ring buffer and a channel. -/
def initPushbuffer (x r c : ℕ) : State :=
  let rb := s.ringbuffer r
  { (s.setRingbuffer r { rb with pbList := rb.pbList ++ [x] }).setPushbuffer x
      ⟨rb.cpuBegin + rb.curOffset, 0, r, c, 0, maxSeqNum⟩ with
    obtained := x :: s.obtained }

/-- The part of a lock section of `uvm_get_pushbuffer` in which the thread holds a ring buffer: it
looks for a channel, and then for a pushbuffer structure. -/
def lookForChannel (i r : ℕ) (allocOk : Bool) : State :=
  match s.getChannel with
  | none => s.updateAllProgress.reclaim
  | some (c, s) =>
    match s.allocPushbufferStructure allocOk with
    | none => ((s.putChannel c).putRingbuffer r).setWaiting i none
    | some (x, s) => (s.initPushbuffer x r c).setWaiting i none

/-- A lock section of `uvm_get_pushbuffer`, of a thread. -/
def getPushbuffer (i : ℕ) (allocOk : Bool) : State :=
  match s.waiting i with
  | some r => s.lookForChannel i r allocOk
  | none =>
    match s.getRingbuffer with
    | none => s.updateAllProgress.reclaim
    | some (r, s) => (s.setWaiting i (some r)).lookForChannel i r allocOk

def write (x bytes : ℕ) : State :=
  s.setPushbuffer x
    { s.pushbuffer x with curOffset := (s.pushbuffer x).curOffset + bytes }

/-- `uvm_submit_pushbuffer`, with the size of the semaphore release at the end. -/
def submitPushbuffer (x bytes : ℕ) : State :=
  let pb := s.pushbuffer x
  let ch := s.channel pb.channel
  let nextGpFifoOffset := (ch.curGpFifoOffset + 1) % ch.numGpFifoEntries
  let seqNumPending := (ch.seqNumPending + 1) % 2 ^ 64
  let s := s.setPushbuffer x
    { pb with
      curOffset := pb.curOffset + bytes
      gpFifoOffset := ch.curGpFifoOffset
      seqNum := seqNumPending }
  let s := s.setChannel pb.channel
    { ch with
      curGpFifoOffset := nextGpFifoOffset
      seqNumPending := seqNumPending
      pbSubmittedList := ch.pbSubmittedList ++ [x] }
  { (s.putRingbuffer pb.ringbuffer).putChannel pb.channel with obtained := s.obtained.erase x }

/-- `uvm_cancel_pushbuffer`. -/
def cancelPushbuffer (x : ℕ) : State :=
  let c := (s.pushbuffer x).channel
  let r := (s.pushbuffer x).ringbuffer
  let s := ((s.freePushbufferStructure x).putChannel c).putRingbuffer r
  { s.setChannel c { s.channel c with
      numFreeGpFifoEntries := (s.channel c).numFreeGpFifoEntries + 1 } with
    obtained := s.obtained.erase x }

/-- The GPU completes the next pushbuffer of a channel. -/
def complete (c : ℕ) : State :=
  if (s.channel c).completed < (s.channel c).seqNumPending then
    s.setChannel c { s.channel c with completed := (s.channel c).completed + 1 }
  else s

end State

/-! ## Runs -/

/-- A step: a lock section of a call, methods written by the client, a tracker that reads the progress
of a channel, or a completion by the GPU. -/
inductive Op where
  | getPushbuffer (i : ℕ) (allocOk : Bool)
  | write (x bytes : ℕ)
  | submitPushbuffer (x bytes : ℕ)
  | cancelPushbuffer (x : ℕ)
  | updateProgress (c : ℕ)
  | complete (c : ℕ)

/-- The bytes fit in what is reserved for the pushbuffer. -/
def State.Fits (s : State) (x bytes : ℕ) : Prop :=
  (s.pushbuffer x).curOffset + bytes ≤ reservationSize

instance (s : State) (x bytes : ℕ) : Decidable (s.Fits x bytes) :=
  inferInstanceAs (Decidable (_ ≤ _))

/-- The state after a step.  Clients write, submit and cancel only pushbuffers they have obtained and
neither submitted nor cancelled yet, and write no more than is reserved for each. -/
def step (s : State) : Op → State
  | .getPushbuffer i allocOk => s.getPushbuffer i allocOk
  | .write x bytes => if x ∈ s.obtained ∧ s.Fits x bytes then s.write x bytes else s
  | .submitPushbuffer x bytes =>
    if x ∈ s.obtained ∧ s.Fits x bytes ∧ 0 < bytes then s.submitPushbuffer x bytes else s
  | .cancelPushbuffer x => if x ∈ s.obtained then s.cancelPushbuffer x else s
  | .updateProgress c => s.updateProgress c
  | .complete c => s.complete c

/-- The channels and ring buffers of a manager, as they are created. -/
structure Config where
  channels : List ℕ
  channels_nodup : channels.Nodup
  numGpFifoEntries : ℕ → ℕ
  entries_pos : ∀ c, 0 < numGpFifoEntries c
  entries_lt : ∀ c, numGpFifoEntries c < 2 ^ 32
  ringbuffers : List ℕ
  ringbuffers_nodup : ringbuffers.Nodup
  cpuBegin : ℕ → ℕ
  cpuEnd_lt : ∀ r, cpuBegin r + ringbufferSize < 2 ^ 64

/-- The manager after `uvm_create_channel_manager`. -/
def Config.init (cfg : Config) : State where
  channel c := ⟨cfg.numGpFifoEntries c, 0, 0, cfg.numGpFifoEntries c - 1, 0, 0, 0, []⟩
  channelList := cfg.channels
  ringbuffer r := ⟨cfg.cpuBegin r, cfg.cpuBegin r + ringbufferSize, 0, []⟩
  ringbufferList := cfg.ringbuffers
  ringbufferFreeList := cfg.ringbuffers.reverse
  pushbuffer _ := ⟨0, 0, 0, 0, 0, 0⟩
  pbFreeList := []
  allocated := 0
  waiting _ := none
  obtained := []

end NvUvm.LiteChannel
