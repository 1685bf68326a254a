import NvUvm.Processor

/-!
# VA ranges of user channels

The objects behind `UVM_REGISTER_CHANNEL` (`uvm8_user_channel.c`): a channel, the resources that RM
reports for it, and the VA range of each resource.  A global resource has a range of its own in every
channel; a local one has a range that the channels of a GPU VA space share, with a count of the
channels that use it.

An object stays in its table when it is destroyed, so that a stale pointer still reads what the
object last held; `Event` records what happened to it.
-/

namespace NvUvm.ChannelLife

/-! ## The records -/

/-- `UvmGpuChannelResourceInfo`, after the fix-up of `get_rm_channel_resources`. -/
structure ResourceInfo where
  resourceDescriptor : ℕ
  globalResource : Bool
  alignment : ℕ
  size : ℕ
  sysmem : Bool
  deriving DecidableEq, Repr

/-- `channel.aperture`. -/
inductive Aperture where
  | sys
  | vid
  deriving DecidableEq, Repr

/-- `uvm_va_range_t` of type `UVM_VA_RANGE_TYPE_CHANNEL`.  `ptRanges` tells that
`pt_range_vec.ranges` is set, and `ptesWritten` that the PTEs were written and waited for. -/
structure ChannelRange where
  start : ℕ
  last : ℕ
  gpuVaSpace : ℕ
  aperture : Aperture
  rmDescriptor : ℕ
  isLocal : Bool
  refCount : ℕ
  ptRanges : Bool
  ptesWritten : Bool
  deriving DecidableEq, Repr

/-- `uvm_user_channel_t`.  A channel whose `va_ranges` array is not full yet has `NULL` in the rest
of it. -/
structure UserChannel where
  gpuVaSpace : Option ℕ
  handle : ℕ × ℕ
  instancePtrDesc : ℕ
  resources : List ResourceInfo
  vaRanges : Option (List ℕ)
  isBound : Bool
  deriving DecidableEq, Repr

/-- `uvm_gpu_va_space_t`.  `attached` tells that its `va_space` is set. -/
structure GpuVaSpace where
  gpu : ProcessorId
  attached : Bool
  disallowNewChannels : Bool
  registeredChannels : List ℕ
  localChannelRanges : List ℕ
  deriving DecidableEq, Repr

/-- What happens to channels and their ranges. -/
inductive Event where
  /-- A channel became bound: whether its GPU VA space was attached, and refused new channels. -/
  | bound (userChannel : ℕ) (attached disallowed : Bool)
  /-- A channel was detached: the value of `is_bound` then. -/
  | detached (userChannel : ℕ) (isBound : Bool)
  | channelDestroyed (userChannel : ℕ)
  | rangeDestroyed (range : ℕ)
  deriving DecidableEq, Repr

/-- `uvm_va_space_t`, with the objects it ever had.  `vaRangeTree` holds the channel ranges in the
tree, and `fatal` tells that a system-fatal error was reported. -/
structure Space where
  channels : ℕ → UserChannel
  channelCount : ℕ
  ranges : ℕ → ChannelRange
  rangeCount : ℕ
  gpuVaSpaces : ℕ → GpuVaSpace
  gpuVaSpaceCount : ℕ
  vaRangeTree : List ℕ
  registeredGpus : ProcessorMask
  gpuRegisterInProgress : ProcessorMask
  registeredGpuVaSpaces : ProcessorId → Option ℕ
  userChannelsStopped : Bool
  fatal : Bool
  log : List Event

/-- A channel that `uvm_kvmalloc_zero` returns. -/
def UserChannel.zero : UserChannel := ⟨none, (0, 0), 0, [], none, false⟩

def ChannelRange.zero : ChannelRange := ⟨0, 0, 0, .sys, 0, false, 0, false, false⟩

def GpuVaSpace.zero : GpuVaSpace := ⟨cpuId, false, false, [], []⟩

/-- `uvm_va_space_create`. -/
def Space.new : Space where
  channels := fun _ => .zero
  channelCount := 0
  ranges := fun _ => .zero
  rangeCount := 0
  gpuVaSpaces := fun _ => .zero
  gpuVaSpaceCount := 0
  vaRangeTree := []
  registeredGpus := fun _ => false
  gpuRegisterInProgress := fun _ => false
  registeredGpuVaSpaces := fun _ => none
  userChannelsStopped := false
  fatal := false
  log := []

/-- What `uvm_va_range_create_channel` meets. -/
inductive CreateOutcome where
  | created
  | allocFailed
  /-- The range could not be added to the tree, and is destroyed again. -/
  | addFailed
  deriving DecidableEq, Repr

/-- What `uvm_va_range_map_rm_allocation` meets. -/
inductive MapOutcome where
  | mapped
  /-- The page tables are freed again. -/
  | failed
  /-- The wait for the PTE writes failed too: the page tables are left as they are. -/
  | leaked
  deriving DecidableEq, Repr

namespace Space

variable (s : Space)

def setChannel (ch : ℕ) (userChannel : UserChannel) : Space :=
  { s with channels := Function.update s.channels ch userChannel }

def setRange (r : ℕ) (range : ChannelRange) : Space :=
  { s with ranges := Function.update s.ranges r range }

def setGpuVaSpace (g : ℕ) (gpuVaSpace : GpuVaSpace) : Space :=
  { s with gpuVaSpaces := Function.update s.gpuVaSpaces g gpuVaSpace }

def record (event : Event) : Space := { s with log := event :: s.log }

/-! ## Channel ranges -/

def findLocalRange (g rmDescriptor : ℕ) : Option ℕ :=
  (s.gpuVaSpaces g).localChannelRanges.find? fun r => (s.ranges r).rmDescriptor = rmDescriptor

/-- `list_add` to the local ranges of a GPU VA space. -/
def addLocalRange (g r : ℕ) : Space :=
  s.setGpuVaSpace g { s.gpuVaSpaces g with
    localChannelRanges := r :: (s.gpuVaSpaces g).localChannelRanges }

/-- `list_del` from the local ranges of a GPU VA space. -/
def delLocalRange (g r : ℕ) : Space :=
  s.setGpuVaSpace g { s.gpuVaSpaces g with
    localChannelRanges := (s.gpuVaSpaces g).localChannelRanges.erase r }

/-- `uvm_va_range_destroy` of a channel range. -/
def rangeDestroy (r : ℕ) : Space :=
  let s := { s with vaRangeTree := s.vaRangeTree.erase r }
  let s := if (s.ranges r).isLocal then s.delLocalRange (s.ranges r).gpuVaSpace r else s
  s.record (.rangeDestroyed r)

/-- The step of `destroy_va_ranges`: a channel drops one of its ranges. -/
def dropRange (r : ℕ) : Space :=
  let s := s.setRange r { s.ranges r with refCount := (s.ranges r).refCount - 1 }
  if (s.ranges r).refCount = 0 then s.rangeDestroy r else s

def destroyVaRanges (ch : ℕ) : Space :=
  match (s.channels ch).vaRanges with
  | none => s
  | some vaRanges =>
    let s := vaRanges.foldl dropRange s
    s.setChannel ch { s.channels ch with vaRanges := none }

/-- `NvU64` arithmetic. -/
def u64 (n : ℕ) : ℕ := n % 2 ^ 64

/-- `UVM_ALIGN_UP`. -/
def alignUp (value alignment : ℕ) : ℕ := u64 (value + alignment - 1) / alignment * alignment

/-- The allocation of `create_va_range`: the first aligned addresses in `[base, last]`. -/
def placeResource (resource : ResourceInfo) (base last : ℕ) : Option (ℕ × ℕ) :=
  let currBase := alignUp base resource.alignment
  let currEnd := u64 (currBase + resource.size + (2 ^ 64 - 1))
  if currBase < base ∨ last < currBase ∨ currEnd < base ∨ last < currEnd ∨ currEnd < currBase then
    none
  else some (currBase, currEnd)

/-- A range that is allocated and not in the tree yet. -/
def newRange (g : ℕ) (resource : ResourceInfo) (addrs : ℕ × ℕ) : ChannelRange where
  start := addrs.1
  last := addrs.2
  gpuVaSpace := g
  aperture := if resource.sysmem then .sys else .vid
  rmDescriptor := resource.resourceDescriptor
  isLocal := !resource.globalResource
  refCount := 1
  ptRanges := false
  ptesWritten := false

/-- `create_va_range`: the range of the resource and the address to go on from. -/
def createVaRange (g : ℕ) (resource : ResourceInfo) (base last : ℕ) (o : CreateOutcome) :
    Space × Option (ℕ × ℕ) :=
  match if resource.globalResource then none else s.findLocalRange g resource.resourceDescriptor with
  | some r =>
    (s.setRange r { s.ranges r with refCount := (s.ranges r).refCount + 1 }, some (r, base))
  | none =>
    match placeResource resource base last with
    | none => (s, none)
    | some addrs =>
      let r := s.rangeCount
      match o with
      | .allocFailed => (s, none)
      | .addFailed => ({ s with rangeCount := r + 1 }.record (.rangeDestroyed r), none)
      | .created =>
        let s := { s with
          ranges := Function.update s.ranges r (newRange g resource addrs)
          rangeCount := r + 1
          vaRangeTree := r :: s.vaRangeTree }
        (if resource.globalResource then s else s.addLocalRange g r, some (r, u64 (addrs.2 + 1)))

/-- The loop of `create_va_ranges`: the ranges made for the resources, and whether all were. -/
def createLoop (g last : ℕ) (o : ℕ → CreateOutcome) :
    ℕ → List ResourceInfo → ℕ → Space → List ℕ → Space × List ℕ × Bool
  | _, [], _, s, made => (s, made, true)
  | i, resource :: rest, base, s, made =>
    if last < base then (s, made, false)
    else
      match s.createVaRange g resource base last (o i) with
      | (s, none) => (s, made, false)
      | (s, some (r, base)) => createLoop g last o (i + 1) rest base s (made ++ [r])

/-- `create_va_ranges`.  `arrayAlloc` is the allocation of the `va_ranges` array. -/
def createVaRanges (ch g base last : ℕ) (arrayAlloc : Bool) (o : ℕ → CreateOutcome) :
    Space × Bool :=
  if arrayAlloc then
    let r := createLoop g last o 0 (s.channels ch).resources base s []
    let s := r.1.setChannel ch { r.1.channels ch with vaRanges := some r.2.1 }
    if r.2.2 then (s, true) else (s.destroyVaRanges ch, false)
  else (s, false)

/-! ## Mapping and binding -/

/-- The loop of `uvm_user_channel_map_resources`: the ranges mapped here, and whether all are. -/
def mapLoop (o : ℕ → MapOutcome) : ℕ → List ℕ → Space → List ℕ → Space × List ℕ × Bool
  | _, [], s, pending => (s, pending, true)
  | i, r :: rest, s, pending =>
    -- mapped by another channel
    if (s.ranges r).ptRanges then mapLoop o (i + 1) rest s pending
    else
      match o i with
      | .mapped =>
        mapLoop o (i + 1) rest (s.setRange r { s.ranges r with ptRanges := true }) (r :: pending)
      | .failed => (s, pending, false)
      | .leaked =>
        ({ s.setRange r { s.ranges r with ptRanges := true } with fatal := true }, pending, false)

def markWritten (pending : List ℕ) : Space :=
  { s with ranges := fun r =>
      if r ∈ pending then { s.ranges r with ptesWritten := true } else s.ranges r }

/-- `uvm_user_channel_map_resources`, with the wait at its end. -/
def mapResources (ch : ℕ) (o : ℕ → MapOutcome) (trackerWait : Bool) : Space × Bool :=
  let r := mapLoop o 0 ((s.channels ch).vaRanges.getD []) s []
  if trackerWait then (r.1.markWritten r.2.1, r.2.2) else ({ r.1 with fatal := true }, false)

/-- `bind_channel_resources`, once RM has bound the channel. -/
def setBound (ch : ℕ) : Space :=
  let userChannel := s.channels ch
  let gpuVaSpace := s.gpuVaSpaces (userChannel.gpuVaSpace.getD 0)
  (s.setChannel ch { userChannel with isBound := true }).record
    (.bound ch gpuVaSpace.attached gpuVaSpace.disallowNewChannels)

/-! ## Stopping and detaching -/

/-- `uvm_user_channel_stop`, without the call to RM. -/
def stop (ch : ℕ) : Space :=
  if (s.channels ch).instancePtrDesc = 0 then s
  else if (s.channels ch).isBound then s.setChannel ch { s.channels ch with isBound := false }
  else s

/-- `gpu_va_space_stop_all_channels`. -/
def stopAllChannels (g : ℕ) : Space :=
  let s := (s.gpuVaSpaces g).registeredChannels.foldl stop s
  s.setGpuVaSpace g { s.gpuVaSpaces g with disallowNewChannels := true }

/-- `uvm_user_channel_detach`, without the deferred free list. -/
def detach (ch : ℕ) : Space :=
  match (s.channels ch).gpuVaSpace with
  | none => s
  | some g =>
    let s := s.record (.detached ch (s.channels ch).isBound)
    let s := s.setGpuVaSpace g { s.gpuVaSpaces g with
      registeredChannels := (s.gpuVaSpaces g).registeredChannels.erase ch }
    let s := s.destroyVaRanges ch
    s.setChannel ch { s.channels ch with gpuVaSpace := none }

/-- `uvm_gpu_va_space_detach_all_channels`: the channels go to the deferred free list. -/
def detachAllChannels (g : ℕ) : Space × List ℕ :=
  let userChannels := (s.gpuVaSpaces g).registeredChannels
  (userChannels.foldl detach s, userChannels)

/-- `remove_gpu_va_space`, with the channels it defers. -/
def removeGpuVaSpace (g : ℕ) : Space × List ℕ :=
  if (s.gpuVaSpaces g).attached then
    let r := s.detachAllChannels g
    let s := { r.1 with
      registeredGpuVaSpaces :=
        Function.update r.1.registeredGpuVaSpaces (r.1.gpuVaSpaces g).gpu none }
    (s.setGpuVaSpace g { s.gpuVaSpaces g with attached := false }, r.2)
  else (s, [])

/-- `for_each_gpu_va_space`. -/
def attachedGpuVaSpaces : List ℕ := (List.finRange maxProcessors).filterMap s.registeredGpuVaSpaces

def findUserChannel (handle : ℕ × ℕ) : Option ℕ :=
  s.attachedGpuVaSpaces.findSome? fun g =>
    (s.gpuVaSpaces g).registeredChannels.find? fun ch => (s.channels ch).handle = handle

end Space

end NvUvm.ChannelLife
