import NvUvm.Processor

/-!
# User channels and the instance pointer table

Model of channel registration (`uvm8_user_channel.c`), of the instance pointer table of a GPU
(`uvm8_gpu.c`) and of the parts of GPU and GPU VA space registration that create and detach
channels (`uvm8_va_space.c`).

A channel is an object with an identity: list removal removes that object and no other.
Calls run one after the other, so the checks of the source that guard against another thread
between two lock sections always succeed and are left out.  What the calls obtain from
elsewhere (allocations, RM, the VA range allocator, the page tables) is part of the call's
input, `RegisterOutcome`.  Stopping a channel is an RM call without effect on this state.

- `InstancePtr`, `instancePtrToKey` and the table operations.
- `uvmUserChannelCreate`, `uvmRegisterChannelUnderWrite`, `uvmRegisterChannel`,
  `uvmUserChannelDetach`, `uvmUnregisterChannel`.
- `removeGpuVaSpace` and the calls that use it; `ChannelOp` and `channelStep`.
-/

namespace NvUvm

open Function (update)

/-! ## The instance pointer table -/

/-- The apertures an instance pointer may have. -/
inductive InstanceAperture where
  | vid
  | sys
  deriving DecidableEq, Repr

/-- A physical instance pointer; instance pointers are 4k aligned. -/
structure InstancePtr where
  aperture : InstanceAperture
  address : ℕ
  aligned : address % 4096 = 0
  deriving DecidableEq

def instancePtrToKey (instancePtr : InstancePtr) : ℕ :=
  (instancePtr.address >>> 11) ||| (if instancePtr.aperture = .sys then 1 else 0)

theorem instancePtrToKey_injective : Function.Injective instancePtrToKey := by
  rintro ⟨ap, a, ha⟩ ⟨ap', a', ha'⟩ h
  have hkey : ∀ (ap : InstanceAperture) (a : ℕ), a % 4096 = 0 →
      (a >>> 11) ||| (if ap = .sys then 1 else 0) =
        2 * (a / 4096) + (if ap = .sys then 1 else 0) := by
    intro ap a ha
    have hshift : a >>> 11 = 2 * (a / 4096) := by
      omega
    have hor := Nat.two_pow_add_eq_or_of_lt (i := 1)
      (b := if ap = .sys then 1 else 0) (by split <;> omega) (a / 4096)
    rw [hshift, ← hor]
  simp only [instancePtrToKey, hkey ap a ha, hkey ap' a' ha'] at h
  have hap : ap = ap' := by
    cases ap <;> cases ap' <;> simp at h ⊢ <;> omega
  subst hap
  have haddr : a = a' := by omega
  subst haddr
  rfl

/-- A VA space, by its index. -/
abbrev VaSpaceId := ℕ

/-- `gpu->instance_ptr_table`. -/
abbrev InstancePtrTable := ℕ → Option VaSpaceId

/-- `uvm_gpu_add_instance_ptr`.  The result of `radix_tree_insert`, which refuses a key that
is present, is only asserted on. -/
def uvmGpuAddInstancePtr (preload : NvStatus) (table : InstancePtrTable)
    (instancePtr : InstancePtr) (vaSpace : VaSpaceId) : NvStatus × InstancePtrTable :=
  if preload ≠ .ok then (preload, table)
  else
    let key := instancePtrToKey instancePtr
    (.ok, update table key ((table key).or (some vaSpace)))

def uvmGpuInstancePtrToVaSpace (table : InstancePtrTable) (instancePtr : InstancePtr) :
    Option VaSpaceId :=
  table (instancePtrToKey instancePtr)

def uvmGpuRemoveInstancePtr (table : InstancePtrTable) (instancePtr : InstancePtr) :
    InstancePtrTable :=
  update table (instancePtrToKey instancePtr) none

/-! ## Channels and GPU VA spaces -/

/-- `uvm_rm_user_object_t`: the handle pair of an RM object. -/
structure UserRmObject where
  userClient : ℕ
  userObject : ℕ
  deriving DecidableEq, Repr

/-- What RM tells about a channel it retained; the descriptor of its instance pointer is not
zero. -/
structure RetainedChannel where
  instancePtr : InstancePtr
  instanceDescriptor : ℕ
  instanceDescriptor_ne_zero : instanceDescriptor ≠ 0

/-- `uvm_user_channel_t`, after RM retained it; `object` tells apart the objects that
`uvm_user_channel_create` allocates. -/
structure UserChannel where
  object : ℕ
  userRmChannel : UserRmObject
  retained : RetainedChannel

def UserChannel.instancePtr (userChannel : UserChannel) : InstancePtr :=
  userChannel.retained.instancePtr

/-- `uvm_gpu_va_space_t`. -/
structure GpuVaSpace where
  registeredChannels : List UserChannel
  disallowNewChannels : Bool

/-- The channels of all VA spaces, and the instance pointer table of every GPU. -/
structure ChannelState where
  registeredGpus : VaSpaceId → ProcessorMask
  gpuVaSpaces : VaSpaceId → ProcessorId → Option GpuVaSpace
  userChannelsStopped : VaSpaceId → Bool
  instancePtrTable : ProcessorId → InstancePtrTable
  nextObject : ℕ

namespace ChannelState

def setGpuVaSpace (s : ChannelState) (vaSpace : VaSpaceId) (gpu : ProcessorId)
    (gpuVaSpace : Option GpuVaSpace) : ChannelState :=
  { s with gpuVaSpaces := update s.gpuVaSpaces vaSpace
             (update (s.gpuVaSpaces vaSpace) gpu gpuVaSpace) }

def setTable (s : ChannelState) (gpu : ProcessorId) (table : InstancePtrTable) :
    ChannelState :=
  { s with instancePtrTable := update s.instancePtrTable gpu table }

/-- The channels on a GPU VA space's list; none without a GPU VA space. -/
def channels (s : ChannelState) (vaSpace : VaSpaceId) (gpu : ProcessorId) :
    List UserChannel :=
  ((s.gpuVaSpaces vaSpace gpu).map (·.registeredChannels)).getD []

end ChannelState

/-- `uvm_user_channel_detach`: drop the table entry of the channel's instance pointer, and
unlink the channel, which does nothing if it is on no list. -/
def uvmUserChannelDetach (s : ChannelState) (vaSpace : VaSpaceId) (gpu : ProcessorId)
    (userChannel : UserChannel) : ChannelState :=
  let s :=
    if userChannel.retained.instanceDescriptor ≠ 0 then
      s.setTable gpu (uvmGpuRemoveInstancePtr (s.instancePtrTable gpu) userChannel.instancePtr)
    else s
  s.setGpuVaSpace vaSpace gpu ((s.gpuVaSpaces vaSpace gpu).map fun gpuVaSpace =>
    { gpuVaSpace with registeredChannels :=
        gpuVaSpace.registeredChannels.filter (·.object != userChannel.object) })

/-- `find_user_channel`: the first channel with the handle pair, over the GPU VA spaces of a
VA space in GPU order. -/
def findUserChannel (s : ChannelState) (vaSpace : VaSpaceId) (userRmChannel : UserRmObject) :
    Option (ProcessorId × UserChannel) :=
  (List.finRange maxProcessors).findSome? fun gpu =>
    ((s.channels vaSpace gpu).find? (·.userRmChannel = userRmChannel)).map (gpu, ·)

/-! ## Registration -/

/-- The parameters of `uvm_register_channel`. -/
structure RegisterArgs where
  vaSpace : VaSpaceId
  gpu : ProcessorId
  userRmChannel : UserRmObject
  base : ℕ
  length : ℕ

/-- What a registration obtains from elsewhere: whether the channel object can be allocated,
RM's answers, the state and outcome of the VA range allocator, the outcome of mapping the
resources, of pre-loading the table and of binding. -/
structure RegisterOutcome where
  alloc : Bool
  retain : NvStatus
  retained : RetainedChannel
  resources : NvStatus
  vaRangeEmpty : Bool
  createVaRanges : NvStatus
  mapResources : NvStatus
  preload : NvStatus
  bindResources : NvStatus

/-- `uvm_api_range_invalid`, on 64-bit values. -/
def uvmApiRangeInvalid (base length : ℕ) : Bool :=
  base % 4096 ≠ 0 || length % 4096 ≠ 0 || base = 0 || length = 0 || 2 ^ 64 ≤ base + length

def uvmUserChannelCreate (s : ChannelState) (args : RegisterArgs) (out : RegisterOutcome) :
    Except NvStatus UserChannel :=
  if !s.registeredGpus args.vaSpace args.gpu || (s.gpuVaSpaces args.vaSpace args.gpu).isNone then
    .error .errInvalidDevice
  else if !out.alloc then .error .errNoMemory
  else if out.retain ≠ .ok then .error out.retain
  else if out.resources ≠ .ok then .error out.resources
  else .ok ⟨s.nextObject, args.userRmChannel, out.retained⟩

/-- `uvm_register_channel_under_write`; `maxChannelVa` is the GPU's limit. -/
def uvmRegisterChannelUnderWrite (maxChannelVa : ProcessorId → ℕ) (s : ChannelState)
    (args : RegisterArgs) (out : RegisterOutcome) (userChannel : UserChannel) :
    NvStatus × ChannelState :=
  match s.gpuVaSpaces args.vaSpace args.gpu with
  | none => (.errInvalidDevice, s)
  | some gpuVaSpace =>
    if s.userChannelsStopped args.vaSpace then (.errInvalidState, s)
    else if gpuVaSpace.disallowNewChannels then (.errInvalidDevice, s)
    else if maxChannelVa args.gpu ≤ args.base + args.length - 1 then (.errOutOfRange, s)
    else if !out.vaRangeEmpty then (.errUvmAddressInUse, s)
    else if (findUserChannel s args.vaSpace userChannel.userRmChannel).isSome then
      (.errInvalidChannel, s)
    else if out.createVaRanges ≠ .ok then (out.createVaRanges, s)
    else
      (.ok, s.setGpuVaSpace args.vaSpace args.gpu (some { gpuVaSpace with
        registeredChannels := userChannel :: gpuVaSpace.registeredChannels }))

/-- The steps of `uvm_register_channel` after the lock is downgraded to read mode, up to its
`error_under_read` label. -/
def registerChannelUnderRead (s : ChannelState) (args : RegisterArgs) (out : RegisterOutcome)
    (userChannel : UserChannel) : NvStatus × ChannelState :=
  if out.mapResources ≠ .ok then (out.mapResources, s)
  else
    let r := uvmGpuAddInstancePtr out.preload (s.instancePtrTable args.gpu)
      userChannel.instancePtr args.vaSpace
    if r.1 ≠ .ok then (r.1, s)
    else (out.bindResources, s.setTable args.gpu r.2)

/-- `uvm_register_channel`.  Every error after the channel was created detaches it. -/
def uvmRegisterChannel (maxChannelVa : ProcessorId → ℕ) (s : ChannelState)
    (args : RegisterArgs) (out : RegisterOutcome) : NvStatus × ChannelState :=
  if uvmApiRangeInvalid args.base args.length then (.errInvalidAddress, s)
  else match uvmUserChannelCreate s args out with
  | .error status => (status, s)
  | .ok userChannel =>
    let w := uvmRegisterChannelUnderWrite maxChannelVa
      { s with nextObject := s.nextObject + 1 } args out userChannel
    if w.1 ≠ .ok then (w.1, uvmUserChannelDetach w.2 args.vaSpace args.gpu userChannel)
    else
      let r := registerChannelUnderRead w.2 args out userChannel
      if r.1 ≠ .ok then (r.1, uvmUserChannelDetach r.2 args.vaSpace args.gpu userChannel)
      else r

/-! ## Unregistration -/

def uvmUnregisterChannel (s : ChannelState) (vaSpace : VaSpaceId)
    (userRmChannel : UserRmObject) : NvStatus × ChannelState :=
  match findUserChannel s vaSpace userRmChannel with
  | none => (.errInvalidChannel, s)
  | some (gpu, userChannel) => (.ok, uvmUserChannelDetach s vaSpace gpu userChannel)

def uvmGpuVaSpaceDetachAllChannels (s : ChannelState) (vaSpace : VaSpaceId)
    (gpu : ProcessorId) : ChannelState :=
  (s.channels vaSpace gpu).foldl (fun s userChannel =>
    uvmUserChannelDetach s vaSpace gpu userChannel) s

/-- `remove_gpu_va_space`, as far as it concerns channels. -/
def removeGpuVaSpace (s : ChannelState) (vaSpace : VaSpaceId) (gpu : ProcessorId) :
    ChannelState :=
  if (s.gpuVaSpaces vaSpace gpu).isNone then s
  else (uvmGpuVaSpaceDetachAllChannels s vaSpace gpu).setGpuVaSpace vaSpace gpu none

def gpuVaSpaceStopAllChannels (s : ChannelState) (vaSpace : VaSpaceId) (gpu : ProcessorId) :
    ChannelState :=
  s.setGpuVaSpace vaSpace gpu ((s.gpuVaSpaces vaSpace gpu).map fun gpuVaSpace =>
    { gpuVaSpace with disallowNewChannels := true })

def uvmVaSpaceUnregisterGpuVaSpace (s : ChannelState) (vaSpace : VaSpaceId)
    (gpu : ProcessorId) : NvStatus × ChannelState :=
  if !s.registeredGpus vaSpace gpu || (s.gpuVaSpaces vaSpace gpu).isNone then
    (.errInvalidDevice, s)
  else (.ok, removeGpuVaSpace (gpuVaSpaceStopAllChannels s vaSpace gpu) vaSpace gpu)

def uvmVaSpaceUnregisterGpu (s : ChannelState) (vaSpace : VaSpaceId) (gpu : ProcessorId) :
    NvStatus × ChannelState :=
  if !s.registeredGpus vaSpace gpu then (.errInvalidDevice, s)
  else
    let s := removeGpuVaSpace (gpuVaSpaceStopAllChannels s vaSpace gpu) vaSpace gpu
    (.ok, { s with registeredGpus := update s.registeredGpus vaSpace
                     (update (s.registeredGpus vaSpace) gpu false) })

/-! ## Setting up -/

/-- `uvm_va_space_register_gpu`, once the GPU is retained. -/
def uvmVaSpaceRegisterGpu (s : ChannelState) (vaSpace : VaSpaceId) (gpu : ProcessorId) :
    NvStatus × ChannelState :=
  if s.registeredGpus vaSpace gpu then (.errInvalidDevice, s)
  else (.ok, { s with registeredGpus := update s.registeredGpus vaSpace
                        (update (s.registeredGpus vaSpace) gpu true) })

/-- `uvm_va_space_register_gpu_va_space`; `create` is the outcome of creating the GPU VA space
and of mapping the VA ranges on it.  On an error the new GPU VA space, which has no channels,
is removed again. -/
def uvmVaSpaceRegisterGpuVaSpace (s : ChannelState) (vaSpace : VaSpaceId) (gpu : ProcessorId)
    (create : NvStatus) : NvStatus × ChannelState :=
  if create ≠ .ok then (create, s)
  else if !s.registeredGpus vaSpace gpu then (.errInvalidDevice, s)
  else if (s.gpuVaSpaces vaSpace gpu).isSome then (.errInvalidDevice, s)
  else (.ok, s.setGpuVaSpace vaSpace gpu (some ⟨[], false⟩))

def uvmVaSpaceStopAllUserChannels (s : ChannelState) (vaSpace : VaSpaceId) : ChannelState :=
  { s with userChannelsStopped := update s.userChannelsStopped vaSpace true }

/-- The calls that concern channels, with what they obtain from elsewhere. -/
inductive ChannelOp where
  | registerGpu (vaSpace : VaSpaceId) (gpu : ProcessorId)
  | unregisterGpu (vaSpace : VaSpaceId) (gpu : ProcessorId)
  | registerGpuVaSpace (vaSpace : VaSpaceId) (gpu : ProcessorId) (create : NvStatus)
  | unregisterGpuVaSpace (vaSpace : VaSpaceId) (gpu : ProcessorId)
  | registerChannel (args : RegisterArgs) (out : RegisterOutcome)
  | unregisterChannel (vaSpace : VaSpaceId) (userRmChannel : UserRmObject)
  | stopAllUserChannels (vaSpace : VaSpaceId)

def channelStep (maxChannelVa : ProcessorId → ℕ) (s : ChannelState) : ChannelOp → ChannelState
  | .registerGpu vaSpace gpu => (uvmVaSpaceRegisterGpu s vaSpace gpu).2
  | .unregisterGpu vaSpace gpu => (uvmVaSpaceUnregisterGpu s vaSpace gpu).2
  | .registerGpuVaSpace vaSpace gpu create =>
    (uvmVaSpaceRegisterGpuVaSpace s vaSpace gpu create).2
  | .unregisterGpuVaSpace vaSpace gpu => (uvmVaSpaceUnregisterGpuVaSpace s vaSpace gpu).2
  | .registerChannel args out => (uvmRegisterChannel maxChannelVa s args out).2
  | .unregisterChannel vaSpace userRmChannel => (uvmUnregisterChannel s vaSpace userRmChannel).2
  | .stopAllUserChannels vaSpace => uvmVaSpaceStopAllUserChannels s vaSpace

/-- No VA space has a GPU, and no GPU knows an instance pointer. -/
def channelInit : ChannelState where
  registeredGpus := fun _ _ => false
  gpuVaSpaces := fun _ _ => none
  userChannelsStopped := fun _ => false
  instancePtrTable := fun _ _ => none
  nextObject := 0

end NvUvm
