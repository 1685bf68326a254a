import NvUvm.ChannelRanges

/-!
# Calls that register and unregister channels

The calls that begin and end the life of a user channel (`uvm8_user_channel.c`, `uvm8_va_space.c`):
`uvm_register_channel`, `uvm_unregister_channel`, and the calls that register and unregister GPU VA
spaces and GPUs or destroy the VA space.  Each takes the VA space lock several times and drops it in
between; a step is what it does under the lock once, up to where it drops it.  The sections that make
RM calls hold the lock in read mode together with the writers' lock, so that they exclude each other
and all the write sections.

A GPU is named by its id where the source looks it up by its UUID.  The channels on a deferred free
list are destroyed one by one, each as a step of its own.
-/

namespace NvUvm.ChannelLife

open Function (update)

/-! ## The records of a call -/

/-- The calls, with their arguments.  `stopAllUserChannels` is what the teardown of a process does
before the file is released. -/
inductive Request where
  | registerGpu (gpu : ProcessorId)
  | unregisterGpu (gpu : ProcessorId)
  | registerGpuVaSpace (gpu : ProcessorId)
  | unregisterGpuVaSpace (gpu : ProcessorId)
  | registerChannel (gpu : ProcessorId) (handle : ℕ × ℕ) (base length : ℕ)
  | unregisterChannel (handle : ℕ × ℕ)
  | stopAllUserChannels
  | destroy
  deriving DecidableEq, Repr

/-- Where a call is, with its local variables. -/
inductive Pc where
  | start (request : Request)
  /-- The channel is made, the lock is dropped to take it in write mode. -/
  | registerChannel (ch g base last : ℕ)
  /-- `error_under_read` of `uvm_register_channel`. -/
  | registerChannelFailed (ch : ℕ)
  /-- The channel is stopped, the lock is dropped. -/
  | unregisterChannel (ch : ℕ)
  /-- The channels are stopped, the lock is dropped. -/
  | unregisterGpuVaSpace (g : ℕ)
  | unregisterGpu (gpu : ProcessorId)
  | destroy
  /-- `uvm_deferred_free_object_list`. -/
  | cleanup (userChannels : List ℕ)
  deriving DecidableEq, Repr

/-- A call that has nothing left to do has returned. -/
def Pc.returned : Pc := .cleanup []

/-- What a section meets: memory, RM, and the ranges of other types.  `retained` is the instance
descriptor of `nvUvmInterfaceRetainChannel`, if that succeeds, and `resources` what
`get_rm_channel_resources` leaves, sorted; `rangeFree` tells that the addresses are below
`max_channel_va` and empty in the tree. -/
structure Outcome where
  channelAlloc : Bool
  retained : Option ℕ
  resources : Option (List ResourceInfo)
  rangeFree : Bool
  arrayAlloc : Bool
  create : ℕ → CreateOutcome
  map : ℕ → MapOutcome
  trackerWait : Bool
  addInstancePtr : Bool
  bindResources : Bool
  gpuVaSpaceCreated : Bool
  gpuVaSpaceMapped : Bool

/-- What a section leaves. -/
structure Progress where
  space : Space
  pc : Pc

/-! ## Registering a channel -/

/-- `uvm_api_range_invalid`. -/
def rangeInvalid (base length : ℕ) : Bool :=
  decide (base % 4096 ≠ 0 ∨ length % 4096 ≠ 0 ∨ base = 0 ∨ length = 0 ∨
    Space.u64 (base + length) < base)

namespace Space

variable (s : Space)

/-- `uvm_user_channel_create`: the channel, unless an error destroyed it again. -/
def userChannelCreate (g : ℕ) (handle : ℕ × ℕ) (o : Outcome) : Space × Option ℕ :=
  if o.channelAlloc then
    let ch := s.channelCount
    match o.retained, o.resources with
    | some desc, some resources =>
      ({ s with channelCount := ch + 1 }.setChannel ch ⟨some g, handle, desc, resources, none, false⟩,
        some ch)
    | _, _ => ({ s with channelCount := ch + 1 }.record (.channelDestroyed ch), none)
  else (s, none)

/-- The checks of `uvm_register_channel_under_write`. -/
def registerAllowed (ch g : ℕ) (o : Outcome) : Bool :=
  !s.userChannelsStopped && !(s.gpuVaSpaces g).disallowNewChannels && o.rangeFree &&
    (s.findUserChannel (s.channels ch).handle).isNone

/-- `uvm_register_channel_under_write`. -/
def registerUnderWrite (ch g base last : ℕ) (o : Outcome) : Space × Bool :=
  if s.registerAllowed ch g o then
    match s.createVaRanges ch g base last o.arrayAlloc o.create with
    | (s, false) => (s, false)
    | (s, true) =>
      (s.setGpuVaSpace g { s.gpuVaSpaces g with
        registeredChannels := ch :: (s.gpuVaSpaces g).registeredChannels }, true)
  else (s, false)

/-- The part of `uvm_register_channel` after the downgrade of the lock. -/
def registerUnderRead (ch : ℕ) (o : Outcome) : Space × Bool :=
  match s.mapResources ch o.map o.trackerWait with
  | (s, false) => (s, false)
  | (s, true) => if o.addInstancePtr && o.bindResources then (s.setBound ch, true) else (s, false)

end Space

/-- `uvm_register_channel`, up to where it drops the lock. -/
def registerChannelStart (s : Space) (gpu : ProcessorId) (handle : ℕ × ℕ) (base length : ℕ)
    (o : Outcome) : Progress :=
  if rangeInvalid base length then ⟨s, .returned⟩
  else
    match s.registeredGpuVaSpaces gpu with
    | none => ⟨s, .returned⟩
    | some g =>
      match s.userChannelCreate g handle o with
      | (s, none) => ⟨s, .returned⟩
      | (s, some ch) => ⟨s, .registerChannel ch g base (base + length - 1)⟩

/-- `uvm_register_channel`, from where it takes the lock in write mode. -/
def registerChannelSection (s : Space) (ch g base last : ℕ) (o : Outcome) : Progress :=
  if (s.gpuVaSpaces g).attached then
    match s.registerUnderWrite ch g base last o with
    | (s, false) => ⟨s.detach ch, .cleanup [ch]⟩
    | (s, true) =>
      match s.registerUnderRead ch o with
      | (s, true) => ⟨s, .returned⟩
      | (s, false) => ⟨s, .registerChannelFailed ch⟩
  else ⟨s.setChannel ch { s.channels ch with gpuVaSpace := none }, .cleanup [ch]⟩

/-- A channel is detached, unless another thread has done it: then that one destroys it. -/
def detachSection (s : Space) (ch : ℕ) : Progress :=
  if (s.channels ch).gpuVaSpace.isSome then ⟨s.detach ch, .cleanup [ch]⟩ else ⟨s, .returned⟩

/-! ## Unregistering -/

/-- `uvm_unregister_channel`, up to where it drops the lock. -/
def unregisterChannelStart (s : Space) (handle : ℕ × ℕ) : Progress :=
  match s.findUserChannel handle with
  | none => ⟨s, .returned⟩
  | some ch => ⟨s.stop ch, .unregisterChannel ch⟩

/-- `uvm_va_space_unregister_gpu_va_space`, up to where it drops the lock. -/
def unregisterGpuVaSpaceStart (s : Space) (gpu : ProcessorId) : Progress :=
  match s.registeredGpuVaSpaces gpu with
  | none => ⟨s, .returned⟩
  | some g => ⟨s.stopAllChannels g, .unregisterGpuVaSpace g⟩

/-- `uvm_va_space_unregister_gpu_va_space`, from where it retakes the lock. -/
def unregisterGpuVaSpaceSection (s : Space) (g : ℕ) : Progress :=
  let r := s.removeGpuVaSpace g
  ⟨r.1, .cleanup r.2⟩

/-- `uvm_va_space_unregister_gpu`, up to where it drops the lock. -/
def unregisterGpuStart (s : Space) (gpu : ProcessorId) : Progress :=
  if s.registeredGpus gpu && !s.gpuRegisterInProgress gpu then
    let s := { s with gpuRegisterInProgress := update s.gpuRegisterInProgress gpu true }
    match s.registeredGpuVaSpaces gpu with
    | none => ⟨s, .unregisterGpu gpu⟩
    | some g => ⟨s.stopAllChannels g, .unregisterGpu gpu⟩
  else ⟨s, .returned⟩

/-- `unregister_gpu`, with the channels it defers. -/
def Space.unregisterGpu (s : Space) (gpu : ProcessorId) : Space × List ℕ :=
  let r := match s.registeredGpuVaSpaces gpu with
    | none => (s, [])
    | some g => s.removeGpuVaSpace g
  ({ r.1 with registeredGpus := update r.1.registeredGpus gpu false }, r.2)

/-- `uvm_va_space_unregister_gpu`, from where it retakes the lock. -/
def unregisterGpuSection (s : Space) (gpu : ProcessorId) : Progress :=
  let r := s.unregisterGpu gpu
  ⟨{ r.1 with gpuRegisterInProgress := update r.1.gpuRegisterInProgress gpu false },
    .cleanup r.2⟩

/-! ## GPUs and GPU VA spaces -/

/-- `uvm_va_space_register_gpu`. -/
def registerGpuSection (s : Space) (gpu : ProcessorId) : Progress :=
  ⟨{ s with registeredGpus := update s.registeredGpus gpu true }, .returned⟩

/-- `uvm_va_space_register_gpu_va_space`.  If the ranges cannot be mapped, the GPU VA space is removed
again. -/
def registerGpuVaSpaceSection (s : Space) (gpu : ProcessorId) (o : Outcome) : Progress :=
  if s.registeredGpus gpu && (s.registeredGpuVaSpaces gpu).isNone &&
      !s.gpuRegisterInProgress gpu && o.gpuVaSpaceCreated then
    let g := s.gpuVaSpaceCount
    let s := { s with
      gpuVaSpaces := update s.gpuVaSpaces g ⟨gpu, true, false, [], []⟩
      gpuVaSpaceCount := g + 1
      registeredGpuVaSpaces := update s.registeredGpuVaSpaces gpu (some g) }
    if o.gpuVaSpaceMapped then ⟨s, .returned⟩
    else
      let r := s.removeGpuVaSpace g
      ⟨r.1, .cleanup r.2⟩
  else ⟨s, .returned⟩

/-! ## Tearing down -/

/-- `uvm_va_space_stop_all_user_channels`. -/
def Space.stopAllUserChannels (s : Space) : Space :=
  if s.userChannelsStopped then s
  else
    let s := s.attachedGpuVaSpaces.foldl
      (fun s g => (s.gpuVaSpaces g).registeredChannels.foldl stop s) s
    { s with userChannelsStopped := true }

/-- The channels of one GPU VA space after another are detached. -/
def detachEach : List ℕ → Space → List ℕ → Space × List ℕ
  | [], s, deferred => (s, deferred)
  | g :: rest, s, deferred =>
    let r := s.detachAllChannels g
    detachEach rest r.1 (deferred ++ r.2)

def unregisterEach : List ProcessorId → Space → List ℕ → Space × List ℕ
  | [], s, deferred => (s, deferred)
  | gpu :: rest, s, deferred =>
    let r := s.unregisterGpu gpu
    unregisterEach rest r.1 (deferred ++ r.2)

def Space.gpus (s : Space) : List ProcessorId :=
  (List.finRange maxProcessors).filter (s.registeredGpus ·)

/-- The write section of `uvm_va_space_destroy`. -/
def destroySection (s : Space) : Progress :=
  let r := detachEach s.attachedGpuVaSpaces s []
  let s := r.1.vaRangeTree.foldl Space.rangeDestroy r.1
  let r := unregisterEach s.gpus s r.2
  ⟨r.1, .cleanup r.2⟩

/-! ## The system -/

def start (s : Space) (o : Outcome) : Request → Progress
  | .registerGpu gpu => registerGpuSection s gpu
  | .unregisterGpu gpu => unregisterGpuStart s gpu
  | .registerGpuVaSpace gpu => registerGpuVaSpaceSection s gpu o
  | .unregisterGpuVaSpace gpu => unregisterGpuVaSpaceStart s gpu
  | .registerChannel gpu handle base length => registerChannelStart s gpu handle base length o
  | .unregisterChannel handle => unregisterChannelStart s handle
  | .stopAllUserChannels => ⟨s.stopAllUserChannels, .returned⟩
  | .destroy => ⟨s.stopAllUserChannels, .destroy⟩

def advance (s : Space) (o : Outcome) : Pc → Progress
  | .start request => start s o request
  | .registerChannel ch g base last => registerChannelSection s ch g base last o
  | .registerChannelFailed ch => detachSection s ch
  | .unregisterChannel ch => detachSection s ch
  | .unregisterGpuVaSpace g => unregisterGpuVaSpaceSection s g
  | .unregisterGpu gpu => unregisterGpuSection s gpu
  | .destroy => destroySection s
  | .cleanup [] => ⟨s, .returned⟩
  | .cleanup (ch :: rest) => ⟨s.record (.channelDestroyed ch), .cleanup rest⟩

/-- A VA space and the calls on it.  `closing` is set once its file is released. -/
structure State where
  space : Space
  calls : List Pc
  closing : Bool

def State.initial : State := ⟨Space.new, [], false⟩

/-- The steps: a call begins, a call takes its next section. -/
inductive Op where
  | begin (request : Request)
  | next (call : ℕ) (outcome : Outcome)

def State.idle (s : State) : Bool := s.calls.all fun pc => pc = .returned

/-- One step.  The VA space is destroyed when its file is released, after every call on it. -/
def step (s : State) : Op → State
  | .begin request =>
    if s.closing then s
    else if request = .destroy then
      if s.idle then { s with calls := s.calls ++ [.start .destroy], closing := true } else s
    else { s with calls := s.calls ++ [.start request] }
  | .next i o =>
    match s.calls[i]? with
    | none => s
    | some pc =>
      let progress := advance s.space o pc
      { s with space := progress.space, calls := s.calls.set i progress.pc }

end NvUvm.ChannelLife
