import NvUvm.PeerTable
import NvUvm.Lib.Run

/-!
# The processor masks of a VA space

The masks that a VA space computes in advance (`uvm8_va_space.c`): which processor accesses, copies
from, reaches over NVLINK or has native atomics on the memory of which other one.  Registering and
unregistering a GPU and enabling and disabling a peer pair each set or clear their part of them, in
one section under the VA space lock.

A step is one such section, so that other calls may come between the two sections of
`uvm_va_space_unregister_gpu`.
-/

namespace NvUvm.PeerMasks

open Function (update update_of_ne update_self)

open GpuHolders (maskSet maskClear gpusInMask peerTableIndex peerTableIndex_comm
  peerTableIndex_inj mem_gpusInMask)

/-! ## The masks -/

/-- The id of a GPU. -/
abbrev GpuId := { id : ProcessorId // id ≠ cpuId }

/-- `uvm_processor_mask_t [UVM8_MAX_PROCESSORS]`: one mask for each processor. -/
abbrev MaskTable := ProcessorId → ProcessorMask

/-- `uvm_processor_mask_set(&table[row], id)`. -/
def tableSet (table : MaskTable) (row id : ProcessorId) : MaskTable :=
  update table row (maskSet (table row) id)

/-- `uvm_processor_mask_clear(&table[row], id)`. -/
def tableClear (table : MaskTable) (row id : ProcessorId) : MaskTable :=
  update table row (maskClear (table row) id)

/-- `uvm_gpu_t`, what the masks depend on. -/
structure Gpu where
  handlingReplayableFaults : Bool
  peerIdentityMappingsSupported : Bool
  deriving DecidableEq, Repr

/-- `uvm_gpu_peer_t`, what the masks depend on: whether the link type is `UVM_GPU_LINK_NVLINK_1`,
and `atomic_supported`. -/
structure PeerCaps where
  nvlink : Bool
  atomicSupported : Bool
  deriving DecidableEq, Repr

/-- `uvm_va_space_t`. -/
structure VaSpace where
  registeredGpus : ProcessorMask
  faultableProcessors : ProcessorMask
  systemWideAtomicsEnabledProcessors : ProcessorMask
  gpuRegisterInProgress : ProcessorMask
  enabledPeers : ℕ → Bool
  canAccess : MaskTable
  accessibleFrom : MaskTable
  canCopyFrom : MaskTable
  hasNvlinkTo : MaskTable
  hasNvlinkFrom : MaskTable
  hasNativeAtomics : MaskTable

/-- `uvm_va_space_create`. -/
def VaSpace.create : VaSpace where
  registeredGpus := fun _ => false
  faultableProcessors := maskSet (fun _ => false) cpuId
  systemWideAtomicsEnabledProcessors := maskSet (fun _ => false) cpuId
  gpuRegisterInProgress := fun _ => false
  enabledPeers := fun _ => false
  canAccess := tableSet (fun _ _ => false) cpuId cpuId
  accessibleFrom := tableSet (fun _ _ => false) cpuId cpuId
  canCopyFrom := tableSet (fun _ _ => false) cpuId cpuId
  hasNvlinkTo := fun _ _ => false
  hasNvlinkFrom := fun _ _ => false
  hasNativeAtomics := tableSet (fun _ _ => false) cpuId cpuId

/-! ## The sections -/

/-- The section of `uvm_va_space_register_gpu`, with the GPU it retained. -/
def registerGpu (gpu : Gpu) (va : VaSpace) (id : GpuId) : VaSpace :=
  if va.registeredGpus id then va
  else
    { va with
        registeredGpus := maskSet va.registeredGpus id
        faultableProcessors :=
          if gpu.handlingReplayableFaults then maskSet va.faultableProcessors id
          else va.faultableProcessors
        systemWideAtomicsEnabledProcessors :=
          if gpu.handlingReplayableFaults then maskSet va.systemWideAtomicsEnabledProcessors id
          else va.systemWideAtomicsEnabledProcessors
        hasNativeAtomics := tableSet va.hasNativeAtomics id id
        canAccess := tableSet (tableSet va.canAccess id id) id cpuId
        accessibleFrom := tableSet (tableSet va.accessibleFrom id id) cpuId id
        canCopyFrom := tableSet (tableSet va.canCopyFrom id id) cpuId id }

def disablePeers (va : VaSpace) (gpu0 gpu1 : ProcessorId) : VaSpace :=
  let tableIndex := peerTableIndex gpu0 gpu1
  if va.enabledPeers tableIndex then
    { va with
        canAccess := tableClear (tableClear va.canAccess gpu0 gpu1) gpu1 gpu0
        accessibleFrom := tableClear (tableClear va.accessibleFrom gpu0 gpu1) gpu1 gpu0
        canCopyFrom := tableClear (tableClear va.canCopyFrom gpu0 gpu1) gpu1 gpu0
        hasNvlinkTo := tableClear (tableClear va.hasNvlinkTo gpu0 gpu1) gpu1 gpu0
        hasNvlinkFrom := tableClear (tableClear va.hasNvlinkFrom gpu0 gpu1) gpu1 gpu0
        hasNativeAtomics := tableClear (tableClear va.hasNativeAtomics gpu0 gpu1) gpu1 gpu0
        enabledPeers := update va.enabledPeers tableIndex false }
  else va

/-- The loop of `unregister_gpu` over the GPUs that are registered. -/
def disableAllPeers (id : ProcessorId) (va : VaSpace) (peers : List ProcessorId) : VaSpace :=
  peers.foldl (fun va peer => if id = peer then va else disablePeers va id peer) va

def unregisterGpu (gpu : Gpu) (va : VaSpace) (id : ProcessorId) : VaSpace :=
  let va := disableAllPeers id va (gpusInMask va.registeredGpus)
  { va with
      faultableProcessors :=
        if gpu.handlingReplayableFaults then maskClear va.faultableProcessors id
        else va.faultableProcessors
      systemWideAtomicsEnabledProcessors := maskClear va.systemWideAtomicsEnabledProcessors id
      canAccess := tableClear (tableClear va.canAccess id id) id cpuId
      accessibleFrom := tableClear (tableClear va.accessibleFrom id id) cpuId id
      canCopyFrom := tableClear (tableClear va.canCopyFrom id id) cpuId id
      hasNativeAtomics := tableClear va.hasNativeAtomics id id
      registeredGpus := maskClear va.registeredGpus id }

/-- The second section of `uvm_va_space_unregister_gpu`. -/
def unregisterGpuFinish (gpu : Gpu) (va : VaSpace) (id : ProcessorId) : VaSpace :=
  let va := unregisterGpu gpu va id
  { va with gpuRegisterInProgress := maskClear va.gpuRegisterInProgress id }

/-- The part of `uvm_va_space_enable_peer_access` that sets the masks. -/
def setPeerMasks (gpu1Caps : Gpu) (caps : PeerCaps) (va : VaSpace) (gpu1 gpu2 : ProcessorId) :
    VaSpace :=
  { va with
      canAccess := tableSet (tableSet va.canAccess gpu1 gpu2) gpu2 gpu1
      accessibleFrom := tableSet (tableSet va.accessibleFrom gpu1 gpu2) gpu2 gpu1
      canCopyFrom :=
        if gpu1Caps.peerIdentityMappingsSupported then
          tableSet (tableSet va.canCopyFrom gpu2 gpu1) gpu1 gpu2
        else va.canCopyFrom
      hasNvlinkTo :=
        if caps.nvlink then tableSet (tableSet va.hasNvlinkTo gpu1 gpu2) gpu2 gpu1
        else va.hasNvlinkTo
      hasNvlinkFrom :=
        if caps.nvlink then tableSet (tableSet va.hasNvlinkFrom gpu1 gpu2) gpu2 gpu1
        else va.hasNvlinkFrom
      hasNativeAtomics :=
        if caps.atomicSupported then tableSet (tableSet va.hasNativeAtomics gpu1 gpu2) gpu2 gpu1
        else va.hasNativeAtomics
      enabledPeers := update va.enabledPeers (peerTableIndex gpu1 gpu2) true }

/-- What the section of `uvm_va_space_enable_peer_access` meets: the entry of the peer table, two
GPU VA spaces whose big page sizes differ, and a VA range that cannot enable the peer. -/
structure EnableOutcome where
  caps : PeerCaps
  bigPageSizesDiffer : Bool
  rangeFails : Bool
  deriving DecidableEq, Repr

/-- The section of `uvm_va_space_enable_peer_access`, once the pair is retained. -/
def enablePeerAccess (gpu1Caps : Gpu) (va : VaSpace) (gpu1 gpu2 : GpuId) (o : EnableOutcome) :
    VaSpace :=
  if va.registeredGpus gpu1 && va.registeredGpus gpu2 &&
      !va.enabledPeers (peerTableIndex gpu1 gpu2) && !o.bigPageSizesDiffer then
    let va := setPeerMasks gpu1Caps o.caps va gpu1 gpu2
    if o.rangeFails then disablePeers va gpu1 gpu2 else va
  else va

/-- The section of `uvm_va_space_disable_peer_access`. -/
def disablePeerAccess (va : VaSpace) (gpu1 gpu2 : GpuId) : VaSpace :=
  if va.registeredGpus gpu1 && va.registeredGpus gpu2 && gpu1 != gpu2 then
    disablePeers va gpu1 gpu2
  else va

/-- `system_wide_atomics_set`, which fails before it changes the mask if not `revoked`. -/
def systemWideAtomicsSet (va : VaSpace) (id : GpuId) (enable revoked : Bool) : VaSpace :=
  if va.registeredGpus id && va.faultableProcessors id then
    if enable then
      if revoked then
        { va with
            systemWideAtomicsEnabledProcessors :=
              maskSet va.systemWideAtomicsEnabledProcessors id }
      else va
    else
      { va with
          systemWideAtomicsEnabledProcessors :=
            maskClear va.systemWideAtomicsEnabledProcessors id }
  else va

/-! ## The system -/

/-- The GPU table `g_uvm_global.gpus`, and one VA space. -/
structure State where
  gpus : ProcessorId → Gpu
  va : VaSpace

/-- A section that takes the VA space lock, or a GPU of another VA space that is removed while
another one takes its id. -/
inductive Op where
  | replaceGpu (id : GpuId) (gpu : Gpu)
  | registerGpu (id : GpuId)
  | unregisterGpuBegin (id : GpuId)
  | unregisterGpuFinish (id : GpuId)
  | enablePeerAccess (gpu1 gpu2 : GpuId) (outcome : EnableOutcome)
  | disablePeerAccess (gpu1 gpu2 : GpuId)
  | systemWideAtomicsSet (id : GpuId) (enable revoked : Bool)
  deriving DecidableEq, Repr

def State.initial (gpus : ProcessorId → Gpu) : State := ⟨gpus, .create⟩

/-- One section.  A GPU that is registered is retained, and is not replaced; the second section of
an unregister follows a first one; two GPUs with one id are no pair. -/
def step (s : State) : Op → State
  | .replaceGpu id gpu =>
    if s.va.registeredGpus id then s else { s with gpus := update s.gpus id gpu }
  | .registerGpu id => { s with va := registerGpu (s.gpus id) s.va id }
  | .unregisterGpuBegin id =>
    if s.va.registeredGpus id && !s.va.gpuRegisterInProgress id then
      { s with
          va := { s.va with gpuRegisterInProgress := maskSet s.va.gpuRegisterInProgress id } }
    else s
  | .unregisterGpuFinish id =>
    if s.va.gpuRegisterInProgress id then
      { s with va := unregisterGpuFinish (s.gpus id) s.va id }
    else s
  | .enablePeerAccess gpu1 gpu2 outcome =>
    if gpu1 = gpu2 then s
    else { s with va := enablePeerAccess (s.gpus gpu1) s.va gpu1 gpu2 outcome }
  | .disablePeerAccess gpu1 gpu2 => { s with va := disablePeerAccess s.va gpu1 gpu2 }
  | .systemWideAtomicsSet id enable revoked =>
    { s with va := systemWideAtomicsSet s.va id enable revoked }

/-! ## Agreement -/

/-- A processor the masks may mention: the CPU, or a GPU that is registered. -/
def VaSpace.Present (va : VaSpace) (id : ProcessorId) : Prop :=
  id = cpuId ∨ va.registeredGpus id = true

/-- Two different GPUs whose bit of `enabled_peers` is set. -/
structure VaSpace.Enabled (va : VaSpace) (a b : ProcessorId) : Prop where
  left : a ≠ cpuId
  right : b ≠ cpuId
  ne : a ≠ b
  bit : va.enabledPeers (peerTableIndex a b) = true

/-- What the masks say is what `registered_gpus` and `enabled_peers` say. -/
structure VaSpace.Agrees (va : VaSpace) : Prop where
  cpu : va.registeredGpus cpuId = false
  registered : ∀ {a b}, va.Enabled a b → va.registeredGpus a = true
  canAccess : ∀ a b, va.canAccess a b = true ↔
    (a = b ∨ b = cpuId) ∧ va.Present a ∨ va.Enabled a b
  accessibleFrom : ∀ a b, va.accessibleFrom b a = va.canAccess a b
  canCopyFrom : ∀ a b, va.canCopyFrom a b = true →
    (a = b ∨ a = cpuId) ∧ va.Present b ∨ va.Enabled a b
  hasNvlinkTo : ∀ a b, va.hasNvlinkTo a b = true → va.Enabled a b
  hasNvlinkFrom : ∀ a b, va.hasNvlinkFrom b a = va.hasNvlinkTo a b
  hasNativeAtomics : ∀ a b, va.hasNativeAtomics a b = true →
    a = b ∧ va.Present a ∨ va.Enabled a b
  faultable : ∀ id, va.faultableProcessors id = true → va.Present id
  atomics : ∀ id, va.systemWideAtomicsEnabledProcessors id = true → va.Present id
  inProgress : ∀ id, va.gpuRegisterInProgress id = true → va.registeredGpus id = true

variable {va : VaSpace} {gpu : Gpu} {a b id : ProcessorId}

theorem VaSpace.Enabled.symm (h : va.Enabled a b) : va.Enabled b a :=
  ⟨h.right, h.left, h.ne.symm, by rw [peerTableIndex_comm]; exact h.bit⟩

theorem tableSet_apply (table : MaskTable) (row id x y : ProcessorId) :
    tableSet table row id x y = (table x y || decide (x = row ∧ y = id)) := by
  unfold tableSet maskSet
  by_cases hx : x = row
  · subst hx
    by_cases hy : y = id
    · simp [hy]
    · simp [hy]
  · simp [hx]

theorem tableClear_apply (table : MaskTable) (row id x y : ProcessorId) :
    tableClear table row id x y = (table x y && !decide (x = row ∧ y = id)) := by
  unfold tableClear maskClear
  by_cases hx : x = row
  · subst hx
    by_cases hy : y = id
    · simp [hy]
    · simp [hy]
  · simp [hx]

theorem maskSet_apply (mask : ProcessorMask) (id x : ProcessorId) :
    maskSet mask id x = (mask x || decide (x = id)) := by
  unfold maskSet
  by_cases hx : x = id
  · simp [hx]
  · simp [hx]

theorem maskClear_apply (mask : ProcessorMask) (id x : ProcessorId) :
    maskClear mask id x = (mask x && !decide (x = id)) := by
  unfold maskClear
  by_cases hx : x = id
  · simp [hx]
  · simp [hx]

theorem VaSpace.Agrees.frame {atomics progress : ProcessorMask} (h : va.Agrees)
    (hatomics : ∀ id, atomics id = true → va.Present id)
    (hprogress : ∀ id, progress id = true → va.registeredGpus id = true) :
    { va with
        systemWideAtomicsEnabledProcessors := atomics
        gpuRegisterInProgress := progress }.Agrees := by
  generalize hva' : VaSpace.mk _ _ _ _ _ _ _ _ _ _ _ = va'
  have hen : ∀ a b, va'.Enabled a b ↔ va.Enabled a b := by
    subst hva'
    exact fun a b => ⟨fun h => ⟨h.left, h.right, h.ne, h.bit⟩, fun h => ⟨h.left, h.right, h.ne, h.bit⟩⟩
  have hpres : ∀ a, va'.Present a ↔ va.Present a := by
    subst hva'
    exact fun a => Iff.rfl
  constructor <;> intros <;> simp only [hen] at * <;> subst hva'
  · exact h.cpu
  · exact h.registered ‹_›
  · exact h.canAccess _ _
  · exact h.accessibleFrom _ _
  · exact h.canCopyFrom _ _ ‹_›
  · exact h.hasNvlinkTo _ _ ‹_›
  · exact h.hasNvlinkFrom _ _
  · exact h.hasNativeAtomics _ _ ‹_›
  · exact h.faultable _ ‹_›
  · exact hatomics _ ‹_›
  · exact hprogress _ ‹_›

theorem VaSpace.create_agrees : VaSpace.create.Agrees where
  cpu := rfl
  registered h := by cases h.bit
  canAccess a b := by
    have hnone : ¬VaSpace.create.Enabled a b := fun h => by cases h.bit
    rw [or_iff_left hnone]
    simp only [VaSpace.Present, VaSpace.create, tableSet_apply]
    grind
  accessibleFrom a b := by
    simp only [VaSpace.create, tableSet_apply, and_comm]
  canCopyFrom a b h := by
    simp only [VaSpace.create, tableSet_apply] at h
    simp only [VaSpace.Present]
    grind
  hasNvlinkTo a b h := by cases h
  hasNvlinkFrom a b := rfl
  hasNativeAtomics a b h := by
    simp only [VaSpace.create, tableSet_apply] at h
    simp only [VaSpace.Present]
    grind
  faultable id h := by
    simp only [VaSpace.create, maskSet_apply] at h
    simp only [VaSpace.Present]
    grind
  atomics id h := by
    simp only [VaSpace.create, maskSet_apply] at h
    simp only [VaSpace.Present]
    grind
  inProgress id h := by cases h

/-! ## What a section keeps -/

def IsPair (gpu0 gpu1 a b : ProcessorId) : Prop := a = gpu0 ∧ b = gpu1 ∨ a = gpu1 ∧ b = gpu0

instance (gpu0 gpu1 a b : ProcessorId) : Decidable (IsPair gpu0 gpu1 a b) :=
  inferInstanceAs (Decidable (_ ∨ _))

variable {gpu0 gpu1 : ProcessorId}

theorem IsPair.symm (h : IsPair gpu0 gpu1 a b) : IsPair gpu0 gpu1 b a := by
  rcases h with ⟨rfl, rfl⟩ | ⟨rfl, rfl⟩
  · exact .inr ⟨rfl, rfl⟩
  · exact .inl ⟨rfl, rfl⟩

theorem isPair_comm : IsPair gpu0 gpu1 a b ↔ IsPair gpu0 gpu1 b a := ⟨.symm, .symm⟩

theorem enabled_update {va va' : VaSpace} {bit : Bool} (h0 : gpu0 ≠ cpuId) (h1 : gpu1 ≠ cpuId)
    (hne : gpu0 ≠ gpu1)
    (hbits : va'.enabledPeers = update va.enabledPeers (peerTableIndex gpu0 gpu1) bit)
    (a b : ProcessorId) :
    va'.Enabled a b ↔ if IsPair gpu0 gpu1 a b then bit = true else va.Enabled a b := by
  split_ifs with hpair
  · have hidx : peerTableIndex a b = peerTableIndex gpu0 gpu1 := by
      rcases hpair with ⟨rfl, rfl⟩ | ⟨rfl, rfl⟩
      · rfl
      · exact peerTableIndex_comm _ _
    constructor
    · intro h
      have hbit := h.bit
      rw [hbits, hidx, update_self] at hbit
      exact hbit
    · intro hbit
      have hset : va'.enabledPeers (peerTableIndex a b) = true := by
        rw [hbits, hidx, update_self, hbit]
      rcases hpair with ⟨rfl, rfl⟩ | ⟨rfl, rfl⟩
      · exact ⟨h0, h1, hne, hset⟩
      · exact ⟨h1, h0, hne.symm, hset⟩
  · -- another pair has another index
    have hsame : a ≠ cpuId → b ≠ cpuId → a ≠ b →
        va'.enabledPeers (peerTableIndex a b) = va.enabledPeers (peerTableIndex a b) := by
      intro ha hb hab
      rw [hbits, update_of_ne]
      intro hidx
      exact hpair (peerTableIndex_inj ha hb h0 h1 hab hne hidx)
    constructor
    · rintro ⟨ha, hb, hab, hbit⟩
      exact ⟨ha, hb, hab, by rw [← hsame ha hb hab]; exact hbit⟩
    · rintro ⟨ha, hb, hab, hbit⟩
      exact ⟨ha, hb, hab, by rw [hsame ha hb hab]; exact hbit⟩

theorem disablePeers_agrees (h0 : gpu0 ≠ cpuId) (h1 : gpu1 ≠ cpuId) (hne : gpu0 ≠ gpu1)
    (h : va.Agrees) :
    (disablePeers va gpu0 gpu1).Agrees ∧ ¬(disablePeers va gpu0 gpu1).Enabled gpu0 gpu1 := by
  by_cases hbit : va.enabledPeers (peerTableIndex gpu0 gpu1) = true
  swap
  · rw [disablePeers, if_neg hbit]
    exact ⟨h, fun henabled => hbit henabled.bit⟩
  have hbits : (disablePeers va gpu0 gpu1).enabledPeers =
      update va.enabledPeers (peerTableIndex gpu0 gpu1) false := by
    simp only [disablePeers, if_pos hbit]
  have henabled : ∀ a b, (disablePeers va gpu0 gpu1).Enabled a b ↔
      va.Enabled a b ∧ ¬IsPair gpu0 gpu1 a b := by
    intro a b
    rw [enabled_update h0 h1 hne hbits]
    split_ifs with hpair <;> simp [hpair]
  have htable : ∀ table a b, tableClear (tableClear table gpu0 gpu1) gpu1 gpu0 a b = true ↔
      table a b = true ∧ ¬IsPair gpu0 gpu1 a b := by
    simp only [tableClear_apply, IsPair]
    grind
  -- what a mask says of one GPU, or of a GPU and the CPU, is not about the pair
  have hdiag : ∀ a, ¬IsPair gpu0 gpu1 a a := by
    rintro a (⟨rfl, rfl⟩ | ⟨rfl, rfl⟩) <;> exact hne rfl
  have hcpu : ∀ a, ¬IsPair gpu0 gpu1 a cpuId := by
    rintro a (⟨-, heq⟩ | ⟨-, heq⟩)
    · exact h1 heq.symm
    · exact h0 heq.symm
  refine ⟨?_, fun hbad => ((henabled _ _).mp hbad).2 (.inl ⟨rfl, rfl⟩)⟩
  have hpres : ∀ a, (disablePeers va gpu0 gpu1).Present a ↔ va.Present a := by
    intro a
    simp only [VaSpace.Present, disablePeers, if_pos hbit]
  constructor
  case cpu => simpa only [disablePeers, if_pos hbit] using h.cpu
  case registered =>
    intro a b hab
    have := h.registered ((henabled a b).mp hab).1
    simpa only [disablePeers, if_pos hbit] using this
  case canAccess =>
    intro a b
    rw [henabled, hpres]
    simp only [disablePeers, if_pos hbit, htable, h.canAccess]
    grind
  case accessibleFrom =>
    intro a b
    rw [Bool.eq_iff_iff]
    simp only [disablePeers, if_pos hbit, htable, h.accessibleFrom, isPair_comm (a := b)]
  case canCopyFrom =>
    intro a b hab
    rw [henabled, hpres]
    simp only [disablePeers, if_pos hbit, htable] at hab
    exact (h.canCopyFrom a b hab.1).imp_right fun hen => ⟨hen, hab.2⟩
  case hasNvlinkTo =>
    intro a b hab
    rw [henabled]
    simp only [disablePeers, if_pos hbit, htable] at hab
    exact ⟨h.hasNvlinkTo a b hab.1, hab.2⟩
  case hasNvlinkFrom =>
    intro a b
    rw [Bool.eq_iff_iff]
    simp only [disablePeers, if_pos hbit, htable, h.hasNvlinkFrom, isPair_comm (a := b)]
  case hasNativeAtomics =>
    intro a b hab
    rw [henabled, hpres]
    simp only [disablePeers, if_pos hbit, htable] at hab
    exact (h.hasNativeAtomics a b hab.1).imp_right fun hen => ⟨hen, hab.2⟩
  case faultable =>
    intro id hid
    rw [hpres]
    exact h.faultable id (by simpa only [disablePeers, if_pos hbit] using hid)
  case atomics =>
    intro id hid
    rw [hpres]
    exact h.atomics id (by simpa only [disablePeers, if_pos hbit] using hid)
  case inProgress =>
    intro id hid
    simp only [disablePeers, if_pos hbit] at hid ⊢
    exact h.inProgress id hid

theorem disablePeers_enabled (h : (disablePeers va gpu0 gpu1).Enabled a b) : va.Enabled a b := by
  refine ⟨h.left, h.right, h.ne, ?_⟩
  have hbit := h.bit
  unfold disablePeers at hbit
  dsimp only at hbit
  split at hbit
  · simp only [Function.update_apply] at hbit
    split at hbit
    · cases hbit
    · exact hbit
  · exact hbit

theorem disablePeers_frame (va : VaSpace) (gpu0 gpu1 : ProcessorId) :
    (disablePeers va gpu0 gpu1).registeredGpus = va.registeredGpus ∧
      (disablePeers va gpu0 gpu1).faultableProcessors = va.faultableProcessors ∧
      (disablePeers va gpu0 gpu1).gpuRegisterInProgress = va.gpuRegisterInProgress := by
  unfold disablePeers
  dsimp only
  split <;> exact ⟨rfl, rfl, rfl⟩

theorem disableAllPeers_agrees (hid : id ≠ cpuId) {peers : List ProcessorId}
    (hpeers : ∀ peer ∈ peers, peer ≠ cpuId) {va : VaSpace} (h : va.Agrees) :
    (disableAllPeers id va peers).Agrees ∧
      (disableAllPeers id va peers).registeredGpus = va.registeredGpus ∧
      (disableAllPeers id va peers).faultableProcessors = va.faultableProcessors ∧
      (disableAllPeers id va peers).gpuRegisterInProgress = va.gpuRegisterInProgress ∧
      ∀ peer, (disableAllPeers id va peers).Enabled id peer → va.Enabled id peer ∧ peer ∉ peers := by
  induction peers generalizing va with
  | nil => exact ⟨h, rfl, rfl, rfl, fun peer hpeer => ⟨hpeer, List.not_mem_nil⟩⟩
  | cons peer peers ih =>
    have hrest : ∀ peer ∈ peers, peer ≠ cpuId := fun p hp => hpeers p (List.mem_cons_of_mem _ hp)
    rw [disableAllPeers, List.foldl_cons]
    split_ifs with hself
    · obtain ⟨hagrees, hreg, hfault, hprogress, hpairs⟩ := ih hrest h
      refine ⟨hagrees, hreg, hfault, hprogress, fun p hp => ?_⟩
      obtain ⟨hen, hnot⟩ := hpairs p hp
      refine ⟨hen, fun hmem => ?_⟩
      rcases List.mem_cons.mp hmem with rfl | hmem
      · exact hen.ne hself
      · exact hnot hmem
    · obtain ⟨hstep, hcut⟩ := disablePeers_agrees hid (hpeers peer List.mem_cons_self) hself h
      obtain ⟨hreg₁, hfault₁, hprogress₁⟩ := disablePeers_frame va id peer
      obtain ⟨hagrees, hreg, hfault, hprogress, hpairs⟩ := ih hrest hstep
      refine ⟨hagrees, hreg.trans hreg₁, hfault.trans hfault₁, hprogress.trans hprogress₁,
        fun p hp => ?_⟩
      obtain ⟨hen, hnot⟩ := hpairs p hp
      refine ⟨disablePeers_enabled hen, fun hmem => ?_⟩
      rcases List.mem_cons.mp hmem with rfl | hmem
      · exact hcut hen
      · exact hnot hmem

theorem unregisterGpu_agrees (hid : id ≠ cpuId) (h : va.Agrees)
    (hfault : va.faultableProcessors id = true → gpu.handlingReplayableFaults = true) :
    (unregisterGpuFinish gpu va id).Agrees := by
  have hgpus : ∀ peer ∈ gpusInMask va.registeredGpus, peer ≠ cpuId :=
    fun peer hpeer => (mem_gpusInMask.mp hpeer).1
  obtain ⟨hall, hreg, hfaults, hprogresses, hpairs⟩ := disableAllPeers_agrees hid hgpus h
  unfold unregisterGpuFinish unregisterGpu
  generalize disableAllPeers id va (gpusInMask va.registeredGpus) = va₁ at *
  -- every pair of the GPU is one with a registered GPU
  have hleft : ∀ peer, ¬va₁.Enabled id peer := by
    intro peer hen
    obtain ⟨hbefore, hnot⟩ := hpairs peer hen
    exact hnot (mem_gpusInMask.mpr ⟨hen.right, h.registered hbefore.symm⟩)
  have hright : ∀ peer, ¬va₁.Enabled peer id := fun peer hen => hleft peer hen.symm
  rw [← hfaults] at hfault
  dsimp only
  generalize hva' : VaSpace.mk _ _ _ _ _ _ _ _ _ _ _ = va'
  have hen : ∀ a b, va'.Enabled a b ↔ va₁.Enabled a b := by
    subst hva'
    exact fun a b => ⟨fun h => ⟨h.left, h.right, h.ne, h.bit⟩, fun h => ⟨h.left, h.right, h.ne, h.bit⟩⟩
  have hpres : ∀ a, va'.Present a ↔ va₁.Present a ∧ a ≠ id := by
    subst hva'
    simp only [VaSpace.Present, maskClear_apply]
    grind
  constructor
  case cpu => simp [← hva', maskClear_apply, hall.cpu]
  case registered =>
    intro a b hab
    rw [hen] at hab
    have hne : a ≠ id := fun heq => hleft b (heq ▸ hab)
    simp [← hva', maskClear_apply, hall.registered hab, hne]
  case canAccess =>
    intro a b
    rw [hen, hpres, ← hva']
    simp only [tableClear_apply, Bool.and_eq_true, hall.canAccess]
    grind [VaSpace.Present]
  case accessibleFrom =>
    intro a b
    rw [← hva']
    simp only [tableClear_apply, hall.accessibleFrom]
    grind
  case canCopyFrom =>
    intro a b hab
    rw [← hva'] at hab
    simp only [tableClear_apply, Bool.and_eq_true] at hab
    have := hall.canCopyFrom a b hab.1.1
    grind
  case hasNvlinkTo =>
    intro a b hab
    rw [← hva'] at hab
    exact (hen a b).mpr (hall.hasNvlinkTo a b hab)
  case hasNvlinkFrom =>
    intro a b
    rw [← hva']
    exact hall.hasNvlinkFrom a b
  case hasNativeAtomics =>
    intro a b hab
    rw [← hva'] at hab
    simp only [tableClear_apply, Bool.and_eq_true] at hab
    have := hall.hasNativeAtomics a b hab.1
    grind
  case faultable =>
    intro x hx
    rw [hpres]
    rw [← hva'] at hx
    split_ifs at hx with hhand
    · simp only [maskClear_apply, Bool.and_eq_true] at hx
      exact ⟨hall.faultable x hx.1, by simpa using hx.2⟩
    · refine ⟨hall.faultable x hx, ?_⟩
      rintro rfl
      exact hhand (hfault hx)
  case atomics =>
    intro x hx
    rw [hpres]
    rw [← hva'] at hx
    simp only [maskClear_apply, Bool.and_eq_true] at hx
    exact ⟨hall.atomics x hx.1, by simpa using hx.2⟩
  case inProgress =>
    intro x hx
    rw [← hva'] at hx ⊢
    simp only [maskClear_apply, Bool.and_eq_true] at hx ⊢
    exact ⟨hall.inProgress x hx.1, hx.2⟩

theorem registerGpu_agrees (gpuId : GpuId) (h : va.Agrees) : (registerGpu gpu va gpuId).Agrees := by
  obtain ⟨id, hid⟩ := gpuId
  by_cases hreg : va.registeredGpus id = true
  · rw [registerGpu, if_pos hreg]
    exact h
  rw [registerGpu, if_neg hreg]
  generalize hva' : VaSpace.mk _ _ _ _ _ _ _ _ _ _ _ = va'
  have hen : ∀ a b, va'.Enabled a b ↔ va.Enabled a b := by
    subst hva'
    exact fun a b => ⟨fun h => ⟨h.left, h.right, h.ne, h.bit⟩, fun h => ⟨h.left, h.right, h.ne, h.bit⟩⟩
  have hpres : ∀ a, va'.Present a ↔ va.Present a ∨ a = id := by
    subst hva'
    simp only [VaSpace.Present, maskSet_apply]
    grind
  constructor
  case cpu => simp [← hva', maskSet_apply, h.cpu, hid.symm]
  case registered =>
    intro a b hab
    rw [hen] at hab
    simp [← hva', maskSet_apply, h.registered hab]
  case canAccess =>
    intro a b
    rw [hen, hpres, ← hva']
    simp only [tableSet_apply, Bool.or_eq_true, h.canAccess]
    grind
  case accessibleFrom =>
    intro a b
    rw [← hva']
    simp only [tableSet_apply, h.accessibleFrom]
    grind
  case canCopyFrom =>
    intro a b hab
    rw [← hva'] at hab
    simp only [tableSet_apply, Bool.or_eq_true] at hab
    have := h.canCopyFrom a b
    grind
  case hasNvlinkTo =>
    intro a b hab
    rw [← hva'] at hab
    exact (hen a b).mpr (h.hasNvlinkTo a b hab)
  case hasNvlinkFrom =>
    intro a b
    rw [← hva']
    exact h.hasNvlinkFrom a b
  case hasNativeAtomics =>
    intro a b hab
    rw [← hva'] at hab
    simp only [tableSet_apply, Bool.or_eq_true] at hab
    have := h.hasNativeAtomics a b
    grind
  case faultable =>
    intro x hx
    rw [← hva'] at hx
    have := h.faultable x
    grind [maskSet_apply]
  case atomics =>
    intro x hx
    rw [← hva'] at hx
    have := h.atomics x
    grind [maskSet_apply]
  case inProgress =>
    intro x hx
    rw [← hva'] at hx ⊢
    simp [maskSet_apply, h.inProgress x hx]

theorem setPeerMasks_agrees {caps : PeerCaps} {gpu2 : ProcessorId} (h1 : gpu1 ≠ cpuId)
    (h2 : gpu2 ≠ cpuId) (hne : gpu1 ≠ gpu2) (hreg1 : va.registeredGpus gpu1 = true)
    (hreg2 : va.registeredGpus gpu2 = true) (h : va.Agrees) :
    (setPeerMasks gpu caps va gpu1 gpu2).Agrees := by
  have hen : ∀ a b, (setPeerMasks gpu caps va gpu1 gpu2).Enabled a b ↔
      va.Enabled a b ∨ IsPair gpu1 gpu2 a b := by
    intro a b
    rw [enabled_update h1 h2 hne rfl]
    split_ifs with hpair <;> simp [hpair]
  have htable : ∀ table a b, tableSet (tableSet table gpu1 gpu2) gpu2 gpu1 a b = true ↔
      table a b = true ∨ IsPair gpu1 gpu2 a b := by
    simp only [tableSet_apply, IsPair]
    grind
  have hswap : ∀ table a b, tableSet (tableSet table gpu2 gpu1) gpu1 gpu2 a b = true ↔
      table a b = true ∨ IsPair gpu1 gpu2 a b := by
    simp only [tableSet_apply, IsPair]
    grind
  constructor
  case cpu => exact h.cpu
  case registered =>
    intro a b hab
    rcases (hen a b).mp hab with hab | ⟨rfl, -⟩ | ⟨rfl, -⟩
    · exact h.registered hab
    · exact hreg1
    · exact hreg2
  case canAccess =>
    intro a b
    rw [hen]
    refine (htable _ _ _).trans ?_
    rw [h.canAccess, or_assoc]
    rfl
  case accessibleFrom =>
    intro a b
    rw [Bool.eq_iff_iff]
    refine (htable _ _ _).trans (Iff.trans ?_ (htable _ _ _).symm)
    rw [h.accessibleFrom, isPair_comm]
  case canCopyFrom =>
    intro a b hab
    rw [hen, ← or_assoc]
    simp only [setPeerMasks] at hab
    split_ifs at hab
    · exact ((hswap _ _ _).mp hab).imp_left (h.canCopyFrom a b)
    · exact .inl (h.canCopyFrom a b hab)
  case hasNvlinkTo =>
    intro a b hab
    rw [hen]
    simp only [setPeerMasks] at hab
    split_ifs at hab
    · exact ((htable _ _ _).mp hab).imp_left (h.hasNvlinkTo a b)
    · exact .inl (h.hasNvlinkTo a b hab)
  case hasNvlinkFrom =>
    intro a b
    rw [Bool.eq_iff_iff]
    simp only [setPeerMasks]
    split_ifs
    · rw [htable, htable, h.hasNvlinkFrom, isPair_comm]
    · rw [h.hasNvlinkFrom]
  case hasNativeAtomics =>
    intro a b hab
    rw [hen, ← or_assoc]
    simp only [setPeerMasks] at hab
    split_ifs at hab
    · exact ((htable _ _ _).mp hab).imp_left (h.hasNativeAtomics a b)
    · exact .inl (h.hasNativeAtomics a b hab)
  case faultable => exact h.faultable
  case atomics => exact h.atomics
  case inProgress => exact h.inProgress

theorem enablePeerAccess_agrees {gpu1 gpu2 : GpuId} (hne : gpu1 ≠ gpu2) (o : EnableOutcome)
    (h : va.Agrees) : (enablePeerAccess gpu va gpu1 gpu2 o).Agrees := by
  have hne : gpu1.val ≠ gpu2.val := fun heq => hne (Subtype.ext heq)
  unfold enablePeerAccess
  split
  · next hchecks =>
    simp only [Bool.and_eq_true] at hchecks
    have hset : (setPeerMasks gpu o.caps va gpu1.val gpu2.val).Agrees :=
      setPeerMasks_agrees gpu1.2 gpu2.2 hne hchecks.1.1.1 hchecks.1.1.2 h
    split
    · exact (disablePeers_agrees gpu1.2 gpu2.2 hne hset).1
    · exact hset
  · exact h

theorem disablePeerAccess_agrees (gpu1 gpu2 : GpuId) (h : va.Agrees) :
    (disablePeerAccess va gpu1 gpu2).Agrees := by
  unfold disablePeerAccess
  split
  · next hchecks =>
    simp only [Bool.and_eq_true, bne_iff_ne] at hchecks
    have hne : gpu1.val ≠ gpu2.val := fun heq => hchecks.2 (Subtype.ext heq)
    exact (disablePeers_agrees gpu1.2 gpu2.2 hne h).1
  · exact h

theorem systemWideAtomicsSet_agrees (id : GpuId) (enable revoked : Bool) (h : va.Agrees) :
    (systemWideAtomicsSet va id enable revoked).Agrees := by
  unfold systemWideAtomicsSet
  split
  swap
  · exact h
  next hchecks =>
  have hpres : va.Present id := .inr (Bool.and_eq_true_iff.mp hchecks).1
  split_ifs
  · refine h.frame (fun x hx => ?_) h.inProgress
    simp only [maskSet_apply, Bool.or_eq_true, decide_eq_true_eq] at hx
    rcases hx with hx | rfl
    · exact h.atomics x hx
    · exact hpres
  · exact h
  · refine h.frame (fun x hx => h.atomics x ?_) h.inProgress
    simp only [maskClear_apply, Bool.and_eq_true] at hx
    exact hx.1

/-! ## Runs -/

/-- The masks agree, and the GPUs in `faultable_processors` handle replayable faults. -/
structure State.Inv (s : State) : Prop where
  agrees : s.va.Agrees
  handling : ∀ id, id ≠ cpuId → s.va.faultableProcessors id = true →
    (s.gpus id).handlingReplayableFaults = true

theorem State.initial_inv (gpus : ProcessorId → Gpu) : (State.initial gpus).Inv where
  agrees := VaSpace.create_agrees
  handling id hid h := by
    simp [State.initial, VaSpace.create, maskSet_apply, hid] at h

theorem step_inv (s : State) (op : Op) (h : s.Inv) : (step s op).Inv := by
  cases op with
  | replaceGpu id gpu =>
    simp only [step]
    split_ifs with hreg
    · exact h
    · refine ⟨h.agrees, fun x hx hfault => ?_⟩
      have hne : x ≠ id.val := by
        rintro rfl
        rcases h.agrees.faultable id hfault with heq | hin
        · exact id.2 heq
        · exact hreg hin
      simp only [update_of_ne hne]
      exact h.handling x hx hfault
  | registerGpu id =>
    refine ⟨registerGpu_agrees id h.agrees, fun x hx hfault => ?_⟩
    simp only [step, registerGpu] at hfault ⊢
    by_cases hsame : x = id.val
    · subst hsame
      split_ifs at hfault with hreg hhand
      · exact h.handling _ hx hfault
      · exact hhand
      · exact h.handling _ hx hfault
    · refine h.handling x hx ?_
      split_ifs at hfault <;> simp_all [maskSet_apply]
  | unregisterGpuBegin id =>
    simp only [step]
    split
    · next hchecks =>
      refine ⟨h.agrees.frame h.agrees.atomics fun x hx => ?_, h.handling⟩
      simp only [maskSet_apply, Bool.or_eq_true, decide_eq_true_eq] at hx
      rcases hx with hx | rfl
      · exact h.agrees.inProgress x hx
      · exact (Bool.and_eq_true_iff.mp hchecks).1
    · exact h
  | unregisterGpuFinish id =>
    simp only [step]
    split
    · refine ⟨unregisterGpu_agrees id.2 h.agrees (h.handling id id.2), fun x hx hfault => ?_⟩
      refine h.handling x hx ?_
      have hgpus : ∀ peer ∈ gpusInMask s.va.registeredGpus, peer ≠ cpuId :=
        fun peer hpeer => (mem_gpusInMask.mp hpeer).1
      rw [← (disableAllPeers_agrees id.2 hgpus h.agrees).2.2.1]
      simp only [unregisterGpuFinish, unregisterGpu] at hfault
      split_ifs at hfault
      · simp only [maskClear_apply, Bool.and_eq_true] at hfault
        exact hfault.1
      · exact hfault
    · exact h
  | enablePeerAccess gpu1 gpu2 outcome =>
    simp only [step]
    split_ifs with hsame
    · exact h
    · refine ⟨enablePeerAccess_agrees hsame outcome h.agrees, ?_⟩
      have hfault : (enablePeerAccess (s.gpus gpu1) s.va gpu1 gpu2 outcome).faultableProcessors =
          s.va.faultableProcessors := by
        unfold enablePeerAccess
        split_ifs
        · exact (disablePeers_frame _ _ _).2.1
        · rfl
        · rfl
      simp only [hfault]
      exact h.handling
  | disablePeerAccess gpu1 gpu2 =>
    refine ⟨disablePeerAccess_agrees gpu1 gpu2 h.agrees, ?_⟩
    have hfault : (disablePeerAccess s.va gpu1 gpu2).faultableProcessors =
        s.va.faultableProcessors := by
      unfold disablePeerAccess
      split_ifs
      · exact (disablePeers_frame _ _ _).2.1
      · rfl
    simp only [step, hfault]
    exact h.handling
  | systemWideAtomicsSet id enable revoked =>
    refine ⟨systemWideAtomicsSet_agrees id enable revoked h.agrees, ?_⟩
    have hfault : (systemWideAtomicsSet s.va id enable revoked).faultableProcessors =
        s.va.faultableProcessors := by
      unfold systemWideAtomicsSet
      split_ifs <;> rfl
    simp only [step, hfault]
    exact h.handling

/-- The eight processor masks say what `registered_gpus` and `enabled_peers` say. -/
structure VaSpace.MasksAgree (va : VaSpace) : Prop where
  accessTranspose : ∀ a b, va.accessibleFrom b a = va.canAccess a b
  nvlinkTranspose : ∀ a b, va.hasNvlinkFrom b a = va.hasNvlinkTo a b
  /-- Between two GPUs the masks relate what an enabled pair relates. -/
  peers : ∀ a b : GpuId, a ≠ b →
    va.canCopyFrom a b || va.hasNvlinkTo a b || va.hasNvlinkFrom a b || va.hasNativeAtomics a b →
    va.enabledPeers (peerTableIndex a b) ∧ va.registeredGpus a ∧ va.registeredGpus b
  access : ∀ a b : GpuId, a ≠ b →
    va.canAccess a b = va.enabledPeers (peerTableIndex a b)
  /-- No mask mentions a GPU that is not registered, as the processor it is about or in it. -/
  absent : ∀ id : GpuId, va.registeredGpus id = false →
    va.faultableProcessors id = false ∧ va.systemWideAtomicsEnabledProcessors id = false ∧
    ∀ table ∈ [va.canAccess, va.accessibleFrom, va.canCopyFrom, va.hasNvlinkTo, va.hasNvlinkFrom,
      va.hasNativeAtomics], ∀ other, table id other = false ∧ table other id = false

theorem VaSpace.Agrees.masksAgree (h : va.Agrees) : va.MasksAgree where
  accessTranspose := h.accessibleFrom
  nvlinkTranspose := h.hasNvlinkFrom
  peers a b hne hmask := by
    have hne : a.val ≠ b.val := fun heq => hne (Subtype.ext heq)
    have hen : va.Enabled a b := by
      simp only [Bool.or_eq_true] at hmask
      rcases hmask with ((hcopy | hto) | hfrom) | hatomics
      · rcases h.canCopyFrom a b hcopy with ⟨heq | heq, -⟩ | hen
        · exact absurd heq hne
        · exact absurd heq a.2
        · exact hen
      · exact h.hasNvlinkTo a b hto
      · rw [h.hasNvlinkFrom] at hfrom
        exact (h.hasNvlinkTo b a hfrom).symm
      · rcases h.hasNativeAtomics a b hatomics with ⟨heq, -⟩ | hen
        · exact absurd heq hne
        · exact hen
    exact ⟨hen.bit, h.registered hen, h.registered hen.symm⟩
  access a b hne := by
    have hne : a.val ≠ b.val := fun heq => hne (Subtype.ext heq)
    rw [Bool.eq_iff_iff, h.canAccess]
    constructor
    · rintro (⟨heq | heq, -⟩ | hen)
      · exact absurd heq hne
      · exact absurd heq b.2
      · exact hen.bit
    · exact fun hbit => .inr ⟨a.2, b.2, hne, hbit⟩
  absent id hreg := by
    have hpres : ¬va.Present id := by
      rintro (heq | hin)
      · exact id.2 heq
      · simp [hreg] at hin
    have hleft : ∀ other, ¬va.Enabled id other := fun other hen =>
      hpres (.inr (h.registered hen))
    have hright : ∀ other, ¬va.Enabled other id := fun other hen => hleft other hen.symm
    have hacc : ∀ other, va.canAccess id other = false ∧ va.canAccess other id = false := by
      simp only [← Bool.not_eq_true, h.canAccess]
      grind [id.2]
    have hnvlink : ∀ other, va.hasNvlinkTo id other = false ∧ va.hasNvlinkTo other id = false :=
      fun other => ⟨Bool.eq_false_iff.mpr fun hto => hleft other (h.hasNvlinkTo _ _ hto),
        Bool.eq_false_iff.mpr fun hto => hright other (h.hasNvlinkTo _ _ hto)⟩
    refine ⟨Bool.eq_false_iff.mpr fun hin => hpres (h.faultable id hin),
      Bool.eq_false_iff.mpr fun hin => hpres (h.atomics id hin), ?_⟩
    simp only [List.forall_mem_cons, List.not_mem_nil, false_implies, implies_true, and_true]
    refine ⟨hacc, fun other => ?_, fun other => ?_, hnvlink, fun other => ?_, fun other => ?_⟩
    · rw [h.accessibleFrom, h.accessibleFrom]
      exact (hacc other).symm
    · constructor <;> rw [Bool.eq_false_iff] <;> intro hcopy
      · have := h.canCopyFrom _ _ hcopy
        grind [id.2]
      · have := h.canCopyFrom _ _ hcopy
        grind [id.2]
    · rw [h.hasNvlinkFrom, h.hasNvlinkFrom]
      exact (hnvlink other).symm
    · constructor <;> rw [Bool.eq_false_iff] <;> intro hatomics
      · have := h.hasNativeAtomics _ _ hatomics
        grind
      · have := h.hasNativeAtomics _ _ hatomics
        grind

/-- **The processor masks agree** with the registered GPUs and the enabled peer pairs after every
run of registering and unregistering GPUs and enabling and disabling pairs, also when an enable
fails midway. -/
theorem masksAgree_run (gpus : ProcessorId → Gpu) (ops : List Op) :
    (Lib.run step (State.initial gpus) ops).va.MasksAgree :=
  (Lib.run_inv step (State.initial_inv gpus) step_inv ops).agrees.masksAgree

end NvUvm.PeerMasks
