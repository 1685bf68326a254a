import Mathlib.Data.List.Pairwise
import NvUvm.Lib.Run
import NvUvm.UserChannel

/-!
# The instance pointer table follows the registered channels

The fault handler finds the VA space of a fault by its instance pointer, so the table of a GPU
should map an instance pointer to a VA space exactly when a channel with that instance pointer
is registered there (`TableCorrect`).
-/

namespace NvUvm

open Lib

/-- The VA space the fault handler finds for an instance pointer. -/
def ChannelState.vaSpaceOf (s : ChannelState) (gpu : ProcessorId) (instancePtr : InstancePtr) :
    Option VaSpaceId :=
  uvmGpuInstancePtrToVaSpace (s.instancePtrTable gpu) instancePtr

/-- A channel with the instance pointer is registered in the VA space. -/
def ChannelState.Registered (s : ChannelState) (vaSpace : VaSpaceId) (gpu : ProcessorId)
    (instancePtr : InstancePtr) : Prop :=
  ∃ userChannel ∈ s.channels vaSpace gpu, userChannel.instancePtr = instancePtr

instance (s : ChannelState) (vaSpace : VaSpaceId) (gpu : ProcessorId)
    (instancePtr : InstancePtr) : Decidable (s.Registered vaSpace gpu instancePtr) :=
  inferInstanceAs (Decidable (∃ c ∈ s.channels vaSpace gpu, c.instancePtr = instancePtr))

/-- The table maps an instance pointer to a VA space iff a channel with that instance pointer
is registered in that VA space. -/
def TableCorrect (s : ChannelState) : Prop :=
  ∀ gpu instancePtr vaSpace,
    s.vaSpaceOf gpu instancePtr = some vaSpace ↔ s.Registered vaSpace gpu instancePtr

/-- Channel objects are allocated once: no list holds one twice, nor one not yet allocated. -/
structure ObjectsWf (s : ChannelState) : Prop where
  allocated : ∀ vaSpace gpu, ∀ c ∈ s.channels vaSpace gpu, c.object < s.nextObject
  distinct : ∀ vaSpace gpu, (s.channels vaSpace gpu).Pairwise (fun c d => c.object ≠ d.object)

/-! ## What the updates do -/

section Updates

variable (s : ChannelState) (vaSpace vaSpace' : VaSpaceId) (gpu gpu' : ProcessorId)

@[simp] theorem nextObject_setTable (table : InstancePtrTable) :
    (s.setTable gpu table).nextObject = s.nextObject := rfl

@[simp] theorem vaSpaceOf_setGpuVaSpace (gvs : Option GpuVaSpace) :
    (s.setGpuVaSpace vaSpace gpu gvs).vaSpaceOf = s.vaSpaceOf := rfl

@[simp] theorem nextObject_setGpuVaSpace (gvs : Option GpuVaSpace) :
    (s.setGpuVaSpace vaSpace gpu gvs).nextObject = s.nextObject := rfl

theorem channels_setGpuVaSpace (gvs : Option GpuVaSpace) :
    (s.setGpuVaSpace vaSpace gpu gvs).channels vaSpace' gpu' =
      if vaSpace' = vaSpace ∧ gpu' = gpu then
        (gvs.map (·.registeredChannels)).getD []
      else s.channels vaSpace' gpu' := by
  by_cases hva : vaSpace' = vaSpace
  · subst hva
    by_cases hgpu : gpu' = gpu
    · subst hgpu
      simp only [ChannelState.channels, ChannelState.setGpuVaSpace, Function.update_self,
        and_self, if_true]
    · simp [ChannelState.channels, ChannelState.setGpuVaSpace, hgpu]
  · simp [ChannelState.channels, ChannelState.setGpuVaSpace, hva]

private theorem vaSpaceOf_update (instancePtr instancePtr' : InstancePtr) (o : Option VaSpaceId) :
    (s.setTable gpu (Function.update (s.instancePtrTable gpu) (instancePtrToKey instancePtr)
        o)).vaSpaceOf gpu' instancePtr' =
      if gpu' = gpu ∧ instancePtr' = instancePtr then o else s.vaSpaceOf gpu' instancePtr' := by
  by_cases hgpu : gpu' = gpu
  · subst hgpu
    simp [ChannelState.vaSpaceOf, ChannelState.setTable, uvmGpuInstancePtrToVaSpace,
      Function.update_apply, instancePtrToKey_injective.eq_iff]
  · simp [ChannelState.vaSpaceOf, ChannelState.setTable, hgpu]

theorem vaSpaceOf_remove (instancePtr instancePtr' : InstancePtr) :
    (s.setTable gpu (uvmGpuRemoveInstancePtr (s.instancePtrTable gpu) instancePtr)).vaSpaceOf
        gpu' instancePtr' =
      if gpu' = gpu ∧ instancePtr' = instancePtr then none
      else s.vaSpaceOf gpu' instancePtr' :=
  vaSpaceOf_update ..

theorem vaSpaceOf_add (instancePtr instancePtr' : InstancePtr) :
    (s.setTable gpu (uvmGpuAddInstancePtr .ok (s.instancePtrTable gpu) instancePtr
        vaSpace).2).vaSpaceOf gpu' instancePtr' =
      if gpu' = gpu ∧ instancePtr' = instancePtr then
        (s.vaSpaceOf gpu' instancePtr').or (some vaSpace)
      else s.vaSpaceOf gpu' instancePtr' := by
  refine (vaSpaceOf_update _ _ _ instancePtr instancePtr' _).trans (ite_congr rfl ?_ fun _ => rfl)
  rintro ⟨rfl, rfl⟩
  rfl

theorem vaSpaceOf_detach (c : UserChannel) (instancePtr : InstancePtr) :
    (uvmUserChannelDetach s vaSpace gpu c).vaSpaceOf gpu' instancePtr =
      if gpu' = gpu ∧ instancePtr = c.instancePtr then none
      else s.vaSpaceOf gpu' instancePtr := by
  simp only [uvmUserChannelDetach, ne_eq, c.retained.instanceDescriptor_ne_zero,
    not_false_eq_true, if_true, vaSpaceOf_setGpuVaSpace, vaSpaceOf_remove]

theorem channels_detach (c : UserChannel) :
    (uvmUserChannelDetach s vaSpace gpu c).channels vaSpace' gpu' =
      if vaSpace' = vaSpace ∧ gpu' = gpu then
        (s.channels vaSpace' gpu').filter (·.object != c.object)
      else s.channels vaSpace' gpu' := by
  simp only [uvmUserChannelDetach, ne_eq, c.retained.instanceDescriptor_ne_zero,
    not_false_eq_true, if_true, channels_setGpuVaSpace]
  split
  · rename_i h
    obtain ⟨rfl, rfl⟩ := h
    simp only [ChannelState.setTable, ChannelState.channels]
    cases s.gpuVaSpaces vaSpace' gpu' <;> rfl
  · rfl

@[simp] theorem nextObject_detach (c : UserChannel) :
    (uvmUserChannelDetach s vaSpace gpu c).nextObject = s.nextObject := by
  simp only [uvmUserChannelDetach, ne_eq, c.retained.instanceDescriptor_ne_zero,
    not_false_eq_true, if_true, nextObject_setGpuVaSpace, nextObject_setTable]

end Updates

/-! ## Registration -/

section Register

variable (maxChannelVa : ProcessorId → ℕ) (s : ChannelState) (args : RegisterArgs)
  (out : RegisterOutcome)

/-- The registration gets as far as a channel object that RM retained. -/
def RegistrationCreates : Prop :=
  uvmApiRangeInvalid args.base args.length = false ∧
    uvmUserChannelCreate s args out = .ok ⟨s.nextObject, args.userRmChannel, out.retained⟩

/-- The checks and steps after that all succeed. -/
structure RegistrationAccepted : Prop where
  notStopped : s.userChannelsStopped args.vaSpace = false
  allowed : ∀ gpuVaSpace, s.gpuVaSpaces args.vaSpace args.gpu = some gpuVaSpace →
    gpuVaSpace.disallowNewChannels = false
  inRange : args.base + args.length - 1 < maxChannelVa args.gpu
  vaRangeEmpty : out.vaRangeEmpty = true
  notFound : findUserChannel s args.vaSpace args.userRmChannel = none
  createVaRanges : out.createVaRanges = .ok
  mapResources : out.mapResources = .ok
  preload : out.preload = .ok
  bindResources : out.bindResources = .ok

/-- The state after a registration that only loses the entry of its instance pointer. -/
structure DropsEntry (s' : ChannelState) : Prop where
  channels : s'.channels = s.channels
  vaSpaceOf : ∀ gpu instancePtr, s'.vaSpaceOf gpu instancePtr =
    if gpu = args.gpu ∧ instancePtr = out.retained.instancePtr then none
    else s.vaSpaceOf gpu instancePtr
  nextObject : s'.nextObject = s.nextObject + 1

/-- The state after a successful registration. -/
structure AddsChannel (s' : ChannelState) : Prop where
  channels : ∀ vaSpace gpu, s'.channels vaSpace gpu =
    if vaSpace = args.vaSpace ∧ gpu = args.gpu then
      ⟨s.nextObject, args.userRmChannel, out.retained⟩ :: s.channels vaSpace gpu
    else s.channels vaSpace gpu
  vaSpaceOf : ∀ gpu instancePtr, s'.vaSpaceOf gpu instancePtr =
    if gpu = args.gpu ∧ instancePtr = out.retained.instancePtr then
      (s.vaSpaceOf gpu instancePtr).or (some args.vaSpace)
    else s.vaSpaceOf gpu instancePtr
  nextObject : s'.nextObject = s.nextObject + 1

private theorem filter_fresh {s : ChannelState} (hwf : ObjectsWf s) (vaSpace : VaSpaceId)
    (gpu : ProcessorId) :
    (s.channels vaSpace gpu).filter (·.object != s.nextObject) = s.channels vaSpace gpu := by
  refine List.filter_eq_self.mpr fun c hc => ?_
  have := hwf.allocated vaSpace gpu c hc
  simp only [bne_iff_ne]
  omega

private theorem uvmUserChannelCreate_cases :
    (∃ status, uvmUserChannelCreate s args out = .error status) ∨
      uvmUserChannelCreate s args out = .ok ⟨s.nextObject, args.userRmChannel, out.retained⟩ := by
  unfold uvmUserChannelCreate
  split
  · exact Or.inl ⟨_, rfl⟩
  · split
    · exact Or.inl ⟨_, rfl⟩
    · split
      · exact Or.inl ⟨_, rfl⟩
      · split
        · exact Or.inl ⟨_, rfl⟩
        · exact Or.inr rfl

variable {c : UserChannel}

private theorem exists_gpuVaSpace_of_create {s : ChannelState} {args : RegisterArgs}
    {out : RegisterOutcome} (h : uvmUserChannelCreate s args out = .ok c) :
    ∃ gpuVaSpace, s.gpuVaSpaces args.vaSpace args.gpu = some gpuVaSpace := by
  unfold uvmUserChannelCreate at h
  split at h
  · cases h
  · rename_i hreg
    cases hgvs : s.gpuVaSpaces args.vaSpace args.gpu with
    | none => simp [hgvs] at hreg
    | some gpuVaSpace => exact ⟨gpuVaSpace, rfl⟩

private theorem detach_drops {s s' : ChannelState} (hwf : ObjectsWf s)
    (hobj : s'.nextObject = s.nextObject + 1)
    (hptr : ∀ gpu instancePtr, s'.vaSpaceOf gpu instancePtr = s.vaSpaceOf gpu instancePtr ∨
      gpu = args.gpu ∧ instancePtr = out.retained.instancePtr)
    (hlist : ∀ vaSpace gpu, s'.channels vaSpace gpu = s.channels vaSpace gpu ∨
      vaSpace = args.vaSpace ∧ gpu = args.gpu ∧ s'.channels vaSpace gpu =
        ⟨s.nextObject, args.userRmChannel, out.retained⟩ :: s.channels vaSpace gpu) :
    DropsEntry s args out (uvmUserChannelDetach s' args.vaSpace args.gpu
      ⟨s.nextObject, args.userRmChannel, out.retained⟩) := by
  refine ⟨funext₂ fun vaSpace gpu => ?_, fun gpu instancePtr => ?_, by simp [hobj]⟩
  · rw [channels_detach]
    rcases hlist vaSpace gpu with h | ⟨rfl, rfl, h⟩
    · rw [h]
      split
      · exact filter_fresh hwf vaSpace gpu
      · rfl
    · rw [if_pos ⟨rfl, rfl⟩, h, List.filter_cons_of_neg (by simp)]
      exact filter_fresh hwf _ _
  · rw [vaSpaceOf_detach, UserChannel.instancePtr]
    split
    · rfl
    · rename_i h
      exact (hptr gpu instancePtr).resolve_right h

/-- The checks and steps of a registration under the write lock. -/
private def UnderWriteChecks (gpuVaSpace : GpuVaSpace) : Prop :=
  s.userChannelsStopped args.vaSpace = false ∧ gpuVaSpace.disallowNewChannels = false ∧
    args.base + args.length - 1 < maxChannelVa args.gpu ∧ out.vaRangeEmpty = true ∧
    findUserChannel s args.vaSpace args.userRmChannel = none ∧ out.createVaRanges = .ok

private theorem underWrite_pass {s : ChannelState} {args : RegisterArgs} {out : RegisterOutcome}
    {gpuVaSpace : GpuVaSpace} (hgvs : s.gpuVaSpaces args.vaSpace args.gpu = some gpuVaSpace)
    (hc : c.userRmChannel = args.userRmChannel)
    (h : UnderWriteChecks maxChannelVa s args out gpuVaSpace) :
    uvmRegisterChannelUnderWrite maxChannelVa s args out c =
      (.ok, s.setGpuVaSpace args.vaSpace args.gpu (some { gpuVaSpace with
        registeredChannels := c :: gpuVaSpace.registeredChannels })) := by
  obtain ⟨h1, h2, h3, h4, h5, h6⟩ := h
  simp [uvmRegisterChannelUnderWrite, hgvs, h1, h2, Nat.not_le.mpr h3, h4, hc, h5, h6]

private theorem underWrite_fail {s : ChannelState} {args : RegisterArgs} {out : RegisterOutcome}
    {gpuVaSpace : GpuVaSpace} (hgvs : s.gpuVaSpaces args.vaSpace args.gpu = some gpuVaSpace)
    (hc : c.userRmChannel = args.userRmChannel)
    (h : ¬ UnderWriteChecks maxChannelVa s args out gpuVaSpace) :
    ∃ status, status ≠ .ok ∧ uvmRegisterChannelUnderWrite maxChannelVa s args out c =
      (status, s) := by
  simp only [uvmRegisterChannelUnderWrite, hgvs, hc]
  split
  · exact ⟨_, by simp, rfl⟩
  · split
    · exact ⟨_, by simp, rfl⟩
    · split
      · exact ⟨_, by simp, rfl⟩
      · split
        · exact ⟨_, by simp, rfl⟩
        · split
          · exact ⟨_, by simp, rfl⟩
          · split
            · rename_i hne
              exact ⟨_, hne, rfl⟩
            · rename_i h1 h2 h3 h4 h5 h6
              exact absurd ⟨by simpa using h1, by simpa using h2, Nat.not_le.mp h3,
                by simpa using h4, by simpa using h5, by simpa using h6⟩ h

/-- The state with the table entry of the channel inserted. -/
private def withEntry (s : ChannelState) (args : RegisterArgs) (c : UserChannel) :
    ChannelState :=
  s.setTable args.gpu (uvmGpuAddInstancePtr .ok (s.instancePtrTable args.gpu) c.instancePtr
    args.vaSpace).2

private theorem underRead_pass {s : ChannelState} (hmap : out.mapResources = .ok)
    (hpre : out.preload = .ok) (hbind : out.bindResources = .ok) :
    registerChannelUnderRead s args out c = (.ok, withEntry s args c) := by
  simp [registerChannelUnderRead, hmap, hpre, hbind, uvmGpuAddInstancePtr, withEntry]

private theorem underRead_fail {s : ChannelState}
    (h : ¬ (out.mapResources = .ok ∧ out.preload = .ok ∧ out.bindResources = .ok)) :
    ∃ status s', status ≠ .ok ∧ registerChannelUnderRead s args out c = (status, s') ∧
      (s' = s ∨ s' = withEntry s args c) := by
  by_cases hmap : out.mapResources = .ok
  · by_cases hpre : out.preload = .ok
    · have hbind : out.bindResources ≠ .ok := fun hb => h ⟨hmap, hpre, hb⟩
      exact ⟨_, _, hbind, by simp [registerChannelUnderRead, hmap, hpre, uvmGpuAddInstancePtr,
        withEntry], Or.inr rfl⟩
    · exact ⟨_, _, hpre, by simp [registerChannelUnderRead, hmap, hpre, uvmGpuAddInstancePtr],
        Or.inl rfl⟩
  · exact ⟨_, _, hmap, by simp [registerChannelUnderRead, hmap], Or.inl rfl⟩

/-- **The three effects of a registration.**  It leaves the state alone, or fails and drops
the entry of its instance pointer, or succeeds and adds its channel. -/
theorem uvmRegisterChannel_cases (hwf : ObjectsWf s) :
    (¬ RegistrationCreates s args out ∧ (uvmRegisterChannel maxChannelVa s args out).2 = s) ∨
      (RegistrationCreates s args out ∧ ¬ RegistrationAccepted maxChannelVa s args out ∧
        (uvmRegisterChannel maxChannelVa s args out).1 ≠ .ok ∧
        DropsEntry s args out (uvmRegisterChannel maxChannelVa s args out).2) ∨
      (RegistrationCreates s args out ∧ RegistrationAccepted maxChannelVa s args out ∧
        (uvmRegisterChannel maxChannelVa s args out).1 = .ok ∧
        AddsChannel s args out (uvmRegisterChannel maxChannelVa s args out).2) := by
  cases hrange : uvmApiRangeInvalid args.base args.length with
  | true =>
    refine Or.inl ⟨fun h => ?_, by simp [uvmRegisterChannel, hrange]⟩
    have := h.1
    simp [hrange] at this
  | false =>
    rcases uvmUserChannelCreate_cases s args out with ⟨status, hcreate⟩ | hcreate
    · refine Or.inl ⟨fun h => ?_, by simp [uvmRegisterChannel, hrange, hcreate]⟩
      have := h.2
      rw [hcreate] at this
      cases this
    · right
      have hcreates : RegistrationCreates s args out := ⟨hrange, hcreate⟩
      obtain ⟨gpuVaSpace, hgvs⟩ := exists_gpuVaSpace_of_create hcreate
      let s₁ : ChannelState := { s with nextObject := s.nextObject + 1 }
      have hgvs₁ : s₁.gpuVaSpaces args.vaSpace args.gpu = some gpuVaSpace := hgvs
      let c : UserChannel := ⟨s.nextObject, args.userRmChannel, out.retained⟩
      by_cases hchecks : UnderWriteChecks maxChannelVa s₁ args out gpuVaSpace
      · have hunder := underWrite_pass maxChannelVa (c := c) hgvs₁ rfl hchecks
        -- from here on the channel is on its list
        let s₂ : ChannelState := s₁.setGpuVaSpace args.vaSpace args.gpu (some { gpuVaSpace with
          registeredChannels := c :: gpuVaSpace.registeredChannels })
        have hlist : ∀ vaSpace gpu, s₂.channels vaSpace gpu =
            if vaSpace = args.vaSpace ∧ gpu = args.gpu then c :: s.channels vaSpace gpu
            else s.channels vaSpace gpu := by
          intro vaSpace gpu
          simp only [s₂, channels_setGpuVaSpace]
          split
          · rename_i h
            obtain ⟨rfl, rfl⟩ := h
            simp [ChannelState.channels, hgvs]
          · rfl
        have hptr : ∀ gpu instancePtr, (withEntry s₂ args c).vaSpaceOf gpu instancePtr =
            if gpu = args.gpu ∧ instancePtr = out.retained.instancePtr then
              (s.vaSpaceOf gpu instancePtr).or (some args.vaSpace)
            else s.vaSpaceOf gpu instancePtr := fun gpu instancePtr =>
          vaSpaceOf_add s₂ args.vaSpace args.gpu gpu c.instancePtr instancePtr
        by_cases hread : out.mapResources = .ok ∧ out.preload = .ok ∧ out.bindResources = .ok
        · obtain ⟨hmap, hpre, hbind⟩ := hread
          have hres : uvmRegisterChannel maxChannelVa s args out = (.ok, withEntry s₂ args c) := by
            simp [uvmRegisterChannel, hrange, hcreate, s₁, c, hunder,
              underRead_pass args out hmap hpre hbind, s₂]
          right
          rw [hres]
          obtain ⟨h1, h2, h3, h4, h5, h6⟩ := hchecks
          refine ⟨hcreates, ⟨h1, fun gvs h => ?_, h3, h4, h5, h6, hmap, hpre, hbind⟩, rfl,
            ⟨hlist, hptr, rfl⟩⟩
          rw [hgvs] at h
          cases h
          exact h2
        · -- mapping, inserting or binding failed
          left
          obtain ⟨status, s', hne, hunderRead, hs'⟩ := underRead_fail args out (c := c)
            (s := s₂) hread
          have hres : uvmRegisterChannel maxChannelVa s args out =
              (status, uvmUserChannelDetach s' args.vaSpace args.gpu c) := by
            simp [uvmRegisterChannel, hrange, hcreate, s₁, c, hunder, s₂] at hunderRead ⊢
            simp [hunderRead, hne]
          rw [hres]
          refine ⟨hcreates, fun h => hread ⟨h.mapResources, h.preload, h.bindResources⟩, hne,
            detach_drops args out hwf ?_ (fun gpu instancePtr => ?_) (fun vaSpace gpu => ?_)⟩
          · rcases hs' with rfl | rfl <;> rfl
          · rcases hs' with rfl | rfl
            · exact Or.inl rfl
            · rw [hptr]
              split
              · rename_i h
                exact Or.inr h
              · exact Or.inl rfl
          · have hch : s'.channels vaSpace gpu = s₂.channels vaSpace gpu := by
              rcases hs' with rfl | rfl <;> rfl
            rw [hch, hlist]
            split
            · rename_i h
              exact Or.inr ⟨h.1, h.2, rfl⟩
            · exact Or.inl rfl
      · -- a check failed before the channel was linked
        left
        obtain ⟨status, hne, hunder⟩ := underWrite_fail maxChannelVa (c := c) hgvs₁ rfl hchecks
        have hres : uvmRegisterChannel maxChannelVa s args out =
            (status, uvmUserChannelDetach s₁ args.vaSpace args.gpu c) := by
          simp only [uvmRegisterChannel, hrange, hcreate, Bool.false_eq_true]
          simp [hunder, hne, s₁, c]
        rw [hres]
        refine ⟨hcreates, fun h => hchecks ⟨h.notStopped, h.allowed _ hgvs, h.inRange,
          h.vaRangeEmpty, h.notFound, h.createVaRanges⟩, hne,
          detach_drops args out hwf rfl (fun _ _ => Or.inl rfl) (fun _ _ => Or.inl rfl)⟩

end Register

/-! ## Unregistration -/

section Unregister

variable (s : ChannelState) (vaSpace : VaSpaceId) (gpu : ProcessorId)

theorem findUserChannel_mem {s : ChannelState} {vaSpace : VaSpaceId} {h : UserRmObject}
    {gpu : ProcessorId} {c : UserChannel} (hf : findUserChannel s vaSpace h = some (gpu, c)) :
    c ∈ s.channels vaSpace gpu := by
  obtain ⟨g, -, hg⟩ := List.exists_of_findSome?_eq_some hf
  obtain ⟨d, hd, heq⟩ := Option.map_eq_some_iff.mp hg
  cases heq
  exact List.mem_of_find?_eq_some hd

private theorem detach_foldl (l : List UserChannel) (s : ChannelState) :
    let s' := l.foldl (fun s c => uvmUserChannelDetach s vaSpace gpu c) s
    (∀ gpu' instancePtr, s'.vaSpaceOf gpu' instancePtr =
        if gpu' = gpu ∧ ∃ c ∈ l, c.instancePtr = instancePtr then none
        else s.vaSpaceOf gpu' instancePtr) ∧
      (∀ vaSpace' gpu', ¬ (vaSpace' = vaSpace ∧ gpu' = gpu) →
        s'.channels vaSpace' gpu' = s.channels vaSpace' gpu') ∧
      s'.nextObject = s.nextObject := by
  induction l generalizing s with
  | nil => simp
  | cons c rest ih =>
    obtain ⟨hptr, hlist, hobj⟩ := ih (uvmUserChannelDetach s vaSpace gpu c)
    refine ⟨fun gpu' instancePtr => ?_, fun vaSpace' gpu' hne => ?_, ?_⟩
    · simp only [List.foldl_cons, hptr, vaSpaceOf_detach]
      by_cases hgpu : gpu' = gpu
      · subst hgpu
        by_cases hc : instancePtr = c.instancePtr
        · simp [hc]
        · have hc' : c.instancePtr ≠ instancePtr := fun h => hc h.symm
          simp [hc, hc']
      · simp [hgpu]
    · simp only [List.foldl_cons, hlist vaSpace' gpu' hne, channels_detach, if_neg hne]
    · simp only [List.foldl_cons, hobj, nextObject_detach]

/-- The state after a GPU VA space is removed: its channels are gone, and so are the entries
of their instance pointers. -/
private structure RemovesChannels (s' : ChannelState) : Prop where
  channels : ∀ vaSpace' gpu', s'.channels vaSpace' gpu' =
    if vaSpace' = vaSpace ∧ gpu' = gpu then [] else s.channels vaSpace' gpu'
  vaSpaceOf : ∀ gpu' instancePtr, s'.vaSpaceOf gpu' instancePtr =
    if gpu' = gpu ∧ s.Registered vaSpace gpu instancePtr then none
    else s.vaSpaceOf gpu' instancePtr
  nextObject : s'.nextObject = s.nextObject

private theorem stop_channels (vaSpace' : VaSpaceId) (gpu' : ProcessorId) :
    (gpuVaSpaceStopAllChannels s vaSpace gpu).channels vaSpace' gpu' =
      s.channels vaSpace' gpu' := by
  simp only [gpuVaSpaceStopAllChannels, channels_setGpuVaSpace]
  split
  · rename_i h
    obtain ⟨rfl, rfl⟩ := h
    simp only [ChannelState.channels]
    cases s.gpuVaSpaces vaSpace' gpu' <;> rfl
  · rfl

private theorem stop_vaSpaceOf :
    (gpuVaSpaceStopAllChannels s vaSpace gpu).vaSpaceOf = s.vaSpaceOf := rfl

private theorem removeGpuVaSpace_effect : RemovesChannels s vaSpace gpu
      (removeGpuVaSpace (gpuVaSpaceStopAllChannels s vaSpace gpu) vaSpace gpu) := by
  unfold removeGpuVaSpace
  split
  · -- nothing registered: no channels either
    rename_i hnone
    have hnone' : s.gpuVaSpaces vaSpace gpu = none := by
      simpa [gpuVaSpaceStopAllChannels, ChannelState.setGpuVaSpace] using hnone
    have hempty : s.channels vaSpace gpu = [] := by simp [ChannelState.channels, hnone']
    refine ⟨fun vaSpace' gpu' => ?_, fun gpu' instancePtr => ?_, rfl⟩
    · rw [stop_channels]
      split
      · rename_i h
        rw [h.1, h.2, hempty]
      · rfl
    · have hno : ¬ s.Registered vaSpace gpu instancePtr := by
        simp [ChannelState.Registered, hempty]
      simp [hno, gpuVaSpaceStopAllChannels]
  · obtain ⟨hptr, hlist, hobj⟩ := detach_foldl vaSpace gpu
      ((gpuVaSpaceStopAllChannels s vaSpace gpu).channels vaSpace gpu)
      (gpuVaSpaceStopAllChannels s vaSpace gpu)
    refine ⟨fun vaSpace' gpu' => ?_, fun gpu' instancePtr => ?_, hobj⟩
    · rw [channels_setGpuVaSpace]
      split
      · rfl
      · rename_i h
        exact (hlist vaSpace' gpu' h).trans (stop_channels s vaSpace gpu vaSpace' gpu')
    · rw [vaSpaceOf_setGpuVaSpace, uvmGpuVaSpaceDetachAllChannels, hptr]
      simp only [stop_channels, stop_vaSpaceOf]
      congr

end Unregister

/-! ## What a call keeps -/

section Step

variable (maxChannelVa : ProcessorId → ℕ)

theorem channelInit_objectsWf : ObjectsWf channelInit :=
  ⟨by simp [channelInit, ChannelState.channels], by simp [channelInit, ChannelState.channels]⟩

theorem channelInit_tableCorrect : TableCorrect channelInit := by
  intro gpu instancePtr vaSpace
  simp [ChannelState.vaSpaceOf, uvmGpuInstancePtrToVaSpace, ChannelState.Registered,
    ChannelState.channels, channelInit]

variable {s s' : ChannelState} {gpu : ProcessorId} {vaSpace : VaSpaceId}

private theorem ObjectsWf.of_sublist (h : ObjectsWf s) (hobj : s.nextObject ≤ s'.nextObject)
    (hlist : ∀ vaSpace gpu, (s'.channels vaSpace gpu).Sublist (s.channels vaSpace gpu)) :
    ObjectsWf s' :=
  ⟨fun vaSpace gpu c hc =>
      Nat.lt_of_lt_of_le (h.allocated vaSpace gpu c ((hlist vaSpace gpu).subset hc)) hobj,
    fun vaSpace gpu => (h.distinct vaSpace gpu).sublist (hlist vaSpace gpu)⟩

private theorem RemovesChannels.objectsWf (h : ObjectsWf s)
    (he : RemovesChannels s vaSpace gpu s') : ObjectsWf s' := by
  refine h.of_sublist (le_of_eq he.nextObject.symm) fun vaSpace' gpu' => ?_
  rw [he.channels]
  split
  · exact List.nil_sublist _
  · exact List.Sublist.refl _

private theorem uvmUserChannelDetach_objectsWf (h : ObjectsWf s) (vaSpace : VaSpaceId)
    (gpu : ProcessorId) (c : UserChannel) : ObjectsWf (uvmUserChannelDetach s vaSpace gpu c) := by
  refine h.of_sublist (by simp) fun vaSpace' gpu' => ?_
  rw [channels_detach]
  split
  · exact List.filter_sublist
  · exact List.Sublist.refl _

private theorem uvmRegisterChannel_objectsWf (h : ObjectsWf s) (args : RegisterArgs)
    (out : RegisterOutcome) : ObjectsWf (uvmRegisterChannel maxChannelVa s args out).2 := by
  rcases uvmRegisterChannel_cases maxChannelVa s args out h with
    ⟨-, heq⟩ | ⟨-, -, -, he⟩ | ⟨-, -, -, he⟩
  · rwa [heq]
  · refine h.of_sublist (by rw [he.nextObject]; omega) fun vaSpace gpu => ?_
    exact he.channels ▸ List.Sublist.refl _
  · refine ⟨fun vaSpace gpu c hc => ?_, fun vaSpace gpu => ?_⟩
    · rw [he.nextObject]
      rw [he.channels] at hc
      split at hc
      · rcases List.mem_cons.mp hc with rfl | hc'
        · simp
        · have := h.allocated vaSpace gpu c hc'
          omega
      · have := h.allocated vaSpace gpu c hc
        omega
    · rw [he.channels]
      split
      · refine List.pairwise_cons.mpr ⟨fun d hd => ?_, h.distinct vaSpace gpu⟩
        have := h.allocated vaSpace gpu d hd
        simp only [ne_eq]
        omega
      · exact h.distinct vaSpace gpu

private theorem registerGpuVaSpace_channels (s : ChannelState) (vaSpace : VaSpaceId)
    (gpu : ProcessorId) (create : NvStatus) :
    (uvmVaSpaceRegisterGpuVaSpace s vaSpace gpu create).2.channels = s.channels ∧
      (uvmVaSpaceRegisterGpuVaSpace s vaSpace gpu create).2.vaSpaceOf = s.vaSpaceOf ∧
      (uvmVaSpaceRegisterGpuVaSpace s vaSpace gpu create).2.nextObject = s.nextObject := by
  unfold uvmVaSpaceRegisterGpuVaSpace
  split
  · exact ⟨rfl, rfl, rfl⟩
  · split
    · exact ⟨rfl, rfl, rfl⟩
    · split
      · exact ⟨rfl, rfl, rfl⟩
      · rename_i hnone
        refine ⟨funext₂ fun vaSpace' gpu' => ?_, rfl, rfl⟩
        rw [channels_setGpuVaSpace]
        split
        · rename_i h
          have hnone' : s.gpuVaSpaces vaSpace gpu = none := by simpa using hnone
          simp [ChannelState.channels, h.1, h.2, hnone']
        · rfl

theorem channelStep_objectsWf (s : ChannelState) (op : ChannelOp) (h : ObjectsWf s) :
    ObjectsWf (channelStep maxChannelVa s op) := by
  cases op with
  | registerGpu vaSpace gpu =>
    simp only [channelStep, uvmVaSpaceRegisterGpu]
    split
    · exact h
    · exact ⟨h.allocated, h.distinct⟩
  | unregisterGpu vaSpace gpu =>
    simp only [channelStep, uvmVaSpaceUnregisterGpu]
    split
    · exact h
    · have hrem := (removeGpuVaSpace_effect s vaSpace gpu).objectsWf h
      exact ⟨hrem.allocated, hrem.distinct⟩
  | registerGpuVaSpace vaSpace gpu create =>
    obtain ⟨hlist, -, hobj⟩ := registerGpuVaSpace_channels s vaSpace gpu create
    refine h.of_sublist (le_of_eq hobj.symm) fun vaSpace' gpu' => ?_
    simp only [channelStep, hlist]
    exact List.Sublist.refl _
  | unregisterGpuVaSpace vaSpace gpu =>
    simp only [channelStep, uvmVaSpaceUnregisterGpuVaSpace]
    split
    · exact h
    · exact (removeGpuVaSpace_effect s vaSpace gpu).objectsWf h
  | registerChannel args out => exact uvmRegisterChannel_objectsWf maxChannelVa h args out
  | unregisterChannel vaSpace userRmChannel =>
    simp only [channelStep, uvmUnregisterChannel]
    split
    · exact h
    · exact uvmUserChannelDetach_objectsWf h _ _ _
  | stopAllUserChannels vaSpace => exact ⟨h.allocated, h.distinct⟩

/-- The calls that keep the table correct:
* a registration that gets a channel object succeeds with an instance pointer that no other VA
  space has registered on the GPU, or fails with one that nobody has;
* a channel is unregistered while no other channel of its GPU VA space shares its instance
  pointer. -/
def StepSafe (s : ChannelState) : ChannelOp → Prop
  | .registerChannel args out => RegistrationCreates s args out →
    ∀ vaSpace, s.Registered vaSpace args.gpu out.retained.instancePtr →
      RegistrationAccepted maxChannelVa s args out ∧ vaSpace = args.vaSpace
  | .unregisterChannel vaSpace userRmChannel => ∀ gpu c,
    findUserChannel s vaSpace userRmChannel = some (gpu, c) →
      ∀ d ∈ s.channels vaSpace gpu, d.instancePtr = c.instancePtr → d.object = c.object
  | _ => True

private theorem RemovesChannels.tableCorrect (h : TableCorrect s)
    (he : RemovesChannels s vaSpace gpu s') : TableCorrect s' := by
  have hreg : ∀ vaSpace' gpu' instancePtr, s'.Registered vaSpace' gpu' instancePtr ↔
      ¬ (vaSpace' = vaSpace ∧ gpu' = gpu) ∧ s.Registered vaSpace' gpu' instancePtr := by
    intro vaSpace' gpu' instancePtr
    simp only [ChannelState.Registered, he.channels]
    split
    · rename_i heq
      simp [heq]
    · rename_i hne
      simp [hne]
  intro gpu' instancePtr vaSpace'
  rw [he.vaSpaceOf, hreg]
  by_cases hgone : gpu' = gpu ∧ s.Registered vaSpace gpu instancePtr
  · obtain ⟨rfl, hhere⟩ := hgone
    rw [if_pos ⟨rfl, hhere⟩]
    have hmap := (h gpu' instancePtr vaSpace).mpr hhere
    simp only [reduceCtorEq, false_iff]
    -- a channel left with this instance pointer would be registered in the same VA space
    rintro ⟨hne, hleft⟩
    have hmap' := (h gpu' instancePtr vaSpace').mpr hleft
    rw [hmap] at hmap'
    exact hne ⟨(Option.some.inj hmap').symm, trivial⟩
  · rw [if_neg hgone, h gpu' instancePtr vaSpace']
    refine ⟨fun hr => ⟨?_, hr⟩, fun hr => hr.2⟩
    rintro ⟨rfl, rfl⟩
    exact hgone ⟨rfl, hr⟩

private theorem DropsEntry.tableCorrect_iff {args : RegisterArgs} {out : RegisterOutcome}
    (h : TableCorrect s) (he : DropsEntry s args out s') :
    TableCorrect s' ↔ ∀ vaSpace, ¬ s.Registered vaSpace args.gpu out.retained.instancePtr := by
  constructor
  · intro h' vaSpace hreg
    have := (h' args.gpu out.retained.instancePtr vaSpace).mpr
      (by simpa [ChannelState.Registered, he.channels] using hreg)
    rw [he.vaSpaceOf, if_pos ⟨rfl, rfl⟩] at this
    cases this
  · intro hno gpu instancePtr vaSpace
    rw [he.vaSpaceOf]
    simp only [ChannelState.Registered, he.channels]
    split
    · rename_i heq
      obtain ⟨rfl, rfl⟩ := heq
      simp only [reduceCtorEq, false_iff]
      exact hno vaSpace
    · exact h gpu instancePtr vaSpace

private theorem AddsChannel.tableCorrect_iff {args : RegisterArgs} {out : RegisterOutcome}
    (h : TableCorrect s) (he : AddsChannel s args out s') :
    TableCorrect s' ↔ ∀ vaSpace, s.Registered vaSpace args.gpu out.retained.instancePtr →
      vaSpace = args.vaSpace := by
  have hreg : ∀ vaSpace gpu instancePtr, s'.Registered vaSpace gpu instancePtr ↔
      (vaSpace = args.vaSpace ∧ gpu = args.gpu ∧ instancePtr = out.retained.instancePtr) ∨
        s.Registered vaSpace gpu instancePtr := by
    intro vaSpace gpu instancePtr
    simp only [ChannelState.Registered, he.channels]
    by_cases hhere : vaSpace = args.vaSpace ∧ gpu = args.gpu
    · rw [if_pos hhere]
      simp only [List.mem_cons, exists_eq_or_imp, hhere, true_and]
      simp only [UserChannel.instancePtr, eq_comm]
    · rw [if_neg hhere]
      constructor
      · exact Or.inr
      · rintro (⟨h1, h2, -⟩ | hr)
        · exact absurd ⟨h1, h2⟩ hhere
        · exact hr
  constructor
  · intro h' vaSpace hr
    have h1 := (h' _ _ vaSpace).mpr ((hreg vaSpace args.gpu _).mpr (Or.inr hr))
    have h2 := (h' _ _ args.vaSpace).mpr
      ((hreg args.vaSpace args.gpu _).mpr (Or.inl ⟨rfl, rfl, rfl⟩))
    rw [h1] at h2
    exact Option.some.inj h2
  · intro hsame gpu instancePtr vaSpace
    rw [he.vaSpaceOf, hreg]
    by_cases hhere : gpu = args.gpu ∧ instancePtr = out.retained.instancePtr
    · obtain ⟨rfl, rfl⟩ := hhere
      cases hold : s.vaSpaceOf args.gpu out.retained.instancePtr with
      | none =>
        have hno : ¬ s.Registered vaSpace args.gpu out.retained.instancePtr := by
          intro hr
          rw [(h _ _ vaSpace).mpr hr] at hold
          cases hold
        simp [hno, eq_comm]
      | some owner =>
        -- the entry that is kept is the VA space's own
        have howner := hsame owner ((h _ _ owner).mp hold)
        have hr := h args.gpu out.retained.instancePtr vaSpace
        rw [hold] at hr
        rw [Option.some_or, ← hr, howner]
        simp [eq_comm]
    · rw [if_neg hhere, h gpu instancePtr vaSpace]
      constructor
      · exact Or.inr
      · rintro (⟨-, h1, h2⟩ | hr)
        · exact absurd ⟨h1, h2⟩ hhere
        · exact hr

private theorem unregister_tableCorrect_iff (hwf : ObjectsWf s) (h : TableCorrect s)
    {c : UserChannel} (hc : c ∈ s.channels vaSpace gpu) :
    TableCorrect (uvmUserChannelDetach s vaSpace gpu c) ↔
      ∀ d ∈ s.channels vaSpace gpu, d.instancePtr = c.instancePtr → d.object = c.object := by
  have hreg : ∀ vaSpace' gpu' instancePtr,
      (uvmUserChannelDetach s vaSpace gpu c).Registered vaSpace' gpu' instancePtr ↔
        ∃ d ∈ s.channels vaSpace' gpu', d.instancePtr = instancePtr ∧
          ¬ (vaSpace' = vaSpace ∧ gpu' = gpu ∧ d.object = c.object) := by
    intro vaSpace' gpu' instancePtr
    simp only [ChannelState.Registered, channels_detach]
    split
    · rename_i heq
      obtain ⟨rfl, rfl⟩ := heq
      simp only [List.mem_filter, bne_iff_ne, true_and]
      constructor
      · rintro ⟨d, ⟨hd, hne⟩, hptr⟩
        exact ⟨d, hd, hptr, hne⟩
      · rintro ⟨d, hd, hptr, hne⟩
        exact ⟨d, ⟨hd, hne⟩, hptr⟩
    · rename_i hne
      constructor
      · rintro ⟨d, hd, hptr⟩
        exact ⟨d, hd, hptr, fun heq => hne ⟨heq.1, heq.2.1⟩⟩
      · rintro ⟨d, hd, hptr, -⟩
        exact ⟨d, hd, hptr⟩
  constructor
  · intro h' d hd hptr
    by_contra hne
    have := (h' gpu c.instancePtr vaSpace).mpr
      ((hreg vaSpace gpu c.instancePtr).mpr ⟨d, hd, hptr, fun heq => hne heq.2.2⟩)
    rw [vaSpaceOf_detach, if_pos ⟨rfl, rfl⟩] at this
    cases this
  · intro honly gpu' instancePtr vaSpace'
    rw [vaSpaceOf_detach, hreg]
    by_cases hgone : gpu' = gpu ∧ instancePtr = c.instancePtr
    · obtain ⟨rfl, rfl⟩ := hgone
      rw [if_pos ⟨rfl, rfl⟩]
      simp only [reduceCtorEq, false_iff]
      rintro ⟨d, hd, hptr, hne⟩
      -- the entry was this VA space's, and `c` was its only channel with the pointer
      have h1 := (h gpu' c.instancePtr vaSpace').mpr ⟨d, hd, hptr⟩
      have h2 := (h gpu' c.instancePtr vaSpace).mpr ⟨c, hc, rfl⟩
      rw [h1] at h2
      obtain rfl := Option.some.inj h2
      exact hne ⟨rfl, trivial, honly d hd hptr⟩
    · rw [if_neg hgone, h gpu' instancePtr vaSpace']
      constructor
      · rintro ⟨d, hd, hptr⟩
        refine ⟨d, hd, hptr, ?_⟩
        rintro ⟨rfl, rfl, hobj⟩
        -- the same object is the same channel, with the same instance pointer
        have hdc : d = c := by
          by_contra hne
          have : Std.Symm (fun c d : UserChannel => c.object ≠ d.object) :=
            ⟨fun _ _ h => h.symm⟩
          exact (hwf.distinct vaSpace' gpu').forall hd hc hne hobj
        exact hgone ⟨rfl, by rw [← hptr, hdc]⟩
      · rintro ⟨d, hd, hptr, -⟩
        exact ⟨d, hd, hptr⟩

theorem channelStep_tableCorrect_iff (s : ChannelState) (op : ChannelOp) (hwf : ObjectsWf s)
    (h : TableCorrect s) :
    TableCorrect (channelStep maxChannelVa s op) ↔ StepSafe maxChannelVa s op := by
  cases op with
  | registerGpu vaSpace gpu =>
    refine iff_of_true ?_ trivial
    simp only [channelStep, uvmVaSpaceRegisterGpu]
    split <;> exact h
  | unregisterGpu vaSpace gpu =>
    refine iff_of_true ?_ trivial
    simp only [channelStep, uvmVaSpaceUnregisterGpu]
    split
    · exact h
    · have hrem := (removeGpuVaSpace_effect s vaSpace gpu).tableCorrect h
      exact hrem
  | registerGpuVaSpace vaSpace gpu create =>
    refine iff_of_true ?_ trivial
    obtain ⟨hlist, hptr, -⟩ := registerGpuVaSpace_channels s vaSpace gpu create
    intro gpu' instancePtr vaSpace'
    simp only [channelStep, ChannelState.Registered, hlist, hptr]
    exact h gpu' instancePtr vaSpace'
  | unregisterGpuVaSpace vaSpace gpu =>
    refine iff_of_true ?_ trivial
    simp only [channelStep, uvmVaSpaceUnregisterGpuVaSpace]
    split
    · exact h
    · exact (removeGpuVaSpace_effect s vaSpace gpu).tableCorrect h
  | registerChannel args out =>
    simp only [channelStep]
    rcases uvmRegisterChannel_cases maxChannelVa s args out hwf with
      ⟨hno, heq⟩ | ⟨hcr, hacc, -, he⟩ | ⟨hcr, hacc, -, he⟩
    · rw [heq]
      exact iff_of_true h (fun hc => absurd hc hno)
    · rw [he.tableCorrect_iff h]
      exact ⟨fun hnone _ va hr => absurd hr (hnone va), fun hs va hr =>
        hacc (hs hcr va hr).1⟩
    · rw [he.tableCorrect_iff h]
      exact ⟨fun hsame _ va hr => ⟨hacc, hsame va hr⟩, fun hs va hr => (hs hcr va hr).2⟩
  | unregisterChannel vaSpace userRmChannel =>
    simp only [channelStep, uvmUnregisterChannel]
    split
    · rename_i hnone
      exact iff_of_true h (fun gpu c hf => by simp [hnone] at hf)
    · rename_i gpu c hf
      rw [unregister_tableCorrect_iff hwf h (findUserChannel_mem hf)]
      constructor
      · intro honly gpu' c' hf'
        rw [hf] at hf'
        cases hf'
        exact honly
      · exact fun hs => hs gpu c hf
  | stopAllUserChannels vaSpace => exact iff_of_true h trivial

/-- **The instance pointer table over whole runs.**  From the start, the table is correct at
the end of every call of a sequence if and only if every call of it is safe. -/
theorem tableCorrect_along_iff (ops : List ChannelOp) :
    HoldsAlong (channelStep maxChannelVa) TableCorrect channelInit ops ↔
      StepsMeet (channelStep maxChannelVa) (StepSafe maxChannelVa) channelInit ops :=
  holds_along_iff (channelStep maxChannelVa) channelInit_objectsWf channelInit_tableCorrect
    (channelStep_objectsWf maxChannelVa) (channelStep_tableCorrect_iff maxChannelVa) ops

end Step

/-! ## A registration that drops another channel's entry -/

private def demoRetained : RetainedChannel := ⟨⟨.vid, 4096, by decide⟩, 1, by decide⟩

private def demoArgs : RegisterArgs := ⟨0, 1, ⟨1, 1⟩, 4096, 4096⟩

private def demoOutcome : RegisterOutcome :=
  ⟨true, .ok, demoRetained, .ok, true, .ok, .ok, .ok, .ok⟩

/-- Registering a channel, and then once more: the second call fails because the handles are
in use, and takes the first call's entry with it. -/
theorem registerChannel_twice_drops_entry :
    ¬ HoldsAlong (channelStep fun _ => 2 ^ 40) TableCorrect channelInit
      [.registerGpu 0 ⟨1, by decide⟩, .registerGpuVaSpace 0 ⟨1, by decide⟩ .ok,
        .registerChannel demoArgs demoOutcome, .registerChannel demoArgs demoOutcome] := by
  intro h
  have hlast := h _ (List.prefix_refl _) ⟨1, by decide⟩ demoRetained.instancePtr 0
  have hchans : (run (channelStep fun _ => 2 ^ 40) channelInit
      [.registerGpu 0 ⟨1, by decide⟩, .registerGpuVaSpace 0 ⟨1, by decide⟩ .ok,
        .registerChannel demoArgs demoOutcome, .registerChannel demoArgs demoOutcome]).channels 0
      ⟨1, by decide⟩ = [⟨0, ⟨1, 1⟩, demoRetained⟩] := by
    rfl
  have hentry := hlast.mpr ⟨⟨0, ⟨1, 1⟩, demoRetained⟩, by rw [hchans]; simp, rfl⟩
  cases hentry

end NvUvm
