import NvUvm.ChannelRegister

/-!
# The invariant of the channel calls

What a call in progress relies on (`Pc.Right`), and that every section of a call keeps the invariant
of the VA space and what the other calls rely on (`SectionRight`).
-/

namespace NvUvm.ChannelLife

open Space
open Function (update update_of_ne update_self)

/-! ## What a call relies on -/

/-- A stopped channel, which is on its list unless another thread has detached it. -/
structure Stopped (s : Space) (ch : ℕ) : Prop where
  created : ch < s.channelCount
  isBound : (s.channels ch).isBound = false
  registered : ∀ g, (s.channels ch).gpuVaSpace = some g → s.Registered g ch

/-- What a call relies on when it retakes the lock. -/
def Pc.Right (s : Space) : Pc → Prop
  | .start _ => True
  | .registerChannel ch g _ _ => InHands s g ch
  | .registerChannelFailed ch => Stopped s ch
  | .unregisterChannel ch => Stopped s ch
  | .unregisterGpuVaSpace g =>
    g < s.gpuVaSpaceCount ∧ (s.gpuVaSpaces g).disallowNewChannels = true
  | .unregisterGpu gpu => s.gpuRegisterInProgress gpu = true ∧
    ∀ g, s.registeredGpuVaSpaces gpu = some g → (s.gpuVaSpaces g).disallowNewChannels = true
  | .destroy => s.userChannelsStopped = true
  | .cleanup _ => True

/-- The channels in the hands of a call: one that is not listed yet, and those to be destroyed. -/
def Pc.owns : Pc → ℕ → ℕ
  | .registerChannel ch _ _ _, other => if other = ch then 1 else 0
  | .cleanup userChannels, other => userChannels.count other
  | .start _, _ => 0
  | .registerChannelFailed _, _ => 0
  | .unregisterChannel _, _ => 0
  | .unregisterGpuVaSpace _, _ => 0
  | .unregisterGpu _, _ => 0
  | .destroy, _ => 0

def Pc.unregisters : Pc → ProcessorId → ℕ
  | .unregisterGpu gpu, other => if other = gpu then 1 else 0
  | .start _, _ => 0
  | .registerChannel _ _ _ _, _ => 0
  | .registerChannelFailed _, _ => 0
  | .unregisterChannel _, _ => 0
  | .unregisterGpuVaSpace _, _ => 0
  | .destroy, _ => 0
  | .cleanup _, _ => 0

/-- The channel that a call has made and not listed. -/
def Pc.making : Pc → ℕ → Prop
  | .registerChannel ch _ _ _, other => other = ch
  | .start _, _ => False
  | .registerChannelFailed _, _ => False
  | .unregisterChannel _, _ => False
  | .unregisterGpuVaSpace _, _ => False
  | .unregisterGpu _, _ => False
  | .destroy, _ => False
  | .cleanup _, _ => False

def Pc.unregistering (pc : Pc) (gpu : ProcessorId) : Prop := 0 < pc.unregisters gpu

variable {ch g : ℕ} {pc : Pc} {s : Space} {gpu : ProcessorId} {o : Outcome}

theorem Pc.owns_pos_of_making (h : pc.making ch) : 0 < pc.owns ch := by
  cases pc with
  | registerChannel other g base last =>
    have heq : ch = other := h
    change 0 < (if ch = other then 1 else 0)
    rw [if_pos heq]
    exact Nat.one_pos
  | _ => exact h.elim

def ofBool (b : Bool) : ℕ := if b then 1 else 0

/-- A section of a call keeps the invariant, what the other calls rely on, and the places where the
channels are. -/
structure SectionRight (s : Space) (pc : Pc) (s' : Space) (pc' : Pc) : Prop where
  inv : SpaceInv s'
  evolves : Evolves pc.making pc.unregistering s s'
  right : pc'.Right s'
  owned : ∀ ch, s'.owned ch + pc'.owns ch + ofBool (ch < s.channelCount) =
    s.owned ch + pc.owns ch + ofBool (ch < s'.channelCount)
  unregisters : ∀ gpu, pc'.unregisters gpu + ofBool (s.gpuRegisterInProgress gpu) =
    pc.unregisters gpu + ofBool (s'.gpuRegisterInProgress gpu)

theorem SectionRight.moves {s' : Space} {pc' : Pc} (hinv : SpaceInv s')
    (hevolves : Evolves pc.making pc.unregistering s s') (hright : pc'.Right s')
    (howned : ∀ ch, s'.owned ch + pc'.owns ch = s.owned ch + pc.owns ch)
    (hcnt : s'.channelCount = s.channelCount)
    (hprog : s'.gpuRegisterInProgress = s.gpuRegisterInProgress)
    (hunreg : ∀ gpu, pc'.unregisters gpu = pc.unregisters gpu) : SectionRight s pc s' pc' where
  inv := hinv
  evolves := hevolves
  right := hright
  owned := fun ch => by rw [howned ch, hcnt]
  unregisters := fun gpu => by rw [hunreg gpu, hprog]

theorem SectionRight.nothing {pc' : Pc} (h : SpaceInv s) (hright : pc'.Right s)
    (howns : ∀ ch, pc'.owns ch = pc.owns ch)
    (hunreg : ∀ gpu, pc'.unregisters gpu = pc.unregisters gpu) : SectionRight s pc s pc' :=
  .moves h (Evolves.refl _ _ s) hright (fun ch => by rw [howns ch]) rfl rfl hunreg

/-! ## Channels that are not bound -/

theorem SpaceInv.unbound_of_disallow (h : SpaceInv s)
    (hdis : (s.gpuVaSpaces g).disallowNewChannels = true) (hreg : s.Registered g ch) :
    (s.channels ch).isBound = false := by
  by_contra hb
  obtain ⟨⟨g', hreg', hdis'⟩, -, -⟩ := h.bound ch (Bool.not_eq_false _ |>.mp hb)
  have hg := (h.listed g ch hreg).2.1
  rw [(h.listed g' ch hreg').2.1] at hg
  rw [Option.some.inj hg, hdis] at hdis'
  cases hdis'

theorem SpaceInv.unbound_of_stopped (h : SpaceInv s) (hstop : s.userChannelsStopped = true)
    (ch : ℕ) : (s.channels ch).isBound = false := by
  by_contra hb
  have hrun := (h.bound ch (Bool.not_eq_false _ |>.mp hb)).running
  rw [hstop] at hrun
  cases hrun

theorem mem_attachedGpuVaSpaces :
    g ∈ s.attachedGpuVaSpaces ↔ ∃ gpu, s.registeredGpuVaSpaces gpu = some g := by
  unfold attachedGpuVaSpaces
  rw [List.mem_filterMap]
  exact ⟨fun ⟨gpu, _, hg⟩ => ⟨gpu, hg⟩, fun ⟨gpu, hg⟩ => ⟨gpu, List.mem_finRange gpu, hg⟩⟩

theorem SpaceInv.mem_attached (h : SpaceInv s) (hreg : s.Registered g ch) :
    g ∈ s.attachedGpuVaSpaces := by
  have hatt := (h.listed g ch hreg).2.2.2
  exact mem_attachedGpuVaSpaces.mpr ⟨_, (h.attached g hatt).2⟩

theorem registered_of_findUserChannel {handle : ℕ × ℕ} (h : s.findUserChannel handle = some ch) :
    ∃ g, s.Registered g ch := by
  obtain ⟨g, -, hg⟩ := List.exists_of_findSome?_eq_some h
  exact ⟨g, List.mem_of_find?_eq_some hg⟩

theorem stops_stopEach (l : List ℕ) (s : Space) :
    Stops s (l.foldl (fun s g => (s.gpuVaSpaces g).registeredChannels.foldl stop s) s) ∧
      ∀ g ∈ l, ∀ ch, s.Registered g ch → (s.channels ch).instancePtrDesc ≠ 0 →
        ((l.foldl (fun s g => (s.gpuVaSpaces g).registeredChannels.foldl stop s) s).channels
          ch).isBound = false := by
  induction l generalizing s with
  | nil => exact ⟨Stops.refl s, fun g hg => (by cases hg)⟩
  | cons first rest ih =>
    obtain ⟨hfirst, hstop⟩ := stops_stopAll (s.gpuVaSpaces first).registeredChannels s
    obtain ⟨hrest, hall⟩ := ih ((s.gpuVaSpaces first).registeredChannels.foldl stop s)
    refine ⟨hfirst.trans hrest, fun g hg ch hreg hdesc => ?_⟩
    rcases List.mem_cons.mp hg with rfl | hg
    · by_contra hb
      have hb' := hrest.isBound ch (Bool.not_eq_false _ |>.mp hb)
      rw [hstop ch hreg hdesc] at hb'
      cases hb'
    · refine hall g hg ch ?_ (by rwa [hfirst.instancePtrDesc ch])
      unfold Space.Registered
      rw [hfirst.gpuVaSpaces]
      exact hreg

/-- What `uvm_va_space_stop_all_user_channels` leaves. -/
structure StopsAllUser (s s' : Space) : Prop where
  inv : SpaceInv s'
  evolves : ∀ X Y, Evolves X Y s s'
  owned : ∀ ch, s'.owned ch = s.owned ch
  stopped : s'.userChannelsStopped = true
  channelCount : s'.channelCount = s.channelCount
  inProgress : s'.gpuRegisterInProgress = s.gpuRegisterInProgress

theorem stopAllUserChannels_spec (h : SpaceInv s) : StopsAllUser s s.stopAllUserChannels := by
  unfold Space.stopAllUserChannels
  by_cases hstop : s.userChannelsStopped = true
  · rw [if_pos hstop]
    exact ⟨h, fun X Y => Evolves.refl X Y s, fun _ => rfl, hstop, rfl, rfl⟩
  rw [if_neg hstop]
  obtain ⟨hstops, hall⟩ := stops_stopEach s.attachedGpuVaSpaces s
  have hinv := h.of_stops hstops
  have hevolves : ∀ X Y, Evolves X Y s (s.attachedGpuVaSpaces.foldl
      (fun s g => (s.gpuVaSpaces g).registeredChannels.foldl stop s) s) :=
    fun X Y => hstops.evolves h
  generalize s.attachedGpuVaSpaces.foldl
      (fun s g => (s.gpuVaSpaces g).registeredChannels.foldl stop s) s = a at *
  have hunbound : ∀ ch, (a.channels ch).isBound = false := by
    intro ch
    by_contra hb
    obtain ⟨⟨g, hreg, -⟩, -, -⟩ := hinv.bound ch (Bool.not_eq_false _ |>.mp hb)
    have hreg' : s.Registered g ch := by
      unfold Space.Registered at hreg ⊢
      rwa [hstops.gpuVaSpaces] at hreg
    have hdesc := (h.known ch g (h.listed g ch hreg').2.1).1
    exact hb (hall g (h.mem_attached hreg') ch hreg' hdesc)
  refine ⟨⟨⟨hinv.nodup, hinv.listed, hinv.ranged, fun ch hb => ?_, hinv.known, hinv.attached,
    hinv.lookup, hinv.unmapped, hinv.written, hinv.log⟩, ?_⟩, fun X Y => (hevolves X Y).trans ?_,
    hstops.owned, rfl, by rw [hstops.rest], by rw [hstops.rest]⟩
  · rw [hunbound ch] at hb
    cases hb
  · exact hinv.refs.congr rfl rfl rfl (fun _ => rfl) (fun _ => rfl) (uses_congr rfl fun _ => rfl)
  · exact ⟨le_refl _, le_refl _, fun _ _ _ _ => rfl, fun _ _ _ hb => hb,
      fun _ _ _ _ hg => ⟨hg, id⟩, fun _ _ hd => hd, fun _ => rfl,
      fun _ _ hp => ⟨hp, fun _ hg => hg⟩⟩

/-! ## Registering and unregistering GPUs -/

/-- What `unregister_gpu` leaves of a GPU whose channels are stopped. -/
structure UnregistersGpu (gpu : ProcessorId) (s s' : Space) (deferred : List ℕ) : Prop where
  inv : SpaceInv s'
  evolves : ∀ X Y, Evolves X Y s s'
  owned : ∀ ch, s'.owned ch + deferred.count ch = s.owned ch
  channelCount : s'.channelCount = s.channelCount
  inProgress : s'.gpuRegisterInProgress = s.gpuRegisterInProgress
  gone : s'.registeredGpuVaSpaces gpu = none
  isBound : ∀ ch, (s'.channels ch).isBound = (s.channels ch).isBound
  registered : ∀ g ch, s'.Registered g ch → s.Registered g ch

theorem setRegisteredGpus (h : SpaceInv s) (registeredGpus : ProcessorMask) :
    SpaceInv { s with registeredGpus := registeredGpus } ∧
      ∀ X Y, Evolves X Y s { s with registeredGpus := registeredGpus } :=
  ⟨⟨⟨h.nodup, h.listed, h.ranged, fun ch hb => ⟨(h.bound ch hb).registered, (h.bound ch hb).mapped,
      (h.bound ch hb).running⟩, h.known, h.attached, h.lookup, h.unmapped, h.written, h.log⟩,
    h.refs.congr rfl rfl rfl (fun _ => rfl) (fun _ => rfl) (uses_congr rfl fun _ => rfl)⟩,
    fun _ _ => ⟨le_refl _, le_refl _, fun _ _ _ _ => rfl, fun _ _ _ hb => hb,
      fun _ _ _ _ hg => ⟨hg, id⟩, fun _ _ hd => hd, id, fun _ _ hp => ⟨hp, fun _ hg => hg⟩⟩⟩

theorem unregisterGpu_spec (h : SpaceInv s)
    (hstop : ∀ g, s.registeredGpuVaSpaces gpu = some g → ∀ ch, s.Registered g ch →
      (s.channels ch).isBound = false) :
    UnregistersGpu gpu s (s.unregisterGpu gpu).1 (s.unregisterGpu gpu).2 := by
  unfold Space.unregisterGpu
  cases hlook : s.registeredGpuVaSpaces gpu with
  | none =>
    obtain ⟨hinv, hevolves⟩ :=
      setRegisteredGpus h (update s.registeredGpus gpu false)
    exact ⟨hinv, hevolves, fun _ => by simp; rfl, rfl, rfl, hlook, fun _ => rfl, fun _ _ hr => hr⟩
  | some g =>
    dsimp only
    have hr := removeGpuVaSpace_spec h (hstop g hlook)
    generalize s.removeGpuVaSpace g = removed at hr ⊢
    obtain ⟨hinv, hevolves⟩ :=
      setRegisteredGpus hr.inv (update removed.1.registeredGpus gpu false)
    refine ⟨hinv, fun X Y => (hr.evolves X Y).trans (hevolves X Y), hr.owned, ?_, hr.inProgress, ?_,
      hr.isBound, hr.registered⟩
    · exact hr.channelCount
    · -- the GPU VA space it had is gone
      by_contra hne
      obtain ⟨g', hg'⟩ := Option.ne_none_iff_exists'.mp hne
      have hold := hr.lookup gpu g' hg'
      rw [hlook] at hold
      obtain rfl := Option.some.inj hold
      have hatt := (hr.inv.lookup gpu g hg').1
      rw [hr.gone] at hatt
      cases hatt

/-! ## Destroying the VA space -/

/-- What becomes of the VA space when it is destroyed. -/
structure Empties (s s' : Space) (deferred : List ℕ) : Prop where
  inv : SpaceInv s'
  owned : ∀ ch, s'.owned ch + deferred.count ch = s.owned ch
  channelCount : s'.channelCount = s.channelCount
  inProgress : s'.gpuRegisterInProgress = s.gpuRegisterInProgress
  evolves : ∀ X Y, Evolves X Y s s'
  isBound : ∀ ch, (s'.channels ch).isBound = (s.channels ch).isBound

theorem detachEach_spec {l : List ℕ} {s₀ : Space} {deferred : List ℕ} (h : Empties s₀ s deferred)
    (hstop : ∀ ch, (s.channels ch).isBound = false) :
    Empties s₀ (detachEach l s deferred).1 (detachEach l s deferred).2 ∧
      ∀ g ch, (detachEach l s deferred).1.Registered g ch → s.Registered g ch ∧ g ∉ l := by
  induction l generalizing s deferred with
  | nil => exact ⟨h, fun g ch hr => ⟨hr, by simp⟩⟩
  | cons first rest ih =>
    obtain ⟨hd, hnone⟩ := detachAllChannels_spec h.inv (g := first) fun ch _ => hstop ch
    have hnext : Empties s₀ (s.detachAllChannels first).1
        (deferred ++ (s.detachAllChannels first).2) :=
      { inv := hd.inv
        owned := fun ch => by
          have hbefore := h.owned ch
          have hstep := hd.owned ch
          rw [List.count_append]
          omega
        channelCount := hd.channelCount.trans h.channelCount
        inProgress := hd.inProgress.trans h.inProgress
        evolves := fun X Y => (h.evolves X Y).trans (hd.evolves X Y)
        isBound := fun ch => (hd.isBound ch).trans (h.isBound ch) }
    obtain ⟨hempties, hreg⟩ := ih hnext fun ch => (hd.isBound ch).trans (hstop ch)
    refine ⟨hempties, fun g ch hr => ?_⟩
    obtain ⟨hmid, hnot⟩ := hreg g ch hr
    obtain ⟨hold, -⟩ := (hd.registered g ch).mp hmid
    refine ⟨hold, fun hmem => ?_⟩
    rcases List.mem_cons.mp hmem with rfl | hmem
    · exact hnone ch hmid
    · exact hnot hmem

theorem unregisterEach_spec {l : List ProcessorId} {s₀ : Space} {deferred : List ℕ}
    (h : Empties s₀ s deferred) (hnone : ∀ g ch, ¬ s.Registered g ch) :
    Empties s₀ (unregisterEach l s deferred).1 (unregisterEach l s deferred).2 ∧
      ∀ g ch, ¬ (unregisterEach l s deferred).1.Registered g ch := by
  induction l generalizing s deferred with
  | nil => exact ⟨h, hnone⟩
  | cons first rest ih =>
    have hu : UnregistersGpu first s (s.unregisterGpu first).1 (s.unregisterGpu first).2 :=
      unregisterGpu_spec h.inv fun g _ ch hr => (hnone g ch hr).elim
    refine ih { inv := hu.inv
                owned := fun ch => ?_
                channelCount := hu.channelCount.trans h.channelCount
                inProgress := hu.inProgress.trans h.inProgress
                evolves := fun X Y => (h.evolves X Y).trans (hu.evolves X Y)
                isBound := fun ch => (hu.isBound ch).trans (h.isBound ch) }
      fun g ch hr => hnone g ch (hu.registered g ch hr)
    have hbefore := h.owned ch
    have hstep := hu.owned ch
    rw [List.count_append]
    omega

theorem destroySection_spec (h : SpaceInv s) (hstop : s.userChannelsStopped = true) :
    ∃ deferred, (destroySection s).pc = .cleanup deferred ∧
      Empties s (destroySection s).space deferred ∧
      ∀ g ch, ¬ (destroySection s).space.Registered g ch := by
  have hunbound := h.unbound_of_stopped hstop
  have hstart : Empties s s [] :=
    ⟨h, fun _ => by simp, rfl, rfl, fun X Y => Evolves.refl X Y s, fun _ => rfl⟩
  obtain ⟨hdetached, hreg⟩ := detachEach_spec (l := s.attachedGpuVaSpaces) hstart hunbound
  have hnone : ∀ g ch, ¬ (detachEach s.attachedGpuVaSpaces s []).1.Registered g ch := by
    intro g ch hr
    obtain ⟨hold, hnot⟩ := hreg g ch hr
    exact hnot (h.mem_attached hold)
  -- without channels no range is in use
  have htree : (detachEach s.attachedGpuVaSpaces s []).1.vaRangeTree = [] := by
    refine List.eq_nil_iff_forall_not_mem.mpr fun r hr => ?_
    obtain ⟨ch, -, hr', -, -⟩ := hdetached.inv.exists_user hr
    exact hnone _ ch hr'
  unfold destroySection
  dsimp only
  rw [htree, List.foldl_nil]
  have hdone := unregisterEach_spec (l := (detachEach s.attachedGpuVaSpaces s []).1.gpus)
    hdetached hnone
  exact ⟨_, rfl, hdone.1, hdone.2⟩

/-! ## The sections of the calls -/

theorem SpaceInv.setInProgress (h : SpaceInv s) (inProgress : ProcessorMask) :
    SpaceInv { s with gpuRegisterInProgress := inProgress } :=
  ⟨⟨h.nodup, h.listed, h.ranged, fun ch hb => ⟨(h.bound ch hb).registered, (h.bound ch hb).mapped,
      (h.bound ch hb).running⟩, h.known, h.attached, h.lookup, h.unmapped, h.written, h.log⟩,
    h.refs.congr rfl rfl rfl (fun _ => rfl) (fun _ => rfl) (uses_congr rfl fun _ => rfl)⟩

theorem registerGpuSection_right (h : SpaceInv s) (gpu : ProcessorId) :
    SectionRight s (.start (.registerGpu gpu)) (registerGpuSection s gpu).space
      (registerGpuSection s gpu).pc := by
  obtain ⟨hinv, hevolves⟩ := setRegisteredGpus h (update s.registeredGpus gpu true)
  exact .moves hinv (hevolves _ _) trivial (fun _ => rfl) rfl rfl fun _ => rfl

theorem unregisterGpuStart_right (h : SpaceInv s) (gpu : ProcessorId) :
    SectionRight s (.start (.unregisterGpu gpu)) (unregisterGpuStart s gpu).space
      (unregisterGpuStart s gpu).pc := by
  unfold unregisterGpuStart
  by_cases hallowed : (s.registeredGpus gpu && !s.gpuRegisterInProgress gpu) = true
  swap
  · rw [if_neg hallowed]
    exact .nothing h trivial (fun _ => rfl) fun _ => rfl
  rw [if_pos hallowed]
  have hprog : s.gpuRegisterInProgress gpu = false := by
    simp only [Bool.and_eq_true, Bool.not_eq_true'] at hallowed
    exact hallowed.2
  have hself : update s.gpuRegisterInProgress gpu true gpu = true :=
    update_self ..
  have hother : ∀ other, other ≠ gpu →
      update s.gpuRegisterInProgress gpu true other = s.gpuRegisterInProgress other :=
    fun other hne => update_of_ne hne ..
  have hinv := h.setInProgress (update s.gpuRegisterInProgress gpu true)
  have hevolves : ∀ X Y, Evolves X Y s
      { s with gpuRegisterInProgress := update s.gpuRegisterInProgress gpu true } := by
    intro X Y
    refine ⟨le_refl _, le_refl _, fun _ _ _ _ => rfl, fun _ _ _ hb => hb,
      fun _ _ _ _ hg => ⟨hg, id⟩, fun _ _ hd => hd, id, fun other _ hp => ⟨?_, fun _ hg => hg⟩⟩
    by_cases heq : other = gpu
    · exact heq ▸ hself
    · exact (hother other heq).trans hp
  have hunreg : ∀ other, (Pc.unregisterGpu gpu).unregisters other +
      ofBool (s.gpuRegisterInProgress other) =
        0 + ofBool (update s.gpuRegisterInProgress gpu true other) := by
    intro other
    change (if other = gpu then 1 else 0) + _ = _
    by_cases heq : other = gpu
    · subst heq
      rw [if_pos rfl, hprog, hself]
      rfl
    · rw [if_neg heq, hother other heq]
  dsimp only
  cases hlook : s.registeredGpuVaSpaces gpu with
  | none =>
    refine ⟨hinv, hevolves _ _, ⟨hself, fun g hg => ?_⟩, fun _ => rfl, hunreg⟩
    have hg' : s.registeredGpuVaSpaces gpu = some g := hg
    rw [hlook] at hg'
    cases hg'
  | some g =>
    have hstop := stopAllChannels_spec hinv g
    refine ⟨hstop.inv, (hevolves _ _).trans (hstop.evolves _ _), ⟨?_, fun g' hg' => ?_⟩,
      fun ch => ?_, fun other => ?_⟩
    · rw [hstop.inProgress]
      exact hself
    · rw [hstop.lookup] at hg'
      have heq := hlook.symm.trans hg'
      rw [← Option.some.inj heq]
      exact hstop.disallow
    · rw [hstop.owned ch, hstop.channelCount]
      rfl
    · rw [hstop.inProgress]
      exact hunreg other

theorem registerGpuVaSpaceSection_right (h : SpaceInv s) (gpu : ProcessorId) (o : Outcome) :
    SectionRight s (.start (.registerGpuVaSpace gpu)) (registerGpuVaSpaceSection s gpu o).space
      (registerGpuVaSpaceSection s gpu o).pc := by
  unfold registerGpuVaSpaceSection
  by_cases hallowed : (s.registeredGpus gpu && (s.registeredGpuVaSpaces gpu).isNone &&
      !s.gpuRegisterInProgress gpu && o.gpuVaSpaceCreated) = true
  swap
  · rw [if_neg hallowed]
    exact .nothing h trivial (fun _ => rfl) fun _ => rfl
  rw [if_pos hallowed]
  simp only [Bool.and_eq_true, Bool.not_eq_true', Option.isNone_iff_eq_none] at hallowed
  obtain ⟨⟨⟨-, hnone⟩, hprog⟩, -⟩ := hallowed
  obtain ⟨hinv, hevolves, hempty⟩ := newGpuVaSpace_spec h hnone hprog
  cases o.gpuVaSpaceMapped with
  | true => exact .moves hinv (hevolves _ _) trivial (fun _ => rfl) rfl rfl fun _ => rfl
  | false =>
    -- the GPU VA space goes as it came
    have hr := removeGpuVaSpace_spec hinv (g := s.gpuVaSpaceCount) fun ch hr => (hempty ch hr).elim
    exact .moves hr.inv ((hevolves _ _).trans (hr.evolves _ _)) trivial hr.owned hr.channelCount
      hr.inProgress fun _ => rfl

theorem unregisterGpuVaSpaceStart_right (h : SpaceInv s) (gpu : ProcessorId) :
    SectionRight s (.start (.unregisterGpuVaSpace gpu)) (unregisterGpuVaSpaceStart s gpu).space
      (unregisterGpuVaSpaceStart s gpu).pc := by
  unfold unregisterGpuVaSpaceStart
  cases hlook : s.registeredGpuVaSpaces gpu with
  | none => exact .nothing h trivial (fun _ => rfl) fun _ => rfl
  | some g =>
    have hstop := stopAllChannels_spec h g
    have hlt : g < (s.stopAllChannels g).gpuVaSpaceCount := by
      rw [hstop.gpuVaSpaceCount]
      exact (h.attached g (h.lookup gpu g hlook).1).1
    exact .moves hstop.inv (hstop.evolves _ _) ⟨hlt, hstop.disallow⟩ hstop.owned
      hstop.channelCount hstop.inProgress fun _ => rfl

theorem unregisterChannelStart_right (h : SpaceInv s) (handle : ℕ × ℕ) :
    SectionRight s (.start (.unregisterChannel handle)) (unregisterChannelStart s handle).space
      (unregisterChannelStart s handle).pc := by
  unfold unregisterChannelStart
  cases hfind : s.findUserChannel handle with
  | none => exact .nothing h trivial (fun _ => rfl) fun _ => rfl
  | some ch =>
    obtain ⟨g, hreg⟩ := registered_of_findUserChannel hfind
    obtain ⟨hlt, hg, -, -⟩ := h.listed g ch hreg
    obtain ⟨hstops, hunbound⟩ := stops_stop s ch
    dsimp only
    refine .moves (h.of_stops hstops) (hstops.evolves h) ⟨?_, ?_, fun g' hg' => ?_⟩ hstops.owned
      (by rw [hstops.rest]) (by rw [hstops.rest]) fun _ => rfl
    · rw [hstops.rest]
      exact hlt
    · exact hunbound (h.known ch g hg).1
    · rw [hstops.gpuVaSpace, hg] at hg'
      rw [← Option.some.inj hg']
      unfold Space.Registered
      rw [hstops.gpuVaSpaces]
      exact hreg

theorem stopAllUserChannels_right (h : SpaceInv s) (request : Request)
    (hright : s.stopAllUserChannels.userChannelsStopped = true → pc.Right s.stopAllUserChannels)
    (howns : ∀ ch, pc.owns ch = 0) (hunreg : ∀ gpu, pc.unregisters gpu = 0) :
    SectionRight s (.start request) s.stopAllUserChannels pc := by
  have hstop := stopAllUserChannels_spec h
  exact .moves hstop.inv (hstop.evolves _ _) (hright hstop.stopped)
    (fun ch => by rw [howns ch, hstop.owned ch]; rfl) hstop.channelCount hstop.inProgress hunreg

theorem registerChannelStart_right (h : SpaceInv s) {handle : ℕ × ℕ} {base length : ℕ}
    (hrm : RmDescribes o) (hnone : (s.channels s.channelCount).vaRanges = none) :
    SectionRight s (.start (.registerChannel gpu handle base length))
      (registerChannelStart s gpu handle base length o).space
      (registerChannelStart s gpu handle base length o).pc := by
  unfold registerChannelStart
  by_cases hinvalid : rangeInvalid base length = true
  · rw [if_pos hinvalid]
    exact .nothing h trivial (fun _ => rfl) fun _ => rfl
  rw [if_neg hinvalid]
  rcases s.registeredGpuVaSpaces gpu with _ | g
  · exact .nothing h trivial (fun _ => rfl) fun _ => rfl
  dsimp only
  have hcreate : Creates g s (s.userChannelCreate g handle o).1 (s.userChannelCreate g handle o).2 :=
    userChannelCreate_spec h hrm hnone
  generalize s.userChannelCreate g handle o = result at hcreate ⊢
  obtain ⟨s', _ | ch⟩ := result
  · -- the channel was not made, or is destroyed already
    refine ⟨hcreate.inv, hcreate.evolves _ _, trivial, fun other => ?_, fun gpu' => ?_⟩
    · change s'.owned other + 0 + _ = s.owned other + 0 + _
      rcases hcreate.destroyed rfl with hsame | ⟨hnext, howned⟩
      · rcases Nat.lt_or_ge other s.channelCount with hlt | hge
        · rw [hcreate.owned other hlt, hsame]
        · rw [hcreate.fresh other (by rw [hsame]; exact hge), hsame]
      · rw [hnext]
        rcases Nat.lt_trichotomy other s.channelCount with hlt | rfl | hgt
        · rw [hcreate.owned other hlt]
          simp [ofBool, hlt, Nat.lt_succ_of_lt hlt]
        · rw [howned]
          simp [ofBool]
        · rw [hcreate.fresh other (by rw [hnext]; exact hgt)]
          have hnot : ¬ other < s.channelCount + 1 := Nat.not_lt.mpr hgt
          have hnot' : ¬ other < s.channelCount := Nat.not_lt.mpr (Nat.le_of_lt hgt)
          simp [ofBool, hnot, hnot']
    · rw [hcreate.inProgress]
      rfl
  · obtain ⟨hch, hcnt, hg, hranges, hbound, howned⟩ := hcreate.made ch rfl
    refine ⟨hcreate.inv, hcreate.evolves _ _, ⟨⟨?_, hg, hbound⟩, hranges⟩, fun other => ?_,
      fun gpu' => ?_⟩
    · rw [hcnt]
      exact Nat.lt_succ_self ch
    · change s'.owned other + (if other = ch then 1 else 0) + _ = s.owned other + 0 + _
      rw [hcnt, hch]
      rcases Nat.lt_trichotomy other ch with hlt | rfl | hgt
      · rw [hcreate.owned other (hch ▸ hlt), if_neg (Nat.ne_of_lt hlt)]
        simp [ofBool, hlt, Nat.lt_succ_of_lt hlt]
      · rw [howned]
        simp [ofBool]
      · rw [hcreate.fresh other (by rw [hcnt]; exact hgt), if_neg (Nat.ne_of_gt hgt)]
        have hnot : ¬ other < ch + 1 := Nat.not_lt.mpr hgt
        have hnot' : ¬ other < ch := Nat.not_lt.mpr (Nat.le_of_lt hgt)
        simp [ofBool, hnot, hnot']
    · rw [hcreate.inProgress]
      rfl

theorem SpaceInv.forget (h : SpaceInv s) (hh : InHands s g ch) :
    SpaceInv (s.setChannel ch { s.channels ch with gpuVaSpace := none }) ∧
      (∀ X : ℕ → Prop, X ch → ∀ Y, Evolves X Y s
        (s.setChannel ch { s.channels ch with gpuVaSpace := none })) ∧
      ∀ other, (s.setChannel ch { s.channels ch with gpuVaSpace := none }).owned other =
        s.owned other := by
  have hno := hh.unregistered h.toChannelsRight
  have hself : (s.setChannel ch { s.channels ch with gpuVaSpace := none }).channels ch =
      { s.channels ch with gpuVaSpace := none } := update_self ..
  have hother : ∀ other, other ≠ ch →
      (s.setChannel ch { s.channels ch with gpuVaSpace := none }).channels other =
        s.channels other := fun other hne => update_of_ne hne ..
  have hranges : ∀ other,
      ((s.setChannel ch { s.channels ch with gpuVaSpace := none }).channels other).vaRanges =
        (s.channels other).vaRanges := by
    intro other
    by_cases heq : other = ch
    · rw [heq, hself]
    · rw [hother other heq]
  have hbound : ∀ other,
      ((s.setChannel ch { s.channels ch with gpuVaSpace := none }).channels other).isBound =
        (s.channels other).isBound := by
    intro other
    by_cases heq : other = ch
    · rw [heq, hself]
    · rw [hother other heq]
  refine ⟨⟨⟨h.nodup, fun g' other hr => ?_, fun other l hl => ?_, fun other hb => ?_,
    fun other g' hg' => ?_, h.attached, h.lookup, h.unmapped, h.written, h.log⟩, ?_⟩,
    fun X hX Y => ?_, fun other => ?_⟩
  · have hne : other ≠ ch := by
      rintro rfl
      exact hno g' hr
    rw [hother other hne]
    exact h.listed g' other hr
  · rw [hranges] at hl
    exact h.ranged other l hl
  · rw [hbound] at hb
    obtain ⟨hreg, hm, hrun⟩ := h.bound other hb
    refine ⟨hreg, fun l hl => ?_, hrun⟩
    rw [hranges] at hl
    exact hm l hl
  · by_cases heq : other = ch
    · rw [heq, hself] at hg'
      cases hg'
    · rw [hother other heq] at hg' ⊢
      exact h.known other g' hg'
  · exact h.refs.congr rfl rfl rfl (fun _ => rfl) (fun _ => rfl) (uses_congr rfl hranges)
  · have hother' : ∀ other, ¬ X other →
        (s.setChannel ch { s.channels ch with gpuVaSpace := none }).channels other =
          s.channels other := fun other hnX => hother other fun heq => hnX (heq ▸ hX)
    exact ⟨le_refl _, le_refl _, fun other hnX _ _ => hother' other hnX,
      fun other hnX _ hb => by rwa [hother' other hnX] at hb,
      fun other g' hnX _ hg' => ⟨by rwa [hother' other hnX] at hg', id⟩, fun _ _ hd => hd, id,
      fun _ _ hp => ⟨hp, fun _ hg' => hg'⟩⟩
  · unfold Space.owned
    rw [hranges]
    rfl

theorem count_one (ch other : ℕ) : [ch].count other = if other = ch then 1 else 0 := by
  by_cases heq : other = ch
  · rw [heq, if_pos rfl, List.count_singleton_self]
  · rw [if_neg heq, List.count_eq_zero]
    simpa using heq

theorem registerChannelSection_right (h : SpaceInv s) {base last : ℕ} (hh : InHands s g ch) :
    SectionRight s (.registerChannel ch g base last)
      (registerChannelSection s ch g base last o).space
      (registerChannelSection s ch g base last o).pc := by
  have hmaking : (Pc.registerChannel ch g base last).making ch := rfl
  unfold registerChannelSection
  by_cases hatt : (s.gpuVaSpaces g).attached = true
  swap
  · rw [if_neg hatt]
    obtain ⟨hinv, hevolves, howned⟩ := h.forget hh
    refine .moves hinv (hevolves _ hmaking _) trivial (fun other => ?_) rfl rfl fun _ => rfl
    rw [howned other]
    exact congrArg (s.owned other + ·) (count_one ch other)
  rw [if_pos hatt]
  have hw : RegistersUnderWrite g ch s (s.registerUnderWrite ch g base last o).1
      (s.registerUnderWrite ch g base last o).2 := registerUnderWrite_spec h hh hatt
  generalize s.registerUnderWrite ch g base last o = written at hw ⊢
  obtain ⟨a, _ | _⟩ := written
  · -- nothing is left of the ranges, the channel goes
    have hhA := hw.failed rfl
    have hd := hhA.toDetachable
    obtain ⟨honly, -⟩ := detach_spec hw.inv.refs hd.gpuVaSpace hd.created
    refine .moves (hw.inv.detach hd) ((hw.evolves _ hmaking _).trans
      (detach_evolves hw.inv hd fun _ => hmaking)) trivial (fun other => ?_)
      (honly.channelCount.trans hw.channelCount)
      (honly.gpuRegisterInProgress.trans hw.inProgress) fun _ => rfl
    have howned := hw.owned other
    have hdetach := detach_owned hw.inv hd other
    rw [hhA.vaRanges] at hdetach
    simp only [Option.isSome_none, Bool.false_eq_true, and_false, if_false, Nat.add_zero,
      false_and] at hdetach howned
    change (a.detach ch).owned other + [ch].count other = s.owned other + if other = ch then 1 else 0
    rw [hdetach, howned, count_one]
  · dsimp only
    have hl := hw.listed rfl
    have hr : RegistersUnderRead g ch a (a.registerUnderRead ch o).1 (a.registerUnderRead ch o).2 :=
      registerUnderRead_spec hw.inv hl
    generalize a.registerUnderRead ch o = bound at hr ⊢
    have howned : ∀ other, bound.1.owned other + 0 =
        s.owned other + if other = ch then 1 else 0 := by
      intro other
      have hwritten := hw.owned other
      simp only [true_and] at hwritten
      rw [Nat.add_zero, hr.owned other, hwritten]
    have hevolves : Evolves (Pc.registerChannel ch g base last).making
        (Pc.registerChannel ch g base last).unregistering s bound.1 :=
      (hw.evolves _ hmaking _).trans (hr.evolves _ hmaking _)
    have hcnts := hr.channelCount.trans hw.channelCount
    have hprog := hr.inProgress.trans hw.inProgress
    obtain ⟨b, _ | _⟩ := bound
    · obtain ⟨hreg, hunbound⟩ := hr.failed rfl
      obtain ⟨hlt, hg, -, -⟩ := hr.inv.listed g ch hreg
      refine .moves hr.inv hevolves ⟨hlt, hunbound, fun g' hg' => ?_⟩ howned hcnts hprog
        fun _ => rfl
      rw [hg] at hg'
      rwa [← Option.some.inj hg']
    · exact .moves hr.inv hevolves trivial howned hcnts hprog fun _ => rfl

theorem detachSection_right (h : SpaceInv s) (hs : Stopped s ch)
    (howns : ∀ other, pc.owns other = 0) (hunreg : ∀ gpu, pc.unregisters gpu = 0) :
    SectionRight s pc (detachSection s ch).space (detachSection s ch).pc := by
  unfold detachSection
  cases hg : (s.channels ch).gpuVaSpace with
  | none => exact .nothing h trivial (fun other => (howns other).symm) fun gpu => (hunreg gpu).symm
  | some g =>
    have hsome := (h.listed g ch (hs.registered g hg)).2.2.1
    have hd : Detachable s g ch := ⟨hs.created, hg, hs.isBound⟩
    obtain ⟨honly, -⟩ := detach_spec h.refs hg hs.created
    refine .moves (h.detach hd) (detach_evolves h hd fun hnone => ?_) trivial (fun other => ?_)
      honly.channelCount honly.gpuRegisterInProgress fun gpu => (hunreg gpu).symm
    · rw [hnone] at hsome
      cases hsome
    · have hdetach := detach_owned h hd other
      rw [howns other, Nat.add_zero, ← hdetach]
      change (s.detach ch).owned other + [ch].count other =
        (s.detach ch).owned other +
          if other = ch ∧ (s.channels ch).vaRanges.isSome = true then 1 else 0
      rw [count_one]
      by_cases heq : other = ch
      · rw [if_pos heq, if_pos ⟨heq, hsome⟩]
      · rw [if_neg heq, if_neg fun hn => heq hn.1]

theorem unregisterGpuSection_right (h : SpaceInv s) (hright : (Pc.unregisterGpu gpu).Right s) :
    SectionRight s (.unregisterGpu gpu) (unregisterGpuSection s gpu).space
      (unregisterGpuSection s gpu).pc := by
  obtain ⟨hprog, hdis⟩ := hright
  have hu : UnregistersGpu gpu s (s.unregisterGpu gpu).1 (s.unregisterGpu gpu).2 :=
    unregisterGpu_spec h fun g hg ch hr => h.unbound_of_disallow (hdis g hg) hr
  unfold unregisterGpuSection
  generalize s.unregisterGpu gpu = removed at hu ⊢
  have hself : update removed.1.gpuRegisterInProgress gpu false gpu = false :=
    update_self ..
  have hother : ∀ other, other ≠ gpu → update removed.1.gpuRegisterInProgress gpu false other =
        s.gpuRegisterInProgress other := fun other hne => by
    rw [← hu.inProgress]
    exact update_of_ne hne ..
  refine ⟨hu.inv.setInProgress _, ?_, trivial, fun ch => ?_, fun other => ?_⟩
  · refine (hu.evolves _ _).trans ⟨le_refl _, le_refl _, fun _ _ _ _ => rfl, fun _ _ _ hb => hb,
      fun _ _ _ _ hg => ⟨hg, id⟩, fun _ _ hd => hd, id, fun other hY hp => ⟨?_, fun _ hg => hg⟩⟩
    -- the call is done with this GPU
    have hne : other ≠ gpu := by
      rintro rfl
      refine hY ?_
      change 0 < (if other = other then 1 else 0)
      rw [if_pos rfl]
      exact Nat.one_pos
    rw [hu.inProgress] at hp
    exact (hother other hne).trans hp
  · change removed.1.owned ch + removed.2.count ch + _ = s.owned ch + 0 + _
    rw [hu.owned ch, hu.channelCount]
    rfl
  · change 0 + _ = (if other = gpu then 1 else 0) +
      ofBool (update removed.1.gpuRegisterInProgress gpu false other)
    by_cases heq : other = gpu
    · subst heq
      rw [if_pos rfl, hself, hprog]
      rfl
    · rw [if_neg heq, hother other heq]

theorem cleanup_right (h : SpaceInv s) (ch : ℕ) (rest : List ℕ) :
    SectionRight s (.cleanup (ch :: rest)) (s.record (.channelDestroyed ch)) (.cleanup rest) := by
  refine .moves ⟨⟨h.nodup, h.listed, h.ranged, fun other hb => ?_, h.known, h.attached, h.lookup,
    h.unmapped, h.written, fun e he => ?_⟩, ?_⟩ ?_ trivial (fun other => ?_) rfl rfl fun _ => rfl
  · exact ⟨(h.bound other hb).registered, (h.bound other hb).mapped, (h.bound other hb).running⟩
  · rcases List.mem_cons.mp he with rfl | he
    · trivial
    · exact h.log e he
  · exact h.refs.congr rfl rfl rfl (fun _ => rfl) (fun r => List.count_cons_of_ne (by simp))
      (uses_congr rfl fun _ => rfl)
  · exact ⟨le_refl _, le_refl _, fun _ _ _ _ => rfl, fun _ _ _ hb => hb,
      fun _ _ _ _ hg => ⟨hg, id⟩, fun _ _ hd => hd, id, fun _ _ hp => ⟨hp, fun _ hg => hg⟩⟩
  · change _ + (Event.channelDestroyed ch :: s.log).count _ + rest.count other =
      _ + s.log.count _ + (ch :: rest).count other
    rw [List.count_cons, List.count_cons]
    by_cases heq : ch = other
    · simp only [heq, beq_self_eq_true]
      change (if (s.channels other).vaRanges.isSome then 1 else 0) + _ + _ =
        (if (s.channels other).vaRanges.isSome then 1 else 0) + _ + _
      omega
    · simp only [beq_eq_false_iff_ne.mpr heq, beq_eq_false_iff_ne.mpr fun hn =>
        heq (Event.channelDestroyed.inj hn)]
      rfl

theorem advance_right (h : SpaceInv s) (hright : pc.Right s) (hrm : RmDescribes o)
    (hnone : (s.channels s.channelCount).vaRanges = none) :
    SectionRight s pc (advance s o pc).space (advance s o pc).pc := by
  cases pc with
  | start request =>
    cases request with
    | registerGpu gpu => exact registerGpuSection_right h gpu
    | unregisterGpu gpu => exact unregisterGpuStart_right h gpu
    | registerGpuVaSpace gpu => exact registerGpuVaSpaceSection_right h gpu o
    | unregisterGpuVaSpace gpu => exact unregisterGpuVaSpaceStart_right h gpu
    | registerChannel gpu handle base length => exact registerChannelStart_right h hrm hnone
    | unregisterChannel handle => exact unregisterChannelStart_right h handle
    | stopAllUserChannels =>
      exact stopAllUserChannels_right h _ (fun _ => trivial) (fun _ => rfl) fun _ => rfl
    | destroy => exact stopAllUserChannels_right h _ id (fun _ => rfl) fun _ => rfl
  | registerChannel ch g base last => exact registerChannelSection_right h hright
  | registerChannelFailed ch => exact detachSection_right h hright (fun _ => rfl) fun _ => rfl
  | unregisterChannel ch => exact detachSection_right h hright (fun _ => rfl) fun _ => rfl
  | unregisterGpuVaSpace g =>
    have hr := removeGpuVaSpace_spec h fun ch hr => h.unbound_of_disallow hright.2 hr
    exact .moves hr.inv (hr.evolves _ _) trivial hr.owned hr.channelCount hr.inProgress fun _ => rfl
  | unregisterGpu gpu => exact unregisterGpuSection_right h hright
  | destroy =>
    obtain ⟨deferred, hpc, hempties, -⟩ := destroySection_spec h hright
    change SectionRight s .destroy (destroySection s).space (destroySection s).pc
    rw [hpc]
    exact .moves hempties.inv (hempties.evolves _ _) trivial hempties.owned hempties.channelCount
      hempties.inProgress fun _ => rfl
  | cleanup userChannels =>
    cases userChannels with
    | nil => exact .nothing h trivial (fun _ => rfl) fun _ => rfl
    | cons ch rest => exact cleanup_right h ch rest

end NvUvm.ChannelLife
