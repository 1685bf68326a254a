import NvUvm.ChannelCalls
import NvUvm.ChannelInv

/-!
# The sections of the channel calls

What each section under the VA space lock does to the invariant of the VA space, to what the other
calls rely on, and to the channels in the hands of the call.
-/

namespace NvUvm.ChannelLife

open Space
open Function (update update_of_ne update_self)

/-! ## Detaching many channels -/

/-- The channels of a list are detached. -/
structure Detaches (l : List ℕ) (s s' : Space) : Prop where
  inv : SpaceInv s'
  evolves : ∀ X Y, Evolves X Y s s'
  registered : ∀ g ch, s'.Registered g ch ↔ s.Registered g ch ∧ ch ∉ l
  owned : ∀ ch, s'.owned ch + l.count ch = s.owned ch
  isBound : ∀ ch, (s'.channels ch).isBound = (s.channels ch).isBound
  channelCount : s'.channelCount = s.channelCount
  gpuVaSpaceCount : s'.gpuVaSpaceCount = s.gpuVaSpaceCount
  attached : ∀ g, (s'.gpuVaSpaces g).attached = (s.gpuVaSpaces g).attached
  gpu : ∀ g, (s'.gpuVaSpaces g).gpu = (s.gpuVaSpaces g).gpu
  lookup : s'.registeredGpuVaSpaces = s.registeredGpuVaSpaces
  registeredGpus : s'.registeredGpus = s.registeredGpus
  inProgress : s'.gpuRegisterInProgress = s.gpuRegisterInProgress
  stopped : s'.userChannelsStopped = s.userChannelsStopped

variable {s : Space}

theorem detachAll_spec {l : List ℕ} (hnd : l.Nodup) (h : SpaceInv s)
    (hl : ∀ ch ∈ l, (s.channels ch).isBound = false ∧ ∃ g, s.Registered g ch) :
    Detaches l s (l.foldl detach s) := by
  induction l generalizing s with
  | nil =>
    exact ⟨h, fun X Y => Evolves.refl X Y s, fun _ _ => by simp, fun _ => by simp, fun _ => rfl, rfl,
      rfl, fun _ => rfl, fun _ => rfl, rfl, rfl, rfl, rfl⟩
  | cons ch rest ih =>
    obtain ⟨hfirst, hrest⟩ := List.nodup_cons.mp hnd
    obtain ⟨hbound, g, hreg⟩ := hl ch List.mem_cons_self
    obtain ⟨hlt, hg, hsome, -⟩ := h.listed g ch hreg
    have hd : Detachable s g ch := ⟨hlt, hg, hbound⟩
    have honly := (detach_spec h.refs hg hlt).1
    have hsame : ∀ other, ((s.detach ch).channels other).isBound = (s.channels other).isBound := by
      intro other
      rw [detach_channel h hd other]
      by_cases heq : other = ch
      · rw [if_pos heq, heq]
      · rw [if_neg heq]
    obtain ⟨hinv, hevolves, hregistered, howned, hisBound, hcnt, hgcount, hatt, hgpu, hlook, hgpus,
        hprog, hstop⟩ := ih hrest (h.detach hd) fun other hmem => by
      obtain ⟨hb, g', hr⟩ := hl other (List.mem_cons_of_mem _ hmem)
      have hne : other ≠ ch := fun heq => hfirst (heq ▸ hmem)
      exact ⟨by rwa [hsame], g', (detach_registered h hd g' other).mpr ⟨hr, hne⟩⟩
    refine ⟨hinv, fun X Y => ?_, fun g' other => ?_, fun other => ?_, fun other => ?_, ?_, ?_,
      fun g' => ?_, fun g' => ?_, ?_, ?_, ?_, ?_⟩
    · refine (detach_evolves h hd fun hnone => ?_).trans (hevolves X Y)
      rw [hnone] at hsome
      cases hsome
    · rw [List.foldl_cons, hregistered g' other, detach_registered h hd, List.mem_cons, not_or]
      exact and_assoc
    · have hdetach := detach_owned h hd other
      have hrest := howned other
      rw [List.foldl_cons, List.count_cons]
      by_cases heq : other = ch
      · subst heq
        rw [if_pos ⟨rfl, hsome⟩] at hdetach
        simp only [beq_self_eq_true, if_true]
        omega
      · have hne : (ch == other) = false := beq_eq_false_iff_ne.mpr fun hn => heq hn.symm
        rw [if_neg fun hn => heq hn.1] at hdetach
        rw [hne]
        simp only [Bool.false_eq_true, if_false]
        omega
    · exact (hisBound other).trans (hsame other)
    · exact hcnt.trans honly.channelCount
    · exact hgcount.trans honly.gpuVaSpaceCount
    · exact (hatt g').trans (detach_attached h hd g')
    · exact (hgpu g').trans (detach_gpu h hd g')
    · exact hlook.trans honly.registeredGpuVaSpaces
    · exact hgpus.trans honly.registeredGpus
    · exact hprog.trans honly.gpuRegisterInProgress
    · exact hstop.trans honly.userChannelsStopped

theorem detachAllChannels_spec (h : SpaceInv s) {g : ℕ}
    (hstop : ∀ ch, s.Registered g ch → (s.channels ch).isBound = false) :
    Detaches (s.detachAllChannels g).2 s (s.detachAllChannels g).1 ∧
      ∀ ch, ¬ (s.detachAllChannels g).1.Registered g ch := by
  have hd : Detaches (s.gpuVaSpaces g).registeredChannels s
      ((s.gpuVaSpaces g).registeredChannels.foldl detach s) :=
    detachAll_spec (h.nodup g) h fun ch hch => ⟨hstop ch hch, g, hch⟩
  refine ⟨hd, fun ch hr => ?_⟩
  obtain ⟨hr, hnot⟩ := (hd.registered g ch).mp hr
  exact hnot hr

/-! ## GPU VA spaces -/

/-- A GPU VA space without channels leaves the VA space. -/
def Space.withoutGpuVaSpace (s : Space) (g : ℕ) : Space :=
  let s := { s with
    registeredGpuVaSpaces := update s.registeredGpuVaSpaces (s.gpuVaSpaces g).gpu none }
  s.setGpuVaSpace g { s.gpuVaSpaces g with attached := false }

section Without

variable {s : Space} {g : ℕ}

theorem withoutGpuVaSpace_gpuVaSpace (g' : ℕ) : (s.withoutGpuVaSpace g).gpuVaSpaces g' =
    { s.gpuVaSpaces g' with attached := if g' = g then false else (s.gpuVaSpaces g').attached } := by
  change update s.gpuVaSpaces g _ g' = _
  by_cases heq : g' = g
  · subst heq
    rw [update_self, if_pos rfl]
  · rw [update_of_ne heq, if_neg heq]

theorem withoutGpuVaSpace_registered (g' ch : ℕ) :
    (s.withoutGpuVaSpace g).Registered g' ch ↔ s.Registered g' ch := by
  unfold Space.Registered
  rw [withoutGpuVaSpace_gpuVaSpace]

theorem SpaceInv.withoutGpuVaSpace (h : SpaceInv s) (hatt : (s.gpuVaSpaces g).attached = true)
    (hnone : ∀ ch, ¬ s.Registered g ch) : SpaceInv (s.withoutGpuVaSpace g) := by
  have hgvs := withoutGpuVaSpace_gpuVaSpace (s := s) (g := g)
  have hreg := withoutGpuVaSpace_registered (s := s) (g := g)
  have hlook : ∀ gpu, (s.withoutGpuVaSpace g).registeredGpuVaSpaces gpu =
      if gpu = (s.gpuVaSpaces g).gpu then none else s.registeredGpuVaSpaces gpu := by
    intro gpu
    change update s.registeredGpuVaSpaces _ none gpu = _
    by_cases heq : gpu = (s.gpuVaSpaces g).gpu
    · rw [heq, update_self, if_pos rfl]
    · rw [update_of_ne heq, if_neg heq]
  refine ⟨⟨fun g' => ?_, fun g' ch hr => ?_, fun ch l hl => ?_, fun ch hb => ?_, h.known,
    fun g' hatt' => ?_, fun gpu g' hg' => ?_, h.unmapped, h.written, h.log⟩, ?_⟩
  · rw [hgvs]
    exact h.nodup g'
  · have hr := (hreg g' ch).mp hr
    obtain ⟨hlt, hg', hsome, hatt'⟩ := h.listed g' ch hr
    have hne : g' ≠ g := fun heq => hnone ch (heq ▸ hr)
    rw [hgvs, if_neg hne]
    exact ⟨hlt, hg', hsome, hatt'⟩
  · obtain ⟨g', hr, hrest⟩ := h.ranged ch l hl
    exact ⟨g', (hreg g' ch).mpr hr, hrest⟩
  · obtain ⟨⟨g', hr, hdis⟩, hm, hrun⟩ := h.bound ch hb
    refine ⟨⟨g', (hreg g' ch).mpr hr, ?_⟩, hm, hrun⟩
    rw [hgvs]
    exact hdis
  · rw [hgvs] at hatt'
    by_cases heq : g' = g
    · rw [if_pos heq] at hatt'
      cases hatt'
    · rw [if_neg heq] at hatt'
      obtain ⟨hlt, hl⟩ := h.attached g' hatt'
      refine ⟨hlt, ?_⟩
      rw [hgvs, hlook, if_neg]
      · exact hl
      · intro hsame
        -- a GPU has one GPU VA space
        have hother := (h.attached g hatt).2
        rw [← hsame, hl] at hother
        exact heq (Option.some.inj hother)
  · rw [hlook] at hg'
    by_cases heq : gpu = (s.gpuVaSpaces g).gpu
    · rw [if_pos heq] at hg'
      cases hg'
    · rw [if_neg heq] at hg'
      obtain ⟨hatt', hgpu⟩ := h.lookup gpu g' hg'
      have hne : g' ≠ g := fun hn => heq (hn ▸ hgpu.symm)
      rw [hgvs, if_neg hne]
      exact ⟨hatt', hgpu⟩
  · refine h.refs.congr rfl rfl rfl (fun g' => ?_) (fun _ => rfl) (uses_congr rfl fun _ => rfl)
    rw [hgvs]

theorem withoutGpuVaSpace_evolves (X : ℕ → Prop) (Y : ProcessorId → Prop) :
    Evolves X Y s (s.withoutGpuVaSpace g) := by
  refine ⟨le_refl _, le_refl _, fun _ _ _ _ => rfl, fun _ _ _ hb => hb, fun ch g' _ _ hg' => ?_,
    fun g' _ hdis => ?_, id, fun gpu _ hp => ⟨hp, fun g' hg' => ?_⟩⟩
  · exact ⟨hg', (withoutGpuVaSpace_registered g' ch).mpr⟩
  · rw [withoutGpuVaSpace_gpuVaSpace]
    exact hdis
  · have hlook : update s.registeredGpuVaSpaces (s.gpuVaSpaces g).gpu none gpu =
        some g' := hg'
    by_cases heq : gpu = (s.gpuVaSpaces g).gpu
    · rw [heq, update_self] at hlook
      cases hlook
    · rwa [update_of_ne heq] at hlook

end Without

/-- What `remove_gpu_va_space` leaves of a GPU VA space whose channels are stopped. -/
structure Removes (g : ℕ) (s s' : Space) (deferred : List ℕ) : Prop where
  inv : SpaceInv s'
  evolves : ∀ X Y, Evolves X Y s s'
  owned : ∀ ch, s'.owned ch + deferred.count ch = s.owned ch
  gone : (s'.gpuVaSpaces g).attached = false
  lookup : ∀ gpu g', s'.registeredGpuVaSpaces gpu = some g' →
    s.registeredGpuVaSpaces gpu = some g'
  channelCount : s'.channelCount = s.channelCount
  gpuVaSpaceCount : s'.gpuVaSpaceCount = s.gpuVaSpaceCount
  registeredGpus : s'.registeredGpus = s.registeredGpus
  inProgress : s'.gpuRegisterInProgress = s.gpuRegisterInProgress
  isBound : ∀ ch, (s'.channels ch).isBound = (s.channels ch).isBound
  registered : ∀ g' ch, s'.Registered g' ch → s.Registered g' ch

theorem removeGpuVaSpace_spec (h : SpaceInv s) {g : ℕ}
    (hstop : ∀ ch, s.Registered g ch → (s.channels ch).isBound = false) :
    Removes g s (s.removeGpuVaSpace g).1 (s.removeGpuVaSpace g).2 := by
  unfold removeGpuVaSpace
  by_cases hatt : (s.gpuVaSpaces g).attached = true
  · rw [if_pos hatt]
    obtain ⟨hd, hnone⟩ := detachAllChannels_spec h hstop
    have hatt' : ((s.detachAllChannels g).1.gpuVaSpaces g).attached = true := by
      rw [hd.attached]
      exact hatt
    refine ⟨hd.inv.withoutGpuVaSpace hatt' hnone,
      fun X Y => (hd.evolves X Y).trans (withoutGpuVaSpace_evolves X Y), hd.owned, ?_,
      fun gpu g' hg' => ?_, hd.channelCount, hd.gpuVaSpaceCount, hd.registeredGpus, hd.inProgress,
      hd.isBound,
      fun g' ch hr => ?_⟩
    · change (((s.detachAllChannels g).1.withoutGpuVaSpace g).gpuVaSpaces g).attached = false
      rw [withoutGpuVaSpace_gpuVaSpace, if_pos rfl]
    · have hlook : update (s.detachAllChannels g).1.registeredGpuVaSpaces
          ((s.detachAllChannels g).1.gpuVaSpaces g).gpu none gpu = some g' := hg'
      by_cases heq : gpu = ((s.detachAllChannels g).1.gpuVaSpaces g).gpu
      · rw [heq, update_self] at hlook
        cases hlook
      · rw [update_of_ne heq, hd.lookup] at hlook
        exact hlook
    · exact ((hd.registered g' ch).mp ((withoutGpuVaSpace_registered g' ch).mp hr)).1
  · rw [if_neg hatt]
    exact ⟨h, fun X Y => Evolves.refl X Y s, fun _ => by simp, Bool.not_eq_true _ |>.mp hatt,
      fun _ _ hg' => hg', rfl, rfl, rfl, rfl, fun _ => rfl, fun _ _ hr => hr⟩

/-! ## Stopping the channels of a GPU VA space -/

/-- What `gpu_va_space_stop_all_channels` leaves. -/
structure StopsAll (g : ℕ) (s s' : Space) : Prop where
  inv : SpaceInv s'
  evolves : ∀ X Y, Evolves X Y s s'
  owned : ∀ ch, s'.owned ch = s.owned ch
  disallow : (s'.gpuVaSpaces g).disallowNewChannels = true
  lookup : s'.registeredGpuVaSpaces = s.registeredGpuVaSpaces
  inProgress : s'.gpuRegisterInProgress = s.gpuRegisterInProgress
  gpuVaSpaceCount : s'.gpuVaSpaceCount = s.gpuVaSpaceCount
  channelCount : s'.channelCount = s.channelCount

theorem stopAllChannels_spec (h : SpaceInv s) (g : ℕ) : StopsAll g s (s.stopAllChannels g) := by
  obtain ⟨hstops, hall⟩ := stops_stopAll (s.gpuVaSpaces g).registeredChannels s
  have hinv := h.of_stops hstops
  have hevolves : ∀ X Y, Evolves X Y s ((s.gpuVaSpaces g).registeredChannels.foldl stop s) :=
    fun X Y => hstops.evolves h
  have howned := hstops.owned
  unfold stopAllChannels
  have hstop : ∀ ch, ((s.gpuVaSpaces g).registeredChannels.foldl stop s).Registered g ch →
      (((s.gpuVaSpaces g).registeredChannels.foldl stop s).channels ch).isBound = false := by
    intro ch hr
    unfold Space.Registered at hr
    rw [hstops.gpuVaSpaces] at hr
    exact hall ch hr (h.known ch g (h.listed g ch hr).2.1).1
  have hlook : ((s.gpuVaSpaces g).registeredChannels.foldl stop s).registeredGpuVaSpaces =
      s.registeredGpuVaSpaces := by rw [hstops.rest]
  have hprog : ((s.gpuVaSpaces g).registeredChannels.foldl stop s).gpuRegisterInProgress =
      s.gpuRegisterInProgress := by rw [hstops.rest]
  have hcnt : ((s.gpuVaSpaces g).registeredChannels.foldl stop s).gpuVaSpaceCount =
      s.gpuVaSpaceCount := by rw [hstops.rest]
  have hchans : ((s.gpuVaSpaces g).registeredChannels.foldl stop s).channelCount =
      s.channelCount := by rw [hstops.rest]
  generalize (s.gpuVaSpaces g).registeredChannels.foldl stop s = a at *
  dsimp only
  have hgvs : ∀ g', update a.gpuVaSpaces g
      { a.gpuVaSpaces g with disallowNewChannels := true } g' =
      { a.gpuVaSpaces g' with disallowNewChannels :=
          if g' = g then true else (a.gpuVaSpaces g').disallowNewChannels } := by
    intro g'
    by_cases heq : g' = g
    · subst heq
      rw [update_self, if_pos rfl]
    · rw [update_of_ne heq, if_neg heq]
  have hreg : ∀ g' ch, (a.setGpuVaSpace g { a.gpuVaSpaces g with
      disallowNewChannels := true }).Registered g' ch ↔ a.Registered g' ch := by
    intro g' ch
    change ch ∈ (update a.gpuVaSpaces g _ g').registeredChannels ↔ _
    rw [hgvs]
    rfl
  refine ⟨⟨⟨fun g' => ?_, fun g' ch hr => ?_, fun ch l hl => ?_, fun ch hb => ?_, hinv.known,
    fun g' hatt => ?_, fun gpu g' hg' => ?_, hinv.unmapped, hinv.written, hinv.log⟩, ?_⟩,
    fun X Y => ?_, howned, ?_, hlook, hprog, hcnt, hchans⟩
  · change (update a.gpuVaSpaces g _ g').registeredChannels.Nodup
    rw [hgvs]
    exact hinv.nodup g'
  · change _ ∧ _ ∧ _ ∧ (update a.gpuVaSpaces g _ g').attached = true
    rw [hgvs]
    exact hinv.listed g' ch ((hreg g' ch).mp hr)
  · obtain ⟨g', hr, hrest⟩ := hinv.ranged ch l hl
    exact ⟨g', (hreg g' ch).mpr hr, hrest⟩
  · obtain ⟨⟨g', hr, hdis⟩, hm, hrun⟩ := hinv.bound ch hb
    refine ⟨⟨g', (hreg g' ch).mpr hr, ?_⟩, hm, hrun⟩
    -- the channels of this GPU VA space are not bound
    have hne : g' ≠ g := by
      rintro rfl
      exact absurd (hb.symm.trans (hstop ch hr)) (by simp)
    change (update a.gpuVaSpaces g _ g').disallowNewChannels = false
    rw [hgvs, if_neg hne]
    exact hdis
  · have hatt' : (update a.gpuVaSpaces g
        { a.gpuVaSpaces g with disallowNewChannels := true } g').attached = true := hatt
    change _ ∧ a.registeredGpuVaSpaces (update a.gpuVaSpaces g _ g').gpu = some g'
    rw [hgvs] at hatt' ⊢
    exact hinv.attached g' hatt'
  · change (update a.gpuVaSpaces g _ g').attached = true ∧ (update a.gpuVaSpaces g _ g').gpu = gpu
    rw [hgvs]
    exact hinv.lookup gpu g' hg'
  · refine hinv.refs.congr rfl rfl rfl (fun g' => ?_) (fun _ => rfl) (uses_congr rfl fun _ => rfl)
    change (update a.gpuVaSpaces g _ g').localChannelRanges = _
    rw [hgvs]
  · refine (hevolves X Y).trans ⟨le_refl _, le_refl _, fun _ _ _ _ => rfl, fun _ _ _ hb => hb,
      fun ch g' _ _ hg' => ⟨hg', (hreg g' ch).mpr⟩, fun g' _ hdis => ?_, id,
      fun _ _ hp => ⟨hp, fun _ hg' => hg'⟩⟩
    change (update a.gpuVaSpaces g _ g').disallowNewChannels = true
    rw [hgvs]
    split
    · rfl
    · exact hdis
  · change (update a.gpuVaSpaces g _ g).disallowNewChannels = true
    rw [update_self]

/-! ## A new GPU VA space -/

/-- The GPU VA space that `uvm_va_space_register_gpu_va_space` adds. -/
def Space.withGpuVaSpace (s : Space) (gpu : ProcessorId) : Space :=
  { s with
    gpuVaSpaces := update s.gpuVaSpaces s.gpuVaSpaceCount ⟨gpu, true, false, [], []⟩
    gpuVaSpaceCount := s.gpuVaSpaceCount + 1
    registeredGpuVaSpaces :=
      update s.registeredGpuVaSpaces gpu (some s.gpuVaSpaceCount) }

theorem SpaceInv.fresh (h : SpaceInv s) : (∀ ch, ¬ s.Registered s.gpuVaSpaceCount ch) ∧
      (s.gpuVaSpaces s.gpuVaSpaceCount).localChannelRanges = [] := by
  have hnone : ∀ ch, ¬ s.Registered s.gpuVaSpaceCount ch := by
    intro ch hr
    have hatt := (h.listed _ ch hr).2.2.2
    exact Nat.lt_irrefl _ (h.attached _ hatt).1
  refine ⟨hnone, List.eq_nil_iff_forall_not_mem.mpr fun r hr => ?_⟩
  obtain ⟨htree, -, hg⟩ := (h.refs.localRange _ r).mp hr
  obtain ⟨ch, -, hreg, -, -⟩ := h.exists_user htree
  rw [hg] at hreg
  exact hnone ch hreg

theorem newGpuVaSpace_spec (h : SpaceInv s) {gpu : ProcessorId}
    (hnone : s.registeredGpuVaSpaces gpu = none) (hprog : s.gpuRegisterInProgress gpu = false) :
    SpaceInv (s.withGpuVaSpace gpu) ∧ (∀ X Y, Evolves X Y s (s.withGpuVaSpace gpu)) ∧
      ∀ ch, ¬ (s.withGpuVaSpace gpu).Registered s.gpuVaSpaceCount ch := by
  obtain ⟨hfresh, hlocals⟩ := h.fresh
  have hself : (s.withGpuVaSpace gpu).gpuVaSpaces s.gpuVaSpaceCount = ⟨gpu, true, false, [], []⟩ :=
    update_self ..
  have hother : ∀ g, g ≠ s.gpuVaSpaceCount →
      (s.withGpuVaSpace gpu).gpuVaSpaces g = s.gpuVaSpaces g :=
    fun g hne => update_of_ne hne ..
  have hreg : ∀ g ch, (s.withGpuVaSpace gpu).Registered g ch ↔ s.Registered g ch := by
    intro g ch
    unfold Space.Registered
    by_cases heq : g = s.gpuVaSpaceCount
    · subst heq
      rw [hself]
      exact ⟨fun hmem => (List.not_mem_nil hmem).elim, fun hr => (hfresh ch hr).elim⟩
    · rw [hother g heq]
  have hnew : ∀ g ch, s.Registered g ch → g ≠ s.gpuVaSpaceCount := by
    rintro g ch hr rfl
    exact hfresh ch hr
  refine ⟨⟨⟨fun g => ?_, fun g ch hr => ?_, fun ch l hl => ?_, fun ch hb => ?_, h.known,
    fun g hatt => ?_, fun gpu' g hg => ?_, h.unmapped, h.written, h.log⟩, ?_⟩, fun X Y => ?_,
    fun ch hr => hfresh ch ((hreg _ ch).mp hr)⟩
  · by_cases heq : g = s.gpuVaSpaceCount
    · subst heq
      rw [hself]
      exact List.nodup_nil
    · rw [hother g heq]
      exact h.nodup g
  · have hr := (hreg g ch).mp hr
    rw [hother g (hnew g ch hr)]
    exact h.listed g ch hr
  · obtain ⟨g, hr, hrest⟩ := h.ranged ch l hl
    exact ⟨g, (hreg g ch).mpr hr, hrest⟩
  · obtain ⟨⟨g, hr, hdis⟩, hm, hrun⟩ := h.bound ch hb
    refine ⟨⟨g, (hreg g ch).mpr hr, ?_⟩, hm, hrun⟩
    rw [hother g (hnew g ch hr)]
    exact hdis
  · change g < s.gpuVaSpaceCount + 1 ∧ update s.registeredGpuVaSpaces gpu _
      ((s.withGpuVaSpace gpu).gpuVaSpaces g).gpu = some g
    by_cases heq : g = s.gpuVaSpaceCount
    · subst heq
      rw [hself]
      exact ⟨Nat.lt_succ_self _, update_self ..⟩
    · rw [hother g heq] at hatt ⊢
      obtain ⟨hlt, hlook⟩ := h.attached g hatt
      have hne : (s.gpuVaSpaces g).gpu ≠ gpu := by
        intro hsame
        rw [hsame, hnone] at hlook
        cases hlook
      exact ⟨Nat.lt_succ_of_lt hlt, by rwa [update_of_ne hne]⟩
  · have hlook : update s.registeredGpuVaSpaces gpu (some s.gpuVaSpaceCount) gpu' =
      some g := hg
    by_cases heq : gpu' = gpu
    · rw [heq, update_self] at hlook
      obtain rfl := Option.some.inj hlook
      rw [hself]
      exact ⟨rfl, heq.symm⟩
    · rw [update_of_ne heq] at hlook
      have hold := h.lookup gpu' g hlook
      have hne : g ≠ s.gpuVaSpaceCount := Nat.ne_of_lt (h.attached g hold.1).1
      rw [hother g hne]
      exact hold
  · refine h.refs.congr rfl rfl rfl (fun g => ?_) (fun _ => rfl) (uses_congr rfl fun _ => rfl)
    by_cases heq : g = s.gpuVaSpaceCount
    · subst heq
      rw [hself, hlocals]
    · rw [hother g heq]
  · refine ⟨le_refl _, Nat.le_succ _, fun _ _ _ _ => rfl, fun _ _ _ hb => hb,
      fun ch g _ _ hg => ⟨hg, (hreg g ch).mpr⟩, fun g hlt hdis => ?_, id,
      fun gpu' _ hp => ⟨hp, fun g hg => ?_⟩⟩
    · rw [hother g (Nat.ne_of_lt hlt)]
      exact hdis
    · have hlook : update s.registeredGpuVaSpaces gpu (some s.gpuVaSpaceCount) gpu' =
        some g := hg
      have hne : gpu' ≠ gpu := by
        rintro rfl
        rw [hprog] at hp
        cases hp
      rwa [update_of_ne hne] at hlook

end NvUvm.ChannelLife
