import NvUvm.ChannelSections

/-!
# Registering a channel

The sections of `uvm_register_channel` (`uvm8_user_channel.c`): the channel is made, listed in its GPU
VA space with its ranges, which are then mapped, and bound.
-/

namespace NvUvm.ChannelLife

open Space
open Function (update update_of_ne update_self)

/-- What `nvUvmInterfaceRetainChannel` and `nvUvmInterfaceRetainChannelResources` promise: the
descriptor points to the instance, and each resource has a descriptor of its own. -/
def RmDescribes (o : Outcome) : Prop :=
  (∀ desc, o.retained = some desc → desc ≠ 0) ∧
    ∀ resources, o.resources = some resources → LocalsDistinct resources

/-! ## Making a channel -/

variable {s s' : Space} {g ch : ℕ} {o : Outcome}

theorem uses_new (hcnt : s'.channelCount = s.channelCount + 1)
    (hnew : (s'.channels s.channelCount).vaRanges = none)
    (hold : ∀ ch, ch < s.channelCount → s'.channels ch = s.channels ch) (r : ℕ) :
    s'.uses r = s.uses r := by
  unfold Space.uses
  rw [hcnt, List.range_succ, Lib.held_concat]
  have hzero : (s'.channels s.channelCount).uses r = 0 := by
    unfold UserChannel.uses
    rw [hnew]
    rfl
  rw [hzero, Nat.add_zero]
  refine Lib.held_congr _ fun ch hch => ?_
  rw [hold ch (List.mem_range.mp hch)]

/-- What `uvm_user_channel_create` leaves: the channel is in the hands of the call, or destroyed. -/
structure Creates (g : ℕ) (s s' : Space) (result : Option ℕ) : Prop where
  inv : SpaceInv s'
  evolves : ∀ X Y, Evolves X Y s s'
  owned : ∀ ch, ch < s.channelCount → s'.owned ch = s.owned ch
  fresh : ∀ ch, s'.channelCount ≤ ch → s'.owned ch = s.owned ch
  made : ∀ ch, result = some ch → s.channelCount = ch ∧ s'.channelCount = ch + 1 ∧
    (s'.channels ch).gpuVaSpace = some g ∧ (s'.channels ch).vaRanges = none ∧
    (s'.channels ch).isBound = false ∧ s'.owned ch = s.owned ch
  destroyed : result = none → s'.channelCount = s.channelCount ∨
    s'.channelCount = s.channelCount + 1 ∧ s'.owned s.channelCount = s.owned s.channelCount + 1
  inProgress : s'.gpuRegisterInProgress = s.gpuRegisterInProgress

theorem userChannelCreate_spec (h : SpaceInv s) {handle : ℕ × ℕ} (hrm : RmDescribes o)
    (hnone : (s.channels s.channelCount).vaRanges = none) :
    Creates g s (s.userChannelCreate g handle o).1 (s.userChannelCreate g handle o).2 := by
  -- a channel that was never made is not listed and not bound
  have hunlisted : ∀ g', ¬ s.Registered g' s.channelCount :=
    fun g' hr => Nat.lt_irrefl _ (h.listed g' _ hr).1
  unfold userChannelCreate
  by_cases halloc : o.channelAlloc = true
  swap
  · rw [if_neg halloc]
    exact ⟨h, fun X Y => Evolves.refl X Y s, fun _ _ => rfl, fun _ _ => rfl,
      fun ch hch => (by cases hch), fun _ => Or.inl rfl, rfl⟩
  rw [if_pos halloc]
  have hlost : Creates g s
      ({ s with channelCount := s.channelCount + 1 }.record (.channelDestroyed s.channelCount))
      none := by
    have hcnt : ∀ ch, ch ≠ s.channelCount →
        (Event.channelDestroyed s.channelCount :: s.log).count (.channelDestroyed ch) =
          s.log.count (.channelDestroyed ch) :=
      fun ch hne => List.count_cons_of_ne fun heq => hne (Event.channelDestroyed.inj heq).symm
    refine ⟨⟨⟨h.nodup, fun g' ch hr => ?_, h.ranged, fun ch hb => ?_, h.known, h.attached, h.lookup,
      h.unmapped, h.written, fun e he => ?_⟩, ?_⟩, fun X Y => ?_, fun ch hlt => ?_, fun ch hge => ?_,
      fun ch hch => (by cases hch), fun _ => Or.inr ⟨rfl, ?_⟩, rfl⟩
    · obtain ⟨hlt, hrest⟩ := h.listed g' ch hr
      exact ⟨Nat.lt_succ_of_lt hlt, hrest⟩
    · obtain ⟨hreg, hm, hrun⟩ := h.bound ch hb
      exact ⟨hreg, hm, hrun⟩
    · rcases List.mem_cons.mp he with rfl | he
      · trivial
      · exact h.log e he
    · exact h.refs.congr rfl rfl rfl (fun _ => rfl) (fun r => List.count_cons_of_ne (by simp))
        (uses_new rfl hnone fun _ _ => rfl)
    · exact ⟨Nat.le_succ _, le_refl _, fun _ _ _ _ => rfl, fun _ _ _ hb => hb,
        fun _ _ _ _ hg => ⟨hg, id⟩, fun _ _ hd => hd, id, fun _ _ hp => ⟨hp, fun _ hg => hg⟩⟩
    · change _ + (Event.channelDestroyed s.channelCount :: s.log).count _ = _
      rw [hcnt ch (Nat.ne_of_lt hlt)]
      rfl
    · change _ + (Event.channelDestroyed s.channelCount :: s.log).count _ = _
      have hne : ch ≠ s.channelCount := fun heq => by
        subst heq
        exact Nat.not_succ_le_self _ hge
      rw [hcnt ch hne]
      rfl
    · change _ + (Event.channelDestroyed s.channelCount :: s.log).count _ = _
      rw [List.count_cons_self, ← Nat.add_assoc]
      rfl
  rcases hret : o.retained with _ | desc
  · exact hlost
  rcases hres : o.resources with _ | resources
  · exact hlost
  dsimp only
  have hdesc := hrm.1 desc hret
  have hlocals := hrm.2 resources hres
  have hself : ({ s with channelCount := s.channelCount + 1 }.setChannel s.channelCount
      ⟨some g, handle, desc, resources, none, false⟩).channels s.channelCount =
        ⟨some g, handle, desc, resources, none, false⟩ := update_self ..
  have hother : ∀ ch, ch ≠ s.channelCount →
      ({ s with channelCount := s.channelCount + 1 }.setChannel s.channelCount
        ⟨some g, handle, desc, resources, none, false⟩).channels ch = s.channels ch :=
    fun ch hne => update_of_ne hne ..
  have hlisted : ∀ g' ch, s.Registered g' ch → ch ≠ s.channelCount := by
    rintro g' ch hr rfl
    exact hunlisted g' hr
  refine ⟨⟨⟨h.nodup, fun g' ch hr => ?_, fun ch l hl => ?_, fun ch hb => ?_, fun ch g' hg' => ?_,
    h.attached, h.lookup, h.unmapped, h.written, h.log⟩, ?_⟩, fun X Y => ?_, fun ch hlt => ?_,
    fun ch hge => ?_, fun ch hch => ?_, fun hnone' => (by cases hnone'), rfl⟩
  · obtain ⟨hlt, hrest⟩ := h.listed g' ch hr
    rw [hother ch (hlisted g' ch hr)]
    exact ⟨Nat.lt_succ_of_lt hlt, hrest⟩
  · by_cases heq : ch = s.channelCount
    · rw [heq, hself] at hl
      cases hl
    · rw [hother ch heq] at hl
      exact h.ranged ch l hl
  · by_cases heq : ch = s.channelCount
    · rw [heq, hself] at hb
      cases hb
    · rw [hother ch heq] at hb
      obtain ⟨hreg, hm, hrun⟩ := h.bound ch hb
      refine ⟨hreg, fun l hl => ?_, hrun⟩
      rw [hother ch heq] at hl
      exact hm l hl
  · by_cases heq : ch = s.channelCount
    · rw [heq, hself]
      exact ⟨hdesc, hlocals⟩
    · rw [hother ch heq] at hg' ⊢
      exact h.known ch g' hg'
  · exact h.refs.congr rfl rfl rfl (fun _ => rfl) (fun _ => rfl)
      (uses_new rfl (by rw [hself]) fun ch hlt => hother ch (Nat.ne_of_lt hlt))
  · exact ⟨Nat.le_succ _, le_refl _, fun ch _ hlt _ => hother ch (Nat.ne_of_lt hlt),
      fun ch _ hlt hb => by rwa [hother ch (Nat.ne_of_lt hlt)] at hb,
      fun ch g' _ hlt hg' => ⟨by rwa [hother ch (Nat.ne_of_lt hlt)] at hg', id⟩, fun _ _ hd => hd, id,
      fun _ _ hp => ⟨hp, fun _ hg' => hg'⟩⟩
  · unfold Space.owned
    rw [hother ch (Nat.ne_of_lt hlt)]
    rfl
  · have hne : ch ≠ s.channelCount := fun heq => by
      subst heq
      exact Nat.not_succ_le_self _ hge
    unfold Space.owned
    rw [hother ch hne]
    rfl
  · obtain rfl := Option.some.inj hch
    refine ⟨rfl, rfl, by rw [hself], by rw [hself], by rw [hself], ?_⟩
    unfold Space.owned
    rw [hself, hnone]
    rfl

/-! ## Listing a channel -/

/-- A channel in the hands of the call that registers it. -/
structure InHands (s : Space) (g ch : ℕ) : Prop extends Detachable s g ch where
  vaRanges : (s.channels ch).vaRanges = none

theorem InHands.unregistered (h : ChannelsRight s) (hh : InHands s g ch) (g' : ℕ) :
    ¬ s.Registered g' ch := by
  intro hr
  have hsome := (h.listed g' ch hr).2.2.1
  rw [hh.vaRanges] at hsome
  cases hsome

theorem InHands.of_rangesOnly (hh : InHands s g ch) (honly : RangesOnly s s') :
    InHands s' g ch where
  created := honly.channelCount ▸ hh.created
  gpuVaSpace := by
    rw [honly.channels]
    exact hh.gpuVaSpace
  isBound := by
    rw [honly.channels]
    exact hh.isBound
  vaRanges := by
    rw [honly.channels]
    exact hh.vaRanges

theorem RangesOnly.evolves (honly : RangesOnly s s') (X : ℕ → Prop) (Y : ProcessorId → Prop) :
    Evolves X Y s s' := by
  refine ⟨by rw [honly.channelCount], by rw [honly.gpuVaSpaceCount],
    fun ch _ _ _ => by rw [honly.channels], fun ch _ _ hb => by rwa [honly.channels] at hb,
    fun ch g _ _ hg => ⟨by rwa [honly.channels] at hg, fun hr => ?_⟩,
    fun g _ hd => by rwa [honly.disallowNewChannels], fun hs => by rwa [honly.userChannelsStopped],
    fun gpu _ hp => ⟨by rwa [honly.gpuRegisterInProgress], fun g hg => ?_⟩⟩
  · unfold Space.Registered
    rw [honly.registeredChannels]
    exact hr
  · rwa [honly.registeredGpuVaSpaces] at hg

theorem RangesOnly.owned (honly : RangesOnly s s') (ch : ℕ) : s'.owned ch = s.owned ch := by
  unfold Space.owned
  rw [honly.channels, honly.log _ fun r => by simp]

/-- A channel with its ranges on the list of its GPU VA space. -/
def Space.link (s : Space) (g ch : ℕ) (made : List ℕ) : Space :=
  let s := s.setChannel ch { s.channels ch with vaRanges := some made }
  s.setGpuVaSpace g { s.gpuVaSpaces g with
    registeredChannels := ch :: (s.gpuVaSpaces g).registeredChannels }

section Link

variable (s : Space) (g ch : ℕ) (made : List ℕ)

theorem link_gpuVaSpace (g' : ℕ) : (s.link g ch made).gpuVaSpaces g' =
    { s.gpuVaSpaces g' with
      registeredChannels :=
        if g' = g then ch :: (s.gpuVaSpaces g).registeredChannels
        else (s.gpuVaSpaces g').registeredChannels } :=
  update_registered g'

theorem link_registered (g' other : ℕ) :
    (s.link g ch made).Registered g' other ↔ s.Registered g' other ∨ g' = g ∧ other = ch := by
  unfold Space.Registered
  rw [link_gpuVaSpace]
  by_cases heq : g' = g
  · subst heq
    simp only [if_true, List.mem_cons, true_and]
    exact or_comm
  · simp [heq]

theorem link_channel (other : ℕ) : (s.link g ch made).channels other =
    if other = ch then { s.channels ch with vaRanges := some made } else s.channels other := by
  change update s.channels ch _ other = _
  by_cases heq : other = ch
  · subst heq
    rw [update_self, if_pos rfl]
  · rw [update_of_ne heq, if_neg heq]

variable {s : Space} {g ch : ℕ} {made : List ℕ}

theorem ChannelsRight.link (h : ChannelsRight s) (hh : InHands s g ch)
    (hatt : (s.gpuVaSpaces g).attached = true) {done : List ResourceInfo}
    (hmade : MadeRanges s g done made) : ChannelsRight (s.link g ch made) := by
  have hreg := link_registered s g ch made
  have hgvs := link_gpuVaSpace s g ch made
  have hchan := link_channel s g ch made
  have hno := hh.unregistered h
  have hne : ∀ g' other, s.Registered g' other → other ≠ ch := by
    rintro g' other hr rfl
    exact hno g' hr
  refine ⟨fun g' => ?_, fun g' other hr => ?_, fun other l hl => ?_, fun other hb => ?_,
    fun other g' hg' => ?_, fun g' hatt' => ?_, fun gpu g' hlook => ?_, h.unmapped, h.written,
    h.log⟩
  · rw [hgvs]
    split
    · exact List.nodup_cons.mpr ⟨hno g, h.nodup g⟩
    · exact h.nodup g'
  · rw [hchan, hgvs]
    rcases (hreg g' other).mp hr with hr | ⟨rfl, rfl⟩
    · rw [if_neg (hne g' other hr)]
      exact h.listed g' other hr
    · rw [if_pos rfl]
      exact ⟨hh.created, hh.gpuVaSpace, rfl, hatt⟩
  · rw [hchan] at hl
    by_cases heq : other = ch
    · rw [if_pos heq] at hl
      obtain rfl := Option.some.inj hl
      refine ⟨g, (hreg g other).mpr (Or.inr ⟨rfl, heq⟩), hmade.nodup, fun r hr => ?_⟩
      obtain ⟨res, -, hfor⟩ := hmade.each r hr
      exact ⟨hfor.created, hfor.gpuVaSpace⟩
    · rw [if_neg heq] at hl
      obtain ⟨g', hr, hrest⟩ := h.ranged other l hl
      exact ⟨g', (hreg g' other).mpr (Or.inl hr), hrest⟩
  · rw [hchan] at hb
    by_cases heq : other = ch
    · rw [if_pos heq] at hb
      exact absurd (hb.symm.trans hh.isBound) (by simp)
    · rw [if_neg heq] at hb
      obtain ⟨⟨g', hr, hdis⟩, hm, hrun⟩ := h.bound other hb
      refine ⟨⟨g', (hreg g' other).mpr (Or.inl hr), by rwa [hgvs]⟩, fun l hl => ?_, hrun⟩
      rw [hchan, if_neg heq] at hl
      exact hm l hl
  · rw [hchan] at hg' ⊢
    by_cases heq : other = ch
    · rw [if_pos heq] at hg' ⊢
      exact h.known ch g' hg'
    · rw [if_neg heq] at hg' ⊢
      exact h.known other g' hg'
  · rw [hgvs] at hatt' ⊢
    exact h.attached g' hatt'
  · rw [hgvs]
    exact h.lookup gpu g' hlook

end Link

/-- A channel on the list of a GPU VA space that takes new channels, not bound yet. -/
structure Listed (s : Space) (g ch : ℕ) : Prop where
  registered : s.Registered g ch
  isBound : (s.channels ch).isBound = false
  disallow : (s.gpuVaSpaces g).disallowNewChannels = false
  running : s.userChannelsStopped = false

/-- The channel is listed, or still in the hands of the call with nothing left of its ranges. -/
structure RegistersUnderWrite (g ch : ℕ) (s s' : Space) (ok : Bool) : Prop where
  inv : SpaceInv s'
  evolves : ∀ X : ℕ → Prop, X ch → ∀ Y, Evolves X Y s s'
  owned : ∀ other, s'.owned other = s.owned other + if ok = true ∧ other = ch then 1 else 0
  failed : ok = false → InHands s' g ch
  listed : ok = true → Listed s' g ch
  channelCount : s'.channelCount = s.channelCount
  inProgress : s'.gpuRegisterInProgress = s.gpuRegisterInProgress

theorem registerUnderWrite_spec (h : SpaceInv s) {base last : ℕ} (hh : InHands s g ch)
    (hatt : (s.gpuVaSpaces g).attached = true) :
    RegistersUnderWrite g ch s (s.registerUnderWrite ch g base last o).1
      (s.registerUnderWrite ch g base last o).2 := by
  have hleft : ∀ s', RangesOnly s s' → RefsRight s' s'.uses →
      RegistersUnderWrite g ch s s' false := by
    intro s' honly hrefs
    exact ⟨⟨h.toChannelsRight.of_rangesOnly honly, hrefs⟩, fun X _ Y => honly.evolves X Y,
      fun other => by simp [honly.owned other], fun _ => hh.of_rangesOnly honly,
      fun hok => (by cases hok), honly.channelCount, honly.gpuRegisterInProgress⟩
  unfold registerUnderWrite
  by_cases hallowed : s.registerAllowed ch g o = true
  swap
  · rw [if_neg hallowed]
    exact hleft s (RangesOnly.refl s) h.refs
  rw [if_pos hallowed]
  unfold registerAllowed at hallowed
  simp only [Bool.and_eq_true, Bool.not_eq_true'] at hallowed
  obtain ⟨⟨⟨hrun, hdis⟩, -⟩, -⟩ := hallowed
  unfold createVaRanges
  by_cases harray : o.arrayAlloc = true
  swap
  · rw [if_neg harray]
    exact hleft s (RangesOnly.refl s) h.refs
  rw [if_pos harray]
  have hrefs₀ : RefsRight s fun r => s.uses r + ([] : List ℕ).count r :=
    h.refs.congr rfl rfl rfl (fun _ => rfl) (fun _ => rfl) fun _ => by simp
  have hmade₀ : MadeRanges s g [] [] := ⟨List.nodup_nil, fun r hr => by cases hr⟩
  have hcreate : ∃ a made ok,
      createLoop g last o.create 0 (s.channels ch).resources base s [] = (a, made, ok) ∧
        RangesOnly s a ∧ (RefsRight a fun r => s.uses r + made.count r) ∧
        ∃ done, MadeRanges a g done made :=
    createLoop_spec hrefs₀ hmade₀ (h.known ch g hh.gpuVaSpace).2
  obtain ⟨a, made, ok, hloop, honly, hrefs, done, hmade⟩ := hcreate
  dsimp only
  rw [hloop]
  dsimp only
  -- the ranges made are the uses of the channel
  have hzero : ∀ r, (s.channels ch).uses r = 0 := fun r => by
    unfold UserChannel.uses
    rw [hh.vaRanges]
    rfl
  have huses : ∀ r, (a.setChannel ch { a.channels ch with vaRanges := some made }).uses r =
      s.uses r + made.count r := by
    intro r
    have hcnt : (a.setChannel ch { a.channels ch with vaRanges := some made }).channelCount =
        s.channelCount := honly.channelCount
    have hother : ∀ other, other ≠ ch →
        (a.setChannel ch { a.channels ch with vaRanges := some made }).channels other =
          s.channels other := fun other hne => by
      rw [← honly.channels]
      exact update_of_ne hne ..
    have hself : (a.setChannel ch { a.channels ch with vaRanges := some made }).channels ch =
        { a.channels ch with vaRanges := some made } := update_self ..
    have hsum := uses_change hh.created hcnt hother r
    rw [hself, hzero r] at hsum
    exact hsum
  have hrefsMade : RefsRight (a.setChannel ch { a.channels ch with vaRanges := some made })
      (a.setChannel ch { a.channels ch with vaRanges := some made }).uses :=
    hrefs.congr rfl rfl rfl (fun _ => rfl) (fun _ => rfl) huses
  have hhA := hh.of_rangesOnly honly
  cases ok with
  | false =>
    simp only [Bool.false_eq_true]
    obtain ⟨honly', hrefs'⟩ := destroyVaRanges_spec hrefsMade hhA.created
    have hback : (a.setChannel ch { a.channels ch with vaRanges := some made }).setChannel ch
        { (a.setChannel ch { a.channels ch with vaRanges := some made }).channels ch with
          vaRanges := none } = a := by
      have hself : (a.setChannel ch { a.channels ch with vaRanges := some made }).channels ch =
          { a.channels ch with vaRanges := some made } := update_self ..
      have hsame : { a.channels ch with vaRanges := none } = a.channels ch := by
        rw [← hhA.vaRanges]
      have hchans : update (update a.channels ch
          { a.channels ch with vaRanges := some made }) ch
            { a.channels ch with vaRanges := none } = a.channels := by
        rw [Function.update_idem, hsame, Function.update_eq_self]
      rw [hself]
      exact congrArg (fun channels => { a with channels := channels }) hchans
    rw [hback] at honly'
    exact hleft _ (honly.trans honly') hrefs'
  | true =>
    have hattA : (a.gpuVaSpaces g).attached = true := by rwa [honly.attached]
    have hlink : ChannelsRight (a.link g ch made) :=
      (h.toChannelsRight.of_rangesOnly honly).link hhA hattA hmade
    have hchan := link_channel a g ch made
    refine ⟨⟨hlink, ?_⟩, fun X hX Y => (honly.evolves X Y).trans ?_, fun other => ?_,
      fun hok => (by cases hok), fun _ => ?_, honly.channelCount, honly.gpuRegisterInProgress⟩
    · refine hrefsMade.congr rfl rfl rfl (fun g' => ?_) (fun _ => rfl) (uses_congr rfl fun _ => rfl)
      exact (congrArg GpuVaSpace.localChannelRanges (link_gpuVaSpace a g ch made g') :)
    · refine ⟨le_refl _, le_refl _, fun other hnX _ _ => ?_, fun other _ _ hb => ?_,
        fun other g' _ _ hg' => ⟨?_, fun hr => (link_registered a g ch made g' other).mpr (Or.inl hr)⟩,
        fun g' _ hd => ?_, id, fun _ _ hp => ⟨hp, fun _ hg' => hg'⟩⟩
      · have hne : other ≠ ch := by
          rintro rfl
          exact hnX hX
        exact (hchan other).trans (if_neg hne)
      · have hb' : ((a.link g ch made).channels other).isBound = true := hb
        rw [hchan other] at hb'
        by_cases heq : other = ch
        · rw [if_pos heq] at hb'
          exact heq ▸ hb'
        · rwa [if_neg heq] at hb'
      · have hg'' : ((a.link g ch made).channels other).gpuVaSpace = some g' := hg'
        rw [hchan other] at hg''
        by_cases heq : other = ch
        · rw [if_pos heq] at hg''
          exact heq ▸ hg''
        · rwa [if_neg heq] at hg''
      · exact (congrArg GpuVaSpace.disallowNewChannels (link_gpuVaSpace a g ch made g')).trans hd
    · change (a.link g ch made).owned other = _
      rw [← honly.owned other]
      unfold Space.owned
      rw [hchan other]
      change _ + a.log.count _ = _
      by_cases heq : other = ch
      · subst heq
        rw [if_pos rfl, hhA.vaRanges]
        simp [Nat.add_comm]
      · simp [heq]
    · refine ⟨(link_registered a g ch made g ch).mpr (Or.inr ⟨rfl, rfl⟩), ?_, ?_, ?_⟩
      · change ((a.link g ch made).channels ch).isBound = false
        rw [hchan ch, if_pos rfl]
        exact hhA.isBound
      · change ((a.link g ch made).gpuVaSpaces g).disallowNewChannels = false
        rw [link_gpuVaSpace]
        exact (honly.disallowNewChannels g).trans hdis
      · exact honly.userChannelsStopped.trans hrun

/-! ## Mapping and binding -/

/-- Ranges get page tables, and a system-fatal error may be reported; nothing else changes. -/
structure MapsOnly (s s' : Space) : Prop where
  rest : s' = { s with ranges := s'.ranges, fatal := s'.fatal }
  range : ∀ r, s'.ranges r = { s.ranges r with
    ptRanges := (s'.ranges r).ptRanges, ptesWritten := (s'.ranges r).ptesWritten }
  ptRanges : ∀ r, (s.ranges r).ptRanges = true → (s'.ranges r).ptRanges = true
  ptesWritten : ∀ r, (s.ranges r).ptesWritten = true → (s'.ranges r).ptesWritten = true
  fatal : s.fatal = true → s'.fatal = true

namespace MapsOnly

variable {s s' s'' : Space}

theorem refl (s : Space) : MapsOnly s s := ⟨rfl, fun _ => rfl, fun _ h => h, fun _ h => h, id⟩

theorem trans (h : MapsOnly s s') (h' : MapsOnly s' s'') : MapsOnly s s'' where
  rest := by
    rw [h'.rest, h.rest]
  range := by
    intro r
    rw [h'.range r, h.range r]
  ptRanges := fun r hr => h'.ptRanges r (h.ptRanges r hr)
  ptesWritten := fun r hr => h'.ptesWritten r (h.ptesWritten r hr)
  fatal := fun hf => h'.fatal (h.fatal hf)

theorem setPtRanges (s : Space) (r : ℕ) :
    MapsOnly s (s.setRange r { s.ranges r with ptRanges := true }) := by
  have hself : (s.setRange r { s.ranges r with ptRanges := true }).ranges r =
      { s.ranges r with ptRanges := true } := update_self ..
  have hother : ∀ q, q ≠ r → (s.setRange r { s.ranges r with ptRanges := true }).ranges q =
      s.ranges q := fun q hne => update_of_ne hne ..
  refine ⟨rfl, fun q => ?_, fun q hq => ?_, fun q hq => ?_, id⟩ <;> by_cases heq : q = r
  · rw [heq, hself]
  · rw [hother q heq]
  · rw [heq, hself]
  · rwa [hother q heq]
  · rw [heq, hself]
    exact heq ▸ hq
  · rwa [hother q heq]

end MapsOnly

/-- What the loop over the ranges of a channel maps: the pending ones wait for their PTE writes, and
the rest of those with page tables had them, or were lost to a system-fatal error. -/
structure MapLoops (s s' : Space) (pending pending' : List ℕ) : Prop where
  maps : MapsOnly s s'
  more : ∀ r ∈ pending, r ∈ pending'
  bound : ∀ r ∈ pending', r ∈ pending ∨ (s'.ranges r).ptRanges = true
  written : ∀ r, (s'.ranges r).ptRanges = true → (s.ranges r).ptRanges = true ∨ r ∈ pending' ∨
    s'.fatal = true

theorem mapLoop_spec (o : ℕ → MapOutcome) (i : ℕ) (l : List ℕ) (s : Space) (pending : List ℕ) :
    MapLoops s (mapLoop o i l s pending).1 pending (mapLoop o i l s pending).2.1 ∧
      ((mapLoop o i l s pending).2.2 = true →
        ∀ r ∈ l, ((mapLoop o i l s pending).1.ranges r).ptRanges = true) ∧
      ∀ r, ((mapLoop o i l s pending).1.ranges r).ptRanges = true →
        (s.ranges r).ptRanges = true ∨ r ∈ l := by
  induction l generalizing i s pending with
  | nil =>
    exact ⟨⟨MapsOnly.refl s, fun _ h => h, fun _ h => Or.inl h, fun _ h => Or.inl h⟩,
      fun _ r hr => (by cases hr), fun _ h => Or.inl h⟩
  | cons r rest ih =>
    unfold mapLoop
    by_cases hmap : (s.ranges r).ptRanges = true
    · rw [if_pos hmap]
      obtain ⟨hloop, hall, htouched⟩ := ih (i + 1) s pending
      refine ⟨hloop, fun hok q hq => ?_,
        fun q hq => (htouched q hq).imp_right (List.mem_cons_of_mem _)⟩
      rcases List.mem_cons.mp hq with rfl | hq
      · exact hloop.maps.ptRanges q hmap
      · exact hall hok q hq
    rw [if_neg hmap]
    have hset := MapsOnly.setPtRanges s r
    have hself : (s.setRange r { s.ranges r with ptRanges := true }).ranges r =
        { s.ranges r with ptRanges := true } := update_self ..
    have hother : ∀ q, q ≠ r → (s.setRange r { s.ranges r with ptRanges := true }).ranges q =
        s.ranges q := fun q hne => update_of_ne hne ..
    cases o i with
    | mapped =>
      obtain ⟨hloop, hall, htouched⟩ :=
        ih (i + 1) (s.setRange r { s.ranges r with ptRanges := true }) (r :: pending)
      refine ⟨⟨hset.trans hloop.maps, fun q hq => hloop.more q (List.mem_cons_of_mem _ hq),
        fun q hq => ?_, fun q hq => ?_⟩, fun hok q hq => ?_, fun q hq => ?_⟩
      · rcases hloop.bound q hq with hq | hq
        · rcases List.mem_cons.mp hq with rfl | hq
          · exact Or.inr (hloop.maps.ptRanges q (by rw [hself]))
          · exact Or.inl hq
        · exact Or.inr hq
      · rcases hloop.written q hq with hq | hq
        · by_cases heq : q = r
          · exact Or.inr (Or.inl (hloop.more q (heq ▸ List.mem_cons_self)))
          · rw [hother q heq] at hq
            exact Or.inl hq
        · exact Or.inr hq
      · rcases List.mem_cons.mp hq with rfl | hq
        · exact hloop.maps.ptRanges q (by rw [hself])
        · exact hall hok q hq
      · by_cases heq : q = r
        · exact Or.inr (heq ▸ List.mem_cons_self)
        · have hq' := htouched q hq
          rw [hother q heq] at hq'
          exact hq'.imp_right (List.mem_cons_of_mem _)
    | failed =>
      exact ⟨⟨MapsOnly.refl s, fun _ h => h, fun _ h => Or.inl h, fun _ h => Or.inl h⟩,
        fun hok => (by cases hok), fun _ h => Or.inl h⟩
    | leaked =>
      refine ⟨⟨⟨rfl, hset.range, hset.ptRanges, hset.ptesWritten, fun _ => rfl⟩, fun _ h => h,
        fun _ h => Or.inl h, fun _ _ => Or.inr (Or.inr rfl)⟩, fun hok => (by cases hok),
        fun q hq => ?_⟩
      by_cases heq : q = r
      · exact Or.inr (heq ▸ List.mem_cons_self)
      · have hq' : ((s.setRange r { s.ranges r with ptRanges := true }).ranges q).ptRanges = true :=
          hq
        rw [hother q heq] at hq'
        exact Or.inl hq'

theorem mapResources_spec (h : ChannelsRight s) (ch : ℕ) (o : ℕ → MapOutcome) (trackerWait : Bool) :
    MapsOnly s (s.mapResources ch o trackerWait).1 ∧
      (∀ r, ((s.mapResources ch o trackerWait).1.ranges r).ptRanges = true →
        (s.mapResources ch o trackerWait).1.fatal = false →
          ((s.mapResources ch o trackerWait).1.ranges r).ptesWritten = true) ∧
      ((s.mapResources ch o trackerWait).2 = true →
        ∀ r ∈ (s.channels ch).vaRanges.getD [],
          ((s.mapResources ch o trackerWait).1.ranges r).ptRanges = true) ∧
      ∀ r, ((s.mapResources ch o trackerWait).1.ranges r).ptRanges = true →
        (s.ranges r).ptRanges = true ∨ r ∈ (s.channels ch).vaRanges.getD [] := by
  obtain ⟨⟨hmaps, -, -, hwritten⟩, hall, htouched⟩ :=
    mapLoop_spec o 0 ((s.channels ch).vaRanges.getD []) s []
  unfold mapResources
  generalize mapLoop o 0 ((s.channels ch).vaRanges.getD []) s [] = result at *
  obtain ⟨a, pending, ok⟩ := result
  dsimp only at *
  cases trackerWait with
  | false =>
    refine ⟨⟨?_, hmaps.range, hmaps.ptRanges, hmaps.ptesWritten, fun _ => rfl⟩,
      fun r _ hfatal => (by cases hfatal), fun hok => (by cases hok), fun r hr => htouched r hr⟩
    change { a with fatal := true } = { s with ranges := a.ranges, fatal := true }
    rw [hmaps.rest]
  | true =>
    have hranges : ∀ r, (a.markWritten pending).ranges r =
        if r ∈ pending then { a.ranges r with ptesWritten := true } else a.ranges r :=
      fun _ => rfl
    have hpt : ∀ r, ((a.markWritten pending).ranges r).ptRanges = (a.ranges r).ptRanges := by
      intro r
      rw [hranges r]
      split <;> rfl
    refine ⟨⟨?_, fun r => ?_, fun r hr => ?_, fun r hr => ?_, hmaps.fatal⟩, fun r hr hfatal => ?_,
      fun hok r hr => ?_, fun r hr => htouched r ((hpt r).symm.trans hr)⟩
    · change { a with ranges := (a.markWritten pending).ranges } =
        { s with ranges := (a.markWritten pending).ranges, fatal := a.fatal }
      rw [hmaps.rest]
    · simp only [if_true]
      rw [hranges r, hmaps.range r]
      split <;> rfl
    · exact (hpt r).trans (hmaps.ptRanges r hr)
    · change ((a.markWritten pending).ranges r).ptesWritten = true
      rw [hranges r]
      split
      · rfl
      · exact hmaps.ptesWritten r hr
    · -- what this call has mapped is waited for, the rest was written before
      have hr' : (a.ranges r).ptRanges = true := (hpt r).symm.trans hr
      change ((a.markWritten pending).ranges r).ptesWritten = true
      rw [hranges r]
      by_cases hpend : r ∈ pending
      · rw [if_pos hpend]
      · rw [if_neg hpend]
        have hfatal' : a.fatal = false := hfatal
        rcases hwritten r hr' with hold | hnew | hlost
        · refine hmaps.ptesWritten r (h.written r hold ?_)
          by_contra hf
          have := hmaps.fatal (Bool.not_eq_false _ |>.mp hf)
          rw [hfatal'] at this
          cases this
        · exact absurd hnew hpend
        · rw [hfatal'] at hlost
          cases hlost
    · exact (hpt r).trans (hall hok r hr)

theorem RefsRight.of_mapsOnly {uses : ℕ → ℕ} (h : RefsRight s uses) (hm : MapsOnly s s') :
    RefsRight s' uses := by
  have htree : s'.vaRangeTree = s.vaRangeTree := by rw [hm.rest]
  have hcnt : s'.rangeCount = s.rangeCount := by rw [hm.rest]
  have hgvs : s'.gpuVaSpaces = s.gpuVaSpaces := by rw [hm.rest]
  have hlog : s'.log = s.log := by rw [hm.rest]
  refine ⟨htree ▸ h.nodup, ?_, fun r hr => ?_, ?_, ?_, fun g r => ?_, ?_⟩
  · rw [htree, hcnt]
    exact h.created
  · rw [hm.range r]
    exact h.counted r (htree ▸ hr)
  · rw [htree]
    exact h.used
  · rw [hgvs]
    exact h.localNodup
  · rw [hgvs, htree, hm.range r]
    exact h.localRange g r
  · rw [hlog, hcnt, htree]
    exact h.destroyed

theorem SpaceInv.of_mapsOnly (h : SpaceInv s) (hm : MapsOnly s s')
    (hwritten : ∀ r, (s'.ranges r).ptRanges = true → s'.fatal = false →
      (s'.ranges r).ptesWritten = true)
    (hunmapped : ∀ r, s.rangeCount ≤ r → (s'.ranges r).ptRanges = false) : SpaceInv s' := by
  have hchans : s'.channels = s.channels := by rw [hm.rest]
  have hgvs : s'.gpuVaSpaces = s.gpuVaSpaces := by rw [hm.rest]
  have hcnt : s'.channelCount = s.channelCount := by rw [hm.rest]
  have hreg : ∀ g ch, s'.Registered g ch ↔ s.Registered g ch := fun g ch => by
    unfold Space.Registered
    rw [hgvs]
  refine ⟨⟨fun g => ?_, fun g ch hr => ?_, fun ch l hl => ?_, fun ch hb => ?_, fun ch g hg => ?_,
    fun g hatt => ?_, fun gpu g hg => ?_, ?_, hwritten, fun e he => ?_⟩, ?_⟩
  · rw [hgvs]
    exact h.nodup g
  · rw [hchans, hcnt, hgvs]
    exact h.listed g ch ((hreg g ch).mp hr)
  · rw [hchans] at hl
    obtain ⟨g, hr, hnd, hall⟩ := h.ranged ch l hl
    refine ⟨g, (hreg g ch).mpr hr, hnd, fun r hmem => ?_⟩
    have hrange := hall r hmem
    rw [hm.range r]
    exact ⟨by rw [hm.rest]; exact hrange.1, hrange.2⟩
  · rw [hchans] at hb
    obtain ⟨⟨g, hr, hdis⟩, hmap, hrun⟩ := h.bound ch hb
    refine ⟨⟨g, (hreg g ch).mpr hr, by rwa [hgvs]⟩, fun l hl r hmem => ?_, by rwa [hm.rest]⟩
    rw [hchans] at hl
    exact hm.ptRanges r (hmap l hl r hmem)
  · rw [hchans] at hg ⊢
    exact h.known ch g hg
  · rw [hgvs] at hatt ⊢
    have hold := h.attached g hatt
    rw [hm.rest]
    exact hold
  · rw [hgvs]
    refine h.lookup gpu g ?_
    rwa [hm.rest] at hg
  · have hrc : s'.rangeCount = s.rangeCount := by rw [hm.rest]
    rw [hrc]
    exact hunmapped
  · refine h.log e ?_
    rwa [hm.rest] at he
  · refine (h.refs.of_mapsOnly hm).congr rfl rfl rfl (fun _ => rfl) (fun _ => rfl)
      (uses_congr hcnt fun ch => ?_)
    rw [hchans]

theorem MapsOnly.evolves (hm : MapsOnly s s') (X : ℕ → Prop) (Y : ProcessorId → Prop) :
    Evolves X Y s s' := by
  rw [hm.rest]
  exact ⟨le_refl _, le_refl _, fun _ _ _ _ => rfl, fun _ _ _ hb => hb, fun _ _ _ _ hg => ⟨hg, id⟩,
    fun _ _ hd => hd, id, fun _ _ hp => ⟨hp, fun _ hg => hg⟩⟩

/-- The channel is bound, or listed and not bound. -/
structure RegistersUnderRead (g ch : ℕ) (s s' : Space) (ok : Bool) : Prop where
  inv : SpaceInv s'
  evolves : ∀ X : ℕ → Prop, X ch → ∀ Y, Evolves X Y s s'
  owned : ∀ other, s'.owned other = s.owned other
  failed : ok = false → s'.Registered g ch ∧ (s'.channels ch).isBound = false
  channelCount : s'.channelCount = s.channelCount
  inProgress : s'.gpuRegisterInProgress = s.gpuRegisterInProgress

theorem SpaceInv.setBound (h : SpaceInv s) (hl : Listed s g ch)
    (hmap : ∀ r ∈ (s.channels ch).vaRanges.getD [], (s.ranges r).ptRanges = true) :
    RegistersUnderRead g ch s (s.setBound ch) true := by
  obtain ⟨hlt, hg, hsome, hatt⟩ := h.listed g ch hl.registered
  have hself : (s.setBound ch).channels ch = { s.channels ch with isBound := true } :=
    update_self ..
  have hother : ∀ other, other ≠ ch → (s.setBound ch).channels other = s.channels other :=
    fun other hne => update_of_ne hne ..
  have hvaRanges : ∀ other, ((s.setBound ch).channels other).vaRanges =
      (s.channels other).vaRanges := by
    intro other
    by_cases heq : other = ch
    · rw [heq, hself]
    · rw [hother other heq]
  have hgvs : ∀ other, ((s.setBound ch).channels other).gpuVaSpace =
      (s.channels other).gpuVaSpace := by
    intro other
    by_cases heq : other = ch
    · rw [heq, hself]
    · rw [hother other heq]
  refine ⟨⟨⟨h.nodup, fun g' other hr => ?_, fun other l hl' => ?_, fun other hb => ?_,
    fun other g' hg' => ?_, h.attached, h.lookup, h.unmapped, h.written, fun e he => ?_⟩, ?_⟩,
    fun X hX Y => ?_, fun other => ?_, fun hok => (by cases hok), rfl, rfl⟩
  · rw [hvaRanges, hgvs]
    exact h.listed g' other hr
  · rw [hvaRanges] at hl'
    exact h.ranged other l hl'
  · by_cases heq : other = ch
    · subst heq
      refine ⟨⟨g, hl.registered, hl.disallow⟩, fun l hl' r hr => ?_, hl.running⟩
      rw [hvaRanges] at hl'
      refine hmap r ?_
      rw [hl']
      exact hr
    · rw [hother other heq] at hb
      obtain ⟨hreg, hm, hrun⟩ := h.bound other hb
      refine ⟨hreg, fun l hl' => ?_, hrun⟩
      rw [hvaRanges] at hl'
      exact hm l hl'
  · rw [hgvs] at hg'
    by_cases heq : other = ch
    · subst heq
      rw [hself]
      exact h.known other g' hg'
    · rw [hother other heq]
      exact h.known other g' hg'
  · -- the GPU VA space is attached and takes channels
    rcases List.mem_cons.mp he with rfl | he
    · rw [hg]
      exact ⟨hatt, hl.disallow⟩
    · exact h.log e he
  · exact h.refs.congr rfl rfl rfl (fun _ => rfl) (fun r => List.count_cons_of_ne (by simp))
      (uses_congr rfl hvaRanges)
  · refine ⟨le_refl _, le_refl _, fun other hnX _ _ => hother other fun heq => hnX (heq ▸ hX),
      fun other hnX _ hb => ?_, fun other g' _ _ hg' => ⟨?_, id⟩, fun _ _ hd => hd, id,
      fun _ _ hp => ⟨hp, fun _ hg' => hg'⟩⟩
    · rwa [hother other fun heq => hnX (heq ▸ hX)] at hb
    · rwa [hgvs] at hg'
  · unfold Space.owned
    rw [hvaRanges]
    change _ + (Event.bound _ _ _ :: s.log).count _ = _
    rw [List.count_cons_of_ne (by simp)]

theorem registerUnderRead_spec (h : SpaceInv s) (hl : Listed s g ch) :
    RegistersUnderRead g ch s (s.registerUnderRead ch o).1 (s.registerUnderRead ch o).2 := by
  obtain ⟨hm, hwritten, hall, htouched⟩ :=
    mapResources_spec h.toChannelsRight ch o.map o.trackerWait
  have hunmapped : ∀ r, s.rangeCount ≤ r →
      ((s.mapResources ch o.map o.trackerWait).1.ranges r).ptRanges = false := by
    intro r hr
    by_contra hne
    rcases htouched r (Bool.not_eq_false _ |>.mp hne) with hold | hmem
    · rw [h.unmapped r hr] at hold
      cases hold
    · obtain ⟨-, -, hsome, -⟩ := h.listed g ch hl.registered
      obtain ⟨l, hl'⟩ := Option.isSome_iff_exists.mp hsome
      rw [hl'] at hmem
      obtain ⟨_, -, -, hrange⟩ := h.ranged ch l hl'
      exact absurd (hrange r hmem).1 (Nat.not_lt.mpr hr)
  have hinv := h.of_mapsOnly hm hwritten hunmapped
  unfold registerUnderRead
  generalize s.mapResources ch o.map o.trackerWait = result at *
  obtain ⟨a, ok⟩ := result
  dsimp only at *
  have hlA : Listed a g ch := by
    rw [hm.rest]
    exact ⟨hl.registered, hl.isBound, hl.disallow, hl.running⟩
  have hownedA : ∀ other, a.owned other = s.owned other := fun other => by
    rw [hm.rest]
    rfl
  have hcountA : a.channelCount = s.channelCount := by rw [hm.rest]
  have hprogA : a.gpuRegisterInProgress = s.gpuRegisterInProgress := by rw [hm.rest]
  have hleft : RegistersUnderRead g ch s a false :=
    ⟨hinv, fun X _ Y => hm.evolves X Y, hownedA, fun _ => ⟨hlA.registered, hlA.isBound⟩, hcountA,
      hprogA⟩
  cases ok with
  | false => exact hleft
  | true =>
    dsimp only
    by_cases hbind : (o.addInstancePtr && o.bindResources) = true
    · rw [if_pos hbind]
      have hmappedA : ∀ r ∈ (a.channels ch).vaRanges.getD [], (a.ranges r).ptRanges = true := by
        intro r hr
        refine hall rfl r ?_
        rwa [hm.rest] at hr
      obtain ⟨hinv', hevolves, howned, -, hcnt, hprog⟩ := hinv.setBound hlA hmappedA
      exact ⟨hinv', fun X hX Y => (hm.evolves X Y).trans (hevolves X hX Y),
        fun other => (howned other).trans (hownedA other), fun hok => (by cases hok),
        hcnt.trans hcountA, hprog.trans hprogA⟩
    · rw [if_neg hbind]
      exact hleft

end NvUvm.ChannelLife
