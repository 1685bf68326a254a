import NvUvm.ChannelRangeRefs

/-!
# What the channels of a VA space keep

The invariant of the channels, the ranges and the GPU VA spaces between two sections under the VA
space lock (`SpaceInv`): the channels on the list of a GPU VA space are those that have ranges, a
range's count is the number of channels that use it, and a bound channel has all its ranges mapped in
a GPU VA space that takes new channels.

A section of one call leaves alone what the others rely on (`Evolves`), and each channel is on a
list, in the hands of one call, or destroyed (`Space.owned`).
-/

namespace NvUvm.ChannelLife

open Space
open Function (update update_of_ne update_self)

/-! ## The invariant -/

def UserChannel.uses (userChannel : UserChannel) (r : ℕ) : ℕ :=
  (userChannel.vaRanges.getD []).count r

def Space.uses (s : Space) (r : ℕ) : ℕ :=
  Lib.held (fun ch r => (s.channels ch).uses r) (List.range s.channelCount) r

/-- The channel is on the list of the GPU VA space. -/
def Space.Registered (s : Space) (g ch : ℕ) : Prop := ch ∈ (s.gpuVaSpaces g).registeredChannels

/-- What holds of a bound channel. -/
structure BoundRight (s : Space) (ch : ℕ) : Prop where
  registered : ∃ g, s.Registered g ch ∧ (s.gpuVaSpaces g).disallowNewChannels = false
  mapped : ∀ l, (s.channels ch).vaRanges = some l → ∀ r ∈ l, (s.ranges r).ptRanges = true
  running : s.userChannelsStopped = false

/-- What is recorded of a binding and of a detachment. -/
def Event.Right : Event → Prop
  | .bound _ attached disallowed => attached = true ∧ disallowed = false
  | .detached _ isBound => isBound = false
  | .channelDestroyed _ => True
  | .rangeDestroyed _ => True

/-- The channels and the GPU VA spaces fit together. -/
structure ChannelsRight (s : Space) : Prop where
  nodup : ∀ g, (s.gpuVaSpaces g).registeredChannels.Nodup
  listed : ∀ g ch, s.Registered g ch → ch < s.channelCount ∧
    (s.channels ch).gpuVaSpace = some g ∧ (s.channels ch).vaRanges.isSome = true ∧
    (s.gpuVaSpaces g).attached = true
  ranged : ∀ ch l, (s.channels ch).vaRanges = some l → ∃ g, s.Registered g ch ∧ l.Nodup ∧
    ∀ r ∈ l, r < s.rangeCount ∧ (s.ranges r).gpuVaSpace = g
  bound : ∀ ch, (s.channels ch).isBound = true → BoundRight s ch
  known : ∀ ch g, (s.channels ch).gpuVaSpace = some g →
    (s.channels ch).instancePtrDesc ≠ 0 ∧ LocalsDistinct (s.channels ch).resources
  attached : ∀ g, (s.gpuVaSpaces g).attached = true → g < s.gpuVaSpaceCount ∧
    s.registeredGpuVaSpaces (s.gpuVaSpaces g).gpu = some g
  lookup : ∀ gpu g, s.registeredGpuVaSpaces gpu = some g →
    (s.gpuVaSpaces g).attached = true ∧ (s.gpuVaSpaces g).gpu = gpu
  unmapped : ∀ r, s.rangeCount ≤ r → (s.ranges r).ptRanges = false
  written : ∀ r, (s.ranges r).ptRanges = true → s.fatal = false → (s.ranges r).ptesWritten = true
  log : ∀ e ∈ s.log, e.Right

/-- The invariant of the VA space. -/
structure SpaceInv (s : Space) : Prop extends ChannelsRight s where
  refs : RefsRight s s.uses

/-- How often a channel is on a list or was destroyed. -/
def Space.owned (s : Space) (ch : ℕ) : ℕ :=
  (if (s.channels ch).vaRanges.isSome then 1 else 0) + s.log.count (.channelDestroyed ch)

/-- What other calls rely on stays: the channels that nothing lists, apart from those in the hands of
the call that acts (`X`), the stopped ones, and the GPUs that a call unregisters, apart from those
that it is done with (`Y`). -/
structure Evolves (X : ℕ → Prop) (Y : ProcessorId → Prop) (s s' : Space) : Prop where
  channelCount : s.channelCount ≤ s'.channelCount
  gpuVaSpaceCount : s.gpuVaSpaceCount ≤ s'.gpuVaSpaceCount
  unlisted : ∀ ch, ¬ X ch → ch < s.channelCount → (s.channels ch).vaRanges = none →
    s'.channels ch = s.channels ch
  isBound : ∀ ch, ¬ X ch → ch < s.channelCount → (s'.channels ch).isBound = true →
    (s.channels ch).isBound = true
  listed : ∀ ch g, ¬ X ch → ch < s.channelCount → (s'.channels ch).gpuVaSpace = some g →
    (s.channels ch).gpuVaSpace = some g ∧ (s.Registered g ch → s'.Registered g ch)
  disallow : ∀ g, g < s.gpuVaSpaceCount → (s.gpuVaSpaces g).disallowNewChannels = true →
    (s'.gpuVaSpaces g).disallowNewChannels = true
  stopped : s.userChannelsStopped = true → s'.userChannelsStopped = true
  inProgress : ∀ gpu, ¬ Y gpu → s.gpuRegisterInProgress gpu = true →
    s'.gpuRegisterInProgress gpu = true ∧
    ∀ g, s'.registeredGpuVaSpaces gpu = some g → s.registeredGpuVaSpaces gpu = some g

namespace Evolves

variable {X : ℕ → Prop} {Y : ProcessorId → Prop} {s s' s'' : Space}

theorem refl (X : ℕ → Prop) (Y : ProcessorId → Prop) (s : Space) : Evolves X Y s s :=
  ⟨le_refl _, le_refl _, fun _ _ _ _ => rfl, fun _ _ _ h => h, fun _ _ _ _ h => ⟨h, id⟩,
    fun _ _ h => h, id, fun _ _ h => ⟨h, fun _ hg => hg⟩⟩

theorem trans (h : Evolves X Y s s') (h' : Evolves X Y s' s'') : Evolves X Y s s'' where
  channelCount := h.channelCount.trans h'.channelCount
  gpuVaSpaceCount := h.gpuVaSpaceCount.trans h'.gpuVaSpaceCount
  unlisted := by
    intro ch hX hch hnone
    have heq := h.unlisted ch hX hch hnone
    rw [h'.unlisted ch hX (hch.trans_le h.channelCount) (heq ▸ hnone), heq]
  isBound := fun ch hX hch hbound =>
    h.isBound ch hX hch (h'.isBound ch hX (hch.trans_le h.channelCount) hbound)
  listed := by
    intro ch g hX hch hg
    obtain ⟨hmid, hreg'⟩ := h'.listed ch g hX (hch.trans_le h.channelCount) hg
    obtain ⟨hfirst, hreg⟩ := h.listed ch g hX hch hmid
    exact ⟨hfirst, fun hr => hreg' (hreg hr)⟩
  disallow := fun g hg hd => h'.disallow g (hg.trans_le h.gpuVaSpaceCount) (h.disallow g hg hd)
  stopped := fun hs => h'.stopped (h.stopped hs)
  inProgress := by
    intro gpu hY hp
    obtain ⟨hp', hreg⟩ := h.inProgress gpu hY hp
    obtain ⟨hp'', hreg'⟩ := h'.inProgress gpu hY hp'
    exact ⟨hp'', fun g hg => hreg g (hreg' g hg)⟩

end Evolves

/-! ## The uses of ranges -/

variable {s s' : Space} {ch g : ℕ}

theorem uses_congr (hcnt : s'.channelCount = s.channelCount)
    (h : ∀ ch, (s'.channels ch).vaRanges = (s.channels ch).vaRanges) (r : ℕ) :
    s'.uses r = s.uses r := by
  unfold Space.uses
  rw [hcnt]
  refine Lib.held_congr _ fun ch _ => ?_
  unfold UserChannel.uses
  rw [h ch]

theorem uses_change (hch : ch < s.channelCount) (hcnt : s'.channelCount = s.channelCount)
    (h : ∀ other, other ≠ ch → s'.channels other = s.channels other) (r : ℕ) :
    s'.uses r + (s.channels ch).uses r = s.uses r + (s'.channels ch).uses r := by
  unfold Space.uses
  rw [hcnt]
  refine Lib.held_change (fun ch r => (s.channels ch).uses r) _ List.nodup_range
    (List.mem_range.mpr hch) fun other _ hne => ?_
  rw [h other hne]

theorem uses_le (hch : ch < s.channelCount) (r : ℕ) : (s.channels ch).uses r ≤ s.uses r :=
  Lib.le_held (fun ch r => (s.channels ch).uses r) (List.mem_range.mpr hch) r

theorem SpaceInv.exists_user (h : SpaceInv s) {r : ℕ} (hr : r ∈ s.vaRangeTree) :
    ∃ ch l, s.Registered (s.ranges r).gpuVaSpace ch ∧ (s.channels ch).vaRanges = some l ∧
      r ∈ l := by
  obtain ⟨ch, -, hpos⟩ := Lib.exists_of_held_pos _ ((h.refs.used r).mp hr)
  unfold UserChannel.uses at hpos
  cases hl : (s.channels ch).vaRanges with
  | none =>
    rw [hl] at hpos
    simp at hpos
  | some l =>
    rw [hl] at hpos
    have hmem : r ∈ l := List.count_pos_iff.mp hpos
    obtain ⟨g, hreg, -, hg⟩ := h.ranged ch l hl
    exact ⟨ch, l, by rwa [(hg r hmem).2], hl, hmem⟩

/-! ## Stopping -/

/-- Some channels are no longer bound; nothing else changes. -/
structure Stops (s s' : Space) : Prop where
  rest : s' = { s with channels := s'.channels }
  channel : ∀ ch, s'.channels ch =
    { s.channels ch with isBound := (s'.channels ch).isBound }
  isBound : ∀ ch, (s'.channels ch).isBound = true → (s.channels ch).isBound = true

namespace Stops

variable {s s' s'' : Space}

theorem refl (s : Space) : Stops s s := ⟨rfl, fun _ => rfl, fun _ h => h⟩

theorem trans (h : Stops s s') (h' : Stops s' s'') : Stops s s'' where
  rest := by
    rw [h'.rest, h.rest]
  channel := by
    intro ch
    rw [h'.channel ch, h.channel ch]
  isBound := fun ch hb => h.isBound ch (h'.isBound ch hb)

theorem gpuVaSpaces (h : Stops s s') : s'.gpuVaSpaces = s.gpuVaSpaces := by rw [h.rest]

theorem vaRanges (h : Stops s s') (ch : ℕ) :
    (s'.channels ch).vaRanges = (s.channels ch).vaRanges := by rw [h.channel ch]

theorem gpuVaSpace (h : Stops s s') (ch : ℕ) :
    (s'.channels ch).gpuVaSpace = (s.channels ch).gpuVaSpace := by rw [h.channel ch]

theorem instancePtrDesc (h : Stops s s') (ch : ℕ) :
    (s'.channels ch).instancePtrDesc = (s.channels ch).instancePtrDesc := by rw [h.channel ch]

theorem resources (h : Stops s s') (ch : ℕ) :
    (s'.channels ch).resources = (s.channels ch).resources := by rw [h.channel ch]

end Stops

theorem stops_stop (s : Space) (ch : ℕ) : Stops s (s.stop ch) ∧
      ((s.channels ch).instancePtrDesc ≠ 0 → ((s.stop ch).channels ch).isBound = false) := by
  unfold stop
  by_cases hdesc : (s.channels ch).instancePtrDesc = 0
  · rw [if_pos hdesc]
    exact ⟨Stops.refl s, fun h => absurd hdesc h⟩
  rw [if_neg hdesc]
  by_cases hbound : (s.channels ch).isBound = true
  · rw [if_pos hbound]
    have hself : (s.setChannel ch { s.channels ch with isBound := false }).channels ch =
        { s.channels ch with isBound := false } := update_self ..
    have hother : ∀ other, other ≠ ch →
        (s.setChannel ch { s.channels ch with isBound := false }).channels other =
          s.channels other := fun other hne => update_of_ne hne ..
    refine ⟨⟨rfl, fun other => ?_, fun other hb => ?_⟩, fun _ => by rw [hself]⟩
    · by_cases hne : other = ch
      · subst hne
        rw [hself]
      · rw [hother other hne]
    · by_cases hne : other = ch
      · subst hne
        rw [hself] at hb
        cases hb
      · rwa [hother other hne] at hb
  · rw [if_neg hbound]
    exact ⟨Stops.refl s, fun _ => Bool.not_eq_true _ |>.mp hbound⟩

theorem stops_stopAll (l : List ℕ) (s : Space) :
    Stops s (l.foldl stop s) ∧ ∀ ch ∈ l, (s.channels ch).instancePtrDesc ≠ 0 →
      ((l.foldl stop s).channels ch).isBound = false := by
  induction l generalizing s with
  | nil => exact ⟨Stops.refl s, fun ch hch => by cases hch⟩
  | cons first rest ih =>
    obtain ⟨hfirst, hstop⟩ := stops_stop s first
    obtain ⟨hrest, hall⟩ := ih (s.stop first)
    refine ⟨hfirst.trans hrest, fun ch hch hdesc => ?_⟩
    rcases List.mem_cons.mp hch with rfl | hch
    · by_contra hbound
      have hb := hrest.isBound ch (Bool.not_eq_false _ |>.mp hbound)
      rw [hstop hdesc] at hb
      cases hb
    · exact hall ch hch (by rwa [hfirst.instancePtrDesc ch])

theorem SpaceInv.of_stops (h : SpaceInv s) (hs : Stops s s') : SpaceInv s' := by
  have huses : ∀ r, s'.uses r = s.uses r :=
    uses_congr (by rw [hs.rest]) hs.vaRanges
  have hreg : ∀ g ch, s'.Registered g ch ↔ s.Registered g ch := fun g ch => by
    unfold Space.Registered
    rw [hs.gpuVaSpaces]
  refine ⟨⟨fun g => ?_, fun g ch hch => ?_, fun ch l hl => ?_, fun ch hb => ?_,
    fun ch g hg => ?_, fun g hg => ?_, fun gpu g hg => ?_, by rw [hs.rest]; exact h.unmapped,
    by rw [hs.rest]; exact h.written, fun e he => ?_⟩,
    h.refs.congr (by rw [hs.rest]) (by rw [hs.rest]) (by rw [hs.rest])
      (fun _ => by rw [hs.rest]) (fun _ => by rw [hs.rest]) huses⟩
  · rw [hs.gpuVaSpaces]
    exact h.nodup g
  · obtain ⟨hlt, hgvs, hsome, hatt⟩ := h.listed g ch ((hreg g ch).mp hch)
    exact ⟨by rwa [hs.rest], by rwa [hs.gpuVaSpace], by rwa [hs.vaRanges], by rwa [hs.gpuVaSpaces]⟩
  · obtain ⟨g, hr, hnd, hall⟩ := h.ranged ch l (hs.vaRanges ch ▸ hl)
    refine ⟨g, (hreg g ch).mpr hr, hnd, fun r hr' => ?_⟩
    rw [hs.rest]
    exact hall r hr'
  · obtain ⟨⟨g, hr, hd⟩, hm, hrun⟩ := h.bound ch (hs.isBound ch hb)
    refine ⟨⟨g, (hreg g ch).mpr hr, by rwa [hs.gpuVaSpaces]⟩, fun l hl r hr' => ?_, by rwa [hs.rest]⟩
    rw [hs.rest]
    exact hm l (hs.vaRanges ch ▸ hl) r hr'
  · rw [hs.instancePtrDesc, hs.resources]
    exact h.known ch g (hs.gpuVaSpace ch ▸ hg)
  · rw [hs.gpuVaSpaces] at hg
    obtain ⟨hlt, hlook⟩ := h.attached g hg
    exact ⟨by rwa [hs.rest], by rwa [hs.rest]⟩
  · rw [hs.gpuVaSpaces]
    refine h.lookup gpu g ?_
    rwa [hs.rest] at hg
  · refine h.log e ?_
    rwa [hs.rest] at he

theorem Stops.evolves {X : ℕ → Prop} {Y : ProcessorId → Prop} (hs : Stops s s') (h : SpaceInv s) :
    Evolves X Y s s' where
  channelCount := by rw [hs.rest]
  gpuVaSpaceCount := by rw [hs.rest]
  unlisted := by
    intro ch _ _ hnone
    -- a channel that nothing lists is not bound
    have hunbound : (s.channels ch).isBound = false := by
      by_contra hb
      obtain ⟨⟨g, hr, -⟩, -, -⟩ := h.bound ch (Bool.not_eq_false _ |>.mp hb)
      have hsome := (h.listed g ch hr).2.2.1
      rw [hnone] at hsome
      cases hsome
    have hunbound' : (s'.channels ch).isBound = false := by
      by_contra hb
      have hb' := hs.isBound ch (Bool.not_eq_false _ |>.mp hb)
      rw [hunbound] at hb'
      cases hb'
    rw [hs.channel ch, hunbound', ← hunbound]
  isBound := fun ch _ _ hb => hs.isBound ch hb
  listed := by
    intro ch g _ _ hg
    rw [hs.gpuVaSpace ch] at hg
    refine ⟨hg, fun hr => ?_⟩
    unfold Space.Registered
    rw [hs.gpuVaSpaces]
    exact hr
  disallow := by
    intro g _ hd
    rwa [hs.gpuVaSpaces]
  stopped := by
    rw [hs.rest]
    exact id
  inProgress := by
    rw [hs.rest]
    exact fun _ _ hp => ⟨hp, fun _ hg => hg⟩

theorem Stops.owned (hs : Stops s s') (ch : ℕ) : s'.owned ch = s.owned ch := by
  unfold Space.owned
  rw [hs.vaRanges ch, hs.rest]

/-! ## Detaching -/

/-- A channel off its list, with its ranges still to be dropped. -/
def Space.unlink (s : Space) (g ch : ℕ) : Space :=
  { s with
    channels := update s.channels ch
      { s.channels ch with gpuVaSpace := none, vaRanges := none }
    gpuVaSpaces := update s.gpuVaSpaces g { s.gpuVaSpaces g with
      registeredChannels := (s.gpuVaSpaces g).registeredChannels.erase ch }
    log := .detached ch (s.channels ch).isBound :: s.log }

theorem destroyVaRanges_spec (h : RefsRight s s.uses) (hch : ch < s.channelCount) :
    RangesOnly (s.setChannel ch { s.channels ch with vaRanges := none }) (s.destroyVaRanges ch) ∧
      RefsRight (s.destroyVaRanges ch) (s.destroyVaRanges ch).uses := by
  unfold destroyVaRanges
  cases hl : (s.channels ch).vaRanges with
  | none =>
    have hsame : s.setChannel ch { s.channels ch with vaRanges := none } = s := by
      rw [← hl]
      exact congrArg (fun channels => { s with channels := channels }) (Function.update_eq_self ..)
    rw [hsame]
    exact ⟨RangesOnly.refl s, h⟩
  | some l =>
    dsimp only
    have honly := dropRanges_only l s
    have hdrop : RefsRight (l.foldl Space.dropRange s) fun r => s.uses r - l.count r := by
      refine h.dropRanges fun r => ?_
      have hle := uses_le hch r
      unfold UserChannel.uses at hle
      rwa [hl] at hle
    generalize l.foldl Space.dropRange s = a at honly hdrop
    refine ⟨⟨?_, honly.channelCount, honly.gpuVaSpaceCount, honly.registeredGpus,
      honly.gpuRegisterInProgress, honly.registeredGpuVaSpaces, honly.userChannelsStopped,
      honly.fatal, honly.gpuVaSpaces, honly.rangeCount, honly.ranges, honly.unmapped, honly.log⟩, ?_⟩
    · change update a.channels ch _ = update s.channels ch _
      rw [honly.channels]
    · refine hdrop.congr rfl rfl rfl (fun _ => rfl) (fun _ => rfl) fun r => ?_
      have hself : (a.setChannel ch { a.channels ch with vaRanges := none }).channels ch =
          { a.channels ch with vaRanges := none } := update_self ..
      have hother : ∀ other, other ≠ ch →
          (a.setChannel ch { a.channels ch with vaRanges := none }).channels other =
            s.channels other := fun other hne => by
        rw [← honly.channels]
        exact update_of_ne hne ..
      have hcnt : (a.setChannel ch { a.channels ch with vaRanges := none }).channelCount =
          s.channelCount := honly.channelCount
      have hsum : (a.setChannel ch { a.channels ch with vaRanges := none }).uses r +
          (s.channels ch).uses r = s.uses r +
          ((a.setChannel ch { a.channels ch with vaRanges := none }).channels ch).uses r :=
        uses_change hch hcnt hother r
      rw [hself] at hsum
      unfold UserChannel.uses at hsum
      rw [hl] at hsum
      simp only [Option.getD_some, Option.getD_none, List.count_nil] at hsum
      omega

theorem detach_spec (h : RefsRight s s.uses) (hg : (s.channels ch).gpuVaSpace = some g)
    (hch : ch < s.channelCount) :
    RangesOnly (s.unlink g ch) (s.detach ch) ∧ RefsRight (s.detach ch) (s.detach ch).uses := by
  unfold detach
  rw [hg]
  dsimp only
  have hlink : RefsRight ((s.record (.detached ch (s.channels ch).isBound)).setGpuVaSpace g
        { (s.record (.detached ch (s.channels ch).isBound)).gpuVaSpaces g with
          registeredChannels := ((s.record (.detached ch (s.channels ch).isBound)).gpuVaSpaces
            g).registeredChannels.erase ch })
      s.uses := by
    refine h.congr rfl rfl rfl (fun g' => ?_) (fun r => ?_) fun _ => rfl
    · change (update s.gpuVaSpaces g _ g').localChannelRanges = _
      by_cases heq : g' = g
      · subst heq
        rw [update_self]
        rfl
      · rw [update_of_ne heq]
    · exact List.count_cons_of_ne (by simp)
  obtain ⟨honly, hrefs⟩ := destroyVaRanges_spec hlink hch
  generalize destroyVaRanges _ ch = b at honly hrefs ⊢
  refine ⟨⟨?_, honly.channelCount, honly.gpuVaSpaceCount, honly.registeredGpus,
      honly.gpuRegisterInProgress, honly.registeredGpuVaSpaces, honly.userChannelsStopped,
      honly.fatal, honly.gpuVaSpaces, honly.rangeCount, honly.ranges, honly.unmapped, honly.log⟩, ?_⟩
  · change update _ ch _ = update s.channels ch _
    rw [honly.channels]
    change update (update s.channels ch _) ch
      { update s.channels ch _ ch with gpuVaSpace := none } = _
    rw [Function.update_idem, update_self]
    rfl
  · refine hrefs.congr rfl rfl rfl (fun _ => rfl) (fun _ => rfl) (uses_congr rfl fun other => ?_)
    change (update b.channels ch _ other).vaRanges = (b.channels other).vaRanges
    by_cases heq : other = ch
    · subst heq
      rw [update_self]
    · rw [update_of_ne heq]

/-- The hands that a channel may be in when it is detached: on the list of its GPU VA space, or in a
call that has not listed it. -/
structure Detachable (s : Space) (g ch : ℕ) : Prop where
  created : ch < s.channelCount
  gpuVaSpace : (s.channels ch).gpuVaSpace = some g
  isBound : (s.channels ch).isBound = false

theorem ChannelsRight.of_rangesOnly (h : ChannelsRight s) (honly : RangesOnly s s') :
    ChannelsRight s' := by
  have hreg : ∀ g ch, s'.Registered g ch ↔ s.Registered g ch := fun g ch => by
    unfold Space.Registered
    rw [honly.registeredChannels]
  refine ⟨fun g => ?_, fun g ch hr => ?_, fun ch l hl => ?_, fun ch hb => ?_, fun ch g hg => ?_,
    fun g hatt => ?_, fun gpu g hlook => ?_, fun r hr => ?_, fun r hr hfatal => ?_,
    fun e he => ?_⟩
  · rw [honly.registeredChannels]
    exact h.nodup g
  · obtain ⟨hlt, hg, hsome, hatt⟩ := h.listed g ch ((hreg g ch).mp hr)
    rw [honly.channels, honly.channelCount, honly.attached]
    exact ⟨hlt, hg, hsome, hatt⟩
  · rw [honly.channels] at hl
    obtain ⟨g, hr, hnd, hall⟩ := h.ranged ch l hl
    refine ⟨g, (hreg g ch).mpr hr, hnd, fun r hmem => ?_⟩
    obtain ⟨hlt, hg⟩ := hall r hmem
    exact ⟨hlt.trans_le honly.rangeCount, (honly.rangeGpuVaSpace hlt).trans hg⟩
  · rw [honly.channels] at hb
    obtain ⟨⟨g, hr, hdis⟩, hm, hrun⟩ := h.bound ch hb
    refine ⟨⟨g, (hreg g ch).mpr hr, by rwa [honly.disallowNewChannels]⟩, fun l hl r hmem => ?_,
      by rwa [honly.userChannelsStopped]⟩
    rw [honly.channels] at hl
    obtain ⟨_, -, -, hall⟩ := h.ranged ch l hl
    rw [honly.rangePtRanges (hall r hmem).1]
    exact hm l hl r hmem
  · rw [honly.channels] at hg ⊢
    exact h.known ch g hg
  · rw [honly.attached] at hatt
    rw [honly.gpu, honly.registeredGpuVaSpaces, honly.gpuVaSpaceCount]
    exact h.attached g hatt
  · rw [honly.registeredGpuVaSpaces] at hlook
    rw [honly.attached, honly.gpu]
    exact h.lookup gpu g hlook
  · exact honly.unmapped h.unmapped r (honly.rangeCount.trans hr)
  · -- a range with page tables was there before
    have hlt : r < s.rangeCount := by
      by_contra hge
      rw [honly.unmapped h.unmapped r (Nat.le_of_not_lt hge)] at hr
      cases hr
    rw [honly.rangePtRanges hlt] at hr
    rw [honly.fatal] at hfatal
    rw [honly.rangePtesWritten hlt]
    exact h.written r hr hfatal
  · by_cases hdestroyed : ∃ r, e = .rangeDestroyed r
    · obtain ⟨r, rfl⟩ := hdestroyed
      trivial
    · have hcnt := honly.log e fun r heq => hdestroyed ⟨r, heq⟩
      refine h.log e ?_
      rw [← List.count_pos_iff, ← hcnt]
      exact List.count_pos_iff.mpr he

theorem update_registered {registeredChannels : List ℕ} (g' : ℕ) : update s.gpuVaSpaces g
        { s.gpuVaSpaces g with registeredChannels := registeredChannels } g' =
      { s.gpuVaSpaces g' with
        registeredChannels :=
          if g' = g then registeredChannels else (s.gpuVaSpaces g').registeredChannels } := by
  by_cases heq : g' = g
  · subst heq
    rw [update_self, if_pos rfl]
  · rw [update_of_ne heq, if_neg heq]

theorem unlink_gpuVaSpace (s : Space) (g ch g' : ℕ) : (s.unlink g ch).gpuVaSpaces g' =
    { s.gpuVaSpaces g' with
      registeredChannels :=
        if g' = g then (s.gpuVaSpaces g).registeredChannels.erase ch
        else (s.gpuVaSpaces g').registeredChannels } :=
  update_registered g'

theorem unlink_registered (h : ChannelsRight s) (hd : Detachable s g ch) (g' other : ℕ) :
    (s.unlink g ch).Registered g' other ↔ s.Registered g' other ∧ other ≠ ch := by
  unfold Space.Registered
  rw [unlink_gpuVaSpace]
  by_cases heq : g' = g
  · subst heq
    rw [if_pos rfl, (h.nodup g').mem_erase_iff]
    exact and_comm
  · rw [if_neg heq]
    refine ⟨fun hr => ⟨hr, ?_⟩, And.left⟩
    rintro rfl
    -- a channel is on the list of its own GPU VA space only
    have hg' := (h.listed g' other hr).2.1
    rw [hd.gpuVaSpace] at hg'
    exact heq (Option.some.inj hg').symm

theorem unlink_channel (s : Space) (g ch other : ℕ) : (s.unlink g ch).channels other =
    if other = ch then { s.channels ch with gpuVaSpace := none, vaRanges := none }
    else s.channels other := by
  change update s.channels ch _ other = _
  by_cases heq : other = ch
  · subst heq
    rw [update_self, if_pos rfl]
  · rw [update_of_ne heq, if_neg heq]

theorem ChannelsRight.unlink (h : ChannelsRight s) (hd : Detachable s g ch) :
    ChannelsRight (s.unlink g ch) := by
  have hchan := unlink_channel s g ch
  have hreg := unlink_registered h hd
  have hgvs := unlink_gpuVaSpace s g ch
  have hother : ∀ other l, ((s.unlink g ch).channels other).vaRanges = some l →
      other ≠ ch ∧ (s.channels other).vaRanges = some l := by
    intro other l hl
    rw [hchan other] at hl
    by_cases heq : other = ch
    · rw [if_pos heq] at hl
      cases hl
    · rw [if_neg heq] at hl
      exact ⟨heq, hl⟩
  refine ⟨fun g' => ?_, fun g' other hr => ?_, fun other l hl => ?_, fun other hb => ?_,
    fun other g' hg' => ?_, fun g' hatt => ?_, fun gpu g' hlook => ?_, h.unmapped, h.written,
    fun e he => ?_⟩
  · rw [hgvs]
    split
    · exact (h.nodup g).erase ch
    · exact h.nodup g'
  · obtain ⟨hr, hne⟩ := (hreg g' other).mp hr
    rw [hchan other, if_neg hne, hgvs]
    exact h.listed g' other hr
  · obtain ⟨hne, hl'⟩ := hother other l hl
    obtain ⟨g', hr, hnd, hall⟩ := h.ranged other l hl'
    exact ⟨g', (hreg g' other).mpr ⟨hr, hne⟩, hnd, hall⟩
  · have hne : other ≠ ch := by
      rintro rfl
      rw [hchan other, if_pos rfl] at hb
      exact absurd (hb.symm.trans hd.isBound) (by simp)
    rw [hchan other, if_neg hne] at hb
    obtain ⟨⟨g', hr, hdis⟩, hm, hrun⟩ := h.bound other hb
    exact ⟨⟨g', (hreg g' other).mpr ⟨hr, hne⟩, by rwa [hgvs]⟩,
      fun l hl r hmem => hm l (hother other l hl).2 r hmem, hrun⟩
  · rw [hchan other] at hg' ⊢
    by_cases heq : other = ch
    · rw [if_pos heq] at hg'
      cases hg'
    · rw [if_neg heq] at hg' ⊢
      exact h.known other g' hg'
  · rw [hgvs] at hatt ⊢
    exact h.attached g' hatt
  · rw [hgvs]
    exact h.lookup gpu g' hlook
  · rcases List.mem_cons.mp he with rfl | he
    · exact hd.isBound
    · exact h.log e he

section Detach

variable {s : Space} {g ch : ℕ} (h : SpaceInv s) (hd : Detachable s g ch)

include h hd

theorem detach_channel (other : ℕ) : (s.detach ch).channels other =
    if other = ch then { s.channels ch with gpuVaSpace := none, vaRanges := none }
    else s.channels other := by
  rw [(detach_spec h.refs hd.gpuVaSpace hd.created).1.channels]
  exact unlink_channel s g ch other

theorem detach_registered (g' other : ℕ) :
    (s.detach ch).Registered g' other ↔ s.Registered g' other ∧ other ≠ ch := by
  rw [← unlink_registered h.toChannelsRight hd]
  unfold Space.Registered
  rw [(detach_spec h.refs hd.gpuVaSpace hd.created).1.registeredChannels g']

theorem detach_disallow (g' : ℕ) : ((s.detach ch).gpuVaSpaces g').disallowNewChannels =
      (s.gpuVaSpaces g').disallowNewChannels := by
  rw [(detach_spec h.refs hd.gpuVaSpace hd.created).1.disallowNewChannels g', unlink_gpuVaSpace]

theorem detach_attached (g' : ℕ) :
    ((s.detach ch).gpuVaSpaces g').attached = (s.gpuVaSpaces g').attached := by
  rw [(detach_spec h.refs hd.gpuVaSpace hd.created).1.attached g', unlink_gpuVaSpace]

theorem detach_gpu (g' : ℕ) : ((s.detach ch).gpuVaSpaces g').gpu = (s.gpuVaSpaces g').gpu := by
  rw [(detach_spec h.refs hd.gpuVaSpace hd.created).1.gpu g', unlink_gpuVaSpace]

theorem SpaceInv.detach : SpaceInv (s.detach ch) := by
  obtain ⟨honly, hrefs⟩ := detach_spec h.refs hd.gpuVaSpace hd.created
  exact ⟨(h.toChannelsRight.unlink hd).of_rangesOnly honly, hrefs⟩

theorem detach_evolves {X : ℕ → Prop} {Y : ProcessorId → Prop}
    (hX : (s.channels ch).vaRanges = none → X ch) : Evolves X Y s (s.detach ch) := by
  obtain ⟨honly, -⟩ := detach_spec h.refs hd.gpuVaSpace hd.created
  have hchan := detach_channel h hd
  refine ⟨by rw [honly.channelCount]; exact le_refl _, by rw [honly.gpuVaSpaceCount]; exact le_refl _,
    fun other hnX _ hnone => ?_, fun other _ _ hb => ?_, fun other g' _ _ hg' => ?_,
    fun g' _ hdis => ?_, fun hs => ?_, fun gpu _ hp => ?_⟩
  · have hne : other ≠ ch := by
      rintro rfl
      exact hnX (hX hnone)
    rw [hchan other, if_neg hne]
  · rw [hchan other] at hb
    by_cases heq : other = ch
    · subst heq
      rwa [if_pos rfl] at hb
    · rwa [if_neg heq] at hb
  · rw [hchan other] at hg'
    by_cases heq : other = ch
    · rw [if_pos heq] at hg'
      cases hg'
    · rw [if_neg heq] at hg'
      exact ⟨hg', fun hr => (detach_registered h hd g' other).mpr ⟨hr, heq⟩⟩
  · rwa [detach_disallow h hd]
  · rw [honly.userChannelsStopped]
    exact hs
  · rw [honly.gpuRegisterInProgress, honly.registeredGpuVaSpaces]
    exact ⟨hp, fun _ hg' => hg'⟩

theorem detach_owned (other : ℕ) : (s.detach ch).owned other +
      (if other = ch ∧ (s.channels ch).vaRanges.isSome then 1 else 0) = s.owned other := by
  obtain ⟨honly, -⟩ := detach_spec h.refs hd.gpuVaSpace hd.created
  have hcnt : (s.detach ch).log.count (.channelDestroyed other) =
      s.log.count (.channelDestroyed other) := by
    rw [honly.log _ fun r => by simp]
    exact List.count_cons_of_ne (by simp)
  unfold Space.owned
  rw [hcnt, detach_channel h hd other]
  by_cases heq : other = ch
  · subst heq
    cases (s.channels other).vaRanges <;> simp [Nat.add_comm]
  · rw [if_neg heq]
    simp [heq]

end Detach

end NvUvm.ChannelLife
