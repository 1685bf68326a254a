import NvUvm.BlockMigrations
import NvUvm.Lib.CountedList

/-!
# The invariant of the block migrations

Each block migration belongs to its push, then to the queue or the worker of the tools, and each
migration data to its block migration.  The list of channels is a list of entries that count: the
pushes of the channel that have not handed over their events, and the calls of
`uvm_tools_schedule_completed_events` that retain the entry.
-/

namespace NvUvm

open Lib
open Function (update update_of_ne update_self)

namespace MigrationTools

/-! ## The invariant -/

def entry (s : MigrationTools) (e : ℕ) : Option (ℕ × ℕ) :=
  (s.blocks e).map fun data =>
    (data.selfChannelEntry.channel, data.selfChannelEntry.pendingEventCount)

/-- The push is on the channel and has not handed over its events. -/
def isPendingOn (channel : ℕ) (push : MigrationPush) : Bool :=
  push.onCompleteData.isSome && decide (push.channel = channel)

/-- The pushes of a channel that have not handed over their events. -/
def pendingPushes (s : MigrationTools) (channel : ℕ) : ℕ := s.pushes.countP (isPendingOn channel)

def retains (s : MigrationTools) (e : ℕ) : ℕ :=
  s.calls.countP fun call => decide (e ∈ call.retained)

def Completed (s : MigrationTools) (i : ℕ) : Prop :=
  ∃ push, s.pushes[i]? = some push ∧ push.phase = .completed

/-- The worker or its queue has the block migration. -/
def HandedOver (s : MigrationTools) (b : ℕ) : Prop :=
  b ∈ s.toolsQueue ∨ ∃ timestamp, s.worker = some (b, timestamp)

/-- The block migration of a push. -/
structure PushOwns (s : MigrationTools) (i : ℕ) (push : MigrationPush) (b : ℕ) : Prop where
  block : ∃ data, s.blocks b = some data ∧ data.push = i ∧
    data.selfChannelEntry.channel = push.channel ∧ data.selfChannelEntry.parentAlive = true
  phase : push.phase ≠ .completed
  notHandedOver : ¬ s.HandedOver b

/-- To whom the block migrations belong. -/
structure Owners (s : MigrationTools) : Prop where
  pushes : ∀ i push b, s.pushes[i]? = some push → push.onCompleteData = some b →
    s.PushOwns i push b
  given : ∀ b, s.HandedOver b → ∃ data, s.blocks b = some data ∧
    data.selfChannelEntry.parentAlive = true ∧ s.Completed data.push
  queue : s.toolsQueue.Nodup
  running : ∀ b timestamp, s.worker = some (b, timestamp) → b ∉ s.toolsQueue

/-- The migration data are those of the block migrations. -/
structure Events (s : MigrationTools) : Prop where
  events : ∀ b data, s.blocks b = some data → data.events.Nodup ∧
    ∀ m ∈ data.events, ∃ mig, s.migs m = some mig ∧ mig.parent = b
  migs : ∀ m mig, s.migs m = some mig → ∃ data, s.blocks mig.parent = some data ∧ m ∈ data.events
  orphans : ∀ b data, s.blocks b = some data → data.selfChannelEntry.parentAlive = false →
    data.events = []

/-- A call is on its way through the entries that it has retained. -/
def Walks (call : ScheduleCall) : Prop :=
  match call.phase with
  | .first => call.channelCount = call.retained.length
  | .atEntry k current => call.channelCount = call.retained.length ∧ k ≤ call.channelCount ∧
    (k < call.channelCount → current = call.retained[k]?)
  | .updating k e _ => call.channelCount = call.retained.length ∧ k < call.channelCount ∧
    call.retained[k]? = some e
  | .finished => call.retained = []

/-- **What each section keeps.**  `extra` are the entries that a section still has to release. -/
structure Core (extra : List ℕ) (s : MigrationTools) : Prop where
  untouched : s.touchedFreed = false
  freshBlock : ∀ b, s.nextBlock ≤ b → s.blocks b = none
  freshMig : ∀ m, s.nextMig ≤ m → s.migs m = none
  counts : CountedList s.channelList s.entry s.pendingPushes fun e => s.retains e + extra.count e
  entries : ∀ push ∈ s.pushes, ∀ b data, push.onCompleteData = some b → s.blocks b = some data →
    data.channelEntry ∈ s.channelList ∧ ∃ n, s.entry data.channelEntry = some (push.channel, n)
  owners : s.Owners
  events : s.Events
  calls : ∀ call ∈ s.calls, call.retained <+: s.channelList ∧ Walks call

/-- A block migration whose worker is done stays only for its entry. -/
def Orphans (s : MigrationTools) : Prop :=
  ∀ b data, s.blocks b = some data → data.selfChannelEntry.parentAlive = false →
    b ∈ s.channelList

/-- A block migration whose worker is not done belongs to its push, the queue or the worker. -/
def Owned (s : MigrationTools) : Prop :=
  ∀ b data, s.blocks b = some data → data.selfChannelEntry.parentAlive = true →
    (∃ push, s.pushes[data.push]? = some push ∧ push.onCompleteData = some b) ∨ s.HandedOver b

/-- The invariant. -/
structure Inv (s : MigrationTools) : Prop where
  core : s.Core []
  orphans : s.Orphans
  owned : s.Owned

variable {s : MigrationTools} {extra extra' list' : List ℕ} {b e i k n : ℕ}
  {data data' : BlockMigrationData} {push push' : MigrationPush}

/-! ## Blocks -/

theorem entry_eq_some (hb : s.blocks b = some data) :
    s.entry b = some (data.selfChannelEntry.channel, data.selfChannelEntry.pendingEventCount) := by
  unfold entry
  rw [hb]
  rfl

theorem entry_update (s : MigrationTools) (b : ℕ) (value : Option BlockMigrationData) :
    (fun e => (update s.blocks b value e).map fun data =>
      (data.selfChannelEntry.channel, data.selfChannelEntry.pendingEventCount)) =
      update s.entry b (value.map fun data =>
        (data.selfChannelEntry.channel, data.selfChannelEntry.pendingEventCount)) := by
  funext e
  by_cases heq : e = b
  · subst heq
    rw [update_self, update_self]
  · rw [update_of_ne heq, update_of_ne heq]
    rfl

theorem Core.block_of_mem (h : s.Core extra) (he : e ∈ s.channelList) :
    ∃ data, s.blocks e = some data := by
  obtain ⟨k, n, hentry⟩ := h.counts.isSome he
  obtain ⟨data, hdata, -⟩ := Option.map_eq_some_iff.mp hentry
  exact ⟨data, hdata⟩

/-- The owner is the same. -/
structure SameOwner (data data' : BlockMigrationData) : Prop where
  channelEntry : data'.channelEntry = data.channelEntry
  channel : data'.selfChannelEntry.channel = data.selfChannelEntry.channel
  parentAlive : data'.selfChannelEntry.parentAlive = data.selfChannelEntry.parentAlive
  push : data'.push = data.push

/-- All but the count and the timestamps are the same. -/
structure SameBlock (data data' : BlockMigrationData) : Prop extends SameOwner data data' where
  events : data'.events = data.events

theorem SameOwner.refl (data : BlockMigrationData) : SameOwner data data := ⟨rfl, rfl, rfl, rfl⟩

theorem SameBlock.refl (data : BlockMigrationData) : SameBlock data data := ⟨.refl data, rfl⟩

theorem SameBlock.trans {d₁ d₂ d₃ : BlockMigrationData} (h₁ : SameBlock d₁ d₂)
    (h₂ : SameBlock d₂ d₃) : SameBlock d₁ d₃ :=
  ⟨⟨h₂.channelEntry.trans h₁.channelEntry, h₂.channel.trans h₁.channel,
    h₂.parentAlive.trans h₁.parentAlive, h₂.push.trans h₁.push⟩, h₂.events.trans h₁.events⟩

section Update

variable {R : BlockMigrationData → BlockMigrationData → Prop}

theorem back_of_update (hrefl : ∀ d, R d d) (hb : s.blocks b = some data) (hR : R data data')
    {b' : ℕ} {d' : BlockMigrationData}
    (h : update s.blocks b (some data') b' = some d') :
    ∃ d, s.blocks b' = some d ∧ R d d' := by
  by_cases heq : b' = b
  · subst heq
    rw [update_self] at h
    obtain rfl := Option.some.inj h
    exact ⟨data, hb, hR⟩
  · rw [update_of_ne heq] at h
    exact ⟨d', h, hrefl d'⟩

theorem forth_of_update (hrefl : ∀ d, R d d) (hb : s.blocks b = some data) (hR : R data data')
    {b' : ℕ} {d : BlockMigrationData} (h : s.blocks b' = some d) :
    ∃ d', update s.blocks b (some data') b' = some d' ∧ R d d' := by
  by_cases heq : b' = b
  · subst heq
    obtain rfl := Option.some.inj (hb.symm.trans h)
    exact ⟨data', update_self .., hR⟩
  · exact ⟨d, (update_of_ne heq ..).trans h, hrefl d⟩

end Update

/-- **A block migration is written** without a change of its owner: the list of channels, the counts
and the migration data may change. -/
theorem Core.writeBlock (h : s.Core extra) (hb : s.blocks b = some data)
    (hsame : SameOwner data data')
    (hcnts : CountedList list' (update s.entry b
      (some (data'.selfChannelEntry.channel, data'.selfChannelEntry.pendingEventCount)))
      s.pendingPushes fun e => s.retains e + extra'.count e)
    (hkeep : ∀ e ∈ s.channelList, ∀ k n, s.entry e = some (k, n) → 0 < s.pendingPushes k →
      e ∈ list')
    (hcalls : ∀ call ∈ s.calls, call.retained <+: list') {migs' : ℕ → Option MigrationData}
    {nextMig' : ℕ} (hfresh : ∀ m, nextMig' ≤ m → migs' m = none)
    (hevs : ({ s.setBlock b data' with migs := migs' } : MigrationTools).Events) :
    ({ s.setBlock b data' with channelList := list', migs := migs', nextMig := nextMig' } :
      MigrationTools).Core extra' := by
  have hentry : (s.setBlock b data').entry = _ := entry_update s b (some data')
  have hback : ∀ {b' d'}, update s.blocks b (some data') b' = some d' →
      ∃ d, s.blocks b' = some d ∧ SameOwner d d' := back_of_update SameOwner.refl hb hsame
  have hforth : ∀ {b' d}, s.blocks b' = some d →
      ∃ d', update s.blocks b (some data') b' = some d' ∧ SameOwner d d' :=
    forth_of_update SameOwner.refl hb hsame
  have hb' : b < s.nextBlock := by
    by_contra hge
    rw [h.freshBlock b (Nat.le_of_not_lt hge)] at hb
    cases hb
  refine ⟨h.untouched, fun b' hb'' => ?_, hfresh, ?_, fun push hpush b' d' hon hd' => ?_, ?_,
    ⟨hevs.events, hevs.migs, hevs.orphans⟩,
    fun call hcall => ⟨hcalls call hcall, (h.calls call hcall).2⟩⟩
  · have hne : b' ≠ b := by
      rintro rfl
      exact absurd hb'' (Nat.not_le_of_lt hb')
    exact (update_of_ne hne ..).trans (h.freshBlock b' hb'')
  · show CountedList list' (s.setBlock b data').entry _ _
    rw [hentry]
    exact hcnts
  · obtain ⟨d, hd, hsame'⟩ := hback hd'
    obtain ⟨hmem, n, hn⟩ := h.entries push hpush b' d hon hd
    have hpos : 0 < s.pendingPushes push.channel := by
      refine List.countP_pos_iff.mpr ⟨push, hpush, ?_⟩
      simp [isPendingOn, hon]
    rw [hsame'.channelEntry]
    refine ⟨hkeep _ hmem _ _ hn hpos, ?_⟩
    show ∃ n, (s.setBlock b data').entry d.channelEntry = some (push.channel, n)
    rw [hentry]
    by_cases heq : d.channelEntry = b
    · rw [heq, entry_eq_some hb] at hn
      rw [heq, update_self]
      have hchan := (Prod.mk.inj (Option.some.inj hn)).1
      refine ⟨data'.selfChannelEntry.pendingEventCount, ?_⟩
      show some (data'.selfChannelEntry.channel, _) = _
      rw [hsame.channel, hchan]
    · rw [update_of_ne heq]
      exact ⟨n, hn⟩
  · refine ⟨fun i push b' hpush hon => ?_, fun b' hgiven => ?_, h.owners.queue, h.owners.running⟩
    · obtain ⟨⟨d, hd, hrest⟩, hphase, hnot⟩ := h.owners.pushes i push b' hpush hon
      obtain ⟨d', hd', hsame'⟩ := hforth hd
      refine ⟨⟨d', hd', ?_⟩, hphase, hnot⟩
      rw [hsame'.push, hsame'.channel, hsame'.parentAlive]
      exact hrest
    · obtain ⟨d, hd, halive, hcompl⟩ := h.owners.given b' hgiven
      obtain ⟨d', hd', hsame'⟩ := hforth hd
      refine ⟨d', hd', hsame'.parentAlive.trans halive, ?_⟩
      rw [hsame'.push]
      exact hcompl

theorem Events.setBlock (h : s.Events) (hb : s.blocks b = some data)
    (hsame : SameBlock data data') : (s.setBlock b data').Events := by
  have hback : ∀ {b' d'}, update s.blocks b (some data') b' = some d' →
      ∃ d, s.blocks b' = some d ∧ SameBlock d d' := back_of_update SameBlock.refl hb hsame
  refine ⟨fun b' d' hd' => ?_, fun m mig hm => ?_, fun b' d' hd' hdead => ?_⟩
  · obtain ⟨d, hd, hsame'⟩ := hback hd'
    rw [hsame'.events]
    exact h.events b' d hd
  · obtain ⟨d, hd, hmem⟩ := h.migs m mig hm
    obtain ⟨d', hd', hsame'⟩ := forth_of_update SameBlock.refl hb hsame hd
    exact ⟨d', hd', hsame'.events ▸ hmem⟩
  · obtain ⟨d, hd, hsame'⟩ := hback hd'
    rw [hsame'.events]
    exact h.orphans b' d hd (hsame'.parentAlive.symm.trans hdead)

theorem Core.freeBlock (h : s.Core extra) (hb : s.blocks b = some data)
    (hdead : data.selfChannelEntry.parentAlive = false) (hoff : b ∉ s.channelList) :
    ({ s with blocks := update s.blocks b none } : MigrationTools).Core extra := by
  have hback : ∀ {b' d'}, update s.blocks b none b' = some d' → s.blocks b' = some d' := by
    intro b' d' hd'
    by_cases heq : b' = b
    · subst heq
      rw [update_self] at hd'
      cases hd'
    · rwa [update_of_ne heq] at hd'
  have hforth : ∀ {b' d'}, s.blocks b' = some d' →
      (d'.selfChannelEntry.parentAlive = true ∨ d'.events ≠ []) →
      update s.blocks b none b' = some d' := by
    intro b' d' hd' hlive
    refine (update_of_ne ?_ ..).trans hd'
    rintro rfl
    obtain rfl := Option.some.inj (hb.symm.trans hd')
    rcases hlive with hlive | hlive
    · rw [hdead] at hlive
      cases hlive
    · exact hlive (h.events.orphans _ _ hb hdead)
  have hentry : ({ s with blocks := update s.blocks b none } : MigrationTools).entry =
      update s.entry b none := entry_update s b none
  refine ⟨h.untouched, fun b' hb' => ?_, h.freshMig, ?_, fun push hpush b' d' hon hd' => ?_, ?_, ?_,
    h.calls⟩
  · by_cases heq : b' = b
    · subst heq
      exact update_self ..
    · exact (update_of_ne heq ..).trans (h.freshBlock b' hb')
  · rw [hentry]
    exact h.counts.forget hoff (by simp)
  · obtain ⟨hmem, n, hn⟩ := h.entries push hpush b' d' hon (hback hd')
    have hne : d'.channelEntry ≠ b := fun heq => hoff (heq ▸ hmem)
    refine ⟨hmem, n, ?_⟩
    rw [hentry, update_of_ne hne]
    exact hn
  · refine ⟨fun i push b' hpush hon => ?_, fun b' hgiven => ?_, h.owners.queue, h.owners.running⟩
    · obtain ⟨⟨d, hd, hpushOf, hchan, halive⟩, hphase, hnot⟩ :=
        h.owners.pushes i push b' hpush hon
      exact ⟨⟨d, hforth hd (.inl halive), hpushOf, hchan, halive⟩, hphase, hnot⟩
    · obtain ⟨d, hd, halive, hcompl⟩ := h.owners.given b' hgiven
      exact ⟨d, hforth hd (.inl halive), halive, hcompl⟩
  · refine ⟨fun b' d' hd' => h.events.events b' d' (hback hd'), fun m mig hm => ?_,
      fun b' d' hd' => h.events.orphans b' d' (hback hd')⟩
    obtain ⟨d, hd, hmem⟩ := h.events.migs m mig hm
    exact ⟨d, hforth hd (.inr (List.ne_nil_of_mem hmem)), hmem⟩

/-! ## The counts -/

/-- What a change of the counts leaves alone: the parties, and the block migrations but for their
counts and those that are freed. -/
structure Recounted (s s' : MigrationTools) : Prop where
  pushes : s'.pushes = s.pushes
  calls : s'.calls = s.calls
  toolsQueue : s'.toolsQueue = s.toolsQueue
  worker : s'.worker = s.worker
  alive : ∀ b d, s.blocks b = some d → d.selfChannelEntry.parentAlive = true →
    ∃ d', s'.blocks b = some d' ∧ SameBlock d d'
  blocks : ∀ b d', s'.blocks b = some d' → ∃ d, s.blocks b = some d ∧ SameBlock d d'
  orphans : s.Orphans → s'.Orphans

theorem Recounted.refl (s : MigrationTools) : Recounted s s :=
  ⟨rfl, rfl, rfl, rfl, fun _ d hd _ => ⟨d, hd, .refl d⟩, fun _ d hd => ⟨d, hd, .refl d⟩, id⟩

theorem Recounted.trans {s₁ s₂ s₃ : MigrationTools} (h₁ : Recounted s₁ s₂) (h₂ : Recounted s₂ s₃) :
    Recounted s₁ s₃ := by
  refine ⟨h₂.pushes.trans h₁.pushes, h₂.calls.trans h₁.calls, h₂.toolsQueue.trans h₁.toolsQueue,
    h₂.worker.trans h₁.worker, fun b d hd halive => ?_, fun b d hd => ?_, h₂.orphans ∘ h₁.orphans⟩
  · obtain ⟨d₂, hd₂, hsame⟩ := h₁.alive b d hd halive
    obtain ⟨d₃, hd₃, hsame'⟩ := h₂.alive b d₂ hd₂ (hsame.parentAlive.trans halive)
    exact ⟨d₃, hd₃, hsame.trans hsame'⟩
  · obtain ⟨d₂, hd₂, hsame'⟩ := h₂.blocks b d hd
    obtain ⟨d₁, hd₁, hsame⟩ := h₁.blocks b d₂ hd₂
    exact ⟨d₁, hd₁, hsame.trans hsame'⟩

theorem Recounted.owned {s' : MigrationTools} (h : Recounted s s') (howned : s.Owned) :
    s'.Owned := by
  intro b d' hd' halive
  obtain ⟨d, hd, hsame⟩ := h.blocks b d' hd'
  have hown := howned b d hd (hsame.parentAlive.symm.trans halive)
  unfold HandedOver at hown ⊢
  rw [h.pushes, h.toolsQueue, h.worker, hsame.push]
  exact hown

def withCount (data : BlockMigrationData) (count : ℕ) : BlockMigrationData :=
  { data with selfChannelEntry := { data.selfChannelEntry with pendingEventCount := count } }

theorem sameBlock_withCount (data : BlockMigrationData) (count : ℕ) :
    SameBlock data (withCount data count) :=
  ⟨⟨rfl, rfl, rfl, rfl⟩, rfl⟩

private theorem recounted_setBlock (hb : s.blocks b = some data) (hsame : SameBlock data data')
    (horphans : ∀ b' d, s.blocks b' = some d → d.selfChannelEntry.parentAlive = false →
      b' ∈ s.channelList → b' ∈ list') :
    Recounted s { s.setBlock b data' with channelList := list' } := by
  refine ⟨rfl, rfl, rfl, rfl, fun b' d hd _ => forth_of_update .refl hb hsame hd,
    fun b' d' hd' => back_of_update .refl hb hsame hd', fun hs b' d' hd' hdead => ?_⟩
  obtain ⟨d, hd, hsame'⟩ := back_of_update .refl hb hsame hd'
  have hdead' := hsame'.parentAlive.symm.trans hdead
  exact horphans b' d hd hdead' (hs b' d hd hdead')

theorem Core.retain (h : s.Core extra) (he : e ∈ s.channelList) :
    ∃ s', s.retainEntry e = some s' ∧ s'.Core (e :: extra) ∧ Recounted s s' ∧
      s'.channelList = s.channelList := by
  obtain ⟨data, hdata⟩ := h.block_of_mem he
  have hentry := entry_eq_some hdata
  obtain ⟨hcnt, hpos⟩ := h.counts.count_eq he hentry
  have hsame := sameBlock_withCount data (data.selfChannelEntry.pendingEventCount + 1)
  refine ⟨_, congrArg _ hdata, ?_, recounted_setBlock hdata hsame fun _ _ _ _ hin => hin, rfl⟩
  refine h.writeBlock hdata hsame.toSameOwner ?_ (fun _ hin _ _ _ _ => hin)
    (fun call hcall => (h.calls call hcall).1) h.freshMig (h.events.setBlock hdata hsame)
  refine h.counts.recount he hentry (fun _ _ => rfl) (fun e' _ hne => ?_) ?_ (Nat.succ_pos _)
  · rw [List.count_cons_of_ne hne.symm]
  · rw [List.count_cons_self, hcnt]
    rfl

private theorem Core.removePending_pos (h : s.Core (e :: extra)) (he : e ∈ s.channelList)
    (hdata : s.blocks e = some data) (hpos : data.selfChannelEntry.pendingEventCount - 1 ≠ 0) :
    ∃ s', s.removePendingEventForChannel e = some s' ∧ s'.Core extra ∧ Recounted s s' ∧
      s'.channelList = s.channelList := by
  have hentry := entry_eq_some hdata
  obtain ⟨hcnt, -⟩ := h.counts.count_eq he hentry
  have hsame := sameBlock_withCount data (data.selfChannelEntry.pendingEventCount - 1)
  refine ⟨s.setPendingEventCount e data (data.selfChannelEntry.pendingEventCount - 1), ?_, ?_,
    recounted_setBlock hdata hsame fun _ _ _ _ hin => hin, rfl⟩
  · unfold removePendingEventForChannel
    rw [hdata]
    exact if_neg hpos
  refine h.writeBlock hdata hsame.toSameOwner ?_ (fun _ hin _ _ _ _ => hin)
    (fun call hcall => (h.calls call hcall).1) h.freshMig (h.events.setBlock hdata hsame)
  refine h.counts.recount he hentry (fun _ _ => rfl) (fun e' _ hne => ?_) ?_
    (Nat.pos_of_ne_zero hpos)
  · rw [List.count_cons_of_ne hne.symm]
  · rw [List.count_cons_self] at hcnt
    show data.selfChannelEntry.pendingEventCount - 1 =
      s.pendingPushes data.selfChannelEntry.channel + (s.retains e + extra.count e)
    omega

private theorem Core.removePending_zero (h : s.Core (e :: extra)) (he : e ∈ s.channelList)
    (hdata : s.blocks e = some data) (hzero : data.selfChannelEntry.pendingEventCount - 1 = 0) :
    ({ s.setPendingEventCount e data 0 with channelList := s.channelList.erase e } :
      MigrationTools).Core extra := by
  have hentry := entry_eq_some hdata
  obtain ⟨hcnt, -⟩ := h.counts.count_eq he hentry
  rw [List.count_cons_self] at hcnt
  have hretains : s.retains e = 0 := by omega
  have hsame := sameBlock_withCount data 0
  refine h.writeBlock hdata hsame.toSameOwner ?_ (fun e' he' k' n' hn' hpos => ?_)
    (fun call hcall => ?_) h.freshMig (h.events.setBlock hdata hsame)
  · refine h.counts.remove he hentry (fun _ _ => rfl) (fun e' _ hne => ?_) ?_
    · rw [List.count_cons_of_ne hne.symm]
    · show s.pendingPushes data.selfChannelEntry.channel + (s.retains e + extra.count e) = 0
      omega
  · refine (List.mem_erase_of_ne ?_).mpr he'
    rintro rfl
    obtain ⟨rfl, -⟩ := Prod.mk.inj (Option.some.inj (hentry.symm.trans hn'))
    omega
  · -- no call retains the entry, so it is none of those that a call has yet to come to
    have hnot : e ∉ call.retained := by
      intro hin
      have := List.countP_eq_zero.mp hretains call hcall
      exact this (decide_eq_true hin)
    obtain ⟨rest, hrest⟩ := (h.calls call hcall).1
    rw [← hrest, List.erase_append_right _ hnot]
    exact List.prefix_append ..

theorem Core.removePending (h : s.Core (e :: extra)) (he : e ∈ s.channelList) :
    ∃ s', s.removePendingEventForChannel e = some s' ∧ s'.Core extra ∧ Recounted s s' ∧
      ∀ e' ∈ s.channelList, e' ≠ e → e' ∈ s'.channelList := by
  obtain ⟨data, hdata⟩ := h.block_of_mem he
  by_cases hzero : data.selfChannelEntry.pendingEventCount - 1 = 0
  swap
  · obtain ⟨s', hs', hcore, hrec, hlist⟩ := h.removePending_pos he hdata hzero
    exact ⟨s', hs', hcore, hrec, fun e' he' _ => hlist ▸ he'⟩
  have hcore := h.removePending_zero he hdata hzero
  have hsame := sameBlock_withCount data 0
  have hlist : ∀ e' ∈ s.channelList, e' ≠ e → e' ∈ s.channelList.erase e :=
    fun e' he' hne => (List.mem_erase_of_ne hne).mpr he'
  have hnd := h.counts.nodup
  unfold removePendingEventForChannel
  rw [hdata]
  dsimp only
  rw [if_pos hzero, hzero]
  cases halive : data.selfChannelEntry.parentAlive with
  | true =>
    refine ⟨_, rfl, hcore, recounted_setBlock hdata hsame fun b' d hd hdead hin => ?_, hlist⟩
    refine hlist b' hin ?_
    rintro rfl
    obtain rfl := Option.some.inj (hdata.symm.trans hd)
    rw [halive] at hdead
    cases hdead
  | false =>
    -- the worker is done with the block migration of the entry
    have hblock : ({ s.setPendingEventCount e data 0 with channelList := s.channelList.erase e } :
        MigrationTools).blocks e = some (withCount data 0) := update_self ..
    have hoff : e ∉ s.channelList.erase e := hnd.not_mem_erase
    have hfree := hcore.freeBlock hblock halive hoff
    have hupd : ∀ {b' d'},
        update (update s.blocks e (some (withCount data 0))) e none b' = some d' →
          b' ≠ e ∧ s.blocks b' = some d' := by
      intro b' d' hd'
      by_cases heq : b' = e
      · subst heq
        rw [update_self] at hd'
        cases hd'
      · rw [update_of_ne heq, update_of_ne heq] at hd'
        exact ⟨heq, hd'⟩
    refine ⟨_, ?_, hfree, ⟨rfl, rfl, rfl, rfl, fun b' d hd hd' => ?_, fun b' d' hd' => ?_,
      fun hs b' d' hd' hdead => ?_⟩, hlist⟩
    · show Option.map _ _ = _
      rw [hblock]
      rfl
    · have hne : b' ≠ e := by
        rintro rfl
        obtain rfl := Option.some.inj (hdata.symm.trans hd)
        rw [halive] at hd'
        cases hd'
      refine ⟨d, ?_, .refl d⟩
      exact (update_of_ne hne ..).trans ((update_of_ne hne ..).trans hd)
    · exact ⟨d', (hupd hd').2, .refl d'⟩
    · obtain ⟨hne, hd⟩ := hupd hd'
      exact hlist b' (hs b' d' hd hdead) hne

end MigrationTools

end NvUvm
