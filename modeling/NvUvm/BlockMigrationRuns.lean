import NvUvm.BlockMigrationSections

/-!
# Runs of the block migrations

The sections under the lock of the list of channels, and runs of all parties.
-/

namespace NvUvm

open Lib
open Function (update update_of_ne update_self)

namespace MigrationTools

variable {s s' : MigrationTools} {extra : List ℕ} {b e i k n : ℕ}
  {data : BlockMigrationData} {push : MigrationPush} {call : ScheduleCall}

/-! ## A push and its block migration -/

/-- The block migration of a push that is to get it: nobody else has it. -/
structure Unowned (s : MigrationTools) (i : ℕ) (push : MigrationPush) (b : ℕ)
    (data : BlockMigrationData) : Prop where
  block : s.blocks b = some data
  ofPush : data.push = i
  channel : data.selfChannelEntry.channel = push.channel
  parentAlive : data.selfChannelEntry.parentAlive = true
  notHandedOver : ¬ s.HandedOver b
  entry : data.channelEntry ∈ s.channelList ∧
    ∃ n, s.entry data.channelEntry = some (push.channel, n)

theorem isPendingOn_some (push : MigrationPush) (b k : ℕ) :
    isPendingOn k { push with onCompleteData := some b } = decide (push.channel = k) := rfl

theorem isPendingOn_none (h : push.onCompleteData = none) (k : ℕ) : isPendingOn k push = false := by
  unfold isPendingOn
  rw [h]
  rfl

theorem Core.giveBlock (h : s.Core (data.channelEntry :: extra)) (hi : s.pushes[i]? = some push)
    (hon : push.onCompleteData = none) (hphase : push.phase ≠ .completed)
    (hunowned : Unowned s i push b data) :
    (s.setPush i { push with onCompleteData := some b }).Core extra := by
  obtain ⟨hmem, n, hentry⟩ := hunowned.entry
  have hget := getElem?_setPush hi { push with onCompleteData := some b }
  have hpend : ∀ k, (s.pushes.set i { push with onCompleteData := some b }).countP (isPendingOn k) =
        s.pendingPushes k + if push.channel = k then 1 else 0 := by
    intro k
    have hcnt := countP_set_add hi { push with onCompleteData := some b } (isPendingOn k)
    rw [isPendingOn_none hon, isPendingOn_some] at hcnt
    simpa [pendingPushes] using hcnt
  refine ⟨h.untouched, h.freshBlock, h.freshMig, ?_, fun push' hpush' b' d hon' hd => ?_,
    ⟨fun j push' b' hj hon' => ?_, fun b' hgiven => ?_, h.owners.queue, h.owners.running⟩,
    ⟨h.events.events, h.events.migs, h.events.orphans⟩, h.calls⟩
  · refine h.counts.shift hmem hentry (fun k hne => ?_) (fun e' _ hne => ?_) ?_
    · exact (hpend k).trans (by rw [if_neg (Ne.symm hne), Nat.add_zero])
    · show s.retains e' + extra.count e' = _
      rw [List.count_cons_of_ne hne.symm]
    · show (s.pushes.set i _).countP (isPendingOn push.channel) +
        (s.retains data.channelEntry + extra.count data.channelEntry) = _
      rw [hpend, if_pos rfl, List.count_cons_self]
      omega
  · rcases List.mem_or_eq_of_mem_set hpush' with hpush' | rfl
    · exact h.entries push' hpush' b' d hon' hd
    · obtain rfl := Option.some.inj hon'
      obtain rfl := Option.some.inj (hunowned.block.symm.trans hd)
      exact ⟨hmem, n, hentry⟩
  · change (s.pushes.set i _)[j]? = _ at hj
    rw [hget j] at hj
    by_cases heq : j = i
    · rw [if_pos heq] at hj
      obtain rfl := Option.some.inj hj
      obtain rfl := Option.some.inj hon'
      rw [heq]
      refine ⟨⟨data, hunowned.block, ?_⟩, hphase, hunowned.notHandedOver⟩
      exact ⟨hunowned.ofPush, hunowned.channel, hunowned.parentAlive⟩
    · rw [if_neg heq] at hj
      obtain ⟨hblock, hphase', hnot⟩ := h.owners.pushes j push' b' hj hon'
      exact ⟨hblock, hphase', hnot⟩
  · obtain ⟨d, hd, halive, p, hp, hdone⟩ := h.owners.given b' hgiven
    have hne : d.push ≠ i := by
      intro heq
      rw [heq] at hp
      obtain rfl := Option.some.inj (hi.symm.trans hp)
      exact hphase hdone
    exact ⟨d, hd, halive, p, (hget d.push).trans ((if_neg hne).trans hp), hdone⟩

theorem Core.takeBlock (h : s.Core extra) (hi : s.pushes[i]? = some push)
    (hon : push.onCompleteData = some b) (hb : s.blocks b = some data) :
    (s.setPush i { push with phase := .completed, onCompleteData := none }).Core
      (data.channelEntry :: extra) := by
  obtain ⟨hmem, n, hentry⟩ := h.entries push (List.mem_of_getElem? hi) b data hon hb
  let push' : MigrationPush := { push with phase := .completed, onCompleteData := none }
  have hget := getElem?_setPush hi push'
  have hpend : ∀ k, (s.pushes.set i push').countP (isPendingOn k) +
      (if push.channel = k then 1 else 0) = s.pendingPushes k := by
    intro k
    have hcnt := countP_set_add hi push' (isPendingOn k)
    have hnone : isPendingOn k push' = false := isPendingOn_none rfl k
    rw [hnone] at hcnt
    simpa [isPendingOn, hon, pendingPushes] using hcnt
  refine ⟨h.untouched, h.freshBlock, h.freshMig, ?_, fun p hp b' d hon' hd => ?_,
    ⟨fun j p b' hj hon' => ?_, fun b' hgiven => ?_, h.owners.queue, h.owners.running⟩,
    ⟨h.events.events, h.events.migs, h.events.orphans⟩, h.calls⟩
  · refine h.counts.shift hmem hentry (fun k hne => ?_) (fun e' _ hne => ?_) ?_
    · have hk := hpend k
      rw [if_neg (Ne.symm hne)] at hk
      exact hk
    · show s.retains e' + (data.channelEntry :: extra).count e' = _
      rw [List.count_cons_of_ne hne.symm]
    · show (s.pushes.set i push').countP (isPendingOn push.channel) +
        (s.retains data.channelEntry + (data.channelEntry :: extra).count data.channelEntry) = _
      have hk := hpend push.channel
      rw [if_pos rfl] at hk
      rw [List.count_cons_self]
      omega
  · rcases List.mem_or_eq_of_mem_set hp with hp | rfl
    · exact h.entries p hp b' d hon' hd
    · cases hon'
  · change (s.pushes.set i push')[j]? = _ at hj
    rw [hget j] at hj
    by_cases heq : j = i
    · rw [if_pos heq] at hj
      obtain rfl := Option.some.inj hj
      cases hon'
    · rw [if_neg heq] at hj
      obtain ⟨hblock, hphase', hnot⟩ := h.owners.pushes j p b' hj hon'
      exact ⟨hblock, hphase', hnot⟩
  · obtain ⟨d, hd, halive, p, hp, hdone⟩ := h.owners.given b' hgiven
    refine ⟨d, hd, halive, ?_⟩
    show ∃ p, (s.pushes.set i push')[d.push]? = some p ∧ _
    rw [hget d.push]
    by_cases heq : d.push = i
    · exact ⟨push', if_pos heq, rfl⟩
    · exact ⟨p, (if_neg heq).trans hp, hdone⟩

theorem Core.addBlock (h : s.Core extra) (hzero : data.selfChannelEntry.pendingEventCount = 0)
    (hevs : data.events = []) :
    ({ s.setBlock s.nextBlock data with nextBlock := s.nextBlock + 1 } : MigrationTools).Core
      extra := by
  have hnone : s.blocks s.nextBlock = none := h.freshBlock _ le_rfl
  have hne : ∀ {b d}, s.blocks b = some d → b ≠ s.nextBlock := by
    rintro b d hd rfl
    rw [hnone] at hd
    cases hd
  have hold : ∀ {b d}, s.blocks b = some d → update s.blocks s.nextBlock (some data) b = some d :=
    fun hd => (update_of_ne (hne hd) ..).trans hd
  have hoff : s.nextBlock ∉ s.channelList := by
    intro hin
    obtain ⟨d, hd⟩ := h.block_of_mem hin
    exact hne hd rfl
  have hentry : (s.setBlock s.nextBlock data).entry = _ := entry_update s s.nextBlock (some data)
  have hkeep : ∀ {e}, e ∈ s.channelList → (s.setBlock s.nextBlock data).entry e = s.entry e := by
    intro e he
    have hne' : e ≠ s.nextBlock := fun heq => hoff (heq ▸ he)
    rw [hentry]
    exact update_of_ne hne' ..
  refine ⟨h.untouched, fun b hb => ?_, h.freshMig, ?_, fun push hpush b d hon hd => ?_,
    ⟨fun i push b hi hon => ?_, fun b hgiven => ?_, h.owners.queue, h.owners.running⟩,
    ⟨fun b d hd => ?_, fun m mig hm => ?_, fun b d hd hdead => ?_⟩, h.calls⟩
  · have hne' : b ≠ s.nextBlock := (Nat.lt_of_succ_le hb).ne'
    exact (update_of_ne hne' ..).trans (h.freshBlock b (Nat.le_of_succ_le hb))
  · show CountedList s.channelList (s.setBlock s.nextBlock data).entry _ _
    rw [hentry]
    refine h.counts.forget hoff fun k n heq => ?_
    obtain ⟨-, rfl⟩ := Prod.mk.inj (Option.some.inj heq)
    exact hzero
  · obtain ⟨i, hi⟩ := List.mem_iff_getElem?.mp hpush
    obtain ⟨⟨d', hd', -⟩, -, -⟩ := h.owners.pushes i push b hi hon
    obtain rfl := Option.some.inj ((hold hd').symm.trans hd)
    obtain ⟨hmem, hkey⟩ := h.entries push hpush b d' hon hd'
    refine ⟨hmem, ?_⟩
    show ∃ n, (s.setBlock s.nextBlock data).entry d'.channelEntry = some (push.channel, n)
    rw [hkeep hmem]
    exact hkey
  · obtain ⟨⟨d, hd, hrest⟩, hphase, hnot⟩ := h.owners.pushes i push b hi hon
    exact ⟨⟨d, hold hd, hrest⟩, hphase, hnot⟩
  · obtain ⟨d, hd, hrest⟩ := h.owners.given b hgiven
    exact ⟨d, hold hd, hrest⟩
  · by_cases heq : b = s.nextBlock
    · subst heq
      obtain rfl := eq_of_update_self (f := s.blocks) hd
      rw [hevs]
      exact ⟨List.nodup_nil, fun m hm => absurd hm List.not_mem_nil⟩
    · exact h.events.events b d ((update_of_ne heq ..).symm.trans hd)
  · obtain ⟨d, hd, hin⟩ := h.events.migs m mig hm
    exact ⟨d, hold hd, hin⟩
  · by_cases heq : b = s.nextBlock
    · subst heq
      obtain rfl := eq_of_update_self (f := s.blocks) hd
      exact hevs
    · exact h.events.orphans b d ((update_of_ne heq ..).symm.trans hd) hdead

theorem findChannelEntry_spec (channel : ℕ) (list : List ℕ)
    (h : ∀ e ∈ list, ∃ data, s.blocks e = some data) :
    ∃ found, s.findChannelEntry channel list = some found ∧
      (∀ e, found = some e → e ∈ list ∧ ∃ n, s.entry e = some (channel, n)) ∧
      (found = none → ∀ e ∈ list, ∀ n, s.entry e ≠ some (channel, n)) := by
  induction list with
  | nil => exact ⟨none, rfl, fun e heq => (by cases heq), fun _ e he => absurd he List.not_mem_nil⟩
  | cons e rest ih =>
    obtain ⟨data, hdata⟩ := h e List.mem_cons_self
    unfold findChannelEntry
    rw [hdata]
    dsimp only
    by_cases hchan : data.selfChannelEntry.channel = channel
    · rw [if_pos hchan]
      refine ⟨some e, rfl, fun e' heq => ?_, fun heq => (by cases heq)⟩
      obtain rfl := Option.some.inj heq
      exact ⟨List.mem_cons_self, _, hchan ▸ entry_eq_some hdata⟩
    · rw [if_neg hchan]
      obtain ⟨found, hfound, hsome, hnone⟩ := ih fun e' he' => h e' (List.mem_cons_of_mem e he')
      refine ⟨found, hfound, fun e' heq => ?_, fun heq e' he' n hn => ?_⟩
      · obtain ⟨hmem, hentry⟩ := hsome e' heq
        exact ⟨List.mem_cons_of_mem e hmem, hentry⟩
      · rcases List.mem_cons.mp he' with rfl | he'
        · rw [entry_eq_some hdata] at hn
          exact hchan (Prod.mk.inj (Option.some.inj hn)).1
        · exact hnone heq e' he' n hn

theorem Core.enlist (h : s.Core []) (hb : s.blocks b = some data) (hoff : b ∉ s.channelList)
    (hfirst : ∀ e ∈ s.channelList, ∀ n, s.entry e ≠ some (data.selfChannelEntry.channel, n)) :
    ({ s.setBlock b (withCount data 1) with channelList := s.channelList ++ [b] } :
      MigrationTools).Core [b] := by
  have hretains : s.retains b = 0 := by
    refine List.countP_eq_zero.mpr fun call hcall hin => hoff ?_
    exact (h.calls call hcall).1.subset (of_decide_eq_true hin)
  have hpend : s.pendingPushes data.selfChannelEntry.channel = 0 := by
    by_contra hne
    obtain ⟨e, he, n, hn⟩ := h.counts.listed _ (Nat.pos_of_ne_zero hne)
    exact hfirst e he n hn
  have hne : ∀ {e}, e ∈ s.channelList → e ≠ b := fun he heq => hoff (heq ▸ he)
  have hsame := sameBlock_withCount data 1
  refine h.writeBlock hb hsame.toSameOwner ?_ (fun e he _ _ _ _ => List.mem_append_left [b] he)
    (fun call hcall => (h.calls call hcall).1.trans (List.prefix_append ..)) h.freshMig
    (h.events.setBlock hb hsame)
  have hcnts : CountedList s.channelList s.entry s.pendingPushes
      fun e => s.retains e + [b].count e := by
    refine h.counts.congr (fun _ => rfl) fun e he => ?_
    rw [List.count_cons_of_ne (hne he).symm]
  refine hcnts.insert hoff hfirst (fun _ _ => rfl) ?_
  show s.pendingPushes data.selfChannelEntry.channel + (s.retains b + [b].count b) = 1
  rw [hpend, hretains, List.count_singleton_self]

/-- The block migration that the begin event makes. -/
def newBlock (i : ℕ) (push : MigrationPush) (info : BlockMigrationInfo) (e : ℕ) :
    BlockMigrationData where
  info := info
  channelEntry := e
  selfChannelEntry := { channel := push.channel, pendingEventCount := 0, parentAlive := true }
  events := []
  endTimestampCpu := 0
  startTimestampGpu := 0
  push := i

private theorem Inv.give (h : s.Inv) {s₂ : MigrationTools} (data : BlockMigrationData)
    (hi : s.pushes[i]? = some push) (hon : push.onCompleteData = none)
    (hphase : push.phase = .building) (hcore : s₂.Core [data.channelEntry])
    (hunowned : Unowned s₂ i push b data) (hpush : s₂.pushes = s.pushes)
    (hhanded : ∀ b', s.HandedOver b' → s₂.HandedOver b')
    (hblocks : ∀ b' d', b' ≠ b → s₂.blocks b' = some d' →
      ∃ d, s.blocks b' = some d ∧ SameBlock d d')
    (hlist : ∀ e ∈ s.channelList, e ∈ s₂.channelList) :
    (s₂.setPush i { push with onCompleteData := some b }).Inv := by
  have hi₂ : s₂.pushes[i]? = some push := hpush ▸ hi
  have hbuilding : push.phase ≠ .completed := by
    rw [hphase]
    exact MigrationPushPhase.noConfusion
  have hget := getElem?_setPush hi₂ { push with onCompleteData := some b }
  have hself : ∀ {d}, s₂.blocks b = some d → d = data :=
    fun hd => (Option.some.inj (hunowned.block.symm.trans hd)).symm
  refine ⟨hcore.giveBlock hi₂ hon hbuilding hunowned, fun b' d' hd' hdead => ?_,
    fun b' d' hd' halive => ?_⟩
  · by_cases heq : b' = b
    · subst heq
      rw [hself hd', hunowned.parentAlive] at hdead
      cases hdead
    · obtain ⟨d, hd, hsame⟩ := hblocks b' d' heq hd'
      exact hlist b' (h.orphans b' d hd (hsame.parentAlive.symm.trans hdead))
  · by_cases heq : b' = b
    · subst heq
      rw [hself hd', hunowned.ofPush]
      exact .inl ⟨_, (hget i).trans (if_pos rfl), rfl⟩
    · obtain ⟨d, hd, hsame⟩ := hblocks b' d' heq hd'
      rw [hsame.push]
      refine (h.owned b' d hd (hsame.parentAlive.symm.trans halive)).imp ?_ (hhanded b')
      rintro ⟨p, hp, hpb⟩
      have hne : d.push ≠ i := by
        intro heq'
        rw [heq'] at hp
        obtain rfl := Option.some.inj (hi.symm.trans hp)
        rw [hon] at hpb
        cases hpb
      exact ⟨p, (hget d.push).trans ((if_neg hne).trans (hpush ▸ hp)), hpb⟩

/-- What `add_pending_event_for_channel` does for a new block migration: it counts with the entry of
its channel, or its own entry is the first. -/
theorem addPendingEventForChannel_cases (s : MigrationTools) (b : ℕ) (data : BlockMigrationData)
    (hlist : ∀ e ∈ s.channelList, ∃ d, s.blocks e = some d) (hnone : s.blocks b = none) :
    (∃ e d, e ∈ s.channelList ∧ s.blocks e = some d ∧
      d.selfChannelEntry.channel = data.selfChannelEntry.channel ∧
      s.addPendingEventForChannel b data =
        some ((s.setBlock b { data with channelEntry := e }).setPendingEventCount e d
          (d.selfChannelEntry.pendingEventCount + 1))) ∨
    ((∀ e ∈ s.channelList, ∀ n, s.entry e ≠ some (data.selfChannelEntry.channel, n)) ∧
      s.addPendingEventForChannel b data =
        some (({ s.setBlock b { data with channelEntry := b } with
          channelList := s.channelList ++ [b] } : MigrationTools).setPendingEventCount b
            { data with channelEntry := b } (data.selfChannelEntry.pendingEventCount + 1))) := by
  obtain ⟨found, hfound, hsome, hfirst⟩ :=
    findChannelEntry_spec data.selfChannelEntry.channel s.channelList hlist
  unfold addPendingEventForChannel
  rw [hfound]
  cases found with
  | some e =>
    obtain ⟨hmem, n, hentry⟩ := hsome e rfl
    obtain ⟨d, hd⟩ := hlist e hmem
    have hne : e ≠ b := by
      rintro rfl
      rw [hnone] at hd
      cases hd
    have hblock : update s.blocks b (some { data with channelEntry := e }) e = some d :=
      (update_of_ne hne ..).trans hd
    rw [entry_eq_some hd] at hentry
    refine .inl ⟨e, d, hmem, hd, (Prod.mk.inj (Option.some.inj hentry)).1, ?_⟩
    dsimp only [setBlock, Option.getD_some]
    rw [hblock]
    rfl
  | none =>
    refine .inr ⟨hfirst rfl, ?_⟩
    have hblock : update s.blocks b (some { data with channelEntry := b }) b =
        some { data with channelEntry := b } := update_self ..
    dsimp only [setBlock, Option.getD_none]
    rw [hblock]
    rfl

theorem Inv.blockMigrationBegin (h : s.Inv) (hi : s.pushes[i]? = some push)
    (hphase : push.phase = .building) (hon : push.onCompleteData = none)
    (info : BlockMigrationInfo) :
    ∃ s', s.recordBlockMigrationBegin i push info = some s' ∧ s'.Inv := by
  have hnone : s.blocks s.nextBlock = none := h.core.freshBlock _ le_rfl
  have hoff : s.nextBlock ∉ s.channelList := by
    intro hin
    obtain ⟨d, hd⟩ := h.core.block_of_mem hin
    rw [hnone] at hd
    cases hd
  have hnot : ¬ s.HandedOver s.nextBlock := by
    intro hgiven
    obtain ⟨d, hd, -⟩ := h.core.owners.given _ hgiven
    rw [hnone] at hd
    cases hd
  let s₀ : MigrationTools := { s.setPush i { push with onCompleteData := some s.nextBlock } with
    nextBlock := s.nextBlock + 1 }
  -- the new block migration, before it counts
  let s₁ : ℕ → MigrationTools := fun e =>
    { s.setBlock s.nextBlock (newBlock i push info e) with nextBlock := s.nextBlock + 1 }
  have hs₁ : ∀ e, (s₁ e).Core [] := fun e => h.core.addBlock rfl rfl
  have hself : ∀ e, (s₁ e).blocks s.nextBlock = some (newBlock i push info e) :=
    fun e => update_self ..
  have hother : ∀ {e b' d'}, b' ≠ s.nextBlock → (s₁ e).blocks b' = some d' →
      s.blocks b' = some d' := fun hne hd => (update_of_ne hne ..).symm.trans hd
  let t := newBlock i push info s.nextBlock
  rcases addPendingEventForChannel_cases s₀ s.nextBlock t
    (fun e he => h.core.block_of_mem he) hnone with ⟨e, d, he, hd, hchan, hadd⟩ | ⟨hfirst, hadd⟩
  · -- the entry of the channel counts one more
    have hne : s.nextBlock ≠ e := by
      rintro rfl
      exact hoff he
    have hd₁ : (s₁ e).blocks e = some d := (update_of_ne hne.symm ..).trans hd
    obtain ⟨s₂, hs₂, hcore, hrec, hlist⟩ := (hs₁ e).retain he
    let count := d.selfChannelEntry.pendingEventCount + 1
    obtain rfl : (s₁ e).setPendingEventCount e d count = s₂ := by
      unfold retainEntry at hs₂
      rw [hd₁] at hs₂
      exact Option.some.inj hs₂
    refine ⟨_, hadd, h.give (newBlock i push info e) hi hon hphase hcore ?_ rfl
      (fun _ hgiven => hgiven) (fun b' d' hne' hd' => ?_) fun _ hin => hin⟩
    · have hcnt : ((s₁ e).setPendingEventCount e d count).blocks e = some (withCount d count) :=
        update_self ..
      refine ⟨(update_of_ne hne ..).trans (hself e), rfl, rfl, rfl, hnot, he, ?_⟩
      refine ⟨count, ?_⟩
      rw [← show d.selfChannelEntry.channel = push.channel from hchan]
      exact entry_eq_some hcnt
    · obtain ⟨d'', hd'', hsame⟩ := hrec.blocks b' d' hd'
      exact ⟨d'', hother hne' hd'', hsame⟩
  · -- its own entry is the first of the channel
    have hcore := (hs₁ s.nextBlock).enlist (hself _) hoff fun e he n hn => by
      have hne : e ≠ s.nextBlock := fun heq => hoff (heq ▸ he)
      refine hfirst e he n ?_
      refine Eq.trans ?_ hn
      exact congrArg (Option.map _) (update_of_ne hne ..).symm
    have hcnt : ((s₁ s.nextBlock).setBlock s.nextBlock (withCount t 1)).blocks s.nextBlock =
          some (withCount t 1) := update_self ..
    refine ⟨_, hadd, h.give (withCount t 1) hi hon hphase
      hcore ?_ rfl (fun _ hgiven => hgiven) (fun b' d' hne' hd' => ?_)
      fun _ hin => List.mem_append_left _ hin⟩
    · refine ⟨hcnt, rfl, rfl, rfl, hnot, ?_, 1, entry_eq_some hcnt⟩
      exact List.mem_append_right _ (List.mem_singleton_self _)
    · exact ⟨d', hother hne' ((update_of_ne hne' ..).symm.trans hd'), .refl d'⟩

theorem Inv.handOver (h : s.Inv) (hi : s.pushes[i]? = some push)
    (hon : push.onCompleteData = some b) : ∃ s', (s.setPush i { push with phase := .completed, onCompleteData := none }).handOver b =
      some s' ∧ s'.Inv := by
  obtain ⟨⟨data, hb, hofPush, -, halive⟩, -, hnot⟩ := h.core.owners.pushes i push b hi hon
  let push' : MigrationPush := { push with phase := .completed, onCompleteData := none }
  have hget := getElem?_setPush hi push'
  have hcore₁ := h.core.takeBlock hi hon hb
  have hmem := (h.core.entries push (List.mem_of_getElem? hi) b data hon hb).1
  obtain ⟨s₂, hs₂, hcore₂, hrec, -⟩ := hcore₁.removePending hmem
  obtain ⟨data₂, hb₂, hsame₂⟩ := hrec.alive b data hb halive
  -- the callback still has the block migration, although the entry may be gone
  have hstep : (s.setPush i push').handOver b =
      some { s₂ with toolsQueue := s₂.toolsQueue ++ [b] } := by
    unfold MigrationTools.handOver
    rw [show (s.setPush i push').blocks b = some data from hb]
    dsimp only
    rw [hs₂]
    dsimp only
    rw [hb₂]
    rfl
  have hqueue : s₂.toolsQueue = s.toolsQueue := hrec.toolsQueue
  have hworker : s₂.worker = s.worker := hrec.worker
  have hpush : s₂.pushes = s.pushes.set i push' := hrec.pushes
  have hhanded : ∀ b', s₂.HandedOver b' ↔ s.HandedOver b' := by
    intro b'
    unfold HandedOver
    rw [hqueue, hworker]
  have hnew : ∀ b',
      ({ s₂ with toolsQueue := s₂.toolsQueue ++ [b] } : MigrationTools).HandedOver b' ↔
        s.HandedOver b' ∨ b' = b := by
    intro b'
    rw [← hhanded b']
    unfold HandedOver
    rw [List.mem_append, List.mem_singleton]
    tauto
  have hdone : s₂.Completed i := by
    refine ⟨push', ?_, rfl⟩
    rw [hpush, hget i, if_pos rfl]
  refine ⟨_, hstep, ⟨hcore₂.untouched, hcore₂.freshBlock, hcore₂.freshMig, hcore₂.counts,
    hcore₂.entries, ⟨fun j p b' hj hon' => ?_, fun b' hgiven => ?_, ?_, fun b' t hrun hin => ?_⟩,
    ⟨hcore₂.events.events, hcore₂.events.migs, hcore₂.events.orphans⟩, hcore₂.calls⟩,
    hrec.orphans h.orphans, fun b' d hd halive' => ?_⟩
  · obtain ⟨hblock, hphase, hnot'⟩ := hcore₂.owners.pushes j p b' hj hon'
    refine ⟨hblock, hphase, fun hgiven => ?_⟩
    rcases (hnew b').mp hgiven with hgiven | rfl
    · exact hnot' ((hhanded b').mpr hgiven)
    · -- the push that had it has given it up, and no other has
      rw [hpush, hget j] at hj
      by_cases heq : j = i
      · rw [if_pos heq] at hj
        obtain rfl := Option.some.inj hj
        cases hon'
      · rw [if_neg heq] at hj
        obtain ⟨⟨d, hd, hj', -⟩, -, -⟩ := h.core.owners.pushes j p b' hj hon'
        obtain rfl := Option.some.inj (hb.symm.trans hd)
        exact heq (hj'.symm.trans hofPush)
  · rcases (hnew b').mp hgiven with hgiven | rfl
    · exact hcore₂.owners.given b' ((hhanded b').mpr hgiven)
    · refine ⟨data₂, hb₂, hsame₂.parentAlive.trans halive, ?_⟩
      rw [hsame₂.push, hofPush]
      exact hdone
  · show (s₂.toolsQueue ++ [b]).Nodup
    rw [hqueue, List.nodup_append]
    refine ⟨h.core.owners.queue, List.nodup_singleton b, fun b' hb' b'' hb'' => ?_⟩
    rw [List.mem_singleton.mp hb'']
    rintro rfl
    exact hnot (.inl hb')
  · rw [List.mem_append, List.mem_singleton] at hin
    rcases hin with hin | rfl
    · exact hcore₂.owners.running b' t hrun hin
    · exact hnot (.inr ⟨t, hworker ▸ hrun⟩)
  · obtain ⟨d₀, hd₀, hsame⟩ := hrec.blocks b' d hd
    rw [hnew b']
    rcases h.owned b' d₀ hd₀ (hsame.parentAlive.symm.trans halive') with ⟨p, hp, hpb⟩ | hgiven
    · by_cases heq : d₀.push = i
      · rw [heq] at hp
        obtain rfl := Option.some.inj (hi.symm.trans hp)
        exact .inr (.inr (Option.some.inj (hpb.symm.trans hon)))
      · refine .inl ⟨p, ?_, hpb⟩
        show s₂.pushes[d.push]? = some p
        rw [hpush, hsame.push, hget, if_neg heq]
        exact hp
    · exact .inr (.inl hgiven)

/-! ## Calls of `uvm_tools_schedule_completed_events` -/

theorem Core.retainAll (list : List ℕ) : ∀ {s : MigrationTools} {extra : List ℕ}, s.Core extra →
    (∀ e ∈ list, e ∈ s.channelList) → ∃ s', list.foldlM retainEntry s = some s' ∧
      s'.Core (list.reverse ++ extra) ∧ Recounted s s' ∧ s'.channelList = s.channelList := by
  induction list with
  | nil =>
    intro s extra h _
    exact ⟨s, rfl, h, .refl s, rfl⟩
  | cons e rest ih =>
    intro s extra h hmem
    obtain ⟨s₁, hs₁, hcore₁, hrec₁, hlist₁⟩ := h.retain (hmem e List.mem_cons_self)
    obtain ⟨s₂, hs₂, hcore₂, hrec₂, hlist₂⟩ := ih hcore₁ fun e' he' =>
      hlist₁ ▸ hmem e' (List.mem_cons_of_mem e he')
    refine ⟨s₂, ?_, ?_, hrec₁.trans hrec₂, hlist₂.trans hlist₁⟩
    · rw [List.foldlM_cons, hs₁]
      exact hs₂
    · rw [List.reverse_cons, List.append_assoc]
      exact hcore₂

theorem Core.releaseAll (list : List ℕ) : ∀ {s : MigrationTools} {extra : List ℕ},
    s.Core (list ++ extra) → (∀ e ∈ list, e ∈ s.channelList) → list.Nodup →
    ∃ s', list.foldlM removePendingEventForChannel s = some s' ∧ s'.Core extra ∧
      Recounted s s' := by
  induction list with
  | nil =>
    intro s extra h _ _
    exact ⟨s, rfl, h, .refl s⟩
  | cons e rest ih =>
    intro s extra h hmem hnd
    obtain ⟨hnot, hnd⟩ := List.nodup_cons.mp hnd
    obtain ⟨s₁, hs₁, hcore₁, hrec₁, hlist₁⟩ := h.removePending (hmem e List.mem_cons_self)
    -- the entries to come are other ones, so they are still on the list
    obtain ⟨s₂, hs₂, hcore₂, hrec₂⟩ := ih hcore₁ (fun e' he' =>
      hlist₁ e' (hmem e' (List.mem_cons_of_mem e he')) fun heq => hnot (heq ▸ he')) hnd
    refine ⟨s₂, ?_, hcore₂, hrec₁.trans hrec₂⟩
    rw [List.foldlM_cons, hs₁]
    exact hs₂

theorem Core.setCalls (h : s.Core extra) {calls : List ScheduleCall} {extra' : List ℕ}
    (hheld : ∀ e ∈ s.channelList, (calls.countP fun call => decide (e ∈ call.retained)) +
      extra'.count e = s.retains e + extra.count e)
    (hcalls : ∀ call ∈ calls, call.retained <+: s.channelList ∧ Walks call) :
    ({ s with calls := calls } : MigrationTools).Core extra' := by
  refine ⟨h.untouched, h.freshBlock, h.freshMig, h.counts.congr (fun _ => rfl) hheld, h.entries,
    ⟨fun i push b hi hon => ?_, h.owners.given, h.owners.queue, h.owners.running⟩,
    ⟨h.events.events, h.events.migs, h.events.orphans⟩, hcalls⟩
  obtain ⟨hblock, hphase, hnot⟩ := h.owners.pushes i push b hi hon
  exact ⟨hblock, hphase, hnot⟩

theorem Inv.schedule (h : s.Inv) : ∃ s', s.scheduleCompletedEvents = some s' ∧ s'.Inv := by
  obtain ⟨s₁, hs₁, hcore₁, hrec, hlist⟩ := h.core.retainAll s.channelList fun _ he => he
  unfold scheduleCompletedEvents
  rw [hs₁]
  refine ⟨_, rfl, ?_⟩
  split
  · next hempty =>
    rw [List.length_eq_zero_iff.mp hempty] at hcore₁
    exact ⟨hcore₁, hrec.orphans h.orphans, hrec.owned h.owned⟩
  · refine ⟨hcore₁.setCalls (fun e he => ?_) fun call hcall => ?_, hrec.orphans h.orphans,
      hrec.owned h.owned⟩
    · rw [List.countP_append, List.append_nil, List.count_reverse]
      have hone : s.channelList.count e = 1 :=
        List.count_eq_one_of_mem h.core.counts.nodup (hlist ▸ he)
      rw [hone]
      show s₁.retains e + (List.countP _ [_]) + 0 = s₁.retains e + 1
      simp [hlist ▸ he]
    · rcases List.mem_append.mp hcall with hcall | hcall
      · exact hcore₁.calls call hcall
      · obtain rfl := List.mem_singleton.mp hcall
        exact ⟨hlist ▸ List.prefix_rfl, rfl⟩

theorem Inv.setCall (h : s.Inv) (hi : s.calls[i]? = some call) {call' : ScheduleCall}
    (hretained : call'.retained = call.retained) (hwalks : Walks call') :
    (s.setCall i call').Inv := by
  refine ⟨h.core.setCalls (fun e _ => ?_) fun c hc => ?_, h.orphans, h.owned⟩
  · have hcnt := countP_set_add hi call' fun call => decide (e ∈ call.retained)
    rw [hretained] at hcnt
    rw [Nat.add_right_cancel hcnt]
    rfl
  · rcases List.mem_or_eq_of_mem_set hc with hc | rfl
    · exact h.core.calls c hc
    · rw [hretained]
      exact ⟨(h.core.calls call (List.mem_of_getElem? hi)).1, hwalks⟩

theorem nextEntry_eq {list : List ℕ} (hnd : list.Nodup) (hk : list[k]? = some e) :
    nextEntry e list = some list[k + 1]? := by
  induction list generalizing k with
  | nil => cases hk
  | cons e' rest ih =>
    obtain ⟨hnot, hrest⟩ := List.nodup_cons.mp hnd
    unfold nextEntry
    cases k with
    | zero =>
      obtain rfl := Option.some.inj hk
      rw [if_pos rfl, List.getElem?_cons_succ, List.head?_eq_getElem?]
    | succ k =>
      have hne : e' ≠ e := fun heq => hnot (heq ▸ List.mem_of_getElem? hk)
      rw [if_neg hne, ih hrest hk, List.getElem?_cons_succ]

theorem getElem?_of_initial {l₁ l₂ : List ℕ} (h : l₁ <+: l₂) (hk : k < l₁.length) :
    l₂[k]? = l₁[k]? := by
  obtain ⟨rest, rfl⟩ := h
  exact List.getElem?_append_left hk

theorem Inv.walk (h : s.Inv) (hi : s.calls[i]? = some call) :
    ∃ s', s.walkEntries i call = some s' ∧ s'.Inv := by
  obtain ⟨hinitial, hwalks⟩ := h.core.calls call (List.mem_of_getElem? hi)
  unfold Walks at hwalks
  unfold walkEntries
  cases hphase : call.phase with
  | first =>
    rw [hphase] at hwalks
    refine ⟨_, rfl, h.setCall hi rfl ⟨hwalks, Nat.zero_le _, fun hlt => ?_⟩⟩
    rw [hwalks] at hlt
    rw [List.head?_eq_getElem?]
    exact getElem?_of_initial hinitial hlt
  | atEntry k current =>
    rw [hphase] at hwalks
    obtain ⟨hcnt, hle, hcur⟩ := hwalks
    dsimp only
    by_cases hlt : k < call.channelCount
    · rw [if_pos hlt]
      obtain ⟨e, he⟩ : ∃ e, call.retained[k]? = some e :=
        ⟨_, List.getElem?_eq_getElem (hcnt ▸ hlt)⟩
      obtain rfl := (hcur hlt).trans he
      obtain ⟨data, hdata⟩ := h.core.block_of_mem (hinitial.subset (List.mem_of_getElem? he))
      dsimp only
      rw [hdata]
      exact ⟨_, rfl, h.setCall hi rfl ⟨hcnt, hlt, he⟩⟩
    · rw [if_neg hlt]
      exact ⟨s, rfl, h⟩
  | updating k e channel =>
    rw [hphase] at hwalks
    obtain ⟨hcnt, hlt, he⟩ := hwalks
    obtain ⟨data, hdata⟩ := h.core.block_of_mem (hinitial.subset (List.mem_of_getElem? he))
    have hk := (getElem?_of_initial hinitial (hcnt ▸ hlt)).trans he
    dsimp only
    rw [hdata]
    dsimp only
    rw [nextEntry_eq h.core.counts.nodup hk]
    refine ⟨_, rfl, h.setCall hi rfl ⟨hcnt, hlt, fun hlt' => ?_⟩⟩
    exact getElem?_of_initial hinitial (hcnt ▸ hlt')
  | finished => exact ⟨s, rfl, h⟩

theorem Inv.release (h : s.Inv) (hi : s.calls[i]? = some call)
    (hcnt : call.channelCount = call.retained.length) :
    ∃ s', s.releaseEntries i call = some s' ∧ s'.Inv := by
  let call' : ScheduleCall := { call with phase := .finished, retained := [] }
  obtain ⟨hinitial, -⟩ := h.core.calls call (List.mem_of_getElem? hi)
  have hnd : call.retained.Nodup := hinitial.sublist.nodup h.core.counts.nodup
  have htake : s.channelList.take call.channelCount = call.retained := by
    rw [hcnt]
    exact (List.prefix_iff_eq_take.mp hinitial).symm
  have hcore₁ : (s.setCall i call').Core (call.retained ++ []) := by
    refine h.core.setCalls (fun e _ => ?_) fun c hc => ?_
    · have hset := countP_set_add hi call' fun call => decide (e ∈ call.retained)
      rw [List.append_nil, hnd.count]
      simpa [retains, call'] using hset
    · rcases List.mem_or_eq_of_mem_set hc with hc | rfl
      · exact h.core.calls c hc
      · exact ⟨List.nil_prefix, rfl⟩
  obtain ⟨s', hs', hcore, hrec⟩ :=
    hcore₁.releaseAll call.retained (fun e he => hinitial.subset he) hnd
  refine ⟨s', ?_, hcore, hrec.orphans h.orphans, hrec.owned h.owned⟩
  unfold releaseEntries
  rw [htake]
  exact hs'

/-! ## Runs -/

theorem Inv.sectionOf (h : s.Inv) (op : MigrationStep) :
    ∃ s', s.sectionOf op = some s' ∧ s'.Inv := by
  have hwithPush : ∀ i phase f, (∀ push : MigrationPush, s.pushes[i]? = some push →
      push.phase = phase → ∃ s', f push = some s' ∧ s'.Inv) →
      ∃ s', s.withPush i phase f = some s' ∧ s'.Inv := by
    intro i phase f hf
    unfold withPush
    cases hi : s.pushes[i]? with
    | none => exact ⟨s, rfl, h⟩
    | some push =>
      dsimp only
      by_cases hphase : push.phase = phase
      · rw [if_pos hphase]
        exact hf push hi hphase
      · rw [if_neg hphase]
        exact ⟨s, rfl, h⟩
  have hwithCall : ∀ i f, (∀ call : ScheduleCall, s.calls[i]? = some call →
      ∃ s', f call = some s' ∧ s'.Inv) → ∃ s', s.withCall i f = some s' ∧ s'.Inv := by
    intro i f hf
    unfold withCall
    cases hi : s.calls[i]? with
    | none => exact ⟨s, rfl, h⟩
    | some call => exact hf call hi
  cases op with
  | beginPush channel => exact ⟨_, rfl, h.beginPush channel⟩
  | blockMigrationBegin i alloc info =>
    refine hwithPush i _ _ fun push hi hphase => ?_
    split
    · next hnew => exact h.blockMigrationBegin hi hphase hnew.2 info
    · exact ⟨s, rfl, h⟩
  | migration i alloc address bytes =>
    exact hwithPush i _ _ fun push hi _ => h.recordMigration hi alloc address bytes
  | endPush i =>
    refine hwithPush i _ _ fun push hi hphase => ⟨_, rfl, h.setPush hi ?_ rfl rfl fun hc => ?_⟩
    · rw [hphase]
      exact MigrationPushPhase.noConfusion
    · cases hc
  | complete i timestampCpu timestampGpu endTimestampGpu =>
    refine hwithPush i _ _ fun push hi hphase => ?_
    cases hon : push.onCompleteData with
    | none =>
      refine ⟨_, rfl, h.setPush hi ?_ hon.symm rfl fun _ => hon⟩
      rw [hphase]
      exact MigrationPushPhase.noConfusion
    | some b =>
      obtain ⟨s', hs', hinv⟩ := h.complete hi hphase hon timestampCpu timestampGpu endTimestampGpu
      dsimp only
      rw [hs']
      rw [hon] at hinv
      exact ⟨_, rfl, hinv⟩
  | handOver i =>
    refine hwithPush i _ _ fun push hi _ => ?_
    cases hon : push.onCompleteData with
    | none => exact ⟨s, rfl, h⟩
    | some b => exact h.handOver hi hon
  | work => exact h.work
  | schedule => exact h.schedule
  | walk i => exact hwithCall i _ fun call hi => h.walk hi
  | release i =>
    refine hwithCall i _ fun call hi => ?_
    have hwalks := (h.core.calls call (List.mem_of_getElem? hi)).2
    unfold Walks at hwalks
    cases hphase : call.phase with
    | atEntry k current =>
      rw [hphase] at hwalks
      dsimp only
      split
      · exact h.release hi hwalks.1
      · exact ⟨s, rfl, h⟩
    | first => exact ⟨s, rfl, h⟩
    | updating k e channel => exact ⟨s, rfl, h⟩
    | finished => exact ⟨s, rfl, h⟩

theorem Inv.step (h : s.Inv) (op : MigrationStep) : (s.step op).Inv := by
  obtain ⟨s', hs', hinv⟩ := h.sectionOf op
  unfold MigrationTools.step
  rw [hs']
  exact hinv

theorem start_inv : start.Inv := by
  refine ⟨⟨rfl, fun _ _ => rfl, fun _ _ => rfl, ⟨.nil, ?_, ?_, ?_, ?_⟩, ?_, ⟨?_, ?_, .nil, ?_⟩,
    ⟨?_, ?_, ?_⟩, ?_⟩, ?_, ?_⟩
  all_goals simp [start, entry, pendingPushes, HandedOver, Orphans, Owned]

/-- Nothing is in progress any more. -/
structure Quiet (s : MigrationTools) : Prop where
  pushes : ∀ push ∈ s.pushes, push.phase = .completed
  calls : ∀ call ∈ s.calls, call.retained = []
  toolsQueue : s.toolsQueue = []
  worker : s.worker = none

/-- No object is touched after it is freed, so none is freed twice, and at the end all are freed.
The worker comes after the push.  Each channel is on the list at most once, with the count of its
pushes that have not handed over their events and of the calls that retain it. -/
structure MigrationsRight (s : MigrationTools) : Prop where
  untouched : s.touchedFreed = false
  allFreed : s.Quiet → (∀ b, s.blocks b = none) ∧ ∀ m, s.migs m = none
  afterPush : ∀ b, s.HandedOver b → ∃ data, s.blocks b = some data ∧ s.Completed data.push
  channels : s.channelList.Nodup ∧ ∀ e ∈ s.channelList, ∀ e' ∈ s.channelList, ∀ data data',
    s.blocks e = some data → s.blocks e' = some data' →
    data.selfChannelEntry.channel = data'.selfChannelEntry.channel → e = e'
  counted : ∀ e ∈ s.channelList, ∀ data, s.blocks e = some data →
    data.selfChannelEntry.pendingEventCount =
      s.pendingPushes data.selfChannelEntry.channel + s.retains e
  listed : ∀ channel, 0 < s.pendingPushes channel →
    ∃ e ∈ s.channelList, ∃ data, s.blocks e = some data ∧ data.selfChannelEntry.channel = channel

theorem Inv.allFreed (h : s.Inv) (hquiet : s.Quiet) :
    (∀ b, s.blocks b = none) ∧ ∀ m, s.migs m = none := by
  have hon : ∀ {i b} {push : MigrationPush}, s.pushes[i]? = some push →
      push.onCompleteData ≠ some b := fun hi hon =>
    (h.core.owners.pushes _ _ _ hi hon).phase (hquiet.pushes _ (List.mem_of_getElem? hi))
  have hpend : ∀ k, s.pendingPushes k = 0 := by
    intro k
    refine List.countP_eq_zero.mpr fun push hpush hk => ?_
    obtain ⟨i, hi⟩ := List.mem_iff_getElem?.mp hpush
    cases hdata : push.onCompleteData with
    | none =>
      rw [isPendingOn_none hdata] at hk
      cases hk
    | some b => exact hon hi hdata
  have hlist : ∀ e, e ∉ s.channelList := by
    intro e he
    obtain ⟨k, -, hpos⟩ := h.core.counts.counted e he
    have hretains : s.retains e = 0 := by
      refine List.countP_eq_zero.mpr fun call hcall hin => ?_
      rw [hquiet.calls call hcall] at hin
      cases of_decide_eq_true hin
    rw [hpend k, hretains] at hpos
    exact absurd hpos (by simp)
  have hblocks : ∀ b, s.blocks b = none := by
    intro b
    cases hb : s.blocks b with
    | none => rfl
    | some data =>
      exfalso
      cases halive : data.selfChannelEntry.parentAlive with
      | false => exact hlist b (h.orphans b data hb halive)
      | true =>
        rcases h.owned b data hb halive with ⟨push, hi, hpush⟩ | hin | ⟨t, hrun⟩
        · exact hon hi hpush
        · rw [hquiet.toolsQueue] at hin
          cases hin
        · rw [hquiet.worker] at hrun
          cases hrun
  refine ⟨hblocks, fun m => ?_⟩
  cases hm : s.migs m with
  | none => rfl
  | some mig =>
    obtain ⟨data, hdata, -⟩ := h.core.events.migs m mig hm
    rw [hblocks] at hdata
    cases hdata

theorem Inv.migrationsRight (h : s.Inv) : s.MigrationsRight := by
  refine ⟨h.core.untouched, h.allFreed, fun b hgiven => ?_, ⟨h.core.counts.nodup,
    fun e he e' he' d d' hd hd' heq => ?_⟩, fun e he d hd => ?_, fun k hk => ?_⟩
  · obtain ⟨data, hdata, -, hdone⟩ := h.core.owners.given b hgiven
    exact ⟨data, hdata, hdone⟩
  · have hentry := entry_eq_some hd
    rw [heq] at hentry
    exact h.core.counts.key_inj e he e' he' _ _ _ hentry (entry_eq_some hd')
  · exact (h.core.counts.count_eq he (entry_eq_some hd)).1
  · obtain ⟨e, he, n, hn⟩ := h.core.counts.listed k hk
    obtain ⟨d, hd⟩ := h.core.block_of_mem he
    rw [entry_eq_some hd] at hn
    exact ⟨e, he, d, hd, (Prod.mk.inj (Option.some.inj hn)).1⟩

/-- **The block migrations are right** in every run, whatever order the sections come in. -/
theorem migrationsRight_along (ops : List MigrationStep) :
    HoldsAlong step MigrationsRight start ops := by
  intro pre _
  exact (run_inv step (I := Inv) start_inv (fun _ op h => h.step op) pre).migrationsRight

/-- Each entry counts the pushes that have not handed over their events, and nothing else. -/
def CountsPushes (s : MigrationTools) : Prop :=
  ∀ e ∈ s.channelList, ∀ data, s.blocks e = some data →
    data.selfChannelEntry.pendingEventCount = s.pendingPushes data.selfChannelEntry.channel

/-- The worker runs for a block migration only when its entry counts nothing. -/
def RunsUncounted (s : MigrationTools) : Prop :=
  ∀ b timestamp data, s.worker = some (b, timestamp) → s.blocks b = some data →
    data.selfChannelEntry.pendingEventCount = 0

def migrationInfo : BlockMigrationInfo := ⟨1, 0, 0, 0, 0⟩

/-- A call of `uvm_tools_schedule_completed_events` counts while it retains an entry.  And the
worker runs for a block migration while its entry counts the next push of the channel. -/
theorem entry_counts_more : ¬ HoldsAlong step CountsPushes start
        [.beginPush 0, .blockMigrationBegin 0 true migrationInfo, .endPush 0, .schedule] ∧
      ¬ HoldsAlong step RunsUncounted start
        [.beginPush 0, .blockMigrationBegin 0 true migrationInfo, .endPush 0,
          .beginPush 0, .blockMigrationBegin 1 true migrationInfo,
          .complete 0 1 1 fun _ => 1, .handOver 0, .work] := by
  constructor
  · intro h
    have hcnts := h _ (List.prefix_refl _)
    have hcnt := hcnts 0 List.mem_cons_self _ rfl
    exact absurd hcnt (by decide)
  · intro h
    have hruns := h _ (List.prefix_refl _)
    have hcnt := hruns 0 1 _ rfl rfl
    exact absurd hcnt (by decide)

end MigrationTools

end NvUvm
