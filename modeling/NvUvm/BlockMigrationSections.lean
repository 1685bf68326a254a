import NvUvm.BlockMigrationInv

/-!
# Pushes, callbacks and the worker of the block migrations

The sections that take no part in the list of channels: those of a push and its `on_complete`
callback before it takes the lock, and those of the worker.
-/

namespace NvUvm

open Lib
open Function (update update_of_ne update_self)

namespace MigrationTools

variable {s s' : MigrationTools} {extra : List ℕ} {b e i k n m : ℕ}
  {data data' : BlockMigrationData} {push push' : MigrationPush} {call call' : ScheduleCall}

/-! ## Pushes -/

theorem getElem?_setPush (hi : s.pushes[i]? = some push) (push' : MigrationPush) (j : ℕ) :
    (s.pushes.set i push')[j]? = if j = i then some push' else s.pushes[j]? := by
  have hlt := (List.getElem?_eq_some_iff.mp hi).1
  by_cases heq : j = i
  · subst heq
    rw [if_pos rfl, List.getElem?_set_self hlt]
  · rw [if_neg heq, List.getElem?_set_ne (Ne.symm heq)]

theorem Core.setPushes (h : s.Core extra) {pushes' : List MigrationPush}
    (hpend : ∀ k, pushes'.countP (isPendingOn k) = s.pendingPushes k)
    (hback : ∀ (i : ℕ) (push : MigrationPush) (b : ℕ), pushes'[i]? = some push →
      push.onCompleteData = some b → ∃ old, s.pushes[i]? = some old ∧ old.onCompleteData = some b ∧ old.channel = push.channel ∧
        push.phase ≠ .completed)
    (hcompl : ∀ i, s.Completed i →
      ∃ push : MigrationPush, pushes'[i]? = some push ∧ push.phase = .completed) :
    ({ s with pushes := pushes' } : MigrationTools).Core extra := by
  refine ⟨h.untouched, h.freshBlock, h.freshMig, h.counts.congr hpend fun _ _ => rfl,
    fun push hpush b d hon hd => ?_, ?_,
    ⟨h.events.events, h.events.migs, h.events.orphans⟩, h.calls⟩
  · obtain ⟨i, hi⟩ := List.mem_iff_getElem?.mp hpush
    obtain ⟨old, hold, hon', hchan, -⟩ := hback i push b hi hon
    rw [← hchan]
    exact h.entries old (List.mem_of_getElem? hold) b d hon' hd
  · refine ⟨fun i push b hpush hon => ?_, fun b hgiven => ?_, h.owners.queue, h.owners.running⟩
    · obtain ⟨old, hold, hon', hchan, hphase⟩ := hback i push b hpush hon
      obtain ⟨hblock, -, hnot⟩ := h.owners.pushes i old b hold hon'
      refine ⟨?_, hphase, hnot⟩
      rw [← hchan]
      exact hblock
    · obtain ⟨d, hd, halive, hdone⟩ := h.owners.given b hgiven
      exact ⟨d, hd, halive, hcompl d.push hdone⟩

theorem Inv.setPush (h : s.Inv) (hi : s.pushes[i]? = some push) (hphase : push.phase ≠ .completed)
    (hon : push'.onCompleteData = push.onCompleteData) (hchan : push'.channel = push.channel)
    (hnone : push'.phase = .completed → push.onCompleteData = none) : (s.setPush i push').Inv := by
  have hget := getElem?_setPush hi push'
  refine ⟨h.core.setPushes (fun k => ?_) (fun j p b hj hp => ?_) fun j hj => ?_, h.orphans,
    fun b d hd halive => ?_⟩
  · have hcnt := countP_set_add hi push' (isPendingOn k)
    have hsame : isPendingOn k push' = isPendingOn k push := by
      unfold isPendingOn
      rw [hon, hchan]
    rw [hsame] at hcnt
    exact Nat.add_right_cancel hcnt
  · rw [hget j] at hj
    by_cases heq : j = i
    · subst heq
      rw [if_pos rfl] at hj
      obtain rfl := Option.some.inj hj
      refine ⟨push, hi, hon.symm.trans hp, hchan.symm, fun hc => ?_⟩
      rw [hon, hnone hc] at hp
      cases hp
    · rw [if_neg heq] at hj
      exact ⟨p, hj, hp, rfl, (h.core.owners.pushes j p b hj hp).phase⟩
  · obtain ⟨p, hp, hdone⟩ := hj
    by_cases heq : j = i
    · subst heq
      obtain rfl := Option.some.inj (hi.symm.trans hp)
      exact absurd hdone hphase
    · exact ⟨p, by rw [hget j, if_neg heq]; exact hp, hdone⟩
  · refine (h.owned b d hd halive).imp_left ?_
    rintro ⟨p, hp, hpb⟩
    show ∃ p, (s.pushes.set i push')[d.push]? = some p ∧ _
    rw [hget d.push]
    by_cases heq : d.push = i
    · rw [heq] at hp
      obtain rfl := Option.some.inj (hi.symm.trans hp)
      exact ⟨push', if_pos heq, hon.trans hpb⟩
    · exact ⟨p, (if_neg heq).trans hp, hpb⟩

theorem Inv.beginPush (h : s.Inv) (channel : ℕ) :
    ({ s with pushes := s.pushes ++ [⟨channel, .building, none⟩] } : MigrationTools).Inv := by
  have hleft : ∀ {j : ℕ} {p : MigrationPush}, s.pushes[j]? = some p →
      (s.pushes ++ [⟨channel, .building, none⟩])[j]? = some p := by
    intro j p hj
    rw [List.getElem?_append_left (List.getElem?_eq_some_iff.mp hj).1]
    exact hj
  refine ⟨h.core.setPushes (fun k => ?_) (fun j p b hj hp => ?_) fun j ⟨p, hp, hdone⟩ =>
    ⟨p, hleft hp, hdone⟩, h.orphans, fun b d hd halive => ?_⟩
  · rw [List.countP_append]
    rfl
  · by_cases hlt : j < s.pushes.length
    · rw [List.getElem?_append_left hlt] at hj
      exact ⟨p, hj, hp, rfl, (h.core.owners.pushes j p b hj hp).phase⟩
    · -- the new push has no block migration yet
      have hmem : p ∈ [(⟨channel, .building, none⟩ : MigrationPush)] := by
        rw [List.getElem?_append_right (Nat.le_of_not_lt hlt)] at hj
        exact List.mem_of_getElem? hj
      obtain rfl := List.mem_singleton.mp hmem
      cases hp
  · refine (h.owned b d hd halive).imp_left ?_
    rintro ⟨p, hp, hpb⟩
    exact ⟨p, hleft hp, hpb⟩

/-! ## Migration data -/

theorem Inv.writeEvents (h : s.Inv) (hb : s.blocks b = some data) (hsame : SameOwner data data')
    (hcnt : data'.selfChannelEntry.pendingEventCount = data.selfChannelEntry.pendingEventCount)
    {migs' : ℕ → Option MigrationData} {nextMig' : ℕ} (hfresh : ∀ m, nextMig' ≤ m → migs' m = none)
    (hevs : ({ s.setBlock b data' with migs := migs' } : MigrationTools).Events) :
    ({ s.setBlock b data' with migs := migs', nextMig := nextMig' } : MigrationTools).Inv := by
  have hentry : update s.entry b (some (data'.selfChannelEntry.channel,
      data'.selfChannelEntry.pendingEventCount)) = s.entry := by
    rw [hsame.channel, hcnt, ← entry_eq_some hb, Function.update_eq_self]
  have hback : ∀ {b' d'}, update s.blocks b (some data') b' = some d' →
      ∃ d, s.blocks b' = some d ∧ SameOwner d d' := back_of_update SameOwner.refl hb hsame
  refine ⟨h.core.writeBlock hb hsame (hentry.symm ▸ h.core.counts) (fun _ he _ _ _ _ => he)
    (fun call hcall => (h.core.calls call hcall).1) hfresh hevs, fun b' d' hd' hdead => ?_,
    fun b' d' hd' halive => ?_⟩
  · obtain ⟨d, hd, hsame'⟩ := hback hd'
    exact h.orphans b' d hd (hsame'.parentAlive.symm.trans hdead)
  · obtain ⟨d, hd, hsame'⟩ := hback hd'
    rw [hsame'.push]
    exact h.owned b' d hd (hsame'.parentAlive.symm.trans halive)

theorem readEndTimestamps_spec (endTimestampGpu : ℕ → ℕ) (ms : List ℕ)
    (migs : ℕ → Option MigrationData) (h : ∀ m ∈ ms, ∃ mig, migs m = some mig) :
    ∃ migs', readEndTimestamps endTimestampGpu migs ms = some migs' ∧
      ∀ m, (migs' m).map MigrationData.parent = (migs m).map MigrationData.parent := by
  induction ms generalizing migs with
  | nil => exact ⟨migs, rfl, fun _ => rfl⟩
  | cons m rest ih =>
    obtain ⟨mig, hmig⟩ := h m List.mem_cons_self
    let migs₁ := update migs m (some { mig with endTimestampGpu := endTimestampGpu m })
    have hsame : ∀ m',
        (migs₁ m').map MigrationData.parent = (migs m').map MigrationData.parent := by
      intro m'
      by_cases heq : m' = m
      · subst heq
        dsimp only [migs₁]
        rw [update_self, hmig]
        rfl
      · dsimp only [migs₁]
        rw [update_of_ne heq]
    obtain ⟨migs', hread, hmigs'⟩ := ih migs₁ fun m' hm' => by
      obtain ⟨mig', hmig'⟩ := h m' (List.mem_cons_of_mem m hm')
      have hsome := hsame m'
      rw [hmig'] at hsome
      obtain ⟨mig₁, hmig₁, -⟩ := Option.map_eq_some_iff.mp hsome
      exact ⟨mig₁, hmig₁⟩
    refine ⟨migs', ?_, fun m' => (hmigs' m').trans (hsame m')⟩
    unfold readEndTimestamps
    rw [hmig]
    exact hread

theorem Events.setMigs (h : s.Events) {migs' : ℕ → Option MigrationData}
    (hsame : ∀ m, (migs' m).map MigrationData.parent = (s.migs m).map MigrationData.parent) :
    ({ s with migs := migs' } : MigrationTools).Events := by
  have hpar : ∀ m p, (∃ mig, migs' m = some mig ∧ mig.parent = p) ↔
      ∃ mig, s.migs m = some mig ∧ mig.parent = p := by
    intro m p
    rw [← Option.map_eq_some_iff, ← Option.map_eq_some_iff, hsame m]
  refine ⟨fun b d hd => ⟨(h.events b d hd).1, fun m hm => ?_⟩, fun m mig hm => ?_, h.orphans⟩
  · exact (hpar m b).mpr ((h.events b d hd).2 m hm)
  · obtain ⟨mig', hmig', hp⟩ := (hpar m mig.parent).mp ⟨mig, hm, rfl⟩
    rw [← hp]
    exact h.migs m mig' hmig'

theorem eq_of_update_self {α : Type*} {f : ℕ → Option α} {x : ℕ} {v v' : α}
    (h : update f x (some v) x = some v') : v' = v := by
  rw [update_self] at h
  exact (Option.some.inj h).symm

theorem Events.append (h : s.Events) (hb : s.blocks b = some data)
    (halive : data.selfChannelEntry.parentAlive = true) (hnew : s.migs m = none)
    (mig : MigrationData) (hpar : mig.parent = b) :
    ({ s.setBlock b { data with events := data.events ++ [m] } with
      migs := update s.migs m (some mig) } : MigrationTools).Events := by
  have hold : ∀ {m' mig'}, s.migs m' = some mig' → m' ≠ m := by
    rintro m' mig' hm' rfl
    rw [hnew] at hm'
    cases hm'
  refine ⟨fun b' d' hd' => ?_, fun m' mig' hm' => ?_, fun b' d' hd' hdead => ?_⟩
  · by_cases heq : b' = b
    · subst heq
      obtain rfl := eq_of_update_self (f := s.blocks) hd'
      obtain ⟨hnd, hmem⟩ := h.events b' data hb
      refine ⟨?_, fun m' hm' => ?_⟩
      · rw [List.nodup_append]
        refine ⟨hnd, List.nodup_singleton _, fun m₁ hm₁ m₂ hm₂ => ?_⟩
        obtain ⟨mig₁, hmig₁, -⟩ := hmem m₁ hm₁
        rw [List.mem_singleton.mp hm₂]
        exact hold hmig₁
      · rcases List.mem_append.mp hm' with hm' | hm'
        · obtain ⟨mig', hmig', hp⟩ := hmem m' hm'
          exact ⟨mig', (update_of_ne (hold hmig') ..).trans hmig', hp⟩
        · rw [List.mem_singleton.mp hm']
          exact ⟨mig, update_self .., hpar⟩
    · have hd : s.blocks b' = some d' := (update_of_ne heq ..).symm.trans hd'
      refine ⟨(h.events b' d' hd).1, fun m' hm' => ?_⟩
      obtain ⟨mig', hmig', hp⟩ := (h.events b' d' hd).2 m' hm'
      exact ⟨mig', (update_of_ne (hold hmig') ..).trans hmig', hp⟩
  · by_cases heq : m' = m
    · subst heq
      obtain rfl := eq_of_update_self (f := s.migs) hm'
      rw [hpar]
      exact ⟨_, update_self .., List.mem_append_right _ (List.mem_singleton_self _)⟩
    · have hmig : s.migs m' = some mig' := (update_of_ne heq ..).symm.trans hm'
      obtain ⟨d, hd, hin⟩ := h.migs m' mig' hmig
      by_cases hp : mig'.parent = b
      · rw [hp] at hd ⊢
        obtain rfl := Option.some.inj (hb.symm.trans hd)
        exact ⟨_, update_self .., List.mem_append_left _ hin⟩
      · exact ⟨d, (update_of_ne hp ..).trans hd, hin⟩
  · by_cases heq : b' = b
    · subst heq
      obtain rfl := eq_of_update_self (f := s.blocks) hd'
      exact absurd (halive.symm.trans hdead) (by simp)
    · exact h.orphans b' d' ((update_of_ne heq ..).symm.trans hd') hdead

theorem Events.pop (h : s.Events) (hb : s.blocks b = some data) {events : List ℕ}
    (hevs : data.events = m :: events) :
    ({ s.setBlock b { data with events := events } with
      migs := update s.migs m none } : MigrationTools).Events := by
  obtain ⟨hnd, hmem⟩ := h.events b data hb
  rw [hevs] at hnd hmem
  obtain ⟨hnot, hnd⟩ := List.nodup_cons.mp hnd
  obtain ⟨mig, hmig, hpar⟩ := hmem m List.mem_cons_self
  refine ⟨fun b' d' hd' => ?_, fun m' mig' hm' => ?_, fun b' d' hd' hdead => ?_⟩
  · by_cases heq : b' = b
    · subst heq
      obtain rfl := eq_of_update_self (f := s.blocks) hd'
      refine ⟨hnd, fun m' hm' => ?_⟩
      have hne : m' ≠ m := fun heq => hnot (heq ▸ hm')
      obtain ⟨mig', hmig', hp⟩ := hmem m' (List.mem_cons_of_mem m hm')
      exact ⟨mig', (update_of_ne hne ..).trans hmig', hp⟩
    · have hd : s.blocks b' = some d' := (update_of_ne heq ..).symm.trans hd'
      refine ⟨(h.events b' d' hd).1, fun m' hm' => ?_⟩
      obtain ⟨mig', hmig', hp⟩ := (h.events b' d' hd).2 m' hm'
      -- the event that is done is of another block migration
      have hne : m' ≠ m := by
        rintro rfl
        obtain rfl := Option.some.inj (hmig.symm.trans hmig')
        exact heq (hp.symm.trans hpar)
      exact ⟨mig', (update_of_ne hne ..).trans hmig', hp⟩
  · have hne : m' ≠ m := by
      rintro rfl
      change update s.migs m' none m' = some mig' at hm'
      rw [update_self] at hm'
      cases hm'
    have hmig' : s.migs m' = some mig' := (update_of_ne hne ..).symm.trans hm'
    obtain ⟨d, hd, hin⟩ := h.migs m' mig' hmig'
    by_cases hp : mig'.parent = b
    · rw [hp] at hd ⊢
      obtain rfl := Option.some.inj (hb.symm.trans hd)
      rw [hevs] at hin
      exact ⟨_, update_self .., (List.mem_cons.mp hin).resolve_left hne⟩
    · exact ⟨d, (update_of_ne hp ..).trans hd, hin⟩
  · by_cases heq : b' = b
    · subst heq
      obtain rfl := eq_of_update_self (f := s.blocks) hd'
      have hnil := h.orphans b' data hb hdead
      rw [hevs] at hnil
      cases hnil
    · exact h.orphans b' d' ((update_of_ne heq ..).symm.trans hd') hdead

theorem Inv.recordMigration (h : s.Inv) (hi : s.pushes[i]? = some push) (alloc : Bool)
    (address bytes : ℕ) : ∃ s', s.recordMigration push alloc address bytes = some s' ∧ s'.Inv := by
  unfold MigrationTools.recordMigration
  cases hon : push.onCompleteData with
  | none => exact ⟨s, rfl, h⟩
  | some b =>
    cases alloc with
    | false => exact ⟨s, rfl, h⟩
    | true =>
      obtain ⟨⟨data, hdata, -, -, halive⟩, -, -⟩ := h.core.owners.pushes i push b hi hon
      have hsame : SameOwner data { data with events := data.events ++ [s.nextMig] } :=
        ⟨rfl, rfl, rfl, rfl⟩
      have hevs := h.core.events.append hdata halive (h.core.freshMig _ le_rfl)
        ⟨bytes, address, 0, b⟩ rfl
      dsimp only
      rw [if_neg (by simp), hdata]
      refine ⟨_, rfl, h.writeEvents hdata hsame rfl (fun m hm => ?_) hevs⟩
      have hne : m ≠ s.nextMig := (Nat.lt_of_succ_le hm).ne'
      exact (update_of_ne hne ..).trans (h.core.freshMig m (Nat.le_of_succ_le hm))

theorem Inv.complete (h : s.Inv) (hi : s.pushes[i]? = some push) (hphase : push.phase = .pending)
    (hon : push.onCompleteData = some b) (timestampCpu timestampGpu : ℕ)
    (endTimestampGpu : ℕ → ℕ) :
    ∃ s', s.onBlockMigrationComplete b timestampCpu timestampGpu endTimestampGpu = some s' ∧
      (s'.setPush i { push with phase := .completing }).Inv := by
  obtain ⟨⟨data, hdata, -, -, -⟩, -, -⟩ := h.core.owners.pushes i push b hi hon
  obtain ⟨migs', hread, hparents⟩ := readEndTimestamps_spec endTimestampGpu data.events s.migs
    fun m hm => by
      obtain ⟨mig, hmig, -⟩ := (h.core.events.events b data hdata).2 m hm
      exact ⟨mig, hmig⟩
  let data' := { data with endTimestampCpu := timestampCpu, startTimestampGpu := timestampGpu }
  have hsame : SameBlock data data' := ⟨⟨rfl, rfl, rfl, rfl⟩, rfl⟩
  have hfresh : ∀ m, s.nextMig ≤ m → migs' m = none := by
    intro m hm
    have hpar := hparents m
    rw [h.core.freshMig m hm] at hpar
    exact Option.map_eq_none_iff.mp hpar
  have hevs := (h.core.events.setBlock hdata hsame).setMigs hparents
  let s₁ : MigrationTools := { s.setBlock b data' with migs := migs', nextMig := s.nextMig }
  have hinv : s₁.Inv := h.writeEvents hdata hsame.toSameOwner rfl hfresh hevs
  have hnext : push.phase ≠ .completed := by
    rw [hphase]
    exact MigrationPushPhase.noConfusion
  refine ⟨s₁, ?_, hinv.setPush hi hnext rfl rfl fun hc => by cases hc⟩
  unfold MigrationTools.onBlockMigrationComplete
  rw [hdata]
  dsimp only
  rw [hread]
  rfl

/-! ## The worker -/

theorem Core.setWorker (h : s.Core extra) {toolsQueue : List ℕ} {worker : Option (ℕ × ℕ)}
    (recorded : List UvmEventMigrationInfo)
    (hsub : ∀ b, (b ∈ toolsQueue ∨ ∃ timestamp, worker = some (b, timestamp)) → s.HandedOver b)
    (hqueue : toolsQueue.Nodup)
    (hrun : ∀ b timestamp, worker = some (b, timestamp) → b ∉ toolsQueue) :
    ({ s with toolsQueue := toolsQueue, worker := worker, recorded := recorded } :
      MigrationTools).Core extra := by
  refine ⟨h.untouched, h.freshBlock, h.freshMig, h.counts, h.entries,
    ⟨fun i push b hpush hon => ?_, fun b hgiven => ?_, hqueue, hrun⟩,
    ⟨h.events.events, h.events.migs, h.events.orphans⟩, h.calls⟩
  · obtain ⟨hblock, hphase, hnot⟩ := h.owners.pushes i push b hpush hon
    exact ⟨hblock, hphase, fun hnew => hnot (hsub b hnew)⟩
  · exact h.owners.given b (hsub b hgiven)

theorem Inv.workStart (h : s.Inv) (hworker : s.worker = none) {rest : List ℕ}
    (hqueue : s.toolsQueue = b :: rest) (timestamp : ℕ) :
    ({ s with toolsQueue := rest, worker := some (b, timestamp) } : MigrationTools).Inv := by
  have hnd := h.core.owners.queue
  rw [hqueue] at hnd
  obtain ⟨hnot, hrest⟩ := List.nodup_cons.mp hnd
  have hiff : ∀ b', (b' ∈ rest ∨ ∃ t, some (b, timestamp) = some (b', t)) ↔ s.HandedOver b' := by
    intro b'
    unfold HandedOver
    rw [hqueue, hworker, List.mem_cons]
    constructor
    · rintro (hin | ⟨t, heq⟩)
      · exact .inl (.inr hin)
      · exact .inl (.inl (Prod.mk.inj (Option.some.inj heq)).1.symm)
    · rintro ((rfl | hin) | ⟨t, heq⟩)
      · exact .inr ⟨timestamp, rfl⟩
      · exact .inl hin
      · cases heq
  refine ⟨h.core.setWorker s.recorded (fun b' => (hiff b').mp) hrest fun b' t heq => ?_, h.orphans,
    fun b' d hd halive => (h.owned b' d hd halive).imp_right (hiff b').mpr⟩
  obtain ⟨rfl, -⟩ := Prod.mk.inj (Option.some.inj heq)
  exact hnot

theorem Inv.workEvent (h : s.Inv) {timestamp : ℕ} (hworker : s.worker = some (b, timestamp))
    (hb : s.blocks b = some data) {events : List ℕ} (hevs : data.events = m :: events)
    (timestamp' : ℕ) (recorded : List UvmEventMigrationInfo) :
    ({ s.setBlock b { data with events := events } with
      migs := update s.migs m none
      worker := some (b, timestamp')
      recorded := recorded } : MigrationTools).Inv := by
  have hsame : SameOwner data { data with events := events } := ⟨rfl, rfl, rfl, rfl⟩
  have hfresh : ∀ m', s.nextMig ≤ m' → update s.migs m none m' = none := by
    intro m' hm'
    by_cases heq : m' = m
    · rw [heq, update_self]
    · rw [update_of_ne heq]
      exact h.core.freshMig m' hm'
  have hinv := h.writeEvents hb hsame rfl hfresh (h.core.events.pop hb hevs)
  have hiff : ∀ b', (b' ∈ s.toolsQueue ∨ ∃ t, some (b, timestamp') = some (b', t)) ↔
      s.HandedOver b' := by
    unfold HandedOver
    rw [hworker]
    simp
  refine ⟨hinv.core.setWorker recorded (fun b' => (hiff b').mp) h.core.owners.queue
    fun b' t heq => ?_, hinv.orphans,
    fun b' d hd halive => (hinv.owned b' d hd halive).imp_right (hiff b').mpr⟩
  obtain ⟨rfl, -⟩ := Prod.mk.inj (Option.some.inj heq)
  exact h.core.owners.running b timestamp hworker

def withDeadParent (data : BlockMigrationData) : BlockMigrationData :=
  { data with selfChannelEntry := { data.selfChannelEntry with parentAlive := false } }

theorem Core.clearParentAlive (h : s.Core extra) (hb : s.blocks b = some data)
    (hpush : ∀ (i : ℕ) (push : MigrationPush), s.pushes[i]? = some push →
      push.onCompleteData ≠ some b)
    (hnot : ¬ s.HandedOver b) (hevs : data.events = []) :
    (s.setBlock b (withDeadParent data)).Core extra := by
  have hentry : (s.setBlock b (withDeadParent data)).entry = s.entry := by
    refine (entry_update s b _).trans ?_
    show update s.entry b (some (data.selfChannelEntry.channel,
      data.selfChannelEntry.pendingEventCount)) = s.entry
    rw [← entry_eq_some hb, Function.update_eq_self]
  have hother : ∀ {b'}, b' ≠ b → (s.setBlock b (withDeadParent data)).blocks b' = s.blocks b' :=
    fun hne => update_of_ne hne ..
  have hself : (s.setBlock b (withDeadParent data)).blocks b = some (withDeadParent data) :=
    update_self ..
  refine ⟨h.untouched, fun b' hb' => ?_, h.freshMig, ?_, fun push hmem b' d hon hd => ?_,
    ⟨fun i push b' hi hon => ?_, fun b' hgiven => ?_, h.owners.queue, h.owners.running⟩,
    ⟨fun b' d hd => ?_, fun m mig hm => ?_, fun b' d hd hdead => ?_⟩, h.calls⟩
  · have hne : b' ≠ b := by
      rintro rfl
      rw [h.freshBlock b' hb'] at hb
      cases hb
    exact (hother hne).trans (h.freshBlock b' hb')
  · rw [hentry]
    exact h.counts
  · obtain ⟨i, hi⟩ := List.mem_iff_getElem?.mp hmem
    have hne : b' ≠ b := fun heq => hpush i push hi (heq ▸ hon)
    rw [hentry]
    exact h.entries push hmem b' d hon ((hother hne).symm.trans hd)
  · have hne : b' ≠ b := fun heq => hpush i push hi (heq ▸ hon)
    obtain ⟨hblock, hphase, hnot'⟩ := h.owners.pushes i push b' hi hon
    refine ⟨?_, hphase, hnot'⟩
    rw [hother hne]
    exact hblock
  · have hne : b' ≠ b := fun heq => hnot (heq ▸ hgiven)
    rw [hother hne]
    exact h.owners.given b' hgiven
  · by_cases heq : b' = b
    · subst heq
      obtain rfl := Option.some.inj (hself.symm.trans hd)
      exact h.events.events b' data hb
    · exact h.events.events b' d ((hother heq).symm.trans hd)
  · obtain ⟨d, hd, hin⟩ := h.events.migs m mig hm
    have hne : mig.parent ≠ b := by
      intro heq
      rw [heq] at hd
      obtain rfl := Option.some.inj (hb.symm.trans hd)
      rw [hevs] at hin
      cases hin
    exact ⟨d, (hother hne).trans hd, hin⟩
  · by_cases heq : b' = b
    · subst heq
      obtain rfl := Option.some.inj (hself.symm.trans hd)
      exact hevs
    · exact h.events.orphans b' d ((hother heq).symm.trans hd) hdead

theorem Inv.workFinish (h : s.Inv) {timestamp : ℕ} (hworker : s.worker = some (b, timestamp))
    (hb : s.blocks b = some data) (hevs : data.events = []) :
    ∃ s', ({ s with worker := none } : MigrationTools).finishMigrationEvents b data = some s' ∧
      s'.Inv := by
  have hgiven : s.HandedOver b := .inr ⟨timestamp, hworker⟩
  have hpush : ∀ (i : ℕ) (push : MigrationPush), s.pushes[i]? = some push →
      push.onCompleteData ≠ some b :=
    fun i push hi hon => (h.core.owners.pushes i push b hi hon).notHandedOver hgiven
  let s₁ : MigrationTools := { s with worker := none }
  have hiff : ∀ b', b' ≠ b → (s.HandedOver b' → s₁.HandedOver b') := by
    rintro b' hne (hin | ⟨t, heq⟩)
    · exact .inl hin
    · rw [hworker] at heq
      exact absurd (Prod.mk.inj (Option.some.inj heq)).1.symm hne
  have hcore : s₁.Core [] := by
    refine h.core.setWorker s.recorded (fun b' hin => ?_) h.core.owners.queue
      fun _ _ heq => nomatch heq
    rcases hin with hin | ⟨t, heq⟩
    · exact .inl hin
    · cases heq
  have hnot : ¬ s₁.HandedOver b := by
    rintro (hin | ⟨t, heq⟩)
    · exact h.core.owners.running b timestamp hworker hin
    · cases heq
  have hdead := hcore.clearParentAlive hb hpush hnot hevs
  have hself : (s₁.setBlock b (withDeadParent data)).blocks b = some (withDeadParent data) :=
    update_self ..
  have hother : ∀ {b' d}, b' ≠ b → (s₁.setBlock b (withDeadParent data)).blocks b' = some d →
      s.blocks b' = some d := fun hne hd => (update_of_ne hne ..).symm.trans hd
  have hentry := entry_eq_some hb
  unfold finishMigrationEvents
  by_cases hzero : data.selfChannelEntry.pendingEventCount = 0
  · rw [if_pos hzero]
    have hoff : b ∉ s.channelList := by
      intro hin
      have hpos := (h.core.counts.count_eq hin hentry).2
      omega
    have hfree := hdead.freeBlock hself rfl hoff
    have hback : ∀ {b' d}, update (s₁.setBlock b (withDeadParent data)).blocks b none b' =
        some d → b' ≠ b ∧ s.blocks b' = some d := by
      intro b' d hd
      by_cases heq : b' = b
      · rw [heq, update_self] at hd
        cases hd
      · rw [update_of_ne heq] at hd
        exact ⟨heq, hother heq hd⟩
    refine ⟨_, congrArg _ hself, hfree, fun b' d hd hdead => ?_, fun b' d hd halive => ?_⟩
    · exact h.orphans b' d (hback hd).2 hdead
    · obtain ⟨hne, hd⟩ := hback hd
      exact (h.owned b' d hd halive).imp_right (hiff b' hne)
  · rw [if_neg hzero]
    refine ⟨_, rfl, hdead, fun b' d hd hdead' => ?_, fun b' d hd halive => ?_⟩
    · by_cases heq : b' = b
      · -- the entry still counts something
        rw [heq]
        by_contra hoff
        exact hzero (h.core.counts.offList b hoff _ _ hentry)
      · exact h.orphans b' d (hother heq hd) hdead'
    · by_cases heq : b' = b
      · subst heq
        obtain rfl := Option.some.inj (hself.symm.trans hd)
        cases halive
      · exact (h.owned b' d (hother heq hd) halive).imp_right (hiff b' heq)

theorem Inv.work (h : s.Inv) : ∃ s', s.recordMigrationEvents = some s' ∧ s'.Inv := by
  unfold recordMigrationEvents
  cases hworker : s.worker with
  | none =>
    cases hqueue : s.toolsQueue with
    | nil => exact ⟨s, rfl, h⟩
    | cons b rest =>
      have hgiven : s.HandedOver b := .inl (hqueue ▸ List.mem_cons_self)
      obtain ⟨data, hdata, -, -⟩ := h.core.owners.given b hgiven
      dsimp only
      rw [hdata]
      exact ⟨_, rfl, h.workStart hworker hqueue data.startTimestampGpu⟩
  | some running =>
    obtain ⟨b, timestamp⟩ := running
    obtain ⟨data, hdata, -, -⟩ := h.core.owners.given b (.inr ⟨timestamp, hworker⟩)
    dsimp only
    rw [hdata]
    dsimp only
    cases hevs : data.events with
    | nil => exact h.workFinish hworker hdata hevs
    | cons m events =>
      have hmem : m ∈ data.events := hevs ▸ List.mem_cons_self
      obtain ⟨mig, hmig, -⟩ := (h.core.events.events b data hdata).2 m hmem
      dsimp only
      rw [hmig]
      exact ⟨_, rfl, h.workEvent hworker hdata hevs _ _⟩

end MigrationTools

end NvUvm
