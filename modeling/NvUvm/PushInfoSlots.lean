import NvUvm.PushInfos

/-!
# Who uses which push info

The invariant of the push infos, what every step does to it, and in which runs no two pushes share
one.
-/

namespace NvUvm

open Lib Lib.Ring
open Function (update update_of_ne update_self)

theorem eq_of_mod_eq_of_lt {n j k : ℕ} (hmod : j % n = k % n) (hj : j < k + n) (hk : k < j + n) :
    j = k := by
  rcases Nat.le_total j k with hle | hle
  · have hdvd : (k - j) % n = 0 := Nat.sub_mod_eq_zero_of_mod_eq hmod.symm
    rw [Nat.mod_eq_of_lt (by omega)] at hdvd
    omega
  · have hdvd : (j - k) % n = 0 := Nat.sub_mod_eq_zero_of_mod_eq hmod
    rw [Nat.mod_eq_of_lt (by omega)] at hdvd
    omega

theorem ChannelManager.step_numGpFifoEntries {m : ChannelManager} (h : m.RingInv)
    (op : ManagerStep) (id : ℕ) :
    ((m.step op).channels id).numGpFifoEntries = (m.channels id).numGpFifoEntries := by
  have hupd : ∀ {id'} {channel : PushChannel},
      channel.numGpFifoEntries = (m.channels id').numGpFifoEntries →
        (update m.channels id' channel id).numGpFifoEntries =
          (m.channels id).numGpFifoEntries := by
    intro id' channel hsame
    by_cases hid : id = id'
    · rw [hid, update_self, hsame]
    · rw [update_of_ne hid]
  cases op with
  | tryClaimChannel push id' =>
    rcases m.step_tryClaimChannel push id' with heq | ⟨-, -, heq⟩
    · rw [heq]
    · rw [heq]
      exact hupd rfl
  | tryClaimChunk push =>
    rcases m.step_tryClaimChunk push with heq | ⟨c, pb, -, -, heq⟩
    · rw [heq]
    · rw [heq]
      rfl
  | endPush push size =>
    simp only [ChannelManager.step]
    split
    · exact hupd rfl
    · rfl
  | pushbufferEndPush push =>
    simp only [ChannelManager.step]
    split <;> rfl
  | complete id' value =>
    simp only [ChannelManager.step]
    split
    · exact hupd rfl
    · rfl
  | updateProgress id' completedValue maxToComplete =>
    simp only [ChannelManager.step]
    split
    · obtain ⟨g', k, -, hchans, -⟩ :=
        ChannelManager.updateProgress_spec h.wf id' completedValue maxToComplete
      rw [hchans]
      exact hupd rfl
    · rfl

namespace PushInfoManager

variable {s s' : PushInfoManager}

/-- The invariant of the push infos. -/
structure Inv (s : PushInfoManager) : Prop where
  ring : s.manager.RingPushes
  nextIndex : ∀ id, s.nextPushInfoIndex id = s.beginCount id % s.size id
  /-- A push that has got a push info has begun, and keeps its index until it ends. -/
  numbered : ∀ p j, s.beginNumber p = some j → j < s.beginCount (s.channelOf p) ∧
    ((s.manager.pushes p).phase = .begun ∧ s.pushInfoIndex p = some (j % s.size (s.channelOf p)) ∨
      (s.manager.pushes p).Ended ∧ s.pushInfoIndex p = none)
  unnumbered : ∀ p, s.beginNumber p = none → s.pushInfoIndex p = none ∧
    ¬ (s.manager.pushes p).Ended ∧ s.filled p = false ∧ s.hasCallback p = false
  injective : ∀ p q j, s.beginNumber p = some j → s.beginNumber q = some j →
    s.channelOf p = s.channelOf q → p = q
  entryInfo : ∀ p j, s.beginNumber p = some j → (s.manager.pushes p).Pending →
    s.entryPushInfo (s.manager.pushes p).slot = j % s.size (s.channelOf p)
  ended : ∀ p, (s.manager.pushes p).Ended → s.filled p = true
  /-- A push that is not marked completed is among the last ones that have begun. -/
  window : ∀ p j, s.beginNumber p = some j → ¬ (s.manager.pushes p).MarkedCompleted →
    s.beginCount (s.channelOf p) ≤ j + s.size (s.channelOf p)
  records : ∀ p j, s.beginNumber p = some j → ¬ (s.manager.pushes p).MarkedCompleted →
    s.Records p (s.pushInfos (s.channelOf p) (j % s.size (s.channelOf p)))
  /-- A push info that no push uses has no callback. -/
  free : ∀ id i, (∀ p j, s.beginNumber p = some j → ¬ (s.manager.pushes p).MarkedCompleted →
    s.channelOf p = id → j % s.size id ≠ i) → (s.pushInfos id i).onComplete = none

theorem inv_init (numGpFifoEntries : ℕ → { n : ℕ // 0 < n }) : (init numGpFifoEntries).Inv where
  ring := ChannelManager.ringPushes_init numGpFifoEntries
  nextIndex := fun _ => (Nat.zero_mod _).symm
  numbered := nofun
  unnumbered := fun p _ => ⟨rfl, by simp [init, ChannelManager.init, Push.Ended], rfl, rfl⟩
  injective := nofun
  entryInfo := nofun
  ended := fun p hp => absurd hp (by simp [init, ChannelManager.init, Push.Ended])
  window := nofun
  records := nofun
  free := fun _ _ _ => rfl

/-! ## What the invariant says -/

variable {p index push : ℕ}

theorem Inv.number_of_live (h : s.Inv) (hlive : s.Live p) : ∃ j, s.beginNumber p = some j := by
  cases hnumber : s.beginNumber p with
  | some j => exact ⟨j, rfl⟩
  | none =>
    obtain ⟨hidx, hended, -⟩ := h.unnumbered p hnumber
    rcases hlive.1 with hsome | hend
    · exact absurd hidx hsome
    · exact absurd hend hended

theorem Inv.uses_iff (h : s.Inv) {j : ℕ} (hnumber : s.beginNumber p = some j)
    (hlive : ¬ (s.manager.pushes p).MarkedCompleted) :
    s.Uses p index ↔ index = j % s.size (s.channelOf p) := by
  obtain ⟨-, ⟨hbegun, hidx⟩ | ⟨hended, hidx⟩⟩ := h.numbered p j hnumber
  · have hnot : ¬ (s.manager.pushes p).Ended := by simp [Push.Ended, hbegun]
    rw [Uses, hidx, Option.some.injEq]
    exact ⟨fun huses => (huses.resolve_right fun hend => hnot hend.1).symm, fun heq => .inl heq.symm⟩
  · rw [Uses, hidx, h.entryInfo p j hnumber ⟨hended, hlive⟩]
    constructor
    · rintro (hnone | ⟨-, heq⟩)
      · cases hnone
      · exact heq.symm
    · exact fun heq => .inr ⟨hended, heq.symm⟩

theorem Inv.eq_of_mod_eq (h : s.Inv) {q j k : ℕ} (hp : s.beginNumber p = some j)
    (hq : s.beginNumber q = some k) (hplive : ¬ (s.manager.pushes p).MarkedCompleted)
    (hqlive : ¬ (s.manager.pushes q).MarkedCompleted) (hchan : s.channelOf p = s.channelOf q)
    (hmod : j % s.size (s.channelOf p) = k % s.size (s.channelOf p)) : p = q := by
  have hjlt := (h.numbered p j hp).1
  have hklt := (h.numbered q k hq).1
  have hjwin := h.window p j hp hplive
  have hkwin := h.window q k hq hqlive
  rw [← hchan] at hklt hkwin
  obtain rfl := eq_of_mod_eq_of_lt hmod (by omega) (by omega)
  exact h.injective p q j hp hq hchan

theorem Inv.infosSound (h : s.Inv) : s.InfosSound where
  distinct := by
    intro p q index hp hq hchan hpuses hquses
    obtain ⟨j, hj⟩ := h.number_of_live hp
    obtain ⟨k, hk⟩ := h.number_of_live hq
    have hpindex := (h.uses_iff hj hp.2).mp hpuses
    have hqindex := (h.uses_iff hk hq.2).mp hquses
    rw [← hchan] at hqindex
    exact h.eq_of_mod_eq hj hk hp.2 hq.2 hchan (hpindex.symm.trans hqindex)
  records := by
    intro p index hp huses
    obtain ⟨j, hj⟩ := h.number_of_live hp
    rw [(h.uses_iff hj hp.2).mp huses]
    exact h.records p j hj hp.2
  processed := by
    intro id i hi
    obtain ⟨hpend, hslot⟩ := h.ring.holds id i hi
    have hlive : s.Live (s.manager.entry (id, i)).push := ⟨.inr hpend.1, hpend.2⟩
    obtain ⟨j, hj⟩ := h.number_of_live hlive
    have hinfo := h.entryInfo _ j hj hpend
    have hrecs := h.records _ j hj hpend.2
    rw [hslot] at hinfo
    have hchan : s.channelOf (s.manager.entry (id, i)).push = id := congrArg Prod.fst hslot
    rw [hchan] at hinfo hrecs
    rw [hinfo]
    exact ⟨h.ended _ hpend.1, hrecs⟩

/-! ## The steps -/

theorem Inv.frameInfos (h : s.Inv) {m : ChannelManager} {infos : ℕ → ℕ → PushInfo}
    (hring : m.RingPushes) (hsize : ∀ id, (m.channels id).numGpFifoEntries = s.size id)
    (hphase : ∀ p j, s.beginNumber p = some j →
      (s.manager.pushes p).phase = .begun → (m.pushes p).phase = .begun)
    (hended : ∀ p, (m.pushes p).Ended ↔ (s.manager.pushes p).Ended)
    (hslot : ∀ p j, s.beginNumber p = some j → (m.pushes p).slot = (s.manager.pushes p).slot)
    (hmarked : ∀ p, (s.manager.pushes p).MarkedCompleted → (m.pushes p).MarkedCompleted)
    (hrecs : ∀ p j, s.beginNumber p = some j → ¬ (m.pushes p).MarkedCompleted →
      s.Records p (infos (s.channelOf p) (j % s.size (s.channelOf p))))
    (hfree : ∀ id i, (∀ p j, s.beginNumber p = some j → ¬ (m.pushes p).MarkedCompleted →
      s.channelOf p = id → j % s.size id ≠ i) → (infos id i).onComplete = none) :
    ({ s with manager := m, pushInfos := infos } : PushInfoManager).Inv := by
  have hchan : ∀ p j, s.beginNumber p = some j → (m.pushes p).channel = s.channelOf p :=
    fun p j hj => congrArg Prod.fst (hslot p j hj)
  refine { ring := hring, nextIndex := ?_, numbered := ?_, unnumbered := ?_, injective := ?_,
           entryInfo := ?_, ended := ?_, window := ?_, records := ?_, free := ?_ }
  · intro id
    change _ = _ % (m.channels id).numGpFifoEntries
    rw [hsize id]
    exact h.nextIndex id
  · intro p j hj
    change j < s.beginCount (m.pushes p).channel ∧
      ((m.pushes p).phase = .begun ∧ s.pushInfoIndex p =
        some (j % (m.channels (m.pushes p).channel).numGpFifoEntries) ∨ _)
    rw [hchan p j hj, hsize]
    obtain ⟨hlt, hcase⟩ := h.numbered p j hj
    exact ⟨hlt, hcase.imp (fun hb => ⟨hphase p j hj hb.1, hb.2⟩)
      fun he => ⟨(hended p).mpr he.1, he.2⟩⟩
  · intro p hp
    obtain ⟨hidx, hnot, hrest⟩ := h.unnumbered p hp
    exact ⟨hidx, fun he => hnot ((hended p).mp he), hrest⟩
  · intro p q j hp hq hsame
    apply h.injective p q j hp hq
    rw [← hchan p j hp, ← hchan q j hq]
    exact hsame
  · rintro p j hj ⟨he, hm⟩
    change s.entryPushInfo (m.pushes p).slot =
      j % (m.channels (m.pushes p).channel).numGpFifoEntries
    rw [hchan p j hj, hsize, hslot p j hj]
    exact h.entryInfo p j hj ⟨(hended p).mp he, fun hm' => hm (hmarked p hm')⟩
  · exact fun p he => h.ended p ((hended p).mp he)
  · intro p j hj hm
    change s.beginCount (m.pushes p).channel ≤
      j + (m.channels (m.pushes p).channel).numGpFifoEntries
    rw [hchan p j hj, hsize]
    exact h.window p j hj fun hm' => hm (hmarked p hm')
  · intro p j hj hm
    change s.Records p (infos (m.pushes p).channel
      (j % (m.channels (m.pushes p).channel).numGpFifoEntries))
    rw [hchan p j hj, hsize]
    exact hrecs p j hj hm
  · intro id i hunused
    refine hfree id i fun p j hj hm hp => ?_
    have hne := hunused p j hj hm ((hchan p j hj).trans hp)
    change j % (m.channels id).numGpFifoEntries ≠ i at hne
    rwa [hsize] at hne

theorem Inv.frame (h : s.Inv) {m : ChannelManager} (hring : m.RingPushes)
    (hsize : ∀ id, (m.channels id).numGpFifoEntries = s.size id)
    (hphase : ∀ p j, s.beginNumber p = some j →
      (s.manager.pushes p).phase = .begun → (m.pushes p).phase = .begun)
    (hended : ∀ p, (m.pushes p).Ended ↔ (s.manager.pushes p).Ended)
    (hslot : ∀ p j, s.beginNumber p = some j → (m.pushes p).slot = (s.manager.pushes p).slot)
    (hmarked : ∀ p, (m.pushes p).MarkedCompleted ↔ (s.manager.pushes p).MarkedCompleted) :
    ({ s with manager := m } : PushInfoManager).Inv :=
  h.frameInfos hring hsize hphase hended hslot (fun p => (hmarked p).mpr)
    (fun p j hj hm => h.records p j hj fun hm' => hm ((hmarked p).mpr hm'))
    fun id i hfree => h.free id i fun p j hj hm =>
      hfree p j hj fun hm' => hm ((hmarked p).mp hm')

theorem Inv.ne_of_number (h : s.Inv) {q j : ℕ} (hq : s.beginNumber q = some j)
    (hp : (s.manager.pushes p).phase ≠ .begun) (hpe : ¬ (s.manager.pushes p).Ended) : q ≠ p := by
  rintro rfl
  obtain ⟨-, ⟨hbegun, -⟩ | ⟨hended, -⟩⟩ := h.numbered q j hq
  · exact hp hbegun
  · exact hpe hended

theorem inv_manager (h : s.Inv) (op : ManagerStep) (hend : ∀ push size, op ≠ .endPush push size)
    (hupd : ∀ id v n, op ≠ .updateProgress id v n) :
    ({ s with manager := s.manager.step op } : PushInfoManager).Inv := by
  have hring := h.ring.step op
  have hsize := ChannelManager.step_numGpFifoEntries h.ring.toRingInv op
  -- a push that takes a step, and what it says afterwards
  have hone : ∀ (push : ℕ) (p : Push), (s.manager.step op).pushes = update s.manager.pushes push p →
      (∀ j, s.beginNumber push = some j → (s.manager.pushes push).phase = .begun →
        p.phase = .begun) →
      (p.Ended ↔ (s.manager.pushes push).Ended) →
      (∀ j, s.beginNumber push = some j → p.slot = (s.manager.pushes push).slot) →
      (p.MarkedCompleted ↔ (s.manager.pushes push).MarkedCompleted) →
      ({ s with manager := s.manager.step op } : PushInfoManager).Inv := by
    intro push p hpush hphase hended hslot hmarked
    have hcases : ∀ q, (s.manager.step op).pushes q = s.manager.pushes q ∨
        (q = push ∧ (s.manager.step op).pushes q = p) := by
      intro q
      rw [hpush]
      by_cases hq : q = push
      · exact Or.inr ⟨hq, by rw [hq, update_self]⟩
      · exact Or.inl (update_of_ne hq _ _)
    refine h.frame hring hsize (fun q j hj hb => ?_) (fun q => ?_) (fun q j hj => ?_) fun q => ?_
    · rcases hcases q with heq | ⟨rfl, heq⟩
      · rwa [heq]
      · rw [heq]
        exact hphase j hj hb
    · rcases hcases q with heq | ⟨rfl, heq⟩
      · rw [heq]
      · rw [heq]
        exact hended
    · rcases hcases q with heq | ⟨rfl, heq⟩
      · rw [heq]
      · rw [heq]
        exact hslot j hj
    · rcases hcases q with heq | ⟨rfl, heq⟩
      · rw [heq]
      · rw [heq]
        exact hmarked
  have hnone : (s.manager.step op).pushes = s.manager.pushes →
      ({ s with manager := s.manager.step op } : PushInfoManager).Inv := by
    intro hpush
    apply h.frame hring hsize
    · exact fun q j _ hb => by rwa [hpush]
    · exact fun q => by rw [hpush]
    · exact fun q j _ => by rw [hpush]
    · exact fun q => by rw [hpush]
  cases op with
  | tryClaimChannel push id =>
    rcases s.manager.step_tryClaimChannel push id with heq | ⟨hfree, -, heq⟩
    · exact hnone (by rw [heq])
    · have hunnumbered : ∀ j, s.beginNumber push ≠ some j := fun j hj =>
        h.ne_of_number hj (by simp [hfree]) (by simp [Push.Ended, hfree]) rfl
      apply hone push _ (by rw [heq]; rfl)
      · exact fun j hj => absurd hj (hunnumbered j)
      · simp [Push.Ended, hfree]
      · exact fun j hj => absurd hj (hunnumbered j)
      · exact Iff.rfl
  | tryClaimChunk push =>
    rcases s.manager.step_tryClaimChunk push with heq | ⟨c, pb, hresvd, -, heq⟩
    · exact hnone (by rw [heq])
    · apply hone push _ (by rw [heq]; rfl)
      · exact fun _ _ _ => rfl
      · simp [Push.Ended, hresvd]
      · exact fun _ _ => rfl
      · exact Iff.rfl
  | endPush push size => exact absurd rfl (hend push size)
  | pushbufferEndPush push =>
    by_cases hsubm : (s.manager.pushes push).phase = .submitted
    · apply hone push _ (by simp only [ChannelManager.step, if_pos hsubm]; rfl)
      · intro j _ hbegun
        rw [hsubm] at hbegun
        cases hbegun
      · simp [Push.Ended, hsubm]
      · exact fun _ _ => rfl
      · exact Iff.rfl
    · exact hnone (by simp only [ChannelManager.step, if_neg hsubm])
  | complete id value =>
    apply hnone
    simp only [ChannelManager.step]
    split <;> rfl
  | updateProgress id v n => exact absurd rfl (hupd id v n)

theorem Inv.number_of_index (h : s.Inv) (hidx : s.pushInfoIndex push = some index) :
    ∃ j, s.beginNumber push = some j ∧ index = j % s.size (s.channelOf push) ∧
      (s.manager.pushes push).phase = .begun ∧ ¬ (s.manager.pushes push).MarkedCompleted := by
  cases hnumber : s.beginNumber push with
  | none =>
    rw [(h.unnumbered push hnumber).1] at hidx
    cases hidx
  | some j =>
    obtain ⟨-, ⟨hbegun, hindex'⟩ | ⟨-, hindex'⟩⟩ := h.numbered push j hnumber
    · rw [hindex'] at hidx
      refine ⟨j, rfl, (Option.some.inj hidx).symm, hbegun, fun hmarked => ?_⟩
      have hended := h.ring.fresh push hmarked
      simp [Push.Ended, hbegun] at hended
    · rw [hindex'] at hidx
      cases hidx

theorem Inv.write (h : s.Inv) (info : PushInfo) (filled hasCallback : Bool)
    (hidx : s.pushInfoIndex push = some index)
    (hrecs : (filled = true → info.description = some push) ∧
      info.onComplete = if hasCallback then some push else none) :
    ({ s.setPushInfo (s.channelOf push) index info with
        filled := update s.filled push filled
        hasCallback := update s.hasCallback push hasCallback } : PushInfoManager).Inv := by
  obtain ⟨j, hj, rfl, hbegun, hlive⟩ := h.number_of_index hidx
  have hnotEnded : ¬ (s.manager.pushes push).Ended := by simp [Push.Ended, hbegun]
  refine { ring := h.ring, nextIndex := h.nextIndex, numbered := h.numbered,
           unnumbered := fun p hp => ?_, injective := h.injective, entryInfo := h.entryInfo,
           ended := fun p hp => ?_, window := h.window, records := fun p k hp hm => ?_,
           free := fun id i hfree => ?_ }
  · obtain ⟨hnone, hended, hrest⟩ := h.unnumbered p hp
    have hne : p ≠ push := by
      rintro rfl
      change s.beginNumber p = none at hp
      rw [hp] at hj
      cases hj
    refine ⟨hnone, hended, ?_⟩
    dsimp only
    rwa [update_of_ne hne, update_of_ne hne]
  · have hne : p ≠ push := fun heq => hnotEnded (heq ▸ hp)
    exact (update_of_ne hne _ _).trans (h.ended p hp)
  · change PushInfoManager.Records _ p (update s.pushInfos (s.channelOf push) _ _ _)
    by_cases hpp : p = push
    · subst hpp
      obtain rfl : k = j := Option.some.inj (Eq.trans (Eq.symm hp) hj)
      have hself : update s.pushInfos (s.channelOf p)
          (update (s.pushInfos (s.channelOf p)) (k % s.size (s.channelOf p)) info)
          (s.channelOf p) (k % s.size (s.channelOf p)) = info := by
        rw [update_self, update_self]
      change (update s.filled p filled p = true → _) ∧
        _ = if update s.hasCallback p hasCallback p = true then _ else _
      rw [update_self, update_self]
      exact hself.symm ▸ hrecs
    · have hold := h.records p k hp hm
      have hsame : update s.pushInfos (s.channelOf push)
          (update (s.pushInfos (s.channelOf push)) (j % s.size (s.channelOf push)) info)
          (s.channelOf p) (k % s.size (s.channelOf p)) =
            s.pushInfos (s.channelOf p) (k % s.size (s.channelOf p)) := by
        by_cases hchan : s.channelOf p = s.channelOf push
        · rw [hchan, update_self]
          apply update_of_ne
          intro hmod
          rw [← hchan] at hmod
          exact hpp (h.eq_of_mod_eq hp hj hm hlive hchan hmod)
        · rw [update_of_ne hchan]
      change (update s.filled push filled p = true → _) ∧
        _ = if update s.hasCallback push hasCallback p = true then _ else _
      rw [update_of_ne hpp, update_of_ne hpp]
      exact hsame ▸ hold
  · have hold := h.free id i hfree
    change (update s.pushInfos (s.channelOf push) _ id i).onComplete = none
    by_cases hid : id = s.channelOf push
    · subst hid
      rw [update_self, update_of_ne]
      · exact hold
      · exact fun heq => hfree push j hj hlive rfl heq.symm
    · rwa [update_of_ne hid]

theorem Inv.getNext (h : s.Inv) (hbegun : (s.manager.pushes push).phase = .begun)
    (hidx : s.pushInfoIndex push = none)
    (hafter : ∀ earlier number, s.channelOf earlier = s.channelOf push →
      s.beginNumber earlier = some number →
        number + s.size (s.channelOf push) = s.beginCount (s.channelOf push) →
          (s.manager.pushes earlier).MarkedCompleted) : (s.getNextPushInfoIndex push).Inv := by
  have hnumber : s.beginNumber push = none := by
    cases hnumber : s.beginNumber push with
    | none => rfl
    | some j =>
      obtain ⟨-, ⟨-, hsome⟩ | ⟨hended, -⟩⟩ := h.numbered push j hnumber
      · rw [hidx] at hsome
        cases hsome
      · simp [Push.Ended, hbegun] at hended
  obtain ⟨-, hnotEnded, hnotFilled, hnoCallback⟩ := h.unnumbered push hnumber
  have hne : ∀ p j, s.beginNumber p = some j → p ≠ push := by
    rintro p j hj rfl
    rw [hnumber] at hj
    cases hj
  have hsize : 0 < s.size (s.channelOf push) :=
    Nat.zero_lt_of_lt (h.ring.wf (s.channelOf push)).put
  -- the number of a push in the new state
  have hnumbered : ∀ p j, (s.getNextPushInfoIndex push).beginNumber p = some j →
      p = push ∧ j = s.beginCount (s.channelOf push) ∨ p ≠ push ∧ s.beginNumber p = some j := by
    intro p j hj
    change update s.beginNumber push _ p = some j at hj
    by_cases hpp : p = push
    · rw [hpp, update_self] at hj
      exact Or.inl ⟨hpp, (Option.some.inj hj).symm⟩
    · rw [update_of_ne hpp] at hj
      exact Or.inr ⟨hpp, hj⟩
  have hcnt : ∀ id, (s.getNextPushInfoIndex push).beginCount id =
      if id = s.channelOf push then s.beginCount id + 1 else s.beginCount id := by
    intro id
    change update s.beginCount (s.channelOf push) _ id = _
    by_cases hid : id = s.channelOf push
    · rw [if_pos hid, hid, update_self]
    · rw [if_neg hid, update_of_ne hid]
  -- the live pushes of the channel are in the window that the new one moves on
  have hwindow : ∀ p j, s.beginNumber p = some j → ¬ (s.manager.pushes p).MarkedCompleted →
      s.channelOf p = s.channelOf push → j < s.beginCount (s.channelOf push) ∧
        s.beginCount (s.channelOf push) < j + s.size (s.channelOf push) := by
    intro p j hj hm hp
    have hlt := (h.numbered p j hj).1
    have hle := h.window p j hj hm
    rw [hp] at hlt hle
    exact ⟨hlt, Nat.lt_of_le_of_ne hle fun heq => hm (hafter p j hp hj heq.symm)⟩
  refine { ring := h.ring, nextIndex := fun id => ?_, numbered := fun p j hj => ?_,
           unnumbered := fun p hp => ?_, injective := fun p q j hp hq hchan => ?_,
           entryInfo := fun p j hj hp => ?_, ended := h.ended, window := fun p j hj hm => ?_,
           records := fun p j hj hm => ?_, free := fun id i hfree => ?_ }
  · change update s.nextPushInfoIndex (s.channelOf push) _ id =
      update s.beginCount (s.channelOf push) _ id % s.size id
    by_cases hid : id = s.channelOf push
    · rw [hid, update_self, update_self, h.nextIndex, Nat.mod_add_mod]
    · rw [update_of_ne hid, update_of_ne hid]
      exact h.nextIndex id
  · change j < (s.getNextPushInfoIndex push).beginCount (s.channelOf p) ∧
      ((s.manager.pushes p).phase = .begun ∧
        update s.pushInfoIndex push _ p = some (j % s.size (s.channelOf p)) ∨
      (s.manager.pushes p).Ended ∧ update s.pushInfoIndex push _ p = none)
    rw [hcnt]
    rcases hnumbered p j hj with ⟨rfl, rfl⟩ | ⟨hpp, hold⟩
    · rw [if_pos rfl, update_self, h.nextIndex]
      exact ⟨Nat.lt_succ_self _, .inl ⟨hbegun, rfl⟩⟩
    · rw [update_of_ne hpp]
      obtain ⟨hlt, hcase⟩ := h.numbered p j hold
      refine ⟨?_, hcase⟩
      split
      · exact Nat.lt_succ_of_lt hlt
      · exact hlt
  · change update s.beginNumber push _ p = none at hp
    change update s.pushInfoIndex push _ p = none ∧ _
    have hpp : p ≠ push := by
      rintro rfl
      rw [update_self] at hp
      cases hp
    rw [update_of_ne hpp] at hp ⊢
    exact h.unnumbered p hp
  · change s.channelOf p = s.channelOf q at hchan
    rcases hnumbered p j hp with ⟨rfl, rfl⟩ | ⟨-, hpold⟩
    · rcases hnumbered q _ hq with ⟨rfl, -⟩ | ⟨-, hqold⟩
      · rfl
      · have hlt := (h.numbered q _ hqold).1
        rw [← hchan] at hlt
        exact absurd hlt (Nat.lt_irrefl _)
    · rcases hnumbered q j hq with ⟨rfl, rfl⟩ | ⟨-, hqold⟩
      · have hlt := (h.numbered p _ hpold).1
        rw [hchan] at hlt
        exact absurd hlt (Nat.lt_irrefl _)
      · exact h.injective p q j hpold hqold hchan
  · rcases hnumbered p j hj with ⟨rfl, -⟩ | ⟨-, hold⟩
    · exact absurd hp.1 hnotEnded
    · exact h.entryInfo p j hold hp
  · change (s.getNextPushInfoIndex push).beginCount (s.channelOf p) ≤ j + s.size (s.channelOf p)
    rw [hcnt]
    rcases hnumbered p j hj with ⟨rfl, rfl⟩ | ⟨-, hold⟩
    · rw [if_pos rfl]
      omega
    · split
      case isTrue hp =>
        rw [hp]
        exact (hwindow p j hold hm hp).2
      case isFalse => exact h.window p j hold hm
  · change s.Records p (s.pushInfos (s.channelOf p) (j % s.size (s.channelOf p)))
    rcases hnumbered p j hj with ⟨rfl, rfl⟩ | ⟨-, hold⟩
    · rw [Records, hnotFilled, hnoCallback]
      refine ⟨(absurd · Bool.false_ne_true), ?_⟩
      apply h.free
      intro q k hk hq hchan hmod
      obtain ⟨hlt, hlt'⟩ := hwindow q k hk hq hchan
      have heq := eq_of_mod_eq_of_lt hmod (by omega) hlt'
      omega
    · exact h.records p j hold hm
  · apply h.free id i
    intro p j hj hm hp
    apply hfree p j _ hm hp
    exact (update_of_ne (hne p j hj) _ _).trans hj

theorem Inv.endPush (h : s.Inv) (size : PushSize) (hidx : s.pushInfoIndex push = some index)
    (hfilled : s.filled push = true) : (s.endPush push size index).Inv := by
  obtain ⟨j, hj, rfl, hbegun, hlive⟩ := h.number_of_index hidx
  have hring := h.ring.endPushSection size hbegun
  let m := s.manager.endPushSection push size
  have hother : ∀ q, q ≠ push → m.pushes q = s.manager.pushes q :=
    fun q hq => update_of_ne hq _ _
  have hself : (m.pushes push).slot =
      (s.channelOf push, (s.manager.channels (s.channelOf push)).cpuPut) := by
    simp [m, ChannelManager.endPushSection, Push.slot, channelOf]
  have hended : (m.pushes push).Ended := Or.inl (by simp [m, ChannelManager.endPushSection])
  have hchan : ∀ p, (m.pushes p).channel = s.channelOf p := by
    intro p
    by_cases hp : p = push
    · rw [hp]
      exact congrArg Prod.fst hself
    · rw [hother p hp]
      rfl
  have hmarked : ∀ p, (m.pushes p).MarkedCompleted ↔ (s.manager.pushes p).MarkedCompleted := by
    intro p
    by_cases hp : p = push
    · rw [hp]
      simp [m, ChannelManager.endPushSection, Push.MarkedCompleted]
    · rw [hother p hp]
  have hsize : ∀ id, (m.channels id).numGpFifoEntries = s.size id := by
    intro id
    have hstep := ChannelManager.step_numGpFifoEntries h.ring.toRingInv (.endPush push size) id
    simp only [ChannelManager.step, if_pos hbegun] at hstep
    exact hstep
  refine { ring := hring, nextIndex := fun id => ?_, numbered := fun p k hk => ?_,
           unnumbered := fun p hp => ?_, injective := fun p q k hp hq hpq => ?_,
           entryInfo := fun p k hk hp => ?_, ended := fun p hp => ?_, window := fun p k hk hm => ?_,
           records := fun p k hk hm => ?_, free := fun id i hfree => ?_ }
  · change _ = _ % (m.channels id).numGpFifoEntries
    rw [hsize]
    exact h.nextIndex id
  · change k < s.beginCount (m.pushes p).channel ∧ ((m.pushes p).phase = .begun ∧
        update s.pushInfoIndex push none p = some (k % (m.channels
            (m.pushes p).channel).numGpFifoEntries) ∨
      (m.pushes p).Ended ∧
        update s.pushInfoIndex push none p = none)
    rw [hchan, hsize]
    obtain ⟨hlt, hcase⟩ := h.numbered p k hk
    refine ⟨hlt, ?_⟩
    by_cases hp : p = push
    · rw [hp, update_self]
      exact Or.inr ⟨hended, rfl⟩
    · rw [hother p hp, update_of_ne hp]
      exact hcase
  · change s.beginNumber p = none at hp
    have hpp : p ≠ push := by
      rintro rfl
      rw [hp] at hj
      cases hj
    change update s.pushInfoIndex push none p = none ∧
      ¬ (m.pushes p).Ended ∧ _
    rw [update_of_ne hpp, hother p hpp]
    exact h.unnumbered p hp
  · apply h.injective p q k hp hq
    rw [← hchan p, ← hchan q]
    exact hpq
  · change update s.entryPushInfo _ _ (m.pushes p).slot = k % (m.channels
        (m.pushes p).channel).numGpFifoEntries
    rw [hchan, hsize]
    by_cases hpp : p = push
    · subst hpp
      obtain rfl : k = j := Option.some.inj (Eq.trans (Eq.symm hk) hj)
      rw [hself, update_self]
    · change (m.pushes p).Pending at hp
      rw [hother p hpp] at hp ⊢
      -- the entry of another pending push is in another slot
      have hin := (h.ring.pending p hp).1
      rw [update_of_ne, h.entryInfo p k hk hp]
      intro heq
      obtain ⟨hc, hi⟩ := Prod.mk.inj heq
      rw [hc, hi] at hin
      exact not_inRing_put hin
  · change (m.pushes p).Ended at hp
    by_cases hpp : p = push
    · rw [hpp]
      exact hfilled
    · rw [hother p hpp] at hp
      exact h.ended p hp
  · change s.beginCount (m.pushes p).channel ≤ k + (m.channels
        (m.pushes p).channel).numGpFifoEntries
    rw [hchan, hsize]
    exact h.window p k hk fun hm' => hm ((hmarked p).mpr hm')
  · change s.Records p (s.pushInfos (m.pushes p).channel
      (k % (m.channels (m.pushes p).channel).numGpFifoEntries))
    rw [hchan, hsize]
    exact h.records p k hk fun hm' => hm ((hmarked p).mpr hm')
  · apply h.free id i
    intro p k hk hm hp
    have hnot := hfree p k hk (fun hm' => hm ((hmarked p).mp hm')) ((hchan p).trans hp)
    change k % (m.channels id).numGpFifoEntries ≠ i at hnot
    rwa [hsize] at hnot

theorem clearCallbacks_spec (id : ℕ) (slots : List ℕ) (x : ℕ) :
    (s.clearCallbacks id slots x).description = (s.pushInfos id x).description ∧
      (s.clearCallbacks id slots x).onComplete =
        if ∃ i ∈ slots, s.entryPushInfo (id, i) = x then none else (s.pushInfos id x).onComplete := by
  unfold clearCallbacks
  induction slots using List.reverseRecOn with
  | nil => simp
  | append_singleton slots i ih =>
    rw [List.foldl_append]
    simp only [List.foldl_cons, List.foldl_nil]
    by_cases hx : x = s.entryPushInfo (id, i)
    · subst hx
      rw [update_self]
      refine ⟨ih.1, (if_pos ⟨i, by simp, rfl⟩).symm⟩
    · rw [update_of_ne hx]
      refine ⟨ih.1, ih.2.trans ?_⟩
      have hsame : (∃ j ∈ slots ++ [i], s.entryPushInfo (id, j) = x) ↔
          ∃ j ∈ slots, s.entryPushInfo (id, j) = x := by
        constructor
        · rintro ⟨j, hj, heq⟩
          rcases List.mem_append.mp hj with hj | hj
          · exact ⟨j, hj, heq⟩
          · rw [List.mem_singleton.mp hj] at heq
            exact absurd heq.symm hx
        · rintro ⟨j, hj, heq⟩
          exact ⟨j, List.mem_append_left _ hj, heq⟩
      simp only [hsame]

theorem Inv.updateProgress (h : s.Inv) (id completedValue maxToComplete : ℕ) :
    (s.updateProgress id completedValue maxToComplete).Inv := by
  obtain ⟨hring, -, hsame, hmark, hothers, hmarked⟩ :=
    h.ring.updateProgress id completedValue maxToComplete
  obtain ⟨g', k, -, hset, -⟩ :=
    ChannelManager.updateProgress_spec h.ring.wf id completedValue maxToComplete
  have hpassed : ∀ i ∈ passedEntries (s.manager.channels id) completedValue maxToComplete
      (s.manager.channels id).gpuGet, (s.manager.channels id).Holds i := fun i hi =>
    ((ChannelManager.mem_passedEntries id completedValue maxToComplete (m := s.manager)
      (h.ring.wf id).put rfl (h.ring.wf id).get).mp hi).1
  have hclear := clearCallbacks_spec (s := s) id (passedEntries (s.manager.channels id)
    completedValue maxToComplete (s.manager.channels id).gpuGet)
  unfold PushInfoManager.updateProgress
  generalize passedEntries (s.manager.channels id) completedValue maxToComplete
    (s.manager.channels id).gpuGet = slots at hmark hothers hpassed hclear
  generalize s.clearCallbacks id slots = infos at hclear
  change ∀ q, ((s.manager.uvmChannelUpdateProgressWithMax id completedValue maxToComplete
    .completed).2.pushes q).phase = _ ∧ ((s.manager.uvmChannelUpdateProgressWithMax id
      completedValue maxToComplete .completed).2.pushes q).slot = _ at hsame
  change ∀ i ∈ slots, ((s.manager.uvmChannelUpdateProgressWithMax id completedValue maxToComplete
    .completed).2.pushes _).MarkedCompleted at hmark
  change ∀ q, _ → (s.manager.uvmChannelUpdateProgressWithMax id completedValue maxToComplete
    .completed).2.pushes q = _ at hothers
  change ∀ q, _ → ((s.manager.uvmChannelUpdateProgressWithMax id completedValue maxToComplete
    .completed).2.pushes q).MarkedCompleted at hmarked
  generalize (s.manager.uvmChannelUpdateProgressWithMax id completedValue maxToComplete
    .completed).2 = m at hring hset hsame hmark hothers hmarked
  have hended : ∀ p, (m.pushes p).Ended ↔ (s.manager.pushes p).Ended := by
    intro p
    rw [Push.Ended, Push.Ended, (hsame p).1]
  have hsize : ∀ id', (m.channels id').numGpFifoEntries = s.size id' := by
    intro id'
    rw [hset]
    by_cases hid : id' = id
    · rw [hid, update_self]
      rfl
    · rw [update_of_ne hid]
      rfl
  -- an entry passed points to the push info of its push
  have hentry : ∀ i ∈ slots, ∃ j, s.beginNumber (s.manager.entry (id, i)).push = some j ∧
      s.channelOf (s.manager.entry (id, i)).push = id ∧
      ¬ (s.manager.pushes (s.manager.entry (id, i)).push).MarkedCompleted ∧
      s.entryPushInfo (id, i) = j % s.size id := by
    intro i hi
    obtain ⟨hpend, hslot⟩ := h.ring.holds id i (hpassed i hi)
    obtain ⟨j, hj⟩ := h.number_of_live ⟨.inr hpend.1, hpend.2⟩
    have hinfo := h.entryInfo _ j hj hpend
    have hid : s.channelOf (s.manager.entry (id, i)).push = id := congrArg Prod.fst hslot
    rw [hslot, hid] at hinfo
    exact ⟨j, hj, hid, hpend.2, hinfo⟩
  refine h.frameInfos hring hsize (fun p _ _ hb => (hsame p).1.trans hb) hended
    (fun p _ _ => (hsame p).2) hmarked (fun p j hj hm => ?_) fun id' i hfree => ?_
  · have hlive : ¬ (s.manager.pushes p).MarkedCompleted := fun hm' => hm (hmarked p hm')
    have hold := h.records p j hj hlive
    by_cases hid : s.channelOf p = id
    · rw [hid] at hold ⊢
      rw [update_self]
      obtain ⟨hdescription, hcallback⟩ := hclear (j % s.size id)
      have hnone : ¬ ∃ i ∈ slots, s.entryPushInfo (id, i) = j % s.size id := by
        rintro ⟨i, hi, heq⟩
        obtain ⟨k, hk, hchannel', hlive', hinfo⟩ := hentry i hi
        have hp := h.eq_of_mod_eq hk hj hlive' hlive (hchannel'.trans hid.symm)
          (by rw [hchannel', ← hinfo, heq])
        exact hm (hp ▸ hmark i hi)
      rw [if_neg hnone] at hcallback
      exact ⟨fun hfilled => hdescription.trans (hold.1 hfilled), hcallback.trans hold.2⟩
    · rw [update_of_ne hid]
      exact hold
  · by_cases hcleared : id' = id ∧ ∃ i' ∈ slots, s.entryPushInfo (id, i') = i
    · obtain ⟨rfl, hcleared⟩ := hcleared
      rw [update_self, (hclear i).2, if_pos hcleared]
    · -- every push that uses it is live still
      have hold := h.free id' i fun p j hj hm hp => ?_
      · by_cases hid : id' = id
        · subst hid
          rw [update_self, (hclear i).2]
          split
          · rfl
          · exact hold
        · rwa [update_of_ne hid]
      · by_cases hm' : (m.pushes p).MarkedCompleted
        · intro hmod
          by_cases hin : ∃ i' ∈ slots, (s.manager.entry (id, i')).push = p
          · obtain ⟨i', hi', rfl⟩ := hin
            obtain ⟨k, hk, hchannel', -, hinfo⟩ := hentry i' hi'
            obtain rfl : j = k := Option.some.inj (hj.symm.trans hk)
            have hid : id' = id := hp.symm.trans hchannel'
            rw [hid] at hmod
            exact hcleared ⟨hid, i', hi', hinfo.trans hmod⟩
          · rw [hothers p fun i' hi' heq => hin ⟨i', hi', heq⟩] at hm'
            exact hm hm'
        · exact hfree p j hj hm' hp

theorem inv_step (h : s.Inv) (op : PushInfoStep) (hop : s.BeginsAfterCompletion op) :
    (s.step op).Inv := by
  cases op with
  | manager op =>
    cases op with
    | endPush push size =>
      simp only [step]
      split
      case h_2 => exact h
      case h_1 index hidx =>
        split
        case isFalse => exact h
        case isTrue hbegun => exact h.endPush size hidx hbegun.2
    | updateProgress id completedValue maxToComplete =>
      simp only [step]
      split
      case isFalse => exact h
      case isTrue => exact h.updateProgress id completedValue maxToComplete
    | tryClaimChannel push id => exact inv_manager h _ nofun nofun
    | tryClaimChunk push => exact inv_manager h _ nofun nofun
    | pushbufferEndPush push => exact inv_manager h _ nofun nofun
    | complete id value => exact inv_manager h _ nofun nofun
  | getNextPushInfoIndex push =>
    simp only [step]
    split
    case isFalse => exact h
    case isTrue hbegun => exact h.getNext hbegun.1 hbegun.2 (hop hbegun.1 hbegun.2)
  | fillInfo push =>
    simp only [step]
    split
    case h_2 => exact h
    case h_1 index hidx =>
      obtain ⟨j, hj, rfl, -, hlive⟩ := h.number_of_index hidx
      have hold := h.records push j hj hlive
      have hwrite := h.write
        { s.pushInfos (s.channelOf push) (j % s.size (s.channelOf push)) with
          description := some push } true (s.hasCallback push) hidx ⟨fun _ => rfl, hold.2⟩
      rw [Function.update_eq_self] at hwrite
      exact hwrite
  | setOnComplete push =>
    simp only [step]
    split
    case h_2 => exact h
    case h_1 index hidx =>
      obtain ⟨j, hj, rfl, -, hlive⟩ := h.number_of_index hidx
      have hold := h.records push j hj hlive
      have hwrite := h.write
        { s.pushInfos (s.channelOf push) (j % s.size (s.channelOf push)) with
          onComplete := some push } (s.filled push) true hidx ⟨hold.1, rfl⟩
      rw [Function.update_eq_self] at hwrite
      exact hwrite

theorem beginsAfterCompletion_of_sound (h : s.Inv) (op : PushInfoStep)
    (hsound : (s.step op).InfosSound) : s.BeginsAfterCompletion op := by
  cases op with
  | manager op => trivial
  | fillInfo push => trivial
  | setOnComplete push => trivial
  | getNextPushInfoIndex push =>
    intro hbegun hidx earlier number hchan hnumber hsize
    by_contra hlive
    simp only [step, if_pos (And.intro hbegun hidx)] at hsound
    have hne : earlier ≠ push := by
      rintro rfl
      obtain ⟨-, ⟨-, hsome⟩ | ⟨hended, -⟩⟩ := h.numbered earlier number hnumber
      · rw [hidx] at hsome
        cases hsome
      · simp [Push.Ended, hbegun] at hended
    have hpushIndex : (s.getNextPushInfoIndex push).pushInfoIndex push =
        some (s.nextPushInfoIndex (s.channelOf push)) := update_self _ _ _
    have hearlierIndex : (s.getNextPushInfoIndex push).pushInfoIndex earlier =
        s.pushInfoIndex earlier := update_of_ne hne _ _
    -- the remainders of the two numbers are the same
    have hmod : number % s.size (s.channelOf earlier) = s.nextPushInfoIndex (s.channelOf push) := by
      rw [hchan, h.nextIndex, ← hsize, Nat.add_mod_right]
    have huses := (h.uses_iff hnumber hlive).mpr hmod.symm
    have hpushLive : ¬ (s.manager.pushes push).MarkedCompleted := fun hmarked => by
      have hended := h.ring.fresh push hmarked
      simp [Push.Ended, hbegun] at hended
    refine hne (hsound.distinct earlier push _ ⟨?_, hlive⟩ ⟨.inl ?_, hpushLive⟩ hchan ?_
      (.inl hpushIndex))
    · rw [hearlierIndex]
      obtain ⟨-, ⟨-, hsome⟩ | ⟨hended, -⟩⟩ := h.numbered earlier number hnumber
      · exact Or.inl (hsome ▸ Option.some_ne_none _)
      · exact Or.inr hended
    · rw [hpushIndex]
      exact Option.some_ne_none _
    · rw [Uses, hearlierIndex]
      exact huses

/-- **Push infos**: along a run of pushes that begin, end and are completed, no two pushes of a
channel that have begun and are not marked completed use one push info, and each finds what it has
recorded there when its entry is processed, exactly if every push begins after the push that began
as many begins earlier on the channel as it has GPFIFO entries was marked completed. -/
theorem infosSound_along_iff (numGpFifoEntries : ℕ → { n : ℕ // 0 < n }) (ops : List PushInfoStep) :
    HoldsAlong step InfosSound (init numGpFifoEntries) ops ↔
      StepsMeet step BeginsAfterCompletion (init numGpFifoEntries) ops := by
  apply holds_along_iff_of_guarded step (inv_init numGpFifoEntries)
  · exact fun s h => h.infosSound
  · intro s op h
    constructor
    · exact beginsAfterCompletion_of_sound h op
    · exact fun hop => (inv_step h op hop).infosSound
  · exact fun s op h hop => inv_step h op hop

private theorem four_fits : 0 < 4 ∧ 4 ≤ uvmMaxPushSize := by decide

/-- One push stays open while two others come and go on a channel with three GPFIFO entries, and then
a fourth one begins. -/
def longOpenPush : List PushInfoStep :=
  [.manager (.tryClaimChannel 0 0), .manager (.tryClaimChunk 0), .getNextPushInfoIndex 0,
    .fillInfo 0] ++
  ([1, 2].flatMap fun push => [.manager (.tryClaimChannel push 0), .manager (.tryClaimChunk push),
    .getNextPushInfoIndex push, .fillInfo push, .manager (.endPush push ⟨4, four_fits⟩),
    .manager (.pushbufferEndPush push), .manager (.complete 0 push),
    .manager (.updateProgress 0 push 8)]) ++
  [.manager (.tryClaimChannel 3 0), .manager (.tryClaimChunk 3), .getNextPushInfoIndex 3,
    .fillInfo 3]

/-- The fourth push gets the push info of the open one, and writes over its description. -/
theorem longOpenPush_shares :
    let s := run step (init fun _ => ⟨3, by decide⟩) longOpenPush
    ¬ s.InfosSound ∧ s.pushInfoIndex 0 = some 0 ∧ s.pushInfoIndex 3 = some 0 ∧
      (s.pushInfos 0 0).description = some 3 := by
  refine ⟨fun h => ?_, by decide +kernel, by decide +kernel, by decide +kernel⟩
  have hshare := h.distinct 0 3 0 ⟨.inl (by decide +kernel), by decide +kernel⟩
    ⟨.inl (by decide +kernel), by decide +kernel⟩ (by decide +kernel) (.inl (by decide +kernel))
    (.inl (by decide +kernel))
  cases hshare

end PushInfoManager

end NvUvm
