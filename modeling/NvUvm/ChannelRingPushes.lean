import NvUvm.ChannelRing

/-!
# Pushes in the ring of a channel

Which push the entry in each slot of a ring belongs to, in every run and whatever the lists of the
chunks are like.  A push is in the ring of its channel from its end until its entry is marked
completed.
-/

namespace NvUvm

open Lib Lib.Ring Pushbuffer
open Function (update update_of_ne update_self)

namespace Push

/-- `uvm_pushbuffer_mark_completed` has been called for the entry of the push. -/
def MarkedCompleted (p : Push) : Prop := p.removed ≠ 0 ∨ p.stray ≠ 0

instance : DecidablePred MarkedCompleted :=
  fun p => inferInstanceAs (Decidable (p.removed ≠ 0 ∨ p.stray ≠ 0))

def Ended (p : Push) : Prop := p.phase = .submitted ∨ p.phase = .ended

/-- The push has ended and is not marked completed. -/
def Pending (p : Push) : Prop := p.Ended ∧ ¬ p.MarkedCompleted

end Push

/-- The entries that the progress loop passes, from `g` on. -/
def passedEntries (channel : PushChannel) (completedValue : ℕ) : ℕ → ℕ → List ℕ
  | 0, _ => []
  | left + 1, g =>
    if g = channel.cpuPut then []
    else if completedValue < (channel.gpfifoEntries g).trackingSemaphoreValue then []
    else g :: passedEntries channel completedValue left (next channel.numGpFifoEntries g)

namespace ChannelManager

variable {m m' : ChannelManager} {id : ℕ} {channel : PushChannel}

/-- The entries in the slots of a channel are marked completed, one after another. -/
def markAllCompleted (id : ℕ) (slots : List ℕ) (m : ChannelManager) : ChannelManager :=
  slots.foldl (fun m i => m.markCompleted (id, i)) m

theorem completeEntries_succ (completedValue left g : ℕ) (hchan : m.channels id = channel) :
    completeEntries .completed id completedValue (left + 1) (g, m) =
      if g = channel.cpuPut then (g, m)
      else if completedValue < (channel.gpfifoEntries g).trackingSemaphoreValue then (g, m)
      else completeEntries .completed id completedValue left
        (next channel.numGpFifoEntries g, m.markCompleted (id, g)) := by
  subst hchan
  simp [completeEntries, entry]

theorem completeEntries_eq (completedValue left : ℕ) :
    ∀ {g : ℕ} {m : ChannelManager}, m.channels id = channel →
      (completeEntries .completed id completedValue left (g, m)).2 =
        markAllCompleted id (passedEntries channel completedValue left g) m := by
  induction left with
  | zero => exact fun _ => rfl
  | succ left ih =>
    intro g m hchan
    rw [completeEntries_succ completedValue left g hchan, passedEntries]
    split
    case isTrue => rfl
    case isFalse =>
      split
      case isTrue => rfl
      case isFalse => exact ih (m := m.markCompleted (id, g)) hchan

theorem mem_passedEntries (id completedValue left : ℕ) {i : ℕ}
    (hput : channel.cpuPut < channel.numGpFifoEntries) :
    ∀ {g : ℕ} {m : ChannelManager}, m.channels id = channel → g < channel.numGpFifoEntries →
      (i ∈ passedEntries channel completedValue left g ↔
        InRing channel.numGpFifoEntries g channel.cpuPut i ∧
          ¬ InRing channel.numGpFifoEntries
            (completeEntries .completed id completedValue left (g, m)).1 channel.cpuPut i) := by
  induction left with
  | zero => exact fun _ _ => ⟨fun h => absurd h List.not_mem_nil, fun h => absurd h.1 h.2⟩
  | succ left ih =>
    intro g m hchan hget
    have hstop : i ∈ ([] : List ℕ) ↔ InRing channel.numGpFifoEntries g channel.cpuPut i ∧
        ¬ InRing channel.numGpFifoEntries g channel.cpuPut i :=
      ⟨fun h => absurd h List.not_mem_nil, fun h => absurd h.1 h.2⟩
    rw [completeEntries_succ completedValue left g hchan, passedEntries]
    split
    case isTrue => exact hstop
    case isFalse hne =>
      split
      case isTrue => exact hstop
      case isFalse =>
        obtain ⟨k, hspec⟩ := completeEntries_spec id completedValue left
          (m := m.markCompleted (id, g)) hput hchan (next_lt hget)
        have hring := inRing_next_get (i := i) hget hput hne
        rw [List.mem_cons, ih (m := m.markCompleted (id, g)) hchan (next_lt hget), hring]
        constructor
        · rintro (rfl | ⟨⟨hin, -⟩, hout⟩)
          · refine ⟨inRing_get hget hne, fun hin => ?_⟩
            exact (hring.mp ((hspec.holds i).mp hin).1).2 rfl
          · exact ⟨hin, hout⟩
        · rintro ⟨hin, hout⟩
          by_cases hig : i = g
          · exact Or.inl hig
          · exact Or.inr ⟨⟨hin, hig⟩, hout⟩

theorem markCompleted_marks (slot : GpfifoSlot) :
    ((m.markCompleted slot).pushes (m.entry slot).push).MarkedCompleted ∧
      (∀ q, q ≠ (m.entry slot).push → (m.markCompleted slot).pushes q = m.pushes q) ∧
      ∀ q, (m.pushes q).MarkedCompleted → ((m.markCompleted slot).pushes q).MarkedCompleted := by
  have hself : ((m.markCompleted slot).pushes (m.entry slot).push).MarkedCompleted := by
    unfold markCompleted Push.MarkedCompleted
    dsimp only
    rw [update_self]
    split
    · exact Or.inl (Nat.succ_ne_zero _)
    · exact Or.inr (Nat.succ_ne_zero _)
  have hother : ∀ q, q ≠ (m.entry slot).push → (m.markCompleted slot).pushes q = m.pushes q :=
    fun q hq => update_of_ne hq _ _
  refine ⟨hself, hother, fun q hmarked => ?_⟩
  by_cases hq : q = (m.entry slot).push
  · rw [hq]
    exact hself
  · rwa [hother q hq]

/-- What marking several entries completed leaves. -/
structure MarksSpec (m : ChannelManager) (id : ℕ) (slots : List ℕ) (m' : ChannelManager) : Prop where
  channels : m'.channels = m.channels
  same : ∀ q, (m'.pushes q).phase = (m.pushes q).phase ∧ (m'.pushes q).slot = (m.pushes q).slot
  marks : ∀ i ∈ slots, (m'.pushes (m.entry (id, i)).push).MarkedCompleted
  others : ∀ q, (∀ i ∈ slots, (m.entry (id, i)).push ≠ q) → m'.pushes q = m.pushes q
  marked : ∀ q, (m.pushes q).MarkedCompleted → (m'.pushes q).MarkedCompleted

theorem markAllCompleted_spec (id : ℕ) (slots : List ℕ) :
    ∀ m : ChannelManager, MarksSpec m id slots (markAllCompleted id slots m) := by
  induction slots with
  | nil =>
    exact fun _ => ⟨rfl, fun _ => ⟨rfl, rfl⟩, fun _ h => absurd h List.not_mem_nil, fun _ _ => rfl,
      fun _ h => h⟩
  | cons i slots ih =>
    intro m
    obtain ⟨hself, hother, hkeep⟩ := markCompleted_marks (m := m) (id, i)
    obtain ⟨hchans, hsame, hmarks, hothers, hmarked⟩ := ih (m.markCompleted (id, i))
    refine ⟨hchans, fun q => ?_, fun j hj => ?_, fun q hq => ?_,
      fun q h => hmarked q (hkeep q h)⟩
    · have hfirst := markCompleted_push (m := m) (id, i) q
      exact ⟨(hsame q).1.trans hfirst.1, (hsame q).2.trans hfirst.2⟩
    · rcases List.mem_cons.mp hj with rfl | hj
      · exact hmarked _ hself
      · exact hmarks j hj
    · have hrest := hothers q fun j hj => hq j (List.mem_cons_of_mem i hj)
      exact hrest.trans (hother q (hq i List.mem_cons_self).symm)

/-! ## The invariant -/

/-- The entries between the get and the put index are those of the pending pushes. -/
structure RingPushes (m : ChannelManager) : Prop extends RingInv m where
  holds : ∀ id i, (m.channels id).Holds i →
    (m.pushes (m.entry (id, i)).push).Pending ∧ (m.pushes (m.entry (id, i)).push).slot = (id, i)
  pending : ∀ q, (m.pushes q).Pending →
    (m.channels (m.pushes q).channel).Holds (m.pushes q).index ∧
      (m.entry (m.pushes q).slot).push = q
  fresh : ∀ q, (m.pushes q).MarkedCompleted → (m.pushes q).Ended

theorem ringPushes_init (numGpFifoEntries : ℕ → { n : ℕ // 0 < n }) :
    (init numGpFifoEntries).RingPushes where
  toRingInv := ringInv_init numGpFifoEntries
  holds := by
    intro id i hi
    exact absurd hi.2 (by simp [init])
  pending := by
    intro q hq
    exact absurd hq.1 (by simp [init, Push.Ended])
  fresh := by
    intro q hq
    exact absurd hq (by simp [init, Push.MarkedCompleted])

theorem RingPushes.congr (h : m.RingPushes) (hring : m'.RingInv) (hentry : m'.entry = m.entry)
    (hhold : ∀ id i, (m'.channels id).Holds i ↔ (m.channels id).Holds i)
    (hended : ∀ q, (m'.pushes q).Ended ↔ (m.pushes q).Ended)
    (hmarked : ∀ q, (m'.pushes q).MarkedCompleted ↔ (m.pushes q).MarkedCompleted)
    (hslot : ∀ q, (m.pushes q).Ended → (m'.pushes q).slot = (m.pushes q).slot) :
    m'.RingPushes where
  toRingInv := hring
  holds := by
    intro id i hi
    obtain ⟨⟨hend, hmark⟩, hslot'⟩ := h.holds id i ((hhold id i).mp hi)
    rw [hentry]
    exact ⟨⟨(hended _).mpr hend, fun hm => hmark ((hmarked _).mp hm)⟩, (hslot _ hend).trans hslot'⟩
  pending := by
    rintro q ⟨hend, hmark⟩
    have hend := (hended q).mp hend
    obtain ⟨hin, hpush⟩ := h.pending q ⟨hend, fun hm => hmark ((hmarked q).mpr hm)⟩
    have hsame := hslot q hend
    rw [hentry, hsame, hhold]
    obtain ⟨hchan, hidx⟩ := Prod.mk.inj hsame
    rw [hchan, hidx]
    exact ⟨hin, hpush⟩
  fresh := by
    intro q hmark
    exact (hended q).mpr (h.fresh q ((hmarked q).mp hmark))

theorem RingPushes.congr_push (h : m.RingPushes) (hring : m'.RingInv) (hentry : m'.entry = m.entry)
    (hhold : ∀ id i, (m'.channels id).Holds i ↔ (m.channels id).Holds i) {push : ℕ} {p : Push}
    (hpush : m'.pushes = update m.pushes push p)
    (hended : p.Ended ↔ (m.pushes push).Ended)
    (hmarked : p.MarkedCompleted ↔ (m.pushes push).MarkedCompleted)
    (hslot : (m.pushes push).Ended → p.slot = (m.pushes push).slot) : m'.RingPushes := by
  have hcases : ∀ q, m'.pushes q = m.pushes q ∨ (q = push ∧ m'.pushes q = p) := by
    intro q
    rw [hpush]
    by_cases hq : q = push
    · exact Or.inr ⟨hq, by rw [hq, update_self]⟩
    · exact Or.inl (update_of_ne hq _ _)
  refine h.congr hring hentry hhold (fun q => ?_) (fun q => ?_) (fun q hq => ?_)
  · rcases hcases q with heq | ⟨rfl, heq⟩
    · rw [heq]
    · rw [heq]
      exact hended
  · rcases hcases q with heq | ⟨rfl, heq⟩
    · rw [heq]
    · rw [heq]
      exact hmarked
  · rcases hcases q with heq | ⟨rfl, heq⟩
    · rw [heq]
    · rw [heq]
      exact hslot hq

theorem RingPushes.endPushSection (h : m.RingPushes) {push : ℕ} (size : PushSize)
    (hbegun : (m.pushes push).phase = .begun) : (m.endPushSection push size).RingPushes := by
  have hwf := h.wf (m.pushes push).channel
  have hpos := (h.counted (m.pushes push).channel).pos (.inr hbegun) rfl
  have hhold := endPushSection_holds size hwf hpos
  have hnotEnded : ¬ (m.pushes push).Ended := by simp [Push.Ended, hbegun]
  have hself : ((m.endPushSection push size).pushes push).slot =
      ((m.pushes push).channel, (m.channels (m.pushes push).channel).cpuPut) := by
    simp [ChannelManager.endPushSection, Push.slot]
  have hother : ∀ q, q ≠ push → (m.endPushSection push size).pushes q = m.pushes q :=
    fun q hq => update_of_ne hq _ _
  have hnew : ((m.endPushSection push size).entry ((m.pushes push).channel,
      (m.channels (m.pushes push).channel).cpuPut)).push = push := by
    simp [ChannelManager.endPushSection, entry]
  have hpend : ((m.endPushSection push size).pushes push).Pending := by
    refine ⟨Or.inl (by simp [ChannelManager.endPushSection]), fun hmark => hnotEnded ?_⟩
    exact h.fresh push (by simpa [ChannelManager.endPushSection, Push.MarkedCompleted] using hmark)
  refine ⟨h.toRingInv.endPushSection size hbegun, fun id i hi => ?_, fun q hq => ?_,
    fun q hq => ?_⟩
  · rcases (hhold id i).mp hi with hin | heq
    · obtain ⟨hold, hslot⟩ := h.holds id i hin
      have hne : (m.entry (id, i)).push ≠ push := fun heq => hnotEnded (heq ▸ hold.1)
      rw [endPushSection_entry size hin, hother _ hne]
      exact ⟨hold, hslot⟩
    · rw [heq, hnew]
      exact ⟨hpend, hself⟩
  · by_cases hqp : q = push
    · subst hqp
      rw [hself, hnew]
      obtain ⟨hchan, hidx⟩ := Prod.mk.inj hself
      rw [hchan, hidx]
      exact ⟨(hhold _ _).mpr (.inr rfl), rfl⟩
    · rw [hother q hqp] at hq ⊢
      obtain ⟨hin, hpush⟩ := h.pending q hq
      refine ⟨(hhold _ _).mpr (.inl hin), ?_⟩
      rw [Push.slot, endPushSection_entry size hin]
      exact hpush
  · by_cases hqp : q = push
    · rw [hqp]
      exact hpend.1
    · rw [hother q hqp] at hq ⊢
      exact h.fresh q hq

theorem RingPushes.updateProgress (h : m.RingPushes) (id completedValue left : ℕ) :
    (m.uvmChannelUpdateProgressWithMax id completedValue left .completed).2.RingPushes ∧
      MarksSpec m id
        (passedEntries (m.channels id) completedValue left (m.channels id).gpuGet)
        (completeEntries .completed id completedValue left ((m.channels id).gpuGet, m)).2 := by
  obtain ⟨k, hspec⟩ := completeEntries_spec id completedValue left (m := m) (h.wf id).put rfl
    (h.wf id).get
  have hpassed := fun i => mem_passedEntries id completedValue left (i := i) (m := m) (h.wf id).put rfl
    (h.wf id).get
  have hmarks := markAllCompleted_spec id
    (passedEntries (m.channels id) completedValue left (m.channels id).gpuGet) m
  rw [← completeEntries_eq completedValue left rfl] at hmarks
  refine ⟨?_, hmarks⟩
  unfold uvmChannelUpdateProgressWithMax
  generalize completeEntries .completed id completedValue left ((m.channels id).gpuGet, m) = r
    at hspec hpassed hmarks
  obtain ⟨hchans, hsame, hmark, hothers, hmarked⟩ := hmarks
  dsimp only
  have hset : (r.2.setGpuGet id r.1).channels =
      update m.channels id { m.channels id with gpuGet := r.1 } := by
    rw [← hchans]
    rfl
  have hentry : (r.2.setGpuGet id r.1).entry = m.entry := by
    funext slot
    unfold entry
    rw [hset]
    by_cases hid : slot.1 = id
    · rw [hid, update_self]
    · rw [update_of_ne hid]
  -- an entry stays in the ring unless it was passed
  have hhold : ∀ id' i, ((r.2.setGpuGet id r.1).channels id').Holds i ↔
      (m.channels id').Holds i ∧ ¬ (id' = id ∧
        i ∈ passedEntries (m.channels id) completedValue left (m.channels id).gpuGet) := by
    intro id' i
    rw [hset]
    by_cases hid : id' = id
    · subst hid
      rw [update_self, hpassed i]
      constructor
      · exact fun hin => ⟨((hspec.holds i).mp hin).1, fun hnot => hnot.2.2 hin⟩
      · rintro ⟨hin, hnot⟩
        by_contra hout
        exact hnot ⟨rfl, hin, hout⟩
    · rw [update_of_ne hid]
      exact ⟨fun hin => ⟨hin, fun hnot => hid hnot.1⟩, fun hin => hin.1⟩
  have hended : ∀ q, (r.2.pushes q).Ended ↔ (m.pushes q).Ended := by
    intro q
    rw [Push.Ended, Push.Ended, (hsame q).1]
  refine ⟨h.toRingInv.advance hspec hset hsame, fun id' i hi => ?_, fun q hq => ?_, fun q hq => ?_⟩
  · obtain ⟨hin, hnot⟩ := (hhold id' i).mp hi
    obtain ⟨hold, hslot⟩ := h.holds id' i hin
    rw [hentry]
    -- its push is not one of those marked, which are in other slots
    have hkeep : r.2.pushes (m.entry (id', i)).push = m.pushes (m.entry (id', i)).push := by
      apply hothers
      intro j hj heq
      have hslotj := (h.holds id j ((hpassed j).mp hj).1).2
      rw [heq, hslot] at hslotj
      obtain ⟨hid, hij⟩ := Prod.mk.inj hslotj
      exact hnot ⟨hid, hij ▸ hj⟩
    change (r.2.pushes _).Pending ∧ (r.2.pushes _).slot = _
    rw [hkeep]
    exact ⟨hold, hslot⟩
  · change (r.2.pushes q).Pending at hq
    change (_ : PushChannel).Holds _ ∧ (ChannelManager.entry _ (r.2.pushes q).slot).push = q
    obtain ⟨hin, hpush⟩ := h.pending q ⟨(hended q).mp hq.1, fun hm => hq.2 (hmarked q hm)⟩
    have hslot := (hsame q).2
    obtain ⟨hchan, hidx⟩ := Prod.mk.inj hslot
    rw [hentry, hslot]
    refine ⟨?_, hpush⟩
    change ((r.2.setGpuGet id r.1).channels (r.2.pushes q).channel).Holds (r.2.pushes q).index
    rw [hchan, hidx]
    refine (hhold _ _).mpr ⟨hin, fun hboth => hq.2 ?_⟩
    have hm := hmark _ hboth.2
    have hq' : (m.entry (id, (m.pushes q).index)).push = q := by
      rw [← hboth.1]
      exact hpush
    rwa [hq'] at hm
  · change (r.2.pushes q).MarkedCompleted at hq
    refine (hended q).mpr ?_
    by_cases hin : ∃ i ∈ passedEntries (m.channels id) completedValue left (m.channels id).gpuGet,
        (m.entry (id, i)).push = q
    · obtain ⟨i, hi, rfl⟩ := hin
      exact (h.holds id i ((hpassed i).mp hi).1).1.1
    · rw [hothers q fun i hi heq => hin ⟨i, hi, heq⟩] at hq
      exact h.fresh q hq

theorem RingPushes.step (h : m.RingPushes) (op : ManagerStep) : (m.step op).RingPushes := by
  have hring := h.toRingInv.step op
  cases op with
  | tryClaimChannel push id =>
    rcases m.step_tryClaimChannel push id with heq | ⟨hfree, -, heq⟩
    · rwa [heq]
    · rw [heq] at hring ⊢
      refine h.congr_push hring (entry_setChannel rfl) (fun id' i => ?_) rfl ?_ Iff.rfl ?_
      · rw [setPush_channels, setChannel_channels]
        by_cases hid : id' = id
        · rw [hid, update_self]
          exact Iff.rfl
        · rw [update_of_ne hid]
      · simp [Push.Ended, hfree]
      · intro hended
        simp [Push.Ended, hfree] at hended
  | tryClaimChunk push =>
    rcases m.step_tryClaimChunk push with heq | ⟨c, pb, hresvd, -, heq⟩
    · rwa [heq]
    · rw [heq] at hring ⊢
      refine h.congr_push hring rfl (fun _ _ => Iff.rfl) rfl ?_ Iff.rfl ?_
      · simp [Push.Ended, hresvd]
      · intro hended
        simp [Push.Ended, hresvd] at hended
  | endPush push size =>
    simp only [ChannelManager.step]
    split
    case isTrue hbegun => exact h.endPushSection size hbegun
    case isFalse => exact h
  | pushbufferEndPush push =>
    simp only [ChannelManager.step] at hring ⊢
    by_cases hsubm : (m.pushes push).phase = .submitted
    case neg =>
      rw [if_neg hsubm]
      exact h
    case pos =>
      rw [if_pos hsubm] at hring ⊢
      refine h.congr_push hring rfl (fun _ _ => Iff.rfl) rfl ?_ Iff.rfl fun _ => rfl
      simp [Push.Ended, hsubm]
  | complete id value =>
    simp only [ChannelManager.step] at hring ⊢
    by_cases hvalue : (m.channels id).semaphore ≤ value ∧ value ≤ (m.channels id).queuedValue
    case neg =>
      rw [if_neg hvalue]
      exact h
    case pos =>
      rw [if_pos hvalue] at hring ⊢
      refine h.congr hring (entry_setChannel rfl) (fun id' i => ?_) (fun _ => Iff.rfl)
        (fun _ => Iff.rfl) fun _ _ => rfl
      rw [setChannel_channels]
      by_cases hid : id' = id
      · rw [hid, update_self]
        exact Iff.rfl
      · rw [update_of_ne hid]
  | updateProgress id completedValue maxToComplete =>
    simp only [ChannelManager.step]
    split
    case isTrue => exact (h.updateProgress id completedValue maxToComplete).1
    case isFalse => exact h

end ChannelManager

end NvUvm
