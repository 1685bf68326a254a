import Mathlib.Data.List.Nodup
import NvUvm.ChannelPushes

/-!
# Entries on the lists of their chunks

The invariant of the pushes on the channels of one manager, what every lock section does to it, and
in which runs the lists of the chunks are sound.
-/

namespace NvUvm

open Lib Lib.Ring Pushbuffer
open Function (update update_of_ne update_self)

namespace Push

/-- The push is counted in `current_pushes_count`. -/
def Counted (p : Push) : Prop := p.phase = .reserved ∨ p.phase = .begun

def Current (p : Push) : Prop := p.phase = .begun ∨ p.phase = .submitted

/-- The entry of the push is pending on the list of its chunk. -/
def Listed (p : Push) : Prop := p.phase = .ended ∧ p.removed = 0

/-- The entry of the push is in the ring of its channel. -/
def InFlight (p : Push) : Prop := p.phase = .submitted ∨ p.Listed

def slot (p : Push) : GpfifoSlot := (p.channel, p.index)

/-- The counters of a push say that its entry is added once and removed once, and never deleted
while it is on no list. -/
structure Sound (p : Push) : Prop where
  stray : p.stray = 0
  added : p.added = if p.phase = .ended then 1 else 0
  removed : p.removed ≤ 1
  ended : p.removed ≠ 0 → p.phase = .ended

end Push

namespace PushChannel

/-- The slot is between `gpu_get` and `cpu_put`. -/
def Holds (channel : PushChannel) (i : ℕ) : Prop :=
  InRing channel.numGpFifoEntries channel.gpuGet channel.cpuPut i

/-- The indices lie in the ring, which has room for every push that has claimed the channel. -/
structure Wf (channel : PushChannel) : Prop where
  put : channel.cpuPut < channel.numGpFifoEntries
  get : channel.gpuGet < channel.numGpFifoEntries
  room : dist channel.numGpFifoEntries channel.gpuGet channel.cpuPut +
    channel.currentPushesCount < channel.numGpFifoEntries

end PushChannel

def ManagerStep.push : ManagerStep → Option ℕ
  | .tryClaimChannel push _ | .tryClaimChunk push | .endPush push _ | .pushbufferEndPush push =>
    some push
  | .complete _ _ | .updateProgress _ _ _ => none

namespace ChannelManager

variable {m : ChannelManager}

/-- The channels: their rings, the pushes that have claimed them and the entries in flight. -/
structure ChannelsInv (m : ChannelManager) : Prop where
  wf : ∀ id, (m.channels id).Wf
  counted : ∀ id, ∃ l : List ℕ, l.Nodup ∧ l.length = (m.channels id).currentPushesCount ∧
    ∀ push, push ∈ l ↔ (m.pushes push).Counted ∧ (m.pushes push).channel = id
  inFlight : ∀ push, (m.pushes push).InFlight →
    (m.channels (m.pushes push).channel).Holds (m.pushes push).index ∧
      (m.entry (m.pushes push).slot).push = push ∧
      (m.entry (m.pushes push).slot).pushbufferOffset = (m.pushes push).beginOffset
  holds : ∀ id i, (m.channels id).Holds i →
    (m.pushes (m.entry (id, i)).push).InFlight ∧ (m.pushes (m.entry (id, i)).push).slot = (id, i)

/-- The chunks: their lists, their current pushes and the bitmaps. -/
structure ChunksInv (m : ChannelManager) : Prop where
  listed : ∀ c slot, slot ∈ (m.pushbuffer.chunks c).pendingGpfifos ↔
    ∃ push, (m.pushes push).Listed ∧ (m.pushes push).slot = slot ∧ m.chunkOf push = c
  nodup : ∀ c, (m.pushbuffer.chunks c).pendingGpfifos.Nodup
  current : ∀ c push, (m.pushbuffer.chunks c).currentPush = some push ↔
    (m.pushes push).Current ∧ m.chunkOf push = c
  nextPushStart : ∀ c, (m.pushbuffer.chunks c).nextPushStart + uvmMaxPushSize ≤
    uvmPushbufferChunkSize
  idle : ∀ c, m.pushbuffer.idleChunks c = true ↔
    (m.pushbuffer.chunks c).pendingGpfifos = [] ∧ (m.pushbuffer.chunks c).currentPush = none
  available : ∀ c, m.pushbuffer.availableChunks c = true →
    (m.pushbuffer.chunks c).currentPush = none

/-- The invariant of the pushes. -/
structure PushesInv (m : ChannelManager) : Prop extends ChannelsInv m, ChunksInv m where
  sound : ∀ push, (m.pushes push).Sound

theorem PushesInv.listsSound (h : m.PushesInv) : m.ListsSound where
  linked := fun push => (h.sound push).stray
  addedOnce := fun push => (h.sound push).added
  removedOnce := fun push => by
    obtain ⟨-, hadded, hremoved, hended⟩ := h.sound push
    rw [hadded]
    split
    · exact hremoved
    · next hphase =>
      have : (m.pushes push).removed = 0 := not_not.mp fun hr => hphase (hended hr)
      omega
  pending := fun push hended hremoved =>
    have hin := h.inFlight push (.inr ⟨hended, hremoved⟩)
    ⟨hin.1, hin.2.1⟩
  idle := fun c _ hcur hall => by
    refine (h.idle c).mpr ⟨List.eq_nil_iff_forall_not_mem.mpr fun slot hslot => ?_, hcur⟩
    -- a pending entry belongs to a push that has not completed
    obtain ⟨push, hlisted, -, hchunk⟩ := (h.listed c slot).mp hslot
    have := hall push hlisted.1 hchunk
    simp [hlisted.2] at this

theorem init_inv (numGpFifoEntries : ℕ → { n : ℕ // 0 < n }) :
    (init numGpFifoEntries).PushesInv where
  wf := fun id => ⟨(numGpFifoEntries id).2, (numGpFifoEntries id).2,
    by simpa [init] using (numGpFifoEntries id).2⟩
  counted := fun id => ⟨[], by simp [init, Push.Counted]⟩
  inFlight := fun push hin => by simp [init, Push.InFlight, Push.Listed] at hin
  holds := fun id i hin => by
    simp [init, PushChannel.Holds, InRing] at hin
  listed := by simp [init, Pushbuffer.init, Push.Listed]
  nodup := by simp [init, Pushbuffer.init]
  current := by simp [init, Pushbuffer.init, Push.Current]
  nextPushStart := fun c => by
    simp only [init, Pushbuffer.init]
    decide
  idle := by simp [init, Pushbuffer.init]
  available := by simp [init, Pushbuffer.init]
  sound := fun push => ⟨by simp [init], by simp [init], by simp [init], by simp [init]⟩

/-! ## Frame rules -/

private theorem ChannelsInv.congr (h : m.ChannelsInv) {m' : ChannelManager}
    (hchans : ∀ id, ∃ semaphore,
      m'.channels id = { m.channels id with semaphore := semaphore })
    (hcnt : ∀ push, (m'.pushes push).Counted ↔ (m.pushes push).Counted)
    (hinFlight : ∀ push, (m'.pushes push).InFlight ↔ (m.pushes push).InFlight)
    (hchan : ∀ push, (m.pushes push).Counted → (m'.pushes push).channel =
      (m.pushes push).channel)
    (hslot : ∀ push, (m.pushes push).InFlight → (m'.pushes push).slot = (m.pushes push).slot ∧
      (m'.pushes push).beginOffset = (m.pushes push).beginOffset) : m'.ChannelsInv := by
  have hentry : ∀ slot, m'.entry slot = m.entry slot := fun slot => by
    obtain ⟨_, hid⟩ := hchans slot.1
    simp only [entry, hid]
  have hhold : ∀ id i, (m'.channels id).Holds i ↔ (m.channels id).Holds i := fun id i => by
    obtain ⟨_, hid⟩ := hchans id
    simp only [PushChannel.Holds, hid]
  exact {
    wf := fun id => by
      obtain ⟨_, hid⟩ := hchans id
      rw [hid]
      exact ⟨(h.wf id).put, (h.wf id).get, (h.wf id).room⟩
    counted := fun id => by
      obtain ⟨l, hnd, hlen, hmem⟩ := h.counted id
      obtain ⟨_, hid⟩ := hchans id
      refine ⟨l, hnd, by rw [hlen, hid], fun push => ?_⟩
      rw [hmem push, hcnt push]
      exact and_congr_right fun hc => by rw [hchan push hc]
    inFlight := fun push hin => by
      have hin := (hinFlight push).mp hin
      obtain ⟨hslot, hoff⟩ := hslot push hin
      obtain ⟨hch, hidx⟩ : (m'.pushes push).channel = (m.pushes push).channel ∧
          (m'.pushes push).index = (m.pushes push).index := by simpa [Push.slot] using hslot
      rw [hentry, hslot, hoff, hch, hidx, hhold]
      exact h.inFlight push hin
    holds := fun id i hin => by
      obtain ⟨hin, hslot'⟩ := h.holds id i ((hhold id i).mp hin)
      rw [hentry]
      exact ⟨(hinFlight _).mpr hin, (hslot _ hin).1.trans hslot'⟩ }

private theorem ChunksInv.congr (h : m.ChunksInv) {m' : ChannelManager}
    (hpb : m'.pushbuffer = m.pushbuffer)
    (hlisted : ∀ push, (m'.pushes push).Listed ↔ (m.pushes push).Listed)
    (hcur : ∀ push, (m'.pushes push).Current ↔ (m.pushes push).Current)
    (hslot : ∀ push, (m.pushes push).Listed → (m'.pushes push).slot = (m.pushes push).slot)
    (hoff : ∀ push, (m.pushes push).Listed ∨ (m.pushes push).Current →
      (m'.pushes push).beginOffset = (m.pushes push).beginOffset) : m'.ChunksInv where
  listed := fun c slot => by
    rw [hpb, h.listed c slot]
    refine exists_congr fun push => ?_
    rw [hlisted push]
    refine and_congr_right fun hl => ?_
    simp only [hslot push hl, chunkOf, hoff push (.inl hl)]
  nodup := by simpa only [hpb] using h.nodup
  current := fun c push => by
    rw [hpb, h.current c push, hcur push]
    exact and_congr_right fun hc => by simp only [chunkOf, hoff push (.inr hc)]
  nextPushStart := by simpa only [hpb] using h.nextPushStart
  idle := by simpa only [hpb] using h.idle
  available := by simpa only [hpb] using h.available

/-! ## The lock sections -/

/-- `current_pushes_count` counts the pushes that have claimed the channel and not ended. -/
def CountsPushes (m : ChannelManager) (id : ℕ) : Prop :=
  ∃ l : List ℕ, l.Nodup ∧ l.length = (m.channels id).currentPushesCount ∧
    ∀ push, push ∈ l ↔ (m.pushes push).Counted ∧ (m.pushes push).channel = id

@[simp] theorem setPush_channels (push : ℕ) (p : Push) :
    (m.setPush push p).channels = m.channels := rfl

@[simp] theorem setPush_pushbuffer (push : ℕ) (p : Push) :
    (m.setPush push p).pushbuffer = m.pushbuffer := rfl

@[simp] theorem setPush_entry (push : ℕ) (p : Push) : (m.setPush push p).entry = m.entry := rfl

@[simp] theorem setPush_pushes (push : ℕ) (p : Push) :
    (m.setPush push p).pushes = update m.pushes push p := rfl

@[simp] theorem setChannel_channels (id : ℕ) (channel : PushChannel) :
    (m.setChannel id channel).channels = update m.channels id channel := rfl

@[simp] theorem setChannel_pushes (id : ℕ) (channel : PushChannel) :
    (m.setChannel id channel).pushes = m.pushes := rfl

@[simp] theorem setChannel_pushbuffer (id : ℕ) (channel : PushChannel) :
    (m.setChannel id channel).pushbuffer = m.pushbuffer := rfl

variable {push id : ℕ}

private theorem PushesInv.sound_setPush (h : m.PushesInv) {p : Push} (hp : p.Sound) (q : ℕ) :
    (update m.pushes push p q).Sound :=
  (Function.forall_update_iff m.pushes fun _ p => p.Sound).mpr ⟨hp, fun q _ => h.sound q⟩ q

theorem entry_setChannel {channel : PushChannel}
    (hents : channel.gpfifoEntries = (m.channels id).gpfifoEntries) :
    (m.setChannel id channel).entry = m.entry := by
  funext slot
  unfold entry
  by_cases hslot : slot.1 = id
  · rw [setChannel_channels, hslot, update_self, hents]
  · rw [setChannel_channels, update_of_ne hslot]

theorem CountsPushes.pos (h : m.CountsPushes id) (hcnt : (m.pushes push).Counted)
    (hchan : (m.pushes push).channel = id) : 0 < (m.channels id).currentPushesCount := by
  obtain ⟨l, -, hlen, hmem⟩ := h
  rw [← hlen]
  exact List.length_pos_of_mem ((hmem push).mpr ⟨hcnt, hchan⟩)

theorem CountsPushes.tryClaimChannel {id' : ℕ} (h : m.CountsPushes id')
    (hfree : (m.pushes push).phase = .free) :
    ((m.setChannel id { m.channels id with
        currentPushesCount := (m.channels id).currentPushesCount + 1 }).setPush push
      { m.pushes push with phase := .reserved, channel := id }).CountsPushes id' := by
  obtain ⟨l, hnd, hlen, hmem⟩ := h
  have hpush : push ∉ l := fun hl => by
    simpa [Push.Counted, hfree] using ((hmem push).mp hl).1
  by_cases hid : id' = id
  · subst hid
    refine ⟨push :: l, List.nodup_cons.mpr ⟨hpush, hnd⟩, by simp [hlen], fun q => ?_⟩
    by_cases hq : q = push
    · simp [hq, Push.Counted]
    · simp [hq, hmem q]
  · refine ⟨l, hnd, by simp [hid, hlen], fun q => ?_⟩
    by_cases hq : q = push
    · simp [hq, hpush, Ne.symm hid]
    · simp [hq, hmem q]

theorem CountsPushes.endPushSection (h : m.CountsPushes id) (size : PushSize)
    (hbegun : (m.pushes push).phase = .begun) : (m.endPushSection push size).CountsPushes id := by
  obtain ⟨l, hnd, hlen, hmem⟩ := h
  by_cases hid : id = (m.pushes push).channel
  · subst hid
    have hl : push ∈ l := (hmem push).mpr ⟨.inr hbegun, rfl⟩
    refine ⟨l.erase push, hnd.erase push, ?_, fun q => ?_⟩
    · simp [ChannelManager.endPushSection, List.length_erase_of_mem hl, hlen]
    · rw [hnd.mem_erase_iff, hmem q]
      by_cases hq : q = push
      · simp [ChannelManager.endPushSection, hq, Push.Counted]
      · simp [ChannelManager.endPushSection, hq]
  · refine ⟨l, hnd, by simp [ChannelManager.endPushSection, hid, hlen], fun q => ?_⟩
    rw [hmem q]
    by_cases hq : q = push
    · simp [ChannelManager.endPushSection, hq, Ne.symm hid]
    · simp [ChannelManager.endPushSection, hq]

private theorem inv_tryClaimChannel (h : m.PushesInv) (hfree : (m.pushes push).phase = .free)
    (havail : (m.channels id).isChannelAvailable) :
    ((m.setChannel id { m.channels id with
        currentPushesCount := (m.channels id).currentPushesCount + 1 }).setPush push
      { m.pushes push with phase := .reserved, channel := id }).PushesInv := by
  have hwf := h.wf id
  have hroom := room_of_ne hwf.get hwf.room (by simpa [PushChannel.isChannelAvailable] using
    havail)
  have hne : ∀ {q}, (m.pushes q).InFlight → q ≠ push := by
    rintro q hq rfl
    simp [Push.InFlight, Push.Listed, hfree] at hq
  have hhold : ∀ id' i, (update m.channels id { m.channels id with
      currentPushesCount := (m.channels id).currentPushesCount + 1 } id').Holds i ↔
        (m.channels id').Holds i := fun id' i => by
    by_cases hid : id' = id
    · subst hid
      simp [PushChannel.Holds]
    · rw [update_of_ne hid]
  have hsound := h.sound push
  refine { wf := ?_, counted := ?_, inFlight := ?_, holds := ?_, toChunksInv := ?_, sound := ?_ }
  · simp only [setPush_channels]
    exact (Function.forall_update_iff m.channels fun _ ch => ch.Wf).mpr
      ⟨⟨hwf.put, hwf.get, hroom⟩, fun id' _ => h.wf id'⟩
  · exact fun id' => CountsPushes.tryClaimChannel (h.counted id') hfree
  · intro q hq
    have hqne : q ≠ push := by
      rintro rfl
      simp [Push.InFlight, Push.Listed] at hq
    simp only [setPush_pushes, setPush_channels, setChannel_channels,
      update_of_ne hqne, setPush_entry, entry_setChannel, hhold] at hq ⊢
    exact h.inFlight q hq
  · intro id' i hi
    simp only [setPush_channels, setChannel_channels, hhold] at hi
    have hin := h.holds id' i hi
    simpa only [setPush_entry, entry_setChannel, setPush_pushes, setChannel_pushes,
      update_of_ne (hne hin.1)] using hin
  · apply h.toChunksInv.congr
    · rfl
    all_goals
      intro q
      by_cases hq : q = push
      · subst hq
        simp [Push.Listed, Push.Current, hfree]
      · simp [hq]
  · exact h.sound_setPush ⟨hsound.stray, by simpa [hfree] using hsound.added, hsound.removed,
      fun hr => absurd (hsound.ended hr) (by simp [hfree])⟩

private theorem offsetToChunk_nextPushStart {pb : Pushbuffer} {c : ℕ}
    (h : (pb.chunks c).nextPushStart + uvmMaxPushSize ≤ uvmPushbufferChunkSize) :
    offsetToChunk (chunkGetNextPushStart pb c) = c := by
  have hlt : (pb.chunks c).nextPushStart < uvmPushbufferChunkSize := by
    have : 0 < uvmMaxPushSize := by decide
    omega
  unfold offsetToChunk chunkGetNextPushStart chunkGetOffset
  rw [Nat.mul_comm, Nat.mul_add_div (by decide), Nat.div_eq_of_lt hlt, Nat.add_zero]

private theorem inv_tryClaimChunk (h : m.PushesInv) {c : ℕ} {pb : Pushbuffer}
    (hresvd : (m.pushes push).phase = .reserved)
    (hclaim : m.pushbuffer.tryClaimChunk push = (some c, pb)) :
    ({ m with pushbuffer := pb }.setPush push { m.pushes push with
        phase := .begun, beginOffset := chunkGetNextPushStart pb c }).PushesInv := by
  unfold Pushbuffer.tryClaimChunk at hclaim
  rcases hpick : m.pushbuffer.pickChunk with _ | c'
  · simp [hpick] at hclaim
  simp only [hpick, Prod.mk.injEq, Option.some.injEq] at hclaim
  obtain ⟨rfl, rfl⟩ := hclaim
  -- the chunk picked has no current push
  have hnone : (m.pushbuffer.chunks c').currentPush = none := by
    obtain ⟨-, hidle | havail⟩ := m.pushbuffer.pickChunk_eq_some hpick
    · exact ((h.idle c').mp hidle).2
    · exact h.available c' havail
  have hstart : offsetToChunk (chunkGetNextPushStart { m.pushbuffer.setChunk c'
      { m.pushbuffer.chunks c' with currentPush := some push } with
        idleChunks := update m.pushbuffer.idleChunks c' false
        availableChunks := update m.pushbuffer.availableChunks c' false } c') = c' :=
    offsetToChunk_nextPushStart (by simpa using h.nextPushStart c')
  generalize chunkGetNextPushStart _ c' = start at hstart ⊢
  have hsound := h.sound push
  have hcur : ∀ c, (m.pushbuffer.chunks c).currentPush ≠ some push := fun c hc => by
    have := ((h.current c push).mp hc).1
    simp [Push.Current, hresvd] at this
  refine { toChannelsInv := ?_, listed := fun c slot => ?_, nodup := fun c => ?_,
           current := fun c q => ?_, nextPushStart := fun c => ?_, idle := fun c => ?_,
           available := fun c => ?_, sound := ?_ }
  · refine h.toChannelsInv.congr (fun id => ⟨(m.channels id).semaphore, rfl⟩) ?_ ?_ ?_ ?_
    all_goals
      intro q
      by_cases hq : q = push
      · subst hq
        simp [Push.Counted, Push.InFlight, Push.Listed, hresvd]
      · simp [hq]
  · have hlist : ∀ c, (update m.pushbuffer.chunks c'
        { m.pushbuffer.chunks c' with currentPush := some push } c).pendingGpfifos =
          (m.pushbuffer.chunks c).pendingGpfifos := fun c => by
      by_cases hc : c = c'
      · subst hc
        simp
      · simp [hc]
    simp only [setPush_pushbuffer, setChunk_chunks, hlist]
    rw [h.listed c slot]
    refine exists_congr fun q => ?_
    by_cases hq : q = push
    · subst hq
      simp [Push.Listed, hresvd]
    · simp [hq, chunkOf]
  · by_cases hc : c = c'
    · subst hc
      simpa using h.nodup c
    · simpa [hc] using h.nodup c
  · by_cases hc : c = c'
    · subst hc
      by_cases hq : q = push
      · subst hq
        simp [Push.Current, chunkOf, hstart]
      · have := (h.current c q).not.mp (by simp [hnone])
        simpa [hq, Ne.symm hq, chunkOf] using this
    · by_cases hq : q = push
      · subst hq
        simp [hc, hcur, chunkOf, hstart, Ne.symm hc]
      · simpa [hc, hq, chunkOf] using h.current c q
  · by_cases hc : c = c'
    · subst hc
      simpa using h.nextPushStart c
    · simpa [hc] using h.nextPushStart c
  · by_cases hc : c = c'
    · subst hc
      simp
    · simpa [hc] using h.idle c
  · by_cases hc : c = c'
    · subst hc
      simp
    · simpa [hc] using h.available c
  · exact h.sound_setPush ⟨hsound.stray, by simpa [hresvd] using hsound.added, hsound.removed,
      fun hr => absurd (hsound.ended hr) (by simp [hresvd])⟩

section EndPush

variable {push : ℕ} (size : PushSize)
  (hwf : (m.channels (m.pushes push).channel).Wf)
  (hpos : 0 < (m.channels (m.pushes push).channel).currentPushesCount)
include hwf hpos

theorem PushChannel.Wf.room_endPush : dist (m.channels (m.pushes push).channel).numGpFifoEntries
    (m.channels (m.pushes push).channel).gpuGet (m.channels (m.pushes push).channel).cpuPut + 1 <
      (m.channels (m.pushes push).channel).numGpFifoEntries := by
  have hroom := hwf.room
  omega

theorem endPushSection_holds (id i : ℕ) : ((m.endPushSection push size).channels id).Holds i ↔
    (m.channels id).Holds i ∨
      (id, i) = ((m.pushes push).channel, (m.channels (m.pushes push).channel).cpuPut) := by
  by_cases hid : id = (m.pushes push).channel
  · subst hid
    simpa [endPushSection, PushChannel.Holds] using
      inRing_next_put hwf.get hwf.put (PushChannel.Wf.room_endPush hwf hpos)
  · simp [endPushSection, hid]

theorem endPushSection_wf (h : ∀ id, (m.channels id).Wf) :
    ∀ id, ((m.endPushSection push size).channels id).Wf := by
  refine (Function.forall_update_iff m.channels fun _ ch => ch.Wf).mpr
    ⟨⟨next_lt hwf.put, hwf.get, ?_⟩, fun id _ => h id⟩
  rw [dist_next_put hwf.get hwf.put (PushChannel.Wf.room_endPush hwf hpos)]
  have hroom := hwf.room
  dsimp only
  omega

end EndPush

theorem endPushSection_entry {i : ℕ} (size : PushSize) (hi : (m.channels id).Holds i) :
    (m.endPushSection push size).entry (id, i) = m.entry (id, i) := by
  by_cases hid : id = (m.pushes push).channel
  · subst hid
    have hput : i ≠ (m.channels (m.pushes push).channel).cpuPut := by
      rintro rfl
      exact not_inRing_put hi
    simp [endPushSection, entry, hput]
  · simp [endPushSection, entry, hid]

private theorem inv_endPushSection (h : m.PushesInv) (size : PushSize)
    (hbegun : (m.pushes push).phase = .begun) : (m.endPushSection push size).PushesInv := by
  have hwf := h.wf (m.pushes push).channel
  have hsound := h.sound push
  have hpos : 0 < (m.channels (m.pushes push).channel).currentPushesCount :=
    CountsPushes.pos (h.counted (m.pushes push).channel) (.inr hbegun) rfl
  have hne : ∀ {q}, (m.pushes q).InFlight → q ≠ push := by
    rintro q hq rfl
    simp [Push.InFlight, Push.Listed, hbegun] at hq
  have hhold := endPushSection_holds size hwf hpos
  have hnew : ((m.endPushSection push size).entry ((m.pushes push).channel,
      (m.channels (m.pushes push).channel).cpuPut)) =
        ⟨(m.channels (m.pushes push).channel).queuedValue + 1, (m.pushes push).beginOffset, size.1,
          push⟩ := by
    simp [endPushSection, entry]
  refine { wf := endPushSection_wf size hwf hpos h.wf, inFlight := fun q hq => ?_,
           holds := fun id i hi => ?_, toChunksInv := ?_,
           counted := fun id => CountsPushes.endPushSection (h.counted id) size hbegun,
           sound := ?_ }
  · by_cases hqp : q = push
    · subst hqp
      have hslot : ((m.endPushSection q size).pushes q).slot = ((m.pushes q).channel,
          (m.channels (m.pushes q).channel).cpuPut) := by simp [endPushSection, Push.slot]
      refine ⟨(hhold _ _).mpr (.inr hslot), ?_⟩
      rw [hslot, hnew]
      simp [endPushSection]
    · have hpush : (m.endPushSection push size).pushes q = m.pushes q := by
        simp [endPushSection, hqp]
      rw [hpush] at hq ⊢
      obtain ⟨hin, hentry⟩ := h.inFlight q hq
      refine ⟨(hhold _ _).mpr (.inl hin), ?_⟩
      rwa [Push.slot, endPushSection_entry size hin]
  · rcases (hhold id i).mp hi with hin | heq
    · have hin' := h.holds id i hin
      have hpush : (m.endPushSection push size).pushes (m.entry (id, i)).push =
          m.pushes (m.entry (id, i)).push := update_of_ne (hne hin'.1) _ _
      rwa [endPushSection_entry size hin, hpush]
    · rw [heq, hnew]
      simp [endPushSection, Push.InFlight, Push.slot]
  · apply h.toChunksInv.congr
    · rfl
    all_goals
      intro q
      by_cases hq : q = push
      · subst hq
        simp [endPushSection, Push.Listed, Push.Current, hbegun]
      · simp [endPushSection, hq]
  · exact h.sound_setPush ⟨hsound.stray, by simpa [hbegun] using hsound.added, hsound.removed,
      fun hr => absurd (hsound.ended hr) (by simp [hbegun])⟩

private theorem PushesInv.gpfifoToChunk_of_listed (h : m.PushesInv) {c : ℕ} {slot : GpfifoSlot}
    (hslot : slot ∈ (m.pushbuffer.chunks c).pendingGpfifos) :
    gpfifoToChunk (m.entry slot) = c := by
  obtain ⟨push, hlisted, rfl, hchunk⟩ := (h.listed c slot).mp hslot
  rw [gpfifoToChunk, (h.inFlight push (.inr hlisted)).2.2]
  exact hchunk

private theorem PushesInv.eq_of_slot_eq (h : m.PushesInv) {p q : ℕ} (hp : (m.pushes p).InFlight)
    (hq : (m.pushes q).InFlight) (hslot : (m.pushes p).slot = (m.pushes q).slot) : p = q := by
  rw [← (h.inFlight p hp).2.1, hslot, (h.inFlight q hq).2.1]

private theorem inv_pushbufferEndPush (h : m.PushesInv)
    (hsubm : (m.pushes push).phase = .submitted) :
    ({ m with pushbuffer := uvmPushbufferEndPush m.entry m.pushbuffer (m.pushes push).slot }.setPush
      push { m.pushes push with
        phase := .ended, added := (m.pushes push).added + 1 }).PushesInv := by
  have hsound := h.sound push
  have hremoved : (m.pushes push).removed = 0 := by
    by_contra hr
    have := hsound.ended hr
    simp [hsubm] at this
  obtain ⟨-, -, hoff⟩ := h.inFlight push (.inl hsubm)
  obtain ⟨c, hc⟩ : ∃ c, m.chunkOf push = c := ⟨_, rfl⟩
  have hchunk : gpfifoToChunk (m.entry (m.pushes push).slot) = c := by
    rw [gpfifoToChunk, hoff]
    exact hc
  have hcurrent := (h.current c push).mpr ⟨.inr hsubm, hc⟩
  -- the entry is on no list yet
  have hfresh : (m.pushes push).slot ∉ (m.pushbuffer.chunks c).pendingGpfifos := fun hin => by
    obtain ⟨q, hlisted, hslot, -⟩ := (h.listed c _).mp hin
    obtain rfl := h.eq_of_slot_eq (.inr hlisted) (.inl hsubm) hslot
    simp [Push.Listed, hsubm] at hlisted
  have hspec := updateChunk_spec m.entry (m.pushbuffer.setChunk c { m.pushbuffer.chunks c with
      pendingGpfifos := (m.pushbuffer.chunks c).pendingGpfifos ++ [(m.pushes push).slot] }) c
    (by
      intro slot hslot
      simp only [setChunk_chunks, update_self, List.mem_append, List.mem_singleton] at hslot
      rcases hslot with hin | rfl
      · exact h.gpfifoToChunk_of_listed hin
      · exact hchunk)
  unfold uvmPushbufferEndPush
  rw [hchunk]
  dsimp only
  generalize updateChunk m.entry (m.pushbuffer.setChunk c { m.pushbuffer.chunks c with
    pendingGpfifos := (m.pushbuffer.chunks c).pendingGpfifos ++ [(m.pushes push).slot] }) c = pb
    at hspec ⊢
  obtain ⟨hothers, hpend, -, hidle, hstart⟩ := hspec
  simp only [setChunk_chunks, update_self] at hothers hpend hidle hstart
  refine { toChannelsInv := ?_, listed := fun c' slot => ?_, nodup := fun c' => ?_,
           current := fun c' q => ?_, nextPushStart := fun c' => ?_, idle := fun c' => ?_,
           available := fun c' => ?_, sound := ?_ }
  · refine h.toChannelsInv.congr (fun id => ⟨(m.channels id).semaphore, rfl⟩) ?_ ?_ ?_ ?_
    all_goals
      intro q
      by_cases hq : q = push
      · subst hq
        simp [Push.Counted, Push.InFlight, Push.Listed, hsubm, hremoved, Push.slot]
      · simp [hq]
  · have hlist : slot ∈ ((pb.setChunk c { pb.chunks c with currentPush := none }).chunks
        c').pendingGpfifos ↔ slot ∈ (m.pushbuffer.chunks c').pendingGpfifos ∨
          (c' = c ∧ slot = (m.pushes push).slot) := by
      by_cases hc' : c' = c
      · subst hc'
        simp [hpend]
      · simp [hc', hothers c' hc']
    simp only [setPush_pushbuffer]
    rw [hlist, h.listed c' slot]
    constructor
    · rintro (⟨q, hlisted, hslot, hq⟩ | ⟨rfl, rfl⟩)
      · have hqp : q ≠ push := by
          rintro rfl
          simp [Push.Listed, hsubm] at hlisted
        exact ⟨q, by simpa [hqp] using hlisted, by simpa [hqp] using hslot,
          by simpa [chunkOf, hqp] using hq⟩
      · exact ⟨push, by simp [Push.Listed, hremoved], by simp [Push.slot],
          by simpa [chunkOf] using hc⟩
    · rintro ⟨q, hlisted, hslot, hq⟩
      by_cases hqp : q = push
      · subst hqp
        refine .inr ⟨?_, ?_⟩
        · rw [← hq, ← hc]
          simp [chunkOf]
        · simpa [Push.slot] using hslot.symm
      · exact .inl ⟨q, by simpa [hqp] using hlisted, by simpa [hqp] using hslot,
          by simpa [chunkOf, hqp] using hq⟩
  · by_cases hc' : c' = c
    · subst hc'
      simpa [hpend] using List.Nodup.concat hfresh (h.nodup c')
    · simpa [hc', hothers c' hc'] using h.nodup c'
  · by_cases hqp : q = push
    · subst hqp
      have : c' ≠ c → (m.pushbuffer.chunks c').currentPush ≠ some q := fun hc' hcur =>
        hc' (((h.current c' q).mp hcur).2.symm.trans hc)
      by_cases hc' : c' = c
      · simp [hc', Push.Current]
      · simp [hc', hothers c' hc', this hc', Push.Current]
    · have hold := h.current c' q
      by_cases hc' : c' = c
      · subst hc'
        rw [hcurrent] at hold
        simpa [hqp, Ne.symm hqp, chunkOf] using hold
      · simpa [hc', hothers c' hc', hqp, chunkOf] using hold
  · by_cases hc' : c' = c
    · subst hc'
      simpa using hstart (h.nextPushStart c')
    · simpa [hc', hothers c' hc'] using h.nextPushStart c'
  · by_cases hc' : c' = c
    · subst hc'
      have : m.pushbuffer.idleChunks c' ≠ true := fun hi => by
        have := ((h.idle c').mp hi).2
        simp [hcurrent] at this
      simpa [hpend, hidle] using this
    · simpa [hc', hothers c' hc'] using h.idle c'
  · by_cases hc' : c' = c
    · subst hc'
      simp
    · simpa [hc', hothers c' hc'] using h.available c'
  · exact h.sound_setPush ⟨hsound.stray, by simp [hsound.added, hsubm], hsound.removed,
      fun hr => rfl⟩

private theorem inv_markCompleted (h : m.PushesInv) (id : ℕ)
    (hne : (m.channels id).gpuGet ≠ (m.channels id).cpuPut)
    (hphase : (m.pushes (m.entry (id, (m.channels id).gpuGet)).push).phase ≠ .submitted) :
    ((m.markCompleted (id, (m.channels id).gpuGet)).setGpuGet id
      (next (m.channels id).numGpFifoEntries (m.channels id).gpuGet)).PushesInv := by
  have hwf := h.wf id
  obtain ⟨hflight, hslot⟩ := h.holds id _ (inRing_get hwf.get hne)
  generalize hpush : (m.entry (id, (m.channels id).gpuGet)).push = push at hphase hflight hslot
  have hlisted := hflight.resolve_left hphase
  obtain ⟨c, hc⟩ : ∃ c, m.chunkOf push = c := ⟨_, rfl⟩
  have hmem := (h.listed c _).mpr ⟨push, hlisted, hslot, hc⟩
  have hchunk := h.gpfifoToChunk_of_listed hmem
  have hspec := markCompleted_spec m.entry m.pushbuffer hmem hchunk
    fun slot hin => h.gpfifoToChunk_of_listed hin
  have hsound := h.sound push
  generalize hslot' : ((id, (m.channels id).gpuGet) : GpfifoSlot) = slot at *
  generalize hm' : (m.markCompleted slot).setGpuGet id
    (next (m.channels id).numGpFifoEntries (m.channels id).gpuGet) = m'
  have hpushes : m'.pushes = update m.pushes push
      { m.pushes push with removed := (m.pushes push).removed + 1 } := by
    rw [← hm']
    simp [markCompleted, setGpuGet, hchunk, hpush, hmem]
  have hpb : m'.pushbuffer = uvmPushbufferMarkCompleted m.entry m.pushbuffer slot := by
    rw [← hm']
    rfl
  have hchans : m'.channels = update m.channels id { m.channels id with
      gpuGet := next (m.channels id).numGpFifoEntries (m.channels id).gpuGet } := by
    rw [← hm']
    rfl
  have hentry : m'.entry = m.entry := by
    rw [← hm']
    exact entry_setChannel (m := m.markCompleted slot) rfl
  have hgone : ¬ (m'.pushes push).InFlight := by
    simp [hpushes, Push.InFlight, Push.Listed, hlisted.1]
  have hother : ∀ {q}, q ≠ push → m'.pushes q = m.pushes q := fun hq => by
    rw [hpushes, update_of_ne hq]
  have hstill : ∀ {q}, (m'.pushes q).InFlight → q ≠ push := fun hq hqp => hgone (hqp ▸ hq)
  have hhold : ∀ id' i, (m'.channels id').Holds i ↔ (m.channels id').Holds i ∧ (id', i) ≠ slot := by
    intro id' i
    rw [← hslot', hchans]
    by_cases hid : id' = id
    · subst hid
      simpa [PushChannel.Holds] using inRing_next_get hwf.get hwf.put hne
    · simp [hid]
  obtain ⟨hothers, hpend, hcur, hidle, havail, hstart⟩ := hspec
  rw [← hpb] at hothers hpend hcur hidle havail hstart
  refine { wf := ?_, counted := fun id' => ?_, inFlight := fun q hq => ?_,
           holds := fun id' i hi => ?_, listed := fun c' slot' => ?_, nodup := fun c' => ?_,
           current := fun c' q => ?_, nextPushStart := fun c' => ?_, idle := fun c' => ?_,
           available := fun c' => ?_, sound := ?_ }
  · rw [hchans]
    refine (Function.forall_update_iff m.channels fun _ ch => ch.Wf).mpr
      ⟨⟨hwf.put, next_lt hwf.get, ?_⟩, fun id' _ => h.wf id'⟩
    have := dist_next_get hwf.get hwf.put hne.symm
    have := hwf.room
    dsimp only
    omega
  · obtain ⟨l, hnd, hlen, hmem⟩ := h.counted id'
    refine ⟨l, hnd, ?_, fun q => ?_⟩
    · rw [hlen, hchans]
      by_cases hid : id' = id
      · simp [hid]
      · simp [hid]
    · rw [hmem q]
      by_cases hq : q = push
      · simp [hpushes, hq, Push.Counted]
      · rw [hother hq]
  · have hqp := hstill hq
    rw [hother hqp] at hq ⊢
    obtain ⟨hin, hpushq, hoff⟩ := h.inFlight q hq
    refine ⟨(hhold _ _).mpr ⟨hin, fun heq => hqp ?_⟩, by rw [hentry]; exact ⟨hpushq, hoff⟩⟩
    exact h.eq_of_slot_eq hq hflight (heq.trans hslot.symm)
  · obtain ⟨hin, hother'⟩ := (hhold id' i).mp hi
    obtain ⟨hq, hslotq⟩ := h.holds id' i hin
    have hqp : (m.entry (id', i)).push ≠ push := fun hqp => by
      rw [hqp, hslot] at hslotq
      exact hother' hslotq.symm
    rw [hentry, hother hqp]
    exact ⟨hq, hslotq⟩
  · have hlist : slot' ∈ (m'.pushbuffer.chunks c').pendingGpfifos ↔
        slot' ∈ (m.pushbuffer.chunks c').pendingGpfifos ∧ ¬ (c' = c ∧ slot' = slot) := by
      by_cases hc' : c' = c
      · subst hc'
        rw [hpend, (h.nodup c').mem_erase_iff]
        simp [and_comm]
      · simp [hc', hothers c' hc']
    rw [hlist, h.listed c' slot']
    constructor
    · rintro ⟨⟨q, hq, hslotq, hchunkq⟩, hnot⟩
      have hqp : q ≠ push := by
        rintro rfl
        exact hnot ⟨hchunkq.symm.trans hc, hslotq.symm.trans hslot⟩
      refine ⟨q, ?_, ?_, ?_⟩
      · rwa [hother hqp]
      · rwa [hother hqp]
      · rwa [chunkOf, hother hqp]
    · rintro ⟨q, hq, hslotq, hchunkq⟩
      have hqp := hstill (.inr hq)
      rw [chunkOf, hother hqp] at hchunkq
      rw [hother hqp] at hq hslotq
      refine ⟨⟨q, hq, hslotq, hchunkq⟩, fun hboth => hqp ?_⟩
      exact h.eq_of_slot_eq (.inr hq) hflight (hslotq.trans (hboth.2.trans hslot.symm))
  · by_cases hc' : c' = c
    · subst hc'
      rw [hpend]
      exact (h.nodup c').erase slot
    · rw [(hothers c' hc').1]
      exact h.nodup c'
  · have hsame : (m'.pushbuffer.chunks c').currentPush = (m.pushbuffer.chunks c').currentPush := by
      by_cases hc' : c' = c
      · rw [hc', hcur]
      · rw [(hothers c' hc').1]
    rw [hsame, h.current c' q]
    by_cases hq : q = push
    · simp [hpushes, hq, Push.Current, hlisted.1]
    · rw [chunkOf, chunkOf, hother hq]
  · by_cases hc' : c' = c
    · subst hc'
      exact hstart (h.nextPushStart c')
    · rw [(hothers c' hc').1]
      exact h.nextPushStart c'
  · by_cases hc' : c' = c
    · subst hc'
      have hbusy : m.pushbuffer.idleChunks c' ≠ true := fun hi => by
        have := ((h.idle c').mp hi).1
        simp [this] at hmem
      rw [hidle, hpend, hcur]
      simp [hbusy]
    · rw [(hothers c' hc').1, (hothers c' hc').2.1]
      exact h.idle c'
  · by_cases hc' : c' = c
    · subst hc'
      intro hav
      rw [hcur]
      exact (havail hav).elim (h.available c') fun hnone => hnone
    · rw [(hothers c' hc').1, (hothers c' hc').2.2]
      exact h.available c'
  · rw [hpushes]
    refine h.sound_setPush ⟨hsound.stray, hsound.added, ?_, fun _ => hlisted.1⟩
    simp [hlisted.2]

/-! ## The progress loop -/

theorem markCompleted_push (slot : GpfifoSlot) (q : ℕ) :
    ((m.markCompleted slot).pushes q).phase = (m.pushes q).phase ∧
      ((m.markCompleted slot).pushes q).slot = (m.pushes q).slot := by
  simp only [markCompleted]
  by_cases hq : q = (m.entry slot).push
  · subst hq
    rw [update_self]
    split <;> exact ⟨rfl, rfl⟩
  · rw [update_of_ne hq]
    exact ⟨rfl, rfl⟩

private theorem markCompleted_setGpuGet (id g g' : ℕ) (slot : GpfifoSlot) :
    ((m.setGpuGet id g).markCompleted slot).setGpuGet id g' =
      (m.markCompleted slot).setGpuGet id g' := by
  have hentry : (m.setGpuGet id g).entry = m.entry := entry_setChannel rfl
  unfold markCompleted
  rw [hentry]
  simp [setGpuGet, setChannel]

/-- The loop keeps the invariant where it finds its entries listed.  By induction on the number of
entries that are left; the loop writes `gpu_get` at its end. -/
private theorem inv_completeEntries {completedValue : ℕ} (left : ℕ) :
    ∀ {g : ℕ} {m : ChannelManager}, (m.setGpuGet id g).PushesInv →
      (∀ push, (m.pushes push).phase = .submitted → (m.pushes push).channel = id →
        dist (m.channels id).numGpFifoEntries g (m.pushes push).index < left →
          completedValue < (m.entry (id, (m.pushes push).index)).trackingSemaphoreValue) →
      ((completeEntries .completed id completedValue left (g, m)).2.setGpuGet id
        (completeEntries .completed id completedValue left (g, m)).1).PushesInv := by
  induction left with
  | zero => exact fun h _ => h
  | succ left ih =>
    intro g m h hlisted
    unfold completeEntries
    dsimp only
    split
    · exact h
    · next hput =>
      split
      · exact h
      · next hcompl =>
        have hself : (m.setGpuGet id g).channels id = { m.channels id with gpuGet := g } := by
          simp [setGpuGet]
        have hentry : (m.setGpuGet id g).entry = m.entry := entry_setChannel rfl
        have hpush : (m.setGpuGet id g).pushes = m.pushes := rfl
        have hget : g < (m.channels id).numGpFifoEntries := by
          have := (h.wf id).get
          rwa [hself] at this
        obtain ⟨-, hslot⟩ := h.holds id g (by
          simpa [PushChannel.Holds, hself] using inRing_get hget hput)
        rw [hentry, hpush] at hslot
        obtain ⟨hchan, hidx⟩ : (m.pushes (m.entry (id, g)).push).channel = id ∧
            (m.pushes (m.entry (id, g)).push).index = g := by
          simpa [Push.slot] using hslot
        have hphase : (m.pushes (m.entry (id, g)).push).phase ≠ .submitted := fun hc => by
          have := hlisted _ hc hchan (by simp [hidx])
          rw [hidx] at this
          exact hcompl ⟨rfl, this⟩
        have hstep := inv_markCompleted h id (by simpa [hself] using hput)
          (by simpa [hself, hentry, hpush] using hphase)
        simp only [hself, markCompleted_setGpuGet] at hstep
        refine ih hstep fun q hq hqchannel hqdist => ?_
        obtain ⟨hqphase, hqslot⟩ := markCompleted_push (m := m) (id, g) q
        obtain ⟨hqchannel', hqindex⟩ : ((m.markCompleted (id, g)).pushes q).channel =
            (m.pushes q).channel ∧ ((m.markCompleted (id, g)).pushes q).index =
              (m.pushes q).index := by
          simpa [Push.slot] using hqslot
        rw [hqphase] at hq
        rw [hqchannel'] at hqchannel
        rw [hqindex] at hqdist ⊢
        obtain ⟨hin, hqpush, -⟩ := h.inFlight q (.inl hq)
        -- the entry completed belongs to another push
        have hne : (m.pushes q).index ≠ g := fun hc => by
          have hqslot : (m.pushes q).slot = (id, g) := by simp [Push.slot, hqchannel, hc]
          rw [hentry] at hqpush
          change (m.entry (m.pushes q).slot).push = q at hqpush
          rw [hqslot] at hqpush
          rw [hqpush] at hphase
          exact hphase hq
        have hlt : (m.pushes q).index < (m.channels id).numGpFifoEntries := by
          have := hin.1
          rwa [hpush, hqchannel, hself] at this
        have hnext := dist_next_get hget hlt hne
        exact hlisted q hq hqchannel (by
          change dist (m.channels id).numGpFifoEntries _ _ < left at hqdist
          omega)

private theorem inv_step (h : m.PushesInv) (op : ManagerStep) (hop : m.FindsEntriesListed op) :
    (m.step op).PushesInv := by
  cases op with
  | tryClaimChannel push id =>
    simp only [step]
    split
    · next hfree =>
      have havail : (m.channels id).isChannelAvailable = true := by
        by_contra hc
        simp [tryClaimChannel, hc] at hfree
      have := inv_tryClaimChannel h hfree.1 havail
      simpa only [tryClaimChannel, havail, if_true] using this
    · exact h
  | tryClaimChunk push =>
    simp only [step]
    split
    · next hresvd =>
      rcases hclaim : m.pushbuffer.tryClaimChunk push with ⟨_ | c, pb⟩
      · exact h
      · exact inv_tryClaimChunk h hresvd hclaim
    · exact h
  | endPush push size =>
    simp only [step]
    split
    · next hbegun => exact inv_endPushSection h size hbegun
    · exact h
  | pushbufferEndPush push =>
    simp only [step]
    split
    · next hsubm => exact inv_pushbufferEndPush h hsubm
    · exact h
  | complete id value =>
    simp only [step]
    split
    · refine { toChannelsInv := h.toChannelsInv.congr (fun id' => ?_) (fun _ => Iff.rfl)
                 (fun _ => Iff.rfl) (fun _ _ => rfl) (fun _ _ => ⟨rfl, rfl⟩),
               toChunksInv := h.toChunksInv.congr rfl (fun _ => Iff.rfl) (fun _ => Iff.rfl)
                 (fun _ _ => rfl) (fun _ _ => rfl), sound := h.sound }
      by_cases hid : id' = id
      · exact ⟨value, by simp [hid]⟩
      · exact ⟨(m.channels id').semaphore, by simp [hid]⟩
    · exact h
  | updateProgress id completedValue maxToComplete =>
    simp only [step]
    split
    · refine inv_completeEntries maxToComplete ?_ hop
      have hself : m.setGpuGet id (m.channels id).gpuGet = m := by
        simp [setGpuGet, setChannel]
      rwa [hself]
    · exact h

/-- **The lists are sound** in every run of threads that end pushes and update progress, in which
the progress loop always finds its entries listed: from the channels as they are created, with rings
of any size. -/
theorem listsSound_along (numGpFifoEntries : ℕ → { n : ℕ // 0 < n }) (ops : List ManagerStep)
    (h : StepsMeet step FindsEntriesListed (init numGpFifoEntries) ops) :
    HoldsAlong step ListsSound (init numGpFifoEntries) ops :=
  holds_along_of_meets step (W := PushesInv) (init_inv numGpFifoEntries)
    (fun _ hm => hm.listsSound) (fun _ op hm hop => inv_step hm op hop) h

private theorem step_pushes_of_other {op : ManagerStep} {q : ℕ} (hne : op.push ≠ some q)
    (hop : ∀ id completedValue count, op ≠ .updateProgress id completedValue count) :
    (m.step op).pushes q = m.pushes q := by
  cases op with
  | tryClaimChannel push id =>
    have hq : q ≠ push := by simpa [ManagerStep.push, eq_comm] using hne
    have hclaim : (m.tryClaimChannel id).2.pushes = m.pushes := by
      unfold tryClaimChannel
      dsimp only
      split <;> rfl
    simp only [step]
    split
    · rw [setPush_pushes, update_of_ne hq, hclaim]
    · rfl
  | tryClaimChunk push =>
    have hq : q ≠ push := by simpa [ManagerStep.push, eq_comm] using hne
    simp only [step]
    split
    · split <;> simp [hq]
    · rfl
  | endPush push size =>
    have hq : q ≠ push := by simpa [ManagerStep.push, eq_comm] using hne
    simp only [step, endPushSection]
    split
    · simp [hq]
    · rfl
  | pushbufferEndPush push =>
    have hq : q ≠ push := by simpa [ManagerStep.push, eq_comm] using hne
    simp only [step]
    split
    · simp [hq]
    · rfl
  | complete id value =>
    simp only [step]
    split <;> rfl
  | updateProgress id completedValue count => exact absurd rfl (hop id completedValue count)

/-- A push on a ring of four entries whose end finishes before the progress loop runs. -/
theorem listsSound_along_inOrder : HoldsAlong step ListsSound (init fun _ => ⟨4, by decide⟩)
      [.tryClaimChannel 0 0, .tryClaimChunk 0, .endPush 0 ⟨8, by decide⟩, .pushbufferEndPush 0,
        .complete 0 1, .updateProgress 0 1 8] := by
  apply listsSound_along
  simp only [stepsMeet_cons, stepsMeet_nil, FindsEntriesListed, true_and, and_true]
  intro push hphase
  by_cases hpush : push = 0
  · subst hpush
    exact absurd hphase (by decide)
  · -- no other push has been begun
    have hpush' : ¬ (0 : ℕ) = push := fun h => hpush h.symm
    repeat rw [step_pushes_of_other (by simp [ManagerStep.push, hpush']) (by simp)] at hphase
    exact absurd hphase (by simp [init])

/-- The GPU completes the push between the two sections of its end: the progress loop deletes an
entry that is on no list. -/
theorem progress_between_deletes_unlinked :
    ¬ HoldsAlong step ListsSound (init fun _ => ⟨4, by decide⟩)
      [.tryClaimChannel 0 0, .tryClaimChunk 0, .endPush 0 ⟨8, by decide⟩, .complete 0 1,
        .updateProgress 0 1 8, .pushbufferEndPush 0] := by
  intro h
  have hstray := (h _ (List.prefix_refl _)).linked 0
  exact absurd hstray (by decide)

end ChannelManager

end NvUvm
