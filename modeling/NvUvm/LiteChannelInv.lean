import Mathlib.Data.List.Nodup
import NvUvm.Lib.WoundSpans
import NvUvm.LiteChannels

/-!
# Invariants of the channel manager
-/

namespace NvUvm.LiteChannel

open Lib
open Function (update update_of_ne update_self)

namespace State

/-! ## The invariants -/

/-- The pushbuffer was obtained and is not free again. -/
def Live (s : State) (x : ℕ) : Prop :=
  x ∈ s.obtained ∨ ∃ c, x ∈ (s.channel c).pbSubmittedList

/-- The memory kept for a pushbuffer: all that is reserved while it is in progress, and what was
written once it is submitted. -/
def span (s : State) (x : ℕ) : Span :=
  ⟨(s.pushbuffer x).cpuBegin,
    if x ∈ s.obtained then reservationSize else (s.pushbuffer x).curOffset⟩

/-- The slot for the next pushbuffer of a ring buffer that a thread holds. -/
def slot (s : State) (r : ℕ) : Span :=
  ⟨(s.ringbuffer r).cpuBegin + (s.ringbuffer r).curOffset, reservationSize⟩

def memory (s : State) (r : ℕ) : Span := ⟨(s.ringbuffer r).cpuBegin, ringbufferSize⟩

/-- Each pushbuffer structure has one place. -/
structure Owned (s : State) : Prop where
  obtained_nodup : s.obtained.Nodup
  free_nodup : s.pbFreeList.Nodup
  submitted_nodup : ∀ c, (s.channel c).pbSubmittedList.Nodup
  submitted_channel : ∀ c, ∀ x ∈ (s.channel c).pbSubmittedList, (s.pushbuffer x).channel = c
  not_submitted : ∀ x ∈ s.obtained, ∀ c, x ∉ (s.channel c).pbSubmittedList
  not_free : ∀ x, s.Live x → x ∉ s.pbFreeList
  live_lt : ∀ x, s.Live x → x < s.allocated
  free_lt : ∀ x ∈ s.pbFreeList, x < s.allocated
  unsubmitted : ∀ x ∈ s.obtained, (s.pushbuffer x).seqNum = maxSeqNum
  fits : ∀ x ∈ s.obtained, (s.pushbuffer x).curOffset ≤ reservationSize
  written : ∀ c, ∀ x ∈ (s.channel c).pbSubmittedList, 0 < (s.pushbuffer x).curOffset

/-- A channel of which a number of pushbuffers is reclaimed. -/
structure ChannelInv (s : State) (c reclaimed : ℕ) : Prop where
  entries_pos : 0 < (s.channel c).numGpFifoEntries
  entries_lt : (s.channel c).numGpFifoEntries < 2 ^ 32
  pending : (s.channel c).seqNumPending = reclaimed + (s.channel c).pbSubmittedList.length
  offset : (s.channel c).curGpFifoOffset =
    (s.channel c).seqNumPending % (s.channel c).numGpFifoEntries
  seqNums : (s.channel c).pbSubmittedList.map (fun x => (s.pushbuffer x).seqNum) =
    List.range' (reclaimed + 1) (s.channel c).pbSubmittedList.length
  offsets : ∀ x ∈ (s.channel c).pbSubmittedList, (s.pushbuffer x).gpFifoOffset =
    ((s.pushbuffer x).seqNum - 1) % (s.channel c).numGpFifoEntries
  reclaimed_lt : reclaimed < 2 ^ 32
  reclaimed_le : reclaimed ≤ (s.channel c).seqNumDone
  done_le : (s.channel c).seqNumDone ≤ (s.channel c).completed
  completed_le : (s.channel c).completed ≤ (s.channel c).seqNumPending
  room : (s.channel c).numFreeGpFifoEntries + (s.channel c).numReservedGpFifoEntries +
    (s.channel c).pbSubmittedList.length ≤ (s.channel c).numGpFifoEntries - 1
  reserved : (s.channel c).numReservedGpFifoEntries =
    s.obtained.countP fun x => (s.pushbuffer x).channel = c

/-- A ring buffer. -/
structure RingInv (s : State) (r : ℕ) : Prop where
  cpuEnd : (s.ringbuffer r).cpuEnd = (s.ringbuffer r).cpuBegin + ringbufferSize
  cpuEnd_lt : (s.ringbuffer r).cpuEnd < 2 ^ 64
  nodup : (s.ringbuffer r).pbList.Nodup
  live : ∀ x ∈ (s.ringbuffer r).pbList, s.Live x ∧ (s.pushbuffer x).ringbuffer = r
  inside : ∀ x ∈ (s.ringbuffer r).pbList, (s.span x).Within (s.memory r)
  wound : Span.Wound ((s.ringbuffer r).pbList.map s.span)
  last : ∀ x ∈ s.obtained, (s.pushbuffer x).ringbuffer = r →
    (s.ringbuffer r).pbList.getLast? = some x
  free : r ∈ s.ringbufferFreeList → ∀ x ∈ s.obtained, (s.pushbuffer x).ringbuffer ≠ r
  held : ∀ i, s.waiting i = some r →
    r ∉ s.ringbufferFreeList ∧ (∀ j, s.waiting j = some r → j = i) ∧
      (∀ x ∈ s.obtained, (s.pushbuffer x).ringbuffer ≠ r) ∧
      Span.Wound ((s.ringbuffer r).pbList.map s.span ++ [s.slot r]) ∧
      (s.slot r).Within (s.memory r)

/-- The invariant of every run. -/
structure Inv (s : State) : Prop where
  owned : s.Owned
  channels : ∀ c, ∃ reclaimed, s.ChannelInv c reclaimed
  rings : ∀ r, s.RingInv r
  listed : ∀ x, s.Live x → x ∈ (s.ringbuffer (s.pushbuffer x).ringbuffer).pbList
  freeRings : s.ringbufferFreeList.Nodup

end State

/-! ## The first state -/

variable {s : State}

theorem Config.init_inv (cfg : Config) : cfg.init.Inv := by
  have hlive : ∀ x, ¬ cfg.init.Live x := by
    rintro x (hx | ⟨c, hx⟩)
    · exact List.not_mem_nil hx
    · exact List.not_mem_nil hx
  have hobt : ∀ x, x ∉ cfg.init.obtained := fun x hx => List.not_mem_nil hx
  have hsubm : ∀ c x, x ∉ (cfg.init.channel c).pbSubmittedList :=
    fun c x hx => List.not_mem_nil hx
  refine ⟨?_, fun c => ⟨0, ?_⟩, fun r => ?_, fun x hx => absurd hx (hlive x), ?_⟩
  · exact ⟨List.nodup_nil, List.nodup_nil, fun _ => List.nodup_nil,
      fun c x hx => absurd hx (hsubm c x), fun x hx => absurd hx (hobt x),
      fun x hx => absurd hx (hlive x), fun x hx => absurd hx (hlive x),
      fun x hx => absurd hx List.not_mem_nil, fun x hx => absurd hx (hobt x),
      fun x hx => absurd hx (hobt x), fun c x hx => absurd hx (hsubm c x)⟩
  · refine ⟨cfg.entries_pos c, cfg.entries_lt c, rfl, (Nat.zero_mod _).symm, rfl,
      fun x hx => absurd hx (hsubm c x), by decide, le_rfl, le_rfl, le_rfl, le_rfl, rfl⟩
  · refine ⟨rfl, cfg.cpuEnd_lt r, List.nodup_nil, fun x hx => absurd hx List.not_mem_nil,
      fun x hx => absurd hx List.not_mem_nil, Span.wound_nil, fun x hx => absurd hx (hobt x),
      fun _ x hx => absurd hx (hobt x), fun i hi => by cases hi⟩
  · exact List.nodup_reverse.mpr cfg.ringbuffers_nodup

namespace State

variable {c d r x y n : ℕ} {ch : Channel}

/-! ## Progress -/

theorem setChannel_self : (s.setChannel c ch).channel c = ch := update_self _ _ _

theorem setChannel_of_ne (h : d ≠ c) : (s.setChannel c ch).channel d = s.channel d :=
  update_of_ne h _ _

variable {s' : State}

theorem ChannelInv.counters (h : s.ChannelInv c n) {free reserved : ℕ}
    (hchan : s'.channel c = { s.channel c with
      numFreeGpFifoEntries := free, numReservedGpFifoEntries := reserved })
    (hsubm : ∀ x ∈ (s.channel c).pbSubmittedList,
      (s'.pushbuffer x).seqNum = (s.pushbuffer x).seqNum ∧
        (s'.pushbuffer x).gpFifoOffset = (s.pushbuffer x).gpFifoOffset)
    (hroom : free + reserved ≤
      (s.channel c).numFreeGpFifoEntries + (s.channel c).numReservedGpFifoEntries)
    (hobt : s'.obtained.countP (fun x => (s'.pushbuffer x).channel = c) = reserved) :
    s'.ChannelInv c n := by
  refine ⟨?_, ?_, ?_, ?_, ?_, ?_, h.reclaimed_lt, ?_, ?_, ?_, ?_, ?_⟩
  all_goals rw [hchan]
  · exact h.entries_pos
  · exact h.entries_lt
  · exact h.pending
  · exact h.offset
  · rw [← h.seqNums]
    exact List.map_congr_left fun x hx => (hsubm x hx).1
  · intro x hx
    rw [(hsubm x hx).1, (hsubm x hx).2]
    exact h.offsets x hx
  · exact h.reclaimed_le
  · exact h.done_le
  · exact h.completed_le
  · exact (Nat.add_le_add_right hroom _).trans h.room
  · exact hobt.symm

theorem ChannelInv.congr (h : s.ChannelInv c n) (hchan : s'.channel c = s.channel c)
    (hsubm : ∀ x ∈ (s.channel c).pbSubmittedList,
      (s'.pushbuffer x).seqNum = (s.pushbuffer x).seqNum ∧
        (s'.pushbuffer x).gpFifoOffset = (s.pushbuffer x).gpFifoOffset)
    (hobt : s'.obtained.countP (fun x => (s'.pushbuffer x).channel = c) =
      s.obtained.countP fun x => (s.pushbuffer x).channel = c) : s'.ChannelInv c n :=
  h.counters hchan hsubm le_rfl (hobt.trans h.reserved.symm)

theorem setChannel_submitted (hch : ch.pbSubmittedList = (s.channel c).pbSubmittedList) :
    ((s.setChannel c ch).channel d).pbSubmittedList = (s.channel d).pbSubmittedList := by
  by_cases hd : d = c
  · subst hd
    rw [setChannel_self, hch]
  · rw [setChannel_of_ne hd]

theorem setChannel_live (hch : ch.pbSubmittedList = (s.channel c).pbSubmittedList) :
    (s.setChannel c ch).Live x ↔ s.Live x := by
  unfold Live
  simp only [setChannel_submitted hch]
  rfl

theorem Inv.setChannel (h : s.Inv) (hch : ch.pbSubmittedList = (s.channel c).pbSubmittedList)
    (hc : ∃ n, (s.setChannel c ch).ChannelInv c n) : (s.setChannel c ch).Inv where
  owned := by
    have hsub : ∀ d, ((s.setChannel c ch).channel d).pbSubmittedList =
        (s.channel d).pbSubmittedList := fun d => setChannel_submitted hch
    have hlive : ∀ x, (s.setChannel c ch).Live x → s.Live x := fun x => (setChannel_live hch).mp
    have ho := h.owned
    refine ⟨ho.obtained_nodup, ho.free_nodup, fun d => ?_, fun d => ?_, fun x hx d => ?_,
      fun x hx => ho.not_free x (hlive x hx), fun x hx => ho.live_lt x (hlive x hx), ho.free_lt,
      ho.unsubmitted, ho.fits, fun d => ?_⟩
    all_goals rw [hsub d]
    · exact ho.submitted_nodup d
    · exact ho.submitted_channel d
    · exact ho.not_submitted x hx d
    · exact ho.written d
  channels d := by
    by_cases hd : d = c
    · exact hd ▸ hc
    · obtain ⟨n, hn⟩ := h.channels d
      exact ⟨n, hn.congr (setChannel_of_ne hd) (fun _ _ => ⟨rfl, rfl⟩) rfl⟩
  rings r := by
    have hr := h.rings r
    exact ⟨hr.cpuEnd, hr.cpuEnd_lt, hr.nodup,
      fun x hx => ⟨(setChannel_live hch).mpr (hr.live x hx).1, (hr.live x hx).2⟩, hr.inside, hr.wound,
      hr.last, hr.free, hr.held⟩
  listed x hx := h.listed x ((setChannel_live hch).mp hx)
  freeRings := h.freeRings

theorem Inv.setProgress (h : s.Inv) {seqNumDone completed : ℕ}
    (hdone : (s.channel c).seqNumDone ≤ seqNumDone) (hle : seqNumDone ≤ completed)
    (hcompl : completed ≤ (s.channel c).seqNumPending) :
    (s.setChannel c { s.channel c with seqNumDone := seqNumDone, completed := completed }).Inv := by
  obtain ⟨n, hn⟩ := h.channels c
  refine h.setChannel rfl ⟨n, ?_⟩
  refine ⟨?_, ?_, ?_, ?_, ?_, ?_, hn.reclaimed_lt, ?_, ?_, ?_, ?_, ?_⟩
  all_goals rw [setChannel_self]
  · exact hn.entries_pos
  · exact hn.entries_lt
  · exact hn.pending
  · exact hn.offset
  · exact hn.seqNums
  · exact hn.offsets
  · exact le_trans hn.reclaimed_le hdone
  · exact hle
  · exact hcompl
  · exact hn.room
  · exact hn.reserved

theorem ChannelInv.completed_lt (h : s.ChannelInv c n) :
    (s.channel c).completed < (s.channel c).seqNumDone + 2 ^ 32 ∧
      (s.channel c).completed < 2 ^ 64 := by
  have hpend := h.pending
  have hroom := h.room
  have hents := h.entries_lt
  have hreclaimed := h.reclaimed_lt
  have hdone := h.reclaimed_le
  have hcompl := h.completed_le
  omega

theorem ChannelInv.updateProgress_eq (h : s.ChannelInv c n) :
    LiteChannel.updateProgress (s.channel c).seqNumDone (semaphore (s.channel c).completed) =
      (s.channel c).completed :=
  LiteChannel.updateProgress_eq h.done_le h.completed_lt.1 h.completed_lt.2

theorem ChannelInv.updateProgress_state (h : s.ChannelInv c n) : s.updateProgress c =
      s.setChannel c { s.channel c with seqNumDone := (s.channel c).completed } := by
  unfold State.updateProgress
  rw [h.updateProgress_eq]

theorem Inv.updateProgress (h : s.Inv) (c : ℕ) : (s.updateProgress c).Inv := by
  obtain ⟨n, hn⟩ := h.channels c
  rw [hn.updateProgress_state]
  exact h.setProgress hn.done_le le_rfl hn.completed_le

theorem ChannelInv.querySeqDone_eq (h : s.ChannelInv c n) (seq : ℕ) :
    ∃ seqNumDone, (s.channel c).seqNumDone ≤ seqNumDone ∧
      seqNumDone ≤ (s.channel c).completed ∧
      s.querySeqDone c seq =
        (decide (seq ≤ seqNumDone), s.setChannel c { s.channel c with seqNumDone := seqNumDone }) := by
  unfold State.querySeqDone LiteChannel.querySeqDone
  by_cases hle : seq ≤ (s.channel c).seqNumDone
  · refine ⟨_, le_rfl, h.done_le, ?_⟩
    simp only [if_pos hle, decide_eq_true hle]
  · refine ⟨_, h.done_le, le_rfl, ?_⟩
    simp only [if_neg hle, h.updateProgress_eq]

theorem Inv.querySeqDone (h : s.Inv) (c seq : ℕ) : (s.querySeqDone c seq).2.Inv := by
  obtain ⟨n, hn⟩ := h.channels c
  obtain ⟨seqNumDone, hle, hle', heq⟩ := hn.querySeqDone_eq seq
  rw [heq]
  exact h.setProgress hle hle' hn.completed_le

theorem Inv.complete (h : s.Inv) (c : ℕ) : (s.complete c).Inv := by
  obtain ⟨n, hn⟩ := h.channels c
  unfold State.complete
  split
  · next hlt => exact h.setProgress le_rfl (Nat.le_succ_of_le hn.done_le) hlt
  · exact h

theorem Inv.updateAllProgress (h : s.Inv) : s.updateAllProgress.Inv := by
  unfold State.updateAllProgress
  generalize s.channelList = l
  induction l generalizing s with
  | nil => exact h
  | cons c l ih => exact ih (h.updateProgress c)

/-! ## Reclaim -/

theorem getLast?_erase {l : List ℕ} (h : l.getLast? = some y) (hne : y ≠ x) :
    (l.erase x).getLast? = some y := by
  obtain ⟨pre, rfl⟩ := List.getLast?_eq_some_iff.mp h
  by_cases hx : x ∈ pre
  · rw [List.erase_append_left _ hx, List.getLast?_concat]
  · rw [List.erase_append_right _ hx, List.erase_of_not_mem (by simpa using Ne.symm hne)]
    exact List.getLast?_concat

theorem freeSubmittedPushbuffer_channel {rest : List ℕ} (hx : (s.pushbuffer x).channel = c)
    (hsub : (s.channel c).pbSubmittedList = x :: rest) :
    (s.freeSubmittedPushbuffer x).channel = update s.channel c
      { s.channel c with
        numFreeGpFifoEntries := (s.channel c).numFreeGpFifoEntries + 1
        pbSubmittedList := rest } := by
  unfold freeSubmittedPushbuffer freePushbufferStructure
  dsimp only [setRingbuffer, State.setChannel]
  rw [hx, hsub, List.erase_cons_head]

theorem freeSubmittedPushbuffer_ringbuffer (r : ℕ) : (s.freeSubmittedPushbuffer x).ringbuffer r =
      if r = (s.pushbuffer x).ringbuffer then
        { s.ringbuffer r with pbList := (s.ringbuffer r).pbList.erase x }
      else s.ringbuffer r := by
  unfold freeSubmittedPushbuffer freePushbufferStructure
  dsimp only [setRingbuffer, State.setChannel]
  split
  · next hr => rw [← hr, update_self]
  · next hr => exact update_of_ne hr _ _

theorem Inv.freeSubmittedPushbuffer {rest : List ℕ} (h : s.Inv)
    (hsub : (s.channel c).pbSubmittedList = x :: rest)
    (hdone : (s.pushbuffer x).seqNum ≤ (s.channel c).seqNumDone)
    (hlt : (s.pushbuffer x).seqNum < 2 ^ 32) : (s.freeSubmittedPushbuffer x).Inv := by
  let t := s.freeSubmittedPushbuffer x
  show t.Inv
  have ho := h.owned
  have hxc : x ∈ (s.channel c).pbSubmittedList := by rw [hsub]; exact List.mem_cons_self
  have hx := ho.submitted_channel c x hxc
  have hxLive : s.Live x := .inr ⟨c, hxc⟩
  have hrest : x ∉ rest ∧ rest.Nodup := List.nodup_cons.mp (hsub ▸ ho.submitted_nodup c)
  have hchan := freeSubmittedPushbuffer_channel hx hsub
  have hsubm : ∀ d, (t.channel d).pbSubmittedList = (s.channel d).pbSubmittedList.erase x := by
    intro d
    rw [hchan]
    by_cases hd : d = c
    · subst hd
      rw [update_self, hsub, List.erase_cons_head]
    · rw [update_of_ne hd, List.erase_of_not_mem]
      exact fun hxd => hd ((ho.submitted_channel d x hxd).symm.trans hx)
  -- what is live after it was live before, and is another pushbuffer
  have hlive : ∀ y, t.Live y ↔ s.Live y ∧ y ≠ x := by
    intro y
    constructor
    · rintro (hy | ⟨d, hy⟩)
      · refine ⟨.inl hy, ?_⟩
        rintro rfl
        exact ho.not_submitted y hy c hxc
      · rw [hsubm d, (ho.submitted_nodup d).mem_erase_iff] at hy
        exact ⟨.inr ⟨d, hy.2⟩, hy.1⟩
    · rintro ⟨hy | ⟨d, hy⟩, hyx⟩
      · exact .inl hy
      · refine .inr ⟨d, ?_⟩
        rw [hsubm d]
        exact (List.mem_erase_of_ne hyx).mpr hy
  have hpbList : ∀ r, (t.ringbuffer r).pbList = (s.ringbuffer r).pbList.erase x := by
    intro r
    rw [freeSubmittedPushbuffer_ringbuffer]
    split
    · rfl
    · next hr =>
      rw [List.erase_of_not_mem]
      exact fun hxr => hr ((h.rings r).live x hxr).2.symm
  refine ⟨?_, fun d => ?_, fun r => ?_, fun y hy => ?_, h.freeRings⟩
  · refine ⟨ho.obtained_nodup, List.nodup_cons.mpr ⟨ho.not_free x hxLive, ho.free_nodup⟩,
      fun d => ?_, fun d y hy => ?_, fun y hy d => ?_, fun y hy hyf => ?_, fun y hy => ?_,
      fun y hy => ?_, ho.unsubmitted, ho.fits, fun d y hy => ?_⟩
    · rw [hsubm d]
      exact (ho.submitted_nodup d).erase x
    · rw [hsubm d] at hy
      exact ho.submitted_channel d y (List.mem_of_mem_erase hy)
    · rw [hsubm d]
      exact fun hyd => ho.not_submitted y hy d (List.mem_of_mem_erase hyd)
    · obtain ⟨hyLive, hyx⟩ := (hlive y).mp hy
      rcases List.mem_cons.mp hyf with rfl | hyf
      · exact hyx rfl
      · exact ho.not_free y hyLive hyf
    · exact ho.live_lt y ((hlive y).mp hy).1
    · rcases List.mem_cons.mp hy with rfl | hy
      · exact ho.live_lt y hxLive
      · exact ho.free_lt y hy
    · rw [hsubm d] at hy
      exact ho.written d y (List.mem_of_mem_erase hy)
  · obtain ⟨n, hn⟩ := h.channels d
    by_cases hd : d = c
    · subst hd
      have hseqNums := hn.seqNums
      rw [hsub, List.map_cons, List.length_cons, List.range'_succ, List.cons.injEq] at hseqNums
      have hpend := hn.pending
      have hroom := hn.room
      rw [hsub, List.length_cons] at hpend hroom
      refine ⟨n + 1, ?_, ?_, ?_, ?_, ?_, ?_, ?_, ?_, ?_, ?_, ?_, ?_⟩
      all_goals try rw [hchan, update_self]
      · exact hn.entries_pos
      · exact hn.entries_lt
      · dsimp only
        omega
      · exact hn.offset
      · exact hseqNums.2
      · intro y hy
        exact hn.offsets y (by rw [hsub]; exact List.mem_cons_of_mem x hy)
      · omega
      · dsimp only
        omega
      · exact hn.done_le
      · exact hn.completed_le
      · dsimp only
        omega
      · exact hn.reserved
    · refine ⟨n, hn.congr ?_ (fun _ _ => ⟨rfl, rfl⟩) rfl⟩
      rw [hchan, update_of_ne hd]
  · have hr := h.rings r
    have hother : t.ringbuffer r = { s.ringbuffer r with
        pbList := (s.ringbuffer r).pbList.erase x } := by
      rw [← hpbList, freeSubmittedPushbuffer_ringbuffer]
      split <;> rfl
    have hmemory : t.memory r = s.memory r := by
      unfold memory
      rw [hother]
    have hslot : t.slot r = s.slot r := by
      unfold slot
      rw [hother]
    have hsublist : ((s.ringbuffer r).pbList.erase x).Sublist (s.ringbuffer r).pbList :=
      List.erase_sublist
    have hne : ∀ y ∈ s.obtained, y ≠ x := by
      rintro y hy rfl
      exact ho.not_submitted y hy c hxc
    refine ⟨?_, ?_, ?_, ?_, ?_, ?_, ?_, hr.free, fun i hi => ?_⟩
    · rw [hother]
      exact hr.cpuEnd
    · rw [hother]
      exact hr.cpuEnd_lt
    · rw [hpbList]
      exact hr.nodup.erase x
    · intro y hy
      rw [hpbList, hr.nodup.mem_erase_iff] at hy
      exact ⟨(hlive y).mpr ⟨(hr.live y hy.2).1, hy.1⟩, (hr.live y hy.2).2⟩
    · intro y hy
      rw [hpbList] at hy
      rw [hmemory]
      exact hr.inside y (hsublist.subset hy)
    · rw [hpbList]
      exact hr.wound.sublist (hsublist.map s.span)
    · intro y hy hyr
      rw [hpbList]
      exact getLast?_erase (hr.last y hy hyr) (hne y hy)
    · obtain ⟨hfree, hunique, hobt, hwound, hwithin⟩ := hr.held i hi
      refine ⟨hfree, hunique, hobt, ?_, ?_⟩
      · rw [hpbList, hslot]
        exact hwound.sublist ((hsublist.map s.span).append_right [s.slot r])
      · rwa [hslot, hmemory]
  · obtain ⟨hyLive, hyx⟩ := (hlive y).mp hy
    rw [hpbList]
    exact (List.mem_erase_of_ne hyx).mpr (h.listed y hyLive)

/-- The GPFIFO entries of a channel that are accounted for: free, reserved, or taken by a submitted
pushbuffer. -/
def total (s : State) (c : ℕ) : ℕ :=
  (s.channel c).numFreeGpFifoEntries + (s.channel c).numReservedGpFifoEntries +
    (s.channel c).pbSubmittedList.length

/-- A step keeps the number of entries that are accounted for, of every channel. -/
structure SameTotals (s s' : State) : Prop where
  total : ∀ c, s'.total c = s.total c
  entries : ∀ c, (s'.channel c).numGpFifoEntries = (s.channel c).numGpFifoEntries

theorem SameTotals.refl (s : State) : SameTotals s s := ⟨fun _ => rfl, fun _ => rfl⟩

theorem SameTotals.trans {s'' : State} (h : SameTotals s s') (h' : SameTotals s' s'') :
    SameTotals s s'' :=
  ⟨fun c => (h'.total c).trans (h.total c), fun c => (h'.entries c).trans (h.entries c)⟩

theorem SameTotals.of_update (hchan : s'.channel = update s.channel c ch)
    (hents : ch.numGpFifoEntries = (s.channel c).numGpFifoEntries)
    (htotal : ch.numFreeGpFifoEntries + ch.numReservedGpFifoEntries + ch.pbSubmittedList.length =
      s.total c) : SameTotals s s' := by
  constructor
  all_goals
    intro d
    by_cases hd : d = c
  · subst hd
    unfold State.total
    rw [hchan, update_self]
    exact htotal
  · unfold State.total
    rw [hchan, update_of_ne hd]
  · subst hd
    rw [hchan, update_self, hents]
  · rw [hchan, update_of_ne hd]

theorem sameTotals_updateProgress (c : ℕ) : SameTotals s (s.updateProgress c) :=
  .of_update rfl rfl rfl

theorem sameTotals_querySeqDone (c seq : ℕ) : SameTotals s (s.querySeqDone c seq).2 :=
  .of_update rfl rfl rfl

theorem sameTotals_updateAllProgress : SameTotals s s.updateAllProgress := by
  unfold State.updateAllProgress
  generalize s.channelList = l
  induction l generalizing s with
  | nil => exact .refl s
  | cons c l ih => exact (sameTotals_updateProgress c).trans ih

/-- Whether the loop of `_reclaim_pushbuffers` frees a pushbuffer. -/
def reclaims (s : State) (curSeq x : ℕ) : Bool := decide ((s.pushbuffer x).seqNum ≤ curSeq)

/-- What the loop of `_reclaim_pushbuffers` does. -/
structure Reclaimed (s : State) (c curSeq : ℕ) (s' : State) : Prop where
  inv : s'.Inv
  totals : SameTotals s s'
  pushbuffer : s'.pushbuffer = s.pushbuffer
  submitted : (s'.channel c).pbSubmittedList =
    (s.channel c).pbSubmittedList.dropWhile (s.reclaims curSeq)
  free : s'.pbFreeList =
    ((s.channel c).pbSubmittedList.takeWhile (s.reclaims curSeq)).reverse ++ s.pbFreeList
  others : ∀ d, d ≠ c → s'.channel d = s.channel d

theorem Inv.reclaimLoop {l : List ℕ} (curSeq : ℕ) (h : s.Inv)
    (hsub : (s.channel c).pbSubmittedList = l) (hdone : curSeq ≤ (s.channel c).seqNumDone)
    (hlt : curSeq < 2 ^ 32) : s.Reclaimed c curSeq (reclaimLoop curSeq l s) := by
  induction l generalizing s with
  | nil => exact ⟨h, .refl s, rfl, by rw [hsub]; exact hsub, by rw [hsub]; rfl, fun _ _ => rfl⟩
  | cons x rest ih =>
    unfold State.reclaimLoop
    by_cases hle : (s.pushbuffer x).seqNum ≤ curSeq
    · have hx : (s.pushbuffer x).channel = c :=
        h.owned.submitted_channel c x (by rw [hsub]; exact List.mem_cons_self)
      have hchan := freeSubmittedPushbuffer_channel hx hsub
      have hc : (s.freeSubmittedPushbuffer x).channel c = { s.channel c with
          numFreeGpFifoEntries := (s.channel c).numFreeGpFifoEntries + 1
          pbSubmittedList := rest } := by rw [hchan, update_self]
      have htotals : SameTotals s (s.freeSubmittedPushbuffer x) := by
        refine .of_update hchan rfl ?_
        unfold State.total
        rw [hsub, List.length_cons]
        dsimp only
        omega
      have hstep := ih (h.freeSubmittedPushbuffer hsub (le_trans hle hdone) (by omega))
        (by rw [hc]) (by rw [hc]; exact hdone)
      have hreclaims : s.reclaims curSeq x = true := decide_eq_true hle
      have hsub' : ((s.freeSubmittedPushbuffer x).channel c).pbSubmittedList = rest := by rw [hc]
      rw [if_pos hle]
      refine ⟨hstep.inv, htotals.trans hstep.totals, hstep.pushbuffer, ?_, ?_, fun d hd => ?_⟩
      · rw [hstep.submitted, hsub', hsub, List.dropWhile_cons_of_pos hreclaims]
        rfl
      · rw [hstep.free, hsub', hsub, List.takeWhile_cons_of_pos hreclaims, List.reverse_cons,
          List.append_assoc]
        rfl
      · rw [hstep.others d hd, hchan, update_of_ne hd]
    · have hreclaims : ¬ s.reclaims curSeq x = true := by simpa [reclaims] using hle
      rw [if_neg hle]
      refine ⟨h, .refl s, rfl, ?_, ?_, fun _ _ => rfl⟩
      · rw [hsub, List.dropWhile_cons_of_neg hreclaims]
      · rw [hsub, List.takeWhile_cons_of_neg hreclaims]
        rfl

theorem Inv.reclaimPushbuffers (h : s.Inv) (c : ℕ) :
    s.Reclaimed c ((s.channel c).completed % 2 ^ 32) (s.reclaimPushbuffers c) := by
  obtain ⟨n, hn⟩ := h.channels c
  have hstate := hn.updateProgress_state
  have hself : (s.updateProgress c).channel c =
      { s.channel c with seqNumDone := (s.channel c).completed } := by
    rw [hstate, setChannel_self]
  have hreclaim := (h.updateProgress c).reclaimLoop (c := c)
    ((s.channel c).completed % 2 ^ 32) rfl (by rw [hself]; exact Nat.mod_le _ _)
    (Nat.mod_lt _ (by decide))
  have hsub : ((s.updateProgress c).channel c).pbSubmittedList = (s.channel c).pbSubmittedList := by
    rw [hself]
  have heq : s.reclaimPushbuffers c = State.reclaimLoop ((s.channel c).completed % 2 ^ 32)
      ((s.updateProgress c).channel c).pbSubmittedList (s.updateProgress c) := by
    have hdone : ((s.updateProgress c).channel c).seqNumDone = (s.channel c).completed := by
      rw [hself]
    unfold State.reclaimPushbuffers
    dsimp only
    rw [hdone]
  rw [heq]
  refine ⟨hreclaim.inv, (sameTotals_updateProgress c).trans hreclaim.totals, hreclaim.pushbuffer,
    ?_, ?_, fun d hd => ?_⟩
  · rw [hreclaim.submitted, hsub]
    rfl
  · rw [hreclaim.free, hsub]
    rfl
  · rw [hreclaim.others d hd, hstate, setChannel_of_ne hd]

theorem Inv.reclaimRingbuffer (h : s.Inv) (r : ℕ) :
    (s.reclaimRingbuffer r).Inv ∧ SameTotals s (s.reclaimRingbuffer r) := by
  unfold State.reclaimRingbuffer
  split
  · exact ⟨h, .refl s⟩
  · next x _ _ =>
    dsimp only
    have hquery := h.querySeqDone (s.pushbuffer x).channel (s.pushbuffer x).seqNum
    have htotals := sameTotals_querySeqDone (s := s) (s.pushbuffer x).channel (s.pushbuffer x).seqNum
    split
    · have hreclaim := hquery.reclaimPushbuffers (s.pushbuffer x).channel
      exact ⟨hreclaim.inv, htotals.trans hreclaim.totals⟩
    · exact ⟨hquery, htotals⟩

theorem Inv.reclaim (h : s.Inv) : s.reclaim.Inv ∧ SameTotals s s.reclaim := by
  unfold State.reclaim
  generalize s.ringbufferList = l
  induction l generalizing s with
  | nil => exact ⟨h, .refl s⟩
  | cons r l ih =>
    obtain ⟨hring, htotals⟩ := h.reclaimRingbuffer r
    obtain ⟨hrest, htotals'⟩ := ih hring
    exact ⟨hrest, htotals.trans htotals'⟩

end State

end NvUvm.LiteChannel
