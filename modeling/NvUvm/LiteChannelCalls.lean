import NvUvm.LiteChannelInv

/-!
# The calls of the channel manager keep its invariant
-/

namespace NvUvm.LiteChannel

open Lib
open Function (update update_of_ne update_self)

namespace State

variable {s s' : State} {c d i r x y n : ℕ}

theorem sub64_eq {a b : ℕ} (hle : b ≤ a) (hlt : a < 2 ^ 64) : sub64 a b = a - b := by
  unfold sub64
  omega

/-! ## Getting a ring buffer -/

theorem Inv.span_of_free (h : s.Inv) (hr : r ∈ s.ringbufferFreeList)
    (hx : x ∈ (s.ringbuffer r).pbList) :
    s.span x = ⟨(s.pushbuffer x).cpuBegin, (s.pushbuffer x).curOffset⟩ ∧
      0 < (s.pushbuffer x).curOffset := by
  obtain ⟨hlive, hring⟩ := (h.rings r).live x hx
  have hx : x ∉ s.obtained := fun hx => (h.rings r).free hr x hx hring
  obtain ⟨d, hd⟩ := hlive.resolve_left hx
  exact ⟨by rw [span, if_neg hx], h.owned.written d x hd⟩

theorem Inv.findMemoryInRingbuffer_spec (h : s.Inv) (hr : r ∈ s.ringbufferFreeList) {addr : ℕ}
    (hfind : s.findMemoryInRingbuffer r = some addr) :
    Span.Wound ((s.ringbuffer r).pbList.map s.span ++ [⟨addr, reservationSize⟩]) ∧
      Span.Within ⟨addr, reservationSize⟩ (s.memory r) := by
  have hring := h.rings r
  have hend := hring.cpuEnd
  have hendLt := hring.cpuEnd_lt
  have hsize : ringbufferSize = 2 * reservationSize := rfl
  unfold findMemoryInRingbuffer at hfind
  dsimp only at hfind
  cases hhead : (s.ringbuffer r).pbList.head? with
  | none =>
    -- an empty ring buffer begins anew
    rw [hhead] at hfind
    obtain rfl := Option.some.inj hfind
    rw [List.head?_eq_none_iff.mp hhead]
    refine ⟨Span.wound_of_pairwise (List.pairwise_singleton _ _), le_rfl, ?_⟩
    unfold Span.stop memory
    dsimp only
    omega
  | some pbHead =>
    obtain ⟨pbTail, htail⟩ : ∃ t, (s.ringbuffer r).pbList.getLast? = some t := by
      cases htail : (s.ringbuffer r).pbList.getLast? with
      | none => simp [List.getLast?_eq_none_iff.mp htail] at hhead
      | some t => exact ⟨t, rfl⟩
    rw [hhead, htail] at hfind
    dsimp only at hfind
    have hheadMem := List.mem_of_head? hhead
    have htailMem := List.mem_of_getLast? htail
    obtain ⟨hheadSpan, -⟩ := h.span_of_free hr hheadMem
    obtain ⟨htailSpan, hpos⟩ := h.span_of_free hr htailMem
    have hfirst : ((s.ringbuffer r).pbList.map s.span).head? = some (s.span pbHead) := by
      rw [List.head?_map, hhead]; rfl
    have hlast : ((s.ringbuffer r).pbList.map s.span).getLast? = some (s.span pbTail) := by
      rw [List.getLast?_map, htail]; rfl
    have hheadIn := hring.inside pbHead hheadMem
    have htailIn := hring.inside pbTail htailMem
    have hbefore := hring.wound.before_of_lt hfirst hlast
    have hbehind := hring.wound.append_behind (x := ⟨addr, reservationSize⟩) hfirst hlast
    have hturn := hring.wound.append_turn (x := ⟨addr, reservationSize⟩) hfirst hlast
    rw [hheadSpan] at hheadIn hbefore hbehind hturn
    rw [htailSpan] at htailIn hbefore hbehind hturn
    simp only [Span.Within, Span.Before, Span.stop, memory] at hheadIn htailIn hbefore hbehind hturn ⊢
    by_cases hwound : (s.pushbuffer pbTail).cpuBegin < (s.pushbuffer pbHead).cpuBegin
    · rw [if_pos hwound, sub64_eq (hbefore hwound) (by omega)] at hfind
      split at hfind
      · obtain rfl := Option.some.inj hfind
        exact ⟨hbehind hpos le_rfl fun _ => by omega, by omega⟩
      · cases hfind
    · rw [if_neg hwound, sub64_eq (by omega) hendLt, sub64_eq hheadIn.1 (by omega)] at hfind
      split at hfind
      · obtain rfl := Option.some.inj hfind
        exact ⟨hbehind hpos le_rfl fun hlt => absurd hlt hwound, by omega⟩
      · split at hfind
        · obtain rfl := Option.some.inj hfind
          exact ⟨hturn hpos (by omega) (by omega), by omega⟩
        · cases hfind

theorem getRingbuffer_some (hget : s.getRingbuffer = some (r, s')) :
    r ∈ s.ringbufferFreeList ∧ ∃ addr, s.findMemoryInRingbuffer r = some addr ∧
      s' = { s.setRingbuffer r { s.ringbuffer r with
          curOffset := sub64 addr (s.ringbuffer r).cpuBegin } with
        ringbufferFreeList := s.ringbufferFreeList.erase r } := by
  -- the walk ends at one of the ring buffers it was started with
  have hwalk : ∀ l, s.getRingbufferWalk l = some (r, s') →
      r ∈ l ∧ ∃ addr, s.findMemoryInRingbuffer r = some addr ∧
        s' = { s.setRingbuffer r { s.ringbuffer r with
            curOffset := sub64 addr (s.ringbuffer r).cpuBegin } with
          ringbufferFreeList := s.ringbufferFreeList.erase r } := by
    intro l
    induction l with
    | nil => intro hwalk; cases hwalk
    | cons q rest ih =>
      intro hwalk
      unfold getRingbufferWalk at hwalk
      split at hwalk
      · next addr hfind =>
        obtain ⟨rfl, rfl⟩ := hwalk
        exact ⟨List.mem_cons_self, addr, hfind, rfl⟩
      · obtain ⟨hmem, hrest⟩ := ih hwalk
        exact ⟨List.mem_cons_of_mem q hmem, hrest⟩
  exact hwalk _ hget

theorem Owned.congr (h : s.Owned) (hchan : s'.channel = s.channel)
    (hpushbuffer : s'.pushbuffer = s.pushbuffer) (hobt : s'.obtained = s.obtained)
    (hfree : s'.pbFreeList = s.pbFreeList) (hallocated : s'.allocated = s.allocated) : s'.Owned := by
  have hlive : ∀ x, s'.Live x ↔ s.Live x := by
    intro x
    unfold Live
    rw [hobt, hchan]
  refine ⟨?_, ?_, ?_, ?_, ?_, fun x hx => ?_, fun x hx => ?_, ?_, ?_, ?_, ?_⟩
  all_goals try rw [hchan]
  all_goals try rw [hpushbuffer]
  all_goals try rw [hobt]
  all_goals try rw [hfree]
  all_goals try rw [hallocated]
  · exact h.obtained_nodup
  · exact h.free_nodup
  · exact h.submitted_nodup
  · exact h.submitted_channel
  · exact h.not_submitted
  · exact h.not_free x ((hlive x).mp hx)
  · exact h.live_lt x ((hlive x).mp hx)
  · exact h.free_lt
  · exact h.unsubmitted
  · exact h.fits
  · exact h.written

theorem RingInv.congr (h : s.RingInv r) (hring : s'.ringbuffer r = s.ringbuffer r)
    (hlive : ∀ y ∈ (s.ringbuffer r).pbList, s'.Live y ∧ (s'.pushbuffer y).ringbuffer = r)
    (hspan : ∀ y ∈ (s.ringbuffer r).pbList, s'.span y = s.span y)
    (hobt : ∀ y ∈ s'.obtained, (s'.pushbuffer y).ringbuffer = r →
      y ∈ s.obtained ∧ (s.pushbuffer y).ringbuffer = r)
    (hfree : r ∈ s'.ringbufferFreeList → r ∈ s.ringbufferFreeList)
    (hwait : ∀ j, s'.waiting j = some r → s.waiting j = some r) : s'.RingInv r := by
  have hmap : (s.ringbuffer r).pbList.map s'.span = (s.ringbuffer r).pbList.map s.span :=
    List.map_congr_left hspan
  have hmemory : s'.memory r = s.memory r := by
    unfold memory
    rw [hring]
  have hslot : s'.slot r = s.slot r := by
    unfold slot
    rw [hring]
  refine ⟨?_, ?_, ?_, ?_, ?_, ?_, ?_, fun hr y hy hyr => ?_, fun j hj => ?_⟩
  all_goals try rw [hring]
  · exact h.cpuEnd
  · exact h.cpuEnd_lt
  · exact h.nodup
  · exact hlive
  · intro y hy
    rw [hspan y hy, hmemory]
    exact h.inside y hy
  · rw [hmap]
    exact h.wound
  · intro y hy hyr
    obtain ⟨hy, hyr⟩ := hobt y hy hyr
    exact h.last y hy hyr
  · obtain ⟨hy, hyr⟩ := hobt y hy hyr
    exact h.free (hfree hr) y hy hyr
  · obtain ⟨hnotFree, hunique, hnone, hwound, hwithin⟩ := h.held j (hwait j hj)
    refine ⟨fun hr => hnotFree (hfree hr), fun k hk => hunique k (hwait k hk),
      fun y hy hyr => ?_, ?_, ?_⟩
    · obtain ⟨hy, hyr⟩ := hobt y hy hyr
      exact hnone y hy hyr
    · rw [hmap, hslot]
      exact hwound
    · rw [hslot, hmemory]
      exact hwithin

/-- A thread takes a ring buffer from the free list. -/
def takeRingbuffer (s : State) (i r addr : ℕ) : State :=
  { s.setRingbuffer r { s.ringbuffer r with
      curOffset := sub64 addr (s.ringbuffer r).cpuBegin } with
    ringbufferFreeList := s.ringbufferFreeList.erase r
    waiting := update s.waiting i (some r) }

theorem Inv.takeRingbuffer (h : s.Inv) (hr : r ∈ s.ringbufferFreeList) (hi : s.waiting i = none)
    {addr : ℕ} (hfind : s.findMemoryInRingbuffer r = some addr) :
    (s.takeRingbuffer i r addr).Inv := by
  let t := s.takeRingbuffer i r addr
  show t.Inv
  obtain ⟨hwound, hwithin⟩ := h.findMemoryInRingbuffer_spec hr hfind
  have hself : t.ringbuffer r = { s.ringbuffer r with
      curOffset := sub64 addr (s.ringbuffer r).cpuBegin } := update_self _ _ _
  have hother : ∀ q, q ≠ r → t.ringbuffer q = s.ringbuffer q :=
    fun q hq => update_of_ne hq _ _
  have hpbList : ∀ q, (t.ringbuffer q).pbList = (s.ringbuffer q).pbList := by
    intro q
    by_cases hq : q = r
    · rw [hq, hself]
    · rw [hother q hq]
  have hwait : ∀ j q, t.waiting j = some q → (j = i ∧ q = r) ∨ (j ≠ i ∧ s.waiting j = some q) := by
    intro j q hj
    by_cases hji : j = i
    · subst hji
      have hmine : (s.takeRingbuffer j r addr).waiting j = some r := update_self _ _ _
      exact .inl ⟨rfl, (Option.some.inj (hmine.symm.trans hj)).symm⟩
    · have hother : t.waiting j = s.waiting j :=
        update_of_ne hji _ _
      exact .inr ⟨hji, hother ▸ hj⟩
  -- no other thread holds a ring buffer of the free list
  have hnone : ∀ j, s.waiting j ≠ some r := fun j hj => ((h.rings r).held j hj).1 hr
  refine ⟨h.owned.congr rfl rfl rfl rfl rfl, fun d => ?_, fun q => ?_, fun x hx => ?_,
    h.freeRings.erase r⟩
  · obtain ⟨n, hn⟩ := h.channels d
    exact ⟨n, hn.congr rfl (fun _ _ => ⟨rfl, rfl⟩) rfl⟩
  · have hq := h.rings q
    by_cases hqr : q = r
    · subst hqr
      have hmemory : (s.takeRingbuffer i q addr).memory q = s.memory q := by
        unfold memory
        rw [hself]
      have hslot : (s.takeRingbuffer i q addr).slot q = ⟨addr, reservationSize⟩ := by
        unfold slot
        rw [hself]
        have hlt := hq.cpuEnd_lt
        have hend := hq.cpuEnd
        obtain ⟨hle, hstop⟩ := hwithin
        simp only [Span.stop, memory] at hle hstop
        rw [sub64_eq hle (by omega)]
        dsimp only
        congr 1
        omega
      refine ⟨?_, ?_, ?_, ?_, ?_, ?_, ?_, fun hfree => ?_, fun j hj => ?_⟩
      · rw [hself]
        exact hq.cpuEnd
      · rw [hself]
        exact hq.cpuEnd_lt
      · rw [hpbList]
        exact hq.nodup
      · rw [hpbList]
        exact hq.live
      · rw [hpbList, hmemory]
        exact hq.inside
      · rw [hpbList]
        exact hq.wound
      · rw [hpbList]
        exact hq.last
      · exact hq.free (List.mem_of_mem_erase hfree)
      · refine ⟨fun hmem => (h.freeRings.mem_erase_iff.mp hmem).1 rfl, fun k hk => ?_, hq.free hr,
          ?_, ?_⟩
        · rcases hwait j q hj with ⟨rfl, -⟩ | ⟨-, hj⟩
          · exact (hwait k q hk).elim (fun hk => hk.1) fun hk => absurd hk.2 (hnone k)
          · exact absurd hj (hnone j)
        · rw [hslot, hpbList]
          exact hwound
        · rw [hslot, hmemory]
          exact hwithin
    · refine hq.congr (hother q hqr) hq.live (fun _ _ => rfl) (fun y hy hyq => ⟨hy, hyq⟩)
        List.mem_of_mem_erase fun j hj => ?_
      rcases hwait j q hj with ⟨-, hqr'⟩ | ⟨-, hj⟩
      · exact absurd hqr' hqr
      · exact hj
  · rw [hpbList]
    exact h.listed x hx

/-! ## Getting a pushbuffer -/

/-- A thread that holds a ring buffer gets a channel and a pushbuffer structure. -/
def obtainPushbuffer (s : State) (i r c x : ℕ) (channelList pbFreeList : List ℕ) (allocated : ℕ) :
    State :=
  { s with
    channel := update s.channel c { s.channel c with
      numFreeGpFifoEntries := (s.channel c).numFreeGpFifoEntries - 1
      numReservedGpFifoEntries := (s.channel c).numReservedGpFifoEntries + 1 }
    channelList := channelList
    ringbuffer := update s.ringbuffer r { s.ringbuffer r with
      pbList := (s.ringbuffer r).pbList ++ [x] }
    pushbuffer := update s.pushbuffer x
      ⟨(s.ringbuffer r).cpuBegin + (s.ringbuffer r).curOffset, 0, r, c, 0, maxSeqNum⟩
    pbFreeList := pbFreeList
    allocated := allocated
    waiting := update s.waiting i none
    obtained := x :: s.obtained }

/-- The free list and the next number after a structure has been taken. -/
structure Takes (s : State) (x : ℕ) (pbFreeList : List ℕ) (allocated : ℕ) : Prop where
  fresh : ¬ s.Live x
  nodup : pbFreeList.Nodup
  notMem : x ∉ pbFreeList
  subset : ∀ y ∈ pbFreeList, y ∈ s.pbFreeList
  lt : x < allocated
  le : s.allocated ≤ allocated

variable {allocOk : Bool} {bytes : ℕ}

theorem Inv.allocPushbufferStructure (h : s.Inv) {s₁ : State} (hfree : s₁.pbFreeList = s.pbFreeList)
    (hallocated : s₁.allocated = s.allocated)
    (halloc : s₁.allocPushbufferStructure allocOk = some (x, s')) :
    ∃ pbFreeList allocated, s.Takes x pbFreeList allocated ∧
      s' = { s₁ with pbFreeList := pbFreeList, allocated := allocated } := by
  unfold State.allocPushbufferStructure at halloc
  rw [hfree, hallocated] at halloc
  split at halloc
  · next y rest heq =>
    simp only [Option.some.injEq, Prod.mk.injEq] at halloc
    obtain ⟨rfl, rfl⟩ := halloc
    have hy : y ∈ s.pbFreeList := by rw [heq]; exact List.mem_cons_self
    have hnd := h.owned.free_nodup
    rw [heq] at hnd
    exact ⟨rest, s.allocated, ⟨fun hlive => h.owned.not_free y hlive hy,
      (List.nodup_cons.mp hnd).2, (List.nodup_cons.mp hnd).1,
      fun z hz => by rw [heq]; exact List.mem_cons_of_mem y hz, h.owned.free_lt y hy, le_rfl⟩,
      by rw [← hallocated]⟩
  · next heq =>
    split at halloc
    · simp only [Option.some.injEq, Prod.mk.injEq] at halloc
      obtain ⟨rfl, rfl⟩ := halloc
      refine ⟨[], s.allocated + 1, ⟨fun hlive => ?_, List.nodup_nil, List.not_mem_nil,
        fun y hy => absurd hy List.not_mem_nil, Nat.lt_succ_self _, Nat.le_succ _⟩,
        by rw [← heq, ← hfree]⟩
      exact Nat.lt_irrefl _ (h.owned.live_lt _ hlive)
    · cases halloc

theorem allocPushbufferStructure_none (halloc : s.allocPushbufferStructure allocOk = none) :
    s.pbFreeList = [] ∧ allocOk = false := by
  unfold State.allocPushbufferStructure at halloc
  split at halloc
  · cases halloc
  · next hfree =>
    split at halloc
    · cases halloc
    · next hok => exact ⟨hfree, by simpa using hok⟩

variable {channelList pbFreeList : List ℕ} {allocated : ℕ}

theorem Inv.obtainPushbuffer (h : s.Inv) (hi : s.waiting i = some r)
    (hc : (s.channel c).numFreeGpFifoEntries ≠ 0) (hx : s.Takes x pbFreeList allocated) :
    (s.obtainPushbuffer i r c x channelList pbFreeList allocated).Inv := by
  let t := s.obtainPushbuffer i r c x channelList pbFreeList allocated
  show t.Inv
  obtain ⟨hfreeRing, hunique, hnoneObtained, hwound, hwithin⟩ := (h.rings r).held i hi
  have ho := h.owned
  have hsubm : ∀ d, (t.channel
      d).pbSubmittedList = (s.channel d).pbSubmittedList := fun d => setChannel_submitted rfl
  have hlive : ∀ y, t.Live y ↔ y = x ∨ s.Live y := by
    intro y
    unfold Live
    simp only [hsubm]
    simp only [t, State.obtainPushbuffer, List.mem_cons, or_assoc]
  have hne : ∀ y, s.Live y → y ≠ x := by
    rintro y hy rfl
    exact hx.fresh hy
  -- the other pushbuffers are as before
  have hpushbuffer : ∀ y, y ≠ x → t.pushbuffer y = s.pushbuffer y := fun y hy => update_of_ne hy _ _
  have hself : t.pushbuffer x =
      ⟨(s.ringbuffer r).cpuBegin + (s.ringbuffer r).curOffset, 0, r, c, 0, maxSeqNum⟩ :=
    update_self _ _ _
  have hspan : ∀ y, s.Live y → t.span y = s.span y := by
    intro y hy
    unfold span
    rw [hpushbuffer y (hne y hy)]
    simp only [t, State.obtainPushbuffer, List.mem_cons, hne y hy, false_or]
  have hspanSelf : t.span x = s.slot r := by
    have hmem : x ∈ t.obtained :=
      List.mem_cons_self
    unfold span slot
    rw [hself, if_pos hmem]
  have hringSelf : t.ringbuffer r =
      { s.ringbuffer r with pbList := (s.ringbuffer r).pbList ++ [x] } := update_self _ _ _
  have hringOther : ∀ q, q ≠ r → t.ringbuffer q = s.ringbuffer q := fun q hq => update_of_ne hq _ _
  have hwait : ∀ j q, t.waiting j = some q → j ≠ i ∧ s.waiting j = some q := by
    intro j q hj
    by_cases hji : j = i
    · subst hji
      have hmine : t.waiting j = none :=
        update_self _ _ _
      rw [hmine] at hj
      cases hj
    · have hother : t.waiting j = s.waiting j := update_of_ne hji _ _
      exact ⟨hji, hother ▸ hj⟩
  refine ⟨⟨?_, hx.nodup, fun d => ?_, fun d y hy => ?_, fun y hy d => ?_, fun y hy hyf => ?_,
    fun y hy => ?_, fun y hy => ?_, fun y hy => ?_, fun y hy => ?_, fun d y hy => ?_⟩,
    fun d => ?_, fun q => ?_, fun y hy => ?_, h.freeRings⟩
  · exact List.nodup_cons.mpr ⟨fun hxo => hx.fresh (.inl hxo), ho.obtained_nodup⟩
  · rw [hsubm]
    exact ho.submitted_nodup d
  · rw [hsubm] at hy
    rw [hpushbuffer y (hne y (.inr ⟨d, hy⟩))]
    exact ho.submitted_channel d y hy
  · rw [hsubm]
    rcases List.mem_cons.mp hy with rfl | hy
    · exact fun hyd => hx.fresh (.inr ⟨d, hyd⟩)
    · exact ho.not_submitted y hy d
  · rcases (hlive y).mp hy with rfl | hy
    · exact hx.notMem hyf
    · exact ho.not_free y hy (hx.subset y hyf)
  · rcases (hlive y).mp hy with rfl | hy
    · exact hx.lt
    · exact lt_of_lt_of_le (ho.live_lt y hy) hx.le
  · exact lt_of_lt_of_le (ho.free_lt y (hx.subset y hy)) hx.le
  · rcases List.mem_cons.mp hy with rfl | hy
    · rw [hself]
    · rw [hpushbuffer y (hne y (.inl hy))]
      exact ho.unsubmitted y hy
  · rcases List.mem_cons.mp hy with rfl | hy
    · rw [hself]
      exact Nat.zero_le _
    · rw [hpushbuffer y (hne y (.inl hy))]
      exact ho.fits y hy
  · rw [hsubm] at hy
    rw [hpushbuffer y (hne y (.inr ⟨d, hy⟩))]
    exact ho.written d y hy
  · -- the channels
    obtain ⟨n, hn⟩ := h.channels d
    have hsame : ∀ y ∈ (s.channel d).pbSubmittedList,
        t.pushbuffer y = s.pushbuffer y := fun y hy => hpushbuffer y (hne y (.inr ⟨d, hy⟩))
    have hcnt : s.obtained.countP (fun y => (t.pushbuffer y).channel = d) =
          s.obtained.countP fun y => (s.pushbuffer y).channel = d :=
      List.countP_congr fun y hy => by rw [hpushbuffer y (hne y (.inl hy))]
    by_cases hd : d = c
    · subst hd
      refine ⟨n, hn.counters (update_self _ _ _)
        (fun y hy => ⟨by rw [hsame y hy], by rw [hsame y hy]⟩) (by omega) ?_⟩
      change List.countP _ (x :: s.obtained) = _
      rw [List.countP_cons_of_pos (by rw [hself]; simp), hcnt, ← hn.reserved]
    · refine ⟨n, hn.congr (update_of_ne hd _ _)
        (fun y hy => ⟨by rw [hsame y hy], by rw [hsame y hy]⟩) ?_⟩
      change List.countP _ (x :: s.obtained) = _
      rw [List.countP_cons_of_neg (by rw [hself]; simpa using Ne.symm hd), hcnt]
  · -- the ring buffers
    have hq := h.rings q
    have hmapSpan : ∀ l : List ℕ, (∀ y ∈ l, s.Live y) → l.map t.span = l.map s.span :=
      fun l hl => List.map_congr_left fun y hy => hspan y (hl y hy)
    by_cases hqr : q = r
    · subst hqr
      have hxList : x ∉ (s.ringbuffer q).pbList := fun hxl => hx.fresh (hq.live x hxl).1
      have hmemory : t.memory q = s.memory q := by
        unfold memory
        rw [hringSelf]
      have hmap : ((s.ringbuffer q).pbList ++ [x]).map
          t.span = (s.ringbuffer q).pbList.map s.span ++ [s.slot q] := by
        rw [List.map_append, hmapSpan _ fun y hy => (hq.live y hy).1, List.map_singleton, hspanSelf]
      refine ⟨?_, ?_, ?_, ?_, ?_, ?_, ?_, fun hfree => absurd hfree hfreeRing, fun j hj => ?_⟩
      · rw [hringSelf]
        exact hq.cpuEnd
      · rw [hringSelf]
        exact hq.cpuEnd_lt
      · rw [hringSelf]
        exact List.nodup_append'.mpr ⟨hq.nodup, List.nodup_singleton x,
          fun y hy hy' => hxList (List.mem_singleton.mp hy' ▸ hy)⟩
      · intro y hy
        rw [hringSelf] at hy
        rcases List.mem_append.mp hy with hy | hy
        · have hyLive := (hq.live y hy).1
          rw [hpushbuffer y (hne y hyLive)]
          exact ⟨(hlive y).mpr (.inr hyLive), (hq.live y hy).2⟩
        · obtain rfl := List.mem_singleton.mp hy
          rw [hself]
          exact ⟨(hlive y).mpr (.inl rfl), rfl⟩
      · intro y hy
        rw [hringSelf] at hy
        rw [hmemory]
        rcases List.mem_append.mp hy with hy | hy
        · rw [hspan y (hq.live y hy).1]
          exact hq.inside y hy
        · rw [List.mem_singleton.mp hy, hspanSelf]
          exact hwithin
      · rw [hringSelf]
        dsimp only
        rw [hmap]
        exact hwound
      · intro y hy hyr
        rcases List.mem_cons.mp hy with rfl | hy
        · rw [hringSelf]
          exact List.getLast?_concat
        · rw [hpushbuffer y (hne y (.inl hy))] at hyr
          exact absurd hyr (hnoneObtained y hy)
      · obtain ⟨hji, hj⟩ := hwait j q hj
        exact absurd (hunique j hj) hji
    · refine hq.congr (hringOther q hqr) (fun y hy => ?_) (fun y hy => hspan y (hq.live y hy).1)
        (fun y hy hyq => ?_) id fun j hj => (hwait j q hj).2
      · obtain ⟨hyLive, hyq⟩ := hq.live y hy
        rw [hpushbuffer y (hne y hyLive)]
        exact ⟨(hlive y).mpr (.inr hyLive), hyq⟩
      · rcases List.mem_cons.mp hy with rfl | hy
        · rw [hself] at hyq
          exact absurd hyq.symm hqr
        · rw [hpushbuffer y (hne y (.inl hy))] at hyq
          exact ⟨hy, hyq⟩
  · -- every live pushbuffer is on the list of its ring buffer
    rcases (hlive y).mp hy with rfl | hy
    · rw [hself]
      rw [hringSelf]
      exact List.mem_append_right _ List.mem_cons_self
    · rw [hpushbuffer y (hne y hy)]
      have hmem := h.listed y hy
      by_cases hyr : (s.pushbuffer y).ringbuffer = r
      · rw [hyr, hringSelf]
        exact List.mem_append_left _ (hyr ▸ hmem)
      · rw [hringOther _ hyr]
        exact hmem

/-! ## Giving a ring buffer back -/

theorem Inv.releaseRingbuffer (h : s.Inv) (hi : s.waiting i = some r) (channelList : List ℕ) :
    Inv { s with
      channelList := channelList
      ringbufferFreeList := s.ringbufferFreeList ++ [r]
      waiting := update s.waiting i none } := by
  obtain ⟨hnotFree, hunique, hnone, -, -⟩ := (h.rings r).held i hi
  have hwait : ∀ j q, update s.waiting i none j = some q → j ≠ i ∧ s.waiting j = some q := by
    intro j q hj
    by_cases hji : j = i
    · rw [hji, update_self] at hj
      cases hj
    · rw [update_of_ne hji] at hj
      exact ⟨hji, hj⟩
  refine ⟨h.owned.congr rfl rfl rfl rfl rfl, fun d => ?_, fun q => ?_, h.listed, ?_⟩
  · obtain ⟨n, hn⟩ := h.channels d
    exact ⟨n, hn.congr rfl (fun _ _ => ⟨rfl, rfl⟩) rfl⟩
  · have hq := h.rings q
    by_cases hqr : q = r
    · subst hqr
      refine ⟨hq.cpuEnd, hq.cpuEnd_lt, hq.nodup, hq.live, hq.inside, hq.wound, hq.last,
        fun _ => hnone, fun j hj => ?_⟩
      obtain ⟨hji, hj⟩ := hwait j q hj
      exact absurd (hunique j hj) hji
    · refine hq.congr rfl hq.live (fun _ _ => rfl) (fun y hy hyq => ⟨hy, hyq⟩) (fun hmem => ?_)
        fun j hj => (hwait j q hj).2
      exact (List.mem_append.mp hmem).resolve_right fun hmem => hqr (List.mem_singleton.mp hmem)
  · exact List.nodup_append'.mpr ⟨h.freeRings, List.nodup_singleton r,
      fun q hq hq' => hnotFree (List.mem_singleton.mp hq' ▸ hq)⟩

/-- A pushbuffer in progress keeps its ring buffer off the free list and from every thread, and no
other one in progress is in it. -/
theorem Inv.alone (h : s.Inv) (hx : x ∈ s.obtained) :
    (s.pushbuffer x).ringbuffer ∉ s.ringbufferFreeList ∧
      (∀ i, s.waiting i ≠ some (s.pushbuffer x).ringbuffer) ∧
      ∀ y ∈ s.obtained, (s.pushbuffer y).ringbuffer = (s.pushbuffer x).ringbuffer → y = x := by
  have hring := h.rings (s.pushbuffer x).ringbuffer
  refine ⟨fun hfree => hring.free hfree x hx rfl, fun i hi => ?_, fun y hy hyx => ?_⟩
  · exact (hring.held i hi).2.2.1 x hx rfl
  · exact Option.some.inj ((hring.last y hy hyx).symm.trans (hring.last x hx rfl))

theorem countP_erase_obtained (p : ℕ → Prop) [DecidablePred p] (hx : x ∈ s.obtained) :
    s.obtained.countP (fun y => p y) =
      (s.obtained.erase x).countP (fun y => p y) + if p x then 1 else 0 := by
  rw [(List.perm_cons_erase hx).countP_eq]
  by_cases hp : p x
  · rw [List.countP_cons_of_pos (by simpa using hp), if_pos hp]
  · rw [List.countP_cons_of_neg (by simpa using hp), if_neg hp, Nat.add_zero]

/-! ## Writing a pushbuffer -/

theorem Inv.write (h : s.Inv) (hx : x ∈ s.obtained) (hfits : s.Fits x bytes) :
    (s.write x bytes).Inv := by
  have ho := h.owned
  have hself : (s.write x bytes).pushbuffer x =
      { s.pushbuffer x with curOffset := (s.pushbuffer x).curOffset + bytes } :=
    update_self _ _ _
  have hother : ∀ y, y ≠ x → (s.write x bytes).pushbuffer y = s.pushbuffer y :=
    fun y hy => update_of_ne hy _ _
  -- only the length of the pushbuffer changes
  have hchan : ∀ y, ((s.write x bytes).pushbuffer y).channel = (s.pushbuffer y).channel := by
    intro y
    by_cases hy : y = x
    · rw [hy, hself]
    · rw [hother y hy]
  have hring : ∀ y, ((s.write x bytes).pushbuffer y).ringbuffer = (s.pushbuffer y).ringbuffer := by
    intro y
    by_cases hy : y = x
    · rw [hy, hself]
    · rw [hother y hy]
  have hseq : ∀ y, ((s.write x bytes).pushbuffer y).seqNum = (s.pushbuffer y).seqNum ∧
      ((s.write x bytes).pushbuffer y).gpFifoOffset = (s.pushbuffer y).gpFifoOffset := by
    intro y
    by_cases hy : y = x
    · rw [hy, hself]
      exact ⟨rfl, rfl⟩
    · rw [hother y hy]
      exact ⟨rfl, rfl⟩
  have hne : ∀ c, ∀ y ∈ (s.channel c).pbSubmittedList, y ≠ x := by
    rintro c y hy rfl
    exact ho.not_submitted y hx c hy
  have hspan : ∀ y, (s.write x bytes).span y = s.span y := by
    intro y
    unfold span
    by_cases hy : y = x
    · subst hy
      have hmem : y ∈ (s.write y bytes).obtained := hx
      rw [hself, if_pos hmem, if_pos hx]
    · rw [hother y hy]
      rfl
  refine ⟨⟨ho.obtained_nodup, ho.free_nodup, ho.submitted_nodup, fun c y hy => ?_, ho.not_submitted,
    ho.not_free, ho.live_lt, ho.free_lt, fun y hy => ?_, fun y hy => ?_, fun c y hy => ?_⟩,
    fun c => ?_, fun r => ?_, fun y hy => ?_, h.freeRings⟩
  · rw [hchan]
    exact ho.submitted_channel c y hy
  · rw [(hseq y).1]
    exact ho.unsubmitted y hy
  · by_cases hyx : y = x
    · rw [hyx, hself]
      exact hfits
    · rw [hother y hyx]
      exact ho.fits y hy
  · rw [hother y (hne c y hy)]
    exact ho.written c y hy
  · obtain ⟨n, hn⟩ := h.channels c
    exact ⟨n, hn.congr rfl (fun y _ => hseq y) (List.countP_congr fun y _ => by rw [hchan])⟩
  · have hr := h.rings r
    refine hr.congr rfl (fun y hy => ?_) (fun y _ => hspan y) (fun y hy hyr => ?_) id fun _ => id
    · rw [hring]
      exact hr.live y hy
    · rw [hring] at hyr
      exact ⟨hy, hyr⟩
  · rw [hring]
    exact h.listed y hy

/-! ## Submission -/

/-- The channel of a pushbuffer after its submission. -/
def submitted (s : State) (x : ℕ) : Channel :=
  let ch := s.channel (s.pushbuffer x).channel
  { ch with
    curGpFifoOffset := (ch.curGpFifoOffset + 1) % ch.numGpFifoEntries
    numReservedGpFifoEntries := ch.numReservedGpFifoEntries - 1
    seqNumPending := (ch.seqNumPending + 1) % 2 ^ 64
    pbSubmittedList := ch.pbSubmittedList ++ [x] }

theorem submitPushbuffer_channel : (s.submitPushbuffer x bytes).channel =
      update s.channel (s.pushbuffer x).channel (s.submitted x) := by
  unfold submitPushbuffer putChannel putRingbuffer submitted
  dsimp only [State.setChannel, setPushbuffer]
  rw [update_self, Function.update_idem]

private theorem ChannelInv.submit (ho : s.Owned) (hx : x ∈ s.obtained)
    (h : s.ChannelInv (s.pushbuffer x).channel n) :
    (s.submitPushbuffer x bytes).ChannelInv (s.pushbuffer x).channel n := by
  let t := s.submitPushbuffer x bytes
  show t.ChannelInv (s.pushbuffer x).channel n
  have hchan : t.channel (s.pushbuffer x).channel =
      s.submitted x := by rw [submitPushbuffer_channel, update_self]
  have hself : t.pushbuffer x = { s.pushbuffer x with
      curOffset := (s.pushbuffer x).curOffset + bytes
      gpFifoOffset := (s.channel (s.pushbuffer x).channel).curGpFifoOffset
      seqNum := ((s.channel (s.pushbuffer x).channel).seqNumPending + 1) % 2 ^ 64 } :=
    update_self _ _ _
  have hother : ∀ y, y ≠ x → t.pushbuffer y = s.pushbuffer y :=
    fun y hy => update_of_ne hy _ _
  have hne : ∀ y ∈ (s.channel (s.pushbuffer x).channel).pbSubmittedList, y ≠ x := by
    rintro y hy rfl
    exact ho.not_submitted y hx _ hy
  have hpend := h.pending
  have hroom := h.room
  have hents := h.entries_lt
  have hreclaimed := h.reclaimed_lt
  have hresvd := h.reserved
  have hcompl := h.completed_le
  have hcnt := countP_erase_obtained (fun y => (s.pushbuffer y).channel =
    (s.pushbuffer x).channel) hx
  rw [if_pos rfl] at hcnt
  have hmod : ((s.channel (s.pushbuffer x).channel).seqNumPending + 1) % 2 ^ 64 =
      (s.channel (s.pushbuffer x).channel).seqNumPending + 1 := Nat.mod_eq_of_lt (by omega)
  refine ⟨?_, ?_, ?_, ?_, ?_, ?_, h.reclaimed_lt, ?_, ?_, ?_, ?_, ?_⟩
  all_goals rw [hchan]
  all_goals dsimp only [submitted]
  · exact h.entries_pos
  · exact h.entries_lt
  · rw [List.length_append, List.length_singleton, hmod]
    omega
  · rw [hmod, h.offset, Nat.mod_add_mod]
  · -- the sequence numbers stay consecutive
    rw [List.map_append, List.map_singleton, List.length_append, List.length_singleton,
      List.range'_concat, hself]
    have hmap := h.seqNums
    have hsame : (s.channel (s.pushbuffer x).channel).pbSubmittedList.map
        (fun y => (t.pushbuffer y).seqNum) =
          (s.channel (s.pushbuffer x).channel).pbSubmittedList.map
            fun y => (s.pushbuffer y).seqNum :=
      List.map_congr_left fun y hy => by rw [hother y (hne y hy)]
    rw [hsame, hmap, hmod]
    dsimp only
    congr 2
    omega
  · intro y hy
    rcases List.mem_append.mp hy with hy | hy
    · rw [hother y (hne y hy)]
      exact h.offsets y hy
    · rw [List.mem_singleton.mp hy, hself, hmod]
      exact h.offset
  · exact h.reclaimed_le
  · exact h.done_le
  · rw [hmod]
    omega
  · rw [List.length_append, List.length_singleton]
    omega
  · have hsame : (s.obtained.erase x).countP (fun y => (t.pushbuffer
        y).channel = (s.pushbuffer x).channel) =
          (s.obtained.erase x).countP fun y =>
            (s.pushbuffer y).channel = (s.pushbuffer x).channel := by
      refine List.countP_congr fun y hy => ?_
      rw [hother y (ho.obtained_nodup.mem_erase_iff.mp hy).1]
    change _ = (s.obtained.erase x).countP _
    omega

theorem Inv.submitPushbuffer (h : s.Inv) (hx : x ∈ s.obtained) (hfits : s.Fits x bytes)
    (hpos : 0 < bytes) : (s.submitPushbuffer x bytes).Inv := by
  let t := s.submitPushbuffer x bytes
  show t.Inv
  have ho := h.owned
  obtain ⟨hnotFree, hnotHeld, halone⟩ := h.alone hx
  have hself : t.pushbuffer x = { s.pushbuffer x with
      curOffset := (s.pushbuffer x).curOffset + bytes
      gpFifoOffset := (s.channel (s.pushbuffer x).channel).curGpFifoOffset
      seqNum := ((s.channel (s.pushbuffer x).channel).seqNumPending + 1) % 2 ^ 64 } :=
    update_self _ _ _
  have hother : ∀ y, y ≠ x → t.pushbuffer y = s.pushbuffer y :=
    fun y hy => update_of_ne hy _ _
  have hring : ∀ y, (t.pushbuffer y).ringbuffer = (s.pushbuffer y).ringbuffer := by
    intro y
    by_cases hy : y = x
    · rw [hy, hself]
    · rw [hother y hy]
  have hobt : ∀ y, y ∈ t.obtained ↔ y ≠ x ∧ y ∈ s.obtained :=
    fun y => ho.obtained_nodup.mem_erase_iff
  have hsubm : ∀ d y, y ∈ (t.channel d).pbSubmittedList ↔
      y ∈ (s.channel d).pbSubmittedList ∨ (y = x ∧ d = (s.pushbuffer x).channel) := by
    intro d y
    rw [submitPushbuffer_channel]
    by_cases hd : d = (s.pushbuffer x).channel
    · subst hd
      simp [submitted]
    · rw [update_of_ne hd]
      simp [hd]
  have hlive : ∀ y, t.Live y ↔ s.Live y := by
    intro y
    unfold Live
    simp only [hobt, hsubm]
    by_cases hy : y = x
    · subst hy
      simp [hx]
    · simp [hy]
  -- the memory kept for the pushbuffer becomes what was written to it
  have hspan : ∀ y, y ≠ x → t.span y = s.span y := by
    intro y hy
    unfold span
    simp only [hother y hy, hobt, ne_eq, hy, not_false_eq_true, true_and]
  have hspanSelf : (t.span x).Within (s.span x) := by
    unfold span
    rw [hself, if_pos hx, if_neg fun hmem => ((hobt x).mp hmem).1 rfl]
    exact Span.within_of_size_le hfits
  have hwithin : ∀ y, (t.span y).Within (s.span y) := by
    intro y
    by_cases hy : y = x
    · rw [hy]
      exact hspanSelf
    · rw [hspan y hy]
      exact ⟨le_rfl, le_rfl⟩
  refine ⟨⟨ho.obtained_nodup.erase x, ho.free_nodup, fun d => ?_, fun d y hy => ?_,
    fun y hy d hyd => ?_, fun y hy => ho.not_free y ((hlive y).mp hy),
    fun y hy => ho.live_lt y ((hlive y).mp hy), ho.free_lt, fun y hy => ?_, fun y hy => ?_,
    fun d y hy => ?_⟩, fun d => ?_, fun r => ?_, fun y hy => ?_, ?_⟩
  · rw [submitPushbuffer_channel]
    by_cases hd : d = (s.pushbuffer x).channel
    · subst hd
      rw [update_self]
      exact List.nodup_append'.mpr ⟨ho.submitted_nodup _, List.nodup_singleton x,
        fun y hy hy' => ho.not_submitted x hx _ (List.mem_singleton.mp hy' ▸ hy)⟩
    · rw [update_of_ne hd]
      exact ho.submitted_nodup d
  · rcases (hsubm d y).mp hy with hyd | ⟨rfl, rfl⟩
    · have hyx : y ≠ x := fun heq => ho.not_submitted x hx d (heq ▸ hyd)
      rw [hother y hyx]
      exact ho.submitted_channel d y hyd
    · rw [hself]
  · obtain ⟨hyx, hy⟩ := (hobt y).mp hy
    rcases (hsubm d y).mp hyd with hyd | ⟨rfl, -⟩
    · exact ho.not_submitted y hy d hyd
    · exact hyx rfl
  · obtain ⟨hyx, hy⟩ := (hobt y).mp hy
    rw [hother y hyx]
    exact ho.unsubmitted y hy
  · obtain ⟨hyx, hy⟩ := (hobt y).mp hy
    rw [hother y hyx]
    exact ho.fits y hy
  · rcases (hsubm d y).mp hy with hyd | ⟨rfl, rfl⟩
    · have hyx : y ≠ x := fun heq => ho.not_submitted x hx d (heq ▸ hyd)
      rw [hother y hyx]
      exact ho.written d y hyd
    · rw [hself]
      dsimp only
      omega
  · obtain ⟨n, hn⟩ := h.channels d
    by_cases hd : d = (s.pushbuffer x).channel
    · subst hd
      exact ⟨n, hn.submit ho hx⟩
    · refine ⟨n, hn.congr ?_ (fun y hy => ?_) ?_⟩
      · rw [submitPushbuffer_channel, update_of_ne hd]
      · have hyx : y ≠ x := by
          rintro rfl
          exact ho.not_submitted y hx d hy
        rw [hother y hyx]
        exact ⟨rfl, rfl⟩
      · have hcnt := countP_erase_obtained (fun y => (s.pushbuffer y).channel = d) hx
        rw [if_neg (Ne.symm hd), Nat.add_zero] at hcnt
        rw [hcnt]
        refine List.countP_congr fun y hy => ?_
        rw [hother y ((hobt y).mp hy).1]
  · have hr := h.rings r
    by_cases hrx : r = (s.pushbuffer x).ringbuffer
    · refine ⟨hr.cpuEnd, hr.cpuEnd_lt, hr.nodup, fun y hy => ?_, fun y hy => ?_,
        hr.wound.map_within fun y _ => hwithin y, fun y hy hyr => ?_, fun _ y hy hyr => ?_,
        fun j hj => ?_⟩
      · rw [hlive, hring]
        exact hr.live y hy
      · exact (hwithin y).trans (hr.inside y hy)
      · obtain ⟨hyx, hy⟩ := (hobt y).mp hy
        rw [hring] at hyr
        exact absurd (halone y hy (hyr.trans hrx)) hyx
      · obtain ⟨hyx, hy⟩ := (hobt y).mp hy
        rw [hring] at hyr
        exact hyx (halone y hy (hyr.trans hrx))
      · exact absurd (hrx ▸ hj) (hnotHeld j)
    · refine hr.congr rfl (fun y hy => ?_) (fun y hy => hspan y ?_) (fun y hy hyr => ?_)
        (fun hmem => ?_) fun _ => id
      · rw [hlive, hring]
        exact hr.live y hy
      · rintro rfl
        exact hrx (hr.live y hy).2.symm
      · rw [hring] at hyr
        exact ⟨((hobt y).mp hy).2, hyr⟩
      · exact (List.mem_append.mp hmem).resolve_right fun hmem => hrx (List.mem_singleton.mp hmem)
  · rw [hring]
    exact h.listed y ((hlive y).mp hy)
  · exact List.nodup_append'.mpr ⟨h.freeRings, List.nodup_singleton _,
      fun q hq hq' => hnotFree (List.mem_singleton.mp hq' ▸ hq)⟩

/-! ## Cancellation -/

theorem cancelPushbuffer_channel :
    (s.cancelPushbuffer x).channel = update s.channel (s.pushbuffer x).channel
      { s.channel (s.pushbuffer x).channel with
        numReservedGpFifoEntries :=
          (s.channel (s.pushbuffer x).channel).numReservedGpFifoEntries - 1
        numFreeGpFifoEntries := (s.channel (s.pushbuffer x).channel).numFreeGpFifoEntries + 1 } := by
  unfold cancelPushbuffer putChannel putRingbuffer freePushbufferStructure
  dsimp only [State.setChannel, setRingbuffer]
  rw [update_self, Function.update_idem]

theorem cancelPushbuffer_ringbuffer (r : ℕ) : (s.cancelPushbuffer x).ringbuffer r =
      if r = (s.pushbuffer x).ringbuffer then
        { s.ringbuffer r with pbList := (s.ringbuffer r).pbList.erase x }
      else s.ringbuffer r := by
  unfold cancelPushbuffer putChannel putRingbuffer freePushbufferStructure
  dsimp only [State.setChannel, setRingbuffer]
  split
  · next hr => rw [← hr, update_self]
  · next hr => exact update_of_ne hr _ _

theorem Inv.cancelPushbuffer (h : s.Inv) (hx : x ∈ s.obtained) : (s.cancelPushbuffer x).Inv := by
  let t := s.cancelPushbuffer x
  show t.Inv
  have ho := h.owned
  obtain ⟨hnotFree, hnotHeld, halone⟩ := h.alone hx
  have hxLive : s.Live x := .inl hx
  have hobt : ∀ y, y ∈ t.obtained ↔ y ≠ x ∧ y ∈ s.obtained :=
    fun y => ho.obtained_nodup.mem_erase_iff
  have hsubm : ∀ d, (t.channel d).pbSubmittedList = (s.channel d).pbSubmittedList := by
    intro d
    rw [cancelPushbuffer_channel]
    by_cases hd : d = (s.pushbuffer x).channel
    · rw [hd, update_self]
    · rw [update_of_ne hd]
  have hlive : ∀ y, t.Live y ↔ s.Live y ∧ y ≠ x := by
    intro y
    unfold Live
    simp only [hobt, hsubm]
    by_cases hy : y = x
    · subst hy
      simp [ho.not_submitted y hx]
    · simp [hy]
  have hspan : ∀ y, y ≠ x → t.span y = s.span y := by
    intro y hy
    unfold span
    simp only [hobt, ne_eq, hy, not_false_eq_true, true_and]
    rfl
  refine ⟨⟨ho.obtained_nodup.erase x, List.nodup_cons.mpr ⟨ho.not_free x hxLive, ho.free_nodup⟩,
    fun d => ?_, fun d y hy => ?_, fun y hy d => ?_, fun y hy hyf => ?_,
    fun y hy => ho.live_lt y ((hlive y).mp hy).1, fun y hy => ?_,
    fun y hy => ho.unsubmitted y ((hobt y).mp hy).2,
    fun y hy => ho.fits y ((hobt y).mp hy).2, fun d y hy => ?_⟩,
    fun d => ?_, fun r => ?_, fun y hy => ?_, ?_⟩
  · rw [hsubm]
    exact ho.submitted_nodup d
  · rw [hsubm] at hy
    exact ho.submitted_channel d y hy
  · rw [hsubm]
    exact ho.not_submitted y ((hobt y).mp hy).2 d
  · obtain ⟨hyLive, hyx⟩ := (hlive y).mp hy
    rcases List.mem_cons.mp hyf with rfl | hyf
    · exact hyx rfl
    · exact ho.not_free y hyLive hyf
  · rcases List.mem_cons.mp hy with rfl | hy
    · exact ho.live_lt y hxLive
    · exact ho.free_lt y hy
  · rw [hsubm] at hy
    exact ho.written d y hy
  · obtain ⟨n, hn⟩ := h.channels d
    have hcnt := countP_erase_obtained (fun y => (s.pushbuffer y).channel = d) hx
    by_cases hd : d = (s.pushbuffer x).channel
    · subst hd
      rw [if_pos rfl] at hcnt
      have hresvd := hn.reserved
      refine ⟨n, hn.counters (by rw [cancelPushbuffer_channel, update_self])
        (fun _ _ => ⟨rfl, rfl⟩) (by omega) ?_⟩
      change (s.obtained.erase x).countP (fun y => (s.pushbuffer y).channel = _) = _
      omega
    · rw [if_neg (Ne.symm hd), Nat.add_zero] at hcnt
      refine ⟨n, hn.congr ?_ (fun _ _ => ⟨rfl, rfl⟩) hcnt.symm⟩
      rw [cancelPushbuffer_channel, update_of_ne hd]
  · have hr := h.rings r
    by_cases hrx : r = (s.pushbuffer x).ringbuffer
    · have hring : t.ringbuffer r = { s.ringbuffer r with
          pbList := (s.ringbuffer r).pbList.erase x } := by
        rw [cancelPushbuffer_ringbuffer, if_pos hrx]
      have hmem : ∀ y ∈ (s.ringbuffer r).pbList.erase x, y ≠ x ∧ y ∈ (s.ringbuffer r).pbList :=
        fun y hy => hr.nodup.mem_erase_iff.mp hy
      have hmemory : t.memory r = s.memory r := by
        unfold memory
        rw [hring]
      have hmap : ((s.ringbuffer r).pbList.erase x).map t.span =
          ((s.ringbuffer r).pbList.erase x).map s.span :=
        List.map_congr_left fun y hy => hspan y (hmem y hy).1
      have hnone : ∀ y ∈ t.obtained, (s.pushbuffer y).ringbuffer ≠ r := by
        intro y hy hyr
        obtain ⟨hyx, hy⟩ := (hobt y).mp hy
        exact hyx (halone y hy (hyr.trans hrx))
      refine ⟨?_, ?_, ?_, ?_, ?_, ?_, fun y hy hyr => absurd hyr (hnone y hy), fun _ => hnone,
        fun j hj => absurd (hrx ▸ hj) (hnotHeld j)⟩
      all_goals rw [hring]
      · exact hr.cpuEnd
      · exact hr.cpuEnd_lt
      · exact hr.nodup.erase x
      · intro y hy
        obtain ⟨hyx, hy⟩ := hmem y hy
        exact ⟨(hlive y).mpr ⟨(hr.live y hy).1, hyx⟩, (hr.live y hy).2⟩
      · intro y hy
        obtain ⟨hyx, hy⟩ := hmem y hy
        rw [hspan y hyx, hmemory]
        exact hr.inside y hy
      · dsimp only
        rw [hmap]
        exact hr.wound.sublist (List.erase_sublist.map s.span)
    · have hne : ∀ y ∈ (s.ringbuffer r).pbList, y ≠ x := by
        rintro y hy rfl
        exact hrx (hr.live y hy).2.symm
      refine hr.congr ?_ (fun y hy => ⟨(hlive y).mpr ⟨(hr.live y hy).1, hne y hy⟩, (hr.live y hy).2⟩)
        (fun y hy => hspan y (hne y hy)) (fun y hy hyr => ⟨((hobt y).mp hy).2, hyr⟩)
        (fun hmem => ?_) fun _ => id
      · rw [cancelPushbuffer_ringbuffer, if_neg hrx]
      · exact (List.mem_append.mp hmem).resolve_right fun hmem => hrx (List.mem_singleton.mp hmem)
  · obtain ⟨hyLive, hyx⟩ := (hlive y).mp hy
    have hmem := h.listed y hyLive
    have hring : t.pushbuffer y = s.pushbuffer y := rfl
    rw [hring, cancelPushbuffer_ringbuffer]
    split
    · exact (List.mem_erase_of_ne hyx).mpr hmem
    · exact hmem
  · exact List.nodup_append'.mpr ⟨h.freeRings, List.nodup_singleton _,
      fun q hq hq' => hnotFree (List.mem_singleton.mp hq' ▸ hq)⟩

/-! ## The lock sections -/

/-- A thread that holds a ring buffer gives it up again, and with it a free GPFIFO entry of the
channel it has found. -/
def loseEntry (s : State) (i r c : ℕ) (channelList : List ℕ) : State :=
  { s.setChannel c { s.channel c with
      numFreeGpFifoEntries := (s.channel c).numFreeGpFifoEntries - 1 } with
    channelList := channelList
    ringbufferFreeList := s.ringbufferFreeList ++ [r]
    waiting := update s.waiting i none }

def reserveEntry (s : State) (c : ℕ) : State :=
  { s.setChannel c { s.channel c with
      numFreeGpFifoEntries := (s.channel c).numFreeGpFifoEntries - 1
      numReservedGpFifoEntries := (s.channel c).numReservedGpFifoEntries + 1 } with
    channelList := s.channelList.erase c ++ [c] }

theorem getChannel_some (hget : s.getChannel = some (c, s')) :
    c ∈ s.channelList ∧ (s.channel c).numFreeGpFifoEntries ≠ 0 ∧ s' = s.reserveEntry c := by
  unfold getChannel at hget
  split at hget
  · cases hget
  · next d hfind =>
    obtain ⟨rfl, rfl⟩ := hget
    exact ⟨List.mem_of_find?_eq_some hfind, by simpa using List.find?_some hfind, rfl⟩

theorem putChannel_reserveEntry : ((s.reserveEntry c).putChannel c).channel = update s.channel c
      { s.channel c with
        numFreeGpFifoEntries := (s.channel c).numFreeGpFifoEntries - 1 } := by
  unfold putChannel reserveEntry
  dsimp only [State.setChannel]
  rw [update_self, Function.update_idem]
  rfl

/-- How a lock section of a thread that holds a ring buffer ends. -/
inductive LookEnds (s : State) (i r : ℕ) (allocOk : Bool) : State → Prop where
  | wait (h : s.getChannel = none) : LookEnds s i r allocOk s.updateAllProgress.reclaim
  | obtained (c x : ℕ) (channelList pbFreeList : List ℕ) (allocated : ℕ)
      (hc : (s.channel c).numFreeGpFifoEntries ≠ 0) (hx : s.Takes x pbFreeList allocated)
      (halloc : s.pbFreeList ≠ [] ∨ allocOk = true) :
      LookEnds s i r allocOk (s.obtainPushbuffer i r c x channelList pbFreeList allocated)
  | failed (c : ℕ) (channelList : List ℕ) (hmem : c ∈ s.channelList)
      (hc : (s.channel c).numFreeGpFifoEntries ≠ 0) (hfree : s.pbFreeList = [])
      (halloc : allocOk = false) : LookEnds s i r allocOk (s.loseEntry i r c channelList)

theorem Inv.lookForChannel_ends (h : s.Inv) (allocOk : Bool) :
    s.LookEnds i r allocOk (s.lookForChannel i r allocOk) := by
  unfold lookForChannel
  cases hget : s.getChannel with
  | none => exact .wait hget
  | some p =>
    obtain ⟨c, s₁⟩ := p
    obtain ⟨hmem, hc, rfl⟩ := getChannel_some hget
    dsimp only
    cases halloc : State.allocPushbufferStructure (s.reserveEntry c) allocOk with
    | none =>
      obtain ⟨hfree, hok⟩ := allocPushbufferStructure_none halloc
      have heq : (((s.reserveEntry c).putChannel c).putRingbuffer r).setWaiting i none =
          s.loseEntry i r c (c :: (s.channelList.erase c ++ [c]).erase c) := by
        have hchan := putChannel_reserveEntry (s := s) (c := c)
        unfold loseEntry State.setChannel
        rw [← hchan]
        rfl
      rw [heq]
      exact .failed c _ hmem hc hfree hok
    | some q =>
      obtain ⟨x, s₂⟩ := q
      have hsame : (s.reserveEntry c).pbFreeList = s.pbFreeList := rfl
      have hsame' : (s.reserveEntry c).allocated = s.allocated := rfl
      obtain ⟨pbFreeList, allocated, hx, rfl⟩ := h.allocPushbufferStructure hsame hsame' halloc
      refine .obtained c x (s.channelList.erase c ++ [c]) pbFreeList allocated hc hx ?_
      by_contra hnone
      rw [not_or, not_not, Bool.not_eq_true] at hnone
      have hfree : (s.reserveEntry c).pbFreeList = [] := hnone.1
      rw [State.allocPushbufferStructure, hfree, hnone.2] at halloc
      cases halloc

theorem Inv.loseEntry (h : s.Inv) (hi : s.waiting i = some r) (channelList : List ℕ) :
    (s.loseEntry i r c channelList).Inv := by
  obtain ⟨n, hn⟩ := h.channels c
  have hroom := hn.room
  have hchan : (s.setChannel c { s.channel c with
      numFreeGpFifoEntries := (s.channel c).numFreeGpFifoEntries - 1 }).Inv := by
    exact h.setChannel rfl ⟨n, hn.counters setChannel_self (fun _ _ => ⟨rfl, rfl⟩) (by omega)
      hn.reserved.symm⟩
  exact hchan.releaseRingbuffer hi channelList

theorem Inv.lookForChannel (h : s.Inv) (hi : s.waiting i = some r) :
    (s.lookForChannel i r allocOk).Inv := by
  have hends := h.lookForChannel_ends (i := i) (r := r) allocOk
  revert hends
  generalize s.lookForChannel i r allocOk = s'
  rintro (hwait | ⟨c, x, channelList, pbFreeList, allocated, hc, hx, -⟩ | ⟨c, channelList, -, -, -, -⟩)
  · exact h.updateAllProgress.reclaim.1
  · exact h.obtainPushbuffer hi hc hx
  · exact h.loseEntry hi channelList

/-- The state in which a thread looks for a channel: it has got a ring buffer in this lock section or
in an earlier one. -/
def Looks (s : State) (i r : ℕ) (s₁ : State) : Prop :=
  (s.waiting i = some r ∧ s₁ = s) ∨
    (s.waiting i = none ∧ ∃ addr, r ∈ s.ringbufferFreeList ∧
      s.findMemoryInRingbuffer r = some addr ∧ s₁ = s.takeRingbuffer i r addr)

theorem Looks.inv {s₁ : State} (hlooks : s.Looks i r s₁) (h : s.Inv) :
    s₁.Inv ∧ s₁.waiting i = some r := by
  rcases hlooks with ⟨hi, rfl⟩ | ⟨hi, addr, hr, hfind, rfl⟩
  · exact ⟨h, hi⟩
  · exact ⟨h.takeRingbuffer hr hi hfind, update_self _ _ _⟩

theorem getPushbuffer_cases (allocOk : Bool) : (s.waiting i = none ∧ s.getRingbuffer = none ∧
        s.getPushbuffer i allocOk = s.updateAllProgress.reclaim) ∨
      ∃ r s₁, s.Looks i r s₁ ∧ s.getPushbuffer i allocOk = s₁.lookForChannel i r allocOk := by
  unfold getPushbuffer
  cases hi : s.waiting i with
  | some r => exact .inr ⟨r, s, .inl ⟨hi, rfl⟩, rfl⟩
  | none =>
    cases hget : s.getRingbuffer with
    | none => exact .inl ⟨rfl, rfl, rfl⟩
    | some p =>
      obtain ⟨r, s₁⟩ := p
      obtain ⟨hr, addr, hfind, rfl⟩ := getRingbuffer_some hget
      exact .inr ⟨r, s.takeRingbuffer i r addr, .inr ⟨hi, addr, hr, hfind, rfl⟩, rfl⟩

theorem Inv.getPushbuffer (h : s.Inv) : (s.getPushbuffer i allocOk).Inv := by
  rcases getPushbuffer_cases (s := s) (i := i) allocOk with
    ⟨-, -, heq⟩ | ⟨r, s₁, hlooks, heq⟩
  · rw [heq]
    exact h.updateAllProgress.reclaim.1
  · obtain ⟨hinv, hi⟩ := hlooks.inv h
    rw [heq]
    exact hinv.lookForChannel hi

theorem Inv.step (h : s.Inv) (op : Op) : (LiteChannel.step s op).Inv := by
  cases op with
  | getPushbuffer i allocOk => exact h.getPushbuffer
  | write x bytes =>
    unfold LiteChannel.step
    dsimp only
    split
    · next hw => exact h.write hw.1 hw.2
    · exact h
  | submitPushbuffer x bytes =>
    unfold LiteChannel.step
    dsimp only
    split
    · next hs => exact h.submitPushbuffer hs.1 hs.2.1 hs.2.2
    · exact h
  | cancelPushbuffer x =>
    unfold LiteChannel.step
    dsimp only
    split
    · next hx => exact h.cancelPushbuffer hx
    · exact h
  | updateProgress c => exact h.updateProgress c
  | complete c => exact h.complete c

end State

end NvUvm.LiteChannel
