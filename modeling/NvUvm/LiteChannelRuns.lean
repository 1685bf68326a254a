import Mathlib.Data.List.Pairwise
import Mathlib.Data.Nat.ModEq
import NvUvm.LiteChannelCalls

/-!
# Runs of the channel manager
-/

namespace NvUvm.LiteChannel

open Lib

namespace State

variable {s s' : State} {c i r x n : ℕ}

/-! ## The slots -/

/-- The slot lies inside its ring buffer and overlaps nothing that was written to another live
pushbuffer of it. -/
def SlotApart (s : State) (r : ℕ) (slot : Span) (x : Option ℕ) : Prop :=
  ((s.ringbuffer r).cpuBegin ≤ slot.start ∧ slot.stop ≤ (s.ringbuffer r).cpuEnd) ∧
    ∀ y, s.Live y → (s.pushbuffer y).ringbuffer = r → x ≠ some y →
      slot.Disjoint ⟨(s.pushbuffer y).cpuBegin, (s.pushbuffer y).curOffset⟩

/-- The slots of the pushbuffers in progress, and those that threads hold for the next ones. -/
structure SlotsApart (s : State) : Prop where
  obtained : ∀ x ∈ s.obtained, s.SlotApart (s.pushbuffer x).ringbuffer
    ⟨(s.pushbuffer x).cpuBegin, reservationSize⟩ (some x)
  held : ∀ i r, s.waiting i = some r → s.SlotApart r (s.slot r) none

theorem Inv.written_within (h : s.Inv) :
    Span.Within ⟨(s.pushbuffer x).cpuBegin, (s.pushbuffer x).curOffset⟩ (s.span x) := by
  unfold span
  split
  · next hx => exact Span.within_of_size_le (h.owned.fits x hx)
  · exact ⟨le_rfl, le_rfl⟩

theorem Inv.slotsApart (h : s.Inv) : s.SlotsApart where
  obtained x hx := by
    have hring := h.rings (s.pushbuffer x).ringbuffer
    have hmem := h.listed x (.inl hx)
    have hspan : s.span x = ⟨(s.pushbuffer x).cpuBegin, reservationSize⟩ := by
      unfold span
      rw [if_pos hx]
    have hinside := hring.inside x hmem
    rw [hspan] at hinside
    refine ⟨⟨hinside.1, by rw [hring.cpuEnd]; exact hinside.2⟩, fun y hy hyr hne => ?_⟩
    have hyx : x ≠ y := fun heq => hne (heq ▸ rfl)
    have hpairs := List.pairwise_map.mp hring.wound.pairwise_disjoint
    have hsymm : Std.Symm fun a b => (s.span a).Disjoint (s.span b) := ⟨fun _ _ h => h.symm⟩
    have hdisj : (s.span x).Disjoint (s.span y) :=
      hpairs.forall hmem (hyr ▸ h.listed y hy) hyx
    rw [← hspan]
    exact hdisj.mono ⟨le_rfl, le_rfl⟩ h.written_within
  held i r hi := by
    have hring := h.rings r
    obtain ⟨-, -, -, hwound, hwithin⟩ := hring.held i hi
    refine ⟨⟨hwithin.1, by rw [hring.cpuEnd]; exact hwithin.2⟩, fun y hy hyr _ => ?_⟩
    have hmem := h.listed y hy
    rw [hyr] at hmem
    have hpairs := (List.pairwise_append.mp hwound.pairwise_disjoint).2.2
    have hdisj := hpairs (s.span y) (List.mem_map_of_mem hmem) (s.slot r) (by simp)
    exact hdisj.symm.mono ⟨le_rfl, le_rfl⟩ h.written_within

/-- **The slot given to a pushbuffer** lies inside its ring buffer and overlaps nothing that was
written to another live pushbuffer of it, in every run. -/
theorem slots_apart (cfg : Config) (ops : List Op) : HoldsAlong step SlotsApart cfg.init ops :=
  fun pre _ => (run_inv step cfg.init_inv (fun _ op h => h.step op) pre).slotsApart

/-! ## The GPFIFO entries -/

/-- Every GPFIFO entry but the one that is kept free is accounted for. -/
def EntriesKept (s : State) : Prop :=
  ∀ c, s.total c = (s.channel c).numGpFifoEntries - 1

/-- The reserved entries are those of the pushbuffers in progress, and a submission never takes the
entry of a submitted pushbuffer as the next one. -/
def Accounts (s : State) : Prop :=
  ∀ c, (s.channel c).numReservedGpFifoEntries =
      (s.obtained.filter fun x => (s.pushbuffer x).channel = c).length ∧
    ∀ x ∈ s.obtained, (s.pushbuffer x).channel = c → ∀ y ∈ (s.channel c).pbSubmittedList,
      (s.pushbuffer y).gpFifoOffset ≠
        ((s.channel c).curGpFifoOffset + 1) % (s.channel c).numGpFifoEntries

/-- A thread that gets a ring buffer and a channel in this lock section fails to allocate a
pushbuffer structure. -/
def AllocFails (s : State) : Op → Prop
  | .getPushbuffer i allocOk =>
    allocOk = false ∧ s.pbFreeList = [] ∧
      (s.waiting i ≠ none ∨ ∃ r ∈ s.ringbufferFreeList, s.findMemoryInRingbuffer r ≠ none) ∧
      ∃ c ∈ s.channelList, (s.channel c).numFreeGpFifoEntries ≠ 0
  | _ => False

theorem Inv.accounts (h : s.Inv) : s.Accounts := by
  intro c
  obtain ⟨n, hn⟩ := h.channels c
  refine ⟨by rw [hn.reserved, List.countP_eq_length_filter], fun x hx hxc y hy => ?_⟩
  -- the submitted pushbuffers hold fewer entries than there are besides the current one
  have hresvd : 0 < (s.channel c).numReservedGpFifoEntries := by
    rw [hn.reserved, List.countP_pos_iff]
    exact ⟨x, hx, by simpa using hxc⟩
  have hroom := hn.room
  have hpend := hn.pending
  have hseq : (s.pushbuffer y).seqNum ∈
      List.range' (n + 1) (s.channel c).pbSubmittedList.length := by
    rw [← hn.seqNums]
    exact List.mem_map_of_mem hy
  rw [List.mem_range'_1] at hseq
  rw [hn.offsets y hy, hn.offset, Nat.mod_add_mod]
  intro heq
  -- two numbers less than a turn apart have different remainders
  have hdvd := (Nat.modEq_iff_dvd' (by omega)).mp heq
  have hle := Nat.le_of_dvd (by omega) hdvd
  omega

theorem sameTotals_of_channel (hchan : s'.channel = s.channel) : SameTotals s s' := by
  constructor
  all_goals
    intro d
    try unfold total
    rw [hchan]

theorem Looks.channel {s₁ : State} (h : s.Looks i r s₁) :
    s₁.channel = s.channel ∧ s₁.channelList = s.channelList ∧ s₁.pbFreeList = s.pbFreeList := by
  rcases h with ⟨-, rfl⟩ | ⟨-, -, -, -, rfl⟩
  · exact ⟨rfl, rfl, rfl⟩
  · exact ⟨rfl, rfl, rfl⟩

theorem Inv.step_sameTotals (h : s.Inv) {op : Op} (hop : ¬ s.AllocFails op) :
    SameTotals s (LiteChannel.step s op) := by
  have hreclaim : SameTotals s s.updateAllProgress.reclaim :=
    sameTotals_updateAllProgress.trans h.updateAllProgress.reclaim.2
  have hresvd : ∀ x ∈ s.obtained, 0 <
      (s.channel (s.pushbuffer x).channel).numReservedGpFifoEntries := by
    intro x hx
    obtain ⟨n, hn⟩ := h.channels (s.pushbuffer x).channel
    rw [hn.reserved, List.countP_pos_iff]
    exact ⟨x, hx, by simp⟩
  cases op with
  | getPushbuffer i allocOk =>
    change SameTotals s (s.getPushbuffer i allocOk)
    rcases getPushbuffer_cases (s := s) (i := i) allocOk with
      ⟨-, -, heq⟩ | ⟨r, s₁, hlooks, heq⟩
    · rw [heq]
      exact hreclaim
    · obtain ⟨hinv, -⟩ := hlooks.inv h
      obtain ⟨hchan, hlist, hfreeList⟩ := hlooks.channel
      have hsame : SameTotals s s₁ := sameTotals_of_channel hchan
      have hends := hinv.lookForChannel_ends (i := i) (r := r) allocOk
      rw [heq]
      revert hends
      generalize s₁.lookForChannel i r allocOk = s₂
      rintro (hwait | ⟨c, x, channelList, pbFreeList, allocated, hc, hx, -⟩ |
        ⟨c, channelList, hmem, hc, hfree, hok⟩)
      · exact hsame.trans (sameTotals_updateAllProgress.trans hinv.updateAllProgress.reclaim.2)
      · refine hsame.trans (.of_update rfl rfl ?_)
        unfold total
        dsimp only
        omega
      · -- this is the case that is ruled out
        refine absurd ⟨hok, hfreeList ▸ hfree, ?_, c, hlist ▸ hmem, hchan ▸ hc⟩ hop
        rcases hlooks with ⟨hi, -⟩ | ⟨-, addr, hr, hfind, -⟩
        · exact .inl (by rw [hi]; simp)
        · exact .inr ⟨r, hr, by rw [hfind]; simp⟩
  | write x bytes =>
    unfold LiteChannel.step
    dsimp only
    split
    · exact sameTotals_of_channel rfl
    · exact .refl s
  | submitPushbuffer x bytes =>
    unfold LiteChannel.step
    dsimp only
    split
    · next hs =>
      refine .of_update submitPushbuffer_channel rfl ?_
      have hpos := hresvd x hs.1
      unfold total submitted
      dsimp only
      rw [List.length_append, List.length_singleton]
      omega
    · exact .refl s
  | cancelPushbuffer x =>
    unfold LiteChannel.step
    dsimp only
    split
    · next hx =>
      refine .of_update cancelPushbuffer_channel rfl ?_
      have hpos := hresvd x hx
      unfold total
      dsimp only
      omega
    · exact .refl s
  | updateProgress c => exact sameTotals_updateProgress c
  | complete c =>
    change SameTotals s (s.complete c)
    unfold State.complete
    split
    · exact .of_update rfl rfl rfl
    · exact .refl s

theorem getRingbuffer_none (hget : s.getRingbuffer = none) :
    ∀ r ∈ s.ringbufferFreeList, s.findMemoryInRingbuffer r = none := by
  have hwalk : ∀ l, s.getRingbufferWalk l = none → ∀ r ∈ l, s.findMemoryInRingbuffer r = none := by
    intro l
    induction l with
    | nil => exact fun _ r hr => absurd hr List.not_mem_nil
    | cons q rest ih =>
      intro hwalk r hr
      unfold getRingbufferWalk at hwalk
      split at hwalk
      · cases hwalk
      · next hq =>
        rcases List.mem_cons.mp hr with rfl | hr
        · exact hq
        · exact ih hwalk r hr
  exact hwalk _ hget

theorem getChannel_none (hget : s.getChannel = none) :
    ∀ c ∈ s.channelList, (s.channel c).numFreeGpFifoEntries = 0 := by
  intro c hc
  unfold getChannel at hget
  split at hget
  · next hfind => simpa using List.find?_eq_none.mp hfind c hc
  · cases hget

theorem Inv.step_loses (h : s.Inv) {op : Op} (hop : s.AllocFails op) :
    ∃ c, 0 < s.total c ∧ (LiteChannel.step s op).total c + 1 = s.total c ∧
      ((LiteChannel.step s op).channel c).numGpFifoEntries = (s.channel c).numGpFifoEntries := by
  cases op with
  | getPushbuffer i allocOk =>
    obtain ⟨rfl, hfree, hring, d, hd, hdFree⟩ := hop
    change ∃ c, 0 < s.total c ∧ (s.getPushbuffer i false).total c + 1 = s.total c ∧
      ((s.getPushbuffer i false).channel c).numGpFifoEntries = (s.channel c).numGpFifoEntries
    rcases getPushbuffer_cases (s := s) (i := i) false with
      ⟨hi, hget, -⟩ | ⟨r, s₁, hlooks, heq⟩
    · rcases hring with hi' | ⟨r, hr, hfind⟩
      · exact absurd hi hi'
      · exact absurd (getRingbuffer_none hget r hr) hfind
    · obtain ⟨hinv, -⟩ := hlooks.inv h
      obtain ⟨hchan, hlist, hfreeList⟩ := hlooks.channel
      have hends := hinv.lookForChannel_ends (i := i) (r := r) false
      rw [heq]
      revert hends
      generalize s₁.lookForChannel i r false = s₂
      rintro (hwait | ⟨c, x, channelList, pbFreeList, allocated, hc, hx, halloc⟩ |
        ⟨c, channelList, hmem, hc, hfree, hok⟩)
      · have hzero := getChannel_none hwait d (hlist ▸ hd)
        rw [hchan] at hzero
        exact absurd hzero hdFree
      · rw [hfreeList] at halloc
        simp [hfree] at halloc
      · have hlost : (s₁.loseEntry i r c channelList).channel c = { s₁.channel c with
            numFreeGpFifoEntries := (s₁.channel c).numFreeGpFifoEntries - 1 } :=
          Function.update_self _ _ _
        rw [hchan] at hc hlost
        refine ⟨c, ?_, ?_, ?_⟩
        · unfold total
          omega
        · unfold total
          rw [hlost]
          dsimp only
          omega
        · rw [hlost]
  | _ => exact hop.elim

/-- **In every run** the reserved entries are those of the pushbuffers in progress and no submission
takes the entry of a submitted pushbuffer as the next one; and the entries of every channel stay
accounted for exactly when no `uvm_get_pushbuffer` that has found a channel fails to allocate its
structure. -/
theorem entries_kept_iff (cfg : Config) (ops : List Op) : HoldsAlong step Accounts cfg.init ops ∧
      (HoldsAlong step EntriesKept cfg.init ops ↔
        StepsMeet step (fun s op => ¬ s.AllocFails op) cfg.init ops) := by
  refine ⟨fun pre _ => (run_inv step cfg.init_inv (fun _ op h => h.step op) pre).accounts, ?_⟩
  refine holds_along_iff step cfg.init_inv (fun c => ?_) (fun _ op h => h.step op) ?_ ops
  · unfold total
    simp [Config.init]
  · intro s op hinv hkept
    constructor
    · intro hafter hfails
      obtain ⟨c, hpos, hlost, hents⟩ := hinv.step_loses hfails
      have hbefore := hkept c
      have hnow := hafter c
      omega
    · intro hop c
      have hsame := hinv.step_sameTotals hop
      rw [hsame.total, hsame.entries]
      exact hkept c

/-! ## What reclaim frees -/

/-- The calls of `_reclaim_pushbuffers` that `uvm_channel_manager_reclaim` makes, each with the
state it is made in. -/
def reclaimCalls : List ℕ → State → List (State × ℕ)
  | [], _ => []
  | r :: rest, s =>
    (match (s.ringbuffer r).pbList with
      | [] => []
      | x :: _ =>
        let c := (s.pushbuffer x).channel
        let q := s.querySeqDone c (s.pushbuffer x).seqNum
        if q.1 then [(q.2, c)] else []) ++ reclaimCalls rest (s.reclaimRingbuffer r)

/-- The calls of `_reclaim_pushbuffers` in a lock section whose thread holds a ring buffer. -/
def lookForChannelReclaims (s : State) : List (State × ℕ) :=
  match s.getChannel with
  | none => reclaimCalls s.ringbufferList s.updateAllProgress
  | some _ => []

/-- The calls of `_reclaim_pushbuffers` in a step. -/
def reclaimsOf (s : State) : Op → List (State × ℕ)
  | .getPushbuffer i _ =>
    match s.waiting i with
    | some _ => s.lookForChannelReclaims
    | none =>
      match s.getRingbuffer with
      | none => reclaimCalls s.ringbufferList s.updateAllProgress
      | some (r, s) => (s.setWaiting i (some r)).lookForChannelReclaims
  | _ => []

/-- `uvm_update_channel_progress` returns the true number of completed pushbuffers. -/
def ProgressRight (s : State) : Prop :=
  ∀ c, ((s.updateProgress c).channel c).seqNumDone = (s.channel c).completed

/-- `_reclaim_pushbuffers` frees every submitted pushbuffer of the channel up to the number of
completed ones, and no other. -/
def ReclaimRight (s : State) (c : ℕ) : Prop :=
  (∀ d x, x ∈ ((s.reclaimPushbuffers c).channel d).pbSubmittedList ↔
      x ∈ (s.channel d).pbSubmittedList ∧
        ¬ (d = c ∧ (s.pushbuffer x).seqNum ≤ (s.channel c).completed)) ∧
    ∀ x, x ∈ (s.reclaimPushbuffers c).pbFreeList ↔ x ∈ s.pbFreeList ∨
      (x ∈ (s.channel c).pbSubmittedList ∧ (s.pushbuffer x).seqNum ≤ (s.channel c).completed)

/-- The number of completed pushbuffers fits in 32 bits, or no submitted pushbuffer is completed. -/
def CountFits (s : State) (c : ℕ) : Prop :=
  (s.channel c).completed < 2 ^ 32 ∨
    ∀ x ∈ (s.channel c).pbSubmittedList, (s.channel c).completed < (s.pushbuffer x).seqNum

private theorem mem_dropWhile_iff {l : List ℕ} {f : ℕ → ℕ} {v : ℕ}
    (h : l.Pairwise fun a b => f a < f b) :
    (x ∈ l.dropWhile fun a => decide (f a ≤ v)) ↔ x ∈ l ∧ v < f x := by
  induction l with
  | nil => simp
  | cons a l ih =>
    obtain ⟨ha, hl⟩ := List.pairwise_cons.mp h
    by_cases hle : f a ≤ v
    · rw [List.dropWhile_cons_of_pos (by simpa using hle), ih hl, List.mem_cons]
      constructor
      · exact fun hx => ⟨.inr hx.1, hx.2⟩
      · rintro ⟨rfl | hx, hv⟩
        · exact absurd hle (Nat.not_le.mpr hv)
        · exact ⟨hx, hv⟩
    · rw [List.dropWhile_cons_of_neg (by simpa using hle)]
      refine ⟨fun hx => ⟨hx, ?_⟩, fun hx => hx.1⟩
      rcases List.mem_cons.mp hx with rfl | hx
      · exact Nat.not_le.mp hle
      · exact lt_trans (Nat.not_le.mp hle) (ha x hx)

private theorem mem_takeWhile_iff {l : List ℕ} {f : ℕ → ℕ} {v : ℕ}
    (h : l.Pairwise fun a b => f a < f b) :
    (x ∈ l.takeWhile fun a => decide (f a ≤ v)) ↔ x ∈ l ∧ f x ≤ v := by
  induction l with
  | nil => simp
  | cons a l ih =>
    obtain ⟨ha, hl⟩ := List.pairwise_cons.mp h
    by_cases hle : f a ≤ v
    · rw [List.takeWhile_cons_of_pos (by simpa using hle), List.mem_cons, ih hl, List.mem_cons]
      constructor
      · rintro (rfl | hx)
        · exact ⟨.inl rfl, hle⟩
        · exact ⟨.inr hx.1, hx.2⟩
      · rintro ⟨rfl | hx, hv⟩
        · exact .inl rfl
        · exact .inr ⟨hx, hv⟩
    · rw [List.takeWhile_cons_of_neg (by simpa using hle)]
      simp only [List.not_mem_nil, false_iff, not_and]
      intro hx hv
      rcases List.mem_cons.mp hx with rfl | hx
      · exact hle hv
      · exact hle (le_of_lt (lt_of_lt_of_le (ha x hx) hv))

theorem ChannelInv.increasing (h : s.ChannelInv c n) :
    (s.channel c).pbSubmittedList.Pairwise fun x y =>
      (s.pushbuffer x).seqNum < (s.pushbuffer y).seqNum := by
  have hpairs : (List.range' (n + 1) (s.channel c).pbSubmittedList.length).Pairwise (· < ·) :=
    List.pairwise_lt_range'
  rw [← h.seqNums] at hpairs
  exact List.pairwise_map.mp hpairs

theorem Inv.reclaimRight_iff (h : s.Inv) (c : ℕ) : s.ReclaimRight c ↔ s.CountFits c := by
  obtain ⟨n, hn⟩ := h.channels c
  have hreclaimed := h.reclaimPushbuffers c
  have hdrop : ∀ x, x ∈ ((s.reclaimPushbuffers c).channel c).pbSubmittedList ↔
      x ∈ (s.channel c).pbSubmittedList ∧
        (s.channel c).completed % 2 ^ 32 < (s.pushbuffer x).seqNum := by
    intro x
    rw [hreclaimed.submitted]
    exact mem_dropWhile_iff hn.increasing
  have htake : ∀ x, x ∈ (s.reclaimPushbuffers c).pbFreeList ↔ x ∈ s.pbFreeList ∨
      (x ∈ (s.channel c).pbSubmittedList ∧
        (s.pushbuffer x).seqNum ≤ (s.channel c).completed % 2 ^ 32) := by
    intro x
    rw [hreclaimed.free, List.mem_append, List.mem_reverse, or_comm]
    exact or_congr_right (mem_takeWhile_iff hn.increasing)
  -- every submitted pushbuffer comes after the reclaimed ones
  have hafter : ∀ x ∈ (s.channel c).pbSubmittedList, n < (s.pushbuffer x).seqNum := by
    intro x hx
    have hmem : (s.pushbuffer x).seqNum ∈
        List.range' (n + 1) (s.channel c).pbSubmittedList.length := by
      rw [← hn.seqNums]
      exact List.mem_map_of_mem hx
    rw [List.mem_range'_1] at hmem
    omega
  have hpend := hn.pending
  have hroom := hn.room
  have hents := hn.entries_lt
  have hcompl := hn.completed_le
  constructor
  · rintro ⟨hsubm, -⟩
    by_contra hnot
    unfold CountFits at hnot
    rw [not_or, not_forall] at hnot
    obtain ⟨hbig, x, hx⟩ := hnot
    obtain ⟨hx, hle⟩ := Classical.not_imp.mp hx
    have hgone : x ∉ ((s.reclaimPushbuffers c).channel c).pbSubmittedList := by
      rw [hsubm]
      exact fun hx' => hx'.2 ⟨rfl, Nat.not_lt.mp hle⟩
    have hkept := mt (hdrop x).mpr hgone
    have hlt := hafter x hx
    simp only [hx, true_and] at hkept
    omega
  · intro hfits
    -- the cut at 32 bits changes no comparison
    have hcut : ∀ x ∈ (s.channel c).pbSubmittedList,
        ((s.pushbuffer x).seqNum ≤ (s.channel c).completed % 2 ^ 32 ↔
          (s.pushbuffer x).seqNum ≤ (s.channel c).completed) := by
      intro x hx
      rcases hfits with hlt | hnone
      · rw [Nat.mod_eq_of_lt hlt]
      · have hx := hnone x hx
        omega
    refine ⟨fun d x => ?_, fun x => ?_⟩
    · by_cases hd : d = c
      · subst hd
        rw [hdrop, ← Nat.not_le]
        simp only [true_and]
        exact and_congr_right fun hx => not_congr (hcut x hx)
      · rw [hreclaimed.others d hd]
        simp [hd]
    · rw [htake]
      exact or_congr_right (and_congr_right fun hx => hcut x hx)

theorem Inv.reclaimCalls (h : s.Inv) (l : List ℕ) : ∀ p ∈ reclaimCalls l s, p.1.Inv := by
  induction l generalizing s with
  | nil => exact fun p hp => absurd hp List.not_mem_nil
  | cons r rest ih =>
    intro p hp
    rcases List.mem_append.mp hp with hp | hp
    · split at hp
      · exact absurd hp List.not_mem_nil
      · dsimp only at hp
        split at hp
        · rw [List.mem_singleton.mp hp]
          exact h.querySeqDone _ _
        · exact absurd hp List.not_mem_nil
    · exact ih (h.reclaimRingbuffer r).1 p hp

theorem Inv.lookForChannelReclaims (h : s.Inv) : ∀ p ∈ s.lookForChannelReclaims, p.1.Inv := by
  unfold State.lookForChannelReclaims
  split
  · exact h.updateAllProgress.reclaimCalls _
  · exact fun p hp => absurd hp List.not_mem_nil

theorem Inv.reclaimsOf (h : s.Inv) (op : Op) : ∀ p ∈ s.reclaimsOf op, p.1.Inv := by
  cases op with
  | getPushbuffer i allocOk =>
    unfold State.reclaimsOf
    dsimp only
    cases hi : s.waiting i with
    | some r => exact h.lookForChannelReclaims
    | none =>
      cases hget : s.getRingbuffer with
      | none => exact h.updateAllProgress.reclaimCalls _
      | some p =>
        obtain ⟨r, s₁⟩ := p
        obtain ⟨hr, addr, hfind, rfl⟩ := getRingbuffer_some hget
        exact (h.takeRingbuffer hr hi hfind).lookForChannelReclaims
  | _ => exact fun p hp => absurd hp List.not_mem_nil

/-- **In every run** `uvm_update_channel_progress` returns the true number of completed pushbuffers,
and the calls of `_reclaim_pushbuffers` free what is completed exactly when this number fits in 32
bits or nothing is to be freed. -/
theorem reclaim_right_iff (cfg : Config) (ops : List Op) :
    HoldsAlong step ProgressRight cfg.init ops ∧
      (StepsMeet step (fun s op => ∀ p ∈ s.reclaimsOf op, p.1.ReclaimRight p.2) cfg.init ops ↔
        StepsMeet step (fun s op => ∀ p ∈ s.reclaimsOf op, p.1.CountFits p.2) cfg.init ops) := by
  have hinv : ∀ pre, (run step cfg.init pre).Inv :=
    run_inv step cfg.init_inv fun _ op h => h.step op
  have hcall : ∀ pre op, ∀ p ∈ (run step cfg.init pre).reclaimsOf op,
      (p.1.ReclaimRight p.2 ↔ p.1.CountFits p.2) :=
    fun pre op p hp => ((hinv pre).reclaimsOf op p hp).reclaimRight_iff p.2
  refine ⟨fun pre _ c => ?_, fun h pre op hpre p hp => ?_, fun h pre op hpre p hp => ?_⟩
  · obtain ⟨n, hn⟩ := (hinv pre).channels c
    rw [hn.updateProgress_state, setChannel_self]
  · exact (hcall pre op p hp).mp (h pre op hpre p hp)
  · exact (hcall pre op p hp).mpr (h pre op hpre p hp)

/-! ## The submitted pushbuffers -/

/-- A channel's submitted pushbuffers have its last sequence numbers, in order, and a GPFIFO entry
each.  Every pushbuffer structure that was obtained is in one place. -/
structure InOrder (s : State) : Prop where
  seqNums : ∀ c, ∃ first, first + (s.channel c).pbSubmittedList.length =
      (s.channel c).seqNumPending + 1 ∧
    (s.channel c).pbSubmittedList.map (fun x => (s.pushbuffer x).seqNum) =
      List.range' first (s.channel c).pbSubmittedList.length
  entries : ∀ c, (s.channel c).pbSubmittedList.Pairwise fun x y =>
    (s.pushbuffer x).gpFifoOffset ≠ (s.pushbuffer y).gpFifoOffset
  inProgress : s.obtained.Nodup ∧ ∀ x ∈ s.obtained, x ∉ s.pbFreeList ∧
    ∀ c, x ∉ (s.channel c).pbSubmittedList
  submitted : ∀ c, (s.channel c).pbSubmittedList.Nodup ∧ ∀ x ∈ (s.channel c).pbSubmittedList,
    x ∉ s.pbFreeList ∧ ∀ d ≠ c, x ∉ (s.channel d).pbSubmittedList

theorem Inv.inOrder (h : s.Inv) : s.InOrder where
  seqNums := by
    intro c
    obtain ⟨n, hn⟩ := h.channels c
    exact ⟨n + 1, by rw [hn.pending]; omega, hn.seqNums⟩
  entries := by
    intro c
    obtain ⟨n, hn⟩ := h.channels c
    have hroom := hn.room
    have hpos := hn.entries_pos
    have hgrow := hn.increasing
    refine hgrow.imp_of_mem fun {x y} hx hy hlt heq => ?_
    rw [hn.offsets x hx, hn.offsets y hy] at heq
    have hmem : ∀ z ∈ (s.channel c).pbSubmittedList, n + 1 ≤ (s.pushbuffer z).seqNum ∧
        (s.pushbuffer z).seqNum < n + 1 + (s.channel c).pbSubmittedList.length := by
      intro z hz
      have hin := List.mem_map_of_mem (f := fun x => (s.pushbuffer x).seqNum) hz
      rwa [hn.seqNums, List.mem_range'_1] at hin
    have hxs := hmem x hx
    have hys := hmem y hy
    -- fewer numbers apart than the ring has entries
    have hsub := Nat.sub_mod_eq_zero_of_mod_eq heq.symm
    rw [Nat.mod_eq_of_lt (by omega)] at hsub
    omega
  inProgress := ⟨h.owned.obtained_nodup, fun x hx =>
    ⟨h.owned.not_free x (.inl hx), h.owned.not_submitted x hx⟩⟩
  submitted := fun c => ⟨h.owned.submitted_nodup c, fun x hx =>
    ⟨h.owned.not_free x (.inr ⟨c, hx⟩), fun d hd hx' => hd
      ((h.owned.submitted_channel d x hx').symm.trans (h.owned.submitted_channel c x hx))⟩⟩

/-- **The submitted pushbuffers** in every run of the threads and the GPU. -/
theorem inOrder_along (cfg : Config) (ops : List Op) : HoldsAlong step InOrder cfg.init ops :=
  fun pre _ => (run_inv step cfg.init_inv (fun _ op h => h.step op) pre).inOrder

end State

/-- One channel with two GPFIFO entries, and one ring buffer. -/
def Config.small : Config where
  channels := [0]
  channels_nodup := by decide
  numGpFifoEntries _ := 2
  entries_pos _ := by decide
  entries_lt _ := by decide
  ringbuffers := [0]
  ringbuffers_nodup := by decide
  cpuBegin _ := 0
  cpuEnd_lt _ := by decide

namespace State

/-- The first call fails to allocate its structure: the channel has no entry left, with no
pushbuffer in progress or submitted. -/
theorem entry_lost : ¬ HoldsAlong step EntriesKept Config.small.init [.getPushbuffer 0 false] := by
  intro h
  have hkept := h _ (List.prefix_refl _) 0
  revert hkept
  decide

variable {s : State} {k : ℕ}

/-! ## A channel that completes 2^32 pushbuffers -/

/-- A manager with one channel and one ring buffer, and what it holds. -/
structure Shows (s : State) (ch : Channel) (rb : Ringbuffer) (freeRings pbFreeList : List ℕ)
    (waiting : Option ℕ) (obtained : List ℕ) : Prop where
  channel : s.channel 0 = ch
  channelList : s.channelList = [0]
  ringbuffer : s.ringbuffer 0 = rb
  ringbufferList : s.ringbufferList = [0]
  freeRings : s.ringbufferFreeList = freeRings
  pbFreeList : s.pbFreeList = pbFreeList
  waiting : s.waiting 0 = waiting
  obtained : s.obtained = obtained

/-- `k` pushbuffers were submitted, completed and freed. -/
def Idle (s : State) (k : ℕ) : Prop :=
  ∃ g offset, s.Shows ⟨2, g, 0, 1, k, k, k, []⟩ ⟨0, ringbufferSize, offset, []⟩ [0] [0] none []

def Opened (s : State) (k : ℕ) : Prop :=
  ∃ g, s.Shows ⟨2, g, 1, 0, k, k, k, []⟩ ⟨0, ringbufferSize, 0, [0]⟩ [] [] none [0] ∧
    s.pushbuffer 0 = ⟨0, 0, 0, 0, 0, maxSeqNum⟩

/-- The next pushbuffer is submitted, and `completed` of them are completed. -/
def Pending (s : State) (k completed : ℕ) : Prop :=
  ∃ g, s.Shows ⟨2, g, 0, 0, k, k + 1, completed, [0]⟩ ⟨0, ringbufferSize, 0, [0]⟩ [0] [] none [] ∧
    ∃ g', s.pushbuffer 0 = ⟨0, 8, 0, 0, g', k + 1⟩

/-- The thread has found no free entry, and reclaim has made one. -/
def Waiting (s : State) (k : ℕ) : Prop :=
  ∃ g, s.Shows ⟨2, g, 0, 1, k, k, k, []⟩ ⟨0, ringbufferSize, 8, []⟩ [] [0] (some 0) []

def Reopened (s : State) (k : ℕ) : Prop :=
  ∃ g, s.Shows ⟨2, g, 1, 0, k, k, k, []⟩ ⟨0, ringbufferSize, 8, [0]⟩ [] [] none [0] ∧
    s.pushbuffer 0 = ⟨8, 0, 0, 0, 0, maxSeqNum⟩

theorem Shows.eq {ch : Channel} {rb : Ringbuffer} {freeRings pbFreeList obtained : List ℕ}
    {waiting : Option ℕ} (h : s.Shows ch rb freeRings pbFreeList waiting obtained) :
    s = { s with
      channelList := [0]
      ringbufferList := [0]
      ringbufferFreeList := freeRings
      pbFreeList
      obtained } := by
  obtain ⟨_, _, _, _, _, _, _, _, _, _⟩ := s
  obtain ⟨-, rfl, -, rfl, rfl, rfl, -, rfl⟩ := h
  rfl

theorem Idle.get (h : s.Idle k) : (step s (.getPushbuffer 0 true)).Opened k := by
  obtain ⟨g, offset, h⟩ := h
  refine ⟨g, ?_⟩
  rw [h.eq]
  simp [step, getPushbuffer, getRingbuffer, getRingbufferWalk, findMemoryInRingbuffer,
    lookForChannel, getChannel, allocPushbufferStructure, initPushbuffer, setWaiting, setChannel,
    setRingbuffer, setPushbuffer, sub64, h.channel, h.ringbuffer, h.waiting]
  constructor <;> simp

theorem Opened.submit (h : s.Opened k) (hk : k + 1 < 2 ^ 64) :
    (step s (.submitPushbuffer 0 8)).Pending k k := by
  obtain ⟨g, h, hpb⟩ := h
  have hmod : (k + 1) % 18446744073709551616 = k + 1 := Nat.mod_eq_of_lt (by omega)
  refine ⟨(g + 1) % 2, ?_⟩
  rw [h.eq]
  simp [step, Fits, reservationSize, submitPushbuffer, putRingbuffer, putChannel, setChannel,
    setPushbuffer, h.channel, hpb, hmod]
  constructor <;> simp [h.ringbuffer, h.waiting]

theorem Pending.complete (h : s.Pending k k) : (step s (.complete 0)).Pending k (k + 1) := by
  obtain ⟨g, h, hpb⟩ := h
  refine ⟨g, ?_⟩
  rw [h.eq]
  simp [step, State.complete, setChannel, h.channel, hpb]
  constructor <;> simp [h.ringbuffer, h.waiting]


theorem Pending.get (h : s.Pending k (k + 1)) (hk : k + 1 < 2 ^ 32) :
    (step s (.getPushbuffer 0 true)).Waiting (k + 1) := by
  obtain ⟨g, h, g', hpb⟩ := h
  have hupd : LiteChannel.updateProgress k (semaphore (k + 1)) = k + 1 :=
    updateProgress_eq (by omega) (by omega) (by omega)
  have hagain : LiteChannel.updateProgress (k + 1) (semaphore (k + 1)) = k + 1 :=
    updateProgress_eq (by omega) (by omega) (by omega)
  have hmod : (k + 1) % 4294967296 = k + 1 := Nat.mod_eq_of_lt (by omega)
  refine ⟨g, ?_⟩
  -- no entry is free: the walk over the ring buffers frees the pushbuffer, and with it an entry
  rw [h.eq]
  simp [step, getPushbuffer, getRingbuffer, getRingbufferWalk, findMemoryInRingbuffer,
    lookForChannel, getChannel, updateAllProgress, updateProgress, reclaim, reclaimRingbuffer,
    querySeqDone, LiteChannel.querySeqDone, reclaimPushbuffers, reclaimLoop,
    freeSubmittedPushbuffer, freePushbufferStructure, setWaiting, setChannel, setRingbuffer, sub64, h.channel, h.ringbuffer,
    h.waiting, hpb, reservationSize, ringbufferSize, hupd, hagain, hmod]
  constructor <;> simp

theorem Waiting.get (h : s.Waiting k) : (step s (.getPushbuffer 0 true)).Reopened k := by
  obtain ⟨g, h⟩ := h
  refine ⟨g, ?_⟩
  rw [h.eq]
  simp [step, getPushbuffer, lookForChannel, getChannel, allocPushbufferStructure, initPushbuffer,
    setWaiting, setChannel, setRingbuffer, setPushbuffer, h.channel, h.ringbuffer, h.waiting]
  constructor <;> simp

theorem Shows.cancel {g o : ℕ}
    (h : s.Shows ⟨2, g, 1, 0, k, k, k, []⟩ ⟨0, ringbufferSize, o, [0]⟩ [] [] none [0])
    (hpb : s.pushbuffer 0 = ⟨o, 0, 0, 0, 0, maxSeqNum⟩) :
    (step s (.cancelPushbuffer 0)).Idle k := by
  refine ⟨g, o, ?_⟩
  rw [h.eq]
  simp [step, cancelPushbuffer, freePushbufferStructure, putChannel, putRingbuffer, setChannel,
    setRingbuffer, h.channel, h.ringbuffer, hpb]
  constructor <;> simp [h.waiting]

theorem Reopened.cancel (h : s.Reopened k) : (step s (.cancelPushbuffer 0)).Idle k :=
  h.elim fun _ h => h.1.cancel h.2

theorem Opened.cancel (h : s.Opened k) : (step s (.cancelPushbuffer 0)).Idle k :=
  h.elim fun _ h => h.1.cancel h.2

/-- A pushbuffer is obtained and submitted, and the GPU completes it. -/
def submitOne : List Op := [.getPushbuffer 0 true, .submitPushbuffer 0 8, .complete 0]

/-- A pushbuffer goes through the channel and is reclaimed. -/
def cycle : List Op :=
  submitOne ++ [.getPushbuffer 0 true, .getPushbuffer 0 true, .cancelPushbuffer 0]

theorem Idle.submitOne (h : s.Idle k) (hk : k + 1 < 2 ^ 64) :
    (run step s submitOne).Pending k (k + 1) :=
  (h.get.submit hk).complete

theorem Idle.cycle (h : s.Idle k) (hk : k + 1 < 2 ^ 32) : (run step s cycle).Idle (k + 1) :=
  ((h.submitOne (by omega)).get hk).get.cancel

theorem Idle.cycles {n : ℕ} (h : s.Idle 0) (hn : n < 2 ^ 32) :
    (run step s (List.replicate n State.cycle).flatten).Idle n := by
  induction n with
  | zero => exact h
  | succ n ih =>
    rw [List.replicate_succ', List.flatten_append, List.flatten_singleton, run, List.foldl_append]
    exact (ih (by omega)).cycle hn

theorem small_idle :
    (run step Config.small.init [.getPushbuffer 0 true, .cancelPushbuffer 0]).Idle 0 := by
  have h : (step Config.small.init (.getPushbuffer 0 true)).Opened 0 :=
    ⟨0, by constructor <;> rfl, rfl⟩
  exact h.cancel

theorem late_reclaim (h : s.Pending (2 ^ 32 - 1) (2 ^ 32)) :
    ∃ p ∈ s.reclaimsOf (.getPushbuffer 0 true), ¬ p.1.CountFits p.2 := by
  obtain ⟨g, h, g', hpb⟩ := h
  rw [h.eq]
  simp [reclaimsOf, getRingbuffer, getRingbufferWalk, findMemoryInRingbuffer,
    lookForChannelReclaims, getChannel, reclaimCalls, updateAllProgress, updateProgress,
    querySeqDone, LiteChannel.querySeqDone, LiteChannel.updateProgress, semaphore,
    setWaiting, setChannel, setRingbuffer, sub64, h.channel, h.ringbuffer, h.waiting, hpb, reservationSize, ringbufferSize,
    CountFits]

/-- The run in which the count reaches 2^32 before the last pushbuffer is reclaimed. -/
def wrapOps : List Op :=
  [.getPushbuffer 0 true, .cancelPushbuffer 0] ++ (List.replicate (2 ^ 32 - 1) cycle).flatten ++
    State.submitOne ++ [.getPushbuffer 0 true]

/-- The count is cut to 0 when reclaim is called, and the completed pushbuffer is not freed. -/
theorem cut_reclaims_nothing :
    ¬ StepsMeet step (fun s op => ∀ p ∈ s.reclaimsOf op, p.1.ReclaimRight p.2) Config.small.init
      wrapOps := by
  intro h
  let pre : List Op := [.getPushbuffer 0 true, .cancelPushbuffer 0] ++
    (List.replicate (2 ^ 32 - 1) cycle).flatten ++ State.submitOne
  have hright := h pre (.getPushbuffer 0 true) (List.prefix_refl _)
  have hpend : (run step Config.small.init pre).Pending (2 ^ 32 - 1) (2 ^ 32) := by
    simp only [pre, run, List.foldl_append]
    exact (small_idle.cycles (by decide)).submitOne (by decide)
  have hinv : (run step Config.small.init pre).Inv :=
    run_inv step Config.small.init_inv (fun _ op h => h.step op) pre
  obtain ⟨p, hp, hbig⟩ := late_reclaim hpend
  exact hbig (((hinv.reclaimsOf _ p hp).reclaimRight_iff p.2).mp (hright p hp))

end State

end NvUvm.LiteChannel
