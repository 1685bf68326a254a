import Mathlib.Data.List.Nodup
import NvUvm.ChannelRanges
import NvUvm.Lib.Held

/-!
# The reference counts of channel ranges

A channel range is in the tree as long as something uses it, and its count is the number of uses
(`RefsRight`).  Who the users are does not matter here: a range made or attached to is one more use,
a range dropped one less.
-/

namespace NvUvm.ChannelLife

open Space
open Function (update update_of_ne update_self)

/-! ## What an operation on ranges leaves alone -/

/-- Only ranges, their counts and their lists change; the ranges there were keep the rest of what
they hold. -/
structure RangesOnly (s s' : Space) : Prop where
  channels : s'.channels = s.channels
  channelCount : s'.channelCount = s.channelCount
  gpuVaSpaceCount : s'.gpuVaSpaceCount = s.gpuVaSpaceCount
  registeredGpus : s'.registeredGpus = s.registeredGpus
  gpuRegisterInProgress : s'.gpuRegisterInProgress = s.gpuRegisterInProgress
  registeredGpuVaSpaces : s'.registeredGpuVaSpaces = s.registeredGpuVaSpaces
  userChannelsStopped : s'.userChannelsStopped = s.userChannelsStopped
  fatal : s'.fatal = s.fatal
  gpuVaSpaces : ∀ g, { s'.gpuVaSpaces g with localChannelRanges := [] } =
    { s.gpuVaSpaces g with localChannelRanges := [] }
  rangeCount : s.rangeCount ≤ s'.rangeCount
  ranges : ∀ r, r < s.rangeCount →
    { s'.ranges r with refCount := 0 } = { s.ranges r with refCount := 0 }
  unmapped : (∀ r, s.rangeCount ≤ r → (s.ranges r).ptRanges = false) →
    ∀ r, s.rangeCount ≤ r → (s'.ranges r).ptRanges = false
  log : ∀ e, (∀ r, e ≠ .rangeDestroyed r) → s'.log.count e = s.log.count e

namespace RangesOnly

variable {s s' s'' : Space}

theorem refl (s : Space) : RangesOnly s s :=
  ⟨rfl, rfl, rfl, rfl, rfl, rfl, rfl, rfl, fun _ => rfl, le_refl _, fun _ _ => rfl, id,
    fun _ _ => rfl⟩

theorem trans (h : RangesOnly s s') (h' : RangesOnly s' s'') : RangesOnly s s'' where
  channels := h'.channels.trans h.channels
  channelCount := h'.channelCount.trans h.channelCount
  gpuVaSpaceCount := h'.gpuVaSpaceCount.trans h.gpuVaSpaceCount
  registeredGpus := h'.registeredGpus.trans h.registeredGpus
  gpuRegisterInProgress := h'.gpuRegisterInProgress.trans h.gpuRegisterInProgress
  registeredGpuVaSpaces := h'.registeredGpuVaSpaces.trans h.registeredGpuVaSpaces
  userChannelsStopped := h'.userChannelsStopped.trans h.userChannelsStopped
  fatal := h'.fatal.trans h.fatal
  gpuVaSpaces := fun g => (h'.gpuVaSpaces g).trans (h.gpuVaSpaces g)
  rangeCount := h.rangeCount.trans h'.rangeCount
  ranges := fun r hr => (h'.ranges r (Nat.lt_of_lt_of_le hr h.rangeCount)).trans (h.ranges r hr)
  unmapped := by
    intro hfresh r hr
    have hmid := h.unmapped hfresh
    rcases Nat.lt_or_ge r s'.rangeCount with hlt | hge
    · exact (congrArg ChannelRange.ptRanges (h'.ranges r hlt) :).trans (hmid r hr)
    · exact h'.unmapped (fun q hq => hmid q (h.rangeCount.trans hq)) r hge
  log := fun e he => (h'.log e he).trans (h.log e he)

theorem attached (h : RangesOnly s s') (g : ℕ) :
    (s'.gpuVaSpaces g).attached = (s.gpuVaSpaces g).attached :=
  (congrArg GpuVaSpace.attached (h.gpuVaSpaces g) :)

theorem gpu (h : RangesOnly s s') (g : ℕ) : (s'.gpuVaSpaces g).gpu = (s.gpuVaSpaces g).gpu :=
  (congrArg GpuVaSpace.gpu (h.gpuVaSpaces g) :)

theorem disallowNewChannels (h : RangesOnly s s') (g : ℕ) :
    (s'.gpuVaSpaces g).disallowNewChannels = (s.gpuVaSpaces g).disallowNewChannels :=
  (congrArg GpuVaSpace.disallowNewChannels (h.gpuVaSpaces g) :)

theorem registeredChannels (h : RangesOnly s s') (g : ℕ) :
    (s'.gpuVaSpaces g).registeredChannels = (s.gpuVaSpaces g).registeredChannels :=
  (congrArg GpuVaSpace.registeredChannels (h.gpuVaSpaces g) :)

variable {r : ℕ}

theorem rangeGpuVaSpace (h : RangesOnly s s') (hr : r < s.rangeCount) :
    (s'.ranges r).gpuVaSpace = (s.ranges r).gpuVaSpace :=
  (congrArg ChannelRange.gpuVaSpace (h.ranges r hr) :)

theorem rangeIsLocal (h : RangesOnly s s') (hr : r < s.rangeCount) :
    (s'.ranges r).isLocal = (s.ranges r).isLocal :=
  (congrArg ChannelRange.isLocal (h.ranges r hr) :)

theorem rangeRmDescriptor (h : RangesOnly s s') (hr : r < s.rangeCount) :
    (s'.ranges r).rmDescriptor = (s.ranges r).rmDescriptor :=
  (congrArg ChannelRange.rmDescriptor (h.ranges r hr) :)

theorem rangePtRanges (h : RangesOnly s s') (hr : r < s.rangeCount) :
    (s'.ranges r).ptRanges = (s.ranges r).ptRanges :=
  (congrArg ChannelRange.ptRanges (h.ranges r hr) :)

theorem rangePtesWritten (h : RangesOnly s s') (hr : r < s.rangeCount) :
    (s'.ranges r).ptesWritten = (s.ranges r).ptesWritten :=
  (congrArg ChannelRange.ptesWritten (h.ranges r hr) :)

end RangesOnly

private theorem setRange_count (s : Space) (r n : ℕ) :
    RangesOnly s (s.setRange r { s.ranges r with refCount := n }) := by
  have hsame : ∀ q, { update s.ranges r { s.ranges r with refCount := n } q with
      refCount := 0 } = { s.ranges q with refCount := 0 } := by
    intro q
    by_cases h : q = r
    · subst h
      rw [update_self]
    · rw [update_of_ne h]
  exact ⟨rfl, rfl, rfl, rfl, rfl, rfl, rfl, rfl, fun _ => rfl, le_refl _, fun q _ => hsame q,
    fun hfresh q hq => (congrArg ChannelRange.ptRanges (hsame q) :).trans (hfresh q hq),
    fun _ _ => rfl⟩

private theorem setLocalRanges (s : Space) (g : ℕ) (locals : List ℕ) :
    RangesOnly s (s.setGpuVaSpace g { s.gpuVaSpaces g with localChannelRanges := locals }) := by
  refine ⟨rfl, rfl, rfl, rfl, rfl, rfl, rfl, rfl, fun g' => ?_, le_refl _, fun _ _ => rfl, id,
    fun _ _ => rfl⟩
  change { update s.gpuVaSpaces g _ g' with localChannelRanges := [] } = _
  by_cases h : g' = g
  · subst h
    rw [update_self]
  · rw [update_of_ne h]

private theorem record_rangeDestroyed (s : Space) (r : ℕ) :
    RangesOnly s (s.record (.rangeDestroyed r)) := by
  refine ⟨rfl, rfl, rfl, rfl, rfl, rfl, rfl, rfl, fun _ => rfl, le_refl _, fun _ _ => rfl, id,
    fun e he => ?_⟩
  exact List.count_cons_of_ne (fun heq => he r heq.symm)

private theorem setTree (s : Space) (tree : List ℕ) : RangesOnly s { s with vaRangeTree := tree } :=
  ⟨rfl, rfl, rfl, rfl, rfl, rfl, rfl, rfl, fun _ => rfl, le_refl _, fun _ _ => rfl, id,
    fun _ _ => rfl⟩

theorem rangeDestroy_only (s : Space) (r : ℕ) : RangesOnly s (s.rangeDestroy r) := by
  refine (setTree s (s.vaRangeTree.erase r)).trans (RangesOnly.trans ?_ (record_rangeDestroyed _ r))
  split
  · exact setLocalRanges _ _ _
  · exact RangesOnly.refl _

theorem dropRange_only (s : Space) (r : ℕ) : RangesOnly s (s.dropRange r) := by
  unfold dropRange
  refine (setRange_count s r ((s.ranges r).refCount - 1)).trans ?_
  dsimp only
  split
  · exact rangeDestroy_only _ r
  · exact RangesOnly.refl _

theorem dropRanges_only (l : List ℕ) (s : Space) : RangesOnly s (l.foldl dropRange s) := by
  induction l generalizing s with
  | nil => exact RangesOnly.refl s
  | cons r rest ih => exact (dropRange_only s r).trans (ih _)

/-! ## Counted uses -/

/-- The tree holds the ranges in use, each with its number of uses; the local ones are on the lists of
their GPU VA spaces, and every other range was destroyed once. -/
structure RefsRight (s : Space) (uses : ℕ → ℕ) : Prop where
  nodup : s.vaRangeTree.Nodup
  created : ∀ r ∈ s.vaRangeTree, r < s.rangeCount
  counted : ∀ r ∈ s.vaRangeTree, (s.ranges r).refCount = uses r
  used : ∀ r, r ∈ s.vaRangeTree ↔ 0 < uses r
  localNodup : ∀ g, (s.gpuVaSpaces g).localChannelRanges.Nodup
  localRange : ∀ g r, r ∈ (s.gpuVaSpaces g).localChannelRanges ↔
    r ∈ s.vaRangeTree ∧ (s.ranges r).isLocal = true ∧ (s.ranges r).gpuVaSpace = g
  destroyed : ∀ r, s.log.count (.rangeDestroyed r) =
    if r < s.rangeCount ∧ r ∉ s.vaRangeTree then 1 else 0

namespace RefsRight

variable {s s' : Space} {uses uses' : ℕ → ℕ}

theorem congr (h : RefsRight s uses) (htree : s'.vaRangeTree = s.vaRangeTree)
    (hranges : s'.ranges = s.ranges) (hcnt : s'.rangeCount = s.rangeCount)
    (hlocal : ∀ g, (s'.gpuVaSpaces g).localChannelRanges = (s.gpuVaSpaces g).localChannelRanges)
    (hlog : ∀ r, s'.log.count (.rangeDestroyed r) = s.log.count (.rangeDestroyed r))
    (huses : ∀ r, uses' r = uses r) : RefsRight s' uses' where
  nodup := htree ▸ h.nodup
  created := by
    rw [htree, hcnt]
    exact h.created
  counted := by
    intro r hr
    rw [hranges, huses]
    exact h.counted r (htree ▸ hr)
  used := by
    intro r
    rw [htree, huses]
    exact h.used r
  localNodup := by
    intro g
    rw [hlocal]
    exact h.localNodup g
  localRange := by
    intro g r
    rw [hlocal, htree, hranges]
    exact h.localRange g r
  destroyed := by
    intro r
    rw [hlog, hcnt, htree]
    exact h.destroyed r

theorem attach (h : RefsRight s uses) {r : ℕ} (hr : r ∈ s.vaRangeTree) :
    RefsRight (s.setRange r { s.ranges r with refCount := (s.ranges r).refCount + 1 })
      (fun q => uses q + if q = r then 1 else 0) where
  nodup := h.nodup
  created := h.created
  counted := by
    intro q hq
    change (update s.ranges r _ q).refCount = _
    by_cases heq : q = r
    · subst heq
      rw [update_self, if_pos rfl, ← h.counted q hr]
    · rw [update_of_ne heq, if_neg heq]
      exact h.counted q hq
  used := by
    intro q
    by_cases heq : q = r
    · subst heq
      rw [if_pos rfl]
      exact ⟨fun _ => Nat.succ_pos _, fun _ => hr⟩
    · rw [if_neg heq]
      exact h.used q
  localNodup := h.localNodup
  localRange := by
    intro g q
    rw [show (s.setRange r _).gpuVaSpaces = s.gpuVaSpaces from rfl, h.localRange g q]
    change _ ↔ q ∈ s.vaRangeTree ∧ (update s.ranges r _ q).isLocal = true ∧
      (update s.ranges r _ q).gpuVaSpace = g
    by_cases heq : q = r
    · subst heq
      rw [update_self]
    · rw [update_of_ne heq]
  destroyed := h.destroyed

theorem destroy {r : ℕ} (hr : r ∈ s.vaRangeTree) (hnd : s.vaRangeTree.Nodup)
    (hcreated : ∀ q ∈ s.vaRangeTree, q < s.rangeCount)
    (hcounted : ∀ q ∈ s.vaRangeTree, q ≠ r → (s.ranges q).refCount = uses q)
    (hused : ∀ q, q ≠ r → (q ∈ s.vaRangeTree ↔ 0 < uses q)) (hzero : uses r = 0)
    (hlocalNodup : ∀ g, (s.gpuVaSpaces g).localChannelRanges.Nodup)
    (hlocal : ∀ g q, q ∈ (s.gpuVaSpaces g).localChannelRanges ↔
      q ∈ s.vaRangeTree ∧ (s.ranges q).isLocal = true ∧ (s.ranges q).gpuVaSpace = g)
    (hdestroyed : ∀ q, s.log.count (.rangeDestroyed q) =
      if q < s.rangeCount ∧ q ∉ s.vaRangeTree then 1 else 0) :
    RefsRight (s.rangeDestroy r) uses := by
  have hranges : (s.rangeDestroy r).ranges = s.ranges := by
    unfold rangeDestroy
    dsimp only
    split <;> rfl
  have htree : (s.rangeDestroy r).vaRangeTree = s.vaRangeTree.erase r := by
    unfold rangeDestroy
    dsimp only
    split <;> rfl
  have hcnt : (s.rangeDestroy r).rangeCount = s.rangeCount := by
    unfold rangeDestroy
    dsimp only
    split <;> rfl
  have hlog : (s.rangeDestroy r).log = .rangeDestroyed r :: s.log := by
    unfold rangeDestroy
    dsimp only
    split <;> rfl
  -- the range leaves the list of local ranges that it is on
  have hlocals : ∀ g, ((s.rangeDestroy r).gpuVaSpaces g).localChannelRanges =
      (s.gpuVaSpaces g).localChannelRanges.erase r := by
    intro g
    unfold rangeDestroy
    dsimp only
    split
    · rename_i hisLocal
      change (update s.gpuVaSpaces (s.ranges r).gpuVaSpace _ g).localChannelRanges = _
      by_cases hg : g = (s.ranges r).gpuVaSpace
      · subst hg
        rw [update_self]
      · have hnot : r ∉ (s.gpuVaSpaces g).localChannelRanges :=
          fun hmem => hg ((hlocal g r).mp hmem).2.2.symm
        rw [update_of_ne hg, List.erase_of_not_mem hnot]
    · rename_i hisLocal
      have hnot : r ∉ (s.gpuVaSpaces g).localChannelRanges :=
        fun hmem => hisLocal ((hlocal g r).mp hmem).2.1
      rw [List.erase_of_not_mem hnot]
      rfl
  have hmem : ∀ q, q ∈ s.vaRangeTree.erase r ↔ q ≠ r ∧ q ∈ s.vaRangeTree :=
    fun q => hnd.mem_erase_iff
  refine ⟨?_, ?_, ?_, ?_, ?_, ?_, ?_⟩
  · rw [htree]
    exact hnd.erase r
  · rw [htree, hcnt]
    exact fun q hq => hcreated q ((hmem q).mp hq).2
  · rw [htree, hranges]
    exact fun q hq => hcounted q ((hmem q).mp hq).2 ((hmem q).mp hq).1
  · intro q
    rw [htree, hmem]
    by_cases heq : q = r
    · subst heq
      simp [hzero]
    · rw [← hused q heq]
      exact and_iff_right heq
  · intro g
    rw [hlocals]
    exact (hlocalNodup g).erase r
  · intro g q
    rw [hlocals, (hlocalNodup g).mem_erase_iff, hlocal g q, htree, hranges, hmem]
    exact (and_assoc).symm
  · intro q
    rw [hlog, hcnt, htree, List.count_cons, hdestroyed q]
    by_cases heq : q = r
    · subst heq
      have hold : ¬ (q < s.rangeCount ∧ q ∉ s.vaRangeTree) := fun hn => hn.2 hr
      have hnew : q < s.rangeCount ∧ q ∉ s.vaRangeTree.erase q :=
        ⟨hcreated q hr, fun hn => ((hmem q).mp hn).1 rfl⟩
      rw [if_neg hold, if_pos hnew]
      simp
    · have hne : (Event.rangeDestroyed r == Event.rangeDestroyed q) = false := by
        rw [beq_eq_false_iff_ne]
        exact fun hn => heq (Event.rangeDestroyed.inj hn).symm
      have hiff : (q < s.rangeCount ∧ q ∉ s.vaRangeTree.erase r) ↔
          (q < s.rangeCount ∧ q ∉ s.vaRangeTree) := by
        simp [heq]
      rw [hne, if_congr hiff rfl rfl]
      simp

theorem dropRange (h : RefsRight s uses) {r : ℕ} (hr : 0 < uses r) :
    RefsRight (s.dropRange r) (fun q => uses q - if q = r then 1 else 0) := by
  have htree := (h.used r).mpr hr
  have hrefs := h.counted r htree
  unfold Space.dropRange
  have hself : ∀ range, (s.setRange r range).ranges r = range := fun range =>
    update_self ..
  have hother : ∀ range q, q ≠ r → (s.setRange r range).ranges q = s.ranges q :=
    fun range q hq => update_of_ne hq ..
  have hlocal : ∀ n g q, q ∈ (s.gpuVaSpaces g).localChannelRanges ↔ q ∈ s.vaRangeTree ∧
      ((s.setRange r { s.ranges r with refCount := n }).ranges q).isLocal = true ∧
      ((s.setRange r { s.ranges r with refCount := n }).ranges q).gpuVaSpace = g := by
    intro n g q
    rw [h.localRange g q]
    by_cases heq : q = r
    · subst heq
      rw [hself]
    · rw [hother _ q heq]
  dsimp only
  rw [hself]
  by_cases hlast : (s.ranges r).refCount - 1 = 0
  · rw [if_pos hlast]
    refine destroy htree h.nodup h.created (fun q hq hne => ?_) (fun q hne => ?_) ?_ h.localNodup
      (hlocal _) h.destroyed
    · rw [hother _ q hne, if_neg hne]
      exact h.counted q hq
    · rw [if_neg hne]
      exact h.used q
    · rw [if_pos rfl]
      omega
  · rw [if_neg hlast]
    refine ⟨h.nodup, h.created, fun q hq => ?_, fun q => ?_, h.localNodup, hlocal _, h.destroyed⟩
    · by_cases heq : q = r
      · subst heq
        rw [hself, if_pos rfl, hrefs]
      · rw [hother _ q heq, if_neg heq]
        exact h.counted q hq
    · change q ∈ s.vaRangeTree ↔ _
      by_cases heq : q = r
      · subst heq
        rw [if_pos rfl, h.used q]
        omega
      · rw [if_neg heq]
        exact h.used q

theorem dropRanges {l : List ℕ} (h : RefsRight s uses) (hl : ∀ r, l.count r ≤ uses r) :
    RefsRight (l.foldl Space.dropRange s) (fun r => uses r - l.count r) := by
  induction l generalizing s uses with
  | nil => exact h.congr rfl rfl rfl (fun _ => rfl) (fun _ => rfl) (fun r => by simp)
  | cons a rest ih =>
    have ha : 0 < uses a := Nat.lt_of_lt_of_le (by simp) (hl a)
    have hrest := ih (h.dropRange ha) fun r => by
      have hr := hl r
      rw [List.count_cons] at hr
      by_cases heq : r = a
      · subst heq
        simp only [beq_self_eq_true, if_true] at hr
        rw [if_pos rfl]
        omega
      · rw [if_neg heq]
        omega
    refine hrest.congr rfl rfl rfl (fun _ => rfl) (fun _ => rfl) fun r => ?_
    rw [List.count_cons]
    by_cases heq : r = a
    · subst heq
      simp only [beq_self_eq_true, if_true]
      omega
    · have hne : (a == r) = false := beq_eq_false_iff_ne.mpr fun hn => heq hn.symm
      rw [hne, if_neg heq]
      simp

theorem make (h : RefsRight s uses) (range : ChannelRange) (hrefs : range.refCount = 1) : RefsRight
      (let s' := { s with
        ranges := update s.ranges s.rangeCount range
        rangeCount := s.rangeCount + 1
        vaRangeTree := s.rangeCount :: s.vaRangeTree }
      if range.isLocal then s'.addLocalRange range.gpuVaSpace s.rangeCount else s')
      (fun q => uses q + if q = s.rangeCount then 1 else 0) := by
  have hfresh : s.rangeCount ∉ s.vaRangeTree := fun hmem => Nat.lt_irrefl _ (h.created _ hmem)
  have hself : update s.ranges s.rangeCount range s.rangeCount = range :=
    update_self ..
  have hother : ∀ q, q ≠ s.rangeCount → update s.ranges s.rangeCount range q = s.ranges q :=
    fun q hq => update_of_ne hq ..
  have hunused : uses s.rangeCount = 0 := by
    by_contra hne
    exact hfresh ((h.used _).mpr (Nat.pos_of_ne_zero hne))
  have hnoLocal : ∀ g, s.rangeCount ∉ (s.gpuVaSpaces g).localChannelRanges :=
    fun g hmem => hfresh ((h.localRange g _).mp hmem).1
  have htree : (s.rangeCount :: s.vaRangeTree).Nodup := List.nodup_cons.mpr ⟨hfresh, h.nodup⟩
  have hcreated : ∀ q ∈ s.rangeCount :: s.vaRangeTree, q < s.rangeCount + 1 := by
    intro q hq
    rcases List.mem_cons.mp hq with rfl | hq
    · exact Nat.lt_succ_self _
    · exact Nat.lt_succ_of_lt (h.created q hq)
  have hcnt : ∀ q ∈ s.rangeCount :: s.vaRangeTree, (update s.ranges s.rangeCount range q).refCount =
        uses q + if q = s.rangeCount then 1 else 0 := by
    intro q hq
    by_cases heq : q = s.rangeCount
    · subst heq
      rw [hself, hrefs, if_pos rfl, hunused]
    · rw [hother q heq, if_neg heq]
      exact h.counted q ((List.mem_cons.mp hq).resolve_left heq)
  have hused : ∀ q, q ∈ s.rangeCount :: s.vaRangeTree ↔
      0 < uses q + if q = s.rangeCount then 1 else 0 := by
    intro q
    by_cases heq : q = s.rangeCount
    · subst heq
      simp
    · rw [if_neg heq, List.mem_cons, or_iff_right heq]
      exact h.used q
  have hdestroyed : ∀ q, s.log.count (.rangeDestroyed q) =
      if q < s.rangeCount + 1 ∧ q ∉ s.rangeCount :: s.vaRangeTree then 1 else 0 := by
    intro q
    have hiff : (q < s.rangeCount + 1 ∧ q ∉ s.rangeCount :: s.vaRangeTree) ↔
        (q < s.rangeCount ∧ q ∉ s.vaRangeTree) := by
      rw [List.mem_cons]
      by_cases heq : q = s.rangeCount
      · subst heq
        simp
      · have hlt : q < s.rangeCount + 1 ↔ q < s.rangeCount := by omega
        rw [hlt, or_iff_right heq]
    rw [h.destroyed q, if_congr hiff rfl rfl]
  -- the ranges there were are on the lists they were on
  have hold : ∀ g q, q ≠ s.rangeCount → (q ∈ (s.gpuVaSpaces g).localChannelRanges ↔
      q ∈ s.rangeCount :: s.vaRangeTree ∧
      (update s.ranges s.rangeCount range q).isLocal = true ∧
      (update s.ranges s.rangeCount range q).gpuVaSpace = g) := by
    intro g q hq
    rw [h.localRange g q, hother q hq, List.mem_cons, or_iff_right hq]
  by_cases hlocal : range.isLocal = true
  · dsimp only
    rw [if_pos hlocal]
    have hlist : ∀ g, (update s.gpuVaSpaces range.gpuVaSpace
        { s.gpuVaSpaces range.gpuVaSpace with
          localChannelRanges :=
            s.rangeCount :: (s.gpuVaSpaces range.gpuVaSpace).localChannelRanges } g).localChannelRanges =
        if g = range.gpuVaSpace then s.rangeCount :: (s.gpuVaSpaces g).localChannelRanges
        else (s.gpuVaSpaces g).localChannelRanges := by
      intro g
      by_cases hg : g = range.gpuVaSpace
      · subst hg
        rw [update_self, if_pos rfl]
      · rw [update_of_ne hg, if_neg hg]
    refine ⟨htree, hcreated, hcnt, hused, fun g => ?_, fun g q => ?_, hdestroyed⟩
    · refine (hlist g).symm ▸ ?_
      split
      · exact List.nodup_cons.mpr ⟨hnoLocal g, h.localNodup g⟩
      · exact h.localNodup g
    · refine (hlist g).symm ▸ ?_
      change _ ↔ q ∈ s.rangeCount :: s.vaRangeTree ∧ _
      by_cases heq : q = s.rangeCount
      · subst heq
        change _ ↔ _ ∧ (update s.ranges s.rangeCount range s.rangeCount).isLocal = true ∧
          (update s.ranges s.rangeCount range s.rangeCount).gpuVaSpace = g
        rw [hself]
        by_cases hg : g = range.gpuVaSpace
        · subst hg
          simp [hlocal]
        · rw [if_neg hg]
          exact ⟨fun hmem => absurd hmem (hnoLocal g), fun hrest => absurd hrest.2.2.symm hg⟩
      · refine Iff.trans ?_ (hold g q heq)
        split
        · rw [List.mem_cons, or_iff_right heq]
        · exact Iff.rfl
  · dsimp only
    rw [if_neg hlocal]
    refine ⟨htree, hcreated, hcnt, hused, h.localNodup, fun g q => ?_, hdestroyed⟩
    by_cases heq : q = s.rangeCount
    · subst heq
      change _ ↔ _ ∧ (update s.ranges s.rangeCount range s.rangeCount).isLocal = true ∧ _
      rw [hself]
      exact ⟨fun hmem => absurd hmem (hnoLocal g), fun hrest => absurd hrest.2.1 hlocal⟩
    · exact hold g q heq

end RefsRight

/-! ## Making the ranges of a channel -/

/-- RM reports each local resource of a channel once. -/
def LocalsDistinct (resources : List ResourceInfo) : Prop :=
  ((resources.filter fun resource => !resource.globalResource).map (·.resourceDescriptor)).Nodup

/-- The range of a resource in a GPU VA space. -/
structure MadeFor (s : Space) (g : ℕ) (resource : ResourceInfo) (r : ℕ) : Prop where
  created : r < s.rangeCount
  gpuVaSpace : (s.ranges r).gpuVaSpace = g
  rmDescriptor : (s.ranges r).rmDescriptor = resource.resourceDescriptor
  isLocal : (s.ranges r).isLocal = !resource.globalResource

variable {s : Space}

theorem MadeFor.of_rangesOnly {s' : Space} {g r : ℕ} {resource : ResourceInfo}
    (h : MadeFor s g resource r) (honly : RangesOnly s s') : MadeFor s' g resource r where
  created := Nat.lt_of_lt_of_le h.created honly.rangeCount
  gpuVaSpace := (honly.rangeGpuVaSpace h.created).trans h.gpuVaSpace
  rmDescriptor := (honly.rangeRmDescriptor h.created).trans h.rmDescriptor
  isLocal := (honly.rangeIsLocal h.created).trans h.isLocal

private theorem make_only (s : Space) (range : ChannelRange) (hrange : range.ptRanges = false) :
    RangesOnly s
      (let s' := { s with
        ranges := update s.ranges s.rangeCount range
        rangeCount := s.rangeCount + 1
        vaRangeTree := s.rangeCount :: s.vaRangeTree }
      if range.isLocal then s'.addLocalRange range.gpuVaSpace s.rangeCount else s') := by
  have hmade : RangesOnly s { s with
      ranges := update s.ranges s.rangeCount range
      rangeCount := s.rangeCount + 1
      vaRangeTree := s.rangeCount :: s.vaRangeTree } := by
    refine ⟨rfl, rfl, rfl, rfl, rfl, rfl, rfl, rfl, fun _ => rfl, Nat.le_succ _, fun r hr => ?_,
      fun hfresh r hr => ?_, fun _ _ => rfl⟩
    · change { update s.ranges s.rangeCount range r with refCount := 0 } = _
      rw [update_of_ne (Nat.ne_of_lt hr)]
    · change (update s.ranges s.rangeCount range r).ptRanges = false
      by_cases heq : r = s.rangeCount
      · rw [heq, update_self]
        exact hrange
      · rw [update_of_ne heq]
        exact hfresh r hr
  split
  · exact hmade.trans (setLocalRanges _ _ _)
  · exact hmade

/-- The uses after `create_va_range`: a failure leaves them as they were; otherwise the range has one
use more.  Only a local resource gets a range that was there before. -/
def UsesAfter (s s' : Space) (uses : ℕ → ℕ) (g : ℕ) (resource : ResourceInfo) :
    Option (ℕ × ℕ) → Prop
  | none => RefsRight s' uses
  | some (r, _) => RefsRight s' (fun q => uses q + if q = r then 1 else 0) ∧
      MadeFor s' g resource r ∧ (r < s.rangeCount → resource.globalResource = false)

theorem createVaRange_spec {s' : Space} {uses : ℕ → ℕ} (h : RefsRight s uses) {g base last : ℕ}
    {resource : ResourceInfo} {o : CreateOutcome} {made : Option (ℕ × ℕ)}
    (hcreate : s.createVaRange g resource base last o = (s', made)) :
    RangesOnly s s' ∧ UsesAfter s s' uses g resource made := by
  unfold createVaRange at hcreate
  cases hfind : (if resource.globalResource then none
      else s.findLocalRange g resource.resourceDescriptor) with
  | some r =>
    -- a local range that another channel has made
    rw [hfind] at hcreate
    simp only [Prod.mk.injEq] at hcreate
    obtain ⟨rfl, rfl⟩ := hcreate
    by_cases hglobal : resource.globalResource = true
    · rw [if_pos hglobal] at hfind
      cases hfind
    · rw [if_neg hglobal] at hfind
      have hmem := List.mem_of_find?_eq_some hfind
      have hdesc : (s.ranges r).rmDescriptor = resource.resourceDescriptor := by
        simpa using List.find?_some hfind
      obtain ⟨htree, hlocal, hg⟩ := (h.localRange g r).mp hmem
      have hfalse : resource.globalResource = false := Bool.not_eq_true _ |>.mp hglobal
      have honly := setRange_count s r ((s.ranges r).refCount + 1)
      have hmade : MadeFor s g resource r :=
        ⟨h.created r htree, hg, hdesc, by rw [hlocal, hfalse]; rfl⟩
      exact ⟨honly, h.attach htree, hmade.of_rangesOnly honly, fun _ => hfalse⟩
  | none =>
    rw [hfind] at hcreate
    cases hplace : placeResource resource base last with
    | none =>
      rw [hplace] at hcreate
      obtain ⟨rfl, rfl⟩ := hcreate
      exact ⟨RangesOnly.refl s, h⟩
    | some addrs =>
      rw [hplace] at hcreate
      cases o with
      | allocFailed =>
        obtain ⟨rfl, rfl⟩ := hcreate
        exact ⟨RangesOnly.refl s, h⟩
      | addFailed =>
        obtain ⟨rfl, rfl⟩ := hcreate
        refine ⟨⟨rfl, rfl, rfl, rfl, rfl, rfl, rfl, rfl, fun _ => rfl, Nat.le_succ _,
          fun _ _ => rfl, id, fun e he => List.count_cons_of_ne fun heq => he _ heq.symm⟩, ?_⟩
        refine ⟨h.nodup, fun r hr => Nat.lt_succ_of_lt (h.created r hr), h.counted, h.used,
          h.localNodup, h.localRange, fun r => ?_⟩
        -- the new serial number is the only one destroyed
        change (Event.rangeDestroyed s.rangeCount :: s.log).count (.rangeDestroyed r) =
          if r < s.rangeCount + 1 ∧ r ∉ s.vaRangeTree then 1 else 0
        rw [List.count_cons, h.destroyed r]
        by_cases heq : r = s.rangeCount
        · subst heq
          have hfresh : s.rangeCount ∉ s.vaRangeTree :=
            fun hmem => Nat.lt_irrefl _ (h.created _ hmem)
          simp [hfresh]
        · have hne : (Event.rangeDestroyed s.rangeCount == Event.rangeDestroyed r) = false := by
            rw [beq_eq_false_iff_ne]
            exact fun hn => heq (Event.rangeDestroyed.inj hn).symm
          have hiff : (r < s.rangeCount + 1 ∧ r ∉ s.vaRangeTree) ↔
              (r < s.rangeCount ∧ r ∉ s.vaRangeTree) :=
            and_congr_left' ⟨fun hlt => by omega, Nat.lt_succ_of_lt⟩
          rw [hne, if_congr hiff rfl rfl]
          simp
      | created =>
        have hmake := h.make (newRange g resource addrs) rfl
        have honly := make_only s (newRange g resource addrs) rfl
        obtain ⟨hstate, rfl⟩ : (if resource.globalResource then
              { s with
                ranges := update s.ranges s.rangeCount (newRange g resource addrs)
                rangeCount := s.rangeCount + 1
                vaRangeTree := s.rangeCount :: s.vaRangeTree }
            else
              { s with
                ranges := update s.ranges s.rangeCount (newRange g resource addrs)
                rangeCount := s.rangeCount + 1
                vaRangeTree := s.rangeCount :: s.vaRangeTree }.addLocalRange g s.rangeCount) = s' ∧
            some (s.rangeCount, u64 (addrs.2 + 1)) = made := Prod.mk.inj hcreate
        have heq : (let s' := { s with
              ranges := update s.ranges s.rangeCount (newRange g resource addrs)
              rangeCount := s.rangeCount + 1
              vaRangeTree := s.rangeCount :: s.vaRangeTree }
            if (newRange g resource addrs).isLocal then
              s'.addLocalRange (newRange g resource addrs).gpuVaSpace s.rangeCount
            else s') = s' := by
          rw [← hstate]
          cases hglobal : resource.globalResource <;> simp [newRange, hglobal]
        rw [heq] at hmake honly
        refine ⟨honly, hmake, ?_, fun hlt => absurd hlt (Nat.lt_irrefl _)⟩
        have hrange : s'.ranges s.rangeCount = newRange g resource addrs := by
          rw [← heq]
          split <;> exact update_self ..
        have hcnt : s'.rangeCount = s.rangeCount + 1 := by
          rw [← heq]
          split <;> rfl
        refine ⟨by omega, ?_, ?_, ?_⟩ <;> rw [hrange] <;> rfl

/-- The ranges made so far: each is the range of another resource. -/
structure MadeRanges (s : Space) (g : ℕ) (done : List ResourceInfo) (made : List ℕ) : Prop where
  nodup : made.Nodup
  each : ∀ r ∈ made, ∃ resource ∈ done, MadeFor s g resource r

theorem createLoop_spec {g last : ℕ} {o : ℕ → CreateOutcome} {i : ℕ} {rest : List ResourceInfo}
    {base : ℕ} {made : List ℕ} {uses : ℕ → ℕ} {done : List ResourceInfo}
    (h : RefsRight s fun r => uses r + made.count r) (hmade : MadeRanges s g done made)
    (hdistinct : LocalsDistinct (done ++ rest)) :
    ∃ s' made' ok, createLoop g last o i rest base s made = (s', made', ok) ∧ RangesOnly s s' ∧
      (RefsRight s' fun r => uses r + made'.count r) ∧
      ∃ done', MadeRanges s' g done' made' := by
  induction rest generalizing i base s made done with
  | nil => exact ⟨s, made, true, rfl, RangesOnly.refl s, h, done, hmade⟩
  | cons resource rest ih =>
    unfold createLoop
    by_cases hspace : last < base
    · rw [if_pos hspace]
      exact ⟨s, made, false, rfl, RangesOnly.refl s, h, done, hmade⟩
    rw [if_neg hspace]
    rcases hcreate : s.createVaRange g resource base last (o i) with ⟨s₁, _ | ⟨r, base'⟩⟩
    · obtain ⟨honly, hrefs⟩ := createVaRange_spec h hcreate
      exact ⟨s₁, made, false, rfl, honly, hrefs, done, hmade.nodup, fun r hr => by
        obtain ⟨res, hres, hfor⟩ := hmade.each r hr
        exact ⟨res, hres, hfor.of_rangesOnly honly⟩⟩
    · obtain ⟨honly, hrefs, hfor, hold⟩ := createVaRange_spec h hcreate
      have hnew : r ∉ made := by
        intro hmem
        obtain ⟨res, hres, hforRes⟩ := hmade.each r hmem
        have hlocal := hold hforRes.created
        have hfor' := hforRes.of_rangesOnly honly
        -- two local resources of the channel with the same descriptor
        have hresLocal : res.globalResource = false := by
          have hboth := hfor'.isLocal.symm.trans hfor.isLocal
          rw [hlocal] at hboth
          simpa using hboth
        have hdesc := hfor'.rmDescriptor.symm.trans hfor.rmDescriptor
        unfold LocalsDistinct at hdistinct
        rw [List.filter_append, List.map_append, List.nodup_append] at hdistinct
        refine hdistinct.2.2 res.resourceDescriptor ?_ resource.resourceDescriptor ?_ hdesc
        · exact List.mem_map.mpr ⟨res, List.mem_filter.mpr ⟨hres, by simp [hresLocal]⟩, rfl⟩
        · exact List.mem_map.mpr ⟨resource,
            List.mem_filter.mpr ⟨List.mem_cons_self, by simp [hlocal]⟩, rfl⟩
      have hmade' : MadeRanges s₁ g (done ++ [resource]) (made ++ [r]) := by
        refine ⟨List.nodup_append.mpr ⟨hmade.nodup, List.nodup_singleton r, ?_⟩, fun q hq => ?_⟩
        · intro a ha b hb
          rw [List.mem_singleton.mp hb]
          exact fun heq => hnew (heq ▸ ha)
        · rcases List.mem_append.mp hq with hq | hq
          · obtain ⟨res, hres, hforRes⟩ := hmade.each q hq
            exact ⟨res, List.mem_append_left _ hres, hforRes.of_rangesOnly honly⟩
          · rw [List.mem_singleton.mp hq]
            exact ⟨resource, by simp, hfor⟩
      have hrefs' : RefsRight s₁ fun q => uses q + (made ++ [r]).count q := by
        refine hrefs.congr rfl rfl rfl (fun _ => rfl) (fun _ => rfl) fun q => ?_
        rw [List.count_append, List.count_singleton, ← Nat.add_assoc]
        by_cases heq : q = r
        · subst heq
          simp
        · have hne : (r == q) = false := beq_eq_false_iff_ne.mpr fun hn => heq hn.symm
          rw [hne, if_neg heq]
          simp
      have hdistinct' : LocalsDistinct ((done ++ [resource]) ++ rest) := by
        rw [List.append_assoc]
        exact hdistinct
      obtain ⟨s₂, made₂, ok, hloop, honly₂, hrefs₂, hdone₂⟩ := ih hrefs' hmade' hdistinct'
      exact ⟨s₂, made₂, ok, hloop, honly.trans honly₂, hrefs₂, hdone₂⟩

end NvUvm.ChannelLife
