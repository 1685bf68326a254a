import Mathlib.Data.List.Perm.Subperm
import NvUvm.BlockCopyPasses

/-!
# What a copy does to the data of a block

`block_copy_resident_pages` marks every page of its region resident on the destination,
whether it was copied or not.  `dataKept_iff` says when that is true of the data: if and only
if every page that has data elsewhere (`Needed`) is reached by the passes (`Reaches`).
-/

namespace NvUvm

/-- A call of `block_copy_resident_pages`: the region is inside the block, and the residency
of the block is consistent. -/
structure CopyCall where
  env : CopyEnv
  dst : ProcessorId
  region : BlockRegion
  pageMask : Option PageMask
  mode : TransferMode
  block : Residency
  inBlock : region.outer ≤ block.numPages
  consistent : block.Consistent env

namespace CopyCall

variable (c : CopyCall)

def pages : List ℕ := c.region.pages c.pageMask

/-- `block_copy_resident_pages` on the call's block. -/
def run (migrated : PageMask) : NvStatus × Residency × PageMask :=
  blockCopyResidentPages c.env c.dst c.region c.pageMask c.mode c.block migrated

/-- No data is lost on the way to `after`: a page that was resident is resident where its data
is, and where a page with data is resident, its data is. -/
structure DataKept (after : Residency) : Prop where
  kept : ∀ p, p < c.block.numPages → (∃ id, c.block.resident id p = true) →
    ∃ id, after.resident id p = true ∧ after.holds id p = true
  marked : ∀ id p, p < c.block.numPages → after.resident id p = true →
    (∃ id₀, c.block.resident id₀ p = true) → after.holds id p = true

/-! ## Which pages the passes reach -/

/-- How many pages are missing on the destination at first. -/
def missing : ℕ := (missingPages c.block c.dst c.region c.pageMask).length

def directSources : List ProcessorId :=
  ProcessorMask.ids fun id =>
    c.env.canCopyFrom c.dst id && c.block.residentProcessors id && id ≠ c.dst

def stagedSources : List ProcessorId :=
  ProcessorMask.ids fun id =>
    c.block.residentProcessors id &&
      !(c.env.canCopyFrom c.dst id && c.block.residentProcessors id && id ≠ c.dst) &&
      id ≠ c.dst && id ≠ cpuId

/-- The copies to the CPU, if that is the destination. -/
def cpuPlan : PassPlan :=
  passPlan c.env .toCpu cpuId c.region c.pageMask c.block c.missing
    (ProcessorMask.ids fun id => c.block.residentProcessors id && id ≠ cpuId)
    (c.block.resident cpuId) 0

def directPlan : PassPlan :=
  passPlan c.env .direct c.dst c.region c.pageMask c.block c.missing c.directSources
    (c.block.resident c.dst) 0

/-- The copies to the stage.  Their number is bounded by the pages still missing, although
they are also made for pages that are not. -/
def stagePlan : PassPlan :=
  passPlan c.env .toCpu cpuId c.region c.pageMask c.block
    (c.missing - c.directPlan.pages.length) c.stagedSources (c.block.resident cpuId) 0

/-- Page `p` is on the stage and still missing on the destination. -/
def Staged (p : ℕ) : Prop :=
  p ∈ c.stagePlan.pages ∧ c.block.resident c.dst p = false ∧ p ∉ c.directPlan.pages

def StageEnds : Prop :=
  (∀ p, ¬ c.Staged p) ∨
    c.env.beginPush .fromStage cpuId = .ok ∧ c.env.addPush .fromStage cpuId = .ok

/-- The passes reach the page: it is copied directly, or, when all before that succeeds, from
the stage or from the CPU where it was. -/
def Reaches (p : ℕ) : Prop :=
  if c.dst = cpuId then p ∈ c.cpuPlan.pages
  else p ∈ c.directPlan.pages ∨
    c.directPlan.completes = true ∧ c.stagePlan.completes = true ∧ c.env.addTracker = .ok ∧
      (p ∈ c.stagePlan.pages ∧ c.env.beginPush .fromStage cpuId = .ok ∨
        c.StageEnds ∧ c.block.resident cpuId p = true ∧ c.env.beginPush .rest cpuId = .ok)

/-- The page has its data on other processors only. -/
structure Needed (p : ℕ) : Prop where
  page : p ∈ c.pages
  elsewhere : ∃ id, c.block.resident id p = true
  missing : c.block.holds c.dst p = false

/-! ## What the passes leave -/

/-- Any copies of pages of the call leave at least this. -/
structure Progress (b : Residency) : Prop where
  numPages : b.numPages = c.block.numPages
  consistent : b.Consistent c.env
  untouched : ∀ id p, p ∉ c.pages → b.resident id p = c.block.resident id p
  held : ∀ id p, c.block.holds id p = true → b.holds id p = true

/-- What the passes leave before the exit path. -/
structure PassesLeft (b : Residency) : Prop extends Progress c b where
  reached : ∀ p, c.Needed p → (b.holds c.dst p = true ↔ c.Reaches p)

variable {c}
variable {p : ℕ} {mask : Option PageMask} {dst : ProcessorId} {migrated : PageMask}
  {mode : InternalMode} {r : CopyResult} {s : Residency} {sources : List ProcessorId}

theorem Needed.not_resident (h : c.Needed p) : c.block.resident c.dst p = false := by
  rw [← Bool.not_eq_true]
  intro hres
  have := c.consistent.memory c.dst p hres
  simp [h.missing] at this

private theorem page_lt (hp : p ∈ c.region.pages mask) : p < c.block.numPages := by
  have hmem := (List.mem_filter.mp hp).1
  have := c.inBlock
  rw [List.mem_range'_1] at hmem
  omega

theorem Progress.refl : c.Progress c.block :=
  ⟨rfl, c.consistent, fun _ _ _ => rfl, fun _ _ hp => hp⟩

theorem Progress.pass (h : c.Progress s) {plan : PassPlan} {copied : ℕ}
    (hspec : PassSpec c.env dst mode sources plan s copied migrated r)
    (hpages : ∀ p ∈ plan.pages, p ∈ c.pages) : c.Progress r.block := by
  refine ⟨hspec.numPages.trans h.numPages, hspec.consistent h.consistent, fun id p hp => ?_,
    fun id p hp => ?_⟩
  · have hnot : p ∉ plan.pages := fun hmem => hp (hpages p hmem)
    rw [hspec.resident, h.untouched id p hp]
    simp [hnot]
  · by_cases hb : id = dst ∧ p ∈ plan.pages
    · rw [hb.1]
      exact hspec.brought h.consistent p hb.2
    · rw [hspec.others id p (by tauto)]
      exact h.held id p hp

theorem Progress.between (h : c.Progress s) {pass : CopyPass} {src : ProcessorId} (hne : dst ≠ src)
    (hspec : BetweenSpec c.env pass dst src c.region mask mode s migrated r)
    (hpages : ∀ p ∈ movePages s dst src c.region mask, p ∈ c.pages) : c.Progress r.block := by
  have hlt : ∀ p ∈ c.region.pages mask, p < s.numPages := fun p hp => by
    rw [h.numPages]
    exact page_lt hp
  refine ⟨hspec.copied.numPages.trans h.numPages, hspec.consistent hne hlt h.consistent,
    fun id p hp => ?_, fun id p hp => hspec.holds_mono h.consistent (h.held id p hp)⟩
  have hnot : p ∉ reachedPages c.env pass dst src s c.region mask := fun hmem =>
    hp (hpages p (mem_of_reachedPages hmem))
  rw [← h.untouched id p hp, hspec.copied.resident]
  by_cases hd : id = dst
  · simp [hd, hnot]
  · by_cases hs : id = src ∧ mode = .moveFromStage
    · simp [hs, hnot, hne.symm]
    · simp [hd, hs]

private theorem mem_reached_iff {env : CopyEnv} {pass : CopyPass} {src : ProcessorId}
    {region : BlockRegion} (hd : dst ≠ cpuId) (hclean : s.pageIsClean env dst src p = false) :
    p ∈ reachedPages env pass dst src s region mask ↔
      p ∈ movePages s dst src region mask ∧ env.beginPush pass src = .ok := by
  constructor
  · intro hp
    have hgoes := List.mem_takeWhile_imp hp
    simp only [pageGoes, hclean, Bool.false_or, Bool.and_eq_true, decide_eq_true_eq] at hgoes
    exact ⟨mem_of_reachedPages hp, hgoes.2⟩
  · rintro ⟨hp, hbegin⟩
    have hall : reachedPages env pass dst src s region mask = movePages s dst src region mask :=
      List.takeWhile_eq_self_iff.mpr fun q _ => by simp [pageGoes, hd, hbegin]
    rwa [hall]

private theorem mem_ids {mask : ProcessorMask} {id : ProcessorId} :
    id ∈ ProcessorMask.ids mask ↔ mask id = true := by
  simp [ProcessorMask.ids]

private theorem plain_ne (mode : TransferMode) :
    (if mode = .copy then InternalMode.copy else .move) ≠ .moveFromStage := by
  split <;> simp

private theorem firstPass_spec (pass : CopyPass) (hsources : c.dst ∉ sources)
    (hmode : mode ≠ .moveFromStage) (migrated : PageMask) :
    PassSpec c.env c.dst mode sources
      (passPlan c.env pass c.dst c.region c.pageMask c.block c.missing sources
        (c.block.resident c.dst) 0) c.block 0 migrated
      (blockCopyResidentPagesMask c.env pass c.dst c.region c.pageMask mode c.missing sources 0
        c.block migrated) :=
  pass_spec hmode sources _ 0 c.block migrated hsources (fun _ hp => page_lt hp)
    ⟨rfl, fun _ _ => rfl, fun _ _ _ _ => rfl, fun _ _ _ _ => rfl⟩

private theorem holds_iff_of_pass {plan : PassPlan} {copied : ℕ}
    (hspec : PassSpec c.env c.dst mode sources plan c.block copied migrated r) (hp : c.Needed p) :
    r.block.holds c.dst p = true ↔ p ∈ plan.pages := by
  by_cases hmem : p ∈ plan.pages
  · simp [hmem, hspec.brought c.consistent p hmem]
  · simp [hmem, hspec.others c.dst p (Or.inr hmem), hp.missing]

private theorem copyPasses_cpu (hd : c.dst = cpuId) (hmiss : c.missing ≠ 0) (migrated : PageMask) :
    c.PassesLeft
      (copyPasses c.env c.dst c.region c.pageMask c.mode c.block migrated).2.1 := by
  have hsources : c.dst ∉ ProcessorMask.ids fun id =>
      c.block.residentProcessors id && id ≠ cpuId := by
    rw [mem_ids]
    simp [hd]
  have hspec := firstPass_spec .toCpu hsources (plain_ne c.mode) fun _ => false
  have hpages : ∀ p ∈ c.cpuPlan.pages, p ∈ c.pages := fun p hp =>
    ((passPlan_pages _ _ _).2 p hp).1
  have hplan : c.cpuPlan = passPlan c.env .toCpu c.dst c.region c.pageMask c.block c.missing
      (ProcessorMask.ids fun id => c.block.residentProcessors id && id ≠ cpuId)
      (c.block.resident c.dst) 0 := by
    rw [cpuPlan, hd]
  rw [← hplan] at hspec
  have hblock : (copyPasses c.env c.dst c.region c.pageMask c.mode c.block migrated).2.1 =
      (blockCopyResidentPagesMask c.env .toCpu c.dst c.region c.pageMask
        (if c.mode = .copy then .copy else .move) c.missing
        (ProcessorMask.ids fun id => c.block.residentProcessors id && id ≠ cpuId) 0 c.block
        fun _ => false).block := by
    have hm : (missingPages c.block c.dst c.region c.pageMask).length ≠ 0 := hmiss
    simp only [copyPasses, if_neg hm, if_pos hd]
    simp only [missing, hd]
  rw [hblock]
  refine ⟨Progress.refl.pass hspec hpages, fun p hp => ?_⟩
  rw [holds_iff_of_pass hspec hp, Reaches, if_pos hd]

/-! ### Copies through the stage -/

theorem stagePlan_pages (hp : p ∈ c.stagePlan.pages) :
    p ∈ c.pages ∧ c.block.resident cpuId p = false := by
  have h := (passPlan_pages _ _ _).2 p hp
  exact ⟨h.1, h.2.1⟩

theorem directPlan_pages (hp : p ∈ c.directPlan.pages) : p ∈ c.pages :=
  ((passPlan_pages _ _ _).2 p hp).1

/-- The block after the direct copies and the copies to the stage. -/
private structure StageFilled (c : CopyCall) (s : Residency) : Prop where
  progress : c.Progress s
  atDst : ∀ p, s.resident c.dst p = (c.block.resident c.dst p || decide (p ∈ c.directPlan.pages))
  atCpu : ∀ p, s.resident cpuId p = (c.block.resident cpuId p || decide (p ∈ c.stagePlan.pages))
  held : ∀ p, c.Needed p → (s.holds c.dst p = true ↔ p ∈ c.directPlan.pages)
  stagedDirty : ∀ p ∈ c.stagePlan.pages, s.pageIsClean c.env c.dst cpuId p = false
  restClean : ∀ p, p ∉ c.stagePlan.pages →
    s.pageIsClean c.env c.dst cpuId p = c.block.pageIsClean c.env c.dst cpuId p

section Stage

variable {s : Residency} {staged : PageMask}
  (hstaged : ∀ p, staged p = decide (p ∈ c.stagePlan.pages))

include hstaged

private theorem mem_stage_iff (hs : StageFilled c s) {p : ℕ} :
    p ∈ movePages s c.dst cpuId c.region (some staged) ↔ c.Staged p := by
  rw [mem_movePages, hs.atDst, hs.atCpu, Staged]
  constructor
  · rintro ⟨hp, -, hdst⟩
    have hst := (List.mem_filter.mp hp).2
    simp only [Option.all_some, hstaged, decide_eq_true_eq] at hst
    simp only [Bool.or_eq_false_iff, decide_eq_false_iff_not] at hdst
    exact ⟨hst, hdst⟩
  · rintro ⟨hst, hdst⟩
    have hp := (List.mem_filter.mp (stagePlan_pages hst).1).1
    exact ⟨List.mem_filter.mpr ⟨hp, by simp [hstaged, hst]⟩, by simp [hst], by simpa using hdst⟩

private theorem stage_reached_iff (hd : c.dst ≠ cpuId) (hs : StageFilled c s) {p : ℕ} :
    p ∈ reachedPages c.env .fromStage c.dst cpuId s c.region (some staged) ↔
      c.Staged p ∧ c.env.beginPush .fromStage cpuId = .ok := by
  by_cases hst : p ∈ c.stagePlan.pages
  · rw [mem_reached_iff hd (hs.stagedDirty p hst), mem_stage_iff hstaged hs]
  · constructor
    · intro hp
      exact absurd ((mem_stage_iff hstaged hs).mp (mem_of_reachedPages hp)).1 hst
    · rintro ⟨⟨h, -⟩, -⟩
      exact absurd h hst

private theorem stageEnds_iff (hd : c.dst ≠ cpuId) (hs : StageFilled c s) :
    sourceEnds c.env .fromStage c.dst cpuId s c.region (some staged) = true ↔ c.StageEnds := by
  have hclean : ∀ p ∈ movePages s c.dst cpuId c.region (some staged),
      s.pageIsClean c.env c.dst cpuId p = false := fun p hp =>
    hs.stagedDirty p ((mem_stage_iff hstaged hs).mp hp).1
  by_cases hnone : ∀ p, ¬ c.Staged p
  · have hnil : movePages s c.dst cpuId c.region (some staged) = [] :=
      List.eq_nil_iff_forall_not_mem.mpr fun p hp => hnone p ((mem_stage_iff hstaged hs).mp hp)
    simp [sourceEnds, hnil, StageEnds, hnone]
  · obtain ⟨p, hp⟩ := not_forall_not.mp hnone
    have hmem := (mem_stage_iff hstaged hs).mpr hp
    rw [sourceEnds, StageEnds, or_iff_right hnone, Bool.and_eq_true, Bool.or_eq_true,
      List.all_eq_true, List.all_eq_true, decide_eq_true_eq]
    constructor
    · rintro ⟨hgoes, hadd⟩
      have hg := hgoes p hmem
      simp only [pageGoes, hclean p hmem, Bool.false_or, Bool.and_eq_true,
        decide_eq_true_eq] at hg
      refine ⟨hg.2, hadd.resolve_left fun hall => ?_⟩
      have := hall p hmem
      simp [hclean p hmem] at this
    · rintro ⟨hbegin, hadd⟩
      exact ⟨fun q _ => by simp [pageGoes, hd, hbegin], Or.inr hadd⟩

variable {migrated : PageMask} {mode : InternalMode} {r : CopyResult}

private theorem fromStage_held (hd : c.dst ≠ cpuId) (hs : StageFilled c s)
    (hspec : BetweenSpec c.env .fromStage c.dst cpuId c.region (some staged) mode s migrated r)
    {p : ℕ} (hp : c.Needed p) :
    r.block.holds c.dst p = true ↔ p ∈ c.directPlan.pages ∨
      p ∈ c.stagePlan.pages ∧ c.env.beginPush .fromStage cpuId = .ok := by
  by_cases hr : p ∈ reachedPages c.env .fromStage c.dst cpuId s c.region (some staged)
  · have := (stage_reached_iff hstaged hd hs).mp hr
    simp [hspec.holds_reached hs.progress.consistent hr, this.1.1, this.2]
  · rw [hspec.copied.holds, if_neg fun h => hr h.2.1, hs.held p hp]
    rw [stage_reached_iff hstaged hd hs, Staged] at hr
    have hmiss := hp.not_resident
    tauto

private theorem fromStage_left (hd : c.dst ≠ cpuId) (hs : StageFilled c s)
    (hcomplete : c.directPlan.completes = true ∧ c.stagePlan.completes = true ∧
      c.env.addTracker = .ok)
    (hspec : BetweenSpec c.env .fromStage c.dst cpuId c.region (some staged) mode s migrated r)
    (hfail : r.status ≠ .ok) : c.PassesLeft r.block := by
  refine ⟨hs.progress.between hd hspec fun p hp =>
    (stagePlan_pages ((mem_stage_iff hstaged hs).mp hp).1).1, fun p hp => ?_⟩
  rw [fromStage_held hstaged hd hs hspec hp, Reaches, if_neg hd]
  rw [ne_eq, hspec.status, stageEnds_iff hstaged hd hs] at hfail
  tauto

private theorem rest_left (hd : c.dst ≠ cpuId) (hs : StageFilled c s)
    (hcomplete : c.directPlan.completes = true ∧ c.stagePlan.completes = true ∧
      c.env.addTracker = .ok) {mode' : InternalMode} {migrated' : PageMask} {r' : CopyResult}
    (hspec : BetweenSpec c.env .fromStage c.dst cpuId c.region (some staged) mode s migrated r)
    (hok : r.status = .ok)
    (hspec' : BetweenSpec c.env .rest c.dst cpuId c.region c.pageMask mode' r.block migrated' r') :
    c.PassesLeft r'.block := by
  have hprog : c.Progress r.block := hs.progress.between hd hspec fun p hp =>
    (stagePlan_pages ((mem_stage_iff hstaged hs).mp hp).1).1
  have hends : c.StageEnds := (stageEnds_iff hstaged hd hs).mp (hspec.status.mp hok)
  refine ⟨hprog.between hd hspec' fun p hp => (mem_movePages.mp hp).1, fun p hp => ?_⟩
  have hheld := fromStage_held hstaged hd hs hspec hp
  rw [Reaches, if_neg hd]
  by_cases hdone : r.block.holds c.dst p = true
  · have := hheld.mp hdone
    simp only [hspec'.holds_mono hprog.consistent hdone]
    tauto
  · -- the page is neither copied yet nor on the stage
    have hdirect : p ∉ c.directPlan.pages := fun h => hdone (hheld.mpr (Or.inl h))
    have hstage : p ∉ c.stagePlan.pages := fun h => by
      refine hdone (hheld.mpr (Or.inr ⟨h, ?_⟩))
      rcases hends with hnone | ⟨hbegin, -⟩
      · exact absurd ⟨h, hp.not_resident, hdirect⟩ (hnone p)
      · exact hbegin
    have hnot : p ∉ reachedPages c.env .fromStage c.dst cpuId s c.region (some staged) :=
      fun h => hstage ((stage_reached_iff hstaged hd hs).mp h).1.1
    have hdst : r.block.resident c.dst p = false := by
      rw [hspec.copied.resident, if_pos rfl, hs.atDst]
      simp [hnot, hdirect, hp.not_resident]
    have hcpu : r.block.resident cpuId p = c.block.resident cpuId p := by
      rw [hspec.copied.resident, if_neg hd.symm, hs.atCpu]
      split <;> simp [hnot, hstage]
    have hclean : r.block.pageIsClean c.env c.dst cpuId p =
        c.block.pageIsClean c.env c.dst cpuId p := by
      rw [← hs.restClean p hstage]
      have hdirty : r.block.pageDirty p = s.pageDirty p := by
        rw [hspec.copied.pageDirty, if_neg fun h => hd h.1]
      simp only [Residency.pageIsClean, hdirty]
    have hreached : p ∈ reachedPages c.env .rest c.dst cpuId r.block c.region c.pageMask ↔
        c.block.resident cpuId p = true ∧ c.env.beginPush .rest cpuId = .ok := by
      by_cases hres : c.block.resident cpuId p = true
      · have hdirty : c.block.pageIsClean c.env c.dst cpuId p = false := by
          rw [← Bool.not_eq_true]
          intro hcl
          have := c.consistent.clean c.dst p hres hcl
          simp [hp.missing] at this
        rw [mem_reached_iff hd (hclean.trans hdirty), mem_movePages, hcpu, hdst]
        simp [show p ∈ c.region.pages c.pageMask from hp.page]
      · constructor
        · intro h
          have := (mem_movePages.mp (mem_of_reachedPages h)).2.1
          exact absurd (hcpu ▸ this) hres
        · exact fun h => absurd h.1 hres
    have hhold : r'.block.holds c.dst p = true ↔
        p ∈ reachedPages c.env .rest c.dst cpuId r.block c.region c.pageMask := by
      by_cases hr : p ∈ reachedPages c.env .rest c.dst cpuId r.block c.region c.pageMask
      · simp [hr, hspec'.holds_reached hprog.consistent hr]
      · rw [hspec'.copied.holds, if_neg fun h => hr h.2.1]
        simp [hr, hdone]
    tauto

end Stage

/-! ### All passes -/

private theorem mem_direct_of_count (hzero : c.missing - c.directPlan.pages.length = 0)
    (hp : c.Needed p) : p ∈ c.directPlan.pages := by
  have hnd : c.directPlan.pages.Nodup := (passPlan_pages _ _ _).1
  have hsub : c.directPlan.pages ⊆ missingPages c.block c.dst c.region c.pageMask :=
    fun q hq => by
      have h := (passPlan_pages _ _ _).2 q hq
      exact List.mem_filter.mpr ⟨h.1, by simpa using h.2.1⟩
  have hperm := (List.Nodup.subperm hnd hsub).perm_of_length_le
    (Nat.sub_eq_zero_iff_le.mp hzero)
  rw [hperm.mem_iff]
  exact List.mem_filter.mpr ⟨hp.page, by simpa using hp.not_resident⟩

private theorem directSources_ne : c.dst ∉ c.directSources := by
  rw [directSources, mem_ids]
  simp

private theorem stagedSources_ne {id : ProcessorId} (h : id ∈ c.stagedSources) :
    id ≠ c.dst ∧ id ≠ cpuId := by
  rw [stagedSources, mem_ids] at h
  simp only [Bool.and_eq_true, decide_eq_true_eq] at h
  exact ⟨h.1.2, h.2⟩

section Direct

variable {mode mode' : InternalMode} {migrated migrated' : PageMask} {r r' : CopyResult}
  (hspec : PassSpec c.env c.dst mode c.directSources c.directPlan c.block 0 migrated r)
  (hd : c.dst ≠ cpuId)

include hspec

private theorem stagedSources_eq : (ProcessorMask.ids fun id => r.block.residentProcessors id &&
      !(c.env.canCopyFrom c.dst id && c.block.residentProcessors id && id ≠ c.dst) &&
      id ≠ c.dst && id ≠ cpuId) = c.stagedSources := by
  refine congrArg ProcessorMask.ids (funext fun id => ?_)
  by_cases hid : id = c.dst
  · simp [hid]
  · have hproc : r.block.residentProcessors id = c.block.residentProcessors id := by
      rw [Bool.eq_iff_iff, (hspec.consistent c.consistent).processors, c.consistent.processors,
        hspec.numPages]
      simp [hspec.resident, hid]
    rw [hproc]

include hd

private theorem stage_spec (hmode' : mode' ≠ .moveFromStage) :
    PassSpec c.env cpuId mode' c.stagedSources c.stagePlan r.block 0 (fun _ => false)
      (blockCopyResidentPagesMask c.env .toCpu cpuId c.region c.pageMask mode'
        (c.missing - c.directPlan.pages.length) c.stagedSources 0 r.block fun _ => false) := by
  refine pass_spec hmode' c.stagedSources _ 0 r.block _ (fun h => (stagedSources_ne h).2 rfl)
    (fun p hp => hspec.numPages ▸ page_lt hp) ⟨funext fun p => ?_, fun src hsrc => funext fun p => ?_,
      fun src _ p _ => ?_, fun src _ p _ => ?_⟩
  · rw [hspec.resident]
    simp [hd.symm]
  · rw [hspec.resident]
    simp [(stagedSources_ne hsrc).1]
  · simp only [pageGoes, hspec.cpuOthers hd, Residency.pageIsClean, hspec.dirtyKept p (Or.inl hd)]
  · simp only [Residency.pageIsClean, hspec.dirtyKept p (Or.inl hd)]

private theorem stageFilled
    (hspec' : PassSpec c.env cpuId mode' c.stagedSources c.stagePlan r.block 0 migrated' r') :
    StageFilled c r'.block := by
  have hprog : c.Progress r.block := Progress.refl.pass hspec fun p hp => directPlan_pages hp
  refine ⟨hprog.pass hspec' fun p hp => (stagePlan_pages hp).1, fun p => ?_, fun p => ?_,
    fun p hp => ?_, fun p hp => ?_, fun p hp => ?_⟩
  · rw [hspec'.resident, hspec.resident]
    simp [hd]
  · rw [hspec'.resident, hspec.resident]
    simp [hd.symm]
  · rw [hspec'.others c.dst p (Or.inl hd), holds_iff_of_pass hspec hp]
  · -- a page staged for its preferred location comes from elsewhere, and so is dirty
    by_cases hpref : c.env.preferredLocation = some c.dst
    · have hdirty := hspec'.dirtied p hp rfl fun src hsrc => by
        rw [hpref]
        exact fun h => (stagedSources_ne hsrc).1 (Option.some.inj h).symm
      simp [Residency.pageIsClean, hdirty]
    · simp [Residency.pageIsClean, hpref]
  · simp only [Residency.pageIsClean, hspec'.dirtyKept p (Or.inr hp), hspec.dirtyKept p (Or.inl hd)]

end Direct

private theorem copyPasses_gpu_eq (hd : c.dst ≠ cpuId) (hmiss : c.missing ≠ 0)
    (migrated : PageMask) :
    let plain : InternalMode := if c.mode = .copy then .copy else .move
    let r := blockCopyResidentPagesMask c.env .direct c.dst c.region c.pageMask plain c.missing
      c.directSources 0 c.block migrated
    let staged := blockCopyResidentPagesMask c.env .toCpu cpuId c.region c.pageMask
      (if c.mode = .copy then .copyToStage else .moveToStage) (c.missing - r.copiedPages)
      (ProcessorMask.ids fun id => r.block.residentProcessors id &&
        !(c.env.canCopyFrom c.dst id && c.block.residentProcessors id && id ≠ c.dst) &&
        id ≠ c.dst && id ≠ cpuId) 0 r.block fun _ => false
    let fromStage := blockCopyResidentPagesBetween c.env .fromStage c.dst cpuId c.region
      (some staged.migrated) (if c.mode = .copy then .copyFromStage else .moveFromStage)
      staged.block r.migrated
    (copyPasses c.env c.dst c.region c.pageMask c.mode c.block migrated).2.1 =
      if r.status ≠ .ok then r.block
      else if c.missing - r.copiedPages = 0 then r.block
      else if staged.status ≠ .ok then staged.block
      else if c.env.addTracker ≠ .ok then staged.block
      else if fromStage.status ≠ .ok then fromStage.block
      else (blockCopyResidentPagesBetween c.env .rest c.dst cpuId c.region c.pageMask plain
        fromStage.block fromStage.migrated).block := by
  have hm : (missingPages c.block c.dst c.region c.pageMask).length ≠ 0 := hmiss
  simp only [copyPasses, if_neg hm, if_neg hd]
  simp only [apply_ite Prod.snd, apply_ite Prod.fst]
  rfl

private theorem copyPasses_gpu (hd : c.dst ≠ cpuId) (hmiss : c.missing ≠ 0) (migrated : PageMask) :
    c.PassesLeft
      (copyPasses c.env c.dst c.region c.pageMask c.mode c.block migrated).2.1 := by
  rw [copyPasses_gpu_eq hd hmiss]
  have hspec : PassSpec c.env c.dst _ c.directSources c.directPlan c.block 0 migrated _ :=
    firstPass_spec .direct directSources_ne (plain_ne c.mode) migrated
  generalize blockCopyResidentPagesMask c.env .direct c.dst c.region c.pageMask
    (if c.mode = .copy then .copy else .move) c.missing c.directSources 0 c.block migrated = r
    at hspec ⊢
  have hprog : c.Progress r.block := Progress.refl.pass hspec fun p hp => directPlan_pages hp
  have hdirect : ∀ p, c.Needed p → (r.block.holds c.dst p = true ↔ p ∈ c.directPlan.pages) :=
    fun p hp => holds_iff_of_pass hspec hp
  rw [stagedSources_eq hspec]
  -- each exit is one reason for the passes to reach no further page
  by_cases hst : r.status = .ok
  swap
  · rw [if_pos hst]
    refine ⟨hprog, fun p hp => ?_⟩
    have hfail := mt hspec.status.mpr hst
    rw [hdirect p hp, Reaches, if_neg hd]
    tauto
  have hcomplete := hspec.status.mp hst
  have hcnt : r.copiedPages = c.directPlan.pages.length := by
    rw [hspec.count hcomplete, Nat.zero_add]
  rw [if_neg (not_not.mpr hst), hcnt]
  by_cases hzero : c.missing - c.directPlan.pages.length = 0
  · rw [if_pos hzero]
    refine ⟨hprog, fun p hp => ?_⟩
    have := mem_direct_of_count hzero hp
    rw [hdirect p hp, Reaches, if_neg hd]
    tauto
  rw [if_neg hzero]
  have hspec' : PassSpec c.env cpuId (if c.mode = .copy then .copyToStage else .moveToStage)
      c.stagedSources c.stagePlan r.block 0 (fun _ => false) _ :=
    stage_spec hspec hd (by split <;> simp)
  generalize blockCopyResidentPagesMask c.env .toCpu cpuId c.region c.pageMask
    (if c.mode = .copy then .copyToStage else .moveToStage)
    (c.missing - c.directPlan.pages.length) c.stagedSources 0 r.block (fun _ => false) = staged
    at hspec' ⊢
  have hfilled := stageFilled hspec hd hspec'
  by_cases hst' : staged.status = .ok
  swap
  · rw [if_pos hst']
    refine ⟨hfilled.progress, fun p hp => ?_⟩
    have hfail := mt hspec'.status.mpr hst'
    rw [hfilled.held p hp, Reaches, if_neg hd]
    tauto
  rw [if_neg (not_not.mpr hst')]
  by_cases htracker : c.env.addTracker = .ok
  swap
  · rw [if_pos htracker]
    refine ⟨hfilled.progress, fun p hp => ?_⟩
    rw [hfilled.held p hp, Reaches, if_neg hd]
    tauto
  rw [if_neg (not_not.mpr htracker)]
  have hall := And.intro hcomplete (And.intro (hspec'.status.mp hst') htracker)
  have hstaged : ∀ p, staged.migrated p = decide (p ∈ c.stagePlan.pages) := fun p => by
    rw [hspec'.migrated, Bool.false_or]
  have hfrom : BetweenSpec c.env .fromStage c.dst cpuId c.region (some staged.migrated)
      (if c.mode = .copy then .copyFromStage else .moveFromStage) staged.block r.migrated _ :=
    between_spec hd r.migrated
  generalize blockCopyResidentPagesBetween c.env .fromStage c.dst cpuId c.region
    (some staged.migrated) (if c.mode = .copy then .copyFromStage else .moveFromStage)
    staged.block r.migrated = r' at hfrom ⊢
  by_cases hst'' : r'.status = .ok
  · rw [if_neg (not_not.mpr hst'')]
    exact rest_left hstaged hd hfilled hall hfrom hst'' (between_spec hd r'.migrated)
  · rw [if_pos hst'']
    exact fromStage_left hstaged hd hfilled hall hfrom hst''

theorem copyPasses_left (migrated : PageMask) : c.PassesLeft
      (copyPasses c.env c.dst c.region c.pageMask c.mode c.block migrated).2.1 := by
  by_cases hmiss : c.missing = 0
  · have hblock : (copyPasses c.env c.dst c.region c.pageMask c.mode c.block migrated).2.1 =
        c.block := by
      have hm : (missingPages c.block c.dst c.region c.pageMask).length = 0 := hmiss
      simp only [copyPasses, if_pos hm]
    rw [hblock]
    refine ⟨Progress.refl, fun p hp => absurd (List.length_eq_zero_iff.mp hmiss) ?_⟩
    exact List.ne_nil_of_mem (List.mem_filter.mpr ⟨hp.page, by simpa using hp.not_resident⟩)
  · by_cases hd : c.dst = cpuId
    · exact copyPasses_cpu hd hmiss migrated
    · exact copyPasses_gpu hd hmiss migrated

/-! ## The exit path -/

private theorem breakReadDuplication_resident {b : Residency} (hb : c.Progress b)
    (id : ProcessorId) (p : ℕ) :
    (breakReadDuplicationInRegion c.dst c.region c.pageMask b).resident id p =
      if p ∈ c.pages ∧ id ≠ c.dst then false else b.resident id p := by
  have hmask : p ∈ c.region.pages c.pageMask ↔ p ∈ c.pages := Iff.rfl
  by_cases hp : p ∈ c.pages
  · by_cases hid : id = c.dst
    · simp [breakReadDuplicationInRegion, hid]
    · -- a processor with a resident page has its bit in the mask the loop goes over
      have hbit : b.resident id p = true → b.residentProcessors id = true := fun h =>
        (hb.consistent.processors id).mpr ⟨p, hb.numPages ▸ page_lt hp, h⟩
      cases hres : b.resident id p with
      | false => simp [breakReadDuplicationInRegion, hres]
      | true => simp [breakReadDuplicationInRegion, hmask, hp, hid, hbit hres]
  · simp [breakReadDuplicationInRegion, hmask, hp]

theorem copyOut_resident {b : Residency} (hb : c.Progress b) (migrated : PageMask)
    (id : ProcessorId) (p : ℕ) :
    (copyOut c.dst c.region c.pageMask c.mode b migrated).1.resident id p =
      if p ∈ c.pages then
        decide (id = c.dst) || (decide (c.mode = .copy) && b.resident id p)
      else b.resident id p := by
  have hmarks : ∀ b' : Residency,
      (if missingPages b' c.dst c.region c.pageMask = [] then (b', migrated)
        else (((b'.setResident c.dst fun q => b'.resident c.dst q ||
          decide (q ∈ missingPages b' c.dst c.region c.pageMask)).setResidentProcessor c.dst),
          fun q => migrated q || decide (q ∈ missingPages b' c.dst c.region c.pageMask))).1.resident
        id p = (b'.resident id p || (decide (id = c.dst) && decide (p ∈ c.pages))) := fun b' => by
    have hmem : p ∈ missingPages b' c.dst c.region c.pageMask ↔
        p ∈ c.pages ∧ b'.resident c.dst p = false := by
      simp [missingPages, pages]
    split
    · rename_i hnil
      rw [hnil] at hmem
      by_cases hid : id = c.dst
      · by_cases hp : p ∈ c.pages
        · have : b'.resident c.dst p = true := by simpa [hp] using hmem
          simp [hid, this]
        · simp [hp]
      · simp [hid]
    · by_cases hid : id = c.dst
      · subst hid
        by_cases hp : p ∈ c.pages <;>
          simp [Residency.setResidentProcessor, Residency.setResident, hmem, hp]
      · simp [Residency.setResidentProcessor, Residency.setResident, hid]
  unfold copyOut
  rw [hmarks]
  cases hm : c.mode with
  | move =>
    rw [if_pos rfl, breakReadDuplication_resident hb]
    by_cases hp : p ∈ c.pages <;> by_cases hid : id = c.dst <;> simp [hp, hid]
  | copy =>
    by_cases hp : p ∈ c.pages <;> simp [hp, Bool.or_comm]

theorem copyOut_holds (b : Residency) (migrated : PageMask) :
    (copyOut c.dst c.region c.pageMask c.mode b migrated).1.holds = b.holds := by
  unfold copyOut
  by_cases hm : c.mode = .move
  · simp only [if_pos hm]
    split <;> rfl
  · simp only [if_neg hm]
    split <;> rfl

/-- **A copy keeps the data of every page if and only if the passes reach every page that has
its data on other processors only.** -/
theorem dataKept_iff (c : CopyCall) (migrated : PageMask) :
    c.DataKept (c.run migrated).2.1 ↔ ∀ p, c.Needed p → c.Reaches p := by
  have hleft := c.copyPasses_left migrated
  let t := copyPasses c.env c.dst c.region c.pageMask c.mode c.block migrated
  have hhold := copyOut_holds (c := c)
    t.2.1
    t.2.2
  have hres := copyOut_resident hleft.toProgress
    t.2.2
  have hrun : (c.run migrated).2.1 = (copyOut c.dst c.region c.pageMask c.mode
    t.2.1
    t.2.2).1 := rfl
  rw [hrun]
  generalize t.2.1 = b
    at hleft hhold hres ⊢
  constructor
  · intro hkept p hp
    rw [← hleft.reached p hp, ← hhold]
    refine hkept.marked c.dst p (page_lt hp.page) ?_ hp.elsewhere
    rw [hres, if_pos hp.page]
    simp
  · intro hreach
    -- on the pages of the call the destination holds the data
    have hdst : ∀ p, p ∈ c.pages → (∃ id, c.block.resident id p = true) →
        b.holds c.dst p = true := fun p hp hsome => by
      cases hh : c.block.holds c.dst p with
      | true => exact hleft.held c.dst p hh
      | false =>
        have hneed : c.Needed p := ⟨hp, hsome, hh⟩
        exact (hleft.reached p hneed).mpr (hreach p hneed)
    refine ⟨fun p _ hsome => ?_, fun id p _ hmark hsome => ?_⟩
    · by_cases hp : p ∈ c.pages
      · exact ⟨c.dst, by rw [hres, if_pos hp]; simp, by rw [hhold]; exact hdst p hp hsome⟩
      · obtain ⟨id, hid⟩ := hsome
        rw [← hleft.untouched id p hp] at hid
        exact ⟨id, by rw [hres, if_neg hp, hid], by
          rw [hhold]; exact hleft.consistent.memory id p hid⟩
    · rw [hhold]
      rw [hres] at hmark
      by_cases hp : p ∈ c.pages
      · by_cases hid : id = c.dst
        · rw [hid]
          exact hdst p hp hsome
        · rw [if_pos hp] at hmark
          simp only [hid, decide_false, Bool.false_or, Bool.and_eq_true] at hmark
          exact hleft.consistent.memory id p hmark.2
      · rw [if_neg hp] at hmark
        exact hleft.consistent.memory id p hmark

end CopyCall

/-! ## Two copies that lose a page -/

/-- Nothing fails but the pushes, which begin with `beginPush`; GPU 4 can copy from the
CPU and from GPU 1. -/
private def pushEnv (beginPush : NvStatus) : CopyEnv where
  preferredLocation := none
  handlingReplayableFaults := fun _ => true
  canCopyFrom := fun dst src => dst = 4 && (src = 1 || src = cpuId)
  allocCpuPage := fun _ _ => .ok
  beginPush := fun _ _ => beginPush
  addPush := fun _ _ => .ok
  addTracker := .ok
  finalTracker := .ok

/-- A block of two pages that are resident, and have their data, where `resident` says. -/
private def twoPages (resident : ProcessorId → PageMask) : Residency where
  numPages := 2
  resident := resident
  residentProcessors := fun id => resident id 0 || resident id 1
  readDuplicated := fun _ => false
  cpuPages := fun _ => true
  pageDirty := fun _ => true
  holds := resident

private def moveTwoPages (beginPush : NvStatus) (dst : ProcessorId)
    (resident : ProcessorId → PageMask) : CopyCall where
  env := pushEnv beginPush
  dst := dst
  region := ⟨0, 2⟩
  pageMask := none
  mode := .move
  block := twoPages resident
  inBlock := le_refl 2
  consistent := by
    refine ⟨fun _ _ h => h, fun dst p _ h => ?_, fun id => ?_⟩
    · simp [Residency.pageIsClean, pushEnv] at h
    · simp only [twoPages, Bool.or_eq_true]
      constructor
      · rintro (h | h)
        · exact ⟨0, by decide, h⟩
        · exact ⟨1, by decide, h⟩
      · rintro ⟨p, hp, h⟩
        obtain rfl | rfl : p = 0 ∨ p = 1 := by omega
        · exact Or.inl h
        · exact Or.inr h

/-- A push that does not begin, and a stage that is cut short: page 0 is on GPU 1 in the first
move, and is marked on the CPU although its copy failed.  In the second, page 0 is on GPUs 1
and 2 and page 1 on GPU 3; page 0 is copied directly, and copied to the stage once more, which
uses up the count of the pages that are missing, so that page 1 is not copied at all. -/
theorem moves_lose_pages : (let c := moveTwoPages .errNoMemory cpuId fun id p => id = 1 && p = 0
      let r := c.run fun _ => false
      r.1 = .errNoMemory ∧ r.2.1.resident 1 0 = false ∧ r.2.1.resident cpuId 0 = true ∧
        r.2.1.holds cpuId 0 = false ∧ ¬ c.DataKept r.2.1) ∧
    (let c := moveTwoPages .ok 4 fun id p => id = 1 && p = 0 || id = 2 && p = 0 || id = 3 && p = 1
      let r := c.run fun _ => false
      r.1 = .ok ∧ r.2.1.resident 3 1 = false ∧ r.2.1.resident 4 1 = true ∧
        r.2.1.holds 4 1 = false ∧ ¬ c.DataKept r.2.1) := by
  refine ⟨⟨rfl, rfl, rfl, rfl, fun h => ?_⟩, ⟨rfl, rfl, rfl, rfl, fun h => ?_⟩⟩
  · exact absurd (h.marked cpuId 0 (by decide) rfl ⟨1, rfl⟩) (by decide)
  · exact absurd (h.marked 4 1 (by decide) rfl ⟨3, rfl⟩) (by decide)

end NvUvm
