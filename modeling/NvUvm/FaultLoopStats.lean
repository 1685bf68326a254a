import NvUvm.FaultLoop

/-!
# The uTLB statistics along the fault servicing loop

The statistics should describe the cached faults: nothing is pending once a batch is serviced, and
when the precise cancel records a fatal fault for each uTLB with one, it finds it.  A batch leaves
statistics behind when it skips a fault in a VA space that the GPU is not registered with, when it
retries a block with a fatal fault, or when an error ends it; the next fetch adds to them.
-/

namespace NvUvm

open Lib

/-- When `service_fault_batch` has returned `NV_OK` no uTLB has pending faults, and when
`cancel_faults_precise` records the fatal faults it finds one in the cache for every uTLB that has
some. -/
structure StatsDescribeCache (s : FaultLoop) : Prop where
  serviced : ∀ cancel, s.phase = .serviced cancel .ok → ∀ utlb, s.utlbPending utlb = 0
  recorded : s.phase = .precise → ∀ utlb, utlb ≤ s.maxUtlbId → 0 < s.utlbFatal utlb →
    findFatalFaultInUtlb s.cache utlb < s.cache.length

/-- The condition on a step.  A batch that is serviced leaves no statistics behind
(`SortedBatch.StatsKept`), and the wait before the precise cancel does not fail. -/
def KeepsStats (s : FaultLoop) : LoopOp → Prop
  | .bufferFlush => True
  | .batch b => s.phase = .idle → b.vaSpaceGone = none → (FaultLoop.serviceInput false b).StatsKept
  | .iterate b _ pushReplay waitReplay => s.phase = .precise → pushReplay = .ok → waitReplay = .ok →
    b.vaSpaceGone = none → (FaultLoop.serviceInput true b).StatsKept
  | .finish _ waitTracker _ => s.phase = .serviced false .ok → 0 < s.fatalFaults →
    waitTracker = .ok

/-! ## The invariant -/

namespace FaultLoop

def Clean (s : FaultLoop) : Prop := ∀ u, s.utlbPending u = 0 ∧ s.utlbFatal u = 0

/-- Statistics are of uTLBs of the last fetch, and a uTLB with a fatal fault has one in the cache. -/
structure Listed (s : FaultLoop) : Prop where
  pending : ∀ u, 0 < s.utlbPending u → u ≤ s.maxUtlbId
  fatal : ∀ u, 0 < s.utlbFatal u → u ≤ s.maxUtlbId ∧
    ∃ c ∈ s.cache, c.isFatal = true ∧ c.entry.utlbId = u

/-- The invariant, phase by phase. -/
structure StatsInv (s : FaultLoop) : Prop where
  idle : s.phase = .idle → s.Clean
  precise : s.phase = .precise → s.Listed
  ok : ∀ cancel, s.phase = .serviced cancel .ok → (∀ u, s.utlbPending u = 0) ∧ s.Listed ∧
    (s.fatalFaults = 0 → ∀ u, s.utlbFatal u = 0)
  noMemory : s.phase = .serviced true .errNoMemory → s.Listed
  error : ∀ cancel status, s.phase = .serviced cancel status → status ≠ .ok →
    ¬ (cancel = true ∧ status = .errNoMemory) → s.Clean

variable {s : FaultLoop} {b : BatchInput}

theorem Clean.listed (h : s.Clean) : s.Listed :=
  ⟨fun u hu => absurd (h u).1 (by omega), fun u hu => absurd (h u).2 (by omega)⟩

theorem Clean.inv (h : s.Clean) : s.StatsInv :=
  ⟨fun _ => h, fun _ => h.listed, fun _ _ => ⟨fun u => (h u).1, h.listed, fun _ u => (h u).2⟩,
    fun _ => h.listed, fun _ _ _ _ _ => h⟩

theorem findFatalFaultInUtlb_lt {cache : List CachedFault} {c : CachedFault} (hc : c ∈ cache)
    (hfatal : c.isFatal = true) : findFatalFaultInUtlb cache c.entry.utlbId < cache.length :=
  List.findIdx_lt_length_of_exists ⟨c, hc, by simp [hfatal]⟩

theorem StatsInv.describes (h : s.StatsInv) : StatsDescribeCache s := by
  refine ⟨fun cancel hphase => (h.ok cancel hphase).1, fun hphase u _ hu => ?_⟩
  obtain ⟨-, c, hc, hfatal, rfl⟩ := (h.precise hphase).fatal u hu
  exact findFatalFaultInUtlb_lt hc hfatal

theorem clean_flushLocked (hp : ∀ u, 0 < s.utlbPending u → u ≤ s.maxUtlbId)
    (hf : ∀ u, 0 < s.utlbFatal u → u ≤ s.maxUtlbId) : s.flushLocked.Clean := by
  intro u
  have h1 := hp u
  have h2 := hf u
  simp only [flushLocked]
  constructor <;> split <;> omega

/-! ## A batch -/

private theorem le_foldl_max (l : List ℕ) (m : ℕ) :
    m ≤ l.foldl max m ∧ ∀ x ∈ l, x ≤ l.foldl max m := by
  induction l generalizing m with
  | nil => exact ⟨le_refl m, fun x hx => by cases hx⟩
  | cons y l ih =>
    obtain ⟨h1, h2⟩ := ih (max m y)
    refine ⟨(le_max_left m y).trans h1, fun x hx => ?_⟩
    rcases List.mem_cons.mp hx with rfl | hx
    · exact (le_max_right m x).trans h1
    · exact h2 x hx

theorem mem_hwOrder (b : BatchInput) {j : ℕ} : j ∈ b.hwOrder ↔ j < b.faults.cachedFaults :=
  b.perm.mem_iff.trans List.mem_range

theorem utlb_le_maxUtlbOf (b : BatchInput) {j : ℕ} (hj : j < b.faults.cachedFaults) :
    (b.faults.entry j).utlbId ≤ maxUtlbOf b :=
  (le_foldl_max _ 0).2 _ (List.mem_map.mpr ⟨j, (mem_hwOrder b).mpr hj, rfl⟩)

theorem serviceBatch_stats {cancel : Bool} {s' : FaultLoop} (hclean : s.Clean)
    (hkept : b.vaSpaceGone = none → (serviceInput cancel b).StatsKept)
    (h : s.serviceBatch cancel b = some s') : s'.StatsInv := by
  have hpend : ∀ u, (s.fetch b).utlbPending u =
      utlbCount b.faults.entry u (List.range b.faults.cachedFaults) := fun u => by
    simp [fetch, (hclean u).1]
  have hfatal : ∀ u, (s.fetch b).utlbFatal u = 0 := fun u => (hclean u).2
  unfold serviceBatch at h
  cases hgone : b.vaSpaceGone with
  | some status =>
    rw [hgone] at h
    obtain rfl := Option.some.inj h
    have hflushed : (s.fetch b).flushLocked.Clean := by
      refine clean_flushLocked (fun u hu => ?_) fun u hu => absurd (hfatal u) (by omega)
      rw [hpend] at hu
      obtain ⟨j, hj, rfl⟩ := (utlbCount_pos _).mp hu
      exact utlb_le_maxUtlbOf b (List.mem_range.mp hj)
    have hclean' : Clean { (s.fetch b).flushLocked with
        phase := if cancel ∧ status = .ok then .precise else .idle } := hflushed
    exact hclean'.inv
  | none =>
    rw [hgone] at h
    simp only [Option.map_eq_some_iff] at h
    obtain ⟨⟨status, r⟩, hr, rfl⟩ := h
    have hstats := (serviceInput cancel b).batchStats_of_kept
      (fun j hj => utlb_le_maxUtlbOf b hj) (fun j => rfl) hpend hfatal rfl (hkept hgone) hr
    -- the cache holds the faults with the marks that the service left
    have hlisted : (serviceInput cancel b).StatsListed r → Listed { s.fetch b with
        phase := .serviced cancel status
        cache := cacheOf b fun j => (r.flags j).isFatal
        utlbPending := r.utlbPending
        utlbFatal := r.utlbFatal
        fatalFaults := r.fatalFaults
        batchId := r.batchId } := fun hl => by
      refine ⟨hl.pending, fun u hu => ?_⟩
      obtain ⟨hmax, j, hj, hmark, hutlb⟩ := hl.fatal u hu
      exact ⟨hmax, _, List.mem_map.mpr ⟨j, (mem_hwOrder b).mpr hj, rfl⟩, hmark, hutlb⟩
    refine ⟨(fun hphase => by cases hphase), (fun hphase => by cases hphase),
      fun c hphase => ?_, fun hphase => ?_, fun c st hphase hne hno => ?_⟩
    · obtain ⟨-, rfl⟩ := LoopPhase.serviced.inj hphase
      obtain ⟨h1, h2, h3⟩ := hstats.ok rfl
      exact ⟨h1, hlisted h2, h3⟩
    · obtain ⟨rfl, rfl⟩ := LoopPhase.serviced.inj hphase
      exact hlisted (hstats.noMemory rfl rfl)
    · obtain ⟨rfl, rfl⟩ := LoopPhase.serviced.inj hphase
      exact hstats.error hne hno

/-! ## The steps -/

theorem batchStep_stats (hphase : s.phase = .idle) (h : s.StatsInv)
    (hkept : b.vaSpaceGone = none → (serviceInput false b).StatsKept) :
    (s.batchStep b).StatsInv := by
  have hclean := h.idle hphase
  unfold batchStep
  split
  · have hempty : Clean { s with maxUtlbId := 0, cache := [], batchId := s.batchId + 1 } := hclean
    exact hempty.inv
  · cases hs : s.serviceBatch false b with
    | none => exact h
    | some s' => exact serviceBatch_stats hclean hkept hs

theorem iterateStep_stats {pastEnd : CachedFault} {pushReplay waitReplay : NvStatus}
    (hphase : s.phase = .precise) (h : s.StatsInv)
    (hkept : pushReplay = .ok → waitReplay = .ok → b.vaSpaceGone = none →
      (serviceInput true b).StatsKept) :
    (s.iterateStep b pastEnd pushReplay waitReplay).StatsInv := by
  have hlisted := h.precise hphase
  have hclean : (s.recordFatal pastEnd).flushLocked.Clean :=
    clean_flushLocked hlisted.pending fun u hu => (hlisted.fatal u hu).1
  unfold iterateStep
  dsimp only
  generalize (s.recordFatal pastEnd).flushLocked = s₁ at hclean ⊢
  split
  · have hidle : Clean { s₁ with phase := .idle } := hclean
    exact hidle.inv
  · next hok =>
    obtain ⟨hpush, hwait⟩ := not_or.mp hok
    split
    · have hempty : Clean { s₁ with
          phase := .idle, maxUtlbId := 0, cache := [], batchId := s₁.batchId + 1 } := hclean
      exact hempty.inv
    · generalize hs₂ : ({ s₁ with
          cancelled := (s₁.fetch b).checkLockdown.cancelled
          inLockdown := (s₁.fetch b).checkLockdown.inLockdown } : FaultLoop) = s₂
      have hclean₂ : s₂.Clean := by
        rw [← hs₂]
        exact hclean
      cases hs : s₂.serviceBatch true b with
      | none => exact h
      | some s' =>
        exact serviceBatch_stats hclean₂ (hkept (not_not.mp hpush) (not_not.mp hwait)) hs

theorem finishRegular_stats {policy : ReplayPolicy} {waitTracker status : NvStatus}
    {push : ℕ → NvStatus} (hphase : s.phase = .serviced false status) (h : s.StatsInv)
    (hwait : status = .ok → 0 < s.fatalFaults → waitTracker = .ok) :
    (s.finishRegular policy waitTracker push status).StatsInv := by
  unfold finishRegular
  split
  · next hwarn =>
    have hclean : Clean { s with phase := .idle } := h.error false status hphase
      (by rw [hwarn]; simp) (by simp)
    exact hclean.inv
  · split
    · next hne =>
      have hclean := h.error false status hphase hne (by simp)
      refine Clean.inv ?_
      exact hclean
    · next hok =>
      obtain rfl : status = .ok := not_not.mp hok
      obtain ⟨hpend, hlisted, hnone⟩ := h.ok false hphase
      split
      · next hfatal =>
        rw [if_pos (hwait rfl hfatal)]
        exact ⟨(fun hp => by cases hp), fun _ => ⟨hlisted.pending, hlisted.fatal⟩,
          (fun _ hp => by cases hp), (fun hp => by cases hp), (fun _ _ hp => by cases hp)⟩
      · next hfatal =>
        have hclean : s.Clean := fun u => ⟨hpend u, hnone (by omega) u⟩
        split
        · have hflushed : s.flushLocked.Clean :=
            clean_flushLocked hlisted.pending fun u hu => (hlisted.fatal u hu).1
          refine Clean.inv ?_
          exact hflushed
        · refine Clean.inv ?_
          exact hclean

theorem finishPrecise_stats {status : NvStatus} {push : ℕ → NvStatus}
    (hphase : s.phase = .serviced true status) (h : s.StatsInv) :
    (s.finishPrecise push status).StatsInv := by
  -- going on only needs the listed statistics
  have hprecise : ∀ s' : FaultLoop, s.Listed → s'.utlbPending = s.utlbPending →
      s'.utlbFatal = s.utlbFatal → s'.maxUtlbId = s.maxUtlbId → s'.cache = s.cache →
      s'.phase = .precise → s'.StatsInv := fun s' hl h1 h2 h3 h4 h5 => by
    refine ⟨fun hp => ?_, fun _ => ⟨?_, ?_⟩, fun _ hp => ?_, fun hp => ?_, fun _ _ hp => ?_⟩
    · rw [h5] at hp
      cases hp
    · rw [h1, h3]
      exact hl.pending
    · rw [h2, h3, h4]
      exact hl.fatal
    all_goals
      rw [h5] at hp
      cases hp
  unfold finishPrecise
  split
  · next hretry =>
    refine hprecise _ ?_ rfl rfl rfl rfl rfl
    rcases hretry with rfl | rfl
    · exact (h.error true _ hphase (by simp) (by simp)).listed
    · exact h.noMemory hphase
  · next hretry =>
    obtain ⟨-, hmem⟩ := not_or.mp hretry
    split
    · next hne =>
      have hclean := h.error true status hphase hne fun hc => hmem hc.2
      refine Clean.inv ?_
      exact hclean
    · next hok =>
      obtain rfl : status = .ok := not_not.mp hok
      obtain ⟨hpend, hlisted, hnone⟩ := h.ok true hphase
      split
      · next hzero =>
        refine Clean.inv ?_
        exact fun u => ⟨hpend u, hnone hzero u⟩
      · exact hprecise _ hlisted rfl rfl rfl rfl rfl

end FaultLoop

open FaultLoop

theorem loopStep_stats (s : FaultLoop) (op : LoopOp) (h : s.StatsInv) (hkeep : KeepsStats s op) :
    (s.loopStep op).StatsInv := by
  have h₀ : StatsInv { s with cancelRecord := none } :=
    ⟨h.idle, fun hp => ⟨(h.precise hp).pending, (h.precise hp).fatal⟩,
      fun c hp => ⟨(h.ok c hp).1, ⟨(h.ok c hp).2.1.pending, (h.ok c hp).2.1.fatal⟩, (h.ok c hp).2.2⟩,
      fun hp => ⟨(h.noMemory hp).pending, (h.noMemory hp).fatal⟩, h.error⟩
  have hkeeps₀ : KeepsStats { s with cancelRecord := none } op := by
    cases op <;> exact hkeep
  unfold loopStep
  generalize ({ s with cancelRecord := none } : FaultLoop) = s₀ at h₀ hkeeps₀ ⊢
  dsimp only
  cases op with
  | bufferFlush =>
    cases hphase : s₀.phase with
    | idle =>
      have hlisted := (h₀.idle hphase).listed
      exact (clean_flushLocked hlisted.pending fun u hu => (hlisted.fatal u hu).1).inv
    | serviced cancel status => exact h₀
    | precise => exact h₀
  | batch b =>
    cases hphase : s₀.phase with
    | idle => exact batchStep_stats hphase h₀ (hkeeps₀ hphase)
    | serviced cancel status => exact h₀
    | precise => exact h₀
  | iterate b pastEnd pushReplay waitReplay =>
    cases hphase : s₀.phase with
    | idle => exact h₀
    | serviced cancel status => exact h₀
    | precise => exact iterateStep_stats hphase h₀ (hkeeps₀ hphase)
  | finish policy waitTracker push =>
    cases hphase : s₀.phase with
    | idle => exact h₀
    | serviced cancel status =>
      cases cancel with
      | false =>
        refine finishRegular_stats hphase h₀ fun hok hfatal => ?_
        subst hok
        exact hkeeps₀ hphase hfatal
      | true => exact finishPrecise_stats hphase h₀
    | precise => exact h₀

/-- **The statistics along a run**: while every step meets the condition, the statistics of the
uTLBs describe the cached faults. -/
theorem statsDescribeCache_along {s : FaultLoop} (hclean : s.Clean) (ops : List LoopOp)
    (h : StepsMeet loopStep KeepsStats s ops) :
    HoldsAlong loopStep StatsDescribeCache s ops :=
  holds_along_of_meets loopStep hclean.inv (fun _ hs => hs.describes) loopStep_stats h

/-! ## A fault that stays pending -/

/-- A serviced batch and the end of its bottom half. -/
theorem statsDescribeCache_along_serviced : HoldsAlong loopStep StatsDescribeCache faultLoopInit
      [.batch (readBatch true .ok), .finish .batchFlush .ok fun _ => .ok] := by
  apply statsDescribeCache_along (fun u => ⟨rfl, rfl⟩)
  rw [stepsMeet_cons, stepsMeet_cons]
  refine ⟨fun _ _ => ?_, fun _ _ => rfl, stepsMeet_nil _ _ _⟩
  intro v hv
  obtain rfl := List.mem_singleton.mp hv
  refine ⟨(fun i hi => by cases hi), fun first stop b hb => ?_⟩
  obtain ⟨rfl, rfl, rfl⟩ := Visit.block.inj hb
  exact Or.inl (by decide)

/-- A fault that is skipped because the GPU VA space is gone stays pending in a batch that is
serviced with `NV_OK`. -/
theorem unregistered_fault_stays_pending :
    ¬ HoldsAlong loopStep StatsDescribeCache faultLoopInit [.batch (readBatch false .ok)] := by
  intro h
  have hnone := (h _ (List.prefix_refl _)).serviced false (by decide +kernel) 0
  exact absurd hnone (by decide +kernel)

end NvUvm
