import NvUvm.FaultPages

/-!
# The loop of a pass

The loop over the faults of a block takes the migratability of each fault from the iterator, which moves
along with the faults, and keeps what `scanBlock` keeps besides its masks.
-/

namespace NvUvm.FaultPass

open Lib

/-! ## The iterator -/

theorem coverAddress_spec {tree : List RangeGroupRange} (ht : Ordered tree) {last address : ℕ}
    (hlast : address ≤ last) : ∀ (fuel : ℕ) (iter : RangeGroupRangeIter), IterInv tree last iter →
      iter.start ≤ address → address - iter.last ≤ fuel →
      IterInv tree last (coverAddress last address fuel iter) ∧
        (coverAddress last address fuel iter).start ≤ address ∧
        address ≤ (coverAddress last address fuel iter).last := by
  intro fuel
  induction fuel with
  | zero =>
    intro iter hinv hstart hfuel
    rw [coverAddress]
    exact ⟨hinv, hstart, by omega⟩
  | succ fuel ih =>
    intro iter hinv hstart hfuel
    rw [coverAddress]
    split
    · next hbefore =>
      obtain ⟨hnext, -, hnextStart⟩ := migratabilityIterNext_spec ht hinv (by omega)
      have hle := hnext.startLe
      exact ih _ hnext (by omega) (by omega)
    · exact ⟨hinv, hstart, by omega⟩

/-! ## A turn of the loop -/

variable {env : PassEnv} {b : BlockBatch} {serviceFaults : NvStatus}

/-- The flags that the fault before left, if it is on the same page. -/
def previousFlags (b : BlockBatch) (i : ℕ) (flags : ℕ → FaultFlags) : Option FaultFlags :=
  if b.first < i ∧ (b.entry i).faultAddress = (b.entry (i - 1)).faultAddress then
    some (flags (i - 1)) else none

/-- What a turn of the loop leaves of `s`, for fault `i`. -/
structure FaultSpec (env : PassEnv) (b : BlockBatch) (serviceFaults : NvStatus) (i : ℕ)
    (s r : PassState) : Prop where
  scan : r.scan = scanFault b.entry (env.attempt b serviceFaults) s.serviced.context.numRetries
    b.first i s.scan
  serviced : r.serviced =
    if (judgeFault b.entry (env.attempt b serviceFaults) i
        (previousFlags b i s.scan.batch.flags)).service then
      serviceFault env b.block (b.entry i) s.serviced
    else s.serviced
  iter : IterInv env.groups b.block.last r.iter
  start : r.iter.start ≤ (b.entry i).faultAddress
  notified : r.notified =
    if s.serviced.context.numRetries = 0 then s.notified ++ [i] else s.notified

variable {i numRetries : ℕ}

theorem passFault_spec (hi : b.OnBlock i) {s : PassState}
    (hiter : IterInv env.groups b.block.last s.iter)
    (hstart : s.iter.start ≤ (b.entry i).faultAddress) :
    FaultSpec env b serviceFaults i s (passFault env b.entry b.block b.first i s) := by
  obtain ⟨hcover, hcoverStart, hcoverLast⟩ := coverAddress_spec env.ordered hi.2.2.2.2
    ((b.entry i).faultAddress - s.iter.last) s.iter hiter hstart le_rfl
  -- the permission that is checked is that of the fault
  let t := env.attempt b serviceFaults
  have hperm : env.checkLogicalPermissions (b.entry i).accessType
      (coverAddress b.block.last (b.entry i).faultAddress
        ((b.entry i).faultAddress - s.iter.last) s.iter).migratable =
      t.permission i := by
    rw [← hcover.homogeneous _ hcoverStart hcoverLast]
    rfl
  have hprevious : (if b.first < i ∧ (b.entry i).faultAddress = (b.entry (i - 1)).faultAddress then
      some (s.scan.batch.flags (i - 1)) else none) = previousFlags b i s.scan.batch.flags := rfl
  unfold passFault
  dsimp only
  rw [hprevious]
  have hscan : scanFault b.entry t s.serviced.context.numRetries b.first i
      s.scan = countFault b.entry s.serviced.context.numRetries i
        (judgeFault b.entry t i
          (previousFlags b i s.scan.batch.flags)).flags
        { s.scan with
          batch := s.scan.batch.setFlags i
            (judgeFault b.entry t i
              (previousFlags b i s.scan.batch.flags)).flags
          pageFaultCount := s.scan.pageFaultCount +
            if (judgeFault b.entry t i
              (previousFlags b i s.scan.batch.flags)).service then 1 else 0 } := rfl
  generalize hprev : previousFlags b i s.scan.batch.flags = previous at hscan ⊢
  by_cases hwaived : previous.any (!·.isFatal) = true
  · have hjudge : judgeFault b.entry t i previous =
        ⟨⟨false, previous.any (·.isThrottled), previous.any (·.isInvalidPrefetch)⟩, false⟩ := by
      exact if_pos hwaived
    rw [if_pos hwaived]
    rw [hjudge] at hscan
    exact ⟨hscan.symm, by rw [hprev, hjudge]; rfl, hiter, hstart, rfl⟩
  rw [if_neg hwaived, hperm]
  by_cases hdenied : t.permission i ≠ .ok
  · rw [if_pos hdenied]
    by_cases hacc : (b.entry i).accessType ≠ .prefetch
    · have hjudge : judgeFault b.entry t i previous =
          ⟨⟨true, previous.any (·.isThrottled), previous.any (·.isInvalidPrefetch)⟩, false⟩ := by
        exact (if_neg hwaived).trans ((if_pos hdenied).trans (if_pos hacc))
      rw [if_pos hacc]
      rw [hjudge] at hscan
      exact ⟨hscan.symm, by rw [hprev, hjudge]; rfl, hcover, hcoverStart, rfl⟩
    · have hjudge : judgeFault b.entry t i previous =
          ⟨⟨false, previous.any (·.isThrottled), true⟩, false⟩ := by
        exact (if_neg hwaived).trans ((if_pos hdenied).trans (if_neg hacc))
      rw [if_neg hacc]
      rw [hjudge] at hscan
      exact ⟨hscan.symm, by rw [hprev, hjudge]; rfl, hcover, hcoverStart, rfl⟩
  rw [if_neg hdenied]
  by_cases hauth : env.isGpuAuthorized (pageIndex b.block (b.entry i).faultAddress)
      (faultAccessTypeToProt (b.entry i).accessType) = true
  · have hjudge : judgeFault b.entry t i previous =
        ⟨⟨false, previous.any (·.isThrottled), previous.any (·.isInvalidPrefetch)⟩, false⟩ := by
      exact (if_neg hwaived).trans ((if_neg hdenied).trans (if_pos hauth))
    rw [if_pos hauth]
    rw [hjudge] at hscan
    exact ⟨hscan.symm, by rw [hprev, hjudge]; rfl, hcover, hcoverStart, rfl⟩
  rw [if_neg hauth]
  by_cases hthrottle : env.thrashingHint (b.entry i).faultAddress = .throttle
  · have hhint : t.throttle i = true :=
      (Bool.not_eq_false _).mp fun hfalse => throttle_iff.mp hfalse hthrottle
    have hjudge : judgeFault b.entry t i previous =
        ⟨⟨false, true, previous.any (·.isInvalidPrefetch)⟩, false⟩ := by
      exact (if_neg hwaived).trans ((if_neg hdenied).trans ((if_neg hauth).trans (if_pos hhint)))
    rw [hthrottle]
    rw [hjudge] at hscan
    exact ⟨hscan.symm, by rw [hprev, hjudge]; rfl, hcover, hcoverStart, rfl⟩
  · have hhint : ¬ t.throttle i = true := by
      rw [Bool.not_eq_true, throttle_iff]
      exact hthrottle
    have hjudge : judgeFault b.entry t i previous =
        ⟨⟨false, previous.any (·.isThrottled), previous.any (·.isInvalidPrefetch)⟩, true⟩ := by
      exact (if_neg hwaived).trans ((if_neg hdenied).trans ((if_neg hauth).trans (if_neg hhint)))
    rw [hjudge] at hscan
    split
    · next h => exact absurd h hthrottle
    · refine ⟨?_, by rw [hprev, hjudge]; rfl, hcover, hcoverStart, rfl⟩
      rw [hscan]
      unfold PassState.next
      rw [serviceFault_numRetries]
      rfl

/-! ## The counters -/

/-- How many of the faults from `i` up to `stop` are counted; a retry does not count. -/
def counted (numRetries : ℕ) (p : ℕ → Bool) (i stop : ℕ) : ℕ :=
  if numRetries = 0 then (List.range' i (stop - i)).countP p else 0

theorem counted_self {p : ℕ → Bool} : counted numRetries p i i = 0 := by
  unfold counted
  rw [Nat.sub_self]
  split <;> rfl

theorem counted_succ {p : ℕ → Bool} {stop : ℕ} (h : i < stop) : counted numRetries p i stop =
      (if numRetries = 0 ∧ p i = true then 1 else 0) + counted numRetries p (i + 1) stop := by
  unfold counted
  by_cases h0 : numRetries = 0
  · rw [if_pos h0, if_pos h0, show stop - i = stop - (i + 1) + 1 by omega, List.range'_succ,
      List.countP_cons, Nat.add_comm]
    simp only [h0, true_and]
  · rw [if_neg h0, if_neg h0, if_neg fun hc => h0 hc.1]

def flagsAt (env : PassEnv) (b : BlockBatch) (serviceFaults : NvStatus) (i : ℕ) : FaultFlags :=
  (verdictAt b.entry (env.attempt b serviceFaults) b.first (i - b.first)).flags

/-- The counters of `r` are those of `s` with the faults from `i` up to `stop`. -/
structure Counted (env : PassEnv) (b : BlockBatch) (serviceFaults : NvStatus) (numRetries i stop : ℕ)
    (s r : ScanState) : Prop where
  throttled : r.blockThrottledFaults = s.blockThrottledFaults +
    counted numRetries (fun j => (flagsAt env b serviceFaults j).isThrottled) i stop
  invalidPrefetch : r.blockInvalidPrefetchFaults = s.blockInvalidPrefetchFaults +
    counted numRetries (fun j => (flagsAt env b serviceFaults j).isInvalidPrefetch) i stop
  pending : ∀ utlb, r.batch.utlbPending utlb = s.batch.utlbPending utlb -
    counted numRetries (fun j => decide ((b.entry j).utlbId = utlb)) i stop
  batchThrottled : r.batch.throttledFaults = s.batch.throttledFaults
  batchInvalidPrefetch : r.batch.invalidPrefetchFaults = s.batch.invalidPrefetchFaults
  batchServiced : r.batch.servicedFaults = s.batch.servicedFaults

theorem countFault_counted {s : ScanState} : Counted env b serviceFaults numRetries i (i + 1) s
      (countFault b.entry numRetries i (flagsAt env b serviceFaults i) s) := by
  have hone : ∀ p : ℕ → Bool, counted numRetries p i (i + 1) =
      if numRetries = 0 ∧ p i = true then 1 else 0 := by
    intro p
    rw [counted_succ (Nat.lt_succ_self i), counted_self, Nat.add_zero]
  by_cases h0 : numRetries = 0
  · have hcnt : countFault b.entry numRetries i (flagsAt env b serviceFaults i) s =
        { s with
          batch := (if (flagsAt env b serviceFaults i).isFatal then
            s.batch.countUtlbFatal (b.entry i).utlbId else s.batch).popPending (b.entry i).utlbId
          blockFatalFaults := if (flagsAt env b serviceFaults i).isFatal then s.blockFatalFaults ++ [i]
            else s.blockFatalFaults
          blockInvalidPrefetchFaults := s.blockInvalidPrefetchFaults +
            if (flagsAt env b serviceFaults i).isInvalidPrefetch then 1 else 0
          blockThrottledFaults := s.blockThrottledFaults +
            if (flagsAt env b serviceFaults i).isThrottled then 1 else 0 } := by
      exact if_neg (not_not.mpr h0)
    rw [hcnt]
    refine ⟨?_, ?_, fun utlb => ?_, ?_, ?_, ?_⟩
    · rw [hone]
      simp only [h0, true_and]
    · rw [hone]
      simp only [h0, true_and]
    · rw [hone]
      simp only [h0, true_and, decide_eq_true_eq]
      have hfatal : (if (flagsAt env b serviceFaults i).isFatal then
          s.batch.countUtlbFatal (b.entry i).utlbId else s.batch).utlbPending = s.batch.utlbPending := by
        split <;> rfl
      unfold BatchState.popPending
      dsimp only
      rw [hfatal]
      by_cases hutlb : utlb = (b.entry i).utlbId
      · rw [hutlb, Function.update_self, if_pos rfl]
      · rw [Function.update_of_ne hutlb, if_neg (Ne.symm hutlb), Nat.sub_zero]
    all_goals
      unfold BatchState.popPending
      split <;> rfl
  · have hcnt : countFault b.entry numRetries i (flagsAt env b serviceFaults i) s = s := by
      exact if_pos h0
    have hzero : ∀ p : ℕ → Bool, counted numRetries p i (i + 1) = 0 := fun p => if_neg h0
    rw [hcnt]
    refine ⟨?_, ?_, fun utlb => ?_, rfl, rfl, rfl⟩
    · rw [hzero, Nat.add_zero]
    · rw [hzero, Nat.add_zero]
    · rw [hzero, Nat.sub_zero]

theorem Counted.refl {s r : ScanState}
    (hthrottled : r.blockThrottledFaults = s.blockThrottledFaults)
    (hinvalid : r.blockInvalidPrefetchFaults = s.blockInvalidPrefetchFaults)
    (hpend : r.batch.utlbPending = s.batch.utlbPending)
    (hbatch : r.batch.throttledFaults = s.batch.throttledFaults ∧
      r.batch.invalidPrefetchFaults = s.batch.invalidPrefetchFaults ∧
      r.batch.servicedFaults = s.batch.servicedFaults) :
    Counted env b serviceFaults numRetries i i s r := by
  refine ⟨?_, ?_, fun utlb => ?_, hbatch.1, hbatch.2.1, hbatch.2.2⟩
  · rw [counted_self, hthrottled, Nat.add_zero]
  · rw [counted_self, hinvalid, Nat.add_zero]
  · rw [counted_self, hpend, Nat.sub_zero]

theorem Counted.cons {stop : ℕ} {s₁ s₂ s₃ : ScanState} (hlt : i < stop)
    (h₁ : Counted env b serviceFaults numRetries i (i + 1) s₁ s₂)
    (h₂ : Counted env b serviceFaults numRetries (i + 1) stop s₂ s₃) :
    Counted env b serviceFaults numRetries i stop s₁ s₃ := by
  have hsum : ∀ p : ℕ → Bool, counted numRetries p i stop =
      counted numRetries p i (i + 1) + counted numRetries p (i + 1) stop := by
    intro p
    have hone : counted numRetries p i (i + 1) = if numRetries = 0 ∧ p i = true then 1 else 0 :=
      (counted_succ (Nat.lt_succ_self i)).trans (by rw [counted_self, Nat.add_zero])
    rw [counted_succ hlt, hone]
  refine ⟨?_, ?_, fun utlb => ?_, h₂.batchThrottled.trans h₁.batchThrottled,
    h₂.batchInvalidPrefetch.trans h₁.batchInvalidPrefetch, h₂.batchServiced.trans h₁.batchServiced⟩
  · rw [h₂.throttled, h₁.throttled, hsum, Nat.add_assoc]
  · rw [h₂.invalidPrefetch, h₁.invalidPrefetch, hsum, Nat.add_assoc]
  · rw [h₂.pending, h₁.pending, hsum, Nat.sub_sub]

/-! ## The loop -/

/-- The faults from `i` up to `stop` whose pages are serviced. -/
def servicedFaults (env : PassEnv) (b : BlockBatch) (serviceFaults : NvStatus) (i stop : ℕ) : List ℕ :=
  (List.range' i (stop - i)).filter (scanServices b.entry (env.attempt b serviceFaults) b.first)

/-- What the loop leaves of `s`, from fault `i` on. -/
structure LoopSpec (env : PassEnv) (b : BlockBatch) (serviceFaults : NvStatus) (left i : ℕ)
    (s : PassState) (r : ℕ × PassState) : Prop where
  scan : scanBlock b.entry b.block (env.attempt b serviceFaults) s.serviced.context.numRetries b.first
    left i s.scan = (r.1, r.2.scan)
  le : i ≤ r.1
  span : ∀ k, i ≤ k → (k < r.1 ↔ b.OnBlock k)
  serviced : r.2.serviced = serviceAll env b (servicedFaults env b serviceFaults i r.1) s.serviced
  notified : r.2.notified = s.notified ++
    if s.serviced.context.numRetries = 0 then List.range' i (r.1 - i) else []
  counters : Counted env b serviceFaults s.serviced.context.numRetries i r.1 s.scan r.2.scan

private theorem LoopSpec.stop {left : ℕ} {s : PassState} {scan : ScanState}
    (hscan : scanBlock b.entry b.block (env.attempt b serviceFaults) s.serviced.context.numRetries
      b.first left i s.scan = (i, scan)) (hspan : ¬ b.OnBlock i) (hi : b.first ≤ i)
    (hctrs : Counted env b serviceFaults s.serviced.context.numRetries i i s.scan scan) :
    LoopSpec env b serviceFaults left i s (i, { s with scan := scan }) where
  scan := hscan
  le := le_rfl
  span k hk :=
    ⟨fun hlt => absurd hlt (Nat.not_lt.mpr hk), fun hb => absurd (hb.before hi hk) hspan⟩
  serviced := by
    unfold servicedFaults
    rw [Nat.sub_self]
    rfl
  notified := by
    rw [Nat.sub_self]
    split <;> exact (List.append_nil _).symm
  counters := hctrs

theorem passBlock_spec : ∀ (left i : ℕ) (s : PassState), b.first ≤ i → i + left = b.cachedFaults →
    (b.first < i → b.OnBlock (i - 1)) →
    (b.first < i → s.scan.batch.flags (i - 1) =
      (verdictAt b.entry (env.attempt b serviceFaults) b.first (i - 1 - b.first)).flags) →
    IterInv env.groups b.block.last s.iter →
    (∀ k, i ≤ k → b.OnBlock k → s.iter.start ≤ (b.entry k).faultAddress) →
    LoopSpec env b serviceFaults left i s (passBlock env b.entry b.block b.first left i s) := by
  intro left
  induction left with
  | zero =>
    intro i s hi hleft _ _ _ _
    exact LoopSpec.stop rfl (fun hb => absurd hb.2.1 (by omega)) hi
      (Counted.refl rfl rfl rfl ⟨rfl, rfl, rfl⟩)
  | succ left ih =>
    intro i s hi hleft hbefore hflags hiter hstart
    rw [passBlock]
    by_cases hbehind : b.block.last < (b.entry i).faultAddress
    · -- the fault is past the block
      rw [if_pos hbehind]
      refine LoopSpec.stop ?_ (fun hb => absurd hb.2.2.2.2 (Nat.not_le.mpr hbehind)) hi
        (Counted.refl rfl rfl rfl ⟨rfl, rfl, rfl⟩)
      rw [scanBlock, if_pos hbehind]
    rw [if_neg hbehind]
    by_cases hspace : b.first < i ∧ (b.entry i).vaSpace ≠ (b.entry (i - 1)).vaSpace
    · -- the fault is of another VA space
      rw [if_pos hspace]
      refine LoopSpec.stop ?_ (fun hb => ?_) hi (Counted.refl rfl rfl rfl ⟨rfl, rfl, rfl⟩)
      · rw [scanBlock, if_neg hbehind]
        exact if_pos hspace
      · exact hspace.2 (hb.vaSpace_eq (hbefore hspace.1))
    rw [if_neg hspace]
    have hon : b.OnBlock i := by
      rcases Nat.lt_or_eq_of_le hi with hlt | rfl
      · have hprev := hbefore hlt
        have hsame : (b.entry i).vaSpace = (b.entry (i - 1)).vaSpace := by
          by_contra hne
          exact hspace ⟨hlt, hne⟩
        have haddress := b.address_le (i := i - 1) (j := i) (by omega) (by omega) hsame.symm
        exact ⟨hi, by omega, hsame.trans hprev.2.2.1, hprev.2.2.2.1.trans haddress,
          Nat.not_lt.mp hbehind⟩
      · exact BlockBatch.onBlock_first
    set s₁ : PassState := { s with
      scan := { s.scan with batch := s.scan.batch.setFlags i ⟨false, false, false⟩ } } with hs₁
    have hspec : FaultSpec env b serviceFaults i s₁ (passFault env b.entry b.block b.first i s₁) :=
      passFault_spec hon hiter (hstart i le_rfl hon)
    have hflags₁ : b.first < i → s₁.scan.batch.flags (i - 1) =
        (verdictAt b.entry (env.attempt b serviceFaults) b.first (i - 1 - b.first)).flags := by
      intro hlt
      rw [← hflags hlt]
      exact Function.update_of_ne (by omega) _ _
    have hjudge := judge_eq_verdictAt b.entry (env.attempt b serviceFaults) hi s₁.scan.batch.flags
      hflags₁
    have hserviced := hspec.serviced
    unfold previousFlags at hserviced
    rw [hjudge] at hserviced
    obtain ⟨hfl, -⟩ := scanFault_spec b.entry (env.attempt b serviceFaults)
      s₁.serviced.context.numRetries hi s₁.scan hflags₁
    have hscan := hspec.scan
    have hnotified := hspec.notified
    have hretries : (passFault env b.entry b.block b.first i s₁).serviced.context.numRetries =
        s.serviced.context.numRetries := by
      rw [hserviced]
      split
      · exact serviceFault_numRetries
      · rfl
    have hcnt : Counted env b serviceFaults s.serviced.context.numRetries i (i + 1) s.scan
        (passFault env b.entry b.block b.first i s₁).scan := by
      rw [hscan]
      unfold scanFault
      dsimp only
      rw [hjudge]
      obtain ⟨h₁, h₂, h₃, h₄, h₅, h₆⟩ := countFault_counted
      exact ⟨h₁, h₂, h₃, h₄, h₅, h₆⟩
    have hrest := ih (i + 1) (passFault env b.entry b.block b.first i s₁) (by omega) (by omega)
      (fun _ => by simpa using hon) (fun _ => by
        rw [hscan, hfl, Nat.add_sub_cancel, Function.update_self]) hspec.iter
      (fun k hk hb => hspec.start.trans (hon.address_mono hb (by omega)))
    generalize passFault env b.entry b.block b.first i s₁ = s₂ at *
    generalize passBlock env b.entry b.block b.first left (i + 1) s₂ = r at *
    have hlen : r.1 - i = r.1 - (i + 1) + 1 := by
      have := hrest.le
      omega
    refine ⟨?_, (Nat.le_succ i).trans hrest.le, fun k hk => ?_, ?_, ?_, ?_⟩
    · rw [← hrest.scan, hretries, hscan, scanBlock, if_neg hbehind]
      exact if_neg hspace
    · rcases Nat.lt_or_eq_of_le hk with hlt | rfl
      · exact hrest.span k hlt
      · exact ⟨fun _ => hon, fun _ => hrest.le⟩
    · rw [hrest.serviced, hserviced]
      unfold servicedFaults
      rw [hlen, List.range'_succ]
      by_cases hserve : (verdictAt b.entry (env.attempt b serviceFaults) b.first
          (i - b.first)).service = true
      · rw [if_pos hserve, List.filter_cons_of_pos (show scanServices _ _ _ i = true from hserve)]
        rfl
      · rw [if_neg hserve, List.filter_cons_of_neg (show ¬ scanServices _ _ _ i = true from hserve)]
    · rw [hrest.notified, hretries, hnotified, hlen, List.range'_succ]
      by_cases hfirst : s.serviced.context.numRetries = 0
      · rw [if_pos hfirst, if_pos (show s₁.serviced.context.numRetries = 0 from hfirst), if_pos hfirst,
          List.append_assoc]
        rfl
      · rw [if_neg hfirst, if_neg (show ¬ s₁.serviced.context.numRetries = 0 from hfirst), if_neg hfirst]
    · have hctrs := hrest.counters
      rw [hretries] at hctrs
      exact hcnt.cons hrest.le hctrs

/-! ## The pass -/

section Pass

variable (env : PassEnv) (b : BlockBatch) (serviceFaults : ServiceContext → NvStatus)
  (batch : BatchState) (context : ServiceContext)

theorem passLoop_spec (status : NvStatus) : LoopSpec env b status (b.cachedFaults - b.first) b.first
    { scan := ⟨batch, [], 0, 0, 0⟩
      serviced := ⟨context.init, pages2m, 0⟩
      iter := migratabilityIterFirst env.groups b.block.start b.block.last
      notified := [] } (passLoop env b batch context) := by
  have hblock : b.block.start ≤ b.block.last := b.covers.2.1.trans b.covers.2.2
  obtain ⟨hinv, -⟩ := migratabilityIterFirst_spec env.ordered hblock
  have hfirst := b.firstLt
  exact passBlock_spec _ _ _ le_rfl (by omega) (fun h => absurd h (lt_irrefl _))
    (fun h => absurd h (lt_irrefl _)) hinv (fun k _ hk => hk.2.2.2.1)

/-- What the service call returns, if there is one. -/
def serviceStatus (r : PassResult) : NvStatus := r.service.elim .ok serviceFaults

theorem pass_agrees :
    let r := serviceFaultBatchBlockLockedPass env b serviceFaults batch context
    (r.status, r.blockFaults, r.batch) =
      serviceFaultBatchBlockLocked b.entry b.cachedFaults b.block
        (env.attempt b (serviceStatus serviceFaults r)) context.numRetries b.first batch := by
  intro r
  have hscan := (passLoop_spec env b batch context (serviceStatus serviceFaults r)).scan
  have hr : r = settlePass env b serviceFaults (passLoop env b batch context) := rfl
  unfold serviceFaultBatchBlockLocked
  dsimp only at hscan ⊢
  rw [show context.init.numRetries = context.numRetries from rfl] at hscan
  rw [hscan]
  generalize passLoop env b batch context = loop at hr ⊢
  obtain ⟨i, s⟩ := loop
  have hstat : (if 0 < s.scan.pageFaultCount then
      (env.attempt b (serviceStatus serviceFaults r)).serviceFaults else .ok) =
      serviceStatus serviceFaults r := by
    show (if _ then serviceStatus serviceFaults r else .ok) = _
    split
    · rfl
    · next hnone =>
      rw [hr]
      unfold serviceStatus settlePass
      dsimp only
      rw [if_neg hnone]
      rfl
  rw [hstat, hr]
  by_cases hok : (settlePass env b serviceFaults (i, s)).status = .ok
  · refine Eq.trans ?_ (if_pos hok).symm
    exact Prod.ext hok (Prod.ext rfl (if_pos hok))
  · refine Eq.trans ?_ (if_neg hok).symm
    exact Prod.ext rfl (Prod.ext rfl (if_neg hok))

/-! ## What a pass leaves -/

def AtMostOne (f : FaultFlags) : Prop :=
  f.isFatal.toNat + f.isThrottled.toNat + f.isInvalidPrefetch.toNat ≤ 1

def countFlag (b : BlockBatch) (r : PassResult) (flag : FaultFlags → Bool) : ℕ :=
  (List.range' b.first r.blockFaults).countP fun i => flag (r.batch.flags i)

/-- What a pass leaves.

* `newResidency`, `oneResidency`: a page is in exactly one new residency mask if it has a fault that is
  permitted, not satisfied and not throttled, and else in none.
* `accessType`: such a page gets the most intrusive access among its permitted faults.
* `isService`, `region`: there is a service call if there is such a page, on the region from the lowest
  to the highest of them.
* `consumed`, `events`, `pending`: the faults of the block are consumed, each of them once.
* `exclusive`, `counters`: each of them is counted at most once. -/
structure PassRight (r : PassResult) : Prop where
  newResidency : ∀ page, (∃ q, r.context.InNewResidency q page) ↔ ∃ i, Wanted env b page i
  oneResidency : ∀ page q q', r.context.InNewResidency q page → r.context.InNewResidency q' page →
    q = q'
  accessType : ∀ page, (∃ i, Wanted env b page i) → ∃ i, Permitted env b page i ∧
    r.context.faultAccessType page = (b.entry i).accessType ∧
    ∀ j, Permitted env b page j →
      intrusiveness (b.entry i).accessType ≤ intrusiveness (b.entry j).accessType
  isService : r.service.isSome = true ↔ ∃ page i, Wanted env b page i
  region : ∀ c, r.service = some c → r.context = { c with numRetries := c.numRetries + 1 } ∧
    (∃ i, Wanted env b c.faultRegion.first i) ∧ (∃ i, Wanted env b (c.faultRegion.outer - 1) i) ∧
    ∀ page i, Wanted env b page i → c.faultRegion.first ≤ page ∧ page < c.faultRegion.outer
  consumed : ∀ i, b.first ≤ i → (i < b.first + r.blockFaults ↔ b.OnBlock i)
  events : r.notified = if context.numRetries = 0 then List.range' b.first r.blockFaults else []
  pending : ∀ utlb, r.batch.utlbPending utlb = batch.utlbPending utlb -
    if context.numRetries = 0 then
      (List.range' b.first r.blockFaults).countP fun i => decide ((b.entry i).utlbId = utlb) else 0
  exclusive : ∀ i, b.OnBlock i → AtMostOne (r.batch.flags i)
  counters : r.status = .ok → context.numRetries = 0 →
    r.batch.fatalFaults = batch.fatalFaults + countFlag b r (·.isFatal) ∧
    r.batch.throttledFaults = batch.throttledFaults + countFlag b r (·.isThrottled) ∧
    r.batch.invalidPrefetchFaults = batch.invalidPrefetchFaults + countFlag b r (·.isInvalidPrefetch)

variable {env b serviceFaults batch context}

private theorem judgeFault_atMostOne (attempt : Attempt) (i : ℕ) {previous : Option FaultFlags}
    (h : ∀ f, previous = some f → AtMostOne f) :
    AtMostOne (judgeFault b.entry attempt i previous).flags := by
  unfold AtMostOne at h ⊢
  cases previous with
  | none =>
    unfold judgeFault
    repeat' split
    all_goals simp_all
  | some f =>
    have hf := h f rfl
    unfold judgeFault
    obtain ⟨fatal, throttled, invalid⟩ := f
    cases fatal <;> cases throttled <;> cases invalid
    all_goals simp at hf ⊢
    all_goals repeat' split
    all_goals simp_all

theorem verdictAt_atMostOne (attempt : Attempt) (m : ℕ) :
    AtMostOne (verdictAt b.entry attempt b.first m).flags := by
  induction m with
  | zero => exact judgeFault_atMostOne attempt b.first fun f hf => (nomatch hf)
  | succ m ih =>
    refine judgeFault_atMostOne attempt _ fun f hf => ?_
    split at hf
    · cases hf
      exact ih
    · cases hf

variable {left : ℕ} {r : ℕ × PassState} {s : PassState} {status : NvStatus}

theorem mem_servicedFaults {i : ℕ} (h : LoopSpec env b status left b.first s r) :
    i ∈ servicedFaults env b status b.first r.1 ↔
      b.OnBlock i ∧ scanServices b.entry (env.attempt b status) b.first i = true := by
  unfold servicedFaults
  rw [List.mem_filter, List.mem_range'_1]
  refine and_congr_left fun _ => ⟨fun ⟨h1, h2⟩ => ?_, fun hb => ⟨hb.1, ?_⟩⟩
  · exact (h.span i h1).mp (by omega)
  · have := (h.span i hb.1).mpr hb
    omega

theorem servicedFaults_pairwise (h : LoopSpec env b status left b.first s r) :
    (servicedFaults env b status b.first r.1).Pairwise fun i j => b.page i ≠ b.page j := by
  have hdistinct : (servicedFaults env b status b.first r.1).Pairwise fun i j => i ≠ j := by
    refine (List.Pairwise.filter _ ?_)
    exact List.nodup_range'
  refine hdistinct.imp_of_mem fun {i j} hi hj hne hpage => hne ?_
  obtain ⟨hib, hsi⟩ := (mem_servicedFaults h).mp hi
  obtain ⟨hjb, hsj⟩ := (mem_servicedFaults h).mp hj
  exact services_unique hib hjb hpage hsi hsj

theorem exists_serviced_iff {page : ℕ} (h : LoopSpec env b status left b.first s r) :
    (∃ i ∈ servicedFaults env b status b.first r.1, b.page i = page) ↔ ∃ i, Wanted env b page i := by
  constructor
  · rintro ⟨i, hi, rfl⟩
    obtain ⟨hib, hsi⟩ := (mem_servicedFaults h).mp hi
    exact ⟨i, wanted_of_services hib hsi⟩
  · rintro ⟨i, hi⟩
    have hex : ∃ j, b.OnBlock j ∧ b.page j = page ∧
        scanServices b.entry (env.attempt b status) b.first j = true := exists_services hi
    obtain ⟨j, hj, hpage, hsj⟩ := hex
    exact ⟨j, (mem_servicedFaults h).mpr ⟨hj, hsj⟩, hpage⟩

theorem pageFaultCount_pos (h : LoopSpec env b status left b.first s r)
    (hzero : s.scan.pageFaultCount = 0) :
    0 < r.2.scan.pageFaultCount ↔ servicedFaults env b status b.first r.1 ≠ [] := by
  have hspec := scanBlock_spec b.entry b.block (env.attempt b status) s.serviced.context.numRetries
    b.first left b.first s.scan le_rfl (fun h => absurd h (lt_irrefl _))
  rw [h.scan] at hspec
  have hserv := hspec.services
  rw [hserv, hzero]
  simp only [lt_irrefl, false_or]
  constructor
  · rintro ⟨j, h1, h2, hj⟩
    exact List.ne_nil_of_mem ((mem_servicedFaults h).mpr ⟨(h.span j h1).mp h2, hj⟩)
  · intro hne
    obtain ⟨j, hj⟩ := List.exists_mem_of_ne_nil _ hne
    obtain ⟨hjb, hsj⟩ := (mem_servicedFaults h).mp hj
    exact ⟨j, hjb.1, (h.span j hjb.1).mpr hjb, hsj⟩

variable (env b serviceFaults batch context) in
/-- **A pass is right**: it services the pages that need it, each for its most intrusive permitted
fault and on the region that they span, and consumes and counts the faults of the block. -/
theorem pass_right : PassRight env b batch context
    (serviceFaultBatchBlockLockedPass env b serviceFaults batch context) := by
  have hagrees := pass_agrees env b serviceFaults batch context
  dsimp only at hagrees
  have hr : serviceFaultBatchBlockLockedPass env b serviceFaults batch context =
      settlePass env b serviceFaults (passLoop env b batch context) := rfl
  generalize serviceFaultBatchBlockLockedPass env b serviceFaults batch context = r at *
  generalize serviceStatus serviceFaults r = status at *
  have hloop := passLoop_spec env b batch context status
  generalize passLoop env b batch context = loop at *
  have hpages := pageFaultCount_pos hloop rfl
  have hserviced := hloop.serviced
  have hretries : loop.2.serviced.context.numRetries = context.numRetries := by
    rw [hserviced]
    exact serviceAll_numRetries _ _
  have hcontext : r.context = { (r.service.getD loop.2.serviced.context) with
      numRetries := (r.service.getD loop.2.serviced.context).numRetries + 1 } := by rw [hr]; rfl
  have hservice : r.service = if 0 < loop.2.scan.pageFaultCount then
      some { loop.2.serviced.context with
        faultRegion := ⟨loop.2.serviced.firstPageIndex, loop.2.serviced.lastPageIndex + 1⟩ }
      else none := by rw [hr]; rfl
  have hin : ∀ q page, r.context.InNewResidency q page ↔
      ∃ i ∈ servicedFaults env b status b.first loop.1, q = destination env b i ∧ page = b.page i := by
    intro q page
    have hmask : r.context.InNewResidency q page ↔
        loop.2.serviced.context.InNewResidency q page := by
      rw [hcontext, hservice]
      split <;> rfl
    rw [hmask, hserviced, serviceAll_in]
    have hinit : ¬ (context.init).InNewResidency q page := fun h => by cases h.1
    exact or_iff_right hinit
  have htypes : r.context.faultAccessType = loop.2.serviced.context.faultAccessType := by
    rw [hcontext, hservice]
    split <;> rfl
  have hblockFaults : r.blockFaults = loop.1 - b.first := by rw [hr]; rfl
  have hle := hloop.le
  have hscanned : ServiceSpec b.entry b.cachedFaults b.block b.first
      (spanEnd b.entry b.block b.first (b.cachedFaults - b.first) b.first) (env.attempt b status)
      context.numRetries batch (r.status, r.blockFaults, r.batch) := by
    rw [hagrees]
    exact serviceFaultBatchBlockLocked_spec b.entry b.block _ _ b.firstLt.le batch
  have hstop := hscanned.blockFaults
  have hflags : ∀ i, b.first ≤ i → i < b.first + r.blockFaults →
      r.batch.flags i = flagsAt env b status i := by
    intro i h1 h2
    exact hscanned.scanned i h1 (by rw [← hstop]; exact h2)
  have hspan : ∀ i, b.first ≤ i → (i < b.first + r.blockFaults ↔ b.OnBlock i) := by
    intro i hi
    rw [hblockFaults, Nat.add_sub_cancel' hle]
    exact hloop.span i hi
  -- what is counted in the scan is what the flags of the batch say
  have hcnt : ∀ flag : FaultFlags → Bool,
      (List.range' b.first r.blockFaults).countP (fun i => flag (flagsAt env b status i)) =
        countFlag b r flag := by
    intro flag
    refine List.countP_congr fun i hi => ?_
    rw [List.mem_range'_1] at hi
    rw [hflags i hi.1 hi.2]
  refine ⟨?_, ?_, ?_, ?_, ?_, hspan, ?_, ?_, ?_, ?_⟩
  · intro page
    rw [← exists_serviced_iff hloop]
    constructor
    · rintro ⟨q, hq⟩
      obtain ⟨i, hi, -, hpage⟩ := (hin q page).mp hq
      exact ⟨i, hi, hpage.symm⟩
    · rintro ⟨i, hi, hpage⟩
      exact ⟨destination env b i, (hin _ _).mpr ⟨i, hi, rfl, hpage.symm⟩⟩
  · intro page q q' hq hq'
    obtain ⟨i, hi, rfl, hpage⟩ := (hin q page).mp hq
    obtain ⟨j, hj, rfl, hpage'⟩ := (hin q' page).mp hq'
    obtain ⟨hib, hsi⟩ := (mem_servicedFaults hloop).mp hi
    obtain ⟨hjb, hsj⟩ := (mem_servicedFaults hloop).mp hj
    rw [services_unique hib hjb (hpage.symm.trans hpage') hsi hsj]
  · intro page hwanted
    obtain ⟨i, hi, rfl⟩ := (exists_serviced_iff hloop).mpr hwanted
    obtain ⟨hib, hsi⟩ := (mem_servicedFaults hloop).mp hi
    refine ⟨i, (wanted_of_services hib hsi).1, ?_, fun j hj => services_most_intrusive hib hsi hj⟩
    rw [htypes, hserviced]
    exact serviceAll_accessType _ (servicedFaults_pairwise hloop) _ i hi
  · have hsome : r.service.isSome = true ↔ 0 < loop.2.scan.pageFaultCount := by
      rw [hservice]
      split
      · next hpos => exact ⟨fun _ => hpos, fun _ => rfl⟩
      · next hnone => exact ⟨fun h => (nomatch h), fun h => absurd h hnone⟩
    rw [hsome, hpages]
    constructor
    · intro hne
      obtain ⟨i, hi⟩ := List.exists_mem_of_ne_nil _ hne
      exact ⟨b.page i, (exists_serviced_iff hloop).mp ⟨i, hi, rfl⟩⟩
    · rintro ⟨page, hwanted⟩
      obtain ⟨i, hi, -⟩ := (exists_serviced_iff hloop).mpr hwanted
      exact List.ne_nil_of_mem hi
  · intro c hc
    rw [hc] at hcontext
    refine ⟨hcontext, ?_⟩
    rw [hservice] at hc
    split at hc
    · next hpos =>
      cases hc
      have hwidened : Widened b (servicedFaults env b status b.first loop.1)
          ⟨context.init, pages2m, 0⟩ loop.2.serviced := by
        rw [hserviced]
        exact serviceAll_widened _ _
      obtain ⟨i, hi⟩ := List.exists_mem_of_ne_nil _ (hpages.mp hpos)
      obtain ⟨hlow, hhigh⟩ := hwidened.bounds i hi
      have hpage := ((mem_servicedFaults hloop).mp hi).1.page_lt
      refine ⟨?_, ?_, ?_⟩
      · -- the bound that the scan starts with is not the index of a page
        rcases hwidened.first_eq with hfirst | ⟨j, hj, hfirst⟩
        · dsimp only at hfirst
          omega
        · exact (exists_serviced_iff hloop).mp ⟨j, hj, hfirst.symm⟩
      · rw [Nat.add_sub_cancel]
        rcases hwidened.last_eq with hlast | ⟨j, hj, hlast⟩
        · dsimp only at hlast
          exact (exists_serviced_iff hloop).mp ⟨i, hi, by omega⟩
        · exact (exists_serviced_iff hloop).mp ⟨j, hj, hlast.symm⟩
      · intro page k hk
        obtain ⟨j, hj, rfl⟩ := (exists_serviced_iff hloop).mpr ⟨k, hk⟩
        obtain ⟨hlow', hhigh'⟩ := hwidened.bounds j hj
        exact ⟨hlow', Nat.lt_succ_of_le hhigh'⟩
    · cases hc
  · rw [hblockFaults]
    have hnotified : r.notified = loop.2.notified := by rw [hr]; rfl
    rw [hnotified, hloop.notified]
    rfl
  · intro utlb
    have hpend : r.batch.utlbPending = loop.2.scan.batch.utlbPending := by
      rw [hr]
      by_cases hok : (settlePass env b serviceFaults loop).status = .ok
      · have hbatch : (settlePass env b serviceFaults loop).batch = _ := if_pos hok
        rw [hbatch]
      · exact congrArg BatchState.utlbPending (if_neg hok)
    rw [hpend, hloop.counters.pending utlb, hblockFaults]
    rfl
  · intro i hi
    rw [hflags i hi.1 ((hspan i hi.1).mpr hi)]
    exact verdictAt_atMostOne _ _
  · intro hok hfirst
    rw [hr] at hok
    have hbatch : r.batch = _ := (congrArg PassResult.batch hr).trans (if_pos hok)
    refine ⟨?_, ?_, ?_⟩
    · rw [hscanned.fatalFaults, if_pos ⟨hr ▸ hok, hfirst⟩, ← hcnt]
      unfold spanFatal
      rw [← List.countP_eq_length_filter, ← hstop, Nat.add_sub_cancel_left]
      rfl
    · have hthrottled : r.batch.throttledFaults =
          loop.2.scan.batch.throttledFaults + loop.2.scan.blockThrottledFaults :=
        congrArg BatchState.throttledFaults hbatch
      rw [hthrottled, hloop.counters.batchThrottled, hloop.counters.throttled, ← hcnt, hblockFaults,
        Nat.zero_add]
      exact congrArg _ (if_pos hfirst)
    · have hinvalid : r.batch.invalidPrefetchFaults =
          loop.2.scan.batch.invalidPrefetchFaults + loop.2.scan.blockInvalidPrefetchFaults :=
        congrArg BatchState.invalidPrefetchFaults hbatch
      rw [hinvalid, hloop.counters.batchInvalidPrefetch, hloop.counters.invalidPrefetch, ← hcnt,
        hblockFaults, Nat.zero_add]
      exact congrArg _ (if_pos hfirst)

end Pass

-- the write to page 1 is refused, and the page is serviced for the read after it
example :
    let b : BlockBatch :=
      { entry := fun i => ⟨1, 0x1000, if i = 0 then .write else .read, .invalidPte, 0⟩
        cachedFaults := 2, block := ⟨1, 0, 0x1FFF⟩, first := 0
        sorted := fun i j hij hj => by
          obtain ⟨rfl, rfl⟩ : i = 0 ∧ j = 1 := by omega
          decide
        aligned := fun _ _ => (by decide : 0x1000 % 4096 = 0), startAligned := rfl
        size := by decide, firstLt := by decide, covers := ⟨rfl, by decide, by decide⟩ }
    let env : PassEnv :=
      { groups := [], ordered := by decide
        checkLogicalPermissions := fun access _ => if access = .write then .other 1 else .ok
        gpuState := none, thrashingHint := fun _ => .none
        selectResidency := fun _ _ _ => (1, false), setCancel := .ok }
    let r := serviceFaultBatchBlockLockedPass env b (fun _ => .ok)
      ⟨fun _ => ⟨false, false, false⟩, 0, 0, 0, 0, 0, fun _ => 2, fun _ => 0, [], []⟩
      ⟨0, fun _ => false, fun _ _ => false, 0, fun _ => false, 0, fun _ => false, fun _ => .atomic,
        ⟨0, 0⟩⟩
    r.service.map (·.faultRegion) = some ⟨1, 2⟩ ∧ r.context.faultAccessType 1 = .read ∧
      r.context.newResidency 1 1 = true ∧ r.batch.fatalFaults = 1 ∧ r.batch.utlbPending 0 = 0 := by
  decide +kernel

end NvUvm.FaultPass
