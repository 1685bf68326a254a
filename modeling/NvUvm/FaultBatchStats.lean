import NvUvm.FaultBatchFatal

/-!
# The uTLB statistics of a batch

What `service_fault_batch` does to the pending and fatal fault counts of the uTLBs, also when it is
left early: a fault takes one from the pending count when it is handled and adds one to the fatal
count when it is found fatal, and a flush of the fault buffer resets both.
-/

namespace NvUvm

def utlbCount (entry : ℕ → FaultEntry) (utlb : ℕ) (l : List ℕ) : ℕ :=
  l.countP fun j => decide ((entry j).utlbId = utlb)

section Scan

variable (entry : ℕ → FaultEntry)

@[simp] theorem utlbCount_nil (utlb : ℕ) : utlbCount entry utlb [] = 0 := rfl

@[simp] theorem utlbCount_cons (utlb j : ℕ) (l : List ℕ) : utlbCount entry utlb (j :: l) =
      utlbCount entry utlb l + if (entry j).utlbId = utlb then 1 else 0 := by
  simp [utlbCount, List.countP_cons]

@[simp] theorem utlbCount_append (utlb : ℕ) (l k : List ℕ) :
    utlbCount entry utlb (l ++ k) = utlbCount entry utlb l + utlbCount entry utlb k := by
  simp [utlbCount]

theorem utlbCount_pos {utlb : ℕ} {l : List ℕ} :
    0 < utlbCount entry utlb l ↔ ∃ j ∈ l, (entry j).utlbId = utlb := by
  simp [utlbCount]

/-! ## The scan of a block -/

/-- What a scan of the faults `[i, stop)` does to the statistics. -/
structure ScanStats (numRetries i stop : ℕ) (s r : ScanState) : Prop where
  pending : ∀ u, r.batch.utlbPending u = s.batch.utlbPending u -
    if numRetries = 0 then utlbCount entry u (List.range' i (stop - i)) else 0
  fatal : ∀ u, r.batch.utlbFatal u + utlbCount entry u s.blockFatalFaults =
    s.batch.utlbFatal u + utlbCount entry u r.blockFatalFaults

private theorem countFault_stats (numRetries i : ℕ) (flags : FaultFlags) (s : ScanState) :
    ScanStats entry numRetries i (i + 1) s (countFault entry numRetries i flags s) := by
  have hrange : List.range' i (i + 1 - i) = [i] := by simp
  refine ⟨fun u => ?_, fun u => ?_⟩
  · rw [hrange]
    unfold countFault
    by_cases h0 : numRetries = 0
    · by_cases hu : (entry i).utlbId = u
      · subst hu
        cases flags.isFatal <;> simp [h0, BatchState.popPending, BatchState.countUtlbFatal]
      · have hu' : u ≠ (entry i).utlbId := Ne.symm hu
        cases flags.isFatal <;> simp [h0, BatchState.popPending, BatchState.countUtlbFatal, hu, hu']
    · simp [h0]
  · unfold countFault
    by_cases h0 : numRetries = 0
    · by_cases hu : (entry i).utlbId = u
      · subst hu
        cases flags.isFatal <;> simp [h0, BatchState.popPending, BatchState.countUtlbFatal]
        omega
      · have hu' : u ≠ (entry i).utlbId := Ne.symm hu
        cases flags.isFatal <;> simp [h0, BatchState.popPending, BatchState.countUtlbFatal, hu, hu']
    · simp [h0]

private theorem scanFault_stats (attempt : Attempt) (numRetries first i : ℕ) (s : ScanState) :
    ScanStats entry numRetries i (i + 1) s (scanFault entry attempt numRetries first i s) := by
  have h := countFault_stats entry numRetries i
    (judgeFault entry attempt i (if first < i ∧ (entry i).faultAddress = (entry (i - 1)).faultAddress
      then some (s.batch.flags (i - 1)) else none)).flags
  exact ⟨(h _).pending, (h _).fatal⟩

private theorem scanBlock_stop_le (block : FaultBlock) (attempt : Attempt) (numRetries first : ℕ) :
    ∀ left i s, i ≤ (scanBlock entry block attempt numRetries first left i s).1 := by
  intro left
  induction left with
  | zero => exact fun i s => le_refl i
  | succ left ih =>
    intro i s
    unfold scanBlock
    split
    · exact le_refl i
    · dsimp only
      split
      · exact le_refl i
      · exact (Nat.le_succ i).trans (ih (i + 1) _)

theorem scanBlock_stats (block : FaultBlock) (attempt : Attempt) (numRetries first : ℕ) :
    ∀ left i s, ScanStats entry numRetries i
      (scanBlock entry block attempt numRetries first left i s).1 s
      (scanBlock entry block attempt numRetries first left i s).2 := by
  intro left
  induction left with
  | zero => exact fun i s => ⟨fun u => by simp [scanBlock], fun u => rfl⟩
  | succ left ih =>
    intro i s
    unfold scanBlock
    split
    · exact ⟨fun u => by simp, fun u => rfl⟩
    · dsimp only
      split
      · exact ⟨fun u => by simp [BatchState.setFlags], fun u => rfl⟩
      · generalize hs₁ : ({ s with batch := s.batch.setFlags i ⟨false, false, false⟩ } : ScanState)
          = s₁
        have hone := scanFault_stats entry attempt numRetries first i s₁
        have hrest := ih (i + 1) (scanFault entry attempt numRetries first i s₁)
        have hlo := scanBlock_stop_le entry block attempt numRetries first left (i + 1)
          (scanFault entry attempt numRetries first i s₁)
        generalize scanBlock entry block attempt numRetries first left (i + 1)
          (scanFault entry attempt numRetries first i s₁) = r at hrest hlo ⊢
        have hp : s₁.batch.utlbPending = s.batch.utlbPending := by rw [← hs₁]; rfl
        have hf : s₁.batch.utlbFatal = s.batch.utlbFatal := by rw [← hs₁]; rfl
        have hb : s₁.blockFatalFaults = s.blockFatalFaults := by rw [← hs₁]
        refine ⟨fun u => ?_, fun u => ?_⟩
        · have hrange : List.range' i (r.1 - i) = i :: List.range' (i + 1) (r.1 - (i + 1)) := by
            rw [show r.1 - i = r.1 - (i + 1) + 1 by omega, List.range'_succ]
          rw [hrest.pending u, hone.pending u, hp, hrange]
          by_cases h0 : numRetries = 0
          · simp only [h0, if_true, utlbCount_cons, Nat.add_sub_cancel_left, List.range'_one,
              utlbCount_nil]
            omega
          · simp [h0]
        · have h1 := hone.fatal u
          have h2 := hrest.fatal u
          rw [hf, hb] at h1
          omega

private theorem serviceFaultBatchBlockLocked_stats (cachedFaults : ℕ) (block : FaultBlock)
    (attempt : Attempt) (numRetries first : ℕ) (s : BatchState) (u : ℕ) :
    (serviceFaultBatchBlockLocked entry cachedFaults block attempt numRetries first s).2.2.utlbPending
        u = s.utlbPending u - (if numRetries = 0 then utlbCount entry u (List.range' first
          (spanEnd entry block first (cachedFaults - first) first - first)) else 0) ∧
      (serviceFaultBatchBlockLocked entry cachedFaults block attempt numRetries first s).2.2.utlbFatal
        u = s.utlbFatal u + (if numRetries = 0 then utlbCount entry u (spanFatal entry attempt first
          (spanEnd entry block first (cachedFaults - first) first)) else 0) := by
  have hspec := scanBlock_spec entry block attempt numRetries first (cachedFaults - first) first
    ⟨s, [], 0, 0, 0⟩ (le_refl first) (fun h => absurd h (lt_irrefl first))
  have hstats := scanBlock_stats entry block attempt numRetries first (cachedFaults - first) first
    ⟨s, [], 0, 0, 0⟩
  unfold serviceFaultBatchBlockLocked
  generalize scanBlock entry block attempt numRetries first (cachedFaults - first) first
    ⟨s, [], 0, 0, 0⟩ = scan at hspec hstats ⊢
  obtain ⟨stop, scan⟩ := scan
  have hstop : stop = spanEnd entry block first (cachedFaults - first) first := hspec.stop
  have hpend := hstats.pending u
  have hfatal := hstats.fatal u
  rw [hspec.fatal] at hfatal
  rw [← hstop]
  have hresult : scan.batch.utlbPending u = s.utlbPending u -
        (if numRetries = 0 then utlbCount entry u (List.range' first (stop - first)) else 0) ∧
      scan.batch.utlbFatal u = s.utlbFatal u +
        (if numRetries = 0 then utlbCount entry u (spanFatal entry attempt first stop) else 0) := by
    refine ⟨hpend, ?_⟩
    simp only [utlbCount_nil, Nat.add_zero] at hfatal
    rw [hfatal, spanFatal]
    split <;> rfl
  rw [← hresult.1, ← hresult.2]
  dsimp only
  -- the status decides about the counters of the batch only
  repeat' split
  all_goals exact ⟨rfl, rfl⟩

/-- The faults that the first of the attempts finds fatal. -/
def firstFatal (first stop : ℕ) : List Attempt → List ℕ
  | [] => []
  | attempt :: _ => spanFatal entry attempt first stop

theorem retryBlock_stats {cachedFaults : ℕ} (block : FaultBlock) (first : ℕ) (u : ℕ) :
    ∀ attempts numRetries s r,
      retryBlock entry cachedFaults block first attempts numRetries s = some r →
      r.2.2.utlbPending u = s.utlbPending u - (if numRetries = 0 then utlbCount entry u
          (List.range' first (spanEnd entry block first (cachedFaults - first) first - first))
          else 0) ∧
        r.2.2.utlbFatal u = s.utlbFatal u + (if numRetries = 0 then utlbCount entry u
          (firstFatal entry first (spanEnd entry block first (cachedFaults - first) first) attempts)
          else 0) := by
  intro attempts
  induction attempts with
  | nil =>
    intro numRetries s r h
    cases h
  | cons attempt more ih =>
    intro numRetries s r h
    have hone := serviceFaultBatchBlockLocked_stats entry cachedFaults block attempt numRetries
      first s u
    unfold retryBlock at h
    dsimp only at h
    split at h
    · obtain ⟨hp, hf⟩ := ih (numRetries + 1) _ r h
      exact ⟨hp.trans hone.1, hf.trans hone.2⟩
    · obtain rfl := Option.some.inj h
      exact hone

end Scan

/-! ## The visits that the loop gets to -/

/-- How the loop of `service_fault_batch` ends: it passes all faults, flushes the fault buffer, or
is left with an error. -/
inductive BatchEnd where
  | finished
  | flushed
  | failed (status : NvStatus)
  deriving DecidableEq, Repr

/-- The faults that a visit takes off the pending counts. -/
def Visit.clears : Visit → List ℕ
  | .ignored _ => []
  | v => List.range' v.first (v.stop - v.first)

namespace SortedBatch

variable (f : SortedBatch)

/-- The visit of the loop at fault `i`, and whether it takes the mark of the fault after it. -/
def visitAt (i : ℕ) (cleared : Bool) : Visit × Bool :=
  if f.fatalType i && !cleared then (.fatalHead i, false)
  else if !f.env.registered (f.entry i).vaSpace then (.ignored i, false)
  else match f.env.findCreate i with
    | .error status => (.notFound i status, false)
    | .ok b => (.block i (f.stopOf b i) b, touchesEnd f.entry f.cachedFaults b (f.stopOf b i))

/-- The VA space of fault `i` is not the one that is locked, and needs a flush. -/
def flushes (vaSpace : Option ℕ) (i : ℕ) : Bool :=
  decide (some (f.entry i).vaSpace ≠ vaSpace) && f.env.registered (f.entry i).vaSpace &&
    f.env.needsFaultBufferFlush (f.entry i).vaSpace

/-- The status that the replay after a block leaves. -/
def replayStatus (first : ℕ) : NvStatus :=
  if !f.env.cancelMode && f.env.replayPolicyBlock then f.env.pushReplay first else .ok

def visitStatus : Visit → NvStatus
  | .fatalHead _ | .ignored _ => .ok
  | .notFound i status => if f.drops i status ∨ status = .errInvalidAddress then .ok else status
  | .block first stop _ => (f.settled first stop).elim .ok fun r =>
      ((attemptStatus f.entry r.2 r.1 first stop).orElse (f.env.addTracker first)).orElse
        (f.replayStatus first)

/-- The faults that a visit adds to the fatal counts of the uTLBs. -/
def utlbCounts : Visit → List ℕ
  | .fatalHead i => [i]
  | .ignored _ => []
  | .notFound i status => if f.drops i status then [] else [i]
  | .block first stop _ => firstFatal f.entry first stop (f.env.attempts first)

/-- The visits that a loop at fault `i` gets to, and how it ends. -/
def reachFrom : ℕ → Option ℕ → ℕ → Bool → List Visit × BatchEnd
  | 0, _, _, _ => ([], .finished)
  | rounds + 1, vaSpace, i, cleared =>
    if i < f.cachedFaults then
      if f.flushes vaSpace i then ([], .flushed)
      else
        let v := f.visitAt i cleared
        if f.visitStatus v.1 ≠ .ok then ([v.1], .failed (f.visitStatus v.1))
        else
          let r := reachFrom rounds (some (f.entry i).vaSpace) v.1.stop v.2
          (v.1 :: r.1, r.2)
    else ([], .finished)

/-- The visits that `service_fault_batch` gets to, and how it ends. -/
def reach : List Visit × BatchEnd := f.reachFrom f.cachedFaults none 0 false

/-! ## What a visit leaves -/

/-- What a visit leaves, whatever its status: marks and statistics. -/
structure RoundSpec (v : Visit) (cleared : Bool) (s s' : BatchState) : Prop where
  before : ∀ j, j < v.first → s'.flags j = s.flags j
  flags : ∀ j, v.first ≤ j → j < v.stop → (s'.flags j).isFatal = f.leavesFatal v j
  after : ∀ j, v.stop ≤ j →
    (s'.flags j).isFatal = ((s.flags j).isFatal && !(cleared && j == v.stop))
  pending : ∀ u, s'.utlbPending u = s.utlbPending u - utlbCount f.entry u v.clears
  fatal : ∀ u, s'.utlbFatal u = s.utlbFatal u + utlbCount f.entry u (f.utlbCounts v)

variable {i : ℕ} {s s' : BatchState}

private theorem faultWithoutBlock_round (status : NvStatus) (hfatal : (s.flags i).isFatal = false) :
    (faultWithoutBlock f.env f.entry i status s).1 = f.visitStatus (.notFound i status) ∧
      RoundSpec f (.notFound i status) false s
        (faultWithoutBlock f.env f.entry i status s).2 := by
  have hspec := f.faultWithoutBlock_spec status hfatal
  have hrange : (Visit.notFound i status).clears = [i] := by
    simp [Visit.clears, Visit.first, Visit.stop]
  by_cases hd : f.drops i status = true
  · have hd' : (f.entry i).accessType = .prefetch ∧ status ≠ f.env.globalStatus := by
      simpa [drops] using hd
    refine ⟨by simp [faultWithoutBlock, hd', visitStatus, hd], hspec.before, hspec.flags,
      hspec.after, fun u => ?_, fun u => ?_⟩
    · rw [hrange]
      simp only [faultWithoutBlock, if_pos hd', utlbCount_cons, utlbCount_nil]
      by_cases hu : (f.entry i).utlbId = u
      · subst hu
        split <;> simp [BatchState.popPending]
      · split <;> simp [BatchState.popPending, Ne.symm hu]
    · simp only [faultWithoutBlock, if_pos hd', utlbCounts, hd, if_true, utlbCount_nil]
      split <;> rfl
  · have hd' : ¬ ((f.entry i).accessType = .prefetch ∧ status ≠ f.env.globalStatus) := by
      simpa [drops] using hd
    refine ⟨by simp [faultWithoutBlock, hd', visitStatus, hd], hspec.before, hspec.flags,
      hspec.after, fun u => ?_, fun u => ?_⟩
    · rw [hrange]
      simp only [faultWithoutBlock, if_neg hd', utlbCount_cons, utlbCount_nil]
      by_cases hu : (f.entry i).utlbId = u
      · subst hu
        split <;> simp [BatchState.popPending, BatchState.setFlags, BatchState.countFatal,
          BatchState.countUtlbFatal]
      · split <;> simp [BatchState.popPending, BatchState.setFlags, BatchState.countFatal,
          BatchState.countUtlbFatal, Ne.symm hu]
    · simp only [faultWithoutBlock, if_neg hd', utlbCounts, hd, Bool.false_eq_true, if_false,
        utlbCount_cons, utlbCount_nil]
      by_cases hu : (f.entry i).utlbId = u
      · subst hu
        split <;> simp [BatchState.popPending, BatchState.setFlags, BatchState.countFatal,
          BatchState.countUtlbFatal]
      · split <;> simp [BatchState.popPending, BatchState.setFlags, BatchState.countFatal,
          BatchState.countUtlbFatal, Ne.symm hu]

private theorem serviceFaultBatchBlock_round {b : FaultBlock} (hi : i < f.cachedFaults)
    {r : NvStatus × ℕ × BatchState}
    (h : serviceFaultBatchBlock f.env f.entry f.cachedFaults b i s = some r) :
    r.1.orElse (f.replayStatus i) = f.visitStatus (.block i (f.stopOf b i) b) ∧
      i + r.2.1 = f.stopOf b i ∧
      RoundSpec f (.block i (f.stopOf b i) b)
        (touchesEnd f.entry f.cachedFaults b (f.stopOf b i)) s r.2.2 := by
  simp only [serviceFaultBatchBlock, Option.map_eq_some_iff] at h
  obtain ⟨q, hq, rfl⟩ := h
  obtain ⟨k, a, hk, hspec⟩ := retryBlock_spec f.entry b (Nat.le_of_lt hi) _ _ _ _ hq
  have hset : f.settled i (f.stopOf b i) = some (k, a) := hk
  refine ⟨?_, hspec.blockFaults, hspec.before, fun j h1 h2 => ?_, fun j hj => ?_, fun u => ?_,
    fun u => ?_⟩
  · simp only [visitStatus, hset, hspec.status]
    rfl
  · rw [hspec.scanned j h1 h2]
    simp [leavesFatal, hset, scanFatal]
  · simp only [Visit.stop] at hj ⊢
    rcases Nat.lt_or_eq_of_le hj with hlt | rfl
    · rw [hspec.after j hlt]
      simp [Nat.ne_of_gt hlt]
    · rw [← stopOf] at hspec
      rw [hspec.atStop]
      by_cases ht : touchesEnd f.entry f.cachedFaults b (f.stopOf b i) = true <;> simp [ht]
  · exact (retryBlock_stats f.entry b i u _ _ _ _ hq).1
  · exact (retryBlock_stats f.entry b i u _ _ _ _ hq).2

theorem serviceFault_round {i' : ℕ} {cleared : Bool} {vaSpace : Option ℕ} {st : NvStatus}
    (hi : i < f.cachedFaults) (hflag : (s.flags i).isFatal = (f.fatalType i && !cleared))
    (hflush : f.flushes vaSpace i = false)
    (h : serviceFault f.env f.entry f.cachedFaults vaSpace i s = some (st, i', s')) :
    st = f.visitStatus (f.visitAt i cleared).1 ∧ (st = .ok → i' = (f.visitAt i cleared).1.stop) ∧
      RoundSpec f (f.visitAt i cleared).1 (f.visitAt i cleared).2 s s' := by
  unfold serviceFault at h
  have hnoFlush : ¬ (some (f.entry i).vaSpace ≠ vaSpace ∧
      f.env.registered (f.entry i).vaSpace = true ∧
      f.env.needsFaultBufferFlush (f.entry i).vaSpace = true) := by
    simpa [flushes] using hflush
  rw [if_neg hnoFlush, hflag] at h
  unfold visitAt
  by_cases hhead : (f.fatalType i && !cleared) = true
  · rw [if_pos hhead] at h ⊢
    obtain ⟨rfl, rfl, rfl⟩ := h
    refine ⟨rfl, fun _ => rfl, fun _ _ => rfl, fun j h1 h2 => ?_, single_after fun _ _ => rfl,
      fun u => ?_, fun u => ?_⟩
    · obtain rfl : j = i := by simp only [Visit.first, Visit.stop] at h1 h2; omega
      exact hflag.trans hhead
    · by_cases hu : (f.entry i).utlbId = u
      · subst hu
        simp [Visit.clears, Visit.first, Visit.stop, BatchState.popPending, BatchState.countFatal,
          BatchState.countUtlbFatal]
      · simp [Visit.clears, Visit.first, Visit.stop, BatchState.popPending, BatchState.countFatal,
          BatchState.countUtlbFatal, hu, Ne.symm hu]
    · by_cases hu : (f.entry i).utlbId = u
      · subst hu
        simp [utlbCounts, BatchState.popPending, BatchState.countFatal, BatchState.countUtlbFatal]
      · simp [utlbCounts, BatchState.popPending, BatchState.countFatal, BatchState.countUtlbFatal,
          hu, Ne.symm hu]
  rw [if_neg hhead] at h ⊢
  by_cases hreg : (!f.env.registered (f.entry i).vaSpace) = true
  · rw [if_pos hreg] at h ⊢
    obtain ⟨rfl, rfl, rfl⟩ := h
    refine ⟨rfl, fun _ => rfl, fun _ _ => rfl, fun j h1 h2 => ?_, single_after fun _ _ => rfl,
      fun u => rfl, fun u => rfl⟩
    obtain rfl : j = i := by simp only [Visit.first, Visit.stop] at h1 h2; omega
    simpa [leavesFatal, hflag] using hhead
  rw [if_neg hreg] at h ⊢
  cases hb : f.env.findCreate i with
  | error status =>
    rw [hb] at h
    obtain ⟨rfl, rfl, rfl⟩ := h
    have hround := f.faultWithoutBlock_round (i := i) (s := s) status (by simpa [hflag] using hhead)
    exact ⟨hround.1, fun _ => rfl, hround.2⟩
  | ok b =>
    rw [hb] at h
    simp only [Option.map_eq_some_iff] at h
    obtain ⟨r, hr, h⟩ := h
    obtain ⟨hstat, hstop, hround⟩ := f.serviceFaultBatchBlock_round hi hr
    rw [← hstat]
    have hsame : ∀ batchId, RoundSpec f (.block i (f.stopOf b i) b)
        (touchesEnd f.entry f.cachedFaults b (f.stopOf b i)) s { r.2.2 with batchId := batchId } :=
      fun _ => ⟨hround.before, hround.flags, hround.after, hround.pending, hround.fatal⟩
    unfold replayStatus
    by_cases hok : r.1 = .ok
    · rw [if_neg (not_not.mpr hok)] at h
      rw [hok]
      split at h
      · next hreplay =>
        rw [if_pos hreplay]
        split at h
        · obtain ⟨rfl, rfl, rfl⟩ : f.env.pushReplay i = st ∧ i + r.2.1 = i' ∧ r.2.2 = s' := by
            simpa using h
          exact ⟨rfl, fun _ => hstop, hround⟩
        · next hpush =>
          obtain ⟨rfl, rfl, rfl⟩ := h
          exact ⟨(not_not.mp hpush).symm, fun _ => hstop, hsame _⟩
      · next hreplay =>
        rw [if_neg hreplay]
        obtain ⟨rfl, rfl, rfl⟩ := h
        exact ⟨rfl, fun _ => hstop, hround⟩
    · rw [if_pos hok] at h
      obtain ⟨rfl, rfl, rfl⟩ : r.1 = st ∧ i + r.2.1 = i' ∧ r.2.2 = s' := by simpa using h
      exact ⟨(if_neg hok).symm, fun hc => absurd hc hok, hround⟩

/-! ## What the loop leaves -/

/-- The status that an end of the loop comes with. -/
def endStatus : BatchEnd → NvStatus
  | .finished => .ok
  | .flushed => if f.env.flush = .ok then .warnMoreProcessingRequired else f.env.flush
  | .failed status => status

/-- The count of a uTLB as an end of the loop leaves it. -/
def endCount (stop : BatchEnd) (utlb count : ℕ) : ℕ :=
  if stop = .flushed ∧ utlb ≤ f.env.maxUtlbId then 0 else count

/-- What the rounds of the loop from fault `i` on leave, after the visits and with the end that
`r` says. -/
structure Reached (i : ℕ) (r : List Visit × BatchEnd) (status : NvStatus) (s s' : BatchState) :
    Prop where
  status : status = f.endStatus r.2
  before : ∀ j, j < i → s'.flags j = s.flags j
  flags : ∀ v ∈ r.1, ∀ j, v.first ≤ j → j < v.stop → (s'.flags j).isFatal = f.leavesFatal v j
  pending : ∀ u, s'.utlbPending u =
    f.endCount r.2 u (s.utlbPending u - utlbCount f.entry u (r.1.flatMap Visit.clears))
  fatal : ∀ u, s'.utlbFatal u =
    f.endCount r.2 u (s.utlbFatal u + utlbCount f.entry u (r.1.flatMap f.utlbCounts))

theorem visitAt_first (i : ℕ) (cleared : Bool) : (f.visitAt i cleared).1.first = i := by
  unfold visitAt
  split
  · rfl
  · split
    · rfl
    · split <;> rfl

theorem lt_visitAt_stop (cleared : Bool) (hi : i < f.cachedFaults) :
    i < (f.visitAt i cleared).1.stop ∧ (f.visitAt i cleared).1.stop ≤ f.cachedFaults := by
  unfold visitAt
  split
  · exact ⟨Nat.lt_succ_self i, hi⟩
  · split
    · exact ⟨Nat.lt_succ_self i, hi⟩
    · split
      · exact ⟨Nat.lt_succ_self i, hi⟩
      · next b hb => exact ⟨f.lt_stopOf hi hb, f.stopOf_le b (Nat.le_of_lt hi)⟩

/-- **The loop from fault `i` on leaves what its visits and its end say**, if the faults from `i` on
are marked by their type, but for the one whose mark was taken. -/
theorem serviceLoop_reached : ∀ rounds (vaSpace : Option ℕ) i cleared s st s',
      (∀ j, i ≤ j → (s.flags j).isFatal = (f.fatalType j && !(cleared && j == i))) →
      serviceLoop f.env f.entry f.cachedFaults rounds vaSpace i s = some (st, s') →
      Reached f i (f.reachFrom rounds vaSpace i cleared) st s s' := by
  intro rounds
  induction rounds with
  | zero =>
    intro vaSpace i cleared s st s' _ h
    simp only [serviceLoop] at h
    split at h
    · cases h
    · obtain ⟨rfl, rfl⟩ : NvStatus.ok = st ∧ s = s' := by simpa using h
      exact ⟨rfl, fun _ _ => rfl, fun v hv => by simp [reachFrom] at hv,
        fun u => by simp [reachFrom, endCount], fun u => by simp [reachFrom, endCount]⟩
  | succ rounds ih =>
    intro vaSpace i cleared s st s' hflags h
    simp only [serviceLoop] at h
    unfold reachFrom
    split at h
    swap
    · next hi =>
      obtain ⟨rfl, rfl⟩ : NvStatus.ok = st ∧ s = s' := by simpa using h
      rw [if_neg hi]
      exact ⟨rfl, fun _ _ => rfl, fun v hv => by simp at hv, fun u => by simp [endCount],
        fun u => by simp [endCount]⟩
    next hi =>
    rw [if_pos hi]
    simp only [Option.bind_eq_some_iff] at h
    obtain ⟨⟨st₁, i', s₁⟩, hround, h⟩ := h
    by_cases hflush : f.flushes vaSpace i = true
    · -- the loop is left, and the statistics are reset
      rw [if_pos hflush]
      have hcond : some (f.entry i).vaSpace ≠ vaSpace ∧
          f.env.registered (f.entry i).vaSpace = true ∧
          f.env.needsFaultBufferFlush (f.entry i).vaSpace = true := by
        simpa [flushes, and_assoc] using hflush
      unfold serviceFault at hround
      rw [if_pos hcond] at hround
      obtain ⟨rfl, rfl, rfl⟩ := hround
      have hne : (if f.env.flush = .ok then NvStatus.warnMoreProcessingRequired
          else f.env.flush) ≠ .ok := by
        split
        · simp
        · assumption
      rw [if_neg hne] at h
      obtain ⟨rfl, rfl⟩ := Prod.mk.inj (Option.some.inj h)
      refine ⟨rfl, fun _ _ => rfl, fun v hv => by simp at hv, fun u => ?_, fun u => ?_⟩
      · simp [endCount, BatchState.resetUtlbs]
      · simp [endCount, BatchState.resetUtlbs]
    · rw [if_neg hflush]
      obtain ⟨hst, hi', hspec⟩ := f.serviceFault_round hi (by simpa using hflags i (le_refl i))
        (by simpa using hflush) hround
      have hfirst := f.visitAt_first i cleared
      have hlt := (f.lt_visitAt_stop cleared hi).1
      generalize f.visitAt i cleared = v at hst hi' hspec hfirst hlt ⊢
      by_cases hok : f.visitStatus v.1 = .ok
      · rw [if_pos (hst.trans hok)] at h
        rw [if_neg (not_not.mpr hok)]
        obtain rfl := hi' (hst.trans hok)
        -- the faults that the visit has not reached keep the marks of their types
        have hmarks : ∀ j, v.1.stop ≤ j →
            (s₁.flags j).isFatal = (f.fatalType j && !(v.2 && j == v.1.stop)) := fun j hj => by
          have hne : (j == i) = false := beq_eq_false_iff_ne.mpr (by omega)
          rw [hspec.after j hj, hflags j (by omega), hne]
          simp
        have hrest := ih _ v.1.stop v.2 s₁ st s' hmarks h
        refine ⟨hrest.status, fun j hj => ?_, fun w hw j h1 h2 => ?_, fun u => ?_, fun u => ?_⟩
        · rw [hrest.before j (by omega), hspec.before j (by omega)]
        · rcases List.mem_cons.mp hw with rfl | hw
          · rw [hrest.before j h2, hspec.flags j h1 h2]
          · exact hrest.flags w hw j h1 h2
        · rw [hrest.pending, hspec.pending, List.flatMap_cons, utlbCount_append, Nat.sub_sub]
        · rw [hrest.fatal, hspec.fatal, List.flatMap_cons, utlbCount_append, Nat.add_assoc]
      · rw [if_neg (fun hc => hok (hst.symm.trans hc))] at h
        rw [if_pos hok]
        obtain ⟨rfl, rfl⟩ := Prod.mk.inj (Option.some.inj h)
        refine ⟨hst, fun j hj => hspec.before j (by omega), fun w hw j h1 h2 => ?_, fun u => ?_,
          fun u => ?_⟩
        · obtain rfl := List.mem_singleton.mp hw
          exact hspec.flags j h1 h2
        · simp [endCount, hspec.pending]
        · simp [endCount, hspec.fatal]

theorem serviceFaultBatch_reached {st : NvStatus}
    (hflags : ∀ j, (s.flags j).isFatal = f.fatalType j)
    (h : serviceFaultBatch f.env f.entry f.cachedFaults s = some (st, s')) :
    Reached f 0 f.reach st s s' :=
  f.serviceLoop_reached _ _ 0 false s st s' (fun j _ => by simp [hflags]) h

/-! ## The faults that the visits handle -/

/-- Where the visits from fault `i` on stop. -/
def lastStop : ℕ → List Visit → ℕ
  | i, [] => i
  | _, v :: rest => lastStop v.stop rest

/-- The visit counts its faults off the pending faults of their uTLBs: it is not one of a fault in a
VA space that the GPU is not registered with. -/
def Handled (v : Visit) : Prop := ∀ i, v ≠ .ignored i

/-- The marks of the faults of a block are those of its first attempt, or that one finds no fault
fatal. -/
def FatalSettled (v : Visit) : Prop :=
  ∀ first stop b, v = .block first stop b →
    firstFatal f.entry first stop (f.env.attempts first) = [] ∨
      ∃ a, f.settled first stop = some (0, a)

theorem reachFrom_bounds :
    ∀ rounds vaSpace i cleared, ∀ v ∈ (f.reachFrom rounds vaSpace i cleared).1,
      i ≤ v.first ∧ v.stop ≤ f.cachedFaults := by
  intro rounds
  induction rounds with
  | zero =>
    intro vaSpace i cleared v hv
    simp [reachFrom] at hv
  | succ rounds ih =>
    intro vaSpace i cleared v hv
    unfold reachFrom at hv
    split at hv
    swap
    · simp at hv
    next hi =>
    have hfirst := f.visitAt_first i cleared
    obtain ⟨hlt, hle⟩ := f.lt_visitAt_stop cleared hi
    split at hv
    · simp at hv
    · dsimp only at hv
      split at hv
      · obtain rfl := List.mem_singleton.mp hv
        exact ⟨hfirst.ge, hle⟩
      · rcases List.mem_cons.mp hv with rfl | hv
        · exact ⟨hfirst.ge, hle⟩
        · obtain ⟨h1, h2⟩ := ih _ _ _ v hv
          exact ⟨by omega, h2⟩

theorem clears_count (u : ℕ) : ∀ rounds vaSpace i cleared,
      (∀ v ∈ (f.reachFrom rounds vaSpace i cleared).1, Handled v) →
      i ≤ lastStop i (f.reachFrom rounds vaSpace i cleared).1 ∧
      utlbCount f.entry u ((f.reachFrom rounds vaSpace i cleared).1.flatMap Visit.clears) =
        utlbCount f.entry u
          (List.range' i (lastStop i (f.reachFrom rounds vaSpace i cleared).1 - i)) := by
  intro rounds
  induction rounds with
  | zero =>
    simp [reachFrom, lastStop]
  | succ rounds ih =>
    intro vaSpace i cleared hhandled
    unfold reachFrom at hhandled ⊢
    split at hhandled
    swap
    · next hi => simp [hi, lastStop]
    next hi =>
    rw [if_pos hi]
    split at hhandled
    · next hflush => simp [hflush, lastStop]
    next hflush =>
    rw [if_neg hflush]
    have hfirst := f.visitAt_first i cleared
    have hlt := (f.lt_visitAt_stop cleared hi).1
    generalize f.visitAt i cleared = v at hhandled hfirst hlt ⊢
    -- the first visit counts off `[i, v.stop)`
    have hclears : Handled v.1 → v.1.clears = List.range' i (v.1.stop - i) := fun hv => by
      rw [← hfirst]
      rcases v with ⟨_ | k | _ | _, _⟩
      · rfl
      · exact absurd rfl (hv k)
      · rfl
      · rfl
    dsimp only at hhandled ⊢
    split at hhandled
    · next hfail =>
      rw [if_pos hfail]
      have hv := hclears (hhandled v.1 (by simp))
      simp only [lastStop, List.flatMap_cons, List.flatMap_nil, List.append_nil, hv]
      exact ⟨hlt.le, trivial⟩
    · next hok =>
      rw [if_neg hok]
      have hv := hclears (hhandled v.1 (by simp))
      obtain ⟨hle, hcnt⟩ := ih (some (f.entry i).vaSpace) v.1.stop v.2
        fun w hw => hhandled w (by simp [hw])
      simp only [lastStop, List.flatMap_cons, utlbCount_append, hv, hcnt]
      generalize lastStop v.1.stop _ = e at hle ⊢
      refine ⟨by omega, ?_⟩
      rw [← utlbCount_append, show e - i = (v.1.stop - i) + (e - v.1.stop) by omega,
        ← List.range'_append_1, show i + (v.1.stop - i) = v.1.stop by omega]

theorem visitsFrom_visitAt (rounds : ℕ) (cleared : Bool) (hi : i < f.cachedFaults) :
    f.visitsFrom (rounds + 1) i cleared = (f.visitAt i cleared).1 ::
      f.visitsFrom rounds (f.visitAt i cleared).1.stop (f.visitAt i cleared).2 := by
  simp only [visitsFrom, if_pos hi, visitAt]
  split
  · rfl
  · split
    · rfl
    · cases f.env.findCreate i with
      | error status => rfl
      | ok b => rfl

theorem reachFrom_finished :
    ∀ rounds vaSpace i cleared, (f.reachFrom rounds vaSpace i cleared).2 = .finished →
      f.cachedFaults ≤ i + rounds → i ≤ f.cachedFaults →
      (f.reachFrom rounds vaSpace i cleared).1 = f.visitsFrom rounds i cleared ∧
        lastStop i (f.reachFrom rounds vaSpace i cleared).1 = f.cachedFaults := by
  intro rounds
  induction rounds with
  | zero =>
    intro vaSpace i cleared _ hn hi
    exact ⟨rfl, by simp only [reachFrom, lastStop]; omega⟩
  | succ rounds ih =>
    intro vaSpace i cleared hfin hn hi
    unfold reachFrom at hfin ⊢
    split at hfin
    swap
    · next hge =>
      rw [if_neg hge]
      refine ⟨by simp [visitsFrom, hge], ?_⟩
      simp only [lastStop]
      omega
    next hlt =>
    rw [if_pos hlt]
    split at hfin
    · cases hfin
    next hflush =>
    rw [if_neg hflush]
    obtain ⟨hstop, hle⟩ := f.lt_visitAt_stop cleared hlt
    rw [f.visitsFrom_visitAt rounds cleared hlt]
    generalize f.visitAt i cleared = v at hfin hstop hle ⊢
    dsimp only at hfin ⊢
    split at hfin
    · cases hfin
    · next hok =>
      rw [if_neg hok]
      obtain ⟨h1, h2⟩ := ih (some (f.entry i).vaSpace) v.1.stop v.2 hfin (by omega) hle
      exact ⟨by rw [h1], h2⟩

theorem reachFrom_failed : ∀ rounds vaSpace i cleared status,
      (f.reachFrom rounds vaSpace i cleared).2 = .failed status → status ≠ .ok := by
  intro rounds
  induction rounds with
  | zero =>
    intro vaSpace i cleared status h
    cases h
  | succ rounds ih =>
    intro vaSpace i cleared status h
    unfold reachFrom at h
    split at h
    swap
    · cases h
    · split at h
      · cases h
      · dsimp only at h
        split at h
        · next hfail =>
          obtain rfl := BatchEnd.failed.inj h
          exact hfail
        · exact ih _ _ _ status h

theorem utlbCounts_mem {v : Visit} {j : ℕ} (h : j ∈ f.utlbCounts v) : v.first ≤ j ∧ j < v.stop := by
  cases v with
  | fatalHead i =>
    obtain rfl := List.mem_singleton.mp h
    exact ⟨le_refl _, Nat.lt_succ_self _⟩
  | ignored i => cases h
  | notFound i status =>
    simp only [utlbCounts] at h
    split at h
    · cases h
    · obtain rfl := List.mem_singleton.mp h
      exact ⟨le_refl _, Nat.lt_succ_self _⟩
  | block first stop b =>
    simp only [utlbCounts] at h
    cases hatt : f.env.attempts first with
    | nil => simp [hatt, firstFatal] at h
    | cons a more =>
      rw [hatt] at h
      exact ⟨(mem_spanFatal.mp h).1, (mem_spanFatal.mp h).2.1⟩

private theorem settled_zero {first stop : ℕ} {a : Attempt}
    (h : f.settled first stop = some (0, a)) : ∃ more, f.env.attempts first = a :: more := by
  have hretries : ∀ attempts k r, settledAttempt f.entry first stop attempts k = some r →
      k ≤ r.1 := by
    intro attempts
    induction attempts with
    | nil =>
      intro k r hr
      cases hr
    | cons b more ih =>
      intro k r hr
      unfold settledAttempt at hr
      split at hr
      · exact (Nat.le_succ k).trans (ih (k + 1) r hr)
      · rw [← Option.some.inj hr]
  unfold settled at h
  cases hatt : f.env.attempts first with
  | nil =>
    rw [hatt] at h
    cases h
  | cons b more =>
    rw [hatt] at h
    unfold settledAttempt at h
    split at h
    · exact absurd (hretries _ _ _ h) (by simp)
    · obtain ⟨-, rfl⟩ := Prod.mk.inj (Option.some.inj h)
      exact ⟨more, rfl⟩

theorem FatalSettled.marked {v : Visit} (h : f.FatalSettled v) :
    (∀ j ∈ f.utlbCounts v, f.leavesFatal v j = true) ∧ f.utlbCounts v = f.counts v := by
  cases v with
  | fatalHead i => exact ⟨fun _ _ => rfl, rfl⟩
  | ignored i => exact ⟨fun _ hj => (by cases hj), rfl⟩
  | notFound i status =>
    refine ⟨fun j hj => ?_, rfl⟩
    simp only [utlbCounts] at hj
    split at hj
    · cases hj
    · next hd => simp [leavesFatal, hd]
  | block first stop b =>
    rcases h first stop b rfl with hnone | ⟨a, ha⟩
    · refine ⟨fun j hj => by simp [utlbCounts, hnone] at hj, ?_⟩
      simp only [utlbCounts, counts, hnone]
      cases hset : f.settled first stop with
      | none => rfl
      | some r =>
        obtain ⟨k, a⟩ := r
        simp only [Option.elim_some]
        split
        · next h0 =>
          obtain rfl : k = 0 := h0
          obtain ⟨more, hmore⟩ := f.settled_zero hset
          rw [hmore] at hnone
          exact hnone.symm
        · rfl
    · obtain ⟨more, hmore⟩ := f.settled_zero ha
      refine ⟨fun j hj => ?_, ?_⟩
      · simp only [utlbCounts, hmore] at hj
        simp [leavesFatal, ha, (mem_spanFatal.mp hj).2.2]
      · simp [utlbCounts, counts, ha, hmore, firstFatal]

/-! ## Batches that leave no statistics behind -/

/-- The condition on a batch.  One that the loop passes has all its faults in VA spaces with the GPU
registered, and no block with a fatal fault is attempted again.  One that ends with an error
does so at its last faults, with all of them handled and none fatal; in the precise cancel, where
the fault buffer is flushed next, it may also end anywhere for lack of memory. -/
def StatsKept : Prop :=
  match f.reach.2 with
  | .flushed => True
  | .finished => ∀ v ∈ f.reach.1, Handled v ∧ f.FatalSettled v
  | .failed status =>
    (f.env.cancelMode = true ∧ status = .errNoMemory ∧ ∀ v ∈ f.reach.1, f.FatalSettled v) ∨
      (lastStop 0 f.reach.1 = f.cachedFaults ∧
        ∀ v ∈ f.reach.1, Handled v ∧ f.utlbCounts v = [])

def NoStats (s : BatchState) : Prop := ∀ u, s.utlbPending u = 0 ∧ s.utlbFatal u = 0

/-- Statistics are of uTLBs up to `maxUtlbId`, and a uTLB with a fatal fault has one that is marked. -/
structure StatsListed (s : BatchState) : Prop where
  pending : ∀ u, 0 < s.utlbPending u → u ≤ f.env.maxUtlbId
  fatal : ∀ u, 0 < s.utlbFatal u → u ≤ f.env.maxUtlbId ∧
    ∃ j, j < f.cachedFaults ∧ (s.flags j).isFatal = true ∧ (f.entry j).utlbId = u

/-- What a batch that meets the condition leaves, when it started with clean statistics. -/
structure BatchStats (status : NvStatus) (s : BatchState) : Prop where
  ok : status = .ok → (∀ u, s.utlbPending u = 0) ∧ f.StatsListed s ∧
    (s.fatalFaults = 0 → ∀ u, s.utlbFatal u = 0)
  noMemory : f.env.cancelMode = true → status = .errNoMemory → f.StatsListed s
  error : status ≠ .ok → ¬ (f.env.cancelMode = true ∧ status = .errNoMemory) → NoStats s

theorem NoStats.listed (h : NoStats s) : f.StatsListed s :=
  ⟨fun u hu => absurd (h u).1 (by omega), fun u hu => absurd (h u).2 (by omega)⟩

private theorem Reached.listed {status : NvStatus} (h : Reached f 0 f.reach status s s')
    (hmax : ∀ j, j < f.cachedFaults → (f.entry j).utlbId ≤ f.env.maxUtlbId)
    (hpend : ∀ u, s.utlbPending u = utlbCount f.entry u (List.range f.cachedFaults))
    (hfatal : ∀ u, s.utlbFatal u = 0) (hsettled : ∀ v ∈ f.reach.1, f.FatalSettled v) :
    f.StatsListed s' := by
  refine ⟨fun u hu => ?_, fun u hu => ?_⟩
  · rw [h.pending, hpend] at hu
    have hpos : 0 < utlbCount f.entry u (List.range f.cachedFaults) := by
      unfold endCount at hu
      split at hu <;> omega
    obtain ⟨j, hj, rfl⟩ := (utlbCount_pos f.entry).mp hpos
    exact hmax j (List.mem_range.mp hj)
  · rw [h.fatal, hfatal, Nat.zero_add] at hu
    have hpos : 0 < utlbCount f.entry u (f.reach.1.flatMap f.utlbCounts) := by
      unfold endCount at hu
      split at hu <;> omega
    obtain ⟨j, hj, rfl⟩ := (utlbCount_pos f.entry).mp hpos
    obtain ⟨v, hv, hjv⟩ := List.mem_flatMap.mp hj
    obtain ⟨h1, h2⟩ := f.utlbCounts_mem hjv
    have hn : j < f.cachedFaults := h2.trans_le (f.reachFrom_bounds _ _ _ _ v hv).2
    refine ⟨hmax j hn, j, hn, ?_, rfl⟩
    rw [h.flags v hv j h1 h2]
    exact (hsettled v hv).marked.1 j hjv

theorem batchStats_of_kept {status : NvStatus}
    (hmax : ∀ j, j < f.cachedFaults → (f.entry j).utlbId ≤ f.env.maxUtlbId)
    (hflags : ∀ j, (s.flags j).isFatal = f.fatalType j)
    (hpend : ∀ u, s.utlbPending u = utlbCount f.entry u (List.range f.cachedFaults))
    (hfatal : ∀ u, s.utlbFatal u = 0) (hcnt : s.fatalFaults = 0) (hkept : f.StatsKept)
    (h : serviceFaultBatch f.env f.entry f.cachedFaults s = some (status, s')) :
    f.BatchStats status s' := by
  have hreached := f.serviceFaultBatch_reached hflags h
  have hcleared : (∀ v ∈ f.reach.1, Handled v) → lastStop 0 f.reach.1 = f.cachedFaults →
      ∀ u, s'.utlbPending u = 0 := fun hhandled hstop u => by
    obtain ⟨-, hcnt⟩ := f.clears_count u f.cachedFaults none 0 false hhandled
    change utlbCount f.entry u (f.reach.1.flatMap Visit.clears) =
      utlbCount f.entry u (List.range' 0 (lastStop 0 f.reach.1 - 0)) at hcnt
    rw [hreached.pending, hpend, hcnt, hstop, Nat.sub_zero, ← List.range_eq_range',
      Nat.sub_self]
    simp [endCount]
  unfold StatsKept at hkept
  cases hend : f.reach.2 with
  | finished =>
    rw [hend] at hkept
    have hstat : status = .ok := by rw [hreached.status, hend]; rfl
    obtain ⟨hvisits, hstop⟩ := f.reachFrom_finished _ none 0 false hend (by omega) (Nat.zero_le _)
    have hlisted := hreached.listed f hmax hpend hfatal fun v hv => (hkept v hv).2
    refine ⟨fun _ => ⟨hcleared (fun v hv => (hkept v hv).1) hstop, hlisted, fun hzero u => ?_⟩,
      fun _ hno => by simp [hstat] at hno, fun hne => absurd hstat hne⟩
    -- the batch counts what the uTLBs do
    have hfinal := f.serviceLoop_final _ none 0 false s s'
      (fun j _ => by simp [hflags]) (by rw [hstat] at h; exact h)
    have hsame : f.reach.1.flatMap f.utlbCounts = f.reach.1.flatMap f.counts :=
      List.flatMap_congr fun v hv => (hkept v hv).2.marked.2
    have hlen := hfinal.fatalFaults
    rw [hzero, hcnt, ← hvisits] at hlen
    change 0 = 0 + (f.reach.1.flatMap f.counts).length at hlen
    have hnil : f.reach.1.flatMap f.counts = [] := List.eq_nil_of_length_eq_zero (by omega)
    rw [hreached.fatal, hfatal, hsame, hnil]
    simp [endCount]
  | flushed =>
    have hne : status ≠ .ok := by
      rw [hreached.status, hend]
      change (if f.env.flush = .ok then NvStatus.warnMoreProcessingRequired else f.env.flush) ≠ .ok
      split
      · simp
      · assumption
    have hzero : NoStats s' := fun u => by
      have hcnts : ∀ l : List ℕ, (∀ j ∈ l, j < f.cachedFaults) → ¬ u ≤ f.env.maxUtlbId →
          utlbCount f.entry u l = 0 := fun l hl hu => by
        by_contra hpos
        obtain ⟨j, hj, rfl⟩ := (utlbCount_pos f.entry).mp (Nat.pos_of_ne_zero hpos)
        exact hu (hmax j (hl j hj))
      rw [hreached.pending, hreached.fatal, hpend, hfatal, hend]
      unfold endCount
      by_cases hu : u ≤ f.env.maxUtlbId
      · simp [hu]
      · have hall := hcnts (List.range f.cachedFaults) (fun j hj => List.mem_range.mp hj) hu
        have hfatals := hcnts (f.reach.1.flatMap f.utlbCounts) (fun j hj => by
          obtain ⟨v, hv, hjv⟩ := List.mem_flatMap.mp hj
          exact (f.utlbCounts_mem hjv).2.trans_le (f.reachFrom_bounds _ _ _ _ v hv).2) hu
        rw [hall, hfatals]
        simp
    exact ⟨fun hok => absurd hok hne, fun _ _ => hzero.listed f, fun _ _ => hzero⟩
  | failed st =>
    rw [hend] at hkept
    have hstat : status = st := by rw [hreached.status, hend]; rfl
    have hne : st ≠ .ok := f.reachFrom_failed _ none 0 false st hend
    rcases hkept with ⟨hcancel, hmem, hsettled⟩ | ⟨hstop, hkept⟩
    · exact ⟨fun hok => absurd (hstat.symm.trans hok) hne,
        fun _ _ => hreached.listed f hmax hpend hfatal hsettled,
        fun _ hno => absurd ⟨hcancel, hstat.trans hmem⟩ hno⟩
    · have hzero : NoStats s' := fun u => by
        refine ⟨hcleared (fun v hv => (hkept v hv).1) hstop u, ?_⟩
        have hnone : f.reach.1.flatMap f.utlbCounts = [] :=
          List.flatMap_eq_nil_iff.mpr fun v hv => (hkept v hv).2
        rw [hreached.fatal, hfatal, hnone]
        simp [endCount]
      exact ⟨fun hok => absurd (hstat.symm.trans hok) hne, fun _ _ => hzero.listed f,
        fun _ _ => hzero⟩

end SortedBatch

end NvUvm
