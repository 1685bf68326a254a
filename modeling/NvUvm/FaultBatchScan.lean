import NvUvm.FaultBatch

/-!
# The scan over a block's faults, read off its inputs

`service_fault_batch_block_locked` decides about a fault with the flags it gave the preceding
one.  Here the decision is stated without the state (`verdictAt`), and so is where a scan ends
(`spanEnd`), the status of an attempt (`attemptStatus`) and the attempt the retry ends with
(`settledAttempt`).  `scanBlock_spec`, `serviceFaultBatchBlockLocked_spec` and
`retryBlock_spec` say that the code leaves exactly that.
-/

namespace NvUvm

/-! ## What a scan decides -/

section Scan

variable (entry : ℕ → FaultEntry)

/-- The verdict of a scan from `first` on fault `first + m`. -/
def verdictAt (attempt : Attempt) (first : ℕ) : ℕ → FaultVerdict
  | 0 => judgeFault entry attempt first none
  | m + 1 => judgeFault entry attempt (first + m + 1)
      (if (entry (first + m + 1)).faultAddress = (entry (first + m)).faultAddress then
        some (verdictAt attempt first m).flags else none)

/-- The scan from `first` finds fault `j` fatal. -/
def scanFatal (attempt : Attempt) (first j : ℕ) : Bool :=
  (verdictAt entry attempt first (j - first)).flags.isFatal

/-- The scan from `first` finds that the page of fault `j` is to be serviced. -/
def scanServices (attempt : Attempt) (first j : ℕ) : Bool :=
  (verdictAt entry attempt first (j - first)).service

/-- Where the scan of a block ends, with `left` faults left from `i` on. -/
def spanEnd (block : FaultBlock) (first : ℕ) : ℕ → ℕ → ℕ
  | 0, i => i
  | left + 1, i =>
    if block.last < (entry i).faultAddress then i
    else if first < i ∧ (entry i).vaSpace ≠ (entry (i - 1)).vaSpace then i
    else spanEnd block first left (i + 1)

/-- The scan touched the fault it ended at, which is of another VA space. -/
def touchesEnd (cachedFaults : ℕ) (block : FaultBlock) (stop : ℕ) : Bool :=
  stop < cachedFaults && (entry stop).faultAddress ≤ block.last

theorem spanEnd_bounds (block : FaultBlock) (first : ℕ) :
    ∀ left i, i ≤ spanEnd entry block first left i ∧
      spanEnd entry block first left i ≤ i + left := by
  intro left
  induction left with
  | zero => intro i; simp [spanEnd]
  | succ left ih =>
    intro i
    have := ih (i + 1)
    simp only [spanEnd]
    split
    · omega
    · split <;> omega

theorem spanEnd_mem (block : FaultBlock) (first : ℕ) :
    ∀ left i, first ≤ i → (first < i → (entry (i - 1)).vaSpace = (entry first).vaSpace) →
      ∀ j, i ≤ j → j < spanEnd entry block first left i →
        (entry j).vaSpace = (entry first).vaSpace ∧ (entry j).faultAddress ≤ block.last := by
  intro left
  induction left with
  | zero =>
    intro i _ _ j hij hj
    simp only [spanEnd] at hj
    omega
  | succ left ih =>
    intro i hfi hprev j hij hj
    simp only [spanEnd] at hj
    split at hj
    · omega
    · rename_i haddr
      split at hj
      · omega
      · rename_i hsame
        have hvs : (entry i).vaSpace = (entry first).vaSpace := by
          by_cases hlt : first < i
          · rw [← hprev hlt]
            by_contra hne
            exact hsame ⟨hlt, hne⟩
          · rw [show i = first by omega]
        by_cases hji : j = i
        · subst hji
          exact ⟨hvs, Nat.not_lt.mp haddr⟩
        · exact ih (i + 1) (by omega) (fun _ => by simpa using hvs) j (by omega) hj

/-- What a scan of the faults from `i` on leaves. -/
structure ScanSpec (block : FaultBlock) (attempt : Attempt) (numRetries first left i : ℕ)
    (s : ScanState) (r : ℕ × ScanState) : Prop where
  stop : r.1 = spanEnd entry block first left i
  scanned : ∀ j, i ≤ j → j < r.1 →
    r.2.batch.flags j = (verdictAt entry attempt first (j - first)).flags
  before : ∀ j, j < i → r.2.batch.flags j = s.batch.flags j
  after : ∀ j, r.1 < j → r.2.batch.flags j = s.batch.flags j
  atStop : (r.2.batch.flags r.1).isFatal =
    if r.1 < i + left ∧ (entry r.1).faultAddress ≤ block.last then false
    else (s.batch.flags r.1).isFatal
  fatal : r.2.blockFatalFaults = s.blockFatalFaults ++
    if numRetries = 0 then (List.range' i (r.1 - i)).filter (scanFatal entry attempt first)
    else []
  services : 0 < r.2.pageFaultCount ↔ 0 < s.pageFaultCount ∨
    ∃ j, i ≤ j ∧ j < r.1 ∧ scanServices entry attempt first j = true
  counted : r.2.batch.countedFatal = s.batch.countedFatal
  fatalFaults : r.2.batch.fatalFaults = s.batch.fatalFaults
  cancelled : r.2.batch.cancelled = s.batch.cancelled

variable {first cachedFaults : ℕ}

theorem judge_eq_verdictAt (attempt : Attempt) {i : ℕ} (hfi : first ≤ i) (flags : ℕ → FaultFlags)
    (hprev : first < i → flags (i - 1) = (verdictAt entry attempt first (i - 1 - first)).flags) :
    judgeFault entry attempt i
        (if first < i ∧ (entry i).faultAddress = (entry (i - 1)).faultAddress then
          some (flags (i - 1)) else none) = verdictAt entry attempt first (i - first) := by
  obtain ⟨m, rfl⟩ := Nat.exists_eq_add_of_le hfi
  cases m with
  | zero => simp [verdictAt]
  | succ m =>
    have hlt : first < first + (m + 1) := by omega
    have hpred : first + (m + 1) - 1 = first + m := by omega
    rw [hpred] at hprev ⊢
    rw [hprev hlt, show first + m - first = m by omega, show first + (m + 1) - first = m + 1 by
      omega]
    simp only [hlt, true_and]
    rfl

theorem scanFault_spec (attempt : Attempt) (numRetries : ℕ) {i : ℕ} (hfi : first ≤ i)
    (s : ScanState) (hprev : first < i →
      s.batch.flags (i - 1) = (verdictAt entry attempt first (i - 1 - first)).flags) :
    let r := scanFault entry attempt numRetries first i s
    r.batch.flags = Function.update s.batch.flags i
        (verdictAt entry attempt first (i - first)).flags ∧
      r.blockFatalFaults = s.blockFatalFaults ++
        (if numRetries = 0 ∧ scanFatal entry attempt first i then [i] else []) ∧
      r.pageFaultCount = s.pageFaultCount +
        (if scanServices entry attempt first i then 1 else 0) ∧
      r.batch.countedFatal = s.batch.countedFatal ∧
      r.batch.fatalFaults = s.batch.fatalFaults ∧ r.batch.cancelled = s.batch.cancelled := by
  have hv := judge_eq_verdictAt entry attempt hfi s.batch.flags hprev
  simp only [scanFault, hv]
  cases hf : scanFatal entry attempt first i <;>
    cases hs : scanServices entry attempt first i <;>
    rw [scanFatal] at hf <;> rw [scanServices] at hs <;>
    by_cases h0 : numRetries = 0 <;>
    simp [countFault, h0, hf, hs, BatchState.setFlags, BatchState.popPending,
      BatchState.countUtlbFatal]

theorem scanBlock_spec (block : FaultBlock) (attempt : Attempt) (numRetries first : ℕ) :
    ∀ left i s, first ≤ i →
      (first < i →
        s.batch.flags (i - 1) = (verdictAt entry attempt first (i - 1 - first)).flags) →
      ScanSpec entry block attempt numRetries first left i s
        (scanBlock entry block attempt numRetries first left i s) := by
  intro left
  induction left with
  | zero =>
    intro i s _ _
    exact ⟨rfl, fun j h1 h2 => absurd h2 (Nat.not_lt.mpr h1), fun _ _ => rfl, fun _ _ => rfl,
      by simp [scanBlock], by simp [scanBlock], by
        simp only [scanBlock, iff_self_or]
        rintro ⟨j, h1, h2, -⟩
        exact absurd h2 (Nat.not_lt.mpr h1), rfl, rfl, rfl⟩
  | succ left ih =>
    intro i s hfi hprev
    have hnone : ¬ ∃ j, i ≤ j ∧ j < i ∧ scanServices entry attempt first j = true := by
      rintro ⟨j, h1, h2, -⟩
      omega
    by_cases haddr : block.last < (entry i).faultAddress
    · -- the fault is past the block
      have hr : scanBlock entry block attempt numRetries first (left + 1) i s = (i, s) := by
        simp [scanBlock, haddr]
      have hstop : spanEnd entry block first (left + 1) i = i := by simp [spanEnd, haddr]
      rw [hr]
      exact ⟨hstop.symm, fun j h1 h2 => absurd h2 (Nat.not_lt.mpr h1), fun _ _ => rfl,
        fun _ _ => rfl, by simp [Nat.not_le.mpr haddr], by simp, (or_iff_left hnone).symm,
        rfl, rfl, rfl⟩
    by_cases hvs : first < i ∧ (entry i).vaSpace ≠ (entry (i - 1)).vaSpace
    · -- the fault is of another VA space, and its flags are gone
      have hr : scanBlock entry block attempt numRetries first (left + 1) i s =
          (i, { s with batch := s.batch.setFlags i ⟨false, false, false⟩ }) := by
        simp only [scanBlock, if_neg haddr, if_pos hvs]
      have hstop : spanEnd entry block first (left + 1) i = i := by
        simp only [spanEnd, if_neg haddr, if_pos hvs]
      rw [hr]
      refine ⟨hstop.symm, fun j h1 h2 => absurd h2 (Nat.not_lt.mpr h1), fun j hj => ?_,
        fun j hj => ?_, ?_, by simp, (or_iff_left hnone).symm, rfl, rfl, rfl⟩
      · simp [BatchState.setFlags, Function.update_of_ne (Nat.ne_of_lt hj)]
      · simp [BatchState.setFlags, Function.update_of_ne (Nat.ne_of_gt hj)]
      · simp [BatchState.setFlags, Nat.not_lt.mp haddr]
    · -- the fault is scanned
      set s₁ : ScanState := { s with batch := s.batch.setFlags i ⟨false, false, false⟩ } with hs₁
      have hr : scanBlock entry block attempt numRetries first (left + 1) i s =
          scanBlock entry block attempt numRetries first left (i + 1)
            (scanFault entry attempt numRetries first i s₁) := by
        simp only [scanBlock, if_neg haddr, if_neg hvs, hs₁]
      have hstop : spanEnd entry block first (left + 1) i =
          spanEnd entry block first left (i + 1) := by
        simp only [spanEnd, if_neg haddr, if_neg hvs]
      have hflags₁ : ∀ j, j ≠ i → s₁.batch.flags j = s.batch.flags j := fun j hj => by
        simp [hs₁, BatchState.setFlags, Function.update_of_ne hj]
      obtain ⟨hfl, hfa, hpc, hct, hff, hcn⟩ := scanFault_spec entry attempt numRetries hfi s₁
        (fun h => (hflags₁ (i - 1) (by omega)).trans (hprev h))
      have hflags₂ : ∀ j, j ≠ i →
          (scanFault entry attempt numRetries first i s₁).batch.flags j = s.batch.flags j :=
        fun j hj => by rw [hfl, Function.update_of_ne hj, hflags₁ j hj]
      have hat : (scanFault entry attempt numRetries first i s₁).batch.flags i =
          (verdictAt entry attempt first (i - first)).flags := by rw [hfl, Function.update_self]
      have hspec := ih (i + 1) (scanFault entry attempt numRetries first i s₁) (by omega)
        (fun _ => by simpa using hat)
      obtain ⟨hlo, -⟩ := spanEnd_bounds entry block first left (i + 1)
      rw [hr]
      generalize scanBlock entry block attempt numRetries first left (i + 1)
        (scanFault entry attempt numRetries first i s₁) = r at hspec ⊢
      have hri : i + 1 ≤ r.1 := hspec.stop ▸ hlo
      refine ⟨hspec.stop.trans hstop.symm, fun j h1 h2 => ?_, fun j hj => ?_, fun j hj => ?_,
        ?_, ?_, ?_, hspec.counted.trans hct, hspec.fatalFaults.trans hff,
        hspec.cancelled.trans hcn⟩
      · by_cases hji : j = i
        · subst hji
          rw [hspec.before j (by omega), hat]
        · exact hspec.scanned j (by omega) h2
      · rw [hspec.before j (by omega), hflags₂ j (by omega)]
      · rw [hspec.after j hj, hflags₂ j (by omega)]
      · rw [hspec.atStop, hflags₂ r.1 (by omega), show i + 1 + left = i + (left + 1) by omega]
      · have hrange : List.range' i (r.1 - i) = i :: List.range' (i + 1) (r.1 - (i + 1)) := by
          rw [show r.1 - i = r.1 - (i + 1) + 1 by omega, List.range'_succ]
        rw [hspec.fatal, hfa, hrange]
        by_cases h0 : numRetries = 0 <;>
          cases hf : scanFatal entry attempt first i <;> simp [h0, hf, hs₁]
      · rw [hspec.services, hpc]
        constructor
        · rintro (h | ⟨j, h1, h2, h3⟩)
          · by_cases hsv : scanServices entry attempt first i = true
            · exact Or.inr ⟨i, le_refl i, by omega, hsv⟩
            · exact Or.inl (by simpa [hsv] using h)
          · exact Or.inr ⟨j, by omega, h2, h3⟩
        · rintro (h | ⟨j, h1, h2, h3⟩)
          · exact Or.inl (Nat.lt_of_lt_of_le h (Nat.le_add_right _ _))
          · by_cases hji : j = i
            · subst hji
              exact Or.inl (by simp [h3])
            · exact Or.inr ⟨j, by omega, h2, h3⟩

/-- The permission check refuses fault `j`, which is not a prefetch. -/
def refuses (attempt : Attempt) (j : ℕ) : Bool :=
  attempt.permission j ≠ .ok && (entry j).accessType ≠ .prefetch

private theorem judgeFault_isFatal (attempt : Attempt) (i : ℕ) (previous : Option FaultFlags) :
    (judgeFault entry attempt i previous).flags.isFatal =
      (previous.all (·.isFatal) && refuses entry attempt i) := by
  have hany : previous.any (!·.isFatal) = !previous.all (·.isFatal) := by cases previous <;> rfl
  unfold judgeFault refuses
  simp only [hany]
  cases previous.all (·.isFatal)
  · simp
  · by_cases hperm : attempt.permission i = .ok
    · simp only [hperm, Bool.not_true, Bool.false_eq_true, if_false, ne_eq, not_true_eq_false,
        decide_false, Bool.false_and]
      split
      · rfl
      · split <;> rfl
    · by_cases hacc : (entry i).accessType = .prefetch <;> simp [hperm, hacc]

/-- A fault is found fatal if and only if no fault of its page up to it is accepted, where
the addresses ascend. -/
theorem scanFatal_iff (attempt : Attempt) {j : ℕ} (hfj : first ≤ j)
    (hsorted : ∀ k l, first ≤ k → k ≤ l → l ≤ j →
      (entry k).faultAddress ≤ (entry l).faultAddress) :
    scanFatal entry attempt first j = true ↔
      ∀ k, first ≤ k → k ≤ j → (entry k).faultAddress = (entry j).faultAddress →
        refuses entry attempt k = true := by
  obtain ⟨m, rfl⟩ := Nat.exists_eq_add_of_le hfj
  simp only [scanFatal, Nat.add_sub_cancel_left]
  induction m with
  | zero =>
    simp only [verdictAt, judgeFault_isFatal, Option.all_none]
    constructor
    · intro h k h1 h2 _
      rwa [show k = first by omega]
    · exact fun h => h first (le_refl _) (le_refl _) rfl
  | succ m ih =>
    have ih := ih (Nat.le_add_right _ _) (fun k l h1 h2 h3 => hsorted k l h1 h2 (by omega))
    simp only [verdictAt, judgeFault_isFatal, Bool.and_eq_true]
    by_cases hsame : (entry (first + m + 1)).faultAddress = (entry (first + m)).faultAddress
    · rw [if_pos hsame, Option.all_some, ih]
      constructor
      · rintro ⟨hbefore, hthis⟩ k h1 h2 hk
        rcases Nat.lt_or_eq_of_le h2 with hlt | rfl
        · exact hbefore k h1 (by omega) (hk.trans hsame)
        · exact hthis
      · intro h
        exact ⟨fun k h1 h2 hk => h k h1 (by omega) (hk.trans hsame.symm),
          h (first + m + 1) (by omega) (le_refl _) rfl⟩
    · rw [if_neg hsame]
      simp only [Option.all_none, true_and]
      constructor
      · intro hthis k h1 h2 hk
        rcases Nat.lt_or_eq_of_le h2 with hlt | rfl
        · -- an earlier fault of the page would put its address between the two
          have h3 := hsorted k (first + m) h1 (by omega) (by omega)
          have h4 := hsorted (first + m) (first + m + 1) (by omega) (by omega) (le_refl _)
          rw [← Nat.add_assoc] at hk
          exact absurd (by omega) hsame
        · exact hthis
      · exact fun h => h (first + m + 1) (by omega) (le_refl _) rfl

/-! ## The attempts at a block -/

/-- The faults a scan of `[first, stop)` finds fatal. -/
def spanFatal (attempt : Attempt) (first stop : ℕ) : List ℕ :=
  (List.range' first (stop - first)).filter (scanFatal entry attempt first)

/-- The status of an attempt at the block with the faults `[first, stop)`. -/
def attemptStatus (attempt : Attempt) (numRetries first stop : ℕ) : NvStatus :=
  let status := if (List.range' first (stop - first)).any (scanServices entry attempt first)
    then attempt.serviceFaults else .ok
  if status = .ok ∧ numRetries = 0 ∧ spanFatal entry attempt first stop ≠ [] then
    attempt.setCancel
  else status

/-- The attempt the retry ends with, and the number of retries before it. -/
def settledAttempt (first stop : ℕ) : List Attempt → ℕ → Option (ℕ × Attempt)
  | [], _ => none
  | attempt :: more, numRetries =>
    if attemptStatus entry attempt numRetries first stop = .errMoreProcessingRequired then
      settledAttempt first stop more (numRetries + 1)
    else some (numRetries, attempt)

/-- What servicing the block of fault `first` leaves, when `attempt` is its last attempt. -/
structure ServiceSpec (cachedFaults : ℕ) (block : FaultBlock) (first stop : ℕ)
    (attempt : Attempt) (numRetries : ℕ) (s : BatchState) (r : NvStatus × ℕ × BatchState) :
    Prop where
  status : r.1 = attemptStatus entry attempt numRetries first stop
  blockFaults : first + r.2.1 = stop
  scanned : ∀ j, first ≤ j → j < stop →
    r.2.2.flags j = (verdictAt entry attempt first (j - first)).flags
  before : ∀ j, j < first → r.2.2.flags j = s.flags j
  after : ∀ j, stop < j → r.2.2.flags j = s.flags j
  atStop : (r.2.2.flags stop).isFatal =
    if touchesEnd entry cachedFaults block stop then false else (s.flags stop).isFatal
  counted : r.2.2.countedFatal = s.countedFatal ++
    if r.1 = .ok ∧ numRetries = 0 then spanFatal entry attempt first stop else []
  fatalFaults : r.2.2.fatalFaults = s.fatalFaults +
    (if r.1 = .ok ∧ numRetries = 0 then spanFatal entry attempt first stop else []).length
  cancelled : r.2.2.cancelled = s.cancelled ++
    if r.1 = .ok ∧ numRetries = 0 ∧ spanFatal entry attempt first stop ≠ [] then [block] else []

theorem serviceFaultBatchBlockLocked_spec (block : FaultBlock) (attempt : Attempt) (numRetries : ℕ)
    (hfirst : first ≤ cachedFaults) (s : BatchState) :
    ServiceSpec entry cachedFaults block first
      (spanEnd entry block first (cachedFaults - first) first) attempt numRetries s
      (serviceFaultBatchBlockLocked entry cachedFaults block attempt numRetries first s) := by
  have hspec := scanBlock_spec entry block attempt numRetries first (cachedFaults - first) first
    ⟨s, [], 0, 0, 0⟩ (le_refl first) (fun h => absurd h (lt_irrefl first))
  obtain ⟨hlo, -⟩ := spanEnd_bounds entry block first (cachedFaults - first) first
  simp only [serviceFaultBatchBlockLocked]
  generalize scanBlock entry block attempt numRetries first (cachedFaults - first) first
    ⟨s, [], 0, 0, 0⟩ = scan at hspec ⊢
  obtain ⟨i, scan⟩ := scan
  obtain ⟨hstop, hscanned, hbefore, hafter, hat, hfatal, hserv, hct, hff, hcn⟩ := hspec
  simp only at hstop hscanned hbefore hafter hat hfatal hserv hct hff hcn ⊢
  rw [← hstop] at hlo ⊢
  have hany : 0 < scan.pageFaultCount ↔
      (List.range' first (i - first)).any (scanServices entry attempt first) = true := by
    rw [hserv, List.any_eq_true]
    simp only [lt_irrefl, false_or, List.mem_range'_1]
    exact ⟨fun ⟨j, h1, h2, h3⟩ => ⟨j, ⟨h1, by omega⟩, h3⟩,
      fun ⟨j, ⟨h1, h2⟩, h3⟩ => ⟨j, h1, by omega, h3⟩⟩
  have hfatal' : scan.blockFatalFaults =
      if numRetries = 0 then spanFatal entry attempt first i else [] := hfatal
  have hcancels : 0 < scan.blockFatalFaults.length ↔
      numRetries = 0 ∧ spanFatal entry attempt first i ≠ [] := by
    rw [hfatal', List.length_pos_iff]
    by_cases h0 : numRetries = 0 <;> simp [h0]
  have hat' : (scan.batch.flags i).isFatal =
      if touchesEnd entry cachedFaults block i then false else (s.flags i).isFatal := by
    rw [hat, show first + (cachedFaults - first) = cachedFaults by omega]
    simp [touchesEnd]
  have hend : first + (i - first) = i := by omega
  simp only [hany, hcancels]
  rw [← attemptStatus]
  by_cases hok : attemptStatus entry attempt numRetries first i = .ok
  · rw [if_pos hok]
    refine ⟨hok.symm, hend, hscanned, hbefore, hafter, hat', ?_, ?_, ?_⟩
    · simp only [hct, hfatal', true_and]
    · simp only [hff, hfatal', true_and]
    · have hsvc : (if (List.range' first (i - first)).any (scanServices entry attempt first)
          then attempt.serviceFaults else NvStatus.ok) = .ok := by
        by_contra hne
        simp only [attemptStatus, hne, false_and, if_false] at hok
      simp only [hsvc, hcn]
      split <;> simp
  · rw [if_neg hok]
    exact ⟨rfl, hend, hscanned, hbefore, hafter, hat', by simp [hct, hok], by simp [hff, hok],
      by simp [hcn, hok]⟩

private theorem ServiceSpec.after_retry {block : FaultBlock} {stop : ℕ} {attempt attempt' : Attempt}
    {k k' : ℕ} {s : BatchState} {r r' : NvStatus × ℕ × BatchState}
    (h : ServiceSpec entry cachedFaults block first stop attempt k s r)
    (hmore : r.1 = .errMoreProcessingRequired)
    (h' : ServiceSpec entry cachedFaults block first stop attempt' k' r.2.2 r') :
    ServiceSpec entry cachedFaults block first stop attempt' k' s r' where
  status := h'.status
  blockFaults := h'.blockFaults
  scanned := h'.scanned
  before := fun j hj => (h'.before j hj).trans (h.before j hj)
  after := fun j hj => (h'.after j hj).trans (h.after j hj)
  atStop := by
    rw [h'.atStop, h.atStop]
    split <;> rfl
  counted := by rw [h'.counted, h.counted]; simp [hmore]
  fatalFaults := by rw [h'.fatalFaults, h.fatalFaults]; simp [hmore]
  cancelled := by rw [h'.cancelled, h.cancelled]; simp [hmore]

theorem retryBlock_spec (block : FaultBlock) (hfirst : first ≤ cachedFaults) :
    ∀ attempts numRetries s r,
      retryBlock entry cachedFaults block first attempts numRetries s = some r →
      ∃ k a, settledAttempt entry first
          (spanEnd entry block first (cachedFaults - first) first) attempts numRetries =
            some (k, a) ∧
        ServiceSpec entry cachedFaults block first
          (spanEnd entry block first (cachedFaults - first) first) a k s r := by
  intro attempts
  induction attempts with
  | nil => intro numRetries s r h; simp [retryBlock] at h
  | cons attempt more ih =>
    intro numRetries s r h
    have hspec := serviceFaultBatchBlockLocked_spec entry block attempt numRetries hfirst s
    simp only [retryBlock] at h
    simp only [settledAttempt]
    split at h
    · rename_i hmore
      rw [if_pos (hspec.status ▸ hmore)]
      obtain ⟨k, a, hk, hr⟩ := ih (numRetries + 1) _ r h
      exact ⟨k, a, hk, hspec.after_retry entry hmore hr⟩
    · rename_i hmore
      rw [if_neg (hspec.status ▸ hmore)]
      obtain rfl := Option.some.inj h
      exact ⟨numRetries, attempt, rfl, hspec⟩

theorem retryBlock_isSome (block : FaultBlock) (hfirst : first ≤ cachedFaults) :
    ∀ attempts numRetries s,
      settledAttempt entry first (spanEnd entry block first (cachedFaults - first) first)
        attempts numRetries ≠ none →
      ∃ r, retryBlock entry cachedFaults block first attempts numRetries s = some r := by
  intro attempts
  induction attempts with
  | nil => intro numRetries s h; exact absurd rfl h
  | cons attempt more ih =>
    intro numRetries s h
    have hspec := serviceFaultBatchBlockLocked_spec entry block attempt numRetries hfirst s
    simp only [retryBlock]
    simp only [settledAttempt] at h
    split
    · rename_i hmore
      rw [if_pos (hspec.status ▸ hmore)] at h
      exact ih (numRetries + 1) _ h
    · exact ⟨_, rfl⟩

end Scan

end NvUvm
