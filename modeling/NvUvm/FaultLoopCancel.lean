import NvUvm.FaultLoop

/-!
# The cancels that follow a global error

When servicing a batch ends with a global error, `cancel_fault_batch` should push a cancel for each
uTLB with a fault in the batch.  It skips the uTLBs that are flagged `cancelled`, and the flag stays
from the cancels of earlier batches and bottom halves: only the precise cancel resets it.
-/

namespace NvUvm

open Lib

/-- After a global error each uTLB with a fault in the batch had a cancel pushed, unless a push
failed. -/
def CancelsReach (s : FaultLoop) : Prop :=
  ∀ r, s.cancelRecord = some r → r.failed = true ∨ ∀ utlb ∈ r.faulted, utlb ∈ r.pushed

/-! ## The cancel of a batch -/

section CancelFaultBatch

variable (push : ℕ → NvStatus) (cache : List CachedFault) (cancelled : ℕ → Bool)

/-- The fault is one that `cancel_fault_batch` pushes a cancel for if it gets to it: the first of a
uTLB that is not flagged. -/
def CancelsAt (x : CachedFault × ℕ) : Prop :=
  cancelled x.1.entry.utlbId = false ∧ isFirstFaultInUtlb cache x.2 x.1.entry.utlbId = true

/-- The invariant of the loop, when it has handled some of the faults: their uTLBs are flagged, and
a cancel was pushed for those that were not flagged before. -/
private structure CancelInv (handled : List (CachedFault × ℕ)) (s : (ℕ → Bool) × List ℕ) : Prop where
  flagged : ∀ u, s.1 u = true ↔ cancelled u = true ∨ ∃ x ∈ handled, x.1.entry.utlbId = u
  pushed : ∀ u, u ∈ s.2 ↔ cancelled u = false ∧ ∃ x ∈ handled, x.1.entry.utlbId = u
  ok : ∀ x ∈ handled, CancelsAt cache cancelled x → push x.2 = .ok

variable {post pre : List (CachedFault × ℕ)} {x : CachedFault × ℕ}

private theorem isFirstFaultInUtlb_split (hsplit : cache.zipIdx = pre ++ x :: post) (u : ℕ) :
    isFirstFaultInUtlb cache x.2 u = true ↔ ∀ y ∈ pre, y.1.entry.utlbId ≠ u := by
  have hlen : pre.length < cache.zipIdx.length := by simp [hsplit]
  have hx : cache.zipIdx[pre.length] = x := by simp [hsplit]
  have hidx : x.2 = pre.length := by
    rw [← hx]
    simp
  have htake : cache.take pre.length = pre.map Prod.fst := by
    have hfst : cache = (pre ++ x :: post).map Prod.fst := by
      rw [← hsplit]
      simp
    rw [hfst]
    simp
  rw [isFirstFaultInUtlb, hidx, htake]
  simp

private theorem cancelsAt_iff {s : (ℕ → Bool) × List ℕ} (hsplit : cache.zipIdx = pre ++ x :: post)
    (h : CancelInv push cache cancelled pre s) :
    CancelsAt cache cancelled x ↔ s.1 x.1.entry.utlbId = false := by
  rw [CancelsAt, isFirstFaultInUtlb_split cache hsplit, ← Bool.not_eq_true (s.1 _), h.flagged]
  simp

private theorem cancelInv_step {s : (ℕ → Bool) × List ℕ} (hsplit : cache.zipIdx = pre ++ x :: post)
    (h : CancelInv push cache cancelled pre s) (hgo : (cancelFault push x s).1.isOk = true) :
    CancelInv push cache cancelled (pre ++ [x]) (cancelFault push x s).2 := by
  have hat := cancelsAt_iff push cache cancelled hsplit h
  have hmem : ∀ u, (∃ y ∈ pre ++ [x], y.1.entry.utlbId = u) ↔
      (∃ y ∈ pre, y.1.entry.utlbId = u) ∨ x.1.entry.utlbId = u := fun u => by
    simp [or_and_right, exists_or]
  unfold cancelFault at hgo ⊢
  dsimp only at hgo ⊢
  split
  · next hflag =>
    -- the uTLB is flagged already, so nothing changes
    refine ⟨fun u => ?_, fun u => ?_, fun y hy hcancels => ?_⟩
    · rw [hmem, ← or_assoc, ← h.flagged]
      exact ⟨Or.inl, fun hu => hu.elim id fun hu => hu ▸ hflag⟩
    · rw [hmem, h.pushed]
      refine and_congr_right fun hu => ⟨Or.inl, fun hx => hx.elim id ?_⟩
      rintro rfl
      exact ((h.flagged _).mp hflag).resolve_left (by simp [hu])
    · rcases List.mem_append.mp hy with hy | hy
      · exact h.ok y hy hcancels
      · obtain rfl := List.mem_singleton.mp hy
        exact absurd hflag (by simp [hat.mp hcancels])
  · next hflag =>
    rw [if_neg hflag] at hgo
    split
    · next hpush =>
      rw [if_pos hpush] at hgo
      exact absurd (NvStatus.isOk_eq_true.mp hgo) hpush
    · next hpush =>
      have hfresh : cancelled x.1.entry.utlbId = false :=
        (hat.mpr (by simpa using hflag)).1
      refine ⟨fun u => ?_, fun u => ?_, fun y hy hcancels => ?_⟩
      · rw [hmem, ← or_assoc, ← h.flagged]
        by_cases hu : u = x.1.entry.utlbId
        · simp [hu]
        · simp [Function.update_of_ne hu, Ne.symm hu]
      · rw [hmem, List.mem_append, h.pushed, List.mem_singleton]
        constructor
        · rintro (⟨hu, hy⟩ | rfl)
          · exact ⟨hu, Or.inl hy⟩
          · exact ⟨hfresh, Or.inr rfl⟩
        · rintro ⟨hu, hy | rfl⟩
          · exact Or.inl ⟨hu, hy⟩
          · exact Or.inr rfl
      · rcases List.mem_append.mp hy with hy | hy
        · exact h.ok y hy hcancels
        · obtain rfl := List.mem_singleton.mp hy
          exact not_not.mp hpush

private theorem cancelInv_nil : CancelInv push cache cancelled [] (cancelled, []) :=
  ⟨fun u => by simp, fun u => by simp, fun x hx => by cases hx⟩

theorem cancelFaultBatch_pushed (h : (cancelFaultBatch push cache cancelled).1.isOk = true) (u : ℕ) :
    u ∈ (cancelFaultBatch push cache cancelled).2.2 ↔
      cancelled u = false ∧ ∃ c ∈ cache, c.entry.utlbId = u := by
  have hinv := runUntil_completed (CancelInv push cache cancelled) cache.zipIdx
    (fun _ _ _ _ hsplit => cancelInv_step push cache cancelled hsplit) cache.zipIdx [] _ rfl
    (cancelInv_nil push cache cancelled) h
  rw [cancelFaultBatch, hinv.pushed]
  refine and_congr_right fun _ => ⟨?_, ?_⟩
  · rintro ⟨x, hx, rfl⟩
    exact ⟨x.1, List.fst_mem_of_mem_zipIdx hx, rfl⟩
  · rintro ⟨c, hc, rfl⟩
    obtain ⟨i, hi, rfl⟩ := List.getElem_of_mem hc
    exact ⟨(cache[i], i), by simp [List.mem_zipIdx_iff_getElem?], rfl⟩

theorem cancelFaultBatch_failed : (cancelFaultBatch push cache cancelled).1.isOk = false ↔
      ∃ x ∈ cache.zipIdx, CancelsAt cache cancelled x ∧ push x.2 ≠ .ok := by
  constructor
  · intro h
    obtain ⟨pre, x, post, s, hsplit, hinv, hstop⟩ := runUntil_stopped
      (CancelInv push cache cancelled) cache.zipIdx rfl
      (fun _ _ _ _ hsplit => cancelInv_step push cache cancelled hsplit) cache.zipIdx [] _ rfl
      (cancelInv_nil push cache cancelled) h
    have hat := cancelsAt_iff push cache cancelled hsplit hinv
    refine ⟨x, by simp [hsplit], ?_⟩
    unfold cancelFault at hstop
    dsimp only at hstop
    split at hstop
    · cases hstop
    · next hflag =>
      split at hstop
      · next hpush => exact ⟨hat.mpr (by simpa using hflag), hpush⟩
      · cases hstop
  · rintro ⟨x, hx, hcancels, hpush⟩
    rw [← Bool.not_eq_true]
    intro hok
    have hinv := runUntil_completed (CancelInv push cache cancelled) cache.zipIdx
      (fun _ _ _ _ hsplit => cancelInv_step push cache cancelled hsplit) cache.zipIdx [] _ rfl
      (cancelInv_nil push cache cancelled) hok
    exact hpush (hinv.ok x hx hcancels)

end CancelFaultBatch

/-! ## The steps -/

/-- The service ended with a global error; in the precise cancel one that lacks memory is repeated. -/
def isGlobalError (cancel : Bool) (status : NvStatus) : Prop :=
  status ≠ .ok ∧ status ≠ .warnMoreProcessingRequired ∧ ¬ (cancel = true ∧ status = .errNoMemory)

/-- The condition on a step.  When it follows a global error, that is not one of the precise
cancel, and either no fault of the batch is in a uTLB that is still flagged, or a push fails. -/
def CancelsFresh (s : FaultLoop) : LoopOp → Prop
  | .finish _ _ push => ∀ cancel status, s.phase = .serviced cancel status →
      isGlobalError cancel status →
      if cancel then s.cache = []
      else (∀ c ∈ s.cache, s.cancelled c.entry.utlbId = false) ∨
        ∃ x ∈ s.cache.zipIdx, CancelsAt s.cache s.cancelled x ∧ push x.2 ≠ .ok
  | _ => True

namespace FaultLoop

variable {s : FaultLoop}

theorem cancelsReach_of_none (h : s.cancelRecord = none) : CancelsReach s := by
  intro r hr
  rw [h] at hr
  cases hr

theorem serviceBatch_cancelRecord {cancel : Bool} {b : BatchInput} {s' : FaultLoop}
    (h : s.serviceBatch cancel b = some s') : s'.cancelRecord = s.cancelRecord := by
  unfold serviceBatch at h
  cases hgone : b.vaSpaceGone with
  | some status =>
    rw [hgone] at h
    obtain rfl := Option.some.inj h
    rfl
  | none =>
    rw [hgone] at h
    simp only [Option.map_eq_some_iff] at h
    obtain ⟨r, -, rfl⟩ := h
    rfl

theorem batchStep_cancelRecord (b : BatchInput) (s : FaultLoop) :
    (s.batchStep b).cancelRecord = s.cancelRecord := by
  unfold batchStep
  split
  · rfl
  · cases hs : s.serviceBatch false b with
    | none => rfl
    | some s' => exact serviceBatch_cancelRecord hs

theorem iterateStep_cancelRecord (b : BatchInput) (pastEnd : CachedFault)
    (pushReplay waitReplay : NvStatus) (s : FaultLoop) :
    (s.iterateStep b pastEnd pushReplay waitReplay).cancelRecord = s.cancelRecord := by
  unfold iterateStep
  dsimp only
  split
  · rfl
  · split
    · rfl
    · generalize hs₁ : ({ (s.recordFatal pastEnd).flushLocked with
          cancelled := (((s.recordFatal pastEnd).flushLocked).fetch b).checkLockdown.cancelled
          inLockdown := (((s.recordFatal pastEnd).flushLocked).fetch b).checkLockdown.inLockdown } :
            FaultLoop) = s₁
      have hrec : s₁.cancelRecord = s.cancelRecord := by
        rw [← hs₁]
        rfl
      cases hs : s₁.serviceBatch true b with
      | none => rfl
      | some s' => exact (serviceBatch_cancelRecord hs).trans hrec

theorem finishRegular_cancels {policy : ReplayPolicy} {waitTracker status : NvStatus}
    {push : ℕ → NvStatus} (hnone : s.cancelRecord = none) :
    CancelsReach (s.finishRegular policy waitTracker push status) ↔
      (isGlobalError false status → (∀ c ∈ s.cache, s.cancelled c.entry.utlbId = false) ∨
        ∃ x ∈ s.cache.zipIdx, CancelsAt s.cache s.cancelled x ∧ push x.2 ≠ .ok) := by
  unfold finishRegular
  split
  · next hwarn => exact iff_of_true (cancelsReach_of_none hnone) fun h => absurd hwarn h.2.1
  · next hwarn =>
    split
    · next hne =>
      have herror : isGlobalError false status := ⟨hne, hwarn, by simp⟩
      rw [← cancelFaultBatch_failed, or_comm]
      have hpushed := cancelFaultBatch_pushed push s.cache s.cancelled
      simp only [CancelsReach, Option.some.injEq, forall_eq', Bool.not_eq_true', herror,
        forall_const, List.forall_mem_map]
      -- only when no push fails does it matter what was pushed
      refine or_congr_right' fun hok => forall₂_congr fun c hc => ?_
      rw [hpushed (by simpa using hok)]
      exact ⟨fun h => h.1, fun h => ⟨h, c, hc, rfl⟩⟩
    · next hok =>
      refine iff_of_true ?_ fun h => absurd h.1 hok
      split
      · exact cancelsReach_of_none hnone
      · split <;> exact cancelsReach_of_none hnone

theorem finishPrecise_cancels {status : NvStatus} {push : ℕ → NvStatus}
    (hnone : s.cancelRecord = none) :
    CancelsReach (s.finishPrecise push status) ↔ (isGlobalError true status → s.cache = []) := by
  unfold finishPrecise
  split
  · next hretry =>
    refine iff_of_true (cancelsReach_of_none hnone) fun h => ?_
    rcases hretry with rfl | rfl
    · exact absurd rfl h.2.1
    · exact absurd ⟨rfl, rfl⟩ h.2.2
  · next hretry =>
    split
    · next hne =>
      have herror : isGlobalError true status :=
        ⟨hne, fun h => hretry (Or.inl h), fun h => hretry (Or.inr h.2)⟩
      simp [CancelsReach, herror, List.eq_nil_iff_forall_not_mem]
    · next hok =>
      refine iff_of_true ?_ fun h => absurd h.1 hok
      split <;> exact cancelsReach_of_none hnone

end FaultLoop

open FaultLoop

theorem loopStep_cancels (s : FaultLoop) (op : LoopOp) :
    CancelsReach (s.loopStep op) ↔ CancelsFresh s op := by
  have hfresh : CancelsFresh s op ↔ CancelsFresh { s with cancelRecord := none } op := by
    cases op <;> exact Iff.rfl
  rw [hfresh]
  unfold loopStep
  generalize hs₀ : ({ s with cancelRecord := none } : FaultLoop) = s₀
  have hnone : s₀.cancelRecord = none := by
    rw [← hs₀]
  dsimp only
  cases op with
  | bufferFlush =>
    refine iff_of_true (cancelsReach_of_none ?_) trivial
    cases hphase : s₀.phase with
    | idle => exact hnone
    | serviced cancel status => exact hnone
    | precise => exact hnone
  | batch b =>
    refine iff_of_true (cancelsReach_of_none ?_) trivial
    cases hphase : s₀.phase with
    | idle => exact (batchStep_cancelRecord b s₀).trans hnone
    | serviced cancel status => exact hnone
    | precise => exact hnone
  | iterate b pastEnd pushReplay waitReplay =>
    refine iff_of_true (cancelsReach_of_none ?_) trivial
    cases hphase : s₀.phase with
    | idle => exact hnone
    | serviced cancel status => exact hnone
    | precise => exact (iterateStep_cancelRecord b pastEnd pushReplay waitReplay s₀).trans hnone
  | finish policy waitTracker push =>
    cases hphase : s₀.phase with
    | idle => exact iff_of_true (cancelsReach_of_none hnone) fun c st h => by simp [hphase] at h
    | precise => exact iff_of_true (cancelsReach_of_none hnone) fun c st h => by simp [hphase] at h
    | serviced cancel status =>
      cases cancel with
      | false =>
        refine (finishRegular_cancels hnone).trans ⟨fun h c st hc => ?_, fun h => ?_⟩
        · obtain ⟨rfl, rfl⟩ := LoopPhase.serviced.inj (hphase.symm.trans hc)
          exact h
        · exact h false status hphase
      | true =>
        refine (finishPrecise_cancels hnone).trans ⟨fun h c st hc => ?_, fun h => ?_⟩
        · obtain ⟨rfl, rfl⟩ := LoopPhase.serviced.inj (hphase.symm.trans hc)
          exact h
        · exact h true status hphase

/-- **The cancels of global errors along a run**: they reach each uTLB with a fault in the batch if
and only if every step meets the condition. -/
theorem cancelsReach_along_iff {s : FaultLoop} (hnone : s.cancelRecord = none) (ops : List LoopOp) :
    HoldsAlong loopStep CancelsReach s ops ↔ StepsMeet loopStep CancelsFresh s ops :=
  holds_along_iff loopStep (W := fun _ => True) trivial (cancelsReach_of_none hnone)
    (fun _ _ _ => trivial) (fun s op _ _ => loopStep_cancels s op) ops

/-! ## A uTLB that stays flagged -/

/-- A batch that lacks memory, and the cancel of its fault. -/
private def cancelledBatch : List LoopOp :=
  [.batch (readBatch true .errNoMemory), .finish .batchFlush .ok fun _ => .ok]

/-- The first global error finds no uTLB flagged. -/
theorem cancelsReach_along_first :
    HoldsAlong loopStep CancelsReach faultLoopInit cancelledBatch := by
  apply (cancelsReach_along_iff rfl cancelledBatch).mpr
  rw [cancelledBatch, stepsMeet_cons, stepsMeet_cons]
  refine ⟨trivial, fun cancel status hphase _ => ?_, stepsMeet_nil _ _ _⟩
  have hserviced : (faultLoopInit.loopStep (.batch (readBatch true .errNoMemory))).phase =
      .serviced false .errNoMemory := by decide +kernel
  obtain ⟨rfl, rfl⟩ := LoopPhase.serviced.inj (hserviced.symm.trans hphase)
  exact Or.inl fun c _ => rfl

/-- The second global error finds the uTLB still flagged from the first, and no cancel is pushed for
its fault. -/
theorem second_global_error_cancels_none :
    ¬ HoldsAlong loopStep CancelsReach faultLoopInit (cancelledBatch ++ cancelledBatch) := by
  intro h
  have hrec : (run loopStep faultLoopInit (cancelledBatch ++ cancelledBatch)).cancelRecord =
      some ⟨[], [0], false⟩ := by decide +kernel
  rcases h _ (List.prefix_refl _) _ hrec with hfailed | hpushed
  · cases hfailed
  · exact absurd (hpushed 0 (by decide)) (by decide)

end NvUvm
