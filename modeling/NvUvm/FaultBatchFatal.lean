import Mathlib.Data.List.Nodup
import NvUvm.FaultBatchScan

/-!
# Fatal faults of a batch

What `service_fault_batch` does with the fatal faults of a batch: which of them stay flagged,
which are counted, and for which blocks the cancel is set up (`NoFatalLost`), and exactly when
none is lost (`FatalKept`).
-/

namespace NvUvm

/-! ## A sorted batch -/

/-- The order of the fault access types, the most intrusive first. -/
def FaultAccessType.rank : FaultAccessType → ℕ
  | .atomic => 0
  | .write => 1
  | .read => 2
  | .prefetch => 3

/-- `cmp_sort_fault_entry_by_va_space_address_access_type` does not put `b` before `a`. -/
def FaultEntry.NotAfter (a b : FaultEntry) : Prop :=
  a.vaSpace < b.vaSpace ∨ a.vaSpace = b.vaSpace ∧ (a.faultAddress < b.faultAddress ∨
    a.faultAddress = b.faultAddress ∧ a.accessType.rank ≤ b.accessType.rank)

/-- The ordered fault cache, and what servicing it meets.  `findCreate` gives the VA block
there is for a fault whether or not the loop asks for it. -/
structure SortedBatch where
  entry : ℕ → FaultEntry
  cachedFaults : ℕ
  env : FaultEnv
  sorted : ∀ i j, i ≤ j → j < cachedFaults → (entry i).NotAfter (entry j)
  covers : ∀ i b, env.findCreate i = .ok b → b.Covers (entry i)
  disjoint : ∀ i j b c, env.findCreate i = .ok b → env.findCreate j = .ok c →
    b.vaSpace = c.vaSpace → b.start ≤ c.last → c.start ≤ b.last → b = c
  failed : ∀ i status, env.findCreate i = .error status → status ≠ .ok

namespace SortedBatch

variable (f : SortedBatch)

/-- Fault `i` was marked fatal when it was fetched. -/
def fatalType (i : ℕ) : Bool := (f.entry i).faultType.isFatal

/-- Where the span of the block `b` with first fault `i` ends. -/
def stopOf (b : FaultBlock) (i : ℕ) : ℕ :=
  spanEnd f.entry b i (f.cachedFaults - i) i

/-- The attempt that settles the block with the faults `[first, stop)`. -/
def settled (first stop : ℕ) : Option (ℕ × Attempt) :=
  settledAttempt f.entry first stop (f.env.attempts first) 0

theorem findCreate_of_span {i j : ℕ} {b c : FaultBlock} (hb : f.env.findCreate i = .ok b)
    (hij : i ≤ j) (hj : j < f.stopOf b i) (hc : f.env.findCreate j = .ok c) : c = b := by
  obtain ⟨hvs, hlast⟩ := spanEnd_mem f.entry b i _ i (le_refl i)
    (fun h => absurd h (lt_irrefl i)) j hij hj
  have hstop := (spanEnd_bounds f.entry b i (f.cachedFaults - i) i).2
  have hjn : j < f.cachedFaults := by simp only [stopOf] at hj; omega
  have hbi := f.covers i b hb
  have hcj := f.covers j c hc
  have hle : (f.entry i).faultAddress ≤ (f.entry j).faultAddress := by
    rcases f.sorted i j hij hjn with h | ⟨-, h | ⟨h, -⟩⟩ <;> omega
  refine f.disjoint j i c b hc hb ?_ ?_ ?_
  · rw [← hcj.1, ← hbi.1, hvs]
  · have h1 := hcj.2.1
    omega
  · have h1 := hbi.2.1
    have h2 := hcj.2.2
    omega

theorem lt_stopOf {i : ℕ} {b : FaultBlock} (hi : i < f.cachedFaults)
    (hb : f.env.findCreate i = .ok b) : i < f.stopOf b i := by
  obtain ⟨m, hm⟩ : ∃ m, f.cachedFaults - i = m + 1 := ⟨f.cachedFaults - i - 1, by omega⟩
  have hcov := (f.covers i b hb).2.2
  simp only [stopOf, hm, spanEnd]
  rw [if_neg (Nat.not_lt.mpr hcov), if_neg (fun h => absurd h.1 (lt_irrefl i))]
  exact (spanEnd_bounds f.entry b i m (i + 1)).1

theorem stopOf_le {i : ℕ} (b : FaultBlock) (hi : i ≤ f.cachedFaults) :
    f.stopOf b i ≤ f.cachedFaults := by
  have := (spanEnd_bounds f.entry b i (f.cachedFaults - i) i).2
  simp only [stopOf]
  omega

/-! ## The visits of the loop -/

end SortedBatch

/-- What one round of the loop of `service_fault_batch` does: count a fault that is still
marked fatal, ignore one of an unregistered GPU VA space, flag or drop one that has no VA
block, or service the block of the faults `[first, stop)`. -/
inductive Visit where
  | fatalHead (i : ℕ)
  | ignored (i : ℕ)
  | notFound (i : ℕ) (status : NvStatus)
  | block (first stop : ℕ) (b : FaultBlock)

namespace Visit

/-- The faults of a visit, `[first, stop)`. -/
def first : Visit → ℕ
  | .fatalHead i | .ignored i | .notFound i _ | .block i _ _ => i

def stop : Visit → ℕ
  | .fatalHead i | .ignored i | .notFound i _ => i + 1
  | .block _ stop _ => stop

end Visit

namespace SortedBatch

variable (f : SortedBatch)

/-- The fault that has no VA block is dropped: it is a prefetch, and `status` is not the
global error. -/
def drops (i : ℕ) (status : NvStatus) : Bool :=
  (f.entry i).accessType = .prefetch && status ≠ f.env.globalStatus

/-- The visits of a loop at fault `i`; `cleared` says that the scan of the block before ended
at `i` and took its mark. -/
def visitsFrom : ℕ → ℕ → Bool → List Visit
  | 0, _, _ => []
  | rounds + 1, i, cleared =>
    if i < f.cachedFaults then
      if f.fatalType i && !cleared then .fatalHead i :: visitsFrom rounds (i + 1) false
      else if !f.env.registered (f.entry i).vaSpace then
        .ignored i :: visitsFrom rounds (i + 1) false
      else match f.env.findCreate i with
      | .error status => .notFound i status :: visitsFrom rounds (i + 1) false
      | .ok b => .block i (f.stopOf b i) b ::
          visitsFrom rounds (f.stopOf b i) (touchesEnd f.entry f.cachedFaults b (f.stopOf b i))
    else []

/-- The visits of `service_fault_batch`. -/
def visits : List Visit := f.visitsFrom f.cachedFaults 0 false

def leavesFatal : Visit → ℕ → Bool
  | .fatalHead _, _ => true
  | .ignored _, _ => false
  | .notFound i status, _ => !f.drops i status
  | .block first stop _, j => (f.settled first stop).any fun r => scanFatal f.entry r.2 first j

/-- The faults a visit counts: those of a block only if its first attempt settles it. -/
def counts : Visit → List ℕ
  | .fatalHead i => [i]
  | .ignored _ => []
  | .notFound i status => if f.drops i status then [] else [i]
  | .block first stop _ => (f.settled first stop).elim [] fun r =>
      if r.1 = 0 then spanFatal f.entry r.2 first stop else []

def cancels : Visit → List FaultBlock
  | .block first stop b => if f.counts (.block first stop b) = [] then [] else [b]
  | _ => []

/-! ## What the loop leaves -/

/-- What one visit leaves; `cleared` says whether it took the mark of the fault it stops
at. -/
structure VisitSpec (v : Visit) (cleared : Bool) (s s' : BatchState) : Prop where
  before : ∀ j, j < v.first → s'.flags j = s.flags j
  flags : ∀ j, v.first ≤ j → j < v.stop → (s'.flags j).isFatal = f.leavesFatal v j
  after : ∀ j, v.stop ≤ j →
    (s'.flags j).isFatal = ((s.flags j).isFatal && !(cleared && j == v.stop))
  counted : s'.countedFatal = s.countedFatal ++ f.counts v
  fatalFaults : s'.fatalFaults = s.fatalFaults + (f.counts v).length
  cancelled : s'.cancelled = s.cancelled ++ f.cancels v
  settles : ∀ first stop b, v = .block first stop b → f.settled first stop ≠ none

variable {i first j stop : ℕ} {s s' : BatchState} {b : FaultBlock} {cleared : Bool} {v : Visit}

theorem single_after (h : ∀ j, j ≠ i → s'.flags j = s.flags j) :
    ∀ j, i + 1 ≤ j → (s'.flags j).isFatal = ((s.flags j).isFatal && !(false && j == i + 1)) :=
  fun j hj => by simp [h j (by omega)]

theorem faultWithoutBlock_spec (status : NvStatus) (hfatal : (s.flags i).isFatal = false) :
    VisitSpec f (.notFound i status) false s
      (faultWithoutBlock f.env f.entry i status s).2 := by
  by_cases hd : f.drops i status = true
  · have hd' : (f.entry i).accessType = .prefetch ∧ status ≠ f.env.globalStatus := by
      simpa [drops] using hd
    have hflags : (faultWithoutBlock f.env f.entry i status s).2.flags = s.flags := by
      simp only [faultWithoutBlock, if_pos hd']
      split <;> rfl
    refine ⟨fun j _ => by rw [hflags], fun j h1 h2 => ?_,
      single_after fun j _ => by rw [hflags], ?_, ?_, ?_, by simp⟩
    · obtain rfl : j = i := by simp only [Visit.first, Visit.stop] at h1 h2; omega
      rw [hflags, hfatal]
      simp [leavesFatal, hd]
    all_goals
      simp only [faultWithoutBlock, if_pos hd', counts, hd, cancels]
      split <;> simp [BatchState.popPending]
  · have hd' : ¬ ((f.entry i).accessType = .prefetch ∧ status ≠ f.env.globalStatus) := by
      simpa [drops] using hd
    have hflags : ∀ j, j ≠ i →
        (faultWithoutBlock f.env f.entry i status s).2.flags j = s.flags j := fun j hj => by
      simp only [faultWithoutBlock, if_neg hd']
      split <;> simp [BatchState.setFlags, BatchState.countFatal, BatchState.countUtlbFatal,
        BatchState.popPending, Function.update_of_ne hj]
    refine ⟨fun j hj => hflags j (Nat.ne_of_lt hj), fun j h1 h2 => ?_, single_after hflags,
      ?_, ?_, ?_, by simp⟩
    · obtain rfl : j = i := by simp only [Visit.first, Visit.stop] at h1 h2; omega
      simp only [faultWithoutBlock, if_neg hd', leavesFatal, hd]
      split <;> simp [BatchState.setFlags, BatchState.countFatal, BatchState.countUtlbFatal]
    all_goals
      simp only [faultWithoutBlock, if_neg hd', counts, cancels]
      split <;> simp [BatchState.setFlags, BatchState.countFatal, BatchState.countUtlbFatal,
        BatchState.popPending]

private theorem serviceFaultBatchBlock_spec (hi : i < f.cachedFaults)
    {r : NvStatus × ℕ × BatchState}
    (h : serviceFaultBatchBlock f.env f.entry f.cachedFaults b i s = some r) (hok : r.1 = .ok) :
    i + r.2.1 = f.stopOf b i ∧
      VisitSpec f (.block i (f.stopOf b i) b)
        (touchesEnd f.entry f.cachedFaults b (f.stopOf b i)) s r.2.2 := by
  simp only [serviceFaultBatchBlock, Option.map_eq_some_iff] at h
  obtain ⟨q, hq, rfl⟩ := h
  obtain ⟨k, a, hk, hspec⟩ := retryBlock_spec f.entry b (Nat.le_of_lt hi) _ _ _ _ hq
  have hqok : q.1 = .ok := (NvStatus.orElse_eq_ok.mp hok).1
  have hset : f.settled i (f.stopOf b i) = some (k, a) := hk
  have hcnts : f.counts (.block i (f.stopOf b i) b) =
      if q.1 = .ok ∧ k = 0 then spanFatal f.entry a i (f.stopOf b i) else [] := by
    by_cases h0 : k = 0 <;> simp [counts, hset, hqok]
  refine ⟨hspec.blockFaults, hspec.before, fun j h1 h2 => ?_, fun j hj => ?_, ?_, ?_, ?_, ?_⟩
  · rw [hspec.scanned j h1 h2]
    simp [leavesFatal, hset, scanFatal]
  · simp only [Visit.stop] at hj ⊢
    rcases Nat.lt_or_eq_of_le hj with hlt | rfl
    · rw [hspec.after j hlt]
      simp [Nat.ne_of_gt hlt]
    · rw [← stopOf] at hspec
      rw [hspec.atStop]
      by_cases ht : touchesEnd f.entry f.cachedFaults b (f.stopOf b i) = true <;> simp [ht]
  · rw [hcnts]; exact hspec.counted
  · rw [hcnts]; exact hspec.fatalFaults
  · rw [hspec.cancelled, cancels, hcnts]
    by_cases h0 : k = 0 <;>
      by_cases hne : spanFatal f.entry a i (f.stopOf b i) = [] <;> simp_all [stopOf]
  · rintro first stop b' ⟨⟩
    simp [hset]

private theorem serviceFault_spec {i' : ℕ} {vaSpace : Option ℕ} (hi : i < f.cachedFaults)
    (hflag : (s.flags i).isFatal = (f.fatalType i && !cleared))
    (h : serviceFault f.env f.entry f.cachedFaults vaSpace i s = some (.ok, i', s')) :
    ∃ v cleared', (∀ rounds, f.visitsFrom (rounds + 1) i cleared =
        v :: f.visitsFrom rounds i' cleared') ∧
      v.first = i ∧ v.stop = i' ∧ i < i' ∧ VisitSpec f v cleared' s s' := by
  simp only [serviceFault] at h
  split at h
  · simp only [Option.some.injEq, Prod.mk.injEq] at h
    obtain ⟨h, -⟩ := h
    split at h <;> simp_all
  rw [hflag] at h
  by_cases hhead : (f.fatalType i && !cleared) = true
  · rw [if_pos hhead] at h
    simp only [Option.some.injEq, Prod.mk.injEq, true_and] at h
    obtain ⟨rfl, rfl⟩ := h
    refine ⟨.fatalHead i, false, fun rounds => by simp only [visitsFrom, if_pos hi, if_pos hhead],
      rfl, rfl, Nat.lt_succ_self i, fun _ _ => rfl, fun j h1 h2 => ?_,
      single_after fun _ _ => rfl, rfl, rfl,
      (List.append_nil _).symm, by simp⟩
    obtain rfl : j = i := by simp only [Visit.first, Visit.stop] at h1 h2; omega
    exact hflag.trans hhead
  rw [if_neg hhead] at h
  by_cases hreg : (!f.env.registered (f.entry i).vaSpace) = true
  · rw [if_pos hreg] at h
    obtain ⟨rfl, rfl⟩ : i + 1 = i' ∧ s = s' := by simpa using h
    refine ⟨.ignored i, false, fun rounds => by
        simp only [visitsFrom, if_pos hi, if_neg hhead, if_pos hreg],
      rfl, rfl, Nat.lt_succ_self i, fun _ _ => rfl, fun j h1 h2 => ?_,
      single_after fun _ _ => rfl, (List.append_nil _).symm, rfl, (List.append_nil _).symm, by simp⟩
    obtain rfl : j = i := by simp only [Visit.first, Visit.stop] at h1 h2; omega
    simpa [leavesFatal, hflag] using hhead
  rw [if_neg hreg] at h
  cases hb : f.env.findCreate i with
  | error status =>
    rw [hb] at h
    simp only [Option.some.injEq, Prod.mk.injEq] at h
    obtain ⟨-, rfl, rfl⟩ := h
    refine ⟨.notFound i status, false, fun rounds => by
        simp only [visitsFrom, if_pos hi, if_neg hhead, if_neg hreg, hb],
      rfl, rfl, Nat.lt_succ_self i, f.faultWithoutBlock_spec status ?_⟩
    simpa [hflag] using hhead
  | ok b =>
    rw [hb] at h
    simp only [Option.map_eq_some_iff] at h
    obtain ⟨r, hr, h⟩ := h
    obtain ⟨hrok, hi', hflags⟩ : r.1 = .ok ∧ i + r.2.1 = i' ∧
        s'.flags = r.2.2.flags ∧ s'.countedFatal = r.2.2.countedFatal ∧
        s'.fatalFaults = r.2.2.fatalFaults ∧ s'.cancelled = r.2.2.cancelled := by
      split at h
      · rename_i hne
        exact absurd (Prod.mk.inj h).1 hne
      · rename_i hrok
        refine ⟨not_not.mp hrok, ?_⟩
        split at h
        · split at h
          · rename_i hne
            exact absurd (Prod.mk.inj h).1 hne
          · simp only [Prod.mk.injEq, true_and] at h
            obtain ⟨rfl, rfl⟩ := h
            exact ⟨rfl, rfl, rfl, rfl, rfl⟩
        · simp only [Prod.mk.injEq, true_and] at h
          obtain ⟨rfl, rfl⟩ := h
          exact ⟨rfl, rfl, rfl, rfl, rfl⟩
    obtain ⟨hstop, hspec⟩ := f.serviceFaultBatchBlock_spec hi hr hrok
    refine ⟨.block i (f.stopOf b i) b, touchesEnd f.entry f.cachedFaults b (f.stopOf b i),
      fun rounds => ?_, rfl, hstop.symm.trans hi', hi' ▸ hstop ▸ f.lt_stopOf hi hb, ?_⟩
    · rw [← hi', hstop]
      simp only [visitsFrom, if_pos hi, if_neg hhead, if_neg hreg, hb]
    · obtain ⟨hfl, hct, hff, hcn⟩ := hflags
      exact {
        before := fun j hj => by rw [hfl]; exact hspec.before j hj
        flags := fun j h1 h2 => by rw [hfl]; exact hspec.flags j h1 h2
        after := fun j hj => by rw [hfl]; exact hspec.after j hj
        counted := hct.trans hspec.counted
        fatalFaults := hff.trans hspec.fatalFaults
        cancelled := hcn.trans hspec.cancelled
        settles := hspec.settles }

/-- What is left by the rounds of the loop from fault `i` on that take `visits`. -/
structure Final (i : ℕ) (visits : List Visit) (s s' : BatchState) : Prop where
  before : ∀ j, j < i → s'.flags j = s.flags j
  flags : ∀ v ∈ visits, ∀ j, v.first ≤ j → j < v.stop →
    (s'.flags j).isFatal = f.leavesFatal v j
  counted : s'.countedFatal = s.countedFatal ++ visits.flatMap f.counts
  fatalFaults : s'.fatalFaults = s.fatalFaults + (visits.flatMap f.counts).length
  cancelled : s'.cancelled = s.cancelled ++ visits.flatMap f.cancels
  settles : ∀ first stop b, .block first stop b ∈ visits → f.settled first stop ≠ none

private theorem VisitSpec.marks {cleared' : Bool} (hspec : VisitSpec f v cleared' s s')
    (hlt : i < v.stop)
    (hflags : ∀ j, i ≤ j → (s.flags j).isFatal = (f.fatalType j && !(cleared && j == i))) :
    ∀ j, v.stop ≤ j →
      (s'.flags j).isFatal = (f.fatalType j && !(cleared' && j == v.stop)) := by
  intro j hj
  have hne : (j == i) = false := beq_eq_false_iff_ne.mpr (by omega)
  rw [hspec.after j hj, hflags j (by omega), hne]
  simp

/-- **The loop from fault `i` on leaves what its visits say**, if the faults from `i` on are
marked by their type, but for the one whose mark was taken. -/
theorem serviceLoop_final : ∀ rounds (vaSpace : Option ℕ) i cleared s s',
      (∀ j, i ≤ j → (s.flags j).isFatal = (f.fatalType j && !(cleared && j == i))) →
      serviceLoop f.env f.entry f.cachedFaults rounds vaSpace i s = some (.ok, s') →
      Final f i (f.visitsFrom rounds i cleared) s s' := by
  intro rounds
  induction rounds with
  | zero =>
    intro vaSpace i cleared s s' _ h
    simp only [serviceLoop] at h
    split at h
    · simp at h
    · obtain rfl : s = s' := by simpa using h
      exact ⟨fun _ _ => rfl, by simp [visitsFrom], by simp [visitsFrom], by simp [visitsFrom],
        by simp [visitsFrom], by simp [visitsFrom]⟩
  | succ rounds ih =>
    intro vaSpace i cleared s s' hflags h
    simp only [serviceLoop] at h
    split at h
    · rename_i hi
      simp only [Option.bind_eq_some_iff] at h
      obtain ⟨⟨st, i', s₁⟩, hround, h⟩ := h
      split at h
      · rename_i hst
        subst hst
        obtain ⟨v, cleared', hvisits, hfirst, hstop, hlt, hspec⟩ := f.serviceFault_spec hi
          (by simpa using hflags i (le_refl i)) hround
        subst hstop
        have hrest := ih _ v.stop cleared' s₁ s' (hspec.marks f hlt hflags) h
        rw [hvisits rounds]
        refine ⟨fun j hj => ?_, fun w hw j h1 h2 => ?_, ?_, ?_, ?_, fun first stop b hw => ?_⟩
        · rw [hrest.before j (by omega), hspec.before j (hfirst ▸ hj)]
        · rcases List.mem_cons.mp hw with rfl | hw
          · rw [hrest.before j (by omega), hspec.flags j h1 h2]
          · exact hrest.flags w hw j h1 h2
        · rw [hrest.counted, hspec.counted, List.flatMap_cons, List.append_assoc]
        · rw [hrest.fatalFaults, hspec.fatalFaults, List.flatMap_cons, List.length_append,
            Nat.add_assoc]
        · rw [hrest.cancelled, hspec.cancelled, List.flatMap_cons, List.append_assoc]
        · rcases List.mem_cons.mp hw with heq | hw
          · exact hspec.settles first stop b heq.symm
          · exact hrest.settles first stop b hw
      · rename_i hne
        simp only [Option.some.injEq, Prod.mk.injEq] at h
        exact absurd h.1 hne
    · rename_i hi
      obtain rfl : s = s' := by simpa using h
      exact ⟨fun _ _ => rfl, by simp [visitsFrom, hi], by simp [visitsFrom, hi],
        by simp [visitsFrom, hi], by simp [visitsFrom, hi], by simp [visitsFrom, hi]⟩

/-! ## The visits partition the batch -/

/-- What a visit says about the block of its first fault. -/
def Origin : Visit → Prop
  | .notFound i status => f.env.findCreate i = .error status
  | .block first stop b => f.env.findCreate first = .ok b ∧ stop = f.stopOf b first
  | _ => True

private theorem visitsFrom_succ (rounds : ℕ) (cleared : Bool) (hi : i < f.cachedFaults) :
    ∃ v cleared', f.visitsFrom (rounds + 1) i cleared = v :: f.visitsFrom rounds v.stop cleared' ∧
      v.first = i ∧ i < v.stop ∧ v.stop ≤ f.cachedFaults ∧ f.Origin v := by
  by_cases hhead : (f.fatalType i && !cleared) = true
  · exact ⟨.fatalHead i, false, by simp only [visitsFrom, if_pos hi, if_pos hhead, Visit.stop],
      rfl, Nat.lt_succ_self i, hi, trivial⟩
  by_cases hreg : (!f.env.registered (f.entry i).vaSpace) = true
  · exact ⟨.ignored i, false, by
      simp only [visitsFrom, if_pos hi, if_neg hhead, if_pos hreg, Visit.stop],
      rfl, Nat.lt_succ_self i, hi, trivial⟩
  cases hb : f.env.findCreate i with
  | error status =>
    exact ⟨.notFound i status, false, by
      simp only [visitsFrom, if_pos hi, if_neg hhead, if_neg hreg, hb, Visit.stop],
      rfl, Nat.lt_succ_self i, hi, hb⟩
  | ok b =>
    exact ⟨.block i (f.stopOf b i) b, touchesEnd f.entry f.cachedFaults b (f.stopOf b i), by
      simp only [visitsFrom, if_pos hi, if_neg hhead, if_neg hreg, hb, Visit.stop],
      rfl, f.lt_stopOf hi hb, f.stopOf_le b (Nat.le_of_lt hi), hb, rfl⟩

theorem visitsFrom_bounds : ∀ rounds i cleared, ∀ v ∈ f.visitsFrom rounds i cleared,
      i ≤ v.first ∧ v.first < v.stop ∧ v.stop ≤ f.cachedFaults ∧ f.Origin v := by
  intro rounds
  induction rounds with
  | zero => intro i cleared v hv; simp [visitsFrom] at hv
  | succ rounds ih =>
    intro i cleared v hv
    by_cases hi : i < f.cachedFaults
    · obtain ⟨w, cleared', hw, hfirst, hlt, hle, horigin⟩ := f.visitsFrom_succ rounds cleared hi
      rw [hw] at hv
      rcases List.mem_cons.mp hv with rfl | hv
      · exact ⟨hfirst.ge, hfirst ▸ hlt, hle, horigin⟩
      · obtain ⟨h1, h2⟩ := ih _ _ v hv
        exact ⟨by omega, h2⟩
    · simp [visitsFrom, hi] at hv

theorem visitsFrom_cover :
    ∀ rounds i cleared, f.cachedFaults ≤ i + rounds → ∀ j, i ≤ j → j < f.cachedFaults →
      ∃ v ∈ f.visitsFrom rounds i cleared, v.first ≤ j ∧ j < v.stop := by
  intro rounds
  induction rounds with
  | zero => intro i cleared hn j h1 h2; omega
  | succ rounds ih =>
    intro i cleared hn j h1 h2
    obtain ⟨v, cleared', hv, hfirst, hlt, -, -⟩ := f.visitsFrom_succ rounds cleared
      (Nat.lt_of_le_of_lt h1 h2)
    rw [hv]
    by_cases hj : j < v.stop
    · exact ⟨v, List.mem_cons_self, hfirst ▸ h1, hj⟩
    · obtain ⟨w, hw, hcov⟩ := ih v.stop cleared' (by omega) j (by omega) h2
      exact ⟨w, List.mem_cons_of_mem v hw, hcov⟩

theorem mem_spanFatal {entry : ℕ → FaultEntry} {a : Attempt} : j ∈ spanFatal entry a first stop ↔
      first ≤ j ∧ j < stop ∧ scanFatal entry a first j = true := by
  simp only [spanFatal, List.mem_filter, List.mem_range'_1]
  constructor
  · rintro ⟨⟨h1, h2⟩, h3⟩
    exact ⟨h1, by omega, h3⟩
  · rintro ⟨h1, h2, h3⟩
    exact ⟨⟨h1, by omega⟩, h3⟩

private theorem mem_counts (h : j ∈ f.counts v) : v.first ≤ j ∧ j < v.stop := by
  cases v with
  | fatalHead i =>
    obtain rfl := List.mem_singleton.mp h
    exact ⟨le_refl _, Nat.lt_succ_self _⟩
  | ignored i => simp [counts] at h
  | notFound i status =>
    simp only [counts] at h
    split at h
    · simp at h
    · obtain rfl := List.mem_singleton.mp h
      exact ⟨le_refl _, Nat.lt_succ_self _⟩
  | block first stop b =>
    simp only [counts] at h
    cases hs : f.settled first stop with
    | none => simp [hs] at h
    | some r =>
      rw [hs] at h
      simp only [Option.elim_some] at h
      split at h
      · obtain ⟨h1, h2, -⟩ := mem_spanFatal.mp h
        exact ⟨h1, h2⟩
      · simp at h

theorem count_of_visit :
    ∀ rounds i cleared, ∀ v ∈ f.visitsFrom rounds i cleared, v.first ≤ j → j < v.stop →
      ((f.visitsFrom rounds i cleared).flatMap f.counts).count j = (f.counts v).count j := by
  intro rounds
  induction rounds with
  | zero => intro i cleared v hv; simp [visitsFrom] at hv
  | succ rounds ih =>
    intro i cleared v hv h1 h2
    by_cases hi : i < f.cachedFaults
    · obtain ⟨w, cleared', hw, -⟩ := f.visitsFrom_succ rounds cleared hi
      rw [hw] at hv ⊢
      rw [List.flatMap_cons, List.count_append]
      rcases List.mem_cons.mp hv with rfl | hv
      · have hrest : j ∉ (f.visitsFrom rounds v.stop cleared').flatMap f.counts := by
          intro hj
          obtain ⟨u, hu, hju⟩ := List.mem_flatMap.mp hj
          have h3 := (f.visitsFrom_bounds rounds v.stop cleared' u hu).1
          have h4 := (f.mem_counts hju).1
          omega
        rw [List.count_eq_zero_of_not_mem hrest, Nat.add_zero]
      · have hw : j ∉ f.counts w := by
          intro hj
          have h3 := (f.visitsFrom_bounds rounds w.stop cleared' v hv).1
          have h4 := (f.mem_counts hj).2
          omega
        rw [List.count_eq_zero_of_not_mem hw, Nat.zero_add]
        exact ih w.stop cleared' v hv h1 h2
    · simp [visitsFrom, hi] at hv

/-! ## No fatal fault is lost -/

/-- No fatal fault of the batch is lost in `s`: those that were fetched as fatal are still
marked, the marked ones are counted once, the cancel is set up for every block of one, and
`fatal_faults` says whether there is one. -/
structure NoFatalLost (s : BatchState) : Prop where
  marked : ∀ i, i < f.cachedFaults → f.fatalType i = true → (s.flags i).isFatal = true
  counted : ∀ i, i < f.cachedFaults → (s.flags i).isFatal = true → s.countedFatal.count i = 1
  cancelled : ∀ i b, i < f.cachedFaults → (s.flags i).isFatal = true →
    f.env.findCreate i = .ok b → b ∈ s.cancelled
  reported : (∃ i, i < f.cachedFaults ∧ (s.flags i).isFatal = true) → 0 < s.fatalFaults

/-- The attempt refuses the page of fault `j`: no fault of the page from `first` up to `j` is a
prefetch or has its permission. -/
def PageRefused (attempt : Attempt) (first j : ℕ) : Prop :=
  ∀ k, first ≤ k → k ≤ j → (f.entry k).faultAddress = (f.entry j).faultAddress →
    refuses f.entry attempt k = true

/-- The attempt refuses a page of the faults `[first, stop)`. -/
def Refuses (attempt : Attempt) (first stop : ℕ) : Prop :=
  ∃ j, first ≤ j ∧ j < stop ∧ f.PageRefused attempt first j

/-- What a visit must meet to lose no fatal fault.  A fault that is counted at the head needs
another visit that sets up the cancel for its block, one without a retry that refuses a page;
one that is ignored or dropped must not be of a fatal type; and a block must be settled by an
attempt that refuses the pages of its faults of a fatal type, and that is the first one if it
refuses any. -/
def Keeps : Visit → Prop
  | .fatalHead i => ∀ b, f.env.findCreate i = .ok b → ∃ first stop attempt,
      .block first stop b ∈ f.visits ∧ f.settled first stop = some (0, attempt) ∧
      f.Refuses attempt first stop
  | .ignored i => f.fatalType i = false
  | .notFound i status => f.fatalType i = true → f.drops i status = false
  | .block first stop _ => ∀ retries attempt, f.settled first stop = some (retries, attempt) →
      (∀ j, first ≤ j → j < stop → f.fatalType j = true → f.PageRefused attempt first j) ∧
      (f.Refuses attempt first stop → retries = 0)

/-- Every visit of the batch loses no fatal fault. -/
def FatalKept : Prop := ∀ v ∈ f.visits, f.Keeps v

private theorem visits_bounds (hv : v ∈ f.visits) :
    v.first < v.stop ∧ v.stop ≤ f.cachedFaults ∧ f.Origin v :=
  (f.visitsFrom_bounds _ _ _ v hv).2

private theorem scanFatal_iff_refused (hv : .block first stop b ∈ f.visits) (attempt : Attempt)
    (h1 : first ≤ j) (h2 : j < stop) :
    scanFatal f.entry attempt first j = true ↔ f.PageRefused attempt first j := by
  obtain ⟨-, hle, hb, rfl⟩ := f.visits_bounds hv
  simp only [Visit.stop] at hle
  refine scanFatal_iff f.entry attempt h1 fun k l hk hkl hl => ?_
  have hspan := spanEnd_mem f.entry b first (f.cachedFaults - first) first (le_refl _)
    (fun h => absurd h (lt_irrefl _))
  have hvs := (hspan k hk (Nat.lt_of_le_of_lt (hkl.trans hl) h2)).1.trans
    (hspan l (hk.trans hkl) (Nat.lt_of_le_of_lt hl h2)).1.symm
  rcases f.sorted k l hkl (by omega) with h | ⟨-, h | ⟨h, -⟩⟩ <;> omega

private theorem refuses_iff (hv : .block first stop b ∈ f.visits) (attempt : Attempt) :
    f.Refuses attempt first stop ↔ spanFatal f.entry attempt first stop ≠ [] := by
  constructor
  · rintro ⟨j, h1, h2, h3⟩
    exact List.ne_nil_of_mem
      (mem_spanFatal.mpr ⟨h1, h2, (f.scanFatal_iff_refused hv attempt h1 h2).mpr h3⟩)
  · intro hne
    obtain ⟨j, hj⟩ := List.exists_mem_of_ne_nil _ hne
    obtain ⟨h1, h2, h3⟩ := mem_spanFatal.mp hj
    exact ⟨j, h1, h2, (f.scanFatal_iff_refused hv attempt h1 h2).mp h3⟩

private theorem mem_cancels_iff : (∃ v ∈ f.visits, b ∈ f.cancels v) ↔ ∃ first stop attempt,
      .block first stop b ∈ f.visits ∧ f.settled first stop = some (0, attempt) ∧
      f.Refuses attempt first stop := by
  constructor
  · rintro ⟨v, hv, hb⟩
    cases v with
    | block first stop c =>
      simp only [cancels, counts] at hb
      cases hs : f.settled first stop with
      | none => simp [hs] at hb
      | some r =>
        obtain ⟨retries, attempt⟩ := r
        by_cases h0 : retries = 0
        · subst h0
          by_cases hne : spanFatal f.entry attempt first stop = []
          · simp [hs, hne] at hb
          · obtain rfl : b = c := by simpa [hs, hne] using hb
            exact ⟨first, stop, attempt, hv, hs, (f.refuses_iff hv attempt).mpr hne⟩
        · simp [hs, h0] at hb
    | fatalHead _ | ignored _ | notFound _ _ => simp [cancels] at hb
  · rintro ⟨first, stop, attempt, hv, hs, href⟩
    exact ⟨_, hv, by simp [cancels, counts, hs, (f.refuses_iff hv attempt).mp href]⟩

private theorem count_spanFatal {entry : ℕ → FaultEntry} {a : Attempt} (h1 : first ≤ j)
    (h2 : j < stop) (h3 : scanFatal entry a first j = true) :
    (spanFatal entry a first stop).count j = 1 :=
  List.count_eq_one_of_mem (List.Nodup.filter _ List.nodup_range') (mem_spanFatal.mpr ⟨h1, h2, h3⟩)

private theorem Keeps.count (hv : v ∈ f.visits) (h1 : v.first ≤ j) (h2 : j < v.stop)
    (hk : f.Keeps v) (hfatal : f.leavesFatal v j = true) : (f.counts v).count j = 1 := by
  cases v with
  | fatalHead i =>
    obtain rfl : j = i := by simp only [Visit.first, Visit.stop] at h1 h2; omega
    simp [counts]
  | ignored i => simp [leavesFatal] at hfatal
  | notFound i status =>
    obtain rfl : j = i := by simp only [Visit.first, Visit.stop] at h1 h2; omega
    have hd : f.drops j status = false := by simpa [leavesFatal] using hfatal
    simp [counts, hd]
  | block first stop b =>
    simp only [leavesFatal, Option.any_eq_true] at hfatal
    obtain ⟨⟨retries, attempt⟩, hr, hsf⟩ := hfatal
    have href : f.Refuses attempt first stop :=
      ⟨j, h1, h2, (f.scanFatal_iff_refused hv attempt h1 h2).mp hsf⟩
    have hone := count_spanFatal h1 h2 hsf
    simp only [Visit.first, Visit.stop] at hone
    simp [counts, hr, (hk retries attempt hr).2 href, hone]

/-- The whole of `service_fault_batch` on the batch as it was fetched. -/
def serviced (cache : ℕ → FaultFlags) (batchId : ℕ) (utlbPending utlbFatal : ℕ → ℕ) :
    Option (NvStatus × BatchState) :=
  serviceFaultBatch f.env f.entry f.cachedFaults
    (fetchedState f.entry cache batchId utlbPending utlbFatal)

private theorem serviced_final {cache : ℕ → FaultFlags} {batchId : ℕ}
    {utlbPending utlbFatal : ℕ → ℕ}
    (h : f.serviced cache batchId utlbPending utlbFatal = some (.ok, s)) :
    Final f 0 f.visits (fetchedState f.entry cache batchId utlbPending utlbFatal) s :=
  f.serviceLoop_final _ _ 0 false _ s (fun j _ => by simp [fetchedState, fatalType]) h

/-- **No fatal fault of a batch is lost if and only if every visit keeps them.** -/
theorem noFatalLost_iff (cache : ℕ → FaultFlags) (batchId : ℕ) (utlbPending utlbFatal : ℕ → ℕ)
    {s : BatchState} (h : f.serviced cache batchId utlbPending utlbFatal = some (.ok, s)) :
    f.NoFatalLost s ↔ f.FatalKept := by
  have hfinal := f.serviced_final h
  have hcnt : ∀ v ∈ f.visits, ∀ j, v.first ≤ j → j < v.stop →
      s.countedFatal.count j = (f.counts v).count j := fun v hv j h1 h2 => by
    rw [hfinal.counted, List.count_append]
    simpa [fetchedState, visits] using f.count_of_visit _ _ _ v hv h1 h2
  have hcancel : ∀ b, b ∈ s.cancelled ↔ ∃ v ∈ f.visits, b ∈ f.cancels v := fun b => by
    rw [hfinal.cancelled, List.mem_append, List.mem_flatMap]
    simp [fetchedState]
  constructor
  · intro hs v hv
    obtain ⟨hlt, hle, -⟩ := f.visits_bounds hv
    have hflags := hfinal.flags v hv
    cases v with
    | fatalHead i =>
      intro b hb
      exact f.mem_cancels_iff.mp
        ((hcancel b).mp (hs.cancelled i b hle (hflags i (le_refl i) hlt) hb))
    | ignored i =>
      refine Bool.eq_false_iff.mpr fun hft => ?_
      have hm := hs.marked i hle hft
      rw [hflags i (le_refl i) hlt] at hm
      simp [leavesFatal] at hm
    | notFound i status =>
      intro hft
      have hm := hs.marked i hle hft
      rw [hflags i (le_refl i) hlt] at hm
      simpa [leavesFatal] using hm
    | block first stop b =>
      intro retries attempt hr
      simp only [Visit.stop] at hle
      have hleaves : ∀ j, first ≤ j → j < stop →
          ((s.flags j).isFatal = true ↔ f.PageRefused attempt first j) := fun j h1 h2 => by
        rw [← f.scanFatal_iff_refused hv attempt h1 h2, hflags j h1 h2]
        simp [leavesFatal, hr]
      refine ⟨fun j h1 h2 hft => ?_, ?_⟩
      · rw [← hleaves j h1 h2]
        exact hs.marked j (by omega) hft
      · rintro ⟨j, h1, h2, h3⟩
        have hone := hs.counted j (by omega) ((hleaves j h1 h2).mpr h3)
        rw [hcnt _ hv j h1 h2] at hone
        by_contra h0
        simp [counts, hr, h0] at hone
  · intro hk
    have hcover : ∀ j, j < f.cachedFaults → ∃ v ∈ f.visits, v.first ≤ j ∧ j < v.stop :=
      fun j hj => f.visitsFrom_cover _ _ _ (by omega) j (Nat.zero_le j) hj
    have hcounted : ∀ j, j < f.cachedFaults → (s.flags j).isFatal = true →
        s.countedFatal.count j = 1 := fun j hj hfatal => by
      obtain ⟨v, hv, h1, h2⟩ := hcover j hj
      rw [hfinal.flags v hv j h1 h2] at hfatal
      rw [hcnt v hv j h1 h2, Keeps.count f hv h1 h2 (hk v hv) hfatal]
    refine ⟨fun j hj hft => ?_, hcounted, fun j b hj hfatal hb => ?_, ?_⟩
    · obtain ⟨v, hv, h1, h2⟩ := hcover j hj
      have hkv := hk v hv
      rw [hfinal.flags v hv j h1 h2]
      cases v with
      | fatalHead i => rfl
      | ignored i =>
        obtain rfl : j = i := by simp only [Visit.first, Visit.stop] at h1 h2; omega
        exact absurd hft (by simp [show f.fatalType j = false from hkv])
      | notFound i status =>
        obtain rfl : j = i := by simp only [Visit.first, Visit.stop] at h1 h2; omega
        simp [leavesFatal, show f.drops j status = false from hkv hft]
      | block first stop b =>
        obtain ⟨⟨retries, attempt⟩, hr⟩ :=
          Option.ne_none_iff_exists'.mp (hfinal.settles first stop b hv)
        have hpage := (hkv retries attempt hr).1 j h1 h2 hft
        simpa [leavesFatal, hr] using (f.scanFatal_iff_refused hv attempt h1 h2).mpr hpage
    · obtain ⟨v, hv, h1, h2⟩ := hcover j hj
      have hkv := hk v hv
      rw [hfinal.flags v hv j h1 h2] at hfatal
      have horigin := (f.visits_bounds hv).2.2
      rw [hcancel]
      cases v with
      | fatalHead i =>
        obtain rfl : j = i := by simp only [Visit.first, Visit.stop] at h1 h2; omega
        exact f.mem_cancels_iff.mpr (hkv b hb)
      | ignored i => simp [leavesFatal] at hfatal
      | notFound i status =>
        obtain rfl : j = i := by simp only [Visit.first, Visit.stop] at h1 h2; omega
        rw [show f.env.findCreate j = .error status from horigin] at hb
        cases hb
      | block first stop c =>
        obtain ⟨hc, rfl⟩ := horigin
        obtain rfl := f.findCreate_of_span hc h1 h2 hb
        have hone := Keeps.count f hv h1 h2 hkv hfatal
        refine ⟨_, hv, ?_⟩
        have hne : f.counts (.block first (f.stopOf b first) b) ≠ [] := by
          intro hnil
          rw [hnil] at hone
          simp at hone
        simp [cancels, hne]
    · rintro ⟨j, hj, hfatal⟩
      have hmem : j ∈ s.countedFatal := by
        rw [← List.count_pos_iff, hcounted j hj hfatal]
        exact Nat.one_pos
      have hlen : s.fatalFaults = s.countedFatal.length := by
        rw [hfinal.fatalFaults, hfinal.counted]
        simp [fetchedState]
      rw [hlen]
      exact List.length_pos_of_mem hmem

private theorem serviceFault_isSome {rounds : ℕ} (vaSpace : Option ℕ) (hi : i < f.cachedFaults)
    (hflag : (s.flags i).isFatal = (f.fatalType i && !cleared))
    (h : ∀ b, .block i (f.stopOf b i) b ∈ f.visitsFrom (rounds + 1) i cleared →
      f.settled i (f.stopOf b i) ≠ none) :
    ∃ r, serviceFault f.env f.entry f.cachedFaults vaSpace i s = some r := by
  simp only [serviceFault]
  split
  · exact ⟨_, rfl⟩
  rw [hflag]
  by_cases hhead : (f.fatalType i && !cleared) = true
  · exact ⟨_, if_pos hhead⟩
  rw [if_neg hhead]
  by_cases hreg : (!f.env.registered (f.entry i).vaSpace) = true
  · exact ⟨_, if_pos hreg⟩
  rw [if_neg hreg]
  cases hb : f.env.findCreate i with
  | error status => exact ⟨_, rfl⟩
  | ok b =>
    have hset := h b (by
      simp only [visitsFrom, if_pos hi, if_neg hhead, if_neg hreg, hb, List.mem_cons, true_or])
    obtain ⟨r, hr⟩ := retryBlock_isSome f.entry b (Nat.le_of_lt hi) (f.env.attempts i) 0 s hset
    simp only [serviceFaultBatchBlock, hr]
    exact ⟨_, rfl⟩

theorem serviced_isSome (cache : ℕ → FaultFlags) (batchId : ℕ) (utlbPending utlbFatal : ℕ → ℕ)
    (h : ∀ first stop b, .block first stop b ∈ f.visits → f.settled first stop ≠ none) :
    ∃ r, f.serviced cache batchId utlbPending utlbFatal = some r := by
  have hloop : ∀ rounds (vaSpace : Option ℕ) i cleared (s : BatchState),
      f.cachedFaults ≤ i + rounds →
      (∀ j, i ≤ j → (s.flags j).isFatal = (f.fatalType j && !(cleared && j == i))) →
      (∀ first stop b, .block first stop b ∈ f.visitsFrom rounds i cleared →
        f.settled first stop ≠ none) →
      ∃ r, serviceLoop f.env f.entry f.cachedFaults rounds vaSpace i s = some r := by
    intro rounds
    induction rounds with
    | zero =>
      intro vaSpace i cleared s hn _ _
      exact ⟨(.ok, s), by simp only [serviceLoop, if_neg (show ¬ i < f.cachedFaults by omega)]⟩
    | succ rounds ih =>
      intro vaSpace i cleared s hn hflags hset
      by_cases hi : i < f.cachedFaults
      · obtain ⟨⟨st, i', s'⟩, hround⟩ := f.serviceFault_isSome vaSpace hi
          (by simpa using hflags i (le_refl i)) (fun b hb => hset i _ b hb)
        simp only [serviceLoop, if_pos hi, hround]
        by_cases hst : st = .ok
        · subst hst
          obtain ⟨v, cleared', hvisits, -, rfl, hlt, hspec⟩ := f.serviceFault_spec hi
            (by simpa using hflags i (le_refl i)) hround
          refine ih _ v.stop cleared' s' (by omega) (hspec.marks f hlt hflags)
            fun first stop b hb => hset first stop b ?_
          rw [hvisits rounds]
          exact List.mem_cons_of_mem v hb
        · exact ⟨_, if_neg hst⟩
      · exact ⟨(.ok, s), by simp only [serviceLoop, if_neg hi]⟩
  exact hloop _ none 0 false _ (Nat.le_add_left _ _)
    (fun j _ => by simp [fetchedState, fatalType]) h

/-- **Servicing a batch ends** if the retries of every block do: each round that goes on moves to a
later fault, also past one whose mark a scan has cleared. -/
theorem serviced_returns (cache : ℕ → FaultFlags) (batchId : ℕ) (utlbPending utlbFatal : ℕ → ℕ)
    (h : ∀ i, ∃ attempt ∈ f.env.attempts i, attempt.serviceFaults ≠ .errMoreProcessingRequired ∧
      attempt.setCancel ≠ .errMoreProcessingRequired) :
    ∃ r, f.serviced cache batchId utlbPending utlbFatal = some r := by
  refine f.serviced_isSome cache batchId utlbPending utlbFatal fun first stop b _ => ?_
  have hsettles : ∀ (attempts : List Attempt) k, (∃ attempt ∈ attempts,
      attempt.serviceFaults ≠ .errMoreProcessingRequired ∧
        attempt.setCancel ≠ .errMoreProcessingRequired) →
      settledAttempt f.entry first stop attempts k ≠ none := by
    intro attempts
    induction attempts with
    | nil => simp
    | cons a attempts ih =>
      intro k hex
      unfold settledAttempt
      split
      · next hmore =>
        refine ih (k + 1) ?_
        obtain ⟨attempt, hmem, hends⟩ := hex
        rcases List.mem_cons.mp hmem with rfl | hmem
        · -- the status of an attempt is one of the two, or `NV_OK`
          unfold attemptStatus at hmore
          dsimp only at hmore
          split at hmore
          · split at hmore
            · exact absurd hmore hends.2
            · exact absurd hmore hends.1
          · split at hmore
            · exact absurd hmore hends.2
            · cases hmore
        · exact ⟨attempt, hmem, hends⟩
      · simp
  exact hsettles _ 0 (h first)

end SortedBatch

/-! ## A fatal fault that is lost -/

/-- Two read faults on two pages of one block; the second is of a fatal type. -/
private def twoFaults (permission : NvStatus) : SortedBatch where
  entry := fun i => ⟨0, if i = 0 then 4096 else 8192, .read,
    if i = 0 then .invalidPte else .fatal 0, 0⟩
  cachedFaults := 2
  env :=
    { registered := fun _ => true
      needsFaultBufferFlush := fun _ => false
      flush := .ok
      maxUtlbId := 0
      findCreate := fun _ => .ok ⟨0, 0, 2097151⟩
      attempts := fun _ => [⟨fun _ => permission, fun _ => false, fun _ => false, .ok, .ok⟩]
      addTracker := fun _ => .ok
      cancelMode := false
      replayPolicyBlock := false
      pushReplay := fun _ => .ok
      globalStatus := .ok }
  sorted := fun i j hij _ => by
    refine Or.inr ⟨rfl, ?_⟩
    by_cases hi : i = 0 <;> by_cases hj : j = 0 <;> simp [hi, hj]
    omega
  covers := by
    rintro i b ⟨⟩
    refine ⟨rfl, Nat.zero_le _, ?_⟩
    by_cases hi : i = 0 <;> simp [hi]
  disjoint := by
    rintro i j b c ⟨⟩ ⟨⟩ - - -
    rfl
  failed := by
    rintro i status ⟨⟩

private def twoFaultsServiced (permission : NvStatus) : Option (NvStatus × BatchState) :=
  (twoFaults permission).serviced (fun _ => ⟨false, false, false⟩) 0 (fun _ => 2) (fun _ => 0)

/-- The scan clears the mark of the second fault, whose permission check passes: the batch is
serviced as if it held no fatal fault. -/
theorem serviceFaultBatch_loses_fatalType :
    ∃ s, twoFaultsServiced .ok = some (.ok, s) ∧ (twoFaults .ok).fatalType 1 = true ∧
      (s.flags 1).isFatal = false ∧ s.fatalFaults = 0 ∧ ¬ (twoFaults .ok).NoFatalLost s := by
  refine ⟨_, rfl, rfl, rfl, rfl, fun h => ?_⟩
  have hm := h.marked 1 (by decide) rfl
  exact absurd hm (by decide)

theorem noFatalLost_iff_twoFaults : ∃ s, twoFaultsServiced .errInvalidAddress = some (.ok, s) ∧
      ((twoFaults .errInvalidAddress).NoFatalLost s ↔ (twoFaults .errInvalidAddress).FatalKept) :=
  ⟨_, rfl, (twoFaults .errInvalidAddress).noFatalLost_iff (fun _ => ⟨false, false, false⟩) 0
    (fun _ => 2) (fun _ => 0) rfl⟩

theorem serviced_returns_twoFaults : ∃ r, (twoFaults .ok).serviced
    (fun _ => ⟨false, false, false⟩) 0 (fun _ => 2) (fun _ => 0) = some r :=
  (twoFaults .ok).serviced_returns _ 0 _ _ fun _ => ⟨_, List.mem_singleton.mpr rfl, by decide, by decide⟩

end NvUvm
