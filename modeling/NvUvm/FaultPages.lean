import NvUvm.FaultPass

/-!
# The pages of a pass

The faults of a page follow each other, the most intrusive first, so that the fault that a pass services
a page for is the first of them that is permitted, and the pass decides about the page by that one alone.

- `BlockBatch.address_le`, `BlockBatch.intrusiveness_le`: the order of the faults.
- `scanServices_iff`, `exists_services`: for which fault a page is serviced, and that there is one.
- `serviceAll_in`, `serviceAll_accessType`, `serviceAll_widened`: the masks and the bounds after a list of
  faults.
-/

namespace NvUvm.FaultPass

open Lib

/-! ## The order of the faults -/

private theorem then_ne_gt {m n : ℕ} {o : Ordering} :
    (compare m n).then o ≠ .gt ↔ m < n ∨ m = n ∧ o ≠ .gt := by
  rcases Nat.lt_trichotomy m n with hlt | rfl | hgt
  · simp [compare_lt_iff_lt.mpr hlt, hlt]
  · simp
  · simp [compare_gt_iff_gt.mpr hgt, hgt.ne', Nat.not_lt_of_gt hgt]

theorem cmpFaultEntry_ne_gt {a c : FaultEntry} : cmpFaultEntry a c ≠ .gt ↔
    a.vaSpace < c.vaSpace ∨ a.vaSpace = c.vaSpace ∧ (a.faultAddress < c.faultAddress ∨
      a.faultAddress = c.faultAddress ∧ intrusiveness a.accessType ≤ intrusiveness c.accessType) := by
  unfold cmpFaultEntry
  rw [then_ne_gt, then_ne_gt, ne_eq, compare_gt_iff_gt, Nat.not_lt]

namespace BlockBatch

variable (b : BlockBatch) {i j : ℕ}

theorem vaSpace_le (hij : i ≤ j) (hj : j < b.cachedFaults) :
    (b.entry i).vaSpace ≤ (b.entry j).vaSpace := by
  rcases Nat.lt_or_eq_of_le hij with hlt | rfl
  · have := cmpFaultEntry_ne_gt.mp (b.sorted i j hlt hj)
    omega
  · exact le_rfl

theorem address_le (hij : i ≤ j) (hj : j < b.cachedFaults)
    (hspace : (b.entry i).vaSpace = (b.entry j).vaSpace) :
    (b.entry i).faultAddress ≤ (b.entry j).faultAddress := by
  rcases Nat.lt_or_eq_of_le hij with hlt | rfl
  · have := cmpFaultEntry_ne_gt.mp (b.sorted i j hlt hj)
    omega
  · exact le_rfl

theorem intrusiveness_le (hij : i ≤ j) (hj : j < b.cachedFaults)
    (hspace : (b.entry i).vaSpace = (b.entry j).vaSpace)
    (haddress : (b.entry i).faultAddress = (b.entry j).faultAddress) :
    intrusiveness (b.entry i).accessType ≤ intrusiveness (b.entry j).accessType := by
  rcases Nat.lt_or_eq_of_le hij with hlt | rfl
  · have := cmpFaultEntry_ne_gt.mp (b.sorted i j hlt hj)
    omega
  · exact le_rfl

/-- The fault is one of the block, from the first on. -/
def OnBlock (i : ℕ) : Prop := b.first ≤ i ∧ i < b.cachedFaults ∧ b.block.Covers (b.entry i)

def page (i : ℕ) : ℕ := pageIndex b.block (b.entry i).faultAddress

variable {b}

theorem OnBlock.vaSpace_eq (hi : b.OnBlock i) (hj : b.OnBlock j) :
    (b.entry i).vaSpace = (b.entry j).vaSpace :=
  hi.2.2.1.trans hj.2.2.1.symm

theorem OnBlock.address_mono (hi : b.OnBlock i) (hj : b.OnBlock j) (hij : i ≤ j) :
    (b.entry i).faultAddress ≤ (b.entry j).faultAddress :=
  b.address_le hij hj.2.1 (hi.vaSpace_eq hj)

theorem OnBlock.page_eq_iff (hi : b.OnBlock i) (hj : b.OnBlock j) :
    b.page i = b.page j ↔ (b.entry i).faultAddress = (b.entry j).faultAddress := by
  constructor
  · intro h
    have halignedI := b.aligned i hi.2.1
    have halignedJ := b.aligned j hj.2.1
    have hi' := hi.2.2.2.1
    have hj' := hj.2.2.2.1
    unfold page pageIndex at h
    omega
  · intro h
    rw [page, page, h]

theorem onBlock_first : b.OnBlock b.first := ⟨le_rfl, b.firstLt, b.covers⟩

theorem OnBlock.before (hj : b.OnBlock j) (hi : b.first ≤ i) (hij : i ≤ j) : b.OnBlock i := by
  have hlt : i < b.cachedFaults := hij.trans_lt hj.2.1
  have hspace : (b.entry i).vaSpace = b.block.vaSpace := by
    have hfirst := b.vaSpace_le hi hlt
    have hlast := b.vaSpace_le hij hj.2.1
    rw [b.covers.1] at hfirst
    rw [hj.2.2.1] at hlast
    exact Nat.le_antisymm hlast hfirst
  refine ⟨hi, hlt, hspace, ?_, ?_⟩
  · exact b.covers.2.1.trans (b.address_le hi hlt (b.covers.1.trans hspace.symm))
  · exact (b.address_le hij hj.2.1 (hspace.trans hj.2.2.1.symm)).trans hj.2.2.2.2

theorem OnBlock.page_lt (hi : b.OnBlock i) : b.page i < pages2m := by
  have hsize := b.size
  have hstart := hi.2.2.2.1
  have hlast := hi.2.2.2.2
  unfold page pageIndex
  omega

end BlockBatch

/-! ## Which fault a page is serviced for -/

def PassEnv.attempt (env : PassEnv) (b : BlockBatch) (serviceFaults : NvStatus) : Attempt where
  permission i := env.checkLogicalPermissions (b.entry i).accessType
    (uvmRangeGroupAddressMigratable env.groups (b.entry i).faultAddress)
  authorized i := env.isGpuAuthorized (b.page i) (faultAccessTypeToProt (b.entry i).accessType)
  throttle i := match env.thrashingHint (b.entry i).faultAddress with
    | .throttle => true
    | _ => false
  serviceFaults := serviceFaults
  setCancel := env.setCancel

theorem PassEnv.isGpuAuthorized_mono (env : PassEnv) {page : ℕ} {x y : FaultAccessType}
    (hle : intrusiveness x ≤ intrusiveness y)
    (h : env.isGpuAuthorized page (faultAccessTypeToProt x) = true) :
    env.isGpuAuthorized page (faultAccessTypeToProt y) = true := by
  unfold PassEnv.isGpuAuthorized at h ⊢
  cases hstate : env.gpuState with
  | none =>
    rw [hstate] at h
    cases h
  | some state =>
    rw [hstate] at h
    have hw := state.writeReads page
    have ha := state.atomicWrites page
    cases x <;> cases y <;> simp only [intrusiveness] at h hle ⊢ <;>
      first | exact h | exact hw h | exact ha h | exact hw (ha h) | omega

section Pages

variable {env : PassEnv} {b : BlockBatch} {serviceFaults : NvStatus}

private theorem judgeFault_service (attempt : Attempt) (i : ℕ) (previous : Option FaultFlags) :
    (judgeFault b.entry attempt i previous).service = (previous.all (·.isFatal) &&
      (decide (attempt.permission i = .ok) && (!attempt.authorized i && !attempt.throttle i))) := by
  have hany : previous.any (!·.isFatal) = !previous.all (·.isFatal) := by cases previous <;> rfl
  unfold judgeFault
  rw [hany]
  cases previous.all (·.isFatal)
  · rfl
  · by_cases hperm : attempt.permission i = .ok
    · cases attempt.authorized i <;> cases attempt.throttle i <;> simp [hperm]
    · by_cases hacc : (b.entry i).accessType = .prefetch <;> simp [hperm, hacc]

variable {j i : ℕ}

/-- **A page is serviced for a fault** that is permitted, not satisfied and not throttled, where all
faults of the page before it were refused. -/
theorem scanServices_iff (hj : b.OnBlock j) :
    scanServices b.entry (env.attempt b serviceFaults) b.first j = true ↔
      (∀ k, b.first ≤ k → k < j → (b.entry k).faultAddress = (b.entry j).faultAddress →
        refuses b.entry (env.attempt b serviceFaults) k = true) ∧
      (env.attempt b serviceFaults).permission j = .ok ∧
      (env.attempt b serviceFaults).authorized j = false ∧
      (env.attempt b serviceFaults).throttle j = false := by
  have hspan : ∀ k, b.first ≤ k → k ≤ j → b.OnBlock k := fun k h1 h2 => hj.before h1 h2
  set attempt := env.attempt b serviceFaults
  obtain ⟨m, rfl⟩ := Nat.exists_eq_add_of_le hj.1
  have hlast : ∀ o : Option FaultFlags, (judgeFault b.entry attempt (b.first + m) o).service = true ↔
      o.all (·.isFatal) = true ∧ attempt.permission (b.first + m) = .ok ∧
        attempt.authorized (b.first + m) = false ∧ attempt.throttle (b.first + m) = false := by
    intro o
    rw [judgeFault_service]
    simp only [Bool.and_eq_true, decide_eq_true_eq, Bool.not_eq_true']
  unfold scanServices
  rw [Nat.add_sub_cancel_left]
  cases m with
  | zero =>
    refine (hlast none).trans ⟨fun h => ⟨fun k h1 h2 => ?_, h.2⟩, fun h => ⟨rfl, h.2⟩⟩
    omega
  | succ m =>
    refine (hlast _).trans (and_congr_left fun _ => ?_)
    have hprev := hspan (b.first + m) (by omega) (by omega)
    split
    · next hsame =>
      have hfatal := scanFatal_iff b.entry attempt (Nat.le_add_right b.first m)
        (fun k l h1 h2 h3 => (hspan k h1 (by omega)).address_mono (hspan l (by omega) (by omega)) h2)
      unfold scanFatal at hfatal
      rw [Nat.add_sub_cancel_left] at hfatal
      rw [Option.all_some, hfatal]
      constructor
      · intro h k h1 h2 hk
        exact h k h1 (by omega) (hk.trans hsame)
      · intro h k h1 h2 hk
        exact h k h1 (by omega) (hk.trans hsame.symm)
    · next hdiff =>
      refine ⟨fun _ k h1 h2 hk => ?_, fun _ => rfl⟩
      -- an earlier fault of the page would put the address of the last one between the two
      have hle := (hspan k h1 (by omega)).address_mono hprev (by omega)
      have hle' := hprev.address_mono hj (by omega)
      rw [← Nat.add_assoc] at hk hle'
      exact absurd (by omega) hdiff

/-! ## The pages that are to be serviced -/

def Permitted (env : PassEnv) (b : BlockBatch) (page i : ℕ) : Prop :=
  b.OnBlock i ∧ b.page i = page ∧
    env.checkLogicalPermissions (b.entry i).accessType
      (uvmRangeGroupAddressMigratable env.groups (b.entry i).faultAddress) = .ok

/-- The fault is on the page, permitted, not satisfied by the mapping of the GPU and not throttled. -/
def Wanted (env : PassEnv) (b : BlockBatch) (page i : ℕ) : Prop :=
  Permitted env b page i ∧
    env.isGpuAuthorized page (faultAccessTypeToProt (b.entry i).accessType) = false ∧
    env.thrashingHint (b.entry i).faultAddress ≠ .throttle

theorem throttle_iff : (env.attempt b serviceFaults).throttle i = false ↔
    env.thrashingHint (b.entry i).faultAddress ≠ .throttle := by
  show (match env.thrashingHint (b.entry i).faultAddress with
    | .throttle => true
    | _ => false) = false ↔ _
  cases env.thrashingHint (b.entry i).faultAddress <;> simp

theorem wanted_of_services (hj : b.OnBlock j)
    (h : scanServices b.entry (env.attempt b serviceFaults) b.first j = true) :
    Wanted env b (b.page j) j := by
  obtain ⟨-, hperm, hauth, hthr⟩ := (scanServices_iff hj).mp h
  exact ⟨⟨hj, rfl, hperm⟩, hauth, throttle_iff.mp hthr⟩

theorem exists_services {page : ℕ} (h : Wanted env b page i) : ∃ j, b.OnBlock j ∧ b.page j = page ∧
      scanServices b.entry (env.attempt b serviceFaults) b.first j = true := by
  classical
  obtain ⟨⟨hi, hpage, hperm⟩, hauth, hthr⟩ := h
  set attempt := env.attempt b serviceFaults with hattempt
  have hnot : refuses b.entry attempt i = false := by
    unfold refuses
    have hok : attempt.permission i = .ok := hperm
    simp [hok]
  -- the first fault of the page that is not refused
  have hex : ∃ j, b.first ≤ j ∧ j ≤ i ∧ b.page j = page ∧ refuses b.entry attempt j = false :=
    ⟨i, hi.1, le_rfl, hpage, hnot⟩
  obtain ⟨hfirst, hle, hjpage, hjnot⟩ := Nat.find_spec hex
  have hmin := fun k => Nat.find_min hex (m := k)
  generalize Nat.find hex = j at *
  have hj : b.OnBlock j := hi.before hfirst hle
  have haddress : (b.entry j).faultAddress = (b.entry i).faultAddress :=
    (hj.page_eq_iff hi).mp (hjpage.trans hpage.symm)
  have hrank : intrusiveness (b.entry j).accessType ≤ intrusiveness (b.entry i).accessType :=
    b.intrusiveness_le hle hi.2.1 (hj.vaSpace_eq hi) haddress
  refine ⟨j, hj, hjpage, (scanServices_iff hj).mpr ⟨fun k h1 h2 hk => ?_, ?_, ?_, ?_⟩⟩
  · by_contra hrefused
    have hkb := hj.before h1 h2.le
    exact hmin k h2 ⟨h1, (h2.le).trans hle, ((hkb.page_eq_iff hj).mpr hk).trans hjpage,
      by simpa using hrefused⟩
  · -- a prefetch that is not permitted is the least intrusive fault of its page
    by_contra hdenied
    have hprefetch : (b.entry j).accessType = .prefetch := by
      unfold refuses at hjnot
      simp only [Bool.and_eq_false_iff, decide_eq_false_iff_not, not_not] at hjnot
      exact hjnot.resolve_left hdenied
    have hsame : (b.entry i).accessType = .prefetch := by
      rw [hprefetch] at hrank
      revert hrank
      cases (b.entry i).accessType <;> simp [intrusiveness]
    apply hdenied
    show env.checkLogicalPermissions _ _ = _
    rw [hprefetch, haddress, ← hsame]
    exact hperm
  · show env.isGpuAuthorized (b.page j) _ = false
    rw [hjpage]
    by_contra hsatisfied
    rw [env.isGpuAuthorized_mono hrank (by simpa using hsatisfied)] at hauth
    cases hauth
  · rw [throttle_iff, haddress]
    exact hthr

theorem services_unique (hi : b.OnBlock i) (hj : b.OnBlock j) (hpage : b.page i = b.page j)
    (hsi : scanServices b.entry (env.attempt b serviceFaults) b.first i = true)
    (hsj : scanServices b.entry (env.attempt b serviceFaults) b.first j = true) : i = j := by
  have hbefore : ∀ {k l : ℕ}, b.OnBlock k → b.OnBlock l → b.page k = b.page l → k < l →
      scanServices b.entry (env.attempt b serviceFaults) b.first k = true →
      ¬ scanServices b.entry (env.attempt b serviceFaults) b.first l = true := by
    intro k l hk hl hkl hlt hsk hsl
    -- the earlier fault was refused, or the later one would have been waived
    have hrefused := ((scanServices_iff hl).mp hsl).1 k hk.1 hlt ((hk.page_eq_iff hl).mp hkl)
    have hok := ((scanServices_iff hk).mp hsk).2.1
    unfold refuses at hrefused
    simp [hok] at hrefused
  rcases Nat.lt_trichotomy i j with hlt | heq | hgt
  · exact absurd hsj (hbefore hi hj hpage hlt hsi)
  · exact heq
  · exact absurd hsi (hbefore hj hi hpage.symm hgt hsj)

theorem services_most_intrusive (hj : b.OnBlock j)
    (hsj : scanServices b.entry (env.attempt b serviceFaults) b.first j = true)
    (hi : Permitted env b (b.page j) i) :
    intrusiveness (b.entry j).accessType ≤ intrusiveness (b.entry i).accessType := by
  obtain ⟨hib, hpage, hperm⟩ := hi
  rcases Nat.lt_or_ge i j with hlt | hge
  · have hrefused := ((scanServices_iff hj).mp hsj).1 i hib.1 hlt ((hib.page_eq_iff hj).mp hpage)
    have hok : (env.attempt b serviceFaults).permission i = .ok := hperm
    unfold refuses at hrefused
    simp [hok] at hrefused
  · exact b.intrusiveness_le hge hib.2.1 (hj.vaSpace_eq hib) ((hj.page_eq_iff hib).mp hpage.symm)

end Pages

/-! ## The masks after a list of faults -/

/-- The page is in the new residency mask of the processor, which is one of those that have one. -/
def ServiceContext.InNewResidency (c : ServiceContext) (processor : ProcessorId) (page : ℕ) : Prop :=
  c.residentProcessors processor = true ∧ c.newResidency processor page = true

section Fold

variable (env : PassEnv) (b : BlockBatch)

def serviceAll (l : List ℕ) (s : Serviced) : Serviced :=
  l.foldl (fun s i => serviceFault env b.block (b.entry i) s) s

/-- The processor where the page of a fault goes. -/
def destination (i : ℕ) : ProcessorId :=
  (env.selectResidency (b.page i) (b.entry i).accessType
    (env.thrashingHint (b.entry i).faultAddress)).1

variable {env b} {page : ℕ} {q : ProcessorId} {s : Serviced}

theorem setNewResidency_in {c : ServiceContext} {q' : ProcessorId} {page' : ℕ} :
    (c.setNewResidency q page).InNewResidency q' page' ↔
      c.InNewResidency q' page' ∨ q' = q ∧ page' = page := by
  unfold ServiceContext.InNewResidency ServiceContext.setNewResidency PageMask.setBit
  dsimp only
  by_cases hq : q' = q
  · rw [hq, Function.update_self, Function.update_self]
    by_cases hpage : page' = page
    · simp [hpage]
    · rw [Function.update_of_ne hpage]
      cases c.residentProcessors q <;> simp [hpage]
  · rw [Function.update_of_ne hq, Function.update_of_ne hq]
    simp [hq]

private theorem pinned_in {c : ServiceContext} {page' : ℕ} (page : ℕ) (hint : ThrashingHint) :
    (match hint with
      | .pin _ _ => c.pin page
      | _ => c).InNewResidency q page' ↔ c.InNewResidency q page' := by
  cases hint <;> rfl

theorem serviceFault_in {i : ℕ} :
    (serviceFault env b.block (b.entry i) s).context.InNewResidency q page ↔
      s.context.InNewResidency q page ∨ q = destination env b i ∧ page = b.page i := by
  rw [← pinned_in (c := s.context) (q := q) (b.page i) (env.thrashingHint (b.entry i).faultAddress), destination,
    ← setNewResidency_in]
  unfold serviceFault
  dsimp only
  split <;> rfl

theorem serviceAll_in (l : List ℕ) : ∀ s : Serviced,
    (serviceAll env b l s).context.InNewResidency q page ↔
      s.context.InNewResidency q page ∨ ∃ i ∈ l, q = destination env b i ∧ page = b.page i := by
  induction l with
  | nil =>
    simp [serviceAll]
  | cons i l ih =>
    intro s
    have hrest := ih (serviceFault env b.block (b.entry i) s)
    rw [serviceFault_in] at hrest
    refine hrest.trans ?_
    simp only [List.mem_cons, exists_eq_or_imp, or_assoc]

theorem serviceFault_accessType {i : ℕ} :
    (serviceFault env b.block (b.entry i) s).context.faultAccessType =
      Function.update s.context.faultAccessType (b.page i) (b.entry i).accessType := by
  unfold serviceFault
  dsimp only
  cases env.thrashingHint (b.entry i).faultAddress <;> split <;> rfl

theorem serviceFault_numRetries {i : ℕ} :
    (serviceFault env b.block (b.entry i) s).context.numRetries = s.context.numRetries := by
  unfold serviceFault
  dsimp only
  cases env.thrashingHint (b.entry i).faultAddress <;> split <;> rfl

theorem serviceAll_numRetries (l : List ℕ) : ∀ s : Serviced,
    (serviceAll env b l s).context.numRetries = s.context.numRetries := by
  induction l with
  | nil => exact fun _ => rfl
  | cons i l ih => exact fun s => (ih _).trans serviceFault_numRetries

variable (env) in
theorem serviceAll_accessType_of_not_mem (l : List ℕ) (h : ∀ i ∈ l, b.page i ≠ page) :
    ∀ s : Serviced, (serviceAll env b l s).context.faultAccessType page =
      s.context.faultAccessType page := by
  induction l with
  | nil => exact fun _ => rfl
  | cons i l ih =>
    intro s
    have hrest := ih (fun j hj => h j (List.mem_cons_of_mem _ hj))
      (serviceFault env b.block (b.entry i) s)
    rw [serviceFault_accessType, Function.update_of_ne (h i List.mem_cons_self).symm] at hrest
    exact hrest

theorem serviceAll_accessType (l : List ℕ) (h : l.Pairwise fun i j => b.page i ≠ b.page j) :
    ∀ s : Serviced, ∀ i ∈ l,
      (serviceAll env b l s).context.faultAccessType (b.page i) = (b.entry i).accessType := by
  induction l with
  | nil =>
    intro s i hi
    cases hi
  | cons i l ih =>
    obtain ⟨hhead, htail⟩ := List.pairwise_cons.mp h
    intro s j hj
    rcases List.mem_cons.mp hj with rfl | hj
    · have hkept := serviceAll_accessType_of_not_mem env l (fun k hk => (hhead k hk).symm)
        (serviceFault env b.block (b.entry j) s)
      rw [serviceFault_accessType, Function.update_self] at hkept
      exact hkept
    · exact ih htail _ j hj

/-- The bounds of `r` are those of `s`, widened by the pages of a list of faults. -/
structure Widened (b : BlockBatch) (l : List ℕ) (s r : Serviced) : Prop where
  first_le : r.firstPageIndex ≤ s.firstPageIndex
  le_last : s.lastPageIndex ≤ r.lastPageIndex
  bounds : ∀ i ∈ l, r.firstPageIndex ≤ b.page i ∧ b.page i ≤ r.lastPageIndex
  first_eq : r.firstPageIndex = s.firstPageIndex ∨ ∃ i ∈ l, r.firstPageIndex = b.page i
  last_eq : r.lastPageIndex = s.lastPageIndex ∨ ∃ i ∈ l, r.lastPageIndex = b.page i

theorem serviceAll_widened (l : List ℕ) : ∀ s : Serviced, Widened b l s (serviceAll env b l s) := by
  induction l with
  | nil => exact fun s => ⟨le_rfl, le_rfl, fun i hi => (nomatch hi), .inl rfl, .inl rfl⟩
  | cons i l ih =>
    intro s
    obtain ⟨hfirst, hlast, hbounds, hmin, hmax⟩ := ih (serviceFault env b.block (b.entry i) s)
    have hf : (serviceFault env b.block (b.entry i) s).firstPageIndex =
        if b.page i < s.firstPageIndex then b.page i else s.firstPageIndex := rfl
    have hl : (serviceFault env b.block (b.entry i) s).lastPageIndex =
        if s.lastPageIndex < b.page i then b.page i else s.lastPageIndex := rfl
    rw [hf] at hfirst hmin
    rw [hl] at hlast hmax
    show Widened b (i :: l) s (serviceAll env b l (serviceFault env b.block (b.entry i) s))
    refine ⟨?_, ?_, ?_, ?_, ?_⟩
    · split at hfirst <;> omega
    · split at hlast <;> omega
    · intro j hj
      rcases List.mem_cons.mp hj with rfl | hj
      · constructor
        · split at hfirst <;> omega
        · split at hlast <;> omega
      · exact hbounds j hj
    · rcases hmin with hmin | ⟨j, hj, hmin⟩
      · split at hmin
        · exact .inr ⟨i, List.mem_cons_self, hmin⟩
        · exact .inl hmin
      · exact .inr ⟨j, List.mem_cons_of_mem _ hj, hmin⟩
    · rcases hmax with hmax | ⟨j, hj, hmax⟩
      · split at hmax
        · exact .inr ⟨i, List.mem_cons_self, hmax⟩
        · exact .inl hmax
      · exact .inr ⟨j, List.mem_cons_of_mem _ hj, hmax⟩

end Fold

end NvUvm.FaultPass
