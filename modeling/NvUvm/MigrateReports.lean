import NvUvm.Migrate

/-!
# What the status of a migration says

`uvmMigrate_reports_iff`: the status of `uvm_migrate` tells the truth about a run exactly
when the failures of the walked ranges agree.  `uvmMigrate_loses_failure` is a run in which
they do not: the first range fails, the second succeeds, and so does the call.
-/

namespace NvUvm

open Lib

/-! ## The walk and the cover of the region -/

section Walk

variable {tree : List VaRange} {base last : ℕ}

private theorem mem_upToUnmanaged {ranges : List VaRange} {r : VaRange}
    (h : r ∈ upToUnmanaged ranges) : r ∈ ranges := by
  induction ranges with
  | nil => simp [upToUnmanaged] at h
  | cons t rest ih =>
    simp only [upToUnmanaged] at h
    split at h
    · rcases List.mem_cons.mp h with rfl | h'
      · simp
      · exact List.mem_cons_of_mem _ (ih h')
    · obtain rfl := List.mem_singleton.mp h
      simp

private theorem getLast?_of_unmanaged {ranges : List VaRange} {r : VaRange}
    (h : r ∈ upToUnmanaged ranges) (hman : r.isManaged = false) :
    (upToUnmanaged ranges).getLast? = some r := by
  induction ranges with
  | nil => simp [upToUnmanaged] at h
  | cons t rest ih =>
    simp only [upToUnmanaged] at h ⊢
    split at h
    · rename_i ht
      rw [if_pos ht]
      rcases List.mem_cons.mp h with rfl | h'
      · simp [hman] at ht
      · rw [List.getLast?_cons, ih h']
        rfl
    · rename_i ht
      rw [if_neg ht]
      obtain rfl := List.mem_singleton.mp h
      rfl

private theorem upToUnmanaged_eq_self {ranges : List VaRange}
    (h : ∀ r ∈ upToUnmanaged ranges, r.isManaged = true) : upToUnmanaged ranges = ranges := by
  induction ranges with
  | nil => rfl
  | cons t rest ih =>
    simp only [upToUnmanaged] at h ⊢
    split at h
    · rename_i ht
      rw [if_pos ht, ih (fun r hr => h r (List.mem_cons_of_mem _ hr))]
    · rename_i ht
      exact absurd (h t (by simp)) ht

private theorem walk_overlaps (htree : Ordered tree) (hregion : base ≤ last) :
    ∀ r ∈ uvmForEachVaRangeInContig tree base last, r ∈ tree ∧ Overlaps base last r := by
  rcases uvmForEachVaRangeInContig_spec tree base last hregion with
    hnil | ⟨n, tl, hwalk, -, hn', hchain, hmem⟩
  · simp [hnil]
  · rw [hwalk]
    intro r hr
    obtain ⟨hrtree, hrlast⟩ := hmem r hr
    have hrne := htree.1 r hrtree
    -- ranges after the first begin after its end, and that is in the region
    have hbase : base ≤ r.last := by
      rcases List.mem_cons.mp hr with rfl | hr'
      · exact hn'
      · have := hchain.last_lt hr' (fun m hm => htree.1 m (hmem m (by simp [hm])).1)
        omega
    refine ⟨hrtree, ?_⟩
    simp only [Overlaps]
    omega

private theorem walk_covers (hregion : base ≤ last)
    (hman : ∀ r ∈ walkedRanges tree base last, r.isManaged = true)
    (hfar : ¬ walkFallsShort tree base last) {a : ℕ} (hlo : base ≤ a) (hhi : a ≤ last) :
    ∃ r ∈ walkedRanges tree base last, r.Contains a := by
  have hself : walkedRanges tree base last = uvmForEachVaRangeInContig tree base last :=
    upToUnmanaged_eq_self hman
  simp only [walkFallsShort, not_forall] at hfar
  obtain ⟨r, hr, hle⟩ := hfar
  rw [hself] at hr ⊢
  rcases uvmForEachVaRangeInContig_spec tree base last hregion with
    hnil | ⟨n, tl, hwalk, hn, -, hchain, -⟩
  · simp [hnil] at hr
  · rw [hwalk] at hr ⊢
    have hlast : chainLast n tl = r := by
      exact Option.some.inj hr
    exact hchain.covers (by omega) (by rw [hlast]; omega)

private theorem walk_of_cover (htree : Ordered tree) (hregion : base ≤ last)
    (hcover : ManagedCover tree base last) :
    (∀ r ∈ walkedRanges tree base last, r.isManaged = true) ∧
      ¬ walkFallsShort tree base last := by
  have hov := walk_overlaps htree hregion
  have hman : ∀ r ∈ walkedRanges tree base last, r.isManaged = true := by
    intro r hr
    obtain ⟨hrtree, hro⟩ := hov r (mem_upToUnmanaged hr)
    simp only [Overlaps] at hro
    -- the managed range at the first common address is this range
    obtain ⟨m, hm, hma, hmm⟩ := hcover (max base r.start) (by omega) (by omega)
    have := htree.unique hm hrtree hma ⟨by omega, by omega⟩
    exact this ▸ hmm
  refine ⟨hman, fun hshort => ?_⟩
  have hself : walkedRanges tree base last = uvmForEachVaRangeInContig tree base last :=
    upToUnmanaged_eq_self hman
  simp only [walkFallsShort, hself] at hshort
  obtain ⟨m, hm, hma, -⟩ := hcover base (le_refl _) hregion
  obtain ⟨rest, hseek⟩ := seek_of_contains htree hm hma
  have hwalk : uvmForEachVaRangeInContig tree base last = contigFrom last m rest := by
    simp [uvmForEachVaRangeInContig, hseek, hma.1]
  have hne : uvmForEachVaRangeInContig tree base last ≠ [] := by
    rw [hwalk]
    cases rest with
    | nil => simp [contigFrom]
    | cons k rest =>
      simp only [contigFrom]
      split <;> simp
  have hgl := List.getLast?_eq_some_getLast hne
  have hmem := List.getLast_mem hne
  generalize (uvmForEachVaRangeInContig tree base last).getLast hne = r at hgl hmem
  have hlt := hshort r hgl
  have hro := (hov r hmem).2
  simp only [Overlaps] at hro
  -- the address after the walk is covered too, so the walk would have gone on
  obtain ⟨k, hk, hka, -⟩ := hcover (r.last + 1) (by omega) (by omega)
  have := uvmForEachVaRangeInContig_maximal htree hgl hk hka (by omega)
  omega

end Walk

/-! ## Main results -/

section Main

variable (env : MigrateEnv) {tree : List VaRange} {groups : List RangeGroupRange}
  {base last : ℕ} (destId : ProcessorId)

private theorem rangeError_ne_ok (r : VaRange) :
    rangeError env groups base last destId r ≠ some .ok := by
  unfold rangeError
  split
  · intro h
    obtain ⟨seg, -, hseg⟩ := List.exists_of_findSome?_eq_some h
    simp only [segmentError] at hseg
    split at hseg
    · cases hseg
    · split at hseg
      · cases hseg
      · rename_i hne
        exact hne (Option.some.inj hseg)
  · simp

private theorem lastError_ne_ok : lastError env tree groups base last destId ≠ some .ok := by
  intro h
  obtain ⟨r, -, hr⟩ := Option.bind_eq_some_iff.mp h
  exact rangeError_ne_ok env destId r hr

private theorem exists_of_lastError {status : NvStatus}
    (h : lastError env tree groups base last destId = some status) :
    ∃ r ∈ walkedRanges tree base last,
      rangeError env groups base last destId r = some status := by
  obtain ⟨r, hr, hre⟩ := Option.bind_eq_some_iff.mp h
  exact ⟨r, (List.mem_filter.mp (List.mem_of_getLast? hr)).1, hre⟩

private theorem lastError_of_unmanaged {r : VaRange} (hr : r ∈ walkedRanges tree base last)
    (hman : r.isManaged = false) :
    lastError env tree groups base last destId = some .errInvalidAddress := by
  have hlast := getLast?_of_unmanaged hr hman
  obtain ⟨pre, hpre⟩ := List.getLast?_eq_some_iff.mp hlast
  have hwrites : rangeWrites groups base last r = true := by simp [rangeWrites, hman]
  have hpre' : walkedRanges tree base last = pre ++ [r] := hpre
  simp [lastError, hpre', hwrites, rangeError, hman]

private theorem migrateLoop_effect (htree : Ordered tree) (hgroups : Ordered groups)
    (hregion : base ≤ last) :
    ∃ new, RangesEffect env groups base last destId (uvmForEachVaRangeInContig tree base last)
      ⟨.ok, false, none, []⟩ (migrateLoop env tree groups base last destId) new :=
  rangesLoop_effect env groups base last destId hgroups _
    (fun r hr => (walk_overlaps htree hregion r hr).2) _

private theorem migrateResult_eq {new : List MigrateEvent}
    (heff : RangesEffect env groups base last destId (uvmForEachVaRangeInContig tree base last)
      ⟨.ok, false, none, []⟩ (migrateLoop env tree groups base last destId) new) :
    (∀ status, lastError env tree groups base last destId = some status →
        migrateResult last (migrateLoop env tree groups base last destId) = status) ∧
      (lastError env tree groups base last destId = none →
        (walkFallsShort tree base last →
          migrateResult last (migrateLoop env tree groups base last destId) =
            .errInvalidAddress) ∧
        (¬ walkFallsShort tree base last →
          migrateResult last (migrateLoop env tree groups base last destId) =
            if ∃ e ∈ new, e.isSkip = true then .warnMoreProcessingRequired else .ok)) := by
  set t := uvmForEachVaRangeInContig tree base last
  set u := migrateLoop env tree groups base last destId
  have hstat : u.status = (lastError env tree groups base last destId).getD .ok := by
    have hlast : lastError env tree groups base last destId =
        (lastWriter groups base last t).bind (rangeError env groups base last destId) := rfl
    rw [heff.status, hlast]
    cases lastWriter groups base last t <;> rfl
  have hrange := heff.rangeLast
  rw [Option.or_none] at hrange
  refine ⟨fun status herr => ?_, fun herr => ?_⟩
  · have hne : status ≠ .ok := fun h => lastError_ne_ok env destId (h ▸ herr)
    have hst : u.status = status := by
      rw [hstat, herr]
      rfl
    simp [migrateResult, hst, hne]
  · have hst : u.status = .ok := by
      rw [hstat, herr]
      rfl
    have hskip : u.skippedMigrate = true ↔ ∃ e ∈ new, e.isSkip = true := by
      simpa using heff.skips
    constructor
    · intro hshort
      simp only [migrateResult, hst, ne_eq, not_true_eq_false, if_false, hrange]
      cases hgl : (upToUnmanaged t).getLast? with
      | none => rfl
      | some r => simp only [if_pos (hshort r hgl)]
    · intro hfar
      simp only [walkFallsShort, not_forall, not_lt] at hfar
      obtain ⟨r, hgl, hle⟩ := hfar
      have hgl' : (upToUnmanaged t).getLast? = some r :=
        hgl
      simp only [migrateResult, hst, ne_eq, not_true_eq_false, if_false, hrange, hgl',
        if_neg (Nat.not_lt.mpr hle), hskip]

private theorem reports_of_agree (htree : Ordered tree) (hgroups : Ordered groups)
    (hregion : base ≤ last) (halloc : env.contextAlloc = true)
    (h : FailuresAgree env tree groups base last destId) :
    MigrateReports tree groups base last destId
      (uvmMigrate env tree groups base last destId) := by
  obtain ⟨new, heff⟩ := migrateLoop_effect env destId htree hgroups hregion
  obtain ⟨hres₁, hres₂⟩ := migrateResult_eq env destId heff
  have hev : (migrateLoop env tree groups base last destId).events = new := by
    simpa using heff.events
  simp only [uvmMigrate, halloc, if_true, hev]
  -- without an error of the last writer, only a short walk lets a range fail
  have hnofail : lastError env tree groups base last destId = none →
      ¬ walkFallsShort tree base last →
      ∀ r ∈ walkedRanges tree base last, rangeError env groups base last destId r = none := by
    intro hnone hfar r hr
    by_contra hsome
    obtain ⟨status, hst⟩ := Option.ne_none_iff_exists'.mp hsome
    rcases (h r hr status hst).2 with hl | ⟨-, hshort, -⟩
    · simp [hnone] at hl
    · exact hfar hshort
  have hallman : lastError env tree groups base last destId = none →
      ∀ r ∈ walkedRanges tree base last, r.isManaged = true := by
    intro hnone r hr
    by_contra hun
    have : lastError env tree groups base last destId = some .errInvalidAddress :=
      lastError_of_unmanaged env destId hr (by simpa using hun)
    simp [hnone] at this
  refine ⟨fun hok a hlo hhi => ?_, fun e he status hst => ?_, ?_⟩
  · -- success: the last writer did not fail, nor did the walk fall short
    have hnone : lastError env tree groups base last destId = none := by
      cases hl : lastError env tree groups base last destId with
      | none => rfl
      | some status =>
        have hst : status = .ok := (hres₁ status hl).symm.trans hok
        exact absurd (hst ▸ hl) (lastError_ne_ok env destId)
    have hfar : ¬ walkFallsShort tree base last := fun hshort => by
      simp [(hres₂ hnone).1 hshort] at hok
    have hnoskip : ¬ ∃ e ∈ new, e.isSkip = true := by
      intro hs
      rw [(hres₂ hnone).2 hfar, if_pos hs] at hok
      cases hok
    obtain ⟨r, hr, hra⟩ := walk_covers hregion (hallman hnone) hfar hlo hhi
    obtain ⟨hrtree, hro⟩ := walk_overlaps htree hregion r (mem_upToUnmanaged hr)
    refine ⟨r, hrtree, hra, hallman hnone r hr, ?_⟩
    have htiles := migratabilitySegments_tiles hgroups hro
    obtain ⟨seg, hseg, hsa⟩ := htiles.covers (a := a)
      (by have := hra.1; omega) (by have := hra.2; omega)
    have hdone := heff.done r hr (hallman hnone r hr) (hnofail hnone hfar r hr) seg hseg
    rw [migratabilitySegments_homogeneous hgroups hro hseg hsa.1 hsa.2]
    unfold SegmentDone at hdone
    split
    · rename_i hmig
      rw [if_pos hmig] at hdone
      exact hdone a hsa.1 hsa.2
    · rename_i hmig
      rw [if_neg hmig] at hdone
      exact hdone.resolve_right hnoskip
  · -- a failed segment makes its range fail, and the last writer fails alike
    obtain ⟨r, hr, -, hre⟩ := (heff.failures status).mp ⟨e, he, hst⟩
    rcases (h r hr status hre).2 with hl | ⟨rfl, hshort, hnone⟩
    · exact hres₁ status hl
    · exact (hres₂ hnone).1 hshort
  · constructor
    · intro hwarn
      have hnone : lastError env tree groups base last destId = none := by
        cases hl : lastError env tree groups base last destId with
        | none => rfl
        | some status =>
          obtain ⟨r, hr, hre⟩ := exists_of_lastError env destId hl
          have := (h r hr status hre).1
          rw [← hres₁ status hl] at this
          exact absurd hwarn this
      have hfar : ¬ walkFallsShort tree base last := fun hshort => by
        simp [(hres₂ hnone).1 hshort] at hwarn
      refine ⟨fun e he => ?_, fun a hlo hhi => ?_, ?_⟩
      · by_contra hsome
        obtain ⟨status, hst⟩ := Option.ne_none_iff_exists'.mp hsome
        obtain ⟨r, hr, -, hre⟩ := (heff.failures status).mp ⟨e, he, hst⟩
        simp [hnofail hnone hfar r hr] at hre
      · obtain ⟨r, hr, hra⟩ := walk_covers hregion (hallman hnone) hfar hlo hhi
        exact ⟨r, (walk_overlaps htree hregion r (mem_upToUnmanaged hr)).1, hra,
          hallman hnone r hr⟩
      · by_contra hs
        rw [(hres₂ hnone).2 hfar, if_neg hs] at hwarn
        cases hwarn
    · rintro ⟨hno, hcover, hs⟩
      obtain ⟨hman, hfar⟩ := walk_of_cover htree hregion hcover
      have hnone : lastError env tree groups base last destId = none := by
        by_contra hsome
        obtain ⟨status, hl⟩ := Option.ne_none_iff_exists'.mp hsome
        obtain ⟨r, hr, hre⟩ := exists_of_lastError env destId hl
        obtain ⟨e, he, hst⟩ := (heff.failures status).mpr ⟨r, hr, hman r hr, hre⟩
        simp [hno e he] at hst
      rw [(hres₂ hnone).2 hfar, if_pos hs]

private theorem agree_of_reports (htree : Ordered tree) (hgroups : Ordered groups)
    (hregion : base ≤ last) (halloc : env.contextAlloc = true)
    (h : MigrateReports tree groups base last destId
      (uvmMigrate env tree groups base last destId)) :
    FailuresAgree env tree groups base last destId := by
  obtain ⟨new, heff⟩ := migrateLoop_effect env destId htree hgroups hregion
  obtain ⟨hres₁, hres₂⟩ := migrateResult_eq env destId heff
  have hev : (migrateLoop env tree groups base last destId).events = new := by
    simpa using heff.events
  simp only [uvmMigrate, halloc, if_true, hev] at h
  intro r hr status hre
  cases hman : r.isManaged with
  | false =>
    have hl : lastError env tree groups base last destId = some .errInvalidAddress :=
      lastError_of_unmanaged env destId hr hman
    have hst : status = .errInvalidAddress := by
      simpa [rangeError, hman] using hre.symm
    subst hst
    exact ⟨by simp, Or.inl hl⟩
  | true =>
    obtain ⟨e, he, hfail⟩ := (heff.failures status).mpr ⟨r, hr, hman, hre⟩
    have hresult := h.errorReturned e he status hfail
    have hwarn : status ≠ .warnMoreProcessingRequired := by
      rintro rfl
      have := (h.warnIff.mp hresult).1 e he
      simp [hfail] at this
    refine ⟨hwarn, ?_⟩
    cases hl : lastError env tree groups base last destId with
    | some status' => exact Or.inl (by rw [← hres₁ status' hl]; exact congrArg some hresult)
    | none =>
      right
      by_cases hshort : walkFallsShort tree base last
      · have := (hres₂ hl).1 hshort
        exact ⟨hresult.symm.trans this, hshort, rfl⟩
      · -- then the result is success or the warning, which is no error of a range
        have hres := (hres₂ hl).2 hshort
        rw [hres] at hresult
        split at hresult
        · exact absurd hresult.symm hwarn
        · exact absurd (hresult ▸ hre) (rangeError_ne_ok env destId r)

/-- **The status of `uvm_migrate`** reports the run truthfully if and only if the context
could not be allocated (nothing ran) or all failures agree with the last one. -/
theorem uvmMigrate_reports_iff (space : MigrateSpace) (region : MigrateRegion) :
    MigrateReports space.vaRangeTree space.rangeGroupRanges region.base region.last destId
        (uvmMigrate env space.vaRangeTree space.rangeGroupRanges region.base region.last
          destId) ↔
      (env.contextAlloc = true →
        FailuresAgree env space.vaRangeTree space.rangeGroupRanges region.base region.last
          destId) := by
  have hregion : region.base ≤ region.last := by
    have := region.length_pos
    simp only [MigrateRegion.last]
    omega
  constructor
  · intro h halloc
    exact agree_of_reports env destId space.vaRangeTree_ordered space.rangeGroupRanges_ordered
      hregion halloc h
  · intro h
    cases halloc : env.contextAlloc with
    | true =>
      exact reports_of_agree env destId space.vaRangeTree_ordered
        space.rangeGroupRanges_ordered hregion halloc (h halloc)
    | false =>
      simp only [uvmMigrate, halloc, Bool.false_eq_true]
      exact ⟨by simp, by simp, by simp⟩

end Main

/-! ## A failure that is lost -/

/-- A managed range without a preferred location. -/
private def plainRange (start last : ℕ) : VaRange :=
  ⟨start, last, ⟨.managed, none, fun _ => false⟩⟩

/-- Blocks of the range that starts at 4096 fail to migrate; all others migrate. -/
private def failFirst : MigrateEnv where
  contextAlloc := true
  blockCreate := fun _ _ => .ok
  blockMigrate := fun r _ _ _ => if r.start = 4096 then .errNoMemory else .ok

/-- Two adjacent ranges, the first of which fails to migrate: the second one's success is
what `uvm_migrate` returns. -/
theorem uvmMigrate_loses_failure :
    ¬ MigrateReports [plainRange 4096 8191, plainRange 8192 12287] [] 4096 12287 ⟨1, by decide⟩
      (uvmMigrate failFirst [plainRange 4096 8191, plainRange 8192 12287] [] 4096 12287
        ⟨1, by decide⟩) := by
  intro h
  have hev : (uvmMigrate failFirst [plainRange 4096 8191, plainRange 8192 12287] [] 4096 12287
      ⟨1, by decide⟩).2 = [.failed (plainRange 4096 8191) ⟨4096, 8191, true⟩ .errNoMemory,
        .migrated (plainRange 8192 12287) 8192 12287] := by
    rfl
  have hfail := h.errorReturned (.failed (plainRange 4096 8191) ⟨4096, 8191, true⟩ .errNoMemory)
    (by rw [hev]; simp) .errNoMemory rfl
  cases hfail

end NvUvm
