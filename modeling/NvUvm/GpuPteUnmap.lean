import NvUvm.GpuPteRuns

/-!
# Unmapping a whole block

The callers that tear a block down rely on the unmap of the whole block to need no page table
and no swizzling change, so that it fails only if a push does.
-/

namespace NvUvm

open GpuBlock Lib PteState

variable {b : GpuBlock} {s : PteState}

/-- Every page that the GPU maps has a PTE: the 2M PTE, a big PTE in use, or one of the table of
4k PTEs. -/
structure PteState.MapsInv (b : GpuBlock) (s : PteState) : Prop where
  is2m : s.pteIs2m = true →
    b.supports2m = true ∧ s.range2m = true ∧ ∀ i, s.bigPtes i = false
  range2m : b.supports2m = true → s.rangeBig = true ∨ s.range4k = true → s.range2m = true
  bigPtes : ∀ i, s.bigPtes i = true → i < b.numBigPages ∧ s.rangeBig = true
  write : ∀ p, s.pteBits .write p = true → s.pteBits .read p = true
  atomic : ∀ p, s.pteBits .atomic p = true → s.pteBits .write p = true
  uniform : s.pteIs2m = true → ∀ p < b.numPages, s.pteBits .read p = s.pteBits .read 0
  mapped : s.pteIs2m = false → ∀ p < b.numPages, s.pteBits .read p = true →
    b.pagesOfBig s.bigPtes p = true ∨ s.range4k = true

theorem fresh_mapsInv : PteState.fresh.MapsInv b := by
  constructor <;> simp [PteState.fresh]

private theorem PteState.MapsInv.tables_of_mapped (h : s.MapsInv b) {p : ℕ} (hp : p < b.numPages)
    (hread : s.pteBits .read p = true) :
    s.range2m = true ∨ b.supports2m = false ∧ (s.rangeBig = true ∨ s.range4k = true) := by
  cases h2m : s.pteIs2m with
  | true => exact Or.inl (h.is2m h2m).2.1
  | false =>
    have hlower : s.rangeBig = true ∨ s.range4k = true := by
      refine (h.mapped h2m p hp hread).imp_left fun hbig => ?_
      unfold pagesOfBig at hbig
      cases hidx : b.bigPageIndex p with
      | none => simp [hidx] at hbig
      | some i =>
        simp only [hidx] at hbig
        exact (h.bigPtes i hbig).2
    cases hsup : b.supports2m with
    | true => exact Or.inl (h.range2m hsup hlower)
    | false => exact Or.inr ⟨rfl, hlower⟩

private theorem AllocSpec.mapsInv {pageSizes : PteSize → Bool} {l : List PteSize}
    {r : NvStatus × PteState} (hspec : AllocSpec b (allocSizes b pageSizes) l s r)
    (hsizes : pageSizes .two = true → b.supports2m = true) (h : s.MapsInv b) :
    r.2.MapsInv b := by
  have htwo : r.2.range2m = true → s.range2m = false → b.supports2m = true := fun hnew hold => by
    by_contra hc
    have hno : b.supports2m = false := by simpa using hc
    have : r.2.range2m = s.range2m := hspec.untouched .two (by
      simp only [allocSizes, hno, Bool.false_and]
      by_contra hc'
      simp [hsizes (by simpa using hc')] at hno)
    simp [hnew, hold] at this
  have h4k : s.range4k = true → r.2.range4k = true := hspec.kept .small
  -- where the 2M level is new, nothing was below it
  have hnew2m : r.2.pteIs2m = true → s.pteIs2m = false →
      b.supports2m = true ∧ r.2.range2m = true ∧ s.range2m = false := fun h1 h2 => by
    have := hspec.pteIs2m
    rw [h1, h2, Bool.false_or, eq_comm, Bool.and_eq_true, Bool.not_eq_true'] at this
    exact ⟨htwo this.1 this.2, this.1, this.2⟩
  refine
    { is2m := fun h1 => ?_
      range2m := hspec.lower2m h.range2m
      bigPtes := fun i hi => ?_
      write := by rw [hspec.pteBits]; exact h.write
      atomic := by rw [hspec.pteBits]; exact h.atomic
      uniform := fun h1 p hp => ?_
      mapped := fun h1 p hp hread => ?_ }
  · rw [hspec.bigPtes]
    cases h2 : s.pteIs2m with
    | true =>
      obtain ⟨hsup, hrange, hnone⟩ := h.is2m h2
      exact ⟨hsup, hspec.kept .two hrange, hnone⟩
    | false =>
      obtain ⟨hsup, hrange, hold⟩ := hnew2m h1 h2
      refine ⟨hsup, hrange, fun i => ?_⟩
      by_contra hc
      have := h.range2m hsup (Or.inl (h.bigPtes i (by simpa using hc)).2)
      simp [hold] at this
  · rw [hspec.bigPtes] at hi
    exact ⟨(h.bigPtes i hi).1, hspec.kept .big (h.bigPtes i hi).2⟩
  · rw [hspec.pteBits]
    cases h2 : s.pteIs2m with
    | true => exact h.uniform h2 p hp
    | false =>
      obtain ⟨hsup, -, hold⟩ := hnew2m h1 h2
      have hnone : ∀ q < b.numPages, s.pteBits .read q = false := fun q hq => by
        by_contra hc
        rcases h.tables_of_mapped hq (by simpa using hc) with h2m | ⟨hno, -⟩
        · simp [hold] at h2m
        · simp [hsup] at hno
      rw [hnone p hp, hnone 0 b.pages_pos]
  · have h2 : s.pteIs2m = false := by
      have := hspec.pteIs2m
      rw [h1] at this
      exact (Bool.or_eq_false_iff.mp this.symm).1
    rw [hspec.bigPtes]
    rw [hspec.pteBits] at hread
    exact (h.mapped h2 p hp hread).imp_right h4k

/-! ## Plans -/

section Compute

variable (s) (residentId : Option ProcessorId) (changing after : PageMask) (canMapBig : ℕ → Bool)

private theorem computeNewPteState_full
    (h : (blockGpuComputeNewPteState b s residentId changing after canMapBig).pteIs2m = true) :
    b.supports2m = true ∧ ∀ p < b.numPages, after p = true := by
  unfold blockGpuComputeNewPteState at h
  split at h
  · simp [NewPteState.start] at h
  · split at h
    · next hfull =>
      simp only [Bool.and_eq_true] at hfull
      refine ⟨hfull.1.1, fun p hp => ?_⟩
      rw [(b.supports2m_iff.mp hfull.1.1).1] at hp
      exact fullIn_eq_true.mp hfull.2 p (Nat.zero_le p) hp
    · split at h <;> simp [NewPteState.start] at h

private theorem computeNewPteState_covers
    (hneed : (blockGpuComputeNewPteState b s residentId changing after canMapBig).needs4k =
      false)
    (h2m : (blockGpuComputeNewPteState b s residentId changing after canMapBig).pteIs2m = false)
    {p : ℕ} (hp : p < b.numPages)
    (h : changing p = true ∨ b.pagesOfBig s.bigPtes p = true ∨
      b.supports2m = true ∧ (s.pteIs2m = true ∨ s.range2m = false)) :
    b.pagesOfBig
      (blockGpuComputeNewPteState b s residentId changing after canMapBig).bigPtes p = true := by
  unfold blockGpuComputeNewPteState at hneed h2m ⊢
  split at hneed
  · simp [NewPteState.start] at hneed
  · next hforce =>
    rw [if_neg hforce] at h2m ⊢
    split at hneed
    · next hfull =>
      rw [if_pos hfull] at h2m
      simp at h2m
    · next hfull =>
      rw [if_neg hfull] at h2m ⊢
      split at hneed
      · simp [NewPteState.start] at hneed
      · next hregion =>
        rw [if_neg hregion]
        have hsplit := hneed
        simp only [Bool.or_eq_false_iff] at hsplit
        obtain ⟨⟨hmade, hbefore⟩, hbehind⟩ := hsplit
        cases hidx : b.bigPageIndex p with
        | none =>
          exfalso
          rcases h with hpage | hbig | hall
          · -- such a page would need a 4k PTE
            unfold bigPageIndex at hidx
            split at hidx
            · next hout =>
              rcases hout with hless | hge
              · have : anyIn ⟨0, b.bigPageRegionAll.first⟩ changing = true :=
                  anyIn_eq_true.mpr ⟨p, Nat.zero_le p, hless, hpage⟩
                simp [hbefore] at this
              · have : anyIn ⟨b.bigPageRegionAll.outer, b.numPages⟩ changing = true :=
                  anyIn_eq_true.mpr ⟨p, hge, hp, hpage⟩
                simp [hbehind] at this
            · cases hidx
          · simp [pagesOfBig, hidx] at hbig
          · obtain ⟨i, -, hi⟩ := b.index_of_supports2m hall.1 hp
            simp [hidx] at hi
        | some i =>
          have hi := (b.bigPageIndex_eq_some.mp hidx).2
          have hmem := b.mem_bigPageRegion_of_index hidx
          rw [List.any_eq_false] at hmade
          have hmade := hmade i (List.mem_range.mpr hi)
          rw [Bool.and_eq_true, not_and, Bool.not_eq_true', Bool.not_eq_false] at hmade
          simp only [pagesOfBig, hidx]
          rw [Bool.or_eq_true]
          by_cases hcov : (decide (i < b.numBigPages) && anyIn (b.bigPageRegion i) changing) = true
          · exact Or.inl (hmade hcov)
          · right
            have hcov' : (decide (i < b.numBigPages) && anyIn (b.bigPageRegion i) changing) =
                false := by simpa using hcov
            rcases h with hpage | hbig | hall
            · exact absurd (by simpa [hi] using anyIn_eq_true.mpr ⟨p, hmem.1, hmem.2, hpage⟩) hcov
            · simp only [pagesOfBig, hidx] at hbig
              split
              · have := lt_of_lt_of_le hi b.numBigPages_le
                simp [bigCompl, this, hcov']
              · split
                · simpa using hi
                · simp only [hbig, hcov', Bool.true_and, Bool.not_false]
            · rw [if_pos]
              · have := lt_of_lt_of_le hi b.numBigPages_le
                simp [bigCompl, this, hcov']
              · simpa [hall.1] using hall.2

end Compute

/-- What the allocation for a plan gives, for the pages that change and those that are mapped. -/
private structure PlanMaps (b : GpuBlock) (s : PteState) (pages : PageMask) (new : NewPteState) :
    Prop where
  inv : s.MapsInv b
  to2m : new.pteIs2m = true → b.supports2m = true ∧ s.range2m = true
  bigPtes : new.pteIs2m = false → ∀ i, new.bigPtes i = true → i < b.numBigPages ∧ s.rangeBig = true
  covers : new.pteIs2m = false → s.range4k = false → ∀ p < b.numPages,
    pages p = true ∨ s.pteBits .read p = true → b.pagesOfBig new.bigPtes p = true

private theorem planMaps_of_alloc (h : s.MapsInv b) (residentId : Option ProcessorId)
    (pages after : PageMask) (canMapBig : ℕ → Bool) (alloc : PteSize → NvStatus)
    (hok : (blockAllocPtesNewState b alloc
      (blockGpuComputeNewPteState b s residentId pages after canMapBig) s).1 = .ok) :
    PlanMaps b (blockAllocPtesNewState b alloc
      (blockGpuComputeNewPteState b s residentId pages after canMapBig) s).2 pages
      (blockGpuComputeNewPteState b s residentId pages after canMapBig) := by
  have hlt := computeNewPteState_lt (b := b) s residentId pages after canMapBig
    (fun h2m => (h.is2m h2m).1) fun i hi => (h.bigPtes i hi).1
  have hcov := fun hneed h2m p => computeNewPteState_covers (b := b) s residentId pages after
    canMapBig hneed h2m (p := p)
  have his2m := computeNewPteState_is2m (b := b) s residentId pages after canMapBig
  revert hok hlt hcov his2m
  generalize blockGpuComputeNewPteState b s residentId pages after canMapBig = new
  intro hok hlt hcov his2m
  have hspec := blockAllocPtesNewState_spec alloc new (fun h2m => (his2m h2m).1) s
  have hinv := hspec.mapsInv (by simpa using fun h2m => (his2m h2m).1) h
  refine { inv := hinv, to2m := fun h2m => ?_, bigPtes := fun h2m i hi => ?_,
           covers := fun h2m h4k p hp hpage => ?_ }
  · have hsup := (his2m h2m).1
    exact ⟨hsup, hspec.allocated hok .two (by simp) (by simp [allocSizes, hsup])⟩
  · have hsome : bigEmpty new.bigPtes = false :=
      bigEmpty_eq_false.mpr ⟨i, lt_of_lt_of_le (hlt i hi) b.numBigPages_le, hi⟩
    exact ⟨hlt i hi, hspec.allocated hok .big (by simp) (by simp [allocSizes, h2m, hsome])⟩
  · -- no table of 4k PTEs was asked for, and none was there
    have hneed : new.needs4k = false := by
      by_contra hc
      have : (blockAllocPtesNewState b alloc new s).2.range4k = true :=
        hspec.allocated hok .small (by simp)
          (by simp only [allocSizes, h2m]; simpa using hc)
      simp [h4k] at this
    have hno4k : s.range4k = false := by
      by_contra hc
      have : (blockAllocPtesNewState b alloc new s).2.range4k = true :=
        hspec.kept .small (by simpa [hasRange] using hc)
      simp [h4k] at this
    refine hcov hneed h2m p hp ?_
    rcases hpage with hpage | hread
    · exact Or.inl hpage
    · right
      rw [hspec.pteBits] at hread
      cases h2 : s.pteIs2m with
      | true => exact Or.inr ⟨(h.is2m h2).1, Or.inl rfl⟩
      | false => exact Or.inl ((h.mapped h2 p hp hread).resolve_right (by simp [hno4k]))

private theorem allocNewState_mapsInv (h : s.MapsInv b) (residentId : Option ProcessorId)
    (pages after : PageMask) (canMapBig : ℕ → Bool) (alloc : PteSize → NvStatus) :
    (blockAllocPtesNewState b alloc
      (blockGpuComputeNewPteState b s residentId pages after canMapBig) s).2.MapsInv b := by
  have his2m := computeNewPteState_is2m (b := b) s residentId pages after canMapBig
  exact (blockAllocPtesNewState_spec alloc _ (fun h2m => (his2m h2m).1) s).mapsInv
    (by simpa using fun h2m => (his2m h2m).1) h

/-! ## Swizzling changes -/

private theorem PteState.MapsInv.not_2m (h : s.MapsInv b) (hsup : b.supports2m = false) :
    s.pteIs2m = false := by
  by_contra hc
  simpa [hsup] using (h.is2m (by simpa using hc)).1

private theorem pagesOfBig_mono {mask mask' : BigMask} (h : ∀ i, mask i = true → mask' i = true)
    {p : ℕ} (hp : b.pagesOfBig mask p = true) : b.pagesOfBig mask' p = true := by
  unfold pagesOfBig at hp ⊢
  cases hidx : b.bigPageIndex p with
  | none => simp [hidx] at hp
  | some i =>
    simp only [hidx] at hp
    exact h i hp

private theorem swizzlingUnmap_mapsInv (h : s.MapsInv b) (hsup : b.supports2m = false)
    (op : SwizzleOp) {i : ℕ} (hi : i < b.numBigPages)
    (hrange : op = .swizzle → s.rangeBig = true) :
    (PteState.apply (blockGpuBigPageChangeSwizzlingUnmap b s i op)).MapsInv b := by
  have hno := h.not_2m hsup
  cases op with
  | deswizzle => exact ⟨h.is2m, h.range2m, h.bigPtes, h.write, h.atomic, h.uniform, h.mapped⟩
  | swizzle =>
    have hmore : ∀ j, s.bigPtes j = true → Function.update s.bigPtes i true j = true :=
      fun j hj => by by_cases hji : j = i <;> simp [hji, hj]
    refine ⟨by simp [blockGpuBigPageChangeSwizzlingUnmap, hno], by simp [hsup], fun j hj => ?_,
      h.write, h.atomic, by simp [blockGpuBigPageChangeSwizzlingUnmap, hno], fun _ p hp hread => ?_⟩
    · by_cases hji : j = i
      · exact ⟨by rwa [hji], hrange rfl⟩
      · exact h.bigPtes j (by simpa [blockGpuBigPageChangeSwizzlingUnmap, hji] using hj)
    · exact (h.mapped hno p hp hread).imp_left (pagesOfBig_mono hmore)

/-- What a swizzling change keeps of the pages' PTEs. -/
private structure SwizzleMaps (b : GpuBlock) (s s' : PteState) : Prop where
  inv : s'.MapsInv b
  rangeBig : s.rangeBig = true → s'.rangeBig = true
  range4k : s.range4k = true → s'.range4k = true
  pteBits : s'.pteBits = s.pteBits

private theorem changeSwizzlingOwn_maps (h : s.MapsInv b) (hswiz : b.swizzling = true)
    (io : PteInput) (op : SwizzleOp) (mapsTo : ProcessorId) {i : ℕ} (hi : i < b.numBigPages) :
    SwizzleMaps b s (changeSwizzlingOwn b io op mapsTo i s).2 := by
  have hsup := not_supports2m_of_swizzling hswiz
  have hsizes : decide (PteSize.two = if op = .swizzle then .big else .small) = true →
      b.supports2m = true := by cases op <;> simp
  have hspec := blockAllocPtesWithRetry_spec (b := b) io.alloc
    (fun size => decide (size = if op = .swizzle then .big else .small)) hsizes s
  unfold changeSwizzlingOwn
  dsimp only
  generalize blockAllocPtesWithRetry b io.alloc
    (fun size => decide (size = if op = .swizzle then .big else .small)) s = r at hspec ⊢
  have hmaps : SwizzleMaps b s r.2 :=
    ⟨hspec.mapsInv hsizes h, hspec.kept .big, hspec.kept .small, hspec.pteBits⟩
  split
  · exact ⟨h, id, id, rfl⟩
  · split
    · exact hmaps
    · next hok =>
      split
      · exact hmaps
      · have hok : r.1 = .ok := by simpa using hok
        have hinv := swizzlingUnmap_mapsInv hmaps.inv hsup op hi fun hop =>
          hspec.allocated hok .big (by simp) (by simp [allocSizes, hop])
        refine ⟨hinv, fun hr => ?_, fun hr => ?_, ?_⟩
        · cases op <;> exact hmaps.rangeBig hr
        · cases op <;> exact hmaps.range4k hr
        · cases op <;> exact hmaps.pteBits

private theorem SwizzleMaps.own (hswiz : b.swizzling = true) (io : PteInput) (s' : PteState)
    (op : SwizzleOp) (mapsTo : ProcessorId) (i : ℕ) (hi : i < b.numBigPages)
    (h : SwizzleMaps b s s') : SwizzleMaps b s (changeSwizzlingOwn b io op mapsTo i s').2 := by
  have hown := changeSwizzlingOwn_maps h.inv hswiz io op mapsTo hi
  exact ⟨hown.inv, fun hr => hown.rangeBig (h.rangeBig hr),
    fun hr => hown.range4k (h.range4k hr), hown.pteBits.trans h.pteBits⟩

variable {new : NewPteState}

private theorem PlanMaps.swizzled {pages : PageMask} {s' : PteState} (h : PlanMaps b s pages new)
    (hswiz : b.swizzling = true) (hmaps : SwizzleMaps b s s') : PlanMaps b s' pages new := by
  have hsup := not_supports2m_of_swizzling hswiz
  refine ⟨hmaps.inv, fun h2m => ?_, fun h2m i hi => ?_, fun h2m h4k p hp hpage => ?_⟩
  · simp [(h.to2m h2m).1] at hsup
  · exact ⟨(h.bigPtes h2m i hi).1, hmaps.rangeBig (h.bigPtes h2m i hi).2⟩
  · refine h.covers h2m ?_ p hp (by rwa [hmaps.pteBits] at hpage)
    by_contra hc
    simp [hmaps.range4k (by simpa using hc)] at h4k

/-! ## Operations -/

/-- What a push that follows a plan leaves of the software state. -/
private structure PushShape (s t : PteState) (new : NewPteState) : Prop where
  pteIs2m : t.pteIs2m = new.pteIs2m
  bigPtes : new.pteIs2m = false → t.bigPtes = new.bigPtes
  none : new.pteIs2m = true → (s.pteIs2m = true → ∀ i, s.bigPtes i = false) →
    ∀ i, t.bigPtes i = false
  ranges : ∀ size, t.hasRange size = s.hasRange size
  pteBits : t.pteBits = s.pteBits
  force4kPtes : t.force4kPtes = s.force4kPtes

private theorem mix_shape (h2m : s.pteIs2m = false) (hnew : new.pteIs2m = false) {r : PtePush}
    (h : r.1 = { (activateTables b (initializeBig b s new).1).1 with bigPtes := new.bigPtes }) :
    PushShape s (PteState.apply r) new := by
  have hfst : ∀ s' : PteState, (activateTables b s').1.pteIs2m = s'.pteIs2m ∧
      (∀ size, (activateTables b s').1.hasRange size = s'.hasRange size) ∧
      (activateTables b s').1.pteBits = s'.pteBits ∧
      (activateTables b s').1.force4kPtes = s'.force4kPtes := fun s' => by
    unfold activateTables blockGpuWritePde
    split <;> refine ⟨rfl, fun size => ?_, rfl, rfl⟩ <;> cases size <;> rfl
  obtain ⟨h1, h2, h3, h4⟩ := hfst (initializeBig b s new).1
  refine ⟨?_, fun _ => by simp [h], fun hc => by simp [hnew] at hc, fun size => ?_, ?_, ?_⟩
  · rw [apply_pteIs2m, h, hnew]
    exact h1.trans h2m
  · have := h2 size
    cases size <;> simpa [hasRange, h, initializeBig] using this
  · rw [apply_pteBits, h]
    exact h3
  · rw [apply_force4kPtes, h]
    exact h4

private theorem splitWrite2m_shape (toMap : ℕ → ProcessorId) (residentId : ProcessorId)
    (newProt : Prot) (pages : PageMask) (hnew : new.pteIs2m = false) :
    PushShape s (PteState.apply (splitWrite2m b s toMap residentId newProt pages new)) new := by
  refine ⟨by simp [splitWrite2m, hnew], fun _ => rfl, fun hc => by simp [hnew] at hc,
    fun size => ?_, rfl, rfl⟩
  cases size <;> rfl

private theorem mergeTo2m_shape (hnew : new.pteIs2m = true) (cmds : List PteCmd) :
    PushShape s (PteState.apply ((mergeTo2m s).1, cmds)) new := by
  unfold mergeTo2m
  split
  · next h2m =>
    exact ⟨by simp [h2m, hnew], fun hc => by simp [hnew] at hc, fun _ hnone => hnone h2m,
      fun size => by cases size <;> rfl, rfl, rfl⟩
  · exact ⟨by simp [hnew], fun hc => by simp [hnew] at hc, fun _ _ _ => rfl,
      fun size => by cases size <;> rfl, rfl, rfl⟩

private theorem pushMapping_shape (io : PteInput) (residentId : ProcessorId) (newProt : Prot)
    (pages : PageMask) (new : NewPteState) :
    PushShape s (PteState.apply (pushMapping b io s residentId newProt pages new)) new := by
  unfold pushMapping
  cases hnew : new.pteIs2m with
  | true => exact mergeTo2m_shape hnew _
  | false =>
    cases h2m : s.pteIs2m with
    | true => exact splitWrite2m_shape io.toMap residentId newProt pages hnew
    | false => exact mix_shape h2m hnew (mapBigAnd4k_fst b s io.toMap residentId newProt pages new)

private theorem pushUnmapping_shape (io : PteInput) (pages : PageMask) (new : NewPteState) :
    PushShape s (PteState.apply (pushUnmapping b io s pages new)) new := by
  unfold pushUnmapping
  cases hnew : new.pteIs2m with
  | true =>
    simp only [if_true, blockGpuUnmapTo2m]
    split
    · next h2m =>
      have hmerge : mergeTo2m s = (s, []) := by simp [mergeTo2m, h2m]
      have := mergeTo2m_shape (s := s) hnew [.top .invalid, .invalidate allPages (only .two)]
      rwa [hmerge] at this
    · exact mergeTo2m_shape hnew _
  | false =>
    cases h2m : s.pteIs2m with
    | true => exact splitWrite2m_shape io.toMap (io.toMap 0) .none pages hnew
    | false => exact mix_shape h2m hnew (unmapBigAnd4k_fst b s io.toMap pages new)

private theorem PlanMaps.pushed {pages : PageMask} {t : PteState} (h : PlanMaps b s pages new)
    (hshape : PushShape s t new) {bits : PteBit → PageMask}
    (hwrite : ∀ p, bits .write p = true → bits .read p = true)
    (hatomic : ∀ p, bits .atomic p = true → bits .write p = true)
    (hread : ∀ p, bits .read p = true → pages p = true ∨ s.pteBits .read p = true)
    (hfull : new.pteIs2m = true → ∀ p < b.numPages, bits .read p = bits .read 0) :
    { t with pteBits := bits }.MapsInv b := by
  have hrangeBig : t.rangeBig = s.rangeBig := hshape.ranges .big
  have hrange4k : t.range4k = s.range4k := hshape.ranges .small
  have hrange2m : t.range2m = s.range2m := hshape.ranges .two
  refine
    { is2m := fun h2m => ?_
      range2m := fun hsup hlower => ?_
      bigPtes := fun i hi => ?_
      write := hwrite
      atomic := hatomic
      uniform := fun h2m => hfull (by rw [← hshape.pteIs2m]; exact h2m)
      mapped := fun h2m p hp hmap => ?_ }
  · have hnew : new.pteIs2m = true := by rw [← hshape.pteIs2m]; exact h2m
    obtain ⟨hsup, hrange⟩ := h.to2m hnew
    exact ⟨hsup, hrange2m.trans hrange, hshape.none hnew fun h2 => (h.inv.is2m h2).2.2⟩
  · have hlower : s.rangeBig = true ∨ s.range4k = true := by
      rwa [← hrangeBig, ← hrange4k]
    exact hrange2m.trans (h.inv.range2m hsup hlower)
  · cases hnew : new.pteIs2m with
    | true =>
      have := hshape.none hnew (fun h2 => (h.inv.is2m h2).2.2) i
      simp [this] at hi
    | false =>
      have := h.bigPtes hnew i (by rw [← hshape.bigPtes hnew]; exact hi)
      exact ⟨this.1, hrangeBig.trans this.2⟩
  · have hnew : new.pteIs2m = false := by rw [← hshape.pteIs2m]; exact h2m
    cases h4k : s.range4k with
    | true => exact Or.inr (hrange4k.trans h4k)
    | false =>
      have := h.covers hnew h4k p hp (hread p hmap)
      exact Or.inl (by rw [← hshape.bigPtes hnew] at this; exact this)

/-- What an operation that follows a plan leaves: it fails with the pages' PTEs as they were, or
it has pushed the plan. -/
private structure PlanDone (b : GpuBlock) (s : PteState) (pages after : PageMask)
    (r : NvStatus × PteState) : Prop where
  failed : r.1 ≠ .ok → r.2.MapsInv b
  done : r.1 = .ok → ∃ s' new, PlanMaps b s' pages new ∧ PushShape s' r.2 new ∧
    s'.pteBits = s.pteBits ∧ (new.pteIs2m = true → ∀ p < b.numPages, after p = true)
  pteBits : r.2.pteBits = s.pteBits

private theorem remap_done (h : s.MapsInv b) (io : PteInput) (residentId : ProcessorId)
    (newProt : Prot) (pages after : PageMask) :
    PlanDone b s pages after (remap b io residentId newProt pages after s) := by
  have hinv := allocNewState_mapsInv h (some residentId) pages after io.canMapBig io.alloc
  have hplan := planMaps_of_alloc h (some residentId) pages after io.canMapBig io.alloc
  have hcovered := computeNewPteState_covered (b := b) s (some residentId) pages after io.canMapBig
  have hfull := computeNewPteState_full (b := b) s (some residentId) pages after io.canMapBig
  have his2m := computeNewPteState_is2m (b := b) s (some residentId) pages after io.canMapBig
  unfold remap
  dsimp only
  revert hinv hplan hcovered hfull his2m
  generalize blockGpuComputeNewPteState b s (some residentId) pages after io.canMapBig = new
  intro hinv hplan hcovered hfull his2m
  have hbits := (blockAllocPtesNewState_spec io.alloc new (fun h2m => (his2m h2m).1) s).pteBits
  generalize blockAllocPtesNewState b io.alloc new s = r at hinv hplan hbits ⊢
  split
  · next hfail => exact ⟨fun _ => hinv, fun hc => absurd hc hfail, hbits⟩
  · next hok =>
    have hplan := hplan (by simpa using hok)
    have hplan' : PlanMaps b (if (b.swizzling && decide (residentId ≠ cpuId)) = true then
        blockGpuChangeSwizzlingMap b io residentId new r.2 else r).2 pages new ∧
        (if (b.swizzling && decide (residentId ≠ cpuId)) = true then
        blockGpuChangeSwizzlingMap b io residentId new r.2 else r).2.pteBits = s.pteBits := by
      split
      · next hsw =>
        simp only [Bool.and_eq_true] at hsw
        have hmaps := changeSwizzlingMap_keeps (SwizzleMaps.own hsw.1 io) residentId hcovered
          ⟨hplan.inv, id, id, rfl⟩
        exact ⟨hplan.swizzled hsw.1 hmaps, hmaps.pteBits.trans hbits⟩
      · exact ⟨hplan, hbits⟩
    generalize (if (b.swizzling && decide (residentId ≠ cpuId)) = true then
      blockGpuChangeSwizzlingMap b io residentId new r.2 else r) = r' at hplan' ⊢
    obtain ⟨hplan', hbits'⟩ := hplan'
    split
    · next hfail => exact ⟨fun _ => hplan'.inv, fun hc => absurd hc hfail, hbits'⟩
    · split
      · next hfail => exact ⟨fun _ => hplan'.inv, fun hc => absurd hc hfail, hbits'⟩
      · have hshape := pushMapping_shape (b := b) (s := r'.2) io residentId newProt pages new
        exact ⟨fun hc => absurd rfl hc,
          fun _ => ⟨r'.2, new, hplan', hshape, hbits', fun h2m => (hfull h2m).2⟩,
          hshape.pteBits.trans hbits'⟩

theorem remap_pteBits (h : s.MapsInv b) (io : PteInput) (residentId : ProcessorId) (newProt : Prot)
    (pages after : PageMask) : (remap b io residentId newProt pages after s).2.pteBits = s.pteBits :=
  (remap_done h io residentId newProt pages after).pteBits

private theorem mapGpuTo_mapsInv (h : s.MapsInv b) (io : PteInput) (residentId : ProcessorId)
    (mapPageMask : PageMask) (newProt : Prot) :
    (uvmVaBlockMapGpuTo b io residentId mapPageMask newProt s).2.MapsInv b := by
  unfold uvmVaBlockMapGpuTo
  dsimp only
  split
  · exact h
  · obtain ⟨pages, hpages⟩ : ∃ pages : PageMask,
        ∀ p, (mapPageMask p && !s.pteBits newProt.bit p && io.resident p) = pages p :=
      ⟨_, fun _ => rfl⟩
    have hdone := remap_done h io residentId newProt pages
      (fun p => (s.pteBits newProt.bit p || pages p) && !newProt.bit.above s.pteBits p &&
        io.resident p)
    simp only [hpages]
    generalize remap b io residentId newProt pages
      (fun p => (s.pteBits newProt.bit p || pages p) && !newProt.bit.above s.pteBits p &&
        io.resident p) s = r at hdone ⊢
    split
    · next hfail => exact hdone.failed hfail
    · next hok =>
      obtain ⟨s', new, hplan, hshape, hbits, hfull⟩ := hdone.done (by simpa using hok)
      have hread : ∀ p, s.pteBits newProt.bit p = true → s.pteBits .read p = true := fun p hp => by
        cases newProt with
        | readWriteAtomic => exact h.write p (h.atomic p hp)
        | readWrite => exact h.write p hp
        | _ => exact hp
      refine hplan.pushed hshape ?_ ?_ ?_ ?_
      · intro p hp
        rw [hdone.pteBits, Bool.or_eq_true, Bool.and_eq_true, decide_eq_true_eq] at hp ⊢
        exact hp.imp (h.write p) (And.imp_left fun hle => le_trans (by decide) hle)
      · intro p hp
        rw [hdone.pteBits, Bool.or_eq_true, Bool.and_eq_true, decide_eq_true_eq] at hp ⊢
        exact hp.imp (h.atomic p) (And.imp_left fun hle => le_trans (by decide) hle)
      · intro p hp
        rw [hdone.pteBits, Bool.or_eq_true, Bool.and_eq_true] at hp
        rw [hbits]
        exact hp.symm.imp_left (·.2)
      · -- all pages will have the new permission
        intro h2m
        have hall : ∀ p < b.numPages, (r.2.pteBits .read p ||
            (decide (PteBit.read.index ≤ newProt.bit.index) && pages p)) = true := fun p hp => by
          have := hfull h2m p hp
          simp only [Bool.and_eq_true, Bool.or_eq_true] at this
          rw [hdone.pteBits, Bool.or_eq_true]
          exact this.1.1.imp (hread p) fun hpage => by simp [hpage, PteBit.index]
        intro p hp
        rw [hall p hp, hall 0 b.pages_pos]

theorem revokeProtGpuTo_mapsInv (h : s.MapsInv b) (io : PteInput)
    (residentId : ProcessorId) (revokePageMask : PageMask) (protToRevoke : Prot) :
    (uvmVaBlockRevokeProtGpuTo b io residentId revokePageMask protToRevoke s).2.MapsInv b := by
  unfold uvmVaBlockRevokeProtGpuTo
  dsimp only
  generalize hbit : (if protToRevoke = .readWriteAtomic then PteBit.atomic else .write) = bit
  have hbit' : bit = .atomic ∨ bit = .write := by
    rw [← hbit]
    split
    · exact Or.inl rfl
    · exact Or.inr rfl
  split
  · exact h
  · obtain ⟨pages, hpages⟩ : ∃ pages : PageMask,
        ∀ p, (revokePageMask p && s.pteBits bit p && io.resident p) = pages p :=
      ⟨_, fun _ => rfl⟩
    have hdone := remap_done h io residentId protToRevoke.pred pages
      (fun p => s.pteBits bit.below p && !(s.pteBits bit p && !pages p) && io.resident p)
    simp only [hpages]
    generalize remap b io residentId protToRevoke.pred pages
      (fun p => s.pteBits bit.below p && !(s.pteBits bit p && !pages p) && io.resident p) s = r
      at hdone ⊢
    -- the read bit stays
    have hkeep : ∀ p, (r.2.pteBits .read p &&
        !(decide (bit.index ≤ PteBit.read.index) && pages p)) = s.pteBits .read p := fun p => by
      rw [hdone.pteBits]
      rcases hbit' with rfl | rfl <;> simp [PteBit.index]
    split
    · next hfail => exact hdone.failed hfail
    · next hok =>
      obtain ⟨s', new, hplan, hshape, hbits, hfull⟩ := hdone.done (by simpa using hok)
      refine hplan.pushed hshape ?_ ?_ ?_ ?_
      · intro p hp
        rw [hkeep]
        rw [hdone.pteBits, Bool.and_eq_true] at hp
        exact h.write p hp.1
      · intro p hp
        rw [hdone.pteBits, Bool.and_eq_true] at hp ⊢
        refine ⟨h.atomic p hp.1, ?_⟩
        rcases hbit' with rfl | rfl
        · simp [PteBit.index]
        · simpa [PteBit.index] using hp.2
      · intro p hp
        rw [hkeep] at hp
        rw [hbits]
        exact Or.inr hp
      · intro h2m
        have hall : ∀ p < b.numPages, s.pteBits .read p = true := fun p hp => by
          have := hfull h2m p hp
          simp only [Bool.and_eq_true] at this
          rcases hbit' with rfl | rfl
          · exact h.write p this.1.1
          · exact this.1.1
        intro p hp
        rw [hkeep, hkeep, hall p hp, hall 0 b.pages_pos]

private theorem unmapPages_done (h : s.MapsInv b) (io : PteInput) (pages after : PageMask) :
    PlanDone b s pages after (unmapPages b io pages after s) := by
  have hinv := allocNewState_mapsInv h none pages after io.canMapBig io.alloc
  have hplan := planMaps_of_alloc h none pages after io.canMapBig io.alloc
  have hcovered := computeNewPteState_covered (b := b) s none pages after io.canMapBig
  have hfull := computeNewPteState_full (b := b) s none pages after io.canMapBig
  have his2m := computeNewPteState_is2m (b := b) s none pages after io.canMapBig
  unfold unmapPages
  dsimp only
  revert hinv hplan hcovered hfull his2m
  generalize blockGpuComputeNewPteState b s none pages after io.canMapBig = new
  intro hinv hplan hcovered hfull his2m
  have hbits := (blockAllocPtesNewState_spec io.alloc new (fun h2m => (his2m h2m).1) s).pteBits
  generalize blockAllocPtesNewState b io.alloc new s = r at hinv hplan hbits ⊢
  split
  · next hfail => exact ⟨fun _ => hinv, fun hc => absurd hc hfail, hbits⟩
  · next hok =>
    have hplan := hplan (by simpa using hok)
    have hplan' : PlanMaps b (if b.swizzling = true then
        blockGpuChangeSwizzlingUnmap b io new r.2 else r).2 pages new ∧
        (if b.swizzling = true then
          blockGpuChangeSwizzlingUnmap b io new r.2 else r).2.pteBits = s.pteBits := by
      split
      · next hsw =>
        have hmaps := changeSwizzlingUnmap_keeps (SwizzleMaps.own hsw io) hcovered
          ⟨hplan.inv, id, id, rfl⟩
        exact ⟨hplan.swizzled hsw hmaps, hmaps.pteBits.trans hbits⟩
      · exact ⟨hplan, hbits⟩
    generalize (if b.swizzling = true then
      blockGpuChangeSwizzlingUnmap b io new r.2 else r) = r' at hplan' ⊢
    obtain ⟨hplan', hbits'⟩ := hplan'
    split
    · next hfail => exact ⟨fun _ => hplan'.inv, fun hc => absurd hc hfail, hbits'⟩
    · split
      · next hfail => exact ⟨fun _ => hplan'.inv, fun hc => absurd hc hfail, hbits'⟩
      · have hshape := pushUnmapping_shape (b := b) (s := r'.2) io pages new
        exact ⟨fun hc => absurd rfl hc,
          fun _ => ⟨r'.2, new, hplan', hshape, hbits', fun h2m => (hfull h2m).2⟩,
          hshape.pteBits.trans hbits'⟩

private theorem unmapGpu_mapsInv (h : s.MapsInv b) (io : PteInput) (unmapPageMask : PageMask) :
    (uvmVaBlockUnmapGpu b io unmapPageMask s).2.MapsInv b := by
  unfold uvmVaBlockUnmapGpu
  dsimp only
  split
  · exact h
  · split
    · exact h
    · obtain ⟨pages, hpages⟩ : ∃ pages : PageMask,
          ∀ p, (unmapPageMask p && s.pteBits .read p) = pages p :=
        ⟨_, fun _ => rfl⟩
      have hdone := unmapPages_done h io pages fun p => !(s.pteBits .read p && !pages p)
      simp only [hpages]
      generalize unmapPages b io pages (fun p => !(s.pteBits .read p && !pages p)) s = r
        at hdone ⊢
      split
      · next hfail => exact hdone.failed hfail
      · next hok =>
        obtain ⟨s', new, hplan, hshape, hbits, hfull⟩ := hdone.done (by simpa using hok)
        refine hplan.pushed hshape ?_ ?_ ?_ ?_
        · intro p hp
          rw [hdone.pteBits, Bool.and_eq_true] at hp ⊢
          exact ⟨h.write p hp.1, hp.2⟩
        · intro p hp
          rw [hdone.pteBits, Bool.and_eq_true] at hp ⊢
          exact ⟨h.atomic p hp.1, hp.2⟩
        · intro p hp
          rw [hdone.pteBits, Bool.and_eq_true] at hp
          rw [hbits]
          exact Or.inr hp.1
        · -- no page will be mapped
          intro h2m
          have hall : ∀ p < b.numPages, (r.2.pteBits .read p && !pages p) = false := fun p hp => by
            have := hfull h2m p hp
            rw [hdone.pteBits]
            rwa [Bool.not_eq_true'] at this
          intro p hp
          rw [hall p hp, hall 0 b.pages_pos]

private theorem PteState.MapsInv.forced (h : s.MapsInv b) :
    { s with force4kPtes := true }.MapsInv b :=
  ⟨h.is2m, h.range2m, h.bigPtes, h.write, h.atomic, h.uniform, h.mapped⟩

private theorem split2m_mapsInv (h : s.MapsInv b) (toMap : ℕ → ProcessorId) (newBigPtes : BigMask)
    (hnew : ∀ i, newBigPtes i = true → i < b.numBigPages ∧ s.rangeBig = true)
    (hcov : s.range4k = false → ∀ p < b.numPages, b.pagesOfBig newBigPtes p = true) :
    (PteState.apply (blockGpuSplit2m b s toMap newBigPtes)).MapsInv b where
  is2m := fun hc => by simp [blockGpuSplit2m] at hc
  range2m := h.range2m
  bigPtes := hnew
  write := h.write
  atomic := h.atomic
  uniform := fun hc => by simp [blockGpuSplit2m] at hc
  mapped := fun _ p hp _ => by
    cases h4k : s.range4k with
    | true => exact Or.inr h4k
    | false => exact Or.inl (hcov h4k p hp)

private theorem splitBig_mapsInv (h : s.MapsInv b) (h2m : s.pteIs2m = false)
    (h4k : s.range4k = true) (toMap : ℕ → ProcessorId) (toSplit : BigMask) :
    (PteState.apply (blockGpuSplitBig b s toMap toSplit)).MapsInv b := by
  have hranges : (activateTables b s).1.range4k = s.range4k ∧
      (activateTables b s).1.rangeBig = s.rangeBig ∧
      (activateTables b s).1.range2m = s.range2m ∧
      (activateTables b s).1.pteIs2m = s.pteIs2m ∧
      (activateTables b s).1.pteBits = s.pteBits := by
    unfold activateTables blockGpuWritePde
    split <;> exact ⟨rfl, rfl, rfl, rfl, rfl⟩
  obtain ⟨h1, h2, h3, h4, h5⟩ := hranges
  refine ⟨fun hc => ?_, fun hsup hlower => ?_, fun i hi => ?_, ?_, ?_, fun hc => ?_,
    fun _ p hp hread => ?_⟩
  · exact absurd (h4.symm.trans hc) (by simp [h2m])
  · exact h3.trans (h.range2m hsup (Or.inr h4k))
  · have hi : s.bigPtes i = true := by
      simp only [blockGpuSplitBig, apply_bigPtes, Bool.and_eq_true] at hi
      exact hi.1
    exact ⟨(h.bigPtes i hi).1, h2.trans (h.bigPtes i hi).2⟩
  · simp only [blockGpuSplitBig, apply_pteBits, h5]
    exact h.write
  · simp only [blockGpuSplitBig, apply_pteBits, h5]
    exact h.atomic
  · exact absurd (h4.symm.trans hc) (by simp [h2m])
  · exact Or.inr (h1.trans h4k)

private theorem force4kPtes_mapsInv (h : s.MapsInv b) (io : PteInput) :
    (blockGpuForce4kPtes b io s).2.MapsInv b := by
  have hforce := h.forced
  have hspec := blockAllocPtesWithRetry_spec (b := b) io.alloc (only .small)
    (by simp [only]) { s with force4kPtes := true }
  unfold blockGpuForce4kPtes
  dsimp only
  split
  · exact hforce
  · split
    · exact hforce
    · generalize blockAllocPtesWithRetry b io.alloc (only .small)
        { s with force4kPtes := true } = r at hspec ⊢
      have hinv := hspec.mapsInv (by simp [only]) hforce
      split
      · exact hinv
      · next hok =>
        have h4k : r.2.range4k = true :=
          hspec.allocated (by simpa using hok) .small (by simp) (by simp [allocSizes, only])
        split
        · exact hinv
        · split
          · exact split2m_mapsInv hinv io.toMap _ (by simp) (by simp [h4k])
          · next h2m =>
            exact splitBig_mapsInv hinv (by simpa using h2m) h4k io.toMap r.2.bigPtes

private theorem changeSwizzlingOther_mapsInv {q : PtePair} (h : q.2.MapsInv q.1) (io : PteInput)
    {op : SwizzleOp} {i : ℕ} (hallowed : swizzlingAllowed q op i = true) :
    (changeSwizzlingOther q.1 io op i q.2).2.MapsInv q.1 := by
  simp only [swizzlingAllowed, Bool.and_eq_true, decide_eq_true_eq] at hallowed
  obtain ⟨⟨hsw, hi⟩, -⟩ := hallowed
  have hsup := not_supports2m_of_swizzling hsw
  have hsizes : decide (PteSize.two = if op = .swizzle then .big else .small) = true →
      q.1.supports2m = true := by cases op <;> simp
  have hspec := blockAllocPtesWithRetry_spec (b := q.1) io.alloc
    (fun size => decide (size = if op = .swizzle then .big else .small)) hsizes q.2
  unfold changeSwizzlingOther
  dsimp only
  generalize blockAllocPtesWithRetry q.1 io.alloc
    (fun size => decide (size = if op = .swizzle then .big else .small)) q.2 = r at hspec ⊢
  have hinv := hspec.mapsInv hsizes h
  split
  · exact hinv
  · next hok =>
    have hok : r.1 = .ok := by simpa using hok
    split
    · exact hinv
    · have hunmap := swizzlingUnmap_mapsInv hinv hsup op hi fun hop =>
        hspec.allocated hok .big (by simp) (by simp [allocSizes, hop])
      split
      · exact hunmap
      · cases op with
        | swizzle =>
          exact ⟨hunmap.is2m, hunmap.range2m, hunmap.bigPtes, hunmap.write, hunmap.atomic,
            hunmap.uniform, hunmap.mapped⟩
        | deswizzle =>
          have h4k : r.2.range4k = true :=
            hspec.allocated hok .small (by simp) (by simp [allocSizes])
          exact splitBig_mapsInv hunmap (hunmap.not_2m hsup) h4k io.toMap (bigPageSingle i)

/-! ### Splits and removals -/

/-- What a split finds when it comes to the state. -/
private structure MapsReady (b : GpuBlock) (at_ : ℕ) (s : PteState) : Prop where
  inv : s.MapsInv b
  unmapped : s.pteIs2m = true → ∀ p < b.numPages, s.pteBits .read p = false
  cut : ∀ i, b.bigPageIndex at_ = some i → (b.start + at_) % b.bigPages ≠ 0 → s.bigPtes i = false

private theorem presplit_maps (h : s.MapsInv b) (io : PteInput) (at_ : ℕ) :
    (uvmVaBlockSplitPresplitPtesGpu b io at_ s).2.MapsInv b ∧
      ((uvmVaBlockSplitPresplitPtesGpu b io at_ s).1 = .ok →
        MapsReady b at_ (uvmVaBlockSplitPresplitPtesGpu b io at_ s).2) := by
  unfold uvmVaBlockSplitPresplitPtesGpu
  dsimp only
  split
  · next h2m =>
    split
    · next hnothing =>
      have hread : s.pteBits .read 0 = false := by
        by_contra hc
        have hc : s.pteBits .read 0 = true := by simpa using hc
        have hprot := hnothing.1
        unfold pageProt at hprot
        rw [hc] at hprot
        split_ifs at hprot with _ _ hno
        exact hno rfl
      exact ⟨h, fun _ => ⟨h, fun _ p hp => (h.uniform h2m p hp).trans hread,
        fun i _ _ => (h.is2m h2m).2.2 i⟩⟩
    · have hspec := blockAllocPtesWithRetry_spec (b := b) io.alloc
        (presplitSizes (decide ((b.start + at_) % b.bigPages = 0)))
        (by simp [presplitSizes]) s
      generalize blockAllocPtesWithRetry b io.alloc
        (presplitSizes (decide ((b.start + at_) % b.bigPages = 0))) s = r at hspec ⊢
      have hinv := hspec.mapsInv (by simp [presplitSizes]) h
      have hsup := (h.is2m h2m).1
      split
      · next hfail => exact ⟨hinv, fun hc => absurd hc hfail⟩
      · next hok =>
        have hok : r.1 = .ok := by simpa using hok
        split
        · next hfail => exact ⟨hinv, fun hc => absurd hc hfail⟩
        · have hbig : r.2.rangeBig = true :=
            hspec.allocated hok .big (by simp) (by simp [allocSizes, presplitSizes])
          have hnum := b.numBigPages_of_supports2m hsup
          have hsplit := split2m_mapsInv hinv io.toMap
            (fun i => decide (i < maxBigPages) &&
              (decide ((b.start + at_) % b.bigPages = 0) || decide (b.bigPageIndex at_ ≠ some i)))
            (fun i hi => by
              simp only [Bool.and_eq_true, decide_eq_true_eq] at hi
              exact ⟨hnum ▸ hi.1, hbig⟩)
            (fun h4k p hp => by
              -- no big PTE is split for a split point at the start of a big page
              have halign : (b.start + at_) % b.bigPages = 0 := by
                by_contra hcut
                have : r.2.range4k = true := hspec.allocated hok .small (by simp)
                  (by simp [allocSizes, presplitSizes, hcut])
                simp [h4k] at this
              obtain ⟨i, hi, hidx⟩ := b.index_of_supports2m hsup hp
              simp [pagesOfBig, hidx, hi, halign])
          refine ⟨hsplit, fun _ => ⟨hsplit, fun hc => ?_, fun i hi hcut => ?_⟩⟩
          · simp [blockGpuSplit2m] at hc
          · simp [blockGpuSplit2m, hi, hcut]
  · next h2m =>
    have hready : (∀ i, b.bigPageIndex at_ = some i → (b.start + at_) % b.bigPages ≠ 0 →
        s.bigPtes i = false) → MapsReady b at_ s := fun hcut =>
      ⟨h, fun hc => by simp [h2m] at hc, hcut⟩
    cases hidx : b.bigPageIndex at_ with
    | none => exact ⟨h, fun _ => hready (by simp [hidx])⟩
    | some i =>
      dsimp only
      split
      · next hskip =>
        refine ⟨h, fun _ => hready fun j hj hcut => ?_⟩
        obtain rfl : i = j := by simpa [hidx] using hj
        simpa [hcut] using hskip
      · have hspec := blockAllocPtesWithRetry_spec (b := b) io.alloc (only .small)
          (by simp [only]) s
        generalize blockAllocPtesWithRetry b io.alloc (only .small) s = r at hspec ⊢
        have hinv := hspec.mapsInv (by simp [only]) h
        split
        · next hfail => exact ⟨hinv, fun hc => absurd hc hfail⟩
        · next hok =>
          have hok : r.1 = .ok := by simpa using hok
          split
          · next hfail => exact ⟨hinv, fun hc => absurd hc hfail⟩
          · next hgo _ _ =>
            have h4k : r.2.range4k = true :=
              hspec.allocated hok .small (by simp) (by simp [allocSizes, only])
            have hi : r.2.bigPtes i = true := by
              rw [hspec.bigPtes]
              by_contra hc
              simp [hc] at hgo
            have h2m' : r.2.pteIs2m = false := by
              by_contra hc
              have := (hinv.is2m (by simpa using hc)).2.2 i
              simp [hi] at this
            have hsplit := splitBig_mapsInv hinv h2m' h4k io.toMap (bigPageSingle i)
            refine ⟨hsplit, fun _ => ⟨hsplit, fun hc => ?_, fun j hj _ => ?_⟩⟩
            · have hno : (PteState.apply (blockGpuSplitBig b r.2 io.toMap
                  (bigPageSingle i))).pteIs2m = false := by
                simp only [blockGpuSplitBig, activateTables]
                split <;> exact h2m'
              exact absurd (hno.symm.trans hc) (by simp)
            · obtain rfl : i = j := by simpa [hidx] using hj
              simp [blockGpuSplitBig, bigPageSingle]

section Halves

variable {at_ : ℕ} (hat : 0 < at_ ∧ at_ < b.numPages)

private theorem MapsReady.mapped (h : MapsReady b at_ s) {q : ℕ} (hq : q < b.numPages)
    (hread : s.pteBits .read q = true) :
    s.range4k = true ∨ s.rangeBig = true ∧ ∃ i, b.bigPageIndex q = some i ∧ s.bigPtes i = true ∧
      (b.bigOf q ≠ b.bigOf at_ ∨ (b.start + at_) % b.bigPages = 0) := by
  cases h2m : s.pteIs2m with
  | true =>
    have := h.unmapped h2m q hq
    simp [hread] at this
  | false =>
    refine (h.inv.mapped h2m q hq hread).symm.imp_right fun hbig => ?_
    unfold pagesOfBig at hbig
    cases hidx : b.bigPageIndex q with
    | none => simp [hidx] at hbig
    | some i =>
      simp only [hidx] at hbig
      refine ⟨(h.inv.bigPtes i hbig).2, i, rfl, hbig, ?_⟩
      by_contra hshared
      have hcut := bigPageIndex_at hidx hshared
      simp [h.cut i hcut.1 hcut.2] at hbig

private theorem splitLower_mapsInv (h : MapsReady b at_ s) :
    (splitLower s at_ (b.lower at_ hat).numBigPages (b.upper at_ hat).numBigPages).MapsInv
      (b.lower at_ hat) := by
  refine
    { is2m := by simp [splitLower]
      range2m := by simp [lower_not_supports2m hat]
      bigPtes := fun i hi => ?_
      write := fun p hp => ?_
      atomic := fun p hp => ?_
      uniform := by simp [splitLower]
      mapped := fun _ p hp hread => ?_ }
  · simp only [splitLower, Bool.and_eq_true, Bool.not_eq_true', Bool.and_eq_false_iff,
      decide_eq_false_iff_not] at hi
    have hr := (h.inv.bigPtes i hi.1).2
    have hlt : i < (b.lower at_ hat).numBigPages := by simpa [hr] using hi.2
    exact ⟨hlt, by simp [splitLower, hr, (Nat.zero_lt_of_lt hlt).ne']⟩
  · simp only [splitLower, Bool.and_eq_true] at hp ⊢
    exact ⟨h.inv.write p hp.1, hp.2⟩
  · simp only [splitLower, Bool.and_eq_true] at hp ⊢
    exact ⟨h.inv.atomic p hp.1, hp.2⟩
  · have hp : p < at_ := hp
    simp only [splitLower, Bool.and_eq_true] at hread
    refine (h.mapped (lt_trans hp hat.2) hread.1).symm.imp_left ?_
    rintro ⟨hr, i, hidx, hbig, hother⟩
    have hlower := lower_bigPageIndex hat hp hidx hother
    have hlt := ((b.lower at_ hat).bigPageIndex_eq_some.mp hlower).2
    simp [pagesOfBig, hlower, splitLower, hbig, Nat.not_le.mpr hlt]

private theorem splitUpper_mapsInv (h : MapsReady b at_ s) :
    (splitUpper s at_ b.numBigPages (b.lower at_ hat).numBigPages
      (b.upper at_ hat).numBigPages).MapsInv (b.upper at_ hat) := by
  refine
    { is2m := by simp [splitUpper, PteState.fresh]
      range2m := by simp [upper_not_supports2m hat]
      bigPtes := fun i hi => ?_
      write := fun p hp => h.inv.write _ hp
      atomic := fun p hp => h.inv.atomic _ hp
      uniform := by simp [splitUpper, PteState.fresh]
      mapped := fun _ p hp hread => ?_ }
  · simp only [splitUpper, Bool.and_eq_true] at hi
    obtain ⟨⟨hr, habove⟩, hold⟩ := hi
    have := (h.inv.bigPtes _ hold).1
    exact ⟨by omega, by simp [splitUpper, hr, habove]⟩
  · have hp : p < b.numPages - at_ := hp
    refine (h.mapped (q := p + at_) (by omega) hread).symm.imp_left ?_
    rintro ⟨hr, i, hidx, hbig, hother⟩
    obtain ⟨hupper, hback⟩ := upper_bigPageIndex hat hidx hother
    have habove := ((b.upper at_ hat).bigPageIndex_eq_some.mp hupper).2
    simp [pagesOfBig, hupper, splitUpper, hback, hbig, hr, (Nat.zero_lt_of_lt habove).ne']

private theorem split_mapsInv (h : s.MapsInv b) (io : PteInput) (preallocate : NvStatus) :
    ∀ q ∈ splitResult b at_ hat (uvmVaBlockSplit b io preallocate at_ hat s).2,
      q.2.MapsInv q.1 := by
  have hpre : ∃ r, r = (if s.hasPageTables then uvmVaBlockSplitPresplitPtesGpu b io at_ s
      else (.ok, s)) ∧ r.2.MapsInv b ∧ (r.1 = .ok → MapsReady b at_ r.2) := by
    refine ⟨_, rfl, ?_⟩
    split
    · exact presplit_maps h io at_
    · next hnone =>
      simp only [hasPageTables, Bool.not_eq_true, Bool.or_eq_false_iff] at hnone
      refine ⟨h, fun _ => ⟨h, fun h2m => ?_, fun i _ _ => ?_⟩⟩
      · simpa [hnone] using (h.is2m h2m).2.1
      · by_contra hc
        simpa [hnone] using (h.bigPtes i (by simpa using hc)).2
  obtain ⟨r, hr, hinv, hready⟩ := hpre
  unfold uvmVaBlockSplit
  dsimp only
  rw [← hr]
  split
  · simpa [splitResult] using hinv
  · next hok =>
    split
    · simpa [splitResult] using hinv
    · have hready := hready (by simpa using hok)
      simp only [splitResult, List.mem_cons, List.not_mem_nil, or_false, forall_eq_or_imp,
        forall_eq]
      exact ⟨splitLower_mapsInv hat hready, splitUpper_mapsInv hat hready⟩

end Halves

private theorem unmapAll_unmapped (h : s.MapsInv b) (io : PteInput)
    (hok : (uvmVaBlockUnmapGpu b io allPages s).1 = .ok) :
    ∀ p < b.numPages, (uvmVaBlockUnmapGpu b io allPages s).2.pteBits .read p = false := by
  intro p hp
  by_cases hnothing : s.hasPageTables = false ∨ s.mapsPages b = false
  · rw [unmapAll_eq_self io hnothing]
    by_contra hc
    have hread : s.pteBits .read p = true := by simpa using hc
    rcases hnothing with hnone | hnone
    · simp only [hasPageTables, Bool.or_eq_false_iff] at hnone
      rcases h.tables_of_mapped hp hread with h2 | ⟨-, hbig | h4k⟩
      · simp [hnone] at h2
      · simp [hnone] at hbig
      · simp [hnone] at h4k
    · have : s.mapsPages b = true := anyIn_eq_true.mpr ⟨p, Nat.zero_le p, hp, hread⟩
      simp [hnone] at this
  · simp only [not_or, Bool.not_eq_false] at hnothing
    have hdone := unmapPages_done h io (s.pteBits .read) fun _ => true
    rw [unmapAll_eq io hnothing.1 hnothing.2] at hok ⊢
    dsimp only at hok ⊢
    split
    · next hfail =>
      rw [if_pos hfail] at hok
      exact absurd hok hfail
    · simp [hdone.pteBits]

private theorem removeGpuVaSpace_mapsInv (h : s.MapsInv b) (io : PteInput)
    (resetPush wait : NvStatus) :
    (uvmVaBlockRemoveGpuVaSpace b io resetPush wait s).MapsInv b := by
  have hinv := unmapGpu_mapsInv h io allPages
  by_cases hfrees : removalFrees b io resetPush wait s
  · have hunmapped := unmapAll_unmapped h io hfrees.1
    have hbits : (resetPtes b (uvmVaBlockUnmapGpu b io allPages s).2).pteBits =
        (uvmVaBlockUnmapGpu b io allPages s).2.pteBits := by
      unfold resetPtes
      split <;> rfl
    rw [removeGpuVaSpace_eq io resetPush wait hfrees]
    refine ⟨by simp, by simp [putPtes], by simp, ?_, ?_, by simp, fun _ p hp hread => ?_⟩
    · simpa only [putPtes, hbits] using hinv.write
    · simpa only [putPtes, hbits] using hinv.atomic
    · simp only [putPtes, hbits] at hread
      simp [hunmapped p hp] at hread
  · rw [removeGpuVaSpace_eq_unmap io resetPush wait hfrees]
    exact hinv

private theorem pair_step_mapsInv {q : PtePair} (h : q.2.MapsInv q.1) (op : PteOp) :
    ∀ q' ∈ q.step op, q'.2.MapsInv q'.1 := by
  cases op with
  | map io residentId mask newProt =>
    simpa [PtePair.step] using mapGpuTo_mapsInv h io residentId mask newProt
  | revoke io residentId mask prot =>
    simpa [PtePair.step] using revokeProtGpuTo_mapsInv h io residentId mask prot
  | unmap io mask => simpa [PtePair.step] using unmapGpu_mapsInv h io mask
  | cancel io => simpa [PtePair.step] using force4kPtes_mapsInv h io
  | changeSwizzling io op i =>
    simp only [PtePair.step]
    split
    · next hallowed => simpa using changeSwizzlingOther_mapsInv h io hallowed
    · simpa using h
  | split io preallocate at_ =>
    simp only [PtePair.step]
    split
    · next hat => exact split_mapsInv hat h io preallocate
    · simpa using h
  | removeGpuVaSpace io resetPush wait =>
    simpa [PtePair.step] using removeGpuVaSpace_mapsInv h io resetPush wait

theorem run_mapsInv (b : GpuBlock) (ops : List (ℕ × PteOp)) :
    ∀ q ∈ run pteStep [(b, .fresh)] ops, q.2.MapsInv q.1 := by
  apply run_inv pteStep (I := fun l => ∀ q ∈ l, q.2.MapsInv q.1)
  · simp [fresh_mapsInv]
  · intro l op hl
    exact (forall_pteStep hl op.1 op.2).mpr fun q hq =>
      pair_step_mapsInv (hl q (List.mem_of_getElem? hq)) op.2

/-- The permission masks are nested, and every page that the GPU maps has a page table with its
PTE; a 2M PTE maps all pages of its block or none. -/
structure PteState.MappingsRight (b : GpuBlock) (s : PteState) : Prop where
  nested : ∀ p, (s.pteBits .atomic p = true → s.pteBits .write p = true) ∧
    (s.pteBits .write p = true → s.pteBits .read p = true)
  tables : ∀ p < b.numPages, s.pteBits .read p = true →
    if s.pteIs2m then s.range2m = true
    else if b.pagesOfBig s.bigPtes p then s.rangeBig = true
    else s.range4k = true
  uniform : s.pteIs2m = true → b.supports2m = true ∧
    ∀ p < b.numPages, s.pteBits .read p = s.pteBits .read 0

/-- **The mappings of the blocks** in every run of maps, revocations, unmaps, cancels, swizzling
changes, splits and removals, whichever of their allocations and pushes fail. -/
theorem mappingsRight_along (b : GpuBlock) (ops : List (ℕ × PteOp)) :
    HoldsAlong pteStep (fun l => ∀ q ∈ l, q.2.MappingsRight q.1) [(b, .fresh)] ops := by
  intro pre _ q hq
  have h := run_mapsInv b pre q hq
  refine ⟨fun p => ⟨h.atomic p, h.write p⟩, fun p hp hread => ?_,
    fun h2m => ⟨(h.is2m h2m).1, h.uniform h2m⟩⟩
  split
  · next h2m => exact (h.is2m h2m).2.1
  · next h2m =>
    split
    · next hbig =>
      unfold pagesOfBig at hbig
      cases hidx : q.1.bigPageIndex p with
      | none => simp [hidx] at hbig
      | some i =>
        simp only [hidx] at hbig
        exact (h.bigPtes i hbig).2
    · next hbig => exact (h.mapped (by simpa using h2m) p hp hread).resolve_left hbig

/-! ## The unmap of a whole block -/

/-- The unmap of the whole block needs nothing but its push: it allocates no page table range, it
comes out the same whatever allocations and swizzling changes would return, and it fails only as
the push or the tracker does. -/
structure PteState.UnmapsAlone (b : GpuBlock) (s : PteState) : Prop where
  ranges : ∀ io size, (uvmVaBlockUnmapGpu b io allPages s).2.hasRange size = s.hasRange size
  alone : ∀ (io : PteInput) alloc before after,
    uvmVaBlockUnmapGpu b
      { io with alloc := alloc, beforeSwizzle := before, afterSwizzle := after } allPages s =
      uvmVaBlockUnmapGpu b io allPages s
  status : ∀ io, (uvmVaBlockUnmapGpu b io allPages s).1 = .ok ∨
    (uvmVaBlockUnmapGpu b io allPages s).1 = io.beginPush ∨
    (uvmVaBlockUnmapGpu b io allPages s).1 = io.addPush

private theorem allocPtes_of_hasRange (alloc : PteSize → NvStatus) {pageSizes : PteSize → Bool}
    (h : ∀ size, allocSizes b pageSizes size = true → s.hasRange size = true) :
    blockAllocPtesWithRetry b alloc pageSizes s = (.ok, s) := by
  have hloop : ∀ (l : List PteSize) (status : NvStatus),
      allocPtesLoop b alloc (allocSizes b pageSizes) l status s = (status, s) := by
    intro l
    induction l with
    | nil => exact fun _ => rfl
    | cons size l ih =>
      intro status
      unfold allocPtesLoop
      rw [if_pos, ih]
      cases hsize : allocSizes b pageSizes size with
      | false => rfl
      | true => simp [h size hsize]
  exact hloop _ _

/-- **The plan for the whole block**: unless 4k PTEs are forced, its page sizes are those the
block has tables for, and nothing that it covers is left mapped in part. -/
private theorem planAll (h : s.MapsInv b) (hmaps : s.mapsPages b = true)
    (canMapBig : ℕ → Bool) (hforce : s.force4kPtes = true → s.range4k = true) :
    let new := blockGpuComputeNewPteState b s none (s.pteBits .read) (fun _ => true) canMapBig
    (new.pteIs2m = true → s.range2m = true) ∧
      (new.pteIs2m = false → bigEmpty new.bigPtes = false → s.rangeBig = true) ∧
      (new.pteIs2m = false → new.needs4k = true → s.range4k = true) ∧
      ∀ i, new.bigPtesCovered i = true → new.bigPtesFullyUnmapped i = true := by
  obtain ⟨p, -, hp, hread⟩ := anyIn_eq_true.mp hmaps
  have htables := h.tables_of_mapped hp hread
  intro new
  by_cases hf : s.force4kPtes = true
  · have hnew : new = .start := if_pos hf
    rw [hnew]
    refine ⟨by simp [NewPteState.start], fun _ hsome => ?_, fun _ _ => hforce hf,
      by simp [NewPteState.start]⟩
    simp [NewPteState.start, bigEmpty] at hsome
  · cases hsup : b.supports2m with
    | true =>
      have hnew : new = { NewPteState.start with pteIs2m := true, needs4k := false } := by
        simp only [new, blockGpuComputeNewPteState]
        rw [if_neg hf, if_pos]
        simp [hsup, fullIn_eq_true]
      rw [hnew]
      refine ⟨fun _ => ?_, by simp, by simp, by simp [NewPteState.start]⟩
      exact htables.resolve_right (by simp [hsup])
    | false =>
      have h2m := h.not_2m hsup
      have hmap : s.range4k = false → ∀ q < b.numPages, s.pteBits .read q = true →
          b.pagesOfBig s.bigPtes q = true := fun h4k q hq hr =>
        (h.mapped h2m q hq hr).resolve_right (by simp [h4k])
      have hrangeBig : ∀ q, b.pagesOfBig s.bigPtes q = true → s.rangeBig = true := fun q hq => by
        unfold pagesOfBig at hq
        cases hidx : b.bigPageIndex q with
        | none => simp [hidx] at hq
        | some i =>
          simp only [hidx] at hq
          exact (h.bigPtes i hq).2
      have hno2m : new.pteIs2m = false := by
        by_contra hc
        have := (computeNewPteState_is2m s none (s.pteBits .read) (fun _ => true) canMapBig
          (by simpa using hc)).1
        simp [hsup] at this
      refine ⟨fun hc => by simp [hno2m] at hc, fun _ hsome => ?_, fun _ hneed => ?_, fun i hi => ?_⟩
      · by_contra hc
        have hnone : s.rangeBig = false := by simpa using hc
        have hold : ∀ i, s.bigPtes i = false := fun i => by
          by_contra hc'
          have := (h.bigPtes i (by simpa using hc')).2
          simp [hnone] at this
        obtain ⟨i, -, hi⟩ := bigEmpty_eq_false.mp hsome
        have hempty := computeUnmap_bigPtes hsup h2m hnone hold (fun _ => true) canMapBig
          hmaps i
        exact absurd (hempty.symm.trans hi) (by simp)
      · by_contra hc
        have h4k : s.range4k = false := by simpa using hc
        -- a mapped page has a big PTE, so it lies in a big page of the block
        have hindexed : ∀ q < b.numPages, s.pteBits .read q = true →
            b.bigPageIndex q ≠ none := fun q hq hr hnone => by
          have := hmap h4k q hq hr
          simp [pagesOfBig, hnone] at this
        have houter : b.bigPageRegionAll.outer ≤ b.numPages := by
          have : b.outerBig ≤ b.start + b.numPages := Nat.div_mul_le_self _ _
          unfold bigPageRegionAll
          split
          · exact Nat.zero_le _
          · simp only
            omega
        simp only [new, blockGpuComputeNewPteState] at hneed
        rw [if_neg hf, if_neg (by simp [hsup])] at hneed
        split at hneed
        · next hempty =>
          apply hindexed p hp hread
          unfold bigPageIndex
          rw [if_pos]
          omega
        · next hregion =>
          simp only [Bool.or_eq_true, List.any_eq_true, List.mem_range] at hneed
          rcases hneed with (⟨i, hi, hsome⟩ | hbefore) | hbehind
          · -- a covered big page is unmapped as a whole
            rw [Bool.and_eq_true, Bool.not_eq_true'] at hsome
            obtain ⟨hcov, hnot⟩ := hsome
            have hcov' := hcov
            rw [Bool.and_eq_true] at hcov'
            obtain ⟨q, hq1, hq2, hqread⟩ := anyIn_eq_true.mp hcov'.2
            have hq : q < b.numPages := by
              have hof := b.mem_bigPageRegion.mp ⟨hq1, hq2⟩
              have hnum := b.numBigPages_eq
              have := (b.bigOf_lt_hiBig_iff q).mp (by omega)
              have : b.outerBig ≤ b.start + b.numPages := Nat.div_mul_le_self _ _
              omega
            have hbig := hrangeBig q (hmap h4k q hq hqread)
            have hall : fullIn (b.bigPageRegion i) (fun _ => true) = true :=
              fullIn_eq_true.mpr fun _ _ _ => rfl
            rw [hcov, hall, hbig] at hnot
            simp at hnot
          · obtain ⟨q, -, hq, hqread⟩ := anyIn_eq_true.mp hbefore
            apply hindexed q (by simp only at hq; omega) hqread
            unfold bigPageIndex
            rw [if_pos (Or.inl hq)]
          · obtain ⟨q, hq1, hq2, hqread⟩ := anyIn_eq_true.mp hbehind
            apply hindexed q hq2 hqread
            unfold bigPageIndex
            rw [if_pos (Or.inr hq1)]
      · simp only [new, blockGpuComputeNewPteState] at hi ⊢
        rw [if_neg hf, if_neg (by simp [hsup])] at hi ⊢
        split at hi
        · simp [NewPteState.start] at hi
        · next hregion =>
          rw [if_neg hregion]
          have hall : fullIn (b.bigPageRegion i) (fun _ => true) = true :=
            fullIn_eq_true.mpr fun _ _ _ => rfl
          simp only at hi ⊢
          rw [hi, hall]
          rfl

private theorem unmapAll_push (h : s.MapsInv b) (hmaps : s.mapsPages b = true) (io : PteInput)
    (hforce : s.force4kPtes = true → s.range4k = true) :
    ∃ t : PteState, (∀ size, t.hasRange size = s.hasRange size) ∧
      ∀ alloc before after, uvmVaBlockUnmapGpu b
        { io with alloc := alloc, beforeSwizzle := before, afterSwizzle := after } allPages s =
        if io.beginPush ≠ .ok then (io.beginPush, s) else (io.addPush, t) := by
  obtain ⟨h2m, hbig, h4k, hcovered⟩ := planAll h hmaps io.canMapBig hforce
  obtain ⟨p, -, hp, hread⟩ := anyIn_eq_true.mp hmaps
  have htables : s.hasPageTables = true := by
    simp only [hasPageTables, Bool.or_eq_true]
    rcases h.tables_of_mapped hp hread with h2 | ⟨-, hbig | h4k⟩
    · exact Or.inr h2
    · exact Or.inl (Or.inr hbig)
    · exact Or.inl (Or.inl h4k)
  have his2m := computeNewPteState_is2m (b := b) s none (s.pteBits .read) (fun _ => true)
    io.canMapBig
  obtain ⟨new, hnew⟩ : ∃ new, blockGpuComputeNewPteState b s none (s.pteBits .read)
      (fun _ => true) io.canMapBig = new := ⟨_, rfl⟩
  rw [hnew] at h2m hbig h4k hcovered his2m
  have halloc : ∀ alloc, blockAllocPtesNewState b alloc new s = (.ok, s) := fun alloc => by
    apply allocPtes_of_hasRange
    intro size hsize
    simp only [allocSizes, Bool.or_eq_true, Bool.and_eq_true, decide_eq_true_eq] at hsize
    rcases hsize with hsize | ⟨hsup, rfl⟩
    · cases size with
      | two => exact h2m hsize
      | big =>
        simp only [Bool.and_eq_true, Bool.not_eq_true'] at hsize
        exact hbig hsize.1 hsize.2
      | small =>
        simp only [Bool.and_eq_true, Bool.not_eq_true'] at hsize
        exact h4k hsize.1 hsize.2
    · exact (h.tables_of_mapped hp hread).resolve_right (by simp [hsup])
  -- nothing is mapped in part, so nothing is deswizzled
  have hswizzle : ∀ io' : PteInput, blockGpuChangeSwizzlingUnmap b io' new s = (.ok, s) := by
    intro io'
    have hbits : (fun i => new.bigPtesCovered i && !new.bigPtesFullyUnmapped i && s.bigPtes i) =
        fun _ => false := by
      funext i
      cases hi : new.bigPtesCovered i with
      | false => rfl
      | true => simp [hcovered i hi]
    unfold blockGpuChangeSwizzlingUnmap
    rw [hbits]
    rfl
  have hshape := pushUnmapping_shape (b := b) (s := s) io (s.pteBits .read) new
  refine ⟨{ PteState.apply (pushUnmapping b io s (s.pteBits .read) new) with
    pteBits := fun c p => (PteState.apply (pushUnmapping b io s (s.pteBits .read) new)).pteBits c p &&
      !s.pteBits .read p }, fun size => ?_, ?_⟩
  · have := hshape.ranges size
    cases size <;> exact this
  · intro alloc before after
    rw [unmapAll_eq _ htables hmaps]
    have hpush : unmapPages b
        { io with alloc := alloc, beforeSwizzle := before, afterSwizzle := after }
        (s.pteBits .read) (fun _ => true) s =
        if io.beginPush ≠ .ok then (io.beginPush, s)
        else (.ok, PteState.apply (pushUnmapping b io s (s.pteBits .read) new)) := by
      unfold unmapPages
      simp only [hnew, halloc, hswizzle, ne_eq, not_true_eq_false, ite_self]
      rfl
    rw [hpush]
    by_cases hbegin : io.beginPush = .ok
    · simp [hbegin]
    · simp [hbegin]

private theorem unmapAll_fails (h : s.MapsInv b) (hmaps : s.mapsPages b = true)
    (hforce : s.force4kPtes = true) (h4k : s.range4k = false) (io : PteInput)
    (status : NvStatus) (hfail : status ≠ .ok ∧ status ≠ .errMoreProcessingRequired) :
    (uvmVaBlockUnmapGpu b { io with alloc := fun _ => status } allPages s).1 = status := by
  obtain ⟨p, -, hp, hread⟩ := anyIn_eq_true.mp hmaps
  have htables := h.tables_of_mapped hp hread
  have hpages : s.hasPageTables = true := by
    simp only [hasPageTables, Bool.or_eq_true]
    rcases htables with h2 | ⟨-, hbig | h4k⟩
    · exact Or.inr h2
    · exact Or.inl (Or.inr hbig)
    · exact Or.inl (Or.inl h4k)
  have hnew : blockGpuComputeNewPteState b s none (s.pteBits .read) (fun _ => true)
      io.canMapBig = .start := if_pos hforce
  have hempty : bigEmpty (fun _ => false) = true := by simp [bigEmpty]
  have halloc : (blockAllocPtesNewState b (fun _ => status) .start s).1 = status := by
    simp only [blockAllocPtesNewState, blockAllocPtesWithRetry, NewPteState.start, allocPtesLoop,
      hasRange, hempty]
    cases hsup : b.supports2m <;> cases status <;> simp_all
  rw [unmapAll_eq _ hpages hmaps]
  unfold unmapPages
  simp [hnew, halloc, hfail.1]

/-- The GPU maps pages of the block, has to use 4k PTEs for them, and has no table of such. -/
def PteState.unmapNeeds4k (b : GpuBlock) (s : PteState) : Prop :=
  s.mapsPages b = true ∧ s.force4kPtes = true ∧ s.range4k = false

theorem PteState.MapsInv.unmaps_iff (h : s.MapsInv b) : s.UnmapsAlone b ↔ ¬ s.unmapNeeds4k b := by
  constructor
  · rintro halone ⟨hmaps, hforce, h4k⟩
    have io : PteInput :=
      { resident := fun _ => true, toMap := fun _ => cpuId, canMapBig := fun _ => false
        swizzled := fun _ => false, alloc := fun _ => .ok, beginPush := .ok, addPush := .ok
        beforeSwizzle := fun _ => .ok, afterSwizzle := fun _ => .ok }
    have hfail := unmapAll_fails h hmaps hforce h4k { io with beginPush := .ok, addPush := .ok }
      .errNoMemory (by simp)
    have := halone.status { io with beginPush := .ok, addPush := .ok, alloc := fun _ => .errNoMemory }
    rw [hfail] at this
    simp at this
  · intro hneed
    by_cases hmaps : s.mapsPages b = true
    · have hforce : s.force4kPtes = true → s.range4k = true := fun hf => by
        by_contra hc
        exact hneed ⟨hmaps, hf, by simpa using hc⟩
      refine ⟨fun io size => ?_, fun io alloc before after => ?_, fun io => ?_⟩
      · obtain ⟨t, hranges, heq⟩ := unmapAll_push h hmaps io hforce
        rw [heq io.alloc io.beforeSwizzle io.afterSwizzle]
        split
        · rfl
        · exact hranges size
      · obtain ⟨t, -, heq⟩ := unmapAll_push h hmaps io hforce
        rw [heq, ← heq io.alloc io.beforeSwizzle io.afterSwizzle]
      · obtain ⟨t, -, heq⟩ := unmapAll_push h hmaps io hforce
        rw [heq io.alloc io.beforeSwizzle io.afterSwizzle]
        split
        · exact Or.inr (Or.inl rfl)
        · exact Or.inr (Or.inr rfl)
    · have hself := fun io => unmapAll_eq_self (b := b) io (Or.inr (by simpa using hmaps))
      exact ⟨fun io size => by rw [hself], fun io _ _ _ => by rw [hself, hself],
        fun io => Or.inl (by rw [hself])⟩

/-- **Unmapping a whole block in every reachable state**: the unmap needs nothing but its push
unless the GPU maps pages, is forced to use 4k PTEs, and has no table of 4k PTEs. -/
theorem unmapsAlone_iff (b : GpuBlock) (ops : List (ℕ × PteOp)) :
    ∀ q ∈ run pteStep [(b, .fresh)] ops, q.2.UnmapsAlone q.1 ↔ ¬ q.2.unmapNeeds4k q.1 :=
  fun q hq => (run_mapsInv b ops q hq).unmaps_iff

/-- The theorem at a block that one page is mapped of. -/
theorem unmapsAlone_iff_onePage : ∃ q ∈ run pteStep [(block2m, .fresh)]
        [(0, .map onGpu1 ⟨1, by decide⟩ (fun p => decide (p = 0)) .readWrite)],
      q.2.UnmapsAlone q.1 ↔ ¬ q.2.unmapNeeds4k q.1 :=
  ⟨_, List.mem_singleton_self _, unmapsAlone_iff block2m
    [(0, .map onGpu1 ⟨1, by decide⟩ (fun p => decide (p = 0)) .readWrite)] _
    (List.mem_singleton_self _)⟩

/-- A block mapped by a 2M PTE for which `uvm_va_block_set_cancel` could not allocate the table
of 4k PTEs: the unmap of the whole block needs that table. -/
theorem failed_cancel_unmap_allocates : ¬ ∀ q ∈ run pteStep [(block2m, .fresh)]
        [(0, .map onGpu1 ⟨1, by decide⟩ allPages .readWrite),
          (0, .cancel { onGpu1 with alloc := fun _ => .errNoMemory })],
      q.2.UnmapsAlone q.1 := by
  intro h
  have hstat := (h _ (List.mem_singleton_self _)).status
    { onGpu1 with alloc := fun _ => .errNoMemory }
  exact absurd hstat (by decide +kernel)

end NvUvm
