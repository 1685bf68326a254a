import NvUvm.GpuPteOps
import NvUvm.Lib.Run

/-!
# Page tables and what is kept about them

The flags `initialized_big`, `activated_big` and `activated_4k` of a block's GPU state are set
where tables are written and linked.
-/

namespace NvUvm

open GpuBlock Lib

/-- The 2M entry points to the table of big PTEs. -/
def TopEntry.linksBig : TopEntry → Bool
  | .pde big _ => big
  | _ => false

def TopEntry.links4k : TopEntry → Bool
  | .pde _ small => small
  | _ => false

namespace PteState

variable (b : GpuBlock) (s : PteState)

/-- The table of big PTEs is one the code takes for active. -/
def usableBig : Bool := s.rangeBig && (s.activatedBig || !b.supports2m)

/-- The table of 4k PTEs is one the code takes for active. -/
def usable4k : Bool := s.range4k && (s.activated4k || !b.supports2m)

/-- **The bookkeeping is true of the tables**: what the flags say holds of the tables that are
allocated now, no walk of the MMU meets an entry that was not written, and every table with a
valid PTE is linked. -/
structure TablesTrue : Prop where
  initialized : s.initializedBig = true →
    s.rangeBig = true ∧ ∀ i < b.numBigPages, s.mem.big i ≠ none
  activatedBig : s.pteIs2m = false → s.activatedBig = true →
    s.rangeBig = true ∧ s.mem.top.linksBig = true
  activated4k : s.pteIs2m = false → s.activated4k = true →
    s.range4k = true ∧ s.mem.top.links4k = true
  -- only a block with a 2M entry of its own links its tables later
  linkedBig : b.supports2m = false → s.rangeBig = true → s.mem.top.linksBig = true
  linked4k : b.supports2m = false → s.range4k = true → s.mem.top.links4k = true
  written : ∀ p < b.numPages, s.mem.walk b p ≠ .garbage
  validBig : s.pteIs2m = false → s.rangeBig = true →
    ∀ i < b.numBigPages, ∀ m, s.mem.big i = some (.valid m) → s.mem.top.linksBig = true
  valid4k : s.pteIs2m = false → s.range4k = true →
    ∀ p < b.numPages, ∀ m, s.mem.small p = some (.valid m) → s.mem.top.links4k = true

/-- What holds of the tables and flags as long as no flag outlives its table. -/
structure TablesInv : Prop where
  is2m : s.pteIs2m = true → b.supports2m = true ∧ s.range2m = true ∧
    (∀ i, s.bigPtes i = false) ∧ ∀ x y, s.mem.top ≠ .pde x y
  range2m : b.supports2m = true → s.rangeBig = true ∨ s.range4k = true → s.range2m = true
  activatedBig : s.activatedBig = true → s.rangeBig = true
  activated4k : s.activated4k = true → s.range4k = true
  initialized : s.initializedBig = true →
    s.rangeBig = true ∧ ∀ i < b.numBigPages, s.mem.big i ≠ none
  top : s.pteIs2m = false → s.mem.top = .pde (s.usableBig b) (s.usable4k b)
  usable : s.pteIs2m = false → s.usableBig b = true → s.initializedBig = true
  unusedBig : s.pteIs2m = false → s.rangeBig = true → s.usableBig b = false →
    ∀ i, s.mem.big i = none
  unused4k : s.pteIs2m = false → s.range4k = true → s.usable4k b = false →
    ∀ p, s.mem.small p = none
  bigPtes : ∀ i, s.bigPtes i = true → i < b.numBigPages ∧ s.usableBig b = true ∧
    s.mem.big i ≠ some .invalid
  small : s.pteIs2m = false → s.usable4k b = true →
    ∀ p < b.numPages, b.pagesOfBig s.bigPtes p = false → s.mem.small p ≠ none
  allBig : b.supports2m = true → s.pteIs2m = false → s.range2m = true → s.usable4k b = false →
    ∀ i < maxBigPages, s.bigPtes i = true

end PteState

open PteState

variable {b : GpuBlock} {s : PteState}

theorem PteState.TablesInv.tablesTrue (h : s.TablesInv b) : s.TablesTrue b where
  initialized := h.initialized
  activatedBig := fun h2m hact => by
    have hrange := h.activatedBig hact
    exact ⟨hrange, by simp [h.top h2m, TopEntry.linksBig, usableBig, hrange, hact]⟩
  activated4k := fun h2m hact => by
    have hrange := h.activated4k hact
    exact ⟨hrange, by simp [h.top h2m, TopEntry.links4k, usable4k, hrange, hact]⟩
  linkedBig := fun hno hrange => by
    have h2m : s.pteIs2m = false := by
      by_contra hc
      have := (h.is2m (by simpa using hc)).1
      simp [hno] at this
    simp [h.top h2m, TopEntry.linksBig, usableBig, hrange, hno]
  linked4k := fun hno hrange => by
    have h2m : s.pteIs2m = false := by
      by_contra hc
      have := (h.is2m (by simpa using hc)).1
      simp [hno] at this
    simp [h.top h2m, TopEntry.links4k, usable4k, hrange, hno]
  written := fun p hp => by
    cases h2m : s.pteIs2m with
    | true =>
      have hno := (h.is2m h2m).2.2.2
      unfold PteMemory.walk
      cases htop : s.mem.top with
      | pde x y => exact absurd htop (hno x y)
      | _ => simp
    | false =>
      have hsmall : b.pagesOfBig s.bigPtes p = false →
          s.mem.walkSmall (s.usable4k b) p ≠ .garbage := fun hp4k => by
        unfold PteMemory.walkSmall
        cases h4k : s.usable4k b with
        | false => simp
        | true =>
          have := h.small h2m h4k p hp hp4k
          cases hpte : s.mem.small p with
          | none => exact absurd hpte this
          | some v => cases v <;> simp
      unfold PteMemory.walk
      rw [h.top h2m]
      cases hbig : s.usableBig b with
      | false =>
        have hnone : ∀ i, s.bigPtes i = false := fun i => by
          by_contra hc
          have := (h.bigPtes i (by simpa using hc)).2.1
          simp [hbig] at this
        refine hsmall ?_
        unfold pagesOfBig
        cases b.bigPageIndex p <;> simp [hnone]
      | true =>
        cases hidx : b.bigPageIndex p with
        | none => exact hsmall (by simp [pagesOfBig, hidx])
        | some i =>
          have hi := (b.bigPageIndex_eq_some.mp hidx).2
          have hwritten := (h.initialized (h.usable h2m hbig)).2 i hi
          simp only [if_true]
          cases hpte : s.mem.big i with
          | none => exact absurd hpte hwritten
          | some v =>
            cases v with
            | invalid =>
              -- the MMU goes on only where the big PTE is not the one in use
              have : s.bigPtes i = false := by
                by_contra hc
                exact (h.bigPtes i (by simpa using hc)).2.2 hpte
              exact hsmall (by simp [pagesOfBig, hidx, this])
            | _ => simp
  validBig := fun h2m hrange i _ m hm => by
    cases hbig : s.usableBig b with
    | true => simp [h.top h2m, TopEntry.linksBig, hbig]
    | false =>
      have := h.unusedBig h2m hrange hbig i
      simp [this] at hm
  valid4k := fun h2m hrange p _ m hm => by
    cases h4k : s.usable4k b with
    | true => simp [h.top h2m, TopEntry.links4k, h4k]
    | false =>
      have := h.unused4k h2m hrange h4k p
      simp [this] at hm

theorem fresh_tablesInv : PteState.fresh.TablesInv b := by
  constructor <;> simp [PteState.fresh, usableBig, usable4k]

/-! ## Allocations -/

theorem PteState.TablesInv.bigPtes_eq_false (h : s.TablesInv b)
    (hbig : s.usableBig b = false) (i : ℕ) : s.bigPtes i = false := by
  by_contra hc
  have := (h.bigPtes i (by simpa using hc)).2.1
  simp [hbig] at this

private theorem pagesOfBig_of_none {mask : BigMask} (h : ∀ i, mask i = false) (p : ℕ) :
    b.pagesOfBig mask p = false := by
  unfold pagesOfBig
  cases b.bigPageIndex p <;> simp [h]

theorem PteState.TablesInv.not_2m (h : s.TablesInv b) (hsup : b.supports2m = false) :
    s.pteIs2m = false := by
  by_contra hc
  simpa [hsup] using (h.is2m (by simpa using hc)).1

private theorem PteState.TablesInv.not_initialized (h : s.TablesInv b)
    (hbig : s.rangeBig = false) : s.initializedBig = false := by
  by_contra hc
  simpa [hbig] using (h.initialized (by simpa using hc)).1

private theorem PteState.TablesInv.not_activatedBig (h : s.TablesInv b)
    (hbig : s.rangeBig = false) : s.activatedBig = false := by
  by_contra hc
  simpa [hbig] using h.activatedBig (by simpa using hc)

private theorem PteState.TablesInv.not_activated4k (h : s.TablesInv b)
    (h4k : s.range4k = false) : s.activated4k = false := by
  by_contra hc
  simpa [h4k] using h.activated4k (by simpa using hc)

private theorem allocTwo_inv (h : s.TablesInv b) (h2m : b.supports2m = true)
    (hnew : s.range2m = false) : (allocPtRange b s .two).TablesInv b := by
  have hlower : s.rangeBig = false ∧ s.range4k = false := by
    have := mt (h.range2m h2m)
    simpa [hnew] using this
  have hnone := h.bigPtes_eq_false (by simp [usableBig, hlower])
  exact
    { is2m := fun _ => ⟨h2m, rfl, hnone, by simp [allocPtRange]⟩
      range2m := fun _ _ => rfl
      activatedBig := h.activatedBig
      activated4k := h.activated4k
      initialized := h.initialized
      top := by simp [allocPtRange]
      usable := by simp [allocPtRange]
      unusedBig := by simp [allocPtRange]
      unused4k := by simp [allocPtRange]
      bigPtes := by simp [allocPtRange, hnone]
      small := by simp [allocPtRange]
      allBig := by simp [allocPtRange] }

private theorem allocBig_inv (h : s.TablesInv b) (h2m : b.supports2m = true → s.range2m = true)
    (hnew : s.rangeBig = false) : (allocPtRange b s .big).TablesInv b := by
  have hnone := h.bigPtes_eq_false (by simp [usableBig, hnew])
  have hact := h.not_activatedBig hnew
  have hinit := h.not_initialized hnew
  have hpages := pagesOfBig_of_none (b := b) hnone
  cases hsup : b.supports2m with
  | true =>
    -- the new table is neither written nor linked
    have htop : s.pteIs2m = false → s.mem.top = .pde false (s.usable4k b) := by
      simpa [usableBig, hnew] using h.top
    have h4k : (allocPtRange b s .big).usable4k b = s.usable4k b := by
      simp [allocPtRange, hsup, usable4k]
    have hbig : (allocPtRange b s .big).usableBig b = false := by
      simp [allocPtRange, hsup, usableBig, hact]
    exact
      { is2m := by simpa [allocPtRange, hsup] using h.is2m
        range2m := by simpa [allocPtRange, hsup] using h2m hsup
        activatedBig := by simp [allocPtRange, hsup]
        activated4k := by simpa [allocPtRange, hsup] using h.activated4k
        initialized := by simp [allocPtRange, hsup, hinit]
        top := by rw [hbig, h4k]; simpa [allocPtRange, hsup] using htop
        usable := by simp [hbig]
        unusedBig := by simp [allocPtRange, hsup]
        unused4k := by rw [h4k]; simpa [allocPtRange, hsup] using h.unused4k
        bigPtes := by simp [allocPtRange, hsup, hnone]
        small := by
          rw [h4k]
          simpa [allocPtRange, hsup] using h.small
        allBig := by
          rw [h4k]
          simpa [allocPtRange, hsup] using h.allBig }
  | false =>
    -- `uvm_page_tree_get_ptes` writes and links the table
    have hno := h.not_2m hsup
    have h4k : (allocPtRange b s .big).usable4k b = s.range4k := by
      simp [allocPtRange, hsup, usable4k]
    have h4k' : s.usable4k b = s.range4k := by simp [usable4k, hsup]
    have hbig : (allocPtRange b s .big).usableBig b = true := by
      simp [allocPtRange, hsup, usableBig]
    exact
      { is2m := by simp [allocPtRange, hsup, hno]
        range2m := by simp [hsup]
        activatedBig := by simp [allocPtRange, hsup]
        activated4k := by simpa [allocPtRange, hsup] using h.activated4k
        initialized := by simp [allocPtRange, hsup]
        top := by rw [hbig, h4k]; simp [allocPtRange, hsup]
        usable := by simp [allocPtRange, hsup]
        unusedBig := by simp [hbig]
        unused4k := by rw [h4k]; simp +contextual [allocPtRange, hsup]
        bigPtes := by simp [allocPtRange, hsup, hnone]
        small := by
          rw [h4k]
          have := h.small hno
          simpa [allocPtRange, hsup, hno, h4k'] using this
        allBig := by simp [hsup] }

private theorem allocSmall_inv (h : s.TablesInv b) (h2m : b.supports2m = true → s.range2m = true)
    (hnew : s.range4k = false) : (allocPtRange b s .small).TablesInv b := by
  have hact := h.not_activated4k hnew
  have h4k' : s.usable4k b = false := by simp [usable4k, hnew]
  have hbig : (allocPtRange b s .small).usableBig b = s.usableBig b := by
    cases hsup : b.supports2m <;> simp [allocPtRange, hsup, usableBig]
  cases hsup : b.supports2m with
  | true =>
    have h4k : (allocPtRange b s .small).usable4k b = false := by
      simp [allocPtRange, hsup, usable4k, hact]
    have htop := h.top
    rw [h4k'] at htop
    exact
      { is2m := by simpa [allocPtRange, hsup] using h.is2m
        range2m := by simpa [allocPtRange, hsup] using h2m hsup
        activatedBig := by simpa [allocPtRange, hsup] using h.activatedBig
        activated4k := by simp [allocPtRange, hsup]
        initialized := by simpa [allocPtRange, hsup] using h.initialized
        top := by rw [hbig, h4k]; simpa [allocPtRange, hsup] using htop
        usable := by rw [hbig]; simpa [allocPtRange, hsup] using h.usable
        unusedBig := by rw [hbig]; simpa [allocPtRange, hsup] using h.unusedBig
        unused4k := by simp [allocPtRange, hsup]
        bigPtes := by rw [hbig]; simpa [allocPtRange, hsup] using h.bigPtes
        small := by simp [h4k]
        allBig := fun _ h1 h2 _ => by
          simp only [allocPtRange, hsup] at h1 h2 ⊢
          exact h.allBig hsup h1 h2 h4k' }
  | false =>
    have hno := h.not_2m hsup
    have h4k : (allocPtRange b s .small).usable4k b = true := by
      simp [allocPtRange, hsup, usable4k]
    exact
      { is2m := by simp [allocPtRange, hsup, hno]
        range2m := by simp [hsup]
        activatedBig := by simpa [allocPtRange, hsup] using h.activatedBig
        activated4k := by simp [allocPtRange, hsup]
        initialized := by simpa [allocPtRange, hsup] using h.initialized
        top := by
          rw [hbig, h4k]
          simp [allocPtRange, hsup, usableBig]
        usable := by rw [hbig]; simpa [allocPtRange, hsup] using h.usable
        unusedBig := by rw [hbig]; simpa [allocPtRange, hsup] using h.unusedBig
        unused4k := by simp [h4k]
        bigPtes := by rw [hbig]; simpa [allocPtRange, hsup] using h.bigPtes
        small := by simp [allocPtRange, hsup]
        allBig := by simp [hsup] }

/-- What an allocation of page table ranges does to the software state: the requested ranges
are there if it succeeds, other ranges are not touched, and what the PTEs are is not changed. -/
structure AllocSpec (b : GpuBlock) (pageSizes : PteSize → Bool) (l : List PteSize)
    (s : PteState) (r : NvStatus × PteState) : Prop where
  inv : s.TablesInv b → r.2.TablesInv b
  allocated : r.1 = .ok → ∀ size ∈ l, pageSizes size = true → r.2.hasRange size = true
  kept : ∀ size, s.hasRange size = true → r.2.hasRange size = true
  untouched : ∀ size, pageSizes size = false → r.2.hasRange size = s.hasRange size
  bigPtes : r.2.bigPtes = s.bigPtes
  pteBits : r.2.pteBits = s.pteBits
  force4kPtes : r.2.force4kPtes = s.force4kPtes
  activatedBig : r.2.activatedBig = s.activatedBig
  activated4k : r.2.activated4k = s.activated4k
  pteIs2m : r.2.pteIs2m = (s.pteIs2m || (r.2.range2m && !s.range2m))
  initializedBig : r.2.rangeBig = s.rangeBig → r.2.initializedBig = s.initializedBig
  initialized_mono : s.initializedBig = true → r.2.initializedBig = true
  lower2m : (b.supports2m = true → s.rangeBig = true ∨ s.range4k = true → s.range2m = true) →
    b.supports2m = true → r.2.rangeBig = true ∨ r.2.range4k = true → r.2.range2m = true

variable {pageSizes : PteSize → Bool} {i : ℕ} {new : NewPteState}

private theorem AllocSpec.refl {l : List PteSize} {status : NvStatus}
    (hl : status = .ok → ∀ size ∈ l, pageSizes size = true → s.hasRange size = true) :
    AllocSpec b pageSizes l s (status, s) where
  inv := id
  allocated := hl
  kept := fun _ => id
  untouched := fun _ _ => rfl
  bigPtes := rfl
  pteBits := rfl
  force4kPtes := rfl
  activatedBig := rfl
  activated4k := rfl
  pteIs2m := by simp
  initializedBig := fun _ => rfl
  initialized_mono := id
  lower2m := id

private theorem allocPtRange_frame (size : PteSize) :
    (∀ size', (allocPtRange b s size).hasRange size' =
        (s.hasRange size' || decide (size' = size))) ∧
      (allocPtRange b s size).bigPtes = s.bigPtes ∧
      (allocPtRange b s size).pteBits = s.pteBits ∧
      (allocPtRange b s size).force4kPtes = s.force4kPtes ∧
      (allocPtRange b s size).activatedBig = s.activatedBig ∧
      (allocPtRange b s size).activated4k = s.activated4k ∧
      (allocPtRange b s size).pteIs2m = (s.pteIs2m || decide (size = .two)) ∧
      (size ≠ .big → (allocPtRange b s size).initializedBig = s.initializedBig) ∧
      (s.initializedBig = true → (allocPtRange b s size).initializedBig = true) := by
  cases size <;> cases hsup : b.supports2m <;>
    refine ⟨fun size' => ?_, ?_⟩ <;>
    first
      | (cases size' <;> simp [allocPtRange, hsup, hasRange])
      | simp [allocPtRange, hsup]

private theorem AllocSpec.alloc {l : List PteSize} {size : PteSize} {r : NvStatus × PteState}
    (hsize : pageSizes size = true) (hnew : s.hasRange size = false)
    (h2level : size ≠ .two → b.supports2m = true → s.range2m = true)
    (hinv : s.TablesInv b → (allocPtRange b s size).TablesInv b)
    (h : AllocSpec b pageSizes l (allocPtRange b s size) r) :
    AllocSpec b pageSizes (size :: l) s r := by
  obtain ⟨hrange, hbig, hbits, hforce, hactBig, hact4k, h2m, hinit, hmono⟩ :=
    allocPtRange_frame (b := b) (s := s) size
  exact
    { inv := fun hs => h.inv (hinv hs)
      allocated := fun hok size' hmem hsize' => by
        rcases List.mem_cons.mp hmem with rfl | hmem
        · exact h.kept _ (by simp [hrange])
        · exact h.allocated hok size' hmem hsize'
      kept := fun size' hkept => h.kept _ (by simp [hrange, hkept])
      untouched := fun size' hsize' => by
        have hne : size' ≠ size := fun heq => by simp [heq, hsize] at hsize'
        rw [h.untouched size' hsize', hrange]
        simp [hne]
      bigPtes := h.bigPtes.trans hbig
      pteBits := h.pteBits.trans hbits
      force4kPtes := h.force4kPtes.trans hforce
      activatedBig := h.activatedBig.trans hactBig
      activated4k := h.activated4k.trans hact4k
      pteIs2m := by
        have h2 : (allocPtRange b s size).range2m = (s.range2m || decide (size = .two)) := by
          simpa [hasRange, eq_comm] using hrange .two
        rw [h.pteIs2m, h2m, h2]
        by_cases htwo : size = .two
        · subst htwo
          have hr : r.2.range2m = true := h.kept .two (by simp [hrange])
          have hs : s.range2m = false := hnew
          simp [hr, hs]
        · simp [htwo]
      initializedBig := fun heq => by
        by_cases hb : size = .big
        · subst hb
          have hr : r.2.rangeBig = true := h.kept .big (by simp [hrange])
          have hs : s.rangeBig = false := hnew
          simp [hr, hs] at heq
        · have h2 : (allocPtRange b s size).rangeBig = s.rangeBig := by
            simpa [hasRange, Ne.symm hb] using hrange .big
          rw [h.initializedBig (by rw [heq, h2]), hinit hb]
      initialized_mono := fun hi => h.initialized_mono (hmono hi)
      lower2m := fun hs => h.lower2m fun hsup hlower => by
        have h2 : (allocPtRange b s size).range2m = (s.range2m || decide (size = .two)) := by
          simpa [hasRange, eq_comm] using hrange .two
        rw [h2, Bool.or_eq_true, decide_eq_true_eq]
        by_cases htwo : size = .two
        · exact Or.inr htwo
        · exact Or.inl (h2level htwo hsup) }

private theorem allocPtesLoop_spec (alloc : PteSize → NvStatus)
    (hsizes : pageSizes .two = true → b.supports2m = true) (l : List PteSize)
    (finalStatus : NvStatus) (s : PteState) (hl : b.supports2m = true →
      s.range2m = true ∨ l.head? = some .two ∧ pageSizes .two = true) :
    AllocSpec b pageSizes l s (allocPtesLoop b alloc pageSizes l finalStatus s) := by
  induction l generalizing finalStatus s with
  | nil => exact AllocSpec.refl (by simp)
  | cons size rest ih =>
    unfold allocPtesLoop
    split
    · next hskip =>
      -- nothing to allocate for this size
      have hhas : pageSizes size = true → s.hasRange size = true := fun h => by
        simpa [h] using hskip
      have hrest := ih finalStatus s fun hsup => by
        rcases hl hsup with h | ⟨hhead, htwo⟩
        · exact Or.inl h
        · cases hhead
          exact Or.inl (hhas htwo)
      exact { hrest with
        allocated := fun hok size' hmem hsize' => by
          rcases List.mem_cons.mp hmem with rfl | hmem
          · exact hrest.kept _ (hhas hsize')
          · exact hrest.allocated hok size' hmem hsize' }
    · next hgo =>
      simp only [Bool.or_eq_true, Bool.not_eq_eq_eq_not, Bool.not_true, not_or,
        Bool.not_eq_false, Bool.not_eq_true] at hgo
      obtain ⟨hsize, hnew⟩ := hgo
      -- below the 2M level, that level is there
      have h2m : size ≠ .two → b.supports2m = true → s.range2m = true := fun hne hsup => by
        rcases hl hsup with h | ⟨hhead, -⟩
        · exact h
        · cases hhead
          exact absurd rfl hne
      have hinv : s.TablesInv b → (allocPtRange b s size).TablesInv b := fun hs => by
        cases size with
        | two => exact allocTwo_inv hs (hsizes hsize) hnew
        | big => exact allocBig_inv hs (h2m (by simp)) hnew
        | small => exact allocSmall_inv hs (h2m (by simp)) hnew
      have hnext : b.supports2m = true → (allocPtRange b s size).range2m = true ∨
          rest.head? = some .two ∧ pageSizes .two = true := fun hsup => by
        left
        have hrange := (allocPtRange_frame (b := b) (s := s) size).1 .two
        by_cases htwo : size = .two
        · simpa [hasRange, htwo] using hrange
        · simpa [hasRange, h2m htwo hsup] using hrange
      split
      · exact (ih _ _ hnext).alloc hsize hnew h2m hinv
      · exact (ih _ _ hnext).alloc hsize hnew h2m hinv
      · next hne _ => exact AllocSpec.refl fun hok => absurd hok hne

/-- The page sizes that `block_alloc_ptes_with_retry` allocates. -/
def allocSizes (b : GpuBlock) (pageSizes : PteSize → Bool) : PteSize → Bool :=
  fun size => pageSizes size || (b.supports2m && decide (size = .two))

theorem blockAllocPtesWithRetry_spec (alloc : PteSize → NvStatus) (pageSizes : PteSize → Bool)
    (hsizes : pageSizes .two = true → b.supports2m = true) (s : PteState) :
    AllocSpec b (allocSizes b pageSizes) [.two, .big, .small] s
      (blockAllocPtesWithRetry b alloc pageSizes s) := by
  apply allocPtesLoop_spec
  · intro h
    simp only [allocSizes, Bool.or_eq_true, Bool.and_eq_true, decide_true, and_true] at h
    exact h.elim hsizes id
  · intro hsup
    exact Or.inr ⟨rfl, by simp [allocSizes, hsup]⟩

/-! ## Pushes -/

/-- Every allocated table is written where the MMU reads it, and linked. -/
structure PteState.Active (b : GpuBlock) (s : PteState) : Prop where
  not2m : s.pteIs2m = false
  range2m : b.supports2m = true → s.rangeBig = true ∨ s.range4k = true → s.range2m = true
  activatedBig : s.activatedBig = true → s.rangeBig = true
  activated4k : s.activated4k = true → s.range4k = true
  active : b.supports2m = true → s.activatedBig = s.rangeBig ∧ s.activated4k = s.range4k
  initialized : s.initializedBig = s.rangeBig
  top : s.mem.top = .pde s.rangeBig s.range4k
  big : s.rangeBig = true → ∀ i < b.numBigPages, s.mem.big i ≠ none
  bigPtes : ∀ i, s.bigPtes i = true →
    i < b.numBigPages ∧ s.rangeBig = true ∧ s.mem.big i ≠ some .invalid
  small : s.range4k = true →
    ∀ p < b.numPages, b.pagesOfBig s.bigPtes p = false → s.mem.small p ≠ none
  allBig : b.supports2m = true → s.range4k = false → ∀ i < maxBigPages, s.bigPtes i = true

theorem PteState.Active.tablesInv (h : s.Active b) : s.TablesInv b := by
  have hbig : s.usableBig b = s.rangeBig := by
    cases hsup : b.supports2m with
    | true => simp [usableBig, hsup, (h.active hsup).1]
    | false => simp [usableBig, hsup]
  have h4k : s.usable4k b = s.range4k := by
    cases hsup : b.supports2m with
    | true => simp [usable4k, hsup, (h.active hsup).2]
    | false => simp [usable4k, hsup]
  exact
    { is2m := by simp [h.not2m]
      range2m := h.range2m
      activatedBig := h.activatedBig
      activated4k := h.activated4k
      initialized := fun hi => by
        rw [h.initialized] at hi
        exact ⟨hi, h.big hi⟩
      top := fun _ => by rw [h.top, hbig, h4k]
      usable := fun _ hu => by rw [h.initialized, ← hbig, hu]
      unusedBig := fun _ hr hu => by simp [hbig, hr] at hu
      unused4k := fun _ hr hu => by simp [h4k, hr] at hu
      bigPtes := by simpa only [hbig] using h.bigPtes
      small := fun _ hu => h.small (by rw [← h4k, hu])
      allBig := fun hsup _ _ hu => h.allBig hsup (by rw [← h4k, hu]) }

/-- What a new set of big PTEs must be for the tables there are. -/
structure NewBigPtes (b : GpuBlock) (s : PteState) (mask : BigMask) : Prop where
  lt : ∀ i, mask i = true → i < b.numBigPages
  range : ∀ i, mask i = true → s.rangeBig = true
  all : b.supports2m = true → s.range4k = false → ∀ i < maxBigPages, mask i = true

theorem bigPteFor_ne_invalid (target : ProcessorId) (prot : Prot) :
    bigPteFor target prot ≠ .invalid := by
  unfold bigPteFor
  split <;> simp

private theorem index_of_uncovered (mask : BigMask) {p : ℕ} (hp : b.pagesOfBig mask p = false)
    (hidx : b.bigPageIndex p = some i) : mask i = false := by
  simpa [pagesOfBig, hidx] using hp

private theorem bigSplitWrite4k_written (toMap : ℕ → ProcessorId) (residentId : Option ProcessorId)
    (newProt : Prot) {covered : BigMask} (pages : PageMask)
    (hcovered : ∀ i, covered i = true → i < b.numBigPages) {p : ℕ}
    (hidx : b.bigPageIndex p = some i) (hi : covered i = true) :
    lastSmall p (blockGpuPteBigSplitWrite4k b s toMap residentId newProt covered pages) ≠ none := by
  rw [lastSmall_bigSplitWrite4k b s toMap residentId newProt covered pages hcovered p, hidx]
  simp [hi]

private theorem finishSplit2m_active (h : s.TablesInv b) (h2m : s.pteIs2m = true)
    {newBigPtes : BigMask} {cmds : List PteCmd} (hnew : NewBigPtes b s newBigPtes)
    (hbig : s.rangeBig = true → ∀ i < maxBigPages, lastBig i cmds ≠ none)
    (hvalid : s.rangeBig = true → ∀ i, newBigPtes i = true →
      lastBig i cmds ≠ none ∧ lastBig i cmds ≠ some .invalid)
    (hsmall : ∀ p i, i < maxBigPages → b.bigPageIndex p = some i → newBigPtes i = false →
      lastSmall p cmds ≠ none) :
    let r := blockGpuPteFinishSplit2m { s with initializedBig := s.initializedBig || s.rangeBig }
    (PteState.apply ({ r.1 with pteIs2m := false, bigPtes := newBigPtes }, cmds ++ r.2)).Active b := by
  have hsup := (h.is2m h2m).1
  have hact : s.activatedBig = true → s.rangeBig = true := h.activatedBig
  have hact4k : s.activated4k = true → s.range4k = true := h.activated4k
  have hinit : s.initializedBig = true → s.rangeBig = true := fun hi => (h.initialized hi).1
  exact
    { not2m := rfl
      range2m := fun _ _ => by simpa [blockGpuWritePde] using (h.is2m h2m).2.1
      activatedBig := by simpa [blockGpuWritePde, or_imp] using hact
      activated4k := by simpa [blockGpuWritePde, or_imp] using hact4k
      active := by simpa [blockGpuWritePde] using fun _ => ⟨hact, hact4k⟩
      initialized := by simpa [blockGpuWritePde] using hinit
      top := by simp [blockGpuWritePde]
      big := fun hr i hi => by
        have hw := hbig hr i (b.numBigPages_of_supports2m hsup ▸ hi)
        cases hl : lastBig i cmds <;> simp_all
      bigPtes := fun i hi => by
        have hr := hnew.range i hi
        refine ⟨hnew.lt i hi, hr, ?_⟩
        have hw := hvalid hr i hi
        cases hl : lastBig i cmds <;> simp_all
      small := fun _ p hp hp4k => by
        obtain ⟨i, hi, hidx⟩ := b.index_of_supports2m hsup hp
        have hw := hsmall p i hi hidx (index_of_uncovered newBigPtes hp4k hidx)
        cases hl : lastSmall p cmds <;> simp_all
      allBig := fun _ h4k => hnew.all hsup h4k }

private theorem splitWrite2m_active (h : s.TablesInv b) (h2m : s.pteIs2m = true)
    (toMap : ℕ → ProcessorId) (residentId : ProcessorId) (newProt : Prot) (pages : PageMask)
    (hnew : NewBigPtes b s new.bigPtes) :
    (PteState.apply (splitWrite2m b s toMap residentId newProt pages new)).Active b := by
  have hnum := b.numBigPages_of_supports2m (h.is2m h2m).1
  have hcompl : ∀ i, bigCompl maxBigPages new.bigPtes i = true → i < b.numBigPages := by
    intro i hi
    simp only [bigCompl, Bool.and_eq_true, decide_eq_true_eq] at hi
    omega
  refine finishSplit2m_active h h2m hnew (fun hr i hi => ?_) (fun hr i hb => ?_)
    fun p i hi hidx hb => ?_
  · cases hb : new.bigPtes i <;> cases hc : new.bigPtesCovered i <;> simp [hr, hb, hc, bigCompl, hi]
  · cases hc : new.bigPtesCovered i <;> simp [hr, hb, hc, bigCompl, bigPteFor_ne_invalid]
  · simp [bigSplitWrite4k_written (s := s) toMap (some residentId) newProt pages hcompl hidx
      (by simp [bigCompl, hb, hi])]

theorem split2m_active (h : s.TablesInv b) (h2m : s.pteIs2m = true)
    (toMap : ℕ → ProcessorId) (newBigPtes : BigMask) (hnew : NewBigPtes b s newBigPtes) :
    (PteState.apply (blockGpuSplit2m b s toMap newBigPtes)).Active b := by
  refine finishSplit2m_active h h2m hnew (fun hr i hi => ?_) (fun hr i hb => ?_)
    fun p i hi hidx hb => ?_
  · cases hb : newBigPtes i <;> simp [hr, hb, bigCompl, hi]
  · simp [hr, hb, bigCompl, bigPteFor_ne_invalid]
  · simp [pagesOfBig, hidx, bigCompl, hb, hi]

private theorem activateTables_spec (h : s.TablesInv b) (h2m : s.pteIs2m = false)
    (initialized : Bool) :
    let r := activateTables b { s with initializedBig := initialized }
    (lastTop r.2).getD s.mem.top = .pde s.rangeBig s.range4k ∧
      (b.supports2m = true → r.1.activatedBig = s.rangeBig ∧ r.1.activated4k = s.range4k) ∧
      (r.1.activatedBig = true → s.rangeBig = true) ∧
      (r.1.activated4k = true → s.range4k = true) ∧
      r.1 = { s with
        initializedBig := initialized
        activatedBig := r.1.activatedBig
        activated4k := r.1.activated4k } := by
  intro r
  have hact := h.activatedBig
  have hact4k := h.activated4k
  have hneed : blockGpuNeedsToActivateTable b { s with initializedBig := initialized } =
      blockGpuNeedsToActivateTable b s := rfl
  cases hcase : blockGpuNeedsToActivateTable b s with
  | true =>
    have hr : r = blockGpuWritePde { s with initializedBig := initialized } := by
      simp only [r, activateTables, hneed, hcase, if_true]
    rw [hr]
    simp only [blockGpuWritePde, lastTop, Option.none_or, Option.getD_some, true_and,
      Bool.or_eq_true, and_true]
    refine ⟨fun _ => ⟨?_, ?_⟩, fun hor => hor.elim hact id, fun hor => hor.elim hact4k id⟩
    · cases hr : s.rangeBig <;> simp_all
    · cases hr : s.range4k <;> simp_all
  | false =>
    have hr : r = ({ s with initializedBig := initialized }, []) := by
      simp [r, activateTables, hneed, hcase]
    rw [hr]
    -- without a table to activate, the PDE points to all of them already
    have hall : s.usableBig b = s.rangeBig ∧ s.usable4k b = s.range4k ∧
        (b.supports2m = true → s.activatedBig = s.rangeBig ∧ s.activated4k = s.range4k) := by
      unfold blockGpuNeedsToActivateTable at hcase
      unfold usableBig usable4k
      cases hsup : b.supports2m <;> cases hrange : s.rangeBig <;> cases hrange4k : s.range4k <;>
        simp_all
    refine ⟨?_, hall.2.2, hact, hact4k, rfl⟩
    simp [h.top h2m, hall.1, hall.2.1]

private theorem mix_active (h : s.TablesInv b) (h2m : s.pteIs2m = false)
    (hnew : NewBigPtes b s new.bigPtes) (residentId : ProcessorId) (newProt : Prot)
    (newPte : SmallPte) (inherited : ℕ → ProcessorId) (pages : PageMask) {r : PtePush}
    (hfst : r.1 = { (activateTables b (initializeBig b s new).1).1 with bigPtes := new.bigPtes })
    (htop : lastTop r.2 = lastTop (activateTables b (initializeBig b s new).1).2)
    (hbig : ∀ i < maxBigPages, lastBig i r.2 = mixBig b s residentId newProt new i)
    (hsmall : ∀ p, lastSmall p r.2 = mixSmall b s newPte inherited pages new p) :
    (PteState.apply r).Active b := by
  obtain ⟨hspecTop, hspecActive, hspecBig, hspec4k, hspec⟩ :=
    activateTables_spec h h2m (s.initializedBig || s.rangeBig)
  have hinit : (initializeBig b s new).1 =
      { s with initializedBig := s.initializedBig || s.rangeBig } := rfl
  rw [hinit] at hfst htop
  rw [hspec] at hfst
  have hlt : ∀ i, i < b.numBigPages → i < maxBigPages := fun i hi =>
    lt_of_lt_of_le hi b.numBigPages_le
  exact
    { not2m := by simp [hfst, h2m]
      range2m := by simpa [hfst] using h.range2m
      activatedBig := by simpa [hfst] using hspecBig
      activated4k := by simpa [hfst] using hspec4k
      active := by simpa [hfst] using hspecActive
      initialized := by simpa [hfst] using fun hi => (h.initialized hi).1
      top := by simpa [hfst, htop] using hspecTop
      big := fun hr i hi => by
        have hr : s.rangeBig = true := by simpa [hfst] using hr
        rw [PteState.apply_big, hbig i (hlt i hi), hfst]
        cases hinit : s.initializedBig with
        | true => simp [(h.initialized hinit).2 i hi]
        | false =>
          -- a table that is not initialized has no big PTE in use
          have hold : s.bigPtes i = false := by
            by_contra hc
            have := h.usable h2m (h.bigPtes i (by simpa using hc)).2.1
            simp [hinit] at this
          cases hn : new.bigPtes i <;> cases hc : new.bigPtesCovered i <;>
            simp [mixBig, hold, hn, hc, hr, hinit, hi]
      bigPtes := fun i hi => by
        have hn : new.bigPtes i = true := by simpa [hfst] using hi
        have hi := hnew.lt i hn
        refine ⟨hi, by simpa [hfst] using hnew.range i hn, ?_⟩
        rw [PteState.apply_big, hbig i (hlt i hi), hfst]
        cases hc : new.bigPtesCovered i with
        | true => simp [mixBig, hn, hc, bigPteFor_ne_invalid]
        | false =>
          cases ho : s.bigPtes i with
          | true => simpa [mixBig, hn, hc, ho] using (h.bigPtes i ho).2.2
          | false => simp [mixBig, hn, hc, ho]
      small := fun h4k p hp hp4k => by
        have h4k : s.range4k = true := by simpa [hfst] using h4k
        have hp4k : b.pagesOfBig new.bigPtes p = false := by simpa [hfst] using hp4k
        rw [PteState.apply_small, hsmall p, hfst]
        dsimp only
        -- what is not written was read by the MMU before
        have hkept : b.pagesOfBig s.bigPtes p = false → s.mem.small p ≠ none := by
          intro hold
          cases huse : s.usable4k b with
          | true => exact h.small h2m huse p hp hold
          | false =>
            cases hsup : b.supports2m with
            | true =>
              obtain ⟨i, hi, hidx⟩ := b.index_of_supports2m hsup hp
              have hall := h.allBig hsup h2m (h.range2m hsup (Or.inr h4k)) huse i hi
              simp [pagesOfBig, hidx, hall] at hold
            | false => simp [usable4k, hsup, h4k] at huse
        cases hidx : b.bigPageIndex p with
        | none =>
          have := hkept (by simp [pagesOfBig, hidx])
          cases hpage : pages p <;> simp [mixSmall, hidx, this]
        | some i =>
          have hn := index_of_uncovered new.bigPtes hp4k hidx
          cases ho : s.bigPtes i with
          | true => cases hpage : pages p <;> simp [mixSmall, hidx, hn, ho, hpage]
          | false =>
            have := hkept (by simp [pagesOfBig, hidx, ho])
            cases hpage : pages p <;> simp [mixSmall, hidx, hn, ho, this]
      allBig := fun hsup h4k => by
        have h4k : s.range4k = false := by simpa [hfst] using h4k
        simpa [hfst] using hnew.all hsup h4k }

private theorem mapBigAnd4k_active (h : s.TablesInv b) (h2m : s.pteIs2m = false)
    (toMap : ℕ → ProcessorId) (residentId : ProcessorId) (newProt : Prot) (pages : PageMask)
    (hnew : NewBigPtes b s new.bigPtes) :
    (PteState.apply (blockGpuMapBigAnd4k b s toMap residentId newProt pages new)).Active b :=
  mix_active h h2m hnew residentId newProt (smallPteFor residentId newProt)
    (fun _ => residentId) pages (mapBigAnd4k_fst b s toMap residentId newProt pages new)
    (by rw [lastTop_mapBigAnd4k, lastTop_activateTables]; rfl)
    (fun _ hi => lastBig_mapBigAnd4k b s toMap residentId newProt pages new hi)
    (lastSmall_mapBigAnd4k b s toMap residentId newProt pages new fun i hi => (h.bigPtes i hi).1)

private theorem unmapBigAnd4k_active (h : s.TablesInv b) (h2m : s.pteIs2m = false)
    (toMap : ℕ → ProcessorId) (pages : PageMask) (hnew : NewBigPtes b s new.bigPtes) :
    (PteState.apply (blockGpuUnmapBigAnd4k b s toMap pages new)).Active b :=
  mix_active h h2m hnew cpuId .none .invalid (fun i => toMap (b.bigPageRegion i).first) pages
    (unmapBigAnd4k_fst b s toMap pages new)
    (by rw [lastTop_unmapBigAnd4k, lastTop_activateTables]; rfl)
    (fun _ hi => lastBig_unmapBigAnd4k b s toMap cpuId pages new hi)
    (lastSmall_unmapBigAnd4k b s toMap pages new fun i hi => (h.bigPtes i hi).1)

theorem splitBig_active (h : s.TablesInv b) (h2m : s.pteIs2m = false)
    (h4k : s.range4k = true) (toMap : ℕ → ProcessorId) (toSplit : BigMask)
    (hsub : ∀ i, toSplit i = true → s.bigPtes i = true) {j : ℕ} (hj : toSplit j = true) :
    (PteState.apply (blockGpuSplitBig b s toMap toSplit)).Active b := by
  have hbig := (h.bigPtes j (hsub j hj)).2.1
  have hinit := h.usable h2m hbig
  have hsame : (initializeBig b s (splitBigState s toSplit)).1 = s := by
    cases s
    simp_all [initializeBig]
  have hnew : NewBigPtes b s (splitBigState s toSplit).bigPtes :=
    { lt := fun i hi => (h.bigPtes i (by simp_all [splitBigState])).1
      range := fun i _ => (h.initialized hinit).1
      all := fun _ hno => by simp [h4k] at hno }
  refine mix_active h h2m hnew cpuId .none .invalid (fun i => toMap (b.bigPageRegion i).first)
    (fun _ => false) ?_ ?_
    (fun i _ => lastBig_splitBig b s toMap cpuId .none hsub hinit i)
    (fun p => lastSmall_splitBig b s toMap hsub (fun i hi => (h.bigPtes i hi).1) p .invalid)
  · rw [hsame]
    rfl
  · rw [hsame]
    exact lastTop_splitBig b s toMap toSplit

private theorem to2m_inv (h : s.TablesInv b) (hsup : b.supports2m = true)
    (hrange : s.range2m = true) {e : TopEntry} (he : ∀ x y, e ≠ .pde x y) :
    { s with pteIs2m := true, bigPtes := fun _ => false,
             mem := { s.mem with top := e } }.TablesInv b where
  is2m := fun _ => ⟨hsup, hrange, fun _ => rfl, he⟩
  range2m := h.range2m
  activatedBig := h.activatedBig
  activated4k := h.activated4k
  initialized := h.initialized
  top := by simp
  usable := by simp
  unusedBig := by simp
  unused4k := by simp
  bigPtes := by simp
  small := by simp
  allBig := by simp

/-! ## Map, revoke, unmap -/

section Compute

variable (s) (residentId : Option ProcessorId) (changing after : PageMask) (canMapBig : ℕ → Bool)

theorem computeNewPteState_is2m
    (h : (blockGpuComputeNewPteState b s residentId changing after canMapBig).pteIs2m = true) :
    b.supports2m = true ∧ s.force4kPtes = false := by
  unfold blockGpuComputeNewPteState at h
  split at h
  · simp [NewPteState.start] at h
  · next hforce =>
    split at h
    · next h2m =>
      simp only [Bool.and_eq_true] at h2m
      exact ⟨h2m.1.1, by simpa using hforce⟩
    · split at h <;> simp [NewPteState.start] at h

theorem computeNewPteState_lt (hsup : s.pteIs2m = true → b.supports2m = true)
    (hlt : ∀ i, s.bigPtes i = true → i < b.numBigPages) (i : ℕ)
    (h : (blockGpuComputeNewPteState b s residentId changing after canMapBig).bigPtes i = true) :
    i < b.numBigPages := by
  unfold blockGpuComputeNewPteState at h
  split at h
  · simp [NewPteState.start] at h
  · split at h
    · simp [NewPteState.start] at h
    · split at h
      · simp [NewPteState.start] at h
      · dsimp only at h
        rw [Bool.or_eq_true] at h
        rcases h with hmade | hrest
        · simp only [Bool.and_eq_true, decide_eq_true_eq] at hmade
          exact hmade.1.1.1.1
        · split at hrest
          · next h2m =>
            -- the complement is taken only for a block that can have a 2M PTE
            have hsup : b.supports2m = true := by
              simp only [Bool.or_eq_true, Bool.and_eq_true] at h2m
              exact h2m.elim hsup (·.1)
            simp only [bigCompl, Bool.and_eq_true, decide_eq_true_eq] at hrest
            rw [b.numBigPages_of_supports2m hsup]
            exact hrest.1
          · split at hrest
            · simpa using hrest
            · simp only [Bool.and_eq_true] at hrest
              exact hlt i hrest.1

theorem computeNewPteState_covered (i : ℕ)
    (h : (blockGpuComputeNewPteState b s residentId changing after canMapBig).bigPtesCovered i =
      true) : i < b.numBigPages := by
  unfold blockGpuComputeNewPteState at h
  split at h
  · simp [NewPteState.start] at h
  · split at h
    · simp [NewPteState.start] at h
    · split at h
      · simp [NewPteState.start] at h
      · simp only [Bool.and_eq_true, decide_eq_true_eq] at h
        exact h.1

private theorem computeNewPteState_all (hsup : b.supports2m = true) (h4k : s.range4k = false)
    (hneed : (blockGpuComputeNewPteState b s residentId changing after canMapBig).needs4k =
      false)
    (h2m : (blockGpuComputeNewPteState b s residentId changing after canMapBig).pteIs2m = false) :
    ∀ i < maxBigPages,
      (blockGpuComputeNewPteState b s residentId changing after canMapBig).bigPtes i = true := by
  intro i hi
  unfold blockGpuComputeNewPteState at hneed h2m ⊢
  split at hneed
  · simp [NewPteState.start] at hneed
  · next hforce =>
    rw [if_neg hforce] at h2m ⊢
    split at hneed
    · next hfull =>
      rw [if_pos hfull] at h2m
      simp at h2m
    · next hfull =>
      rw [if_neg hfull] at h2m ⊢
      split at hneed
      · simp [NewPteState.start] at hneed
      · next hregion =>
        rw [if_neg hregion]
        dsimp only at hneed ⊢
        have hnum := b.numBigPages_of_supports2m hsup
        have hi' : i < b.numBigPages := hnum ▸ hi
        have hneeds' := hneed
        simp only [Bool.or_eq_false_iff] at hneeds'
        have hmade := hneeds'.1.1
        rw [List.any_eq_false] at hmade
        have hmade := hmade i (List.mem_range.mpr hi')
        rw [Bool.and_eq_true, not_and, Bool.not_eq_true', Bool.not_eq_false] at hmade
        rw [Bool.or_eq_true]
        split
        · -- what is not covered stays big, what is covered is made big
          by_cases hcov : (decide (i < b.numBigPages) && anyIn (b.bigPageRegion i) changing) = true
          · exact Or.inl (hmade hcov)
          · right
            simp [bigCompl, hi, hcov]
        · right
          rw [if_pos (by rw [hneed, h4k]; rfl)]
          simpa using hi'

end Compute

private theorem PteState.TablesInv.withBits (h : s.TablesInv b) (force : Bool)
    (bits : PteBit → PageMask) :
    { s with force4kPtes := force, pteBits := bits }.TablesInv b where
  is2m := h.is2m
  range2m := h.range2m
  activatedBig := h.activatedBig
  activated4k := h.activated4k
  initialized := h.initialized
  top := h.top
  usable := h.usable
  unusedBig := h.unusedBig
  unused4k := h.unused4k
  bigPtes := h.bigPtes
  small := h.small
  allBig := h.allBig

/-- What the allocation for a plan gives. -/
private structure PlanReady (b : GpuBlock) (s : PteState) (new : NewPteState) : Prop where
  inv : s.TablesInv b
  to2m : new.pteIs2m = true → b.supports2m = true ∧ s.range2m = true
  toBig : new.pteIs2m = false → NewBigPtes b s new.bigPtes

section Plan

variable (residentId : Option ProcessorId) (changing after : PageMask) (canMapBig : ℕ → Bool)
  (alloc : PteSize → NvStatus)

theorem blockAllocPtesNewState_spec (new : NewPteState)
    (h2m : new.pteIs2m = true → b.supports2m = true) (s : PteState) :
    AllocSpec b (allocSizes b fun size => match size with
      | .two => new.pteIs2m
      | .big => !new.pteIs2m && !bigEmpty new.bigPtes
      | .small => !new.pteIs2m && new.needs4k) [.two, .big, .small] s
      (blockAllocPtesNewState b alloc new s) :=
  blockAllocPtesWithRetry_spec alloc _ (by simpa using h2m) s

private theorem allocNewState_inv (h : s.TablesInv b) : (blockAllocPtesNewState b alloc
      (blockGpuComputeNewPteState b s residentId changing after canMapBig) s).2.TablesInv b :=
  (blockAllocPtesNewState_spec alloc _
    (fun h2m => (computeNewPteState_is2m s residentId changing after canMapBig h2m).1) s).inv h

private theorem planReady_of_alloc (h : s.TablesInv b) (hok : (blockAllocPtesNewState b alloc
      (blockGpuComputeNewPteState b s residentId changing after canMapBig) s).1 = .ok) :
    PlanReady b (blockAllocPtesNewState b alloc
      (blockGpuComputeNewPteState b s residentId changing after canMapBig) s).2
      (blockGpuComputeNewPteState b s residentId changing after canMapBig) := by
  have hlt := computeNewPteState_lt s residentId changing after canMapBig
    (fun h2m => (h.is2m h2m).1) fun i hi => (h.bigPtes i hi).1
  have hall := computeNewPteState_all (b := b) s residentId changing after canMapBig
  have his2m := computeNewPteState_is2m (b := b) s residentId changing after canMapBig
  revert hok hlt hall his2m
  generalize blockGpuComputeNewPteState b s residentId changing after canMapBig = new
  intro hok hlt hall his2m
  have hspec := blockAllocPtesNewState_spec alloc new (fun h2m => (his2m h2m).1) s
  refine { inv := hspec.inv h, to2m := fun h2m => ?_, toBig := fun h2m => ?_ }
  · have hsup := (his2m h2m).1
    exact ⟨hsup, hspec.allocated hok .two (by simp) (by simp [allocSizes, hsup])⟩
  · refine { lt := hlt, range := fun i hi => ?_, all := fun hsup h4k => ?_ }
    · have hsome : bigEmpty new.bigPtes = false :=
        bigEmpty_eq_false.mpr ⟨i, lt_of_lt_of_le (hlt i hi) b.numBigPages_le, hi⟩
      exact hspec.allocated hok .big (by simp) (by simp [allocSizes, h2m, hsome])
    · -- a plan that needs no 4k PTEs, on a block that has no table of them
      have hneed : new.needs4k = false := by
        by_contra hc
        have : (blockAllocPtesNewState b alloc new s).2.range4k = true :=
          hspec.allocated hok .small (by simp)
            (by simp only [allocSizes, h2m]; simpa using hc)
        simp [h4k] at this
      have hno4k : s.range4k = false := by
        by_contra hc
        have : (blockAllocPtesNewState b alloc new s).2.range4k = true :=
          hspec.kept .small (by simpa [hasRange] using hc)
        simp [h4k] at this
      exact hall hsup hno4k hneed h2m

end Plan

/-! ### Swizzling changes -/

theorem not_supports2m_of_swizzling (h : b.swizzling = true) : b.supports2m = false := by
  have := b.no_swizzle_2m
  simp only [supports2m, Bool.and_eq_false_iff]
  cases hm : b.has2m with
  | true => simp [this hm] at h
  | false => exact Or.inr rfl

theorem PteState.TablesInv.writeBig (h : s.TablesInv b) (hsup : b.supports2m = false) (i : ℕ)
    {v : BigPte} (hv : v ≠ .invalid) (pages : PageMask) (sizes : PteSize → Bool) :
    (PteState.apply (s, [.big (bigPageSingle i) v, .invalidate pages sizes])).TablesInv b := by
  have hno := h.not_2m hsup
  have hbig : ∀ j, (PteState.apply (s, [.big (bigPageSingle i) v,
      .invalidate pages sizes])).mem.big j = if j = i then some v else s.mem.big j := fun j => by
    by_cases hji : j = i <;> simp [bigPageSingle, hji]
  exact
    { is2m := by simp [hno]
      range2m := by simp [hsup]
      activatedBig := h.activatedBig
      activated4k := h.activated4k
      initialized := fun hinit => by
        refine ⟨(h.initialized hinit).1, fun j hj => ?_⟩
        rw [hbig]
        split
        · simp
        · exact (h.initialized hinit).2 j hj
      top := fun _ => h.top hno
      usable := fun _ hu => h.usable hno hu
      unusedBig := fun _ hr hu => by
        have hr : s.rangeBig = true := hr
        simp [usableBig, hsup, hr] at hu
      unused4k := fun _ h4k hu => by
        have h4k : s.range4k = true := h4k
        simp [usable4k, hsup, h4k] at hu
      bigPtes := fun j hj => by
        have := h.bigPtes j hj
        refine ⟨this.1, this.2.1, ?_⟩
        rw [hbig]
        split
        · simpa using hv
        · exact this.2.2
      small := fun _ hu p hp hp4k => h.small hno hu p hp hp4k
      allBig := by simp [hsup] }

theorem swizzlingUnmap_inv (h : s.TablesInv b) (hsup : b.supports2m = false) (op : SwizzleOp)
    (hi : i < b.numBigPages) (hrange : op = .swizzle → s.rangeBig = true) :
    (PteState.apply (blockGpuBigPageChangeSwizzlingUnmap b s i op)).TablesInv b := by
  cases op with
  | deswizzle => exact h.writeBig hsup i (by simp) _ _
  | swizzle =>
    have hno := h.not_2m hsup
    have hr := hrange rfl
    have huse : s.usableBig b = true := by simp [usableBig, hsup, hr]
    have hsmall := h.small hno
    exact
      { is2m := by simp [blockGpuBigPageChangeSwizzlingUnmap, hno]
        range2m := by simp [hsup]
        activatedBig := h.activatedBig
        activated4k := h.activated4k
        initialized := fun hinit => by
          refine ⟨hr, fun j hj => ?_⟩
          have := (h.initialized hinit).2 j hj
          by_cases hji : j = i <;>
            simp [blockGpuBigPageChangeSwizzlingUnmap, blockGpuPteMergeBigAndEnd, bigPageSingle,
              this]
        top := fun _ => by
          simpa [blockGpuBigPageChangeSwizzlingUnmap, blockGpuPteMergeBigAndEnd, usableBig,
            usable4k] using h.top hno
        usable := fun _ hu => h.usable hno hu
        unusedBig := fun _ _ hu => by
          simp [blockGpuBigPageChangeSwizzlingUnmap, usableBig, hsup, hr] at hu
        unused4k := fun _ h4k hu => by
          have h4k : s.range4k = true := h4k
          simp [blockGpuBigPageChangeSwizzlingUnmap, usable4k, hsup, h4k] at hu
        bigPtes := fun j hj => by
          by_cases hji : j = i
          · refine ⟨by rwa [hji], huse, ?_⟩
            simp [blockGpuBigPageChangeSwizzlingUnmap, blockGpuPteMergeBigAndEnd, bigPageSingle, hji]
          · have := h.bigPtes j (by simpa [blockGpuBigPageChangeSwizzlingUnmap, hji] using hj)
            refine ⟨this.1, huse, ?_⟩
            simpa [blockGpuBigPageChangeSwizzlingUnmap, blockGpuPteMergeBigAndEnd, bigPageSingle,
              hji] using this.2.2
        small := fun _ hu p hp hp4k => by
          -- one more big PTE in use covers more pages
          have hold : b.pagesOfBig s.bigPtes p = false := by
            unfold pagesOfBig at hp4k ⊢
            cases hidx : b.bigPageIndex p with
            | none => rfl
            | some j =>
              rw [hidx] at hp4k
              by_cases hji : j = i
              · simp [blockGpuBigPageChangeSwizzlingUnmap, hji] at hp4k
              · simpa [blockGpuBigPageChangeSwizzlingUnmap, hji] using hp4k
          simpa [blockGpuBigPageChangeSwizzlingUnmap, blockGpuPteMergeBigAndEnd] using
            hsmall hu p hp hold
        allBig := by simp [hsup] }

private def SwizzleKept (b : GpuBlock) (s s' : PteState) : Prop :=
  s'.TablesInv b ∧ (s.rangeBig = true → s'.rangeBig = true)

private theorem changeSwizzlingOwn_kept (h : s.TablesInv b) (hswiz : b.swizzling = true)
    (io : PteInput) (op : SwizzleOp) (mapsTo : ProcessorId) (hi : i < b.numBigPages) :
    SwizzleKept b s (changeSwizzlingOwn b io op mapsTo i s).2 := by
  have hsup := not_supports2m_of_swizzling hswiz
  have hspec := blockAllocPtesWithRetry_spec (b := b) io.alloc
    (fun size => decide (size = if op = .swizzle then .big else .small))
    (by cases op <;> simp) s
  unfold changeSwizzlingOwn
  dsimp only
  generalize blockAllocPtesWithRetry b io.alloc
    (fun size => decide (size = if op = .swizzle then .big else .small)) s = r at hspec ⊢
  have hinv := hspec.inv h
  split
  · exact ⟨h, id⟩
  · split
    · exact ⟨hinv, hspec.kept .big⟩
    · next hok =>
      split
      · exact ⟨hinv, hspec.kept .big⟩
      · have hok : r.1 = .ok := by simpa using hok
        constructor
        · apply swizzlingUnmap_inv hinv hsup op hi
          intro hop
          exact hspec.allocated hok .big (by simp) (by simp [allocSizes, hop])
        · intro hr
          have := hspec.kept .big hr
          cases op <;> simpa [blockGpuBigPageChangeSwizzlingUnmap, hasRange] using this

section Swizzling

-- what every change of the swizzling of a big page keeps
variable {K : PteState → Prop} {io : PteInput} (hK : ∀ s op mapsTo i, i < b.numBigPages → K s →
  K (changeSwizzlingOwn b io op mapsTo i s).2)
include hK

theorem swizzlingLoop_keeps (op : SwizzleOp) (mapsTo : ℕ → ProcessorId) {mask : BigMask}
    (hmask : ∀ i, mask i = true → i < b.numBigPages) (h : K s) :
    K (runUntil NvStatus.isOk .ok
      (fun i => changeSwizzlingOwn b io op (mapsTo i) i) (setBits mask) s).2 :=
  runUntil_keeps K _ (fun i hi s hs => hK s op (mapsTo i) i (hmask i (mem_setBits.mp hi).2) hs) s h

theorem changeSwizzlingMap_keeps (residentId : ProcessorId)
    (hnew : ∀ i, new.bigPtesCovered i = true → i < b.numBigPages) (h : K s) :
    K (blockGpuChangeSwizzlingMap b io residentId new s).2 := by
  unfold blockGpuChangeSwizzlingMap
  dsimp only
  split
  · exact swizzlingLoop_keeps hK .swizzle _ (fun i hi => hnew i (by simp_all)) h
  · exact swizzlingLoop_keeps hK .deswizzle _ (fun i hi => hnew i (by simp_all))
      (swizzlingLoop_keeps hK .swizzle _ (fun i hi => hnew i (by simp_all)) h)

theorem changeSwizzlingUnmap_keeps
    (hnew : ∀ i, new.bigPtesCovered i = true → i < b.numBigPages) (h : K s) :
    K (blockGpuChangeSwizzlingUnmap b io new s).2 :=
  swizzlingLoop_keeps hK .deswizzle _ (fun i hi => hnew i (by simp_all)) h

end Swizzling

private theorem SwizzleKept.own (hswiz : b.swizzling = true) (io : PteInput) (s' : PteState)
    (op : SwizzleOp) (mapsTo : ProcessorId) (i : ℕ) (hi : i < b.numBigPages)
    (h : SwizzleKept b s s') : SwizzleKept b s (changeSwizzlingOwn b io op mapsTo i s').2 := by
  have hown := changeSwizzlingOwn_kept h.1 hswiz io op mapsTo hi
  exact ⟨hown.1, fun hr => hown.2 (h.2 hr)⟩

private theorem PlanReady.swizzled {s' : PteState} (h : PlanReady b s new)
    (hswiz : b.swizzling = true) (hkept : SwizzleKept b s s') : PlanReady b s' new := by
  have hsup := not_supports2m_of_swizzling hswiz
  refine { inv := hkept.1, to2m := fun h2m => ?_, toBig := fun h2m => ?_ }
  · simp [(h.to2m h2m).1] at hsup
  · have hbig := h.toBig h2m
    exact
      { lt := hbig.lt
        range := fun i hi => hkept.2 (hbig.range i hi)
        all := fun hc => by simp [hsup] at hc }

/-! ### The operations -/

private theorem mergeTo2m_inv (h : s.TablesInv b) (hsup : b.supports2m = true)
    (hrange : s.range2m = true) (cmds : List PteCmd) {e : TopEntry}
    (hcmds : ∀ mem : PteMemory, mem.execAll ((mergeTo2m s).2 ++ cmds) = { mem with top := e })
    (he : ∀ x y, e ≠ .pde x y) :
    (PteState.apply ((mergeTo2m s).1, (mergeTo2m s).2 ++ cmds)).TablesInv b := by
  have hstate : PteState.apply ((mergeTo2m s).1, (mergeTo2m s).2 ++ cmds) =
      { s with pteIs2m := true, bigPtes := fun _ => false,
               mem := { s.mem with top := e } } := by
    unfold PteState.apply
    rw [hcmds]
    unfold mergeTo2m
    split
    · next h2m =>
      have hnone : s.bigPtes = fun _ => false := funext (h.is2m h2m).2.2.1
      rw [← h2m, ← hnone]
    · rfl
  rw [hstate]
  exact to2m_inv h hsup hrange he

private theorem pushMapping_inv (io : PteInput) (h : PlanReady b s new) (residentId : ProcessorId)
    (newProt : Prot) (pages : PageMask) :
    (PteState.apply (pushMapping b io s residentId newProt pages new)).TablesInv b := by
  unfold pushMapping
  cases hnew : new.pteIs2m with
  | true =>
    obtain ⟨hsup, hrange⟩ := h.to2m hnew
    refine mergeTo2m_inv (e := .valid ⟨residentId, newProt⟩) h.inv hsup hrange _ ?_ (by simp)
    intro mem
    unfold mergeTo2m
    split <;> rfl
  | false =>
    have hbig := h.toBig hnew
    cases h2m : s.pteIs2m with
    | true => exact (splitWrite2m_active h.inv h2m io.toMap residentId newProt pages hbig).tablesInv
    | false =>
      exact (mapBigAnd4k_active h.inv h2m io.toMap residentId newProt pages hbig).tablesInv

private theorem pushUnmapping_inv (io : PteInput) (h : PlanReady b s new) (pages : PageMask) :
    (PteState.apply (pushUnmapping b io s pages new)).TablesInv b := by
  unfold pushUnmapping
  cases hnew : new.pteIs2m with
  | true =>
    obtain ⟨hsup, hrange⟩ := h.to2m hnew
    simp only [if_true, blockGpuUnmapTo2m]
    split
    · next h2m =>
      have hmerge : mergeTo2m s = (s, []) := by simp [mergeTo2m, h2m]
      have := mergeTo2m_inv (e := .invalid) h.inv hsup hrange
        [.top .invalid, .invalidate allPages (only .two)] (by rw [hmerge]; intro mem; rfl) (by simp)
      simpa [hmerge] using this
    · next h2m =>
      have := mergeTo2m_inv (e := .invalid) h.inv hsup hrange []
        (by unfold mergeTo2m; simp only [h2m]; intro mem; rfl) (by simp)
      simpa using this
  | false =>
    have hbig := h.toBig hnew
    cases h2m : s.pteIs2m with
    | true => exact (splitWrite2m_active h.inv h2m io.toMap (io.toMap 0) .none pages hbig).tablesInv
    | false => exact (unmapBigAnd4k_active h.inv h2m io.toMap pages hbig).tablesInv

private theorem remap_inv (h : s.TablesInv b) (io : PteInput) (residentId : ProcessorId)
    (newProt : Prot) (pages after : PageMask) :
    (remap b io residentId newProt pages after s).2.TablesInv b := by
  have hinv := allocNewState_inv (some residentId) pages after io.canMapBig io.alloc h
  have hplan := planReady_of_alloc (some residentId) pages after io.canMapBig io.alloc h
  have hcovered := computeNewPteState_covered (b := b) s (some residentId) pages after io.canMapBig
  unfold remap
  dsimp only
  revert hinv hplan hcovered
  generalize blockGpuComputeNewPteState b s (some residentId) pages after io.canMapBig = new
  generalize blockAllocPtesNewState b io.alloc new s = r
  intro hinv hplan hcovered
  split
  · exact hinv
  · next hok =>
    have hplan := hplan (by simpa using hok)
    -- the plan stays right for the tables when swizzling changes come before it
    have hplan' : PlanReady b (if (b.swizzling && decide (residentId ≠ cpuId)) = true then
        blockGpuChangeSwizzlingMap b io residentId new r.2 else r).2 new := by
      split
      · next hsw =>
        simp only [Bool.and_eq_true] at hsw
        exact hplan.swizzled hsw.1 (changeSwizzlingMap_keeps
          (SwizzleKept.own hsw.1 io) residentId hcovered ⟨hplan.inv, id⟩)
      · exact hplan
    generalize (if (b.swizzling && decide (residentId ≠ cpuId)) = true then
      blockGpuChangeSwizzlingMap b io residentId new r.2 else r) = r' at hplan' ⊢
    split
    · exact hplan'.inv
    · split
      · exact hplan'.inv
      · exact pushMapping_inv io hplan' residentId newProt pages

theorem mapGpuTo_inv (h : s.TablesInv b) (io : PteInput) (residentId : ProcessorId)
    (mapPageMask : PageMask) (newProt : Prot) :
    (uvmVaBlockMapGpuTo b io residentId mapPageMask newProt s).2.TablesInv b := by
  unfold uvmVaBlockMapGpuTo
  dsimp only
  split
  · exact h
  · split
    · exact remap_inv h io residentId newProt _ _
    · exact (remap_inv h io residentId newProt _ _).withBits _ _

theorem revokeProtGpuTo_inv (h : s.TablesInv b) (io : PteInput) (residentId : ProcessorId)
    (revokePageMask : PageMask) (protToRevoke : Prot) :
    (uvmVaBlockRevokeProtGpuTo b io residentId revokePageMask protToRevoke s).2.TablesInv b := by
  unfold uvmVaBlockRevokeProtGpuTo
  dsimp only
  generalize (if protToRevoke = .readWriteAtomic then PteBit.atomic else .write) = bit
  split
  · exact h
  · split
    · exact remap_inv h io residentId _ _ _
    · exact (remap_inv h io residentId _ _ _).withBits _ _

private theorem unmapPages_inv (h : s.TablesInv b) (io : PteInput) (pages after : PageMask) :
    (unmapPages b io pages after s).2.TablesInv b := by
  have hinv := allocNewState_inv none pages after io.canMapBig io.alloc h
  have hplan := planReady_of_alloc none pages after io.canMapBig io.alloc h
  have hcovered := computeNewPteState_covered (b := b) s none pages after io.canMapBig
  unfold unmapPages
  dsimp only
  revert hinv hplan hcovered
  generalize blockGpuComputeNewPteState b s none pages after io.canMapBig = new
  generalize blockAllocPtesNewState b io.alloc new s = r
  intro hinv hplan hcovered
  split
  · exact hinv
  · next hok =>
    have hplan := hplan (by simpa using hok)
    have hplan' : PlanReady b (if b.swizzling = true then
        blockGpuChangeSwizzlingUnmap b io new r.2 else r).2 new := by
      split
      · next hsw => exact hplan.swizzled hsw (changeSwizzlingUnmap_keeps
          (SwizzleKept.own hsw io) hcovered ⟨hplan.inv, id⟩)
      · exact hplan
    generalize (if b.swizzling = true then
      blockGpuChangeSwizzlingUnmap b io new r.2 else r) = r' at hplan' ⊢
    split
    · exact hplan'.inv
    · split
      · exact hplan'.inv
      · exact pushUnmapping_inv io hplan' pages

theorem unmapGpu_inv (h : s.TablesInv b) (io : PteInput) (unmapPageMask : PageMask) :
    (uvmVaBlockUnmapGpu b io unmapPageMask s).2.TablesInv b := by
  unfold uvmVaBlockUnmapGpu
  dsimp only
  split
  · exact h
  · split
    · exact h
    · split
      · exact unmapPages_inv h io _ _
      · exact (unmapPages_inv h io _ _).withBits _ _

theorem force4kPtes_inv (h : s.TablesInv b) (io : PteInput) :
    (blockGpuForce4kPtes b io s).2.TablesInv b := by
  have hforce : { s with force4kPtes := true }.TablesInv b := h.withBits true s.pteBits
  have hspec := blockAllocPtesWithRetry_spec (b := b) io.alloc (only .small)
    (by simp [only]) { s with force4kPtes := true }
  unfold blockGpuForce4kPtes
  dsimp only
  split
  · exact hforce
  · split
    · exact hforce
    · next hsome =>
      generalize blockAllocPtesWithRetry b io.alloc (only .small)
        { s with force4kPtes := true } = r at hspec ⊢
      have hinv := hspec.inv hforce
      split
      · exact hinv
      · next hok =>
        have h4k : r.2.range4k = true :=
          hspec.allocated (by simpa using hok) .small (by simp) (by simp [allocSizes, only])
        split
        · exact hinv
        · split
          · next h2m =>
            have hnew : NewBigPtes b r.2 fun _ => false :=
              { lt := by simp
                range := by simp
                all := fun _ hno => by simp [h4k] at hno }
            exact (split2m_active hinv h2m io.toMap _ hnew).tablesInv
          · next h2m =>
            have h2m : r.2.pteIs2m = false := by simpa using h2m
            -- the entry was no 2M PTE before the allocation either, so there is a big PTE
            have hno : s.pteIs2m = false := by
              have := hspec.pteIs2m
              simp only [h2m] at this
              simpa using (Bool.or_eq_false_iff.mp this.symm).1
            have hbig : bigEmpty s.bigPtes = false := by simpa [hno] using hsome
            obtain ⟨j, -, hj⟩ := bigEmpty_eq_false.mp hbig
            have hsame : r.2.bigPtes = s.bigPtes := hspec.bigPtes
            exact (splitBig_active hinv h2m h4k io.toMap _ (fun i hi => hi)
              (j := j) (by rw [hsame]; exact hj)).tablesInv

end NvUvm
