import NvUvm.GpuPteTables

/-!
# Runs of operations on page tables

A block and its parts after splits take one operation after another: mapping, revoking,
unmapping, fault cancelling, swizzling changes for another GPU, splitting, and the removal of
the GPU VA space.
-/

namespace NvUvm

open GpuBlock Lib PteState

variable {b : GpuBlock} {s : PteState}

/-! ## Splitting -/

section Geometry

variable {at_ : ℕ} (h : 0 < at_ ∧ at_ < b.numPages)

theorem bigOf_mono {p q : ℕ} (hpq : p ≤ q) : b.bigOf p ≤ b.bigOf q :=
  Nat.div_le_div_right (Nat.add_le_add_left hpq _)

theorem lower_not_supports2m : (b.lower at_ h).supports2m = false := by
  have := b.fits
  have hshort : ¬ pages2m ≤ at_ := by omega
  simp [supports2m, lower, hshort]

theorem upper_not_supports2m : (b.upper at_ h).supports2m = false := by
  have := b.fits
  have hshort : ¬ pages2m ≤ b.numPages - at_ := by omega
  simp only [supports2m, upper, hshort, decide_false, Bool.false_and]

theorem lower_numBigPages : (b.lower at_ h).numBigPages = b.bigOf at_ - b.loBig :=
  numBigPages_eq _

theorem upper_bigOf (p : ℕ) : (b.upper at_ h).bigOf p = b.bigOf (p + at_) := by
  simp only [bigOf, upper]
  congr 1
  omega

theorem upper_loBig : (b.upper at_ h).loBig =
    if (b.start + at_) % b.bigPages = 0 then b.bigOf at_ else b.bigOf at_ + 1 := by
  have hk := b.bigPages_pos
  have hdiv := Nat.div_add_mod (b.start + at_) b.bigPages
  have hlt := Nat.mod_lt (b.start + at_) hk
  simp only [loBig, bigOf, upper]
  split
  · next halign =>
    rw [Nat.div_eq_iff hk]
    have := Nat.mul_comm b.bigPages ((b.start + at_) / b.bigPages)
    omega
  · rw [Nat.div_eq_iff hk, Nat.add_mul]
    have := Nat.mul_comm b.bigPages ((b.start + at_) / b.bigPages)
    omega

theorem upper_hiBig : (b.upper at_ h).hiBig = b.hiBig := by
  simp only [hiBig, upper]
  congr 1
  omega

theorem loBig_le_upper : b.loBig ≤ (b.upper at_ h).loBig :=
  Nat.div_le_div_right (by simp only [upper]; omega)

include h in
theorem bigOf_at_le_hiBig : b.bigOf at_ ≤ b.hiBig :=
  Nat.div_le_div_right (Nat.add_le_add_left h.2.le _)

theorem lower_bigPageIndex {p i : ℕ} (hp : p < at_) (hidx : b.bigPageIndex p = some i)
    (hother : b.bigOf p ≠ b.bigOf at_ ∨ (b.start + at_) % b.bigPages = 0) :
    (b.lower at_ h).bigPageIndex p = some i := by
  have hindex' := b.bigPageIndex_eq_some.mp hidx
  have hmono := bigOf_mono (b := b) hp.le
  have hbelow : b.bigOf p < b.bigOf at_ := by
    rcases hother with hne | halign
    · omega
    · have hk := b.bigPages_pos
      have hdiv := Nat.div_add_mod (b.start + at_) b.bigPages
      have hcomm := Nat.mul_comm b.bigPages ((b.start + at_) / b.bigPages)
      simp only [bigOf]
      rw [Nat.div_lt_iff_lt_mul hk]
      omega
  rw [bigPageIndex_eq_some]
  refine ⟨hindex'.1, ?_⟩
  rw [lower_numBigPages h]
  omega

theorem upper_bigPageIndex {p i : ℕ} (hidx : b.bigPageIndex (p + at_) = some i)
    (hother : b.bigOf (p + at_) ≠ b.bigOf at_ ∨ (b.start + at_) % b.bigPages = 0) :
    (b.upper at_ h).bigPageIndex p = some (i - (b.numBigPages - (b.upper at_ h).numBigPages)) ∧
      i - (b.numBigPages - (b.upper at_ h).numBigPages) +
        (b.numBigPages - (b.upper at_ h).numBigPages) = i := by
  have hindex' := b.bigPageIndex_eq_some.mp hidx
  have hmono := bigOf_mono (b := b) (Nat.le_add_left at_ p)
  have hlo := loBig_le_upper h
  have hnum := numBigPages_eq (b.upper at_ h)
  have hnum' := numBigPages_eq b
  rw [upper_hiBig h] at hnum
  have hloBig : (b.upper at_ h).loBig ≤ b.bigOf (p + at_) := by
    rw [upper_loBig h]
    split
    · exact hmono
    · next hcut =>
      omega
  rw [bigPageIndex_eq_some, upper_bigOf]
  omega

theorem bigPageIndex_at {q i : ℕ} (hidx : b.bigPageIndex q = some i)
    (hshared : ¬ (b.bigOf q ≠ b.bigOf at_ ∨ (b.start + at_) % b.bigPages = 0)) :
    b.bigPageIndex at_ = some i ∧ (b.start + at_) % b.bigPages ≠ 0 := by
  obtain ⟨heq, hcut⟩ := not_or.mp hshared
  have heq : b.bigOf q = b.bigOf at_ := not_not.mp heq
  refine ⟨?_, hcut⟩
  rw [bigPageIndex_eq_some] at hidx ⊢
  rwa [← heq]

end Geometry

/-- What the split finds when it comes to the state: no 2M PTE with lower tables, and no big PTE
across the split point. -/
private structure SplitReady (b : GpuBlock) (at_ : ℕ) (s : PteState) : Prop where
  inv : s.TablesInv b
  tables : s.pteIs2m = true → s.rangeBig = false ∧ s.range4k = false
  cut : ∀ i, b.bigPageIndex at_ = some i → (b.start + at_) % b.bigPages ≠ 0 →
    s.bigPtes i = false

/-- What the flags and tables must be for both parts to have flags that are true of theirs:
`bigBelow` and `bigAbove` are the numbers of big pages of the parts. -/
structure PteState.SplitKeeps (b : GpuBlock) (bigBelow bigAbove : ℕ) (s : PteState) : Prop where
  flags : s.initializedBig = true → bigBelow ≠ 0 ∧ bigAbove ≠ 0
  linkedBig : s.rangeBig = true → s.usableBig b = true ∨ bigBelow = 0 ∧ bigAbove = 0
  linked4k : s.range4k = true → s.usable4k b = true

section Split

variable {at_ : ℕ} (h : 0 < at_ ∧ at_ < b.numPages) {above below : ℕ}

private theorem SplitReady.top_eq (hs : SplitReady b at_ s) (hkeep : s.SplitKeeps b below above)
    {n : ℕ} (hn : n = below ∨ n = above) :
    s.mem.top.afterSplit (decide (below ≠ 0 ∨ above ≠ 0)) =
      .pde (s.rangeBig && decide (n ≠ 0)) s.range4k := by
  cases h2m : s.pteIs2m with
  | true =>
    obtain ⟨hbig, h4k⟩ := hs.tables h2m
    have hno := (hs.inv.is2m h2m).2.2.2
    rw [hbig, h4k]
    cases htop : s.mem.top with
    | pde x y => exact absurd htop (hno x y)
    | _ => rfl
  | false =>
    rw [hs.inv.top h2m]
    have h4k : s.usable4k b = s.range4k := by
      cases hr : s.range4k with
      | true => exact hkeep.linked4k hr
      | false => simp [usable4k, hr]
    rw [h4k, TopEntry.afterSplit]
    congr 1
    cases hr : s.rangeBig with
    | false => simp [usableBig, hr]
    | true =>
      rcases hkeep.linkedBig hr with huse | hnone
      · have := hkeep.flags (hs.inv.usable h2m huse)
        rcases hn with rfl | rfl <;> simp [huse, this]
      · rcases hn with rfl | rfl <;> simp [hnone]

private theorem SplitReady.usable (hs : SplitReady b at_ s) (hkeep : s.SplitKeeps b below above)
    (hr : s.rangeBig = true) (hn : below ≠ 0 ∨ above ≠ 0) : s.initializedBig = true := by
  have h2m : s.pteIs2m = false := by
    by_contra hc
    simpa [hr] using (hs.tables (by simpa using hc)).1
  rcases hkeep.linkedBig hr with huse | hnone
  · exact hs.inv.usable h2m huse
  · simp [hnone] at hn

private theorem SplitReady.small_ne_none (hs : SplitReady b at_ s)
    (hkeep : s.SplitKeeps b below above) (h4k : s.range4k = true) {q : ℕ} (hq : q < b.numPages)
    (hno : ∀ i, b.bigPageIndex q = some i → b.bigOf q ≠ b.bigOf at_ ∨
      (b.start + at_) % b.bigPages = 0 → s.bigPtes i = false) : s.mem.small q ≠ none := by
  have h2m : s.pteIs2m = false := by
    by_contra hc
    simpa [h4k] using (hs.tables (by simpa using hc)).2
  apply hs.inv.small h2m (hkeep.linked4k h4k) q hq
  unfold pagesOfBig
  cases hidx : b.bigPageIndex q with
  | none => rfl
  | some i =>
    by_cases hother : b.bigOf q ≠ b.bigOf at_ ∨ (b.start + at_) % b.bigPages = 0
    · exact hno i hidx hother
    · -- the page shares its big page with the split point
      have hat := bigPageIndex_at hidx hother
      exact hs.cut i hat.1 hat.2

theorem splitLower_inv (hs : SplitReady b at_ s)
    (hkeep : s.SplitKeeps b (b.lower at_ h).numBigPages (b.upper at_ h).numBigPages) :
    (splitLower s at_ (b.lower at_ h).numBigPages (b.upper at_ h).numBigPages).TablesInv
      (b.lower at_ h) := by
  have hsup := lower_not_supports2m h
  have hnum := lower_numBigPages h
  have hle := bigOf_at_le_hiBig h
  have hbig : ∀ i, (splitLower s at_ (b.lower at_ h).numBigPages
      (b.upper at_ h).numBigPages).bigPtes i = true →
      s.bigPtes i = true ∧ s.rangeBig = true ∧ i < (b.lower at_ h).numBigPages := fun i hi => by
    simp only [splitLower, Bool.and_eq_true, Bool.not_eq_true', Bool.and_eq_false_iff,
      decide_eq_false_iff_not, not_le] at hi
    have hr : s.rangeBig = true := by
      have := (hs.inv.bigPtes i hi.1).2.1
      simp only [usableBig, Bool.and_eq_true] at this
      exact this.1
    refine ⟨hi.1, hr, ?_⟩
    simpa [hr] using hi.2
  exact
    { is2m := by simp [splitLower]
      range2m := by simp [hsup]
      activatedBig := fun hact => by
        have hr := hs.inv.activatedBig hact
        have h2m : s.pteIs2m = false := by
          by_contra hc
          simpa [hr] using (hs.tables (by simpa using hc)).1
        have huse : s.usableBig b = true := by
          have hact : s.activatedBig = true := hact
          simp [usableBig, hr, hact]
        simp [splitLower, hr, (hkeep.flags (hs.inv.usable h2m huse)).1]
      activated4k := hs.inv.activated4k
      initialized := fun hinit => by
        obtain ⟨hr, hwritten⟩ := hs.inv.initialized hinit
        refine ⟨by simp [splitLower, hr, (hkeep.flags hinit).1], fun i hi => hwritten i ?_⟩
        rw [numBigPages_eq]
        omega
      top := fun _ => by
        have := hs.top_eq hkeep (Or.inl rfl)
        simpa [splitLower, usableBig, usable4k, hsup] using this
      usable := fun _ hu => by
        simp only [splitLower, usableBig, Bool.and_eq_true, decide_eq_true_eq] at hu
        exact hs.usable hkeep hu.1.1 (Or.inl hu.1.2)
      unusedBig := fun _ hr hu => by
        simp only [usableBig, hsup] at hu
        rw [hr] at hu
        simp at hu
      unused4k := fun _ hr hu => by
        simp only [usable4k, hsup] at hu
        rw [hr] at hu
        simp at hu
      bigPtes := fun i hi => by
        obtain ⟨hold, hr, hlt⟩ := hbig i hi
        refine ⟨hlt, ?_, (hs.inv.bigPtes i hold).2.2⟩
        simp [splitLower, usableBig, hsup, hr, (Nat.zero_lt_of_lt hlt).ne']
      small := fun _ hu p hp hp4k => by
        have h4k : s.range4k = true := by
          simp only [usable4k, Bool.and_eq_true] at hu
          exact hu.1
        refine hs.small_ne_none hkeep h4k (lt_trans hp h.2) fun i hidx hother => ?_
        have hlower := lower_bigPageIndex h hp hidx hother
        by_contra hc
        have hcov := (b.lower at_ h).bigPageIndex_eq_some.mp hlower
        simp only [pagesOfBig, hlower, splitLower] at hp4k
        have hi : s.bigPtes i = true := by simpa using hc
        simp [hi, Nat.not_le.mpr hcov.2] at hp4k
      allBig := by simp [hsup] }

theorem splitUpper_inv (hs : SplitReady b at_ s)
    (hkeep : s.SplitKeeps b (b.lower at_ h).numBigPages (b.upper at_ h).numBigPages) :
    (splitUpper s at_ b.numBigPages (b.lower at_ h).numBigPages
      (b.upper at_ h).numBigPages).TablesInv (b.upper at_ h) := by
  have hsup := upper_not_supports2m h
  have hlo := loBig_le_upper h
  have hhi := upper_hiBig h
  have hnum := numBigPages_eq (b.upper at_ h)
  have hnum' := numBigPages_eq b
  exact
    { is2m := by simp [splitUpper, PteState.fresh]
      range2m := by simp [hsup]
      activatedBig := by simp [splitUpper, PteState.fresh]
      activated4k := by simp [splitUpper, PteState.fresh]
      initialized := fun hinit => by
        simp only [splitUpper, Bool.and_eq_true] at hinit
        refine ⟨by simp [splitUpper, hinit.1, (hkeep.flags hinit.2).2], fun i hi => ?_⟩
        exact (hs.inv.initialized hinit.2).2 _ (by omega)
      top := fun _ => by
        have := hs.top_eq hkeep (Or.inr rfl)
        simpa [splitUpper, usableBig, usable4k, hsup] using this
      usable := fun _ hu => by
        simp only [splitUpper, usableBig, Bool.and_eq_true, decide_eq_true_eq] at hu
        simp [splitUpper, hu.1.1, hs.usable hkeep hu.1.1 (Or.inr hu.1.2)]
      unusedBig := fun _ hr hu => by
        simp only [usableBig, hsup] at hu
        rw [hr] at hu
        simp at hu
      unused4k := fun _ hr hu => by
        simp only [usable4k, hsup] at hu
        rw [hr] at hu
        simp at hu
      bigPtes := fun i hi => by
        simp only [splitUpper, Bool.and_eq_true] at hi
        obtain ⟨⟨hr, habove⟩, hold⟩ := hi
        have hold := hs.inv.bigPtes _ hold
        refine ⟨by omega, by simp [splitUpper, usableBig, hsup, hr, habove], hold.2.2⟩
      small := fun _ hu p hp hp4k => by
        have h4k : s.range4k = true := by
          simp only [usable4k, Bool.and_eq_true] at hu
          exact hu.1
        have hp : p < b.numPages - at_ := hp
        refine hs.small_ne_none hkeep h4k (q := p + at_) (by omega) fun i hidx hother => ?_
        obtain ⟨hupper, hback⟩ := upper_bigPageIndex h hidx hother
        by_contra hc
        have hi : s.bigPtes i = true := by simpa using hc
        have hr : s.rangeBig = true := by
          have := (hs.inv.bigPtes i hi).2.1
          simp only [usableBig, Bool.and_eq_true] at this
          exact this.1
        have habove := ((b.upper at_ h).bigPageIndex_eq_some.mp hupper).2
        simp only [pagesOfBig, hupper, splitUpper, hback, hi, hr] at hp4k
        simp [(Nat.zero_lt_of_lt habove).ne'] at hp4k
      allBig := by simp [hsup] }

private theorem SplitReady.keeps_of_tablesTrue (hs : SplitReady b at_ s)
    (hlower : (splitLower s at_ (b.lower at_ h).numBigPages
      (b.upper at_ h).numBigPages).TablesTrue (b.lower at_ h))
    (hupper : (splitUpper s at_ b.numBigPages (b.lower at_ h).numBigPages
      (b.upper at_ h).numBigPages).TablesTrue (b.upper at_ h)) :
    s.SplitKeeps b (b.lower at_ h).numBigPages (b.upper at_ h).numBigPages := by
  have htop : s.pteIs2m = false → ∀ keep,
      s.mem.top.afterSplit keep = .pde (s.usableBig b && keep) (s.usable4k b) := fun h2m keep => by
    rw [hs.inv.top h2m, TopEntry.afterSplit]
  refine { flags := fun hinit => ?_, linkedBig := fun hr => ?_, linked4k := fun hr => ?_ }
  · have hr := (hs.inv.initialized hinit).1
    have hbelow := (hlower.initialized hinit).1
    have habove := (hupper.initialized (by simp [splitUpper, hr, hinit])).1
    simp only [splitLower, splitUpper, Bool.and_eq_true, decide_eq_true_eq] at hbelow habove
    exact ⟨hbelow.2, habove.2⟩
  · have h2m : s.pteIs2m = false := by
      by_contra hc
      simpa [hr] using (hs.tables (by simpa using hc)).1
    -- a part that has a range of the table has it linked
    by_cases hbelow : (b.lower at_ h).numBigPages = 0
    · by_cases habove : (b.upper at_ h).numBigPages = 0
      · exact Or.inr ⟨hbelow, habove⟩
      · have hlinked := hupper.linkedBig (upper_not_supports2m h) (by simp [splitUpper, hr, habove])
        simp only [splitUpper, htop h2m, TopEntry.linksBig, Bool.and_eq_true] at hlinked
        exact Or.inl hlinked.1
    · have hlinked := hlower.linkedBig (lower_not_supports2m h) (by simp [splitLower, hr, hbelow])
      simp only [splitLower, htop h2m, TopEntry.linksBig, Bool.and_eq_true] at hlinked
      exact Or.inl hlinked.1
  · have h2m : s.pteIs2m = false := by
      by_contra hc
      simpa [hr] using (hs.tables (by simpa using hc)).2
    have hlinked := hlower.linked4k (lower_not_supports2m h) hr
    simpa only [splitLower, htop h2m, TopEntry.links4k] using hlinked

end Split

/-! ### The whole split -/

section Presplit

variable (b s) (io : PteInput) (at_ : ℕ)

/-- A big PTE of the block that is in use lies across the split point. -/
def PteState.cutsBigPte : Bool :=
  match b.bigPageIndex at_ with
  | some i => decide ((b.start + at_) % b.bigPages ≠ 0) && s.bigPtes i
  | none => false

/-- The 2M PTE of the block has to be split: it is valid, or has tables below. -/
def PteState.splits2m : Bool :=
  s.pteIs2m && (decide (s.pageProt 0 ≠ .none) || s.rangeBig || s.range4k)

variable {b s}

/-- Before the split of the state, the PTEs are split as far as needed. -/
private structure PresplitSpec (r : NvStatus × PteState) : Prop where
  inv : r.2.TablesInv b
  ready : r.1 = .ok → SplitReady b at_ r.2
  to2m : r.1 = .ok → s.splits2m = true → r.2.initializedBig = true ∧ r.2.Active b
  toBig : r.1 = .ok → s.pteIs2m = false → s.cutsBigPte b at_ = true →
    r.2.initializedBig = true ∧ r.2.Active b
  same : s.splits2m = false → s.cutsBigPte b at_ = false → r.2 = s

private theorem cutsBigPte_of_not_pte2m (h : s.TablesInv b) (h2m : s.pteIs2m = true) :
    s.cutsBigPte b at_ = false := by
  unfold cutsBigPte
  cases b.bigPageIndex at_ with
  | none => rfl
  | some i => simp [(h.is2m h2m).2.2.1 i]

private theorem presplit2m_spec (h : s.TablesInv b) (hsplit : s.splits2m = true) :
    PresplitSpec (b := b) (s := s) at_ (uvmVaBlockSplitPresplitPtesGpu b io at_ s) := by
  have h2m : s.pteIs2m = true := by
    simp only [splits2m, Bool.and_eq_true] at hsplit
    exact hsplit.1
  have hsup := (h.is2m h2m).1
  have hno : ¬ (s.pageProt 0 = .none ∧ s.rangeBig = false ∧ s.range4k = false) := by
    rintro ⟨h1, h2, h3⟩
    simp [splits2m, h1, h2, h3] at hsplit
  have hspec := blockAllocPtesWithRetry_spec (b := b) io.alloc
    (presplitSizes (decide ((b.start + at_) % b.bigPages = 0)))
    (by simp [presplitSizes]) s
  unfold uvmVaBlockSplitPresplitPtesGpu
  dsimp only
  rw [if_pos h2m, if_neg hno]
  generalize blockAllocPtesWithRetry b io.alloc
    (presplitSizes (decide ((b.start + at_) % b.bigPages = 0))) s = r at hspec ⊢
  have hinv := hspec.inv h
  split
  · next hfail =>
    exact ⟨hinv, fun hc => absurd hc hfail, fun hc => absurd hc hfail, fun hc => absurd hc hfail,
      fun hc => by simp [hsplit] at hc⟩
  · next hok =>
    have hok : r.1 = .ok := by simpa using hok
    split
    · next hfail =>
      exact ⟨hinv, fun hc => absurd hc hfail, fun hc => absurd hc hfail,
        fun hc => absurd hc hfail, fun hc => by simp [hsplit] at hc⟩
    · have hbig : r.2.rangeBig = true :=
        hspec.allocated hok .big (by simp) (by simp [allocSizes, presplitSizes])
      have h2m' : r.2.pteIs2m = true := by simp [hspec.pteIs2m, h2m]
      have hnum := b.numBigPages_of_supports2m hsup
      have hactive := split2m_active hinv h2m' io.toMap
        (fun i => decide (i < maxBigPages) &&
          (decide ((b.start + at_) % b.bigPages = 0) || decide (b.bigPageIndex at_ ≠ some i)))
        { lt := fun i hi => by
            simp only [Bool.and_eq_true, decide_eq_true_eq] at hi
            rw [hnum]
            exact hi.1
          range := fun _ _ => hbig
          all := fun _ h4k i hi => by
            -- 4k PTEs are allocated unless the split point is the start of a big page
            by_cases halign : (b.start + at_) % b.bigPages = 0
            · simp [hi, halign]
            · have : r.2.range4k = true := hspec.allocated hok .small (by simp)
                (by simp [allocSizes, presplitSizes, halign])
              simp [h4k] at this }
      refine
        { inv := hactive.tablesInv
          ready := fun _ =>
            { inv := hactive.tablesInv
              tables := fun hc => by simp [blockGpuSplit2m] at hc
              cut := fun i hi hcut => by simp [blockGpuSplit2m, hi, hcut] }
          to2m := fun _ _ => ⟨?_, hactive⟩
          toBig := fun _ hc => by simp [h2m] at hc
          same := fun hc => by simp [hsplit] at hc }
      simp [blockGpuSplit2m, blockGpuWritePde, hbig]

private theorem presplitBig_spec (h : s.TablesInv b) (h2m : s.pteIs2m = false) :
    PresplitSpec (b := b) (s := s) at_ (uvmVaBlockSplitPresplitPtesGpu b io at_ s) := by
  have hno2m : s.splits2m = false := by simp [splits2m, h2m]
  unfold uvmVaBlockSplitPresplitPtesGpu
  rw [if_neg (by simp [h2m])]
  cases hidx : b.bigPageIndex at_ with
  | none =>
    have hcuts : s.cutsBigPte b at_ = false := by simp [cutsBigPte, hidx]
    exact
      { inv := h
        ready := fun _ => ⟨h, by simp [h2m], by simp [hidx]⟩
        to2m := by simp [hno2m]
        toBig := by simp [hcuts]
        same := fun _ _ => rfl }
  | some i =>
    have hcuts : s.cutsBigPte b at_ =
        (decide ((b.start + at_) % b.bigPages ≠ 0) && s.bigPtes i) := by
      simp [cutsBigPte, hidx]
    dsimp only
    split
    · next hskip =>
      have hskip' : s.cutsBigPte b at_ = false := by
        rw [hcuts]
        by_cases halign : (b.start + at_) % b.bigPages = 0
        · simp [halign]
        · simpa [halign] using hskip
      refine
        { inv := h
          ready := fun _ => ⟨h, by simp [h2m], fun j hj hcut => ?_⟩
          to2m := by simp [hno2m]
          toBig := by simp [hskip']
          same := fun _ _ => rfl }
      obtain rfl : i = j := by simpa [hidx] using hj
      simpa [hcuts, hcut] using hskip'
    · next hgo =>
      have hi : s.bigPtes i = true := by
        by_contra hc
        simp [hc] at hgo
      have hcut : s.cutsBigPte b at_ = true := by
        by_contra hc
        simp_all
      have hspec := blockAllocPtesWithRetry_spec (b := b) io.alloc (only .small)
        (by simp [only]) s
      generalize blockAllocPtesWithRetry b io.alloc (only .small) s = r at hspec ⊢
      have hinv := hspec.inv h
      split
      · next hfail =>
        exact ⟨hinv, fun hc => absurd hc hfail, fun hc => absurd hc hfail,
          fun hc => absurd hc hfail, fun _ hc => by simp [hcut] at hc⟩
      · next hok =>
        have hok : r.1 = .ok := by simpa using hok
        split
        · next hfail =>
          exact ⟨hinv, fun hc => absurd hc hfail, fun hc => absurd hc hfail,
            fun hc => absurd hc hfail, fun _ hc => by simp [hcut] at hc⟩
        · have h4k : r.2.range4k = true :=
            hspec.allocated hok .small (by simp) (by simp [allocSizes, only])
          have hi' : r.2.bigPtes i = true := by rw [hspec.bigPtes, hi]
          have h2m' : r.2.pteIs2m = false := by
            by_contra hc
            have := (hinv.is2m (by simpa using hc)).2.2.1 i
            simp [hi'] at this
          have hactive := splitBig_active hinv h2m' h4k io.toMap (bigPageSingle i)
            (fun j hj => by
              obtain rfl : j = i := by simpa [bigPageSingle] using hj
              exact hi') (j := i) (by simp [bigPageSingle])
          refine
            { inv := hactive.tablesInv
              ready := fun _ =>
                { inv := hactive.tablesInv
                  tables := fun hc => by
                    exact absurd (hactive.not2m.symm.trans hc) (by simp)
                  cut := fun j hj _ => ?_ }
              to2m := by simp [hno2m]
              toBig := fun _ _ _ => ⟨?_, hactive⟩
              same := fun _ hc => by simp [hcut] at hc }
          · obtain rfl : i = j := by simpa [hidx] using hj
            simp [blockGpuSplitBig, bigPageSingle]
          · have hbig := hinv.bigPtes i hi'
            have : r.2.initializedBig = true := hinv.usable h2m' hbig.2.1
            rw [hactive.initialized]
            have hr := (hinv.initialized this).1
            simp only [blockGpuSplitBig, activateTables]
            split
            · simpa [blockGpuWritePde] using hr
            · exact hr

private theorem presplit_spec (h : s.TablesInv b) :
    PresplitSpec (b := b) (s := s) at_ (uvmVaBlockSplitPresplitPtesGpu b io at_ s) := by
  cases hsplit : s.splits2m with
  | true => exact presplit2m_spec io at_ h hsplit
  | false =>
    cases h2m : s.pteIs2m with
    | false => exact presplitBig_spec io at_ h h2m
    | true =>
      simp only [splits2m, h2m, Bool.true_and, Bool.or_eq_false_iff, decide_eq_false_iff_not,
        not_not] at hsplit
      have hsame : uvmVaBlockSplitPresplitPtesGpu b io at_ s = (.ok, s) := by
        unfold uvmVaBlockSplitPresplitPtesGpu
        rw [if_pos h2m, if_pos ⟨hsplit.1.1, hsplit.1.2, hsplit.2⟩]
      rw [hsame]
      exact
        { inv := h
          ready := fun _ => ⟨h, fun _ => ⟨hsplit.1.2, hsplit.2⟩, fun i _ _ => (h.is2m h2m).2.2.1 i⟩
          to2m := fun _ hc => by simp [splits2m, hsplit] at hc
          toBig := fun _ hc => by simp [h2m] at hc
          same := fun _ _ => rfl }

/-- What a split asks of the tables: with a 2M PTE to split, that both parts have big pages;
else, that both have some if the table of big PTEs was initialized, and that tables which are
not active get activated, as they are if a big PTE is split on the way. -/
structure PteState.SplitAsks (b : GpuBlock) (at_ bigBelow bigAbove : ℕ) (s : PteState) : Prop where
  flags : s.splits2m = true ∨ s.initializedBig = true → bigBelow ≠ 0 ∧ bigAbove ≠ 0
  linked : s.pteIs2m = false → s.cutsBigPte b at_ = false →
    (s.rangeBig = true → s.usableBig b = true ∨ bigBelow = 0 ∧ bigAbove = 0) ∧
      (s.range4k = true → s.usable4k b = true)

private theorem presplit_keeps_iff (h : s.TablesInv b) {r : NvStatus × PteState}
    (hspec : PresplitSpec (b := b) (s := s) at_ r) (hok : r.1 = .ok) (below above : ℕ) :
    r.2.SplitKeeps b below above ↔ s.SplitAsks b at_ below above := by
  -- with all tables active only the flag is left to ask for
  have hactive : r.2.initializedBig = true ∧ r.2.Active b →
      (r.2.SplitKeeps b below above ↔ below ≠ 0 ∧ above ≠ 0) := by
    rintro ⟨hinit, hact⟩
    have huse : r.2.rangeBig = true → r.2.usableBig b = true := fun hr => by
      cases hsup : b.supports2m with
      | true => simp [usableBig, hr, (hact.active hsup).1]
      | false => simp [usableBig, hr, hsup]
    have huse4k : r.2.range4k = true → r.2.usable4k b = true := fun hr => by
      cases hsup : b.supports2m with
      | true => simp [usable4k, hr, (hact.active hsup).2]
      | false => simp [usable4k, hr, hsup]
    exact ⟨fun hk => hk.flags hinit, fun hn => ⟨fun _ => hn, fun hr => Or.inl (huse hr), huse4k⟩⟩
  cases hsplit : s.splits2m with
  | true =>
    rw [hactive (hspec.to2m hok hsplit)]
    have h2m : s.pteIs2m = true := by
      simp only [splits2m, Bool.and_eq_true] at hsplit
      exact hsplit.1
    exact ⟨fun hn => ⟨fun _ => hn, fun hc => by simp [h2m] at hc⟩, fun hk => hk.flags (Or.inl hsplit)⟩
  | false =>
    cases hcuts : s.cutsBigPte b at_ with
    | true =>
      have h2m : s.pteIs2m = false := by
        by_contra hc
        simp [cutsBigPte_of_not_pte2m at_ h (by simpa using hc)] at hcuts
      rw [hactive (hspec.toBig hok h2m hcuts)]
      have hinit : s.initializedBig = true := by
        unfold cutsBigPte at hcuts
        cases hidx : b.bigPageIndex at_ with
        | none => simp [hidx] at hcuts
        | some i =>
          simp only [hidx, Bool.and_eq_true] at hcuts
          exact h.usable h2m (h.bigPtes i hcuts.2).2.1
      exact ⟨fun hn => ⟨fun _ => hn, fun _ hc => by simp [hcuts] at hc⟩,
        fun hk => hk.flags (Or.inr hinit)⟩
    | false =>
      rw [hspec.same hsplit hcuts]
      constructor
      · intro hk
        exact ⟨fun hf => hk.flags (hf.resolve_left (by simp [hsplit])),
          fun _ _ => ⟨hk.linkedBig, hk.linked4k⟩⟩
      · intro hk
        cases h2m : s.pteIs2m with
        | false =>
          exact ⟨fun hf => hk.flags (Or.inr hf), (hk.linked h2m hcuts).1, (hk.linked h2m hcuts).2⟩
        | true =>
          -- an invalid 2M PTE without tables below
          simp only [splits2m, h2m, Bool.true_and, Bool.or_eq_false_iff] at hsplit
          exact ⟨fun hf => hk.flags (Or.inr hf), fun hr => by simp [hsplit] at hr,
            fun hr => by simp [hsplit] at hr⟩

end Presplit

def splitResult (b : GpuBlock) (at_ : ℕ) (h : 0 < at_ ∧ at_ < b.numPages) :
    PteState ⊕ PteState × PteState → List (GpuBlock × PteState)
  | .inl s => [(b, s)]
  | .inr (lower, upper) => [(b.lower at_ h, lower), (b.upper at_ h, upper)]

section WholeSplit

variable (io : PteInput) (preallocate : NvStatus) {at_ : ℕ} (hat : 0 < at_ ∧ at_ < b.numPages)

/-- A split that succeeds keeps the bookkeeping true exactly if `SplitAsks`, and then it keeps
the invariant; one that fails keeps it anyway. -/
theorem split_spec (h : s.TablesInv b) :
    ((∀ q ∈ splitResult b at_ hat (uvmVaBlockSplit b io preallocate at_ hat s).2,
        q.2.TablesTrue q.1) ↔
      ((uvmVaBlockSplit b io preallocate at_ hat s).1 = .ok →
        s.SplitAsks b at_ (b.lower at_ hat).numBigPages (b.upper at_ hat).numBigPages)) ∧
    (((uvmVaBlockSplit b io preallocate at_ hat s).1 = .ok →
        s.SplitAsks b at_ (b.lower at_ hat).numBigPages (b.upper at_ hat).numBigPages) →
      ∀ q ∈ splitResult b at_ hat (uvmVaBlockSplit b io preallocate at_ hat s).2,
        q.2.TablesInv q.1) := by
  -- the PTEs are split first; a block without page tables is ready as it is
  have hpre : ∃ r, r = (if s.hasPageTables then uvmVaBlockSplitPresplitPtesGpu b io at_ s
      else (.ok, s)) ∧ PresplitSpec (b := b) (s := s) at_ r := by
    refine ⟨_, rfl, ?_⟩
    split
    · exact presplit_spec io at_ h
    · next hnone =>
      simp only [hasPageTables, Bool.not_eq_true, Bool.or_eq_false_iff] at hnone
      have h2m : s.pteIs2m = false := by
        by_contra hc
        simpa [hnone] using (h.is2m (by simpa using hc)).2.1
      have hbig : ∀ i, s.bigPtes i = false := fun i => by
        by_contra hc
        have := (h.bigPtes i (by simpa using hc)).2.1
        simp [usableBig, hnone] at this
      have hcuts : s.cutsBigPte b at_ = false := by
        unfold cutsBigPte
        cases b.bigPageIndex at_ <;> simp [hbig]
      exact
        { inv := h
          ready := fun _ => ⟨h, by simp [h2m], fun i _ _ => hbig i⟩
          to2m := fun _ hc => by simp [splits2m, h2m] at hc
          toBig := fun _ _ hc => by simp [hcuts] at hc
          same := fun _ _ => rfl }
  obtain ⟨r, hr, hspec⟩ := hpre
  unfold uvmVaBlockSplit
  rw [← hr]
  by_cases hok : r.1 = .ok
  · rw [if_neg (not_not.mpr hok)]
    by_cases hprealloc : preallocate = .ok
    · rw [if_neg (not_not.mpr hprealloc)]
      have hready := hspec.ready hok
      have hiff := presplit_keeps_iff at_ h hspec hok (b.lower at_ hat).numBigPages
        (b.upper at_ hat).numBigPages
      simp only [splitResult, List.mem_cons, List.not_mem_nil, or_false, forall_eq_or_imp,
        forall_eq, true_imp_iff, ← hiff]
      have hkeep : r.2.SplitKeeps b (b.lower at_ hat).numBigPages (b.upper at_ hat).numBigPages →
          (splitLower r.2 at_ (b.lower at_ hat).numBigPages
            (b.upper at_ hat).numBigPages).TablesInv (b.lower at_ hat) ∧
          (splitUpper r.2 at_ b.numBigPages (b.lower at_ hat).numBigPages
            (b.upper at_ hat).numBigPages).TablesInv (b.upper at_ hat) := fun hk =>
        ⟨splitLower_inv hat hready hk, splitUpper_inv hat hready hk⟩
      refine ⟨⟨fun htrue => hready.keeps_of_tablesTrue hat htrue.1 htrue.2, fun hk => ?_⟩, hkeep⟩
      · exact ⟨(hkeep hk).1.tablesTrue, (hkeep hk).2.tablesTrue⟩
    · rw [if_pos hprealloc]
      simp only [splitResult, List.mem_singleton, forall_eq]
      exact ⟨⟨fun _ hc => absurd hc hprealloc, fun _ => hspec.inv.tablesTrue⟩,
        fun _ => hspec.inv⟩
  · rw [if_pos hok]
    simp only [splitResult, List.mem_singleton, forall_eq]
    exact ⟨⟨fun _ hc => absurd hc hok, fun _ => hspec.inv.tablesTrue⟩, fun _ => hspec.inv⟩

end WholeSplit

/-! ## Removing the GPU VA space -/

def PteState.FlagsClear (s : PteState) : Prop :=
  s.initializedBig = false ∧ s.activatedBig = false ∧ s.activated4k = false

private theorem AllocSpec.flagsClear {pageSizes : PteSize → Bool} {l : List PteSize}
    {r : NvStatus × PteState} (hspec : AllocSpec b pageSizes l s r) (h : r.2.FlagsClear) :
    s.FlagsClear := by
  obtain ⟨hinit, hbig, h4k⟩ := h
  refine ⟨?_, by rw [← hspec.activatedBig, hbig], by rw [← hspec.activated4k, h4k]⟩
  by_contra hc
  have := hspec.initialized_mono (by simpa using hc)
  simp [hinit] at this

private theorem swizzlingUnmap_flags (io : PteInput) {new : NewPteState}
    (h : (blockGpuChangeSwizzlingUnmap b io new s).2.FlagsClear) : s.FlagsClear := by
  refine runUntil_keeps (fun s' => s'.FlagsClear → s.FlagsClear) _ ?_ s id h
  intro i _ s' hs' hclear
  apply hs'
  have hspec := blockAllocPtesWithRetry_spec (b := b) io.alloc
    (fun size => decide (size = if SwizzleOp.deswizzle = .swizzle then .big else .small))
    (by simp) s'
  unfold changeSwizzlingOwn at hclear
  dsimp only at hclear
  generalize blockAllocPtesWithRetry b io.alloc
    (fun size => decide (size = if SwizzleOp.deswizzle = .swizzle then .big else .small)) s' = r
    at hspec hclear
  split at hclear
  · exact hclear
  · apply hspec.flagsClear
    split at hclear
    · exact hclear
    · split at hclear <;> exact hclear

private theorem pushUnmapping_flags (io : PteInput) (pages : PageMask) (new : NewPteState)
    (h : (PteState.apply (pushUnmapping b io s pages new)).FlagsClear) : s.FlagsClear := by
  unfold pushUnmapping at h
  split at h
  · unfold blockGpuUnmapTo2m mergeTo2m at h
    split at h <;> exact h
  · split at h
    · simp only [FlagsClear, blockGpuUnmapSplit2m, splitWrite2m, finishSplit2m_fst,
        blockGpuWritePde, apply_initializedBig, apply_activatedBig, apply_activated4k,
        Bool.or_eq_false_iff] at h
      exact ⟨h.1.1, h.2.1.1, h.2.2.1⟩
    · simp only [FlagsClear, apply_initializedBig, apply_activatedBig, apply_activated4k,
        unmapBigAnd4k_fst] at h
      unfold activateTables at h
      split at h
      · simp only [blockGpuWritePde, initializeBig, Bool.or_eq_false_iff] at h
        exact ⟨h.1.1, h.2.1.1, h.2.2.1⟩
      · simp only [initializeBig, Bool.or_eq_false_iff] at h
        exact ⟨h.1.1, h.2.1, h.2.2⟩

private theorem unmapPages_flags (io : PteInput) (pages after : PageMask)
    (h : (unmapPages b io pages after s).2.FlagsClear) : s.FlagsClear := by
  unfold unmapPages at h
  dsimp only at h
  have his2m := computeNewPteState_is2m (b := b) s none pages after io.canMapBig
  generalize blockGpuComputeNewPteState b s none pages after io.canMapBig = new at h his2m
  have hspec := blockAllocPtesNewState_spec io.alloc new (fun h2m => (his2m h2m).1) s
  generalize blockAllocPtesNewState b io.alloc new s = r at h hspec
  apply hspec.flagsClear
  split at h
  · exact h
  · have hswizzled : (if b.swizzling = true then
        blockGpuChangeSwizzlingUnmap b io new r.2 else r).2.FlagsClear → r.2.FlagsClear := by
      split
      · exact swizzlingUnmap_flags io
      · exact id
    apply hswizzled
    generalize (if b.swizzling = true then
      blockGpuChangeSwizzlingUnmap b io new r.2 else r) = r' at h ⊢
    split at h
    · exact h
    · split at h
      · exact h
      · exact pushUnmapping_flags io pages new h

private theorem unmapGpu_flags (io : PteInput) (mask : PageMask)
    (h : (uvmVaBlockUnmapGpu b io mask s).2.FlagsClear) : s.FlagsClear := by
  unfold uvmVaBlockUnmapGpu at h
  dsimp only at h
  split at h
  · exact h
  · split at h
    · exact h
    · split at h
      · exact unmapPages_flags io _ _ h
      · exact unmapPages_flags io _ _ h

theorem computeUnmap_bigPtes (hsup : b.supports2m = false) (h2m : s.pteIs2m = false)
    (hr : s.rangeBig = false) (hold : ∀ i, s.bigPtes i = false) {pages : PageMask}
    (after : PageMask) (canMapBig : ℕ → Bool) (hpages : anyIn ⟨0, b.numPages⟩ pages = true) (i : ℕ) :
    (blockGpuComputeNewPteState b s none pages after canMapBig).bigPtes i = false := by
  obtain ⟨p, -, hp, hpage⟩ := anyIn_eq_true.mp hpages
  unfold blockGpuComputeNewPteState
  split
  · rfl
  · rw [if_neg (by simp [hsup])]
    split
    · rfl
    · -- some covered page or one outside all big pages needs a 4k PTE
      have hneed : ((List.range b.numBigPages).any (fun i =>
          decide (i < b.numBigPages) && anyIn (b.bigPageRegion i) pages) ||
          anyIn ⟨0, b.bigPageRegionAll.first⟩ pages ||
          anyIn ⟨b.bigPageRegionAll.outer, b.numPages⟩ pages) = true := by
        simp only [Bool.or_eq_true]
        cases hidx : b.bigPageIndex p with
        | some i =>
          have hi := (b.bigPageIndex_eq_some.mp hidx).2
          have hmem := b.mem_bigPageRegion_of_index hidx
          refine Or.inl (Or.inl (List.any_eq_true.mpr ⟨i, List.mem_range.mpr hi, ?_⟩))
          simpa [hi] using anyIn_eq_true.mpr ⟨p, hmem.1, hmem.2, hpage⟩
        | none =>
          unfold bigPageIndex at hidx
          split at hidx
          · next hout =>
            rcases hout with hlt | hge
            · exact Or.inl (Or.inr (anyIn_eq_true.mpr ⟨p, Nat.zero_le p, hlt, hpage⟩))
            · exact Or.inr (anyIn_eq_true.mpr ⟨p, hge, hp, hpage⟩)
          · cases hidx
      simp [hsup, h2m, hr, hold, hneed]

def PteState.mapsPages (b : GpuBlock) (s : PteState) : Bool :=
  anyIn ⟨0, b.numPages⟩ (s.pteBits .read)

theorem unmapAll_eq (io : PteInput) (h : s.hasPageTables = true) (hmaps : s.mapsPages b = true) :
    uvmVaBlockUnmapGpu b io allPages s =
      let r := unmapPages b io (s.pteBits .read) (fun _ => true) s
      if r.1 ≠ .ok then r
      else (io.addPush,
        { r.2 with pteBits := fun c p => r.2.pteBits c p && !s.pteBits .read p }) := by
  unfold mapsPages at hmaps
  simp [uvmVaBlockUnmapGpu, allPages, h, hmaps]

theorem unmapAll_eq_self (io : PteInput) (h : s.hasPageTables = false ∨ s.mapsPages b = false) :
    uvmVaBlockUnmapGpu b io allPages s = (.ok, s) := by
  unfold uvmVaBlockUnmapGpu
  split
  · rfl
  · next htables =>
    have htables : s.hasPageTables = true := by simpa using htables
    have hmaps : s.mapsPages b = false := h.resolve_left (by simp [htables])
    unfold mapsPages at hmaps
    rw [if_pos (by simpa [allPages] using hmaps)]

private theorem unmapAll_flagsClear (h : s.TablesInv b) (hclear : s.FlagsClear) (io : PteInput)
    (hforce : ¬ (s.force4kPtes = true ∧ s.pteIs2m = true ∧ s.mapsPages b = true)) :
    (uvmVaBlockUnmapGpu b io allPages s).2.FlagsClear := by
  by_cases hnothing : s.hasPageTables = false ∨ s.mapsPages b = false
  · rw [unmapAll_eq_self io hnothing]
    exact hclear
  · simp only [not_or, Bool.not_eq_false] at hnothing
    obtain ⟨htables, hmaps⟩ := hnothing
    rw [unmapAll_eq io htables hmaps]
    suffices hsuff : (unmapPages b io (s.pteBits .read) (fun _ => true) s).2.FlagsClear by
      dsimp only
      split <;> exact hsuff
    obtain ⟨hinit, hact, hact4k⟩ := hclear
    cases hsup : b.supports2m with
    | true =>
      have h2m : s.pteIs2m = true := by
        by_contra hc
        -- tables below a PDE that are not active are not all there is
        have hc : s.pteIs2m = false := by simpa using hc
        have huse4k : s.usable4k b = false := by simp [usable4k, hact4k, hsup]
        have hrange : s.range2m = true := by
          by_contra hno
          simp only [hasPageTables, Bool.or_eq_true] at htables
          rcases htables with (h4k | hbig) | h2
          · exact hno (h.range2m hsup (Or.inr h4k))
          · exact hno (h.range2m hsup (Or.inl hbig))
          · exact hno h2
        have := (h.bigPtes 0 (h.allBig hsup hc hrange huse4k 0 (by decide))).2.1
        simp [usableBig, hact, hsup] at this
      have hno : s.force4kPtes = false := by
        by_contra hc
        exact hforce ⟨by simpa using hc, h2m, hmaps⟩
      have hnew : blockGpuComputeNewPteState b s none (s.pteBits .read) (fun _ => true)
          io.canMapBig = { NewPteState.start with pteIs2m := true, needs4k := false } := by
        unfold blockGpuComputeNewPteState
        rw [if_neg (by simp [hno]), if_pos]
        simp [hsup, fullIn_eq_true]
      unfold unmapPages
      rw [hnew]
      dsimp only
      have hspec := blockAllocPtesNewState_spec (b := b) io.alloc
        { NewPteState.start with pteIs2m := true, needs4k := false } (fun _ => hsup) s
      generalize blockAllocPtesNewState b io.alloc
        { NewPteState.start with pteIs2m := true, needs4k := false } s = r at hspec ⊢
      have hr : r.2.FlagsClear := by
        have huntouched : r.2.rangeBig = s.rangeBig :=
          hspec.untouched .big (by simp [allocSizes])
        exact ⟨by rw [hspec.initializedBig huntouched, hinit], by rw [hspec.activatedBig, hact],
          by rw [hspec.activated4k, hact4k]⟩
      have hsw : b.swizzling = false := by
        by_contra hc
        have := not_supports2m_of_swizzling (by simpa using hc)
        simp [hsup] at this
      simp only [hsw, Bool.false_eq_true, if_false]
      split
      · exact hr
      · split
        · exact hr
        · unfold pushUnmapping blockGpuUnmapTo2m mergeTo2m
          simp only [if_true]
          split <;> exact hr
    | false =>
      have h2m := h.not_2m hsup
      have hbig : s.rangeBig = false := by
        by_contra hc
        have := h.usable h2m (by simp [usableBig, hsup]; simpa using hc)
        simp [hinit] at this
      have hnone := h.bigPtes_eq_false (by simp [usableBig, hbig])
      have hnew := computeUnmap_bigPtes hsup h2m hbig hnone (fun _ => true) io.canMapBig
        hmaps
      have his2m := computeNewPteState_is2m (b := b) s none (s.pteBits .read) (fun _ => true)
        io.canMapBig
      unfold unmapPages
      dsimp only
      generalize blockGpuComputeNewPteState b s none (s.pteBits .read) (fun _ => true)
        io.canMapBig = new at hnew his2m ⊢
      have hspec := blockAllocPtesNewState_spec (b := b) io.alloc new
        (fun hc => (his2m hc).1) s
      have hempty : bigEmpty new.bigPtes = true := by simp [bigEmpty, hnew]
      have hnew2m : new.pteIs2m = false := by
        by_contra hc
        simpa [hsup] using (his2m (by simpa using hc)).1
      generalize blockAllocPtesNewState b io.alloc new s = r at hspec ⊢
      have huntouched : r.2.rangeBig = s.rangeBig :=
        hspec.untouched .big (by simp [allocSizes, hempty])
      have hr : r.2.FlagsClear :=
        ⟨by rw [hspec.initializedBig huntouched, hinit], by rw [hspec.activatedBig, hact],
          by rw [hspec.activated4k, hact4k]⟩
      -- without big PTEs there is nothing to deswizzle
      have hsame : (if b.swizzling = true then
          blockGpuChangeSwizzlingUnmap b io new r.2 else r).2 = r.2 := by
        split
        · have hbits : (fun i => new.bigPtesCovered i && !new.bigPtesFullyUnmapped i &&
              r.2.bigPtes i) = fun _ => false := by
            funext i
            simp [hspec.bigPtes, hnone]
          unfold blockGpuChangeSwizzlingUnmap
          rw [hbits]
          rfl
        · rfl
      generalize (if b.swizzling = true then
        blockGpuChangeSwizzlingUnmap b io new r.2 else r) = r' at hsame ⊢
      split
      · exact hr
      · split
        · rw [hsame]
          exact hr
        · rw [hsame]
          have hrange : r.2.rangeBig = false := by rw [huntouched, hbig]
          have h2m' : r.2.pteIs2m = false := by
            have hinv := hspec.inv h
            exact hinv.not_2m hsup
          have hsame' : (activateTables b (initializeBig b r.2 new).1).1 =
              (initializeBig b r.2 new).1 := by
            simp [activateTables, blockGpuNeedsToActivateTable, hsup]
          split
          · exact hr
          · change (PteState.apply (pushUnmapping b io r.2 (s.pteBits .read) new)).FlagsClear
            simp only [pushUnmapping, hnew2m, h2m', Bool.false_eq_true, if_false, FlagsClear,
              apply_initializedBig, apply_activatedBig, apply_activated4k, unmapBigAnd4k_fst,
              hsame']
            exact ⟨by simp [initializeBig, hrange, hr.1], hr.2⟩

private theorem unmapAll_forced (h : s.TablesInv b) (io : PteInput)
    (hok : (uvmVaBlockUnmapGpu b io allPages s).1 = .ok) (hforce : s.force4kPtes = true)
    (h2m : s.pteIs2m = true) (hmaps : s.mapsPages b = true) :
    (uvmVaBlockUnmapGpu b io allPages s).2.activated4k = true := by
  obtain ⟨hsup, hrange, -⟩ := h.is2m h2m
  have htables : s.hasPageTables = true := by simp [hasPageTables, hrange]
  rw [unmapAll_eq io htables hmaps] at hok ⊢
  have hnew : blockGpuComputeNewPteState b s none (s.pteBits .read) (fun _ => true)
      io.canMapBig = .start := by
    unfold blockGpuComputeNewPteState
    rw [if_pos hforce]
  have hsw : b.swizzling = false := by
    by_contra hc
    have := not_supports2m_of_swizzling (by simpa using hc)
    simp [hsup] at this
  unfold unmapPages at hok ⊢
  rw [hnew] at hok ⊢
  dsimp only at hok ⊢
  have hspec := blockAllocPtesNewState_spec (b := b) io.alloc .start (fun _ => hsup) s
  generalize blockAllocPtesNewState b io.alloc .start s = r at hspec hok ⊢
  simp only [hsw, Bool.false_eq_true] at hok ⊢
  by_cases hr : r.1 = .ok
  · have h4k : r.2.range4k = true :=
      hspec.allocated hr .small (by simp) (by simp [allocSizes, NewPteState.start])
    have h2m' : r.2.pteIs2m = true := by simp [hspec.pteIs2m, h2m]
    by_cases hbegin : io.beginPush = .ok
    · simp [hr, hbegin, pushUnmapping, NewPteState.start, h2m', blockGpuUnmapSplit2m, splitWrite2m,
        blockGpuWritePde, h4k]
    · simp [hr, hbegin] at hok
  · simp [hr] at hok

/-- The removal gets as far as freeing the tables: all its failures are fatal for the system. -/
def removalFrees (b : GpuBlock) (io : PteInput) (resetPush wait : NvStatus) (s : PteState) : Prop :=
  (uvmVaBlockUnmapGpu b io allPages s).1 = .ok ∧
    ((!b.supports2m && !bigEmpty (uvmVaBlockUnmapGpu b io allPages s).2.bigPtes &&
      decide (resetPush ≠ .ok)) = false) ∧ wait = .ok

section Removal

variable (io : PteInput) (resetPush wait : NvStatus)

theorem removeGpuVaSpace_eq (h : removalFrees b io resetPush wait s) :
    uvmVaBlockRemoveGpuVaSpace b io resetPush wait s =
      { putPtes (resetPtes b (uvmVaBlockUnmapGpu b io allPages s).2) with
        pteIs2m := false
        bigPtes := fun _ => false } := by
  obtain ⟨hok, hreset, hwait⟩ := h
  unfold uvmVaBlockRemoveGpuVaSpace
  rw [if_neg (not_not.mpr hok), if_neg (by rw [hreset]; exact Bool.false_ne_true),
    if_neg (not_not.mpr hwait)]

theorem removeGpuVaSpace_eq_unmap (h : ¬ removalFrees b io resetPush wait s) :
    uvmVaBlockRemoveGpuVaSpace b io resetPush wait s = (uvmVaBlockUnmapGpu b io allPages s).2 := by
  unfold uvmVaBlockRemoveGpuVaSpace
  dsimp only
  split
  · rfl
  · next hok =>
    split
    · rfl
    · next hreset =>
      split
      · rfl
      · next hwait =>
        exact absurd ⟨not_not.mp hok, by simpa using hreset, not_not.mp hwait⟩ h

private theorem resetPtes_flags : (resetPtes b s).initializedBig = s.initializedBig ∧
      (resetPtes b s).activatedBig = s.activatedBig ∧
      (resetPtes b s).activated4k = s.activated4k := by
  unfold resetPtes
  split <;> simp

private theorem freed_tablesInv (hclear : s.FlagsClear) :
    { putPtes s with pteIs2m := false, bigPtes := fun _ => false }.TablesInv b where
  is2m := by simp
  range2m := by simp [putPtes]
  activatedBig := by simp [putPtes, hclear.2.1]
  activated4k := by simp [putPtes, hclear.2.2]
  initialized := by simp [putPtes, hclear.1]
  top := by simp [putPtes, usableBig, usable4k]
  usable := by simp [putPtes, usableBig]
  unusedBig := by simp [putPtes]
  unused4k := by simp [putPtes]
  bigPtes := by simp
  small := by simp [putPtes, usable4k]
  allBig := by simp [putPtes]

/-- What the removal of the GPU VA space asks: no flag set, and no 2M PTE that unmapping would
split. -/
def PteState.RemovalAsks (b : GpuBlock) (s : PteState) : Prop :=
  s.FlagsClear ∧ ¬ (s.force4kPtes = true ∧ s.pteIs2m = true ∧ s.mapsPages b = true)

/-- A removal that frees the tables keeps the bookkeeping true exactly if `RemovalAsks`, and then
it keeps the invariant; one that does not keeps it anyway. -/
theorem removeGpuVaSpace_spec (h : s.TablesInv b) :
    ((uvmVaBlockRemoveGpuVaSpace b io resetPush wait s).TablesTrue b ↔
      (removalFrees b io resetPush wait s → s.RemovalAsks b)) ∧
    ((removalFrees b io resetPush wait s → s.RemovalAsks b) →
      (uvmVaBlockRemoveGpuVaSpace b io resetPush wait s).TablesInv b) := by
  by_cases hfrees : removalFrees b io resetPush wait s
  · obtain ⟨hinit, hbig, h4k⟩ :=
      resetPtes_flags (b := b) (s := (uvmVaBlockUnmapGpu b io allPages s).2)
    have hclear : s.RemovalAsks b → (resetPtes b (uvmVaBlockUnmapGpu b io allPages s).2).FlagsClear :=
      fun hasks => by
        have := unmapAll_flagsClear h hasks.1 io hasks.2
        exact ⟨hinit.trans this.1, hbig.trans this.2.1, h4k.trans this.2.2⟩
    rw [removeGpuVaSpace_eq io resetPush wait hfrees]
    refine ⟨⟨fun htrue _ => ?_, fun hasks => ?_⟩, fun hasks => ?_⟩
    · -- the flags are not reset, so they were not set before
      have hflags : (uvmVaBlockUnmapGpu b io allPages s).2.FlagsClear := by
        refine ⟨?_, ?_, ?_⟩
        · by_contra hc
          have := (htrue.initialized (by simpa [putPtes, hinit] using hc)).1
          simp [putPtes] at this
        · by_contra hc
          have := (htrue.activatedBig rfl (by simpa [putPtes, hbig] using hc)).1
          simp [putPtes] at this
        · by_contra hc
          have := (htrue.activated4k rfl (by simpa [putPtes, h4k] using hc)).1
          simp [putPtes] at this
      refine ⟨unmapGpu_flags io allPages hflags, ?_⟩
      rintro ⟨hforce, h2m, hmaps⟩
      have := unmapAll_forced h io hfrees.1 hforce h2m hmaps
      simp [hflags.2.2] at this
    · exact (freed_tablesInv (hclear (hasks hfrees))).tablesTrue
    · exact freed_tablesInv (hclear (hasks hfrees))
  · rw [removeGpuVaSpace_eq_unmap io resetPush wait hfrees]
    have hinv := unmapGpu_inv h io allPages
    exact ⟨⟨fun _ hc => absurd hc hfrees, fun _ => hinv.tablesTrue⟩, fun _ => hinv⟩

end Removal

/-! ## Runs -/

/-- What happens to the PTEs of a GPU when a big page that it maps is swizzled or deswizzled for
another GPU's operation, or for a split: it is unmapped, and mapped again with the other size
unless the change fails. -/
def changeSwizzlingOther (b : GpuBlock) (io : PteInput) (op : SwizzleOp) (i : ℕ) (s : PteState) :
    NvStatus × PteState :=
  let r := blockAllocPtesWithRetry b io.alloc
    (fun size => decide (size = if op = .swizzle then .big else .small)) s
  if r.1 ≠ .ok then r
  else if io.beforeSwizzle i ≠ .ok then (io.beforeSwizzle i, r.2)
  else
    let s := PteState.apply (blockGpuBigPageChangeSwizzlingUnmap b r.2 i op)
    if io.afterSwizzle i ≠ .ok then (io.afterSwizzle i, s)
    else (.ok, PteState.apply (blockGpuBigPageChangeSwizzlingRemap b s io.toMap i op))

/-- The pages and tables of one GPU for one block. -/
abbrev PtePair := GpuBlock × PteState

/-- An operation on a block, with what it meets. -/
inductive PteOp where
  | map (io : PteInput) (residentId : ProcessorId) (mapPageMask : PageMask) (newProt : Prot)
  | revoke (io : PteInput) (residentId : ProcessorId) (revokePageMask : PageMask)
      (protToRevoke : Prot)
  | unmap (io : PteInput) (unmapPageMask : PageMask)
  | cancel (io : PteInput)
  | changeSwizzling (io : PteInput) (op : SwizzleOp) (i : ℕ)
  | split (io : PteInput) (preallocate : NvStatus) (at_ : ℕ)
  | removeGpuVaSpace (io : PteInput) (resetPush wait : NvStatus)

/-- Swizzling changes are made by GPUs that have them, on big pages of the block; what is
deswizzled is mapped by a big PTE (both are asserted by the code). -/
def swizzlingAllowed (q : PtePair) (op : SwizzleOp) (i : ℕ) : Bool :=
  q.1.swizzling && decide (i < q.1.numBigPages) && (decide (op = .swizzle) || q.2.bigPtes i)

def PtePair.step (q : PtePair) : PteOp → List PtePair
  | .map io residentId mask newProt => [(q.1, (uvmVaBlockMapGpuTo q.1 io residentId mask newProt q.2).2)]
  | .revoke io residentId mask prot =>
    [(q.1, (uvmVaBlockRevokeProtGpuTo q.1 io residentId mask prot q.2).2)]
  | .unmap io mask => [(q.1, (uvmVaBlockUnmapGpu q.1 io mask q.2).2)]
  | .cancel io => [(q.1, (blockGpuForce4kPtes q.1 io q.2).2)]
  | .changeSwizzling io op i =>
    if swizzlingAllowed q op i then [(q.1, (changeSwizzlingOther q.1 io op i q.2).2)] else [q]
  | .split io preallocate at_ =>
    if h : 0 < at_ ∧ at_ < q.1.numPages then
      splitResult q.1 at_ h (uvmVaBlockSplit q.1 io preallocate at_ h q.2).2
    else [q]
  | .removeGpuVaSpace io resetPush wait =>
    [(q.1, uvmVaBlockRemoveGpuVaSpace q.1 io resetPush wait q.2)]

def pteStep : List PtePair → ℕ × PteOp → List PtePair
  | [], _ => []
  | q :: l, (0, op) => q.step op ++ l
  | q :: l, (n + 1, op) => q :: pteStep l (n, op)

/-- What a step asks of the block it is made on.  Only a split that succeeds and a removal that
frees the tables ask for something. -/
def PtePair.Asks (q : PtePair) : PteOp → Prop
  | .split io preallocate at_ => ∀ h : 0 < at_ ∧ at_ < q.1.numPages,
      (uvmVaBlockSplit q.1 io preallocate at_ h q.2).1 = .ok →
      q.2.SplitAsks q.1 at_ (q.1.lower at_ h).numBigPages (q.1.upper at_ h).numBigPages
  | .removeGpuVaSpace io resetPush wait =>
      removalFrees q.1 io resetPush wait q.2 → q.2.RemovalAsks q.1
  | _ => True

def StepAsks (l : List PtePair) (o : ℕ × PteOp) : Prop := ∀ q, l[o.1]? = some q → q.Asks o.2

/-- The bookkeeping of all blocks is true of their tables. -/
def AllTablesTrue (l : List PtePair) : Prop := ∀ q ∈ l, q.2.TablesTrue q.1

theorem forall_pteStep {P : PtePair → Prop} {l : List PtePair} (hl : ∀ q ∈ l, P q)
    (n : ℕ) (op : PteOp) :
    (∀ q ∈ pteStep l (n, op), P q) ↔ ∀ q, l[n]? = some q → ∀ q' ∈ q.step op, P q' := by
  induction l generalizing n with
  | nil => simp [pteStep]
  | cons q l ih =>
    have hrest : ∀ q' ∈ l, P q' := fun q' hq' => hl q' (List.mem_cons_of_mem _ hq')
    cases n with
    | zero =>
      simp only [pteStep, List.mem_append, List.getElem?_cons_zero, Option.some.injEq, forall_eq']
      exact ⟨fun h q' hq' => h q' (Or.inl hq'), fun h q' hq' => hq'.elim (h q') (hrest q')⟩
    | succ n =>
      simp only [pteStep, List.mem_cons, forall_eq_or_imp, ih hrest]
      exact ⟨fun h => h.2, fun h => ⟨hl q (by simp), h⟩⟩

private theorem changeSwizzlingOther_inv {q : PtePair} (h : q.2.TablesInv q.1) (io : PteInput)
    {op : SwizzleOp} {i : ℕ} (hallowed : swizzlingAllowed q op i = true) :
    (changeSwizzlingOther q.1 io op i q.2).2.TablesInv q.1 := by
  simp only [swizzlingAllowed, Bool.and_eq_true, decide_eq_true_eq] at hallowed
  obtain ⟨⟨hsw, hi⟩, hop⟩ := hallowed
  have hsup := not_supports2m_of_swizzling hsw
  have hspec := blockAllocPtesWithRetry_spec (b := q.1) io.alloc
    (fun size => decide (size = if op = .swizzle then .big else .small))
    (by cases op <;> simp) q.2
  unfold changeSwizzlingOther
  dsimp only
  generalize blockAllocPtesWithRetry q.1 io.alloc
    (fun size => decide (size = if op = .swizzle then .big else .small)) q.2 = r at hspec ⊢
  have hinv := hspec.inv h
  split
  · exact hinv
  · next hok =>
    have hok : r.1 = .ok := by simpa using hok
    split
    · exact hinv
    · have hunmap := swizzlingUnmap_inv hinv hsup op hi fun hop =>
        hspec.allocated hok .big (by simp) (by simp [allocSizes, hop])
      split
      · exact hunmap
      · cases op with
        | swizzle =>
          exact hunmap.writeBig hsup i (bigPteFor_ne_invalid _ _) _ _
        | deswizzle =>
          have hbig : q.2.bigPtes i = true := by simpa using hop
          have h4k : r.2.range4k = true :=
            hspec.allocated hok .small (by simp) (by simp [allocSizes])
          refine (splitBig_active hunmap (hunmap.not_2m hsup) h4k io.toMap
            (bigPageSingle i) (fun j hj => ?_) (j := i) (by simp [bigPageSingle])).tablesInv
          obtain rfl : j = i := by simpa [bigPageSingle] using hj
          simp [blockGpuBigPageChangeSwizzlingUnmap, hspec.bigPtes, hbig]

/-- What a step leaves of a block whose invariant holds: the bookkeeping is true exactly if the
step's condition is met, and then the invariant holds again. -/
private theorem pair_step_spec {q : PtePair} (h : q.2.TablesInv q.1) (op : PteOp) :
    ((∀ q' ∈ q.step op, q'.2.TablesTrue q'.1) ↔ q.Asks op) ∧
      (q.Asks op → ∀ q' ∈ q.step op, q'.2.TablesInv q'.1) := by
  -- an operation that asks for nothing and leaves one block
  have hkeep : ∀ s : PteState, s.TablesInv q.1 →
      ((∀ q' ∈ ([(q.1, s)] : List PtePair), q'.2.TablesTrue q'.1) ↔ True) ∧
        (True → ∀ q' ∈ ([(q.1, s)] : List PtePair), q'.2.TablesInv q'.1) := fun s hs => by
    simp only [List.mem_singleton, forall_eq, iff_true, true_imp_iff]
    exact ⟨hs.tablesTrue, hs⟩
  cases op with
  | map io residentId mask newProt => exact hkeep _ (mapGpuTo_inv h io residentId mask newProt)
  | revoke io residentId mask prot => exact hkeep _ (revokeProtGpuTo_inv h io residentId mask prot)
  | unmap io mask => exact hkeep _ (unmapGpu_inv h io mask)
  | cancel io => exact hkeep _ (force4kPtes_inv h io)
  | changeSwizzling io op i =>
    simp only [PtePair.step, PtePair.Asks]
    split
    · next hallowed => exact hkeep _ (changeSwizzlingOther_inv h io hallowed)
    · exact hkeep q.2 h
  | split io preallocate at_ =>
    simp only [PtePair.step, PtePair.Asks]
    by_cases hat : 0 < at_ ∧ at_ < q.1.numPages
    · simp only [hat, and_self, forall_true_left]
      exact split_spec io preallocate hat h
    · simp only [hat, IsEmpty.forall_iff]
      exact hkeep q.2 h
  | removeGpuVaSpace io resetPush wait =>
    simp only [PtePair.step, List.mem_singleton, forall_eq]
    exact removeGpuVaSpace_spec io resetPush wait h

/-- **The bookkeeping of page tables along a run**, from a block the GPU has not used yet: it is
true of the tables in every state exactly if every split and every removal of the GPU VA space
on the way is made in a state that meets its condition. -/
theorem tablesTrue_along_iff (b : GpuBlock) (ops : List (ℕ × PteOp)) :
    HoldsAlong pteStep AllTablesTrue [(b, .fresh)] ops ↔
      StepsMeet pteStep StepAsks [(b, .fresh)] ops := by
  apply holds_along_iff_of_guarded (W := fun l => ∀ q ∈ l, q.2.TablesInv q.1)
  · simp [fresh_tablesInv]
  · exact fun l hl q hq => (hl q hq).tablesTrue
  · intro l op hl
    unfold AllTablesTrue StepAsks
    rw [forall_pteStep (P := fun q => q.2.TablesTrue q.1) fun q hq => (hl q hq).tablesTrue]
    exact forall₂_congr fun q hq => (pair_step_spec (hl q (List.mem_of_getElem? hq)) op.2).1
  · intro l op hl hasks
    rw [forall_pteStep hl]
    exact fun q hq => (pair_step_spec (hl q (List.mem_of_getElem? hq)) op.2).2 (hasks q hq)

def block2m : GpuBlock where
  start := 0
  numPages := 512
  bigPages := 16
  has2m := true
  swizzling := false
  pages_pos := by decide
  fits := by decide
  minBig := by decide
  big_of_2m := fun _ => rfl
  no_swizzle_2m := fun _ => rfl

/-- Every page is resident on GPU 1, and nothing fails. -/
def onGpu1 : PteInput where
  resident := fun _ => true
  toMap := fun _ => ⟨1, by decide⟩
  canMapBig := fun _ => false
  swizzled := fun _ => false
  alloc := fun _ => .ok
  beginPush := .ok
  addPush := .ok
  beforeSwizzle := fun _ => .ok
  afterSwizzle := fun _ => .ok

/-- Mapping one page with a 4k PTE and removing the GPU VA space leaves `activated_4k` set
without a table of 4k PTEs. -/
theorem removal_leaves_flags : ¬ HoldsAlong pteStep AllTablesTrue [(block2m, .fresh)]
      [(0, .map onGpu1 ⟨1, by decide⟩ (fun p => decide (p = 0)) .readWrite),
        (0, .removeGpuVaSpace onGpu1 .ok .ok)] := by
  intro h
  have hlast := h _ (List.prefix_refl _)
  have hact := (hlast _ (List.mem_singleton_self _)).activated4k
  exact absurd (hact (by decide +kernel) (by decide +kernel)).1 (by decide +kernel)

end NvUvm
