import NvUvm.GpuPtes

/-!
# Changing the PTEs of a block

Model of the functions of `uvm8_va_block.c` that push PTE and PDE writes for one block and GPU:
`block_gpu_map_to_2m`, `block_gpu_map_split_2m`, `block_gpu_split_2m`, `block_gpu_split_big`,
`block_gpu_map_big_and_4k` and their unmapping counterparts.

Each returns the software state it leaves, whose memory is still the old one, and the methods
it pushes in order; `PteState.apply` carries them out.  A batch of PTE writes ends before the
batch of TLB invalidates that goes with it.  Membars are left out, and so are the poison
patterns that debug builds write into unused PTEs.
-/

namespace NvUvm

open GpuBlock

/-- `uvm_va_block_new_pte_state_t`. -/
structure NewPteState where
  pteIs2m : Bool
  needs4k : Bool
  bigPtes : BigMask
  bigPtesCovered : BigMask
  bigPtesFullyUnmapped : BigMask

/-- The software state a function leaves, and what it pushes. -/
abbrev PtePush := PteState × List PteCmd

def PteState.apply (r : PtePush) : PteState := { r.1 with mem := r.1.mem.execAll r.2 }

namespace PteState

variable (r : PtePush)

@[simp] theorem apply_pteIs2m : (apply r).pteIs2m = r.1.pteIs2m := rfl
@[simp] theorem apply_initializedBig : (apply r).initializedBig = r.1.initializedBig := rfl
@[simp] theorem apply_activatedBig : (apply r).activatedBig = r.1.activatedBig := rfl
@[simp] theorem apply_activated4k : (apply r).activated4k = r.1.activated4k := rfl
@[simp] theorem apply_force4kPtes : (apply r).force4kPtes = r.1.force4kPtes := rfl
@[simp] theorem apply_range2m : (apply r).range2m = r.1.range2m := rfl
@[simp] theorem apply_rangeBig : (apply r).rangeBig = r.1.rangeBig := rfl
@[simp] theorem apply_range4k : (apply r).range4k = r.1.range4k := rfl
@[simp] theorem apply_bigPtes : (apply r).bigPtes = r.1.bigPtes := rfl
@[simp] theorem apply_pteBits : (apply r).pteBits = r.1.pteBits := rfl

@[simp] theorem apply_top : (apply r).mem.top = (lastTop r.2).getD r.1.mem.top := execAll_top _ _
@[simp] theorem apply_big (i : ℕ) :
    (apply r).mem.big i = (lastBig i r.2).or (r.1.mem.big i) := execAll_big _ _ _
@[simp] theorem apply_small (p : ℕ) :
    (apply r).mem.small p = (lastSmall p r.2).or (r.1.mem.small p) := execAll_small _ _ _

end PteState

variable (b : GpuBlock)

/-! ## The 2M entry -/

def blockGpuNeedsToActivateTable (s : PteState) : Bool :=
  b.supports2m && ((s.rangeBig && !s.activatedBig) || (s.range4k && !s.activated4k))

/-- `block_gpu_write_pde`: the PDE gets a pointer to every table that is allocated. -/
def blockGpuWritePde (s : PteState) : PtePush :=
  ({ s with
      activatedBig := s.activatedBig || s.rangeBig
      activated4k := s.activated4k || s.range4k },
    [.top (.pde s.rangeBig s.range4k), .invalidate allPages (only .two)])

def blockGpuPteFinishSplit2m (s : PteState) : PtePush :=
  -- a valid 2M PTE is made invalid before the entry becomes a PDE
  let down : List PteCmd := if s.pageProt 0 = .none then []
    else [.top .invalid, .invalidate allPages (only .two)]
  let r := blockGpuWritePde s
  (r.1, down ++ r.2)

@[simp] theorem finishSplit2m_fst (s : PteState) :
    (blockGpuPteFinishSplit2m s).1 = (blockGpuWritePde s).1 := rfl

@[simp] theorem lastTop_finishSplit2m (s : PteState) :
    lastTop (blockGpuPteFinishSplit2m s).2 = some (.pde s.rangeBig s.range4k) := by
  unfold blockGpuPteFinishSplit2m blockGpuWritePde
  split <;> simp

@[simp] theorem lastBig_finishSplit2m (s : PteState) (i : ℕ) :
    lastBig i (blockGpuPteFinishSplit2m s).2 = none := by
  unfold blockGpuPteFinishSplit2m blockGpuWritePde
  split <;> simp

@[simp] theorem lastSmall_finishSplit2m (s : PteState) (p : ℕ) :
    lastSmall p (blockGpuPteFinishSplit2m s).2 = none := by
  unfold blockGpuPteFinishSplit2m blockGpuWritePde
  split <;> simp

def blockGpuPteMerge2m (s : PteState) : List PteCmd :=
  [.top .invalid,
    .invalidate allPages fun size => match size with
      | .two => true
      | .big => s.rangeBig
      | .small => !bigFull s.bigPtes]

/-- The first part of `block_gpu_map_to_2m` and of `block_gpu_unmap_to_2m`: a PDE becomes an
invalid 2M PTE. -/
def mergeTo2m (s : PteState) : PtePush :=
  if s.pteIs2m then (s, [])
  else ({ s with pteIs2m := true, bigPtes := fun _ => false }, blockGpuPteMerge2m s)

def blockGpuMapTo2m (s : PteState) (residentId : ProcessorId) (newProt : Prot) : PtePush :=
  let r := mergeTo2m s
  (r.1, r.2 ++ [.top (.valid ⟨residentId, newProt⟩), .invalidate allPages (only .two)])

def blockGpuUnmapTo2m (s : PteState) : PtePush :=
  if s.pteIs2m then (s, [.top .invalid, .invalidate allPages (only .two)])
  else mergeTo2m s

/-! ## Splitting PTEs -/

/-- `block_gpu_pte_big_split_write_4k`: the 4k PTEs under big PTEs that are split.  The pages of
`newPages` get the new mapping, the others inherit what the big page had.  Without a
`residentId` the inherited target is looked up. -/
def blockGpuPteBigSplitWrite4k (s : PteState) (toMap : ℕ → ProcessorId)
    (residentId : Option ProcessorId) (newProt : Prot) (bigPtesCovered : BigMask)
    (newPages : PageMask) : List PteCmd :=
  (setBits bigPtesCovered).flatMap fun i =>
    let first := (b.bigPageRegion i).first
    let target := residentId.getD (toMap first)
    [.small (fun p => b.pagesOfRegion i p && newPages p) (smallPteFor target newProt),
      .small (fun p => b.pagesOfRegion i p && !newPages p) (smallPteFor target (s.pageProt first))]

section SplitWrite4k

variable (s : PteState) (toMap : ℕ → ProcessorId) (residentId : Option ProcessorId)
  (newProt : Prot) (covered : BigMask) (newPages : PageMask)

@[simp] theorem lastTop_bigSplitWrite4k :
    lastTop (blockGpuPteBigSplitWrite4k b s toMap residentId newProt covered newPages) = none := by
  unfold blockGpuPteBigSplitWrite4k
  induction setBits covered with
  | nil => rfl
  | cons i l ih => simpa using ih

@[simp] theorem lastBig_bigSplitWrite4k (i : ℕ) :
    lastBig i (blockGpuPteBigSplitWrite4k b s toMap residentId newProt covered newPages) =
      none := by
  unfold blockGpuPteBigSplitWrite4k
  induction setBits covered with
  | nil => rfl
  | cons i l ih => simpa using ih

/-- What the split writes for a page: nothing outside the covered big pages, and inside them
the new mapping or the one of the big page's first page. -/
theorem lastSmall_bigSplitWrite4k (hcovered : ∀ i, covered i = true → i < b.numBigPages) (p : ℕ) :
    lastSmall p (blockGpuPteBigSplitWrite4k b s toMap residentId newProt covered newPages) =
      match b.bigPageIndex p with
      | some i => if covered i then
          some (smallPteFor (residentId.getD (toMap (b.bigPageRegion i).first))
            (if newPages p then newProt else s.pageProt (b.bigPageRegion i).first))
        else none
      | none => none := by
  have hlt : ∀ i ∈ setBits covered, i < b.numBigPages := fun i hi =>
    hcovered i (mem_setBits.mp hi).2
  unfold blockGpuPteBigSplitWrite4k
  rw [lastSmall_flatMap p b hlt (v := fun i =>
    smallPteFor (residentId.getD (toMap (b.bigPageRegion i).first))
      (if newPages p then newProt else s.pageProt (b.bigPageRegion i).first))]
  · cases hidx : b.bigPageIndex p with
    | none => rfl
    | some i =>
      have hi := lt_of_lt_of_le (b.bigPageIndex_eq_some.mp hidx).2 b.numBigPages_le
      simp [hi]
  · intro i
    by_cases h : b.bigOf p = b.loBig + i <;> by_cases hnew : newPages p = true <;>
      simp [b.pagesOfRegion_eq, hnew]

end SplitWrite4k

/-- What `block_gpu_map_split_2m` and `block_gpu_unmap_split_2m` share: the 2M PTE is split into
the mix of PTEs that `new` describes. -/
def splitWrite2m (s : PteState) (toMap : ℕ → ProcessorId) (residentId : ProcessorId)
    (newProt : Prot) (pages : PageMask) (new : NewPteState) : PtePush :=
  let bigPtesSplit := bigCompl maxBigPages new.bigPtes
  let writesBig : List PteCmd := if s.rangeBig then
    [.big (fun i => new.bigPtes i && !new.bigPtesCovered i) (bigPteFor residentId (s.pageProt 0)),
      .big (fun i => new.bigPtes i && new.bigPtesCovered i) (bigPteFor residentId newProt),
      .big bigPtesSplit .invalid] else []
  -- all big PTEs are written, if there are any
  let s' := { s with initializedBig := s.initializedBig || s.rangeBig }
  let writes4k :=
    blockGpuPteBigSplitWrite4k b s toMap (some residentId) newProt bigPtesSplit pages
  let r := blockGpuPteFinishSplit2m s'
  ({ r.1 with pteIs2m := false, bigPtes := new.bigPtes }, writesBig ++ writes4k ++ r.2)

def blockGpuMapSplit2m (s : PteState) (toMap : ℕ → ProcessorId) (residentId : ProcessorId)
    (newProt : Prot) (pagesToWrite : PageMask) (new : NewPteState) : PtePush :=
  splitWrite2m b s toMap residentId newProt pagesToWrite new

def blockGpuUnmapSplit2m (s : PteState) (toMap : ℕ → ProcessorId) (pagesToUnmap : PageMask)
    (new : NewPteState) : PtePush :=
  splitWrite2m b s toMap (toMap 0) .none pagesToUnmap new

/-- `block_gpu_split_2m`, where `newBigPtes` is empty for `NULL`. -/
def blockGpuSplit2m (s : PteState) (toMap : ℕ → ProcessorId) (newBigPtes : BigMask) : PtePush :=
  let s' := { s with initializedBig := s.initializedBig || s.rangeBig }
  let bigPtesSplit := bigCompl maxBigPages newBigPtes
  let writes : List PteCmd :=
    [.small (b.pagesOfBig bigPtesSplit) (smallPteFor (toMap 0) (s.pageProt 0)),
      .big newBigPtes (bigPteFor (toMap 0) (s.pageProt 0))]
  -- invalid big PTEs activate the 4k PTEs below
  let writesBig : List PteCmd := if s.rangeBig then [.big bigPtesSplit .invalid] else []
  let r := blockGpuPteFinishSplit2m s'
  ({ r.1 with pteIs2m := false, bigPtes := newBigPtes }, writes ++ writesBig ++ r.2)

/-- The last step of a push that changes big and 4k PTEs: tables that are not active yet are
activated. -/
def activateTables (s : PteState) : PtePush :=
  if blockGpuNeedsToActivateTable b s then blockGpuWritePde s else (s, [])

@[simp] theorem lastTop_activateTables (s : PteState) :
    lastTop (activateTables b s).2 = if blockGpuNeedsToActivateTable b s then
      some (.pde s.rangeBig s.range4k) else none := by
  unfold activateTables blockGpuWritePde
  split <;> simp

@[simp] theorem lastBig_activateTables (s : PteState) (i : ℕ) :
    lastBig i (activateTables b s).2 = none := by
  unfold activateTables blockGpuWritePde
  split <;> simp

@[simp] theorem lastSmall_activateTables (s : PteState) (p : ℕ) :
    lastSmall p (activateTables b s).2 = none := by
  unfold activateTables blockGpuWritePde
  split <;> simp

def blockGpuSplitBig (s : PteState) (toMap : ℕ → ProcessorId) (bigPtesToSplit : BigMask) :
    PtePush :=
  let writes4k : List PteCmd := (setBits bigPtesToSplit).map fun i =>
    let first := (b.bigPageRegion i).first
    .small (b.pagesOfRegion i) (smallPteFor (toMap first) (s.pageProt first))
  let valid : BigMask := fun i =>
    bigPtesToSplit i && decide (s.pageProt (b.bigPageRegion i).first ≠ .none)
  let r := activateTables b s
  ({ r.1 with bigPtes := fun i => s.bigPtes i && !bigPtesToSplit i },
    writes4k ++ [.big valid .unmapped, .invalidate (b.pagesOfBig valid) (only .big)] ++
    [.big bigPtesToSplit .invalid] ++ r.2 ++
    [.invalidate (b.pagesOfBig bigPtesToSplit) (only .big)])

/-! ## Changing a mix of big and 4k PTEs -/

/-- `block_gpu_pte_merge_big_and_end`, up to the end of its batches: the writes, and the
invalidates.  Nothing is pushed for an empty mask, which the callers test for. -/
def blockGpuPteMergeBigAndEnd (bigPtesToMerge : BigMask) : List PteCmd × List PteCmd :=
  ([.big bigPtesToMerge .unmapped],
    [.invalidate (b.pagesOfBig bigPtesToMerge) (only .big),
      .invalidate (b.pagesOfBig bigPtesToMerge) fun size => decide (size ≠ .two)])

/-- The merge, which is left out if there is nothing to merge. -/
def mergeBig (bigPtesToMerge : BigMask) : List PteCmd × List PteCmd :=
  if bigEmpty bigPtesToMerge then ([], []) else blockGpuPteMergeBigAndEnd b bigPtesToMerge

/-- Case 5 of `block_gpu_map_big_and_4k` and of `block_gpu_unmap_big_and_4k`: the big PTEs of a
table that is not initialized, where no big PTE is written otherwise. -/
def initializeBig (s : PteState) (new : NewPteState) : PteState × List PteCmd × List PteCmd :=
  let mask := bigCompl b.numBigPages new.bigPtes
  let needed := s.rangeBig && !s.initializedBig
  ({ s with initializedBig := s.initializedBig || s.rangeBig },
    if needed then [.big mask .invalid] else [],
    if needed then [.invalidate (b.pagesOfBig mask) (only .big)] else [])

section Batches

variable {mask : BigMask} (s : PteState) (new : NewPteState) (i p : ℕ)

theorem eq_false_of_bigEmpty {i : ℕ} (hi : i < maxBigPages) (h : bigEmpty mask = true) :
    mask i = false := by
  by_contra hc
  have := bigEmpty_eq_false.mpr ⟨i, hi, by simpa using hc⟩
  simp [this] at h

@[simp] theorem lastTop_mergeBig :
    lastTop (mergeBig b mask).1 = none ∧ lastTop (mergeBig b mask).2 = none := by
  unfold mergeBig blockGpuPteMergeBigAndEnd
  split <;> simp

@[simp] theorem lastSmall_mergeBig :
    lastSmall p (mergeBig b mask).1 = none ∧ lastSmall p (mergeBig b mask).2 = none := by
  unfold mergeBig blockGpuPteMergeBigAndEnd
  split <;> simp

theorem lastBig_mergeBig {i : ℕ} (hi : i < maxBigPages) :
    lastBig i (mergeBig b mask).1 = (if mask i then some .unmapped else none) ∧
      lastBig i (mergeBig b mask).2 = none := by
  unfold mergeBig blockGpuPteMergeBigAndEnd
  split
  · next h => simp [eq_false_of_bigEmpty hi h]
  · simp

@[simp] theorem initializeBig_rangeBig : (initializeBig b s new).1.rangeBig = s.rangeBig := rfl
@[simp] theorem initializeBig_range4k : (initializeBig b s new).1.range4k = s.range4k := rfl
@[simp] theorem needsToActivate_initializeBig :
    blockGpuNeedsToActivateTable b (initializeBig b s new).1 =
      blockGpuNeedsToActivateTable b s := rfl

@[simp] theorem lastTop_initializeBig :
    lastTop (initializeBig b s new).2.1 = none ∧ lastTop (initializeBig b s new).2.2 = none := by
  unfold initializeBig
  by_cases h : (s.rangeBig && !s.initializedBig) = true <;> simp [h]

@[simp] theorem lastSmall_initializeBig : lastSmall p (initializeBig b s new).2.1 = none ∧
      lastSmall p (initializeBig b s new).2.2 = none := by
  unfold initializeBig
  by_cases h : (s.rangeBig && !s.initializedBig) = true <;> simp [h]

@[simp] theorem lastBig_initializeBig : lastBig i (initializeBig b s new).2.1 =
        (if s.rangeBig && !s.initializedBig && bigCompl b.numBigPages new.bigPtes i then
          some .invalid else none) ∧
      lastBig i (initializeBig b s new).2.2 = none := by
  unfold initializeBig
  by_cases h : (s.rangeBig && !s.initializedBig) = true <;> simp [h]

end Batches

def blockGpuMapBigAnd4k (s : PteState) (toMap : ℕ → ProcessorId) (residentId : ProcessorId)
    (newProt : Prot) (pagesToWrite : PageMask) (new : NewPteState) : PtePush :=
  let split : BigMask := fun i => s.bigPtes i && !new.bigPtes i
  let writes4k := blockGpuPteBigSplitWrite4k b s toMap (some residentId) newProt split pagesToWrite
  let still4k : PageMask := fun p =>
    pagesToWrite p && !b.pagesOfBig (fun i => s.bigPtes i || new.bigPtes i) p
  let init := initializeBig b s new
  let splitValid : BigMask := fun i => split i && s.pteBits .read (b.bigPageRegion i).first
  let keep : BigMask := fun i => s.bigPtes i && new.bigPtes i && new.bigPtesCovered i
  let merge : BigMask := fun i => new.bigPtes i && !s.bigPtes i
  let merged := mergeBig b merge
  let first := writes4k ++ [.small still4k (smallPteFor residentId newProt)] ++ init.2.1 ++
    [.big splitValid .unmapped, .big keep (bigPteFor residentId newProt)] ++ merged.1 ++
    [.invalidate still4k (only .small)] ++ init.2.2 ++
    [.invalidate (b.pagesOfBig splitValid) (only .big),
      .invalidate (b.pagesOfBig keep) (only .big)] ++ merged.2
  -- big PTEs that are not covered stay unmapped
  let mergeNew : BigMask := fun i => merge i && new.bigPtesCovered i
  if !bigEmpty split || !bigEmpty mergeNew || blockGpuNeedsToActivateTable b init.1 then
    let r := activateTables b init.1
    ({ r.1 with bigPtes := new.bigPtes },
      first ++ [.big split .invalid, .big mergeNew (bigPteFor residentId newProt)] ++ r.2 ++
      [.invalidate (b.pagesOfBig split) (only .big),
        .invalidate (b.pagesOfBig mergeNew) (only .big)])
  else ({ init.1 with bigPtes := new.bigPtes }, first)

def blockGpuUnmapBigAnd4k (s : PteState) (toMap : ℕ → ProcessorId) (pagesToUnmap : PageMask)
    (new : NewPteState) : PtePush :=
  let split : BigMask := fun i => s.bigPtes i && !new.bigPtes i
  let writes4k := blockGpuPteBigSplitWrite4k b s toMap none .none split pagesToUnmap
  let still4k : PageMask := fun p =>
    pagesToUnmap p && !b.pagesOfBig (fun i => s.bigPtes i || new.bigPtes i) p
  let init := initializeBig b s new
  -- big PTEs that stay big and are unmapped, and those that are split
  let down : BigMask := fun i =>
    (s.bigPtes i && new.bigPtes i && new.bigPtesCovered i) || split i
  let merge : BigMask := fun i => new.bigPtes i && !s.bigPtes i
  let merged := mergeBig b merge
  let first := writes4k ++ [.small still4k .invalid] ++ init.2.1 ++ [.big down .unmapped] ++
    merged.1 ++ [.invalidate still4k (only .small)] ++ init.2.2 ++
    [.invalidate (b.pagesOfBig down) (only .big)] ++ merged.2
  if !bigEmpty split || blockGpuNeedsToActivateTable b init.1 then
    let r := activateTables b init.1
    ({ r.1 with bigPtes := new.bigPtes },
      first ++ [.big split .invalid] ++ r.2 ++ [.invalidate (b.pagesOfBig split) (only .big)])
  else ({ init.1 with bigPtes := new.bigPtes }, first)

/-- The last write to a big PTE when a mix of PTEs changes to another: a big PTE stays, gets
the new mapping, is made from 4k PTEs, or is split. -/
def mixBig (s : PteState) (residentId : ProcessorId) (newProt : Prot) (new : NewPteState)
    (i : ℕ) : Option BigPte :=
  if new.bigPtes i then
    if new.bigPtesCovered i then some (bigPteFor residentId newProt)
    else if s.bigPtes i then none else some .unmapped
  else if s.bigPtes i then some .invalid
  else if s.rangeBig && !s.initializedBig && decide (i < b.numBigPages) then some .invalid
  else none

/-- The last write to a 4k PTE then: under a split big PTE every page is written, and elsewhere
the pages of the operation that stay under no big PTE. -/
def mixSmall (s : PteState) (newPte : SmallPte) (inherited : ℕ → ProcessorId) (pages : PageMask)
    (new : NewPteState) (p : ℕ) : Option SmallPte :=
  match b.bigPageIndex p with
  | some i =>
    if new.bigPtes i then none
    else if pages p then some newPte
    else if s.bigPtes i then
      some (smallPteFor (inherited i) (s.pageProt (b.bigPageRegion i).first))
    else none
  | none => if pages p then some newPte else none

section Mix

variable (s : PteState) (toMap : ℕ → ProcessorId) (residentId : ProcessorId) (newProt : Prot)
  (pages : PageMask) (new : NewPteState)

theorem mapBigAnd4k_fst : (blockGpuMapBigAnd4k b s toMap residentId newProt pages new).1 =
      { (activateTables b (initializeBig b s new).1).1 with bigPtes := new.bigPtes } := by
  unfold blockGpuMapBigAnd4k
  dsimp only
  split
  · rfl
  · next h =>
    simp only [Bool.or_eq_true, not_or] at h
    simp [activateTables, h.2]

theorem lastTop_mapBigAnd4k :
    lastTop (blockGpuMapBigAnd4k b s toMap residentId newProt pages new).2 =
      if blockGpuNeedsToActivateTable b s then some (.pde s.rangeBig s.range4k) else none := by
  unfold blockGpuMapBigAnd4k
  dsimp only
  split
  · by_cases hneed : blockGpuNeedsToActivateTable b s = true <;> simp [hneed]
  · next h =>
    simp only [Bool.or_eq_true, not_or, needsToActivate_initializeBig] at h
    simp [h.2]

theorem lastBig_mapBigAnd4k {i : ℕ} (hi : i < maxBigPages) :
    lastBig i (blockGpuMapBigAnd4k b s toMap residentId newProt pages new).2 =
      mixBig b s residentId newProt new i := by
  unfold blockGpuMapBigAnd4k mixBig
  dsimp only
  split
  · simp only [lastBig_append, lastBig, lastBig_mergeBig b hi, lastBig_initializeBig,
      lastBig_activateTables]
    by_cases ho : s.bigPtes i = true <;> by_cases hn : new.bigPtes i = true <;>
      by_cases hc : new.bigPtesCovered i = true <;> simp [bigCompl, ho, hn, hc]
  · next h =>
    -- nothing is split and nothing new is mapped
    simp only [Bool.or_eq_true, not_or, Bool.not_eq_true, Bool.not_eq_false'] at h
    have h1 := eq_false_of_bigEmpty hi h.1.1
    have h2 := eq_false_of_bigEmpty hi h.1.2
    simp only [lastBig_append, lastBig, lastBig_mergeBig b hi, lastBig_initializeBig]
    by_cases ho : s.bigPtes i = true <;> by_cases hn : new.bigPtes i = true <;>
      by_cases hc : new.bigPtesCovered i = true <;> simp [bigCompl, ho, hn, hc] at h1 h2 ⊢

theorem lastSmall_mapBigAnd4k (hold : ∀ i, s.bigPtes i = true → i < b.numBigPages) (p : ℕ) :
    lastSmall p (blockGpuMapBigAnd4k b s toMap residentId newProt pages new).2 =
      mixSmall b s (smallPteFor residentId newProt) (fun _ => residentId) pages new p := by
  have hsplit := lastSmall_bigSplitWrite4k b s toMap (some residentId) newProt
    (fun i => s.bigPtes i && !new.bigPtes i) pages (fun i hi => hold i (by simp_all)) p
  unfold blockGpuMapBigAnd4k mixSmall
  dsimp only
  split
  all_goals
    simp only [lastSmall_append, lastSmall, lastSmall_mergeBig, lastSmall_initializeBig,
      hsplit, pagesOfBig]
    rcases Option.eq_none_or_eq_some (b.bigPageIndex p) with hidx | ⟨i, hidx⟩
    · by_cases hp : pages p = true <;> simp [hidx]
    · by_cases ho : s.bigPtes i = true <;> by_cases hn : new.bigPtes i = true <;>
        by_cases hp : pages p = true <;> simp [hidx, hn, hp]

theorem unmapBigAnd4k_fst : (blockGpuUnmapBigAnd4k b s toMap pages new).1 =
      { (activateTables b (initializeBig b s new).1).1 with bigPtes := new.bigPtes } := by
  unfold blockGpuUnmapBigAnd4k
  dsimp only
  split
  · rfl
  · next h =>
    simp only [Bool.or_eq_true, not_or] at h
    simp [activateTables, h.2]

theorem lastTop_unmapBigAnd4k : lastTop (blockGpuUnmapBigAnd4k b s toMap pages new).2 =
      if blockGpuNeedsToActivateTable b s then some (.pde s.rangeBig s.range4k) else none := by
  unfold blockGpuUnmapBigAnd4k
  dsimp only
  split
  · by_cases hneed : blockGpuNeedsToActivateTable b s = true <;> simp [hneed]
  · next h =>
    simp only [Bool.or_eq_true, not_or, needsToActivate_initializeBig] at h
    simp [h.2]

theorem lastBig_unmapBigAnd4k {i : ℕ} (hi : i < maxBigPages) :
    lastBig i (blockGpuUnmapBigAnd4k b s toMap pages new).2 = mixBig b s residentId .none new i := by
  unfold blockGpuUnmapBigAnd4k mixBig
  dsimp only
  split
  · simp only [lastBig_append, lastBig, lastBig_mergeBig b hi, lastBig_initializeBig,
      lastBig_activateTables]
    by_cases ho : s.bigPtes i = true <;> by_cases hn : new.bigPtes i = true <;>
      by_cases hc : new.bigPtesCovered i = true <;> simp [bigCompl, bigPteFor, ho, hn, hc]
  · next h =>
    simp only [Bool.or_eq_true, not_or, Bool.not_eq_true, Bool.not_eq_false'] at h
    have h1 := eq_false_of_bigEmpty hi h.1
    simp only [lastBig_append, lastBig, lastBig_mergeBig b hi, lastBig_initializeBig]
    by_cases ho : s.bigPtes i = true <;> by_cases hn : new.bigPtes i = true <;>
      by_cases hc : new.bigPtesCovered i = true <;>
      simp [bigCompl, bigPteFor, ho, hn, hc] at h1 ⊢

theorem lastSmall_unmapBigAnd4k (hold : ∀ i, s.bigPtes i = true → i < b.numBigPages) (p : ℕ) :
    lastSmall p (blockGpuUnmapBigAnd4k b s toMap pages new).2 =
      mixSmall b s .invalid (fun i => toMap (b.bigPageRegion i).first) pages new p := by
  have hsplit := lastSmall_bigSplitWrite4k b s toMap none .none
    (fun i => s.bigPtes i && !new.bigPtes i) pages (fun i hi => hold i (by simp_all)) p
  unfold blockGpuUnmapBigAnd4k mixSmall
  dsimp only
  split
  all_goals
    simp only [lastSmall_append, lastSmall, lastSmall_mergeBig, lastSmall_initializeBig,
      hsplit, pagesOfBig]
    rcases Option.eq_none_or_eq_some (b.bigPageIndex p) with hidx | ⟨i, hidx⟩
    · by_cases hp : pages p = true <;> simp [hidx]
    · by_cases ho : s.bigPtes i = true <;> by_cases hn : new.bigPtes i = true <;>
        by_cases hp : pages p = true <;> simp [hidx, hn, hp, smallPteFor]

/-- Splitting big PTEs is a change of the mix without pages of its own. -/
def splitBigState (toSplit : BigMask) : NewPteState where
  pteIs2m := false
  needs4k := true
  bigPtes := fun i => s.bigPtes i && !toSplit i
  bigPtesCovered := fun _ => false
  bigPtesFullyUnmapped := fun _ => false

theorem lastBig_splitBig {toSplit : BigMask} (hsub : ∀ i, toSplit i = true → s.bigPtes i = true)
    (hinit : s.initializedBig = true) (i : ℕ) :
    lastBig i (blockGpuSplitBig b s toMap toSplit).2 =
      mixBig b s residentId newProt (splitBigState s toSplit) i := by
  have hwrites : ∀ l : List ℕ, lastBig i (l.map fun i => PteCmd.small (b.pagesOfRegion i)
      (smallPteFor (toMap (b.bigPageRegion i).first) (s.pageProt (b.bigPageRegion i).first))) =
      none := fun l => by
    induction l with
    | nil => rfl
    | cons i l ih => simpa using ih
  simp only [blockGpuSplitBig, lastBig_append, lastBig, hwrites]
  by_cases ho : s.bigPtes i = true <;> by_cases ht : toSplit i = true <;>
    simp_all [mixBig, splitBigState]

theorem lastSmall_splitBig {toSplit : BigMask} (hsub : ∀ i, toSplit i = true → s.bigPtes i = true)
    (hold : ∀ i, s.bigPtes i = true → i < b.numBigPages) (p : ℕ) (newPte : SmallPte) :
    lastSmall p (blockGpuSplitBig b s toMap toSplit).2 =
      mixSmall b s newPte (fun i => toMap (b.bigPageRegion i).first) (fun _ => false)
        (splitBigState s toSplit) p := by
  have hwrites := lastSmall_flatMap p b (l := setBits toSplit) (f := fun i =>
      [PteCmd.small (b.pagesOfRegion i)
        (smallPteFor (toMap (b.bigPageRegion i).first) (s.pageProt (b.bigPageRegion i).first))])
    (fun i hi => hold i (hsub i (mem_setBits.mp hi).2)) (v := fun i =>
      smallPteFor (toMap (b.bigPageRegion i).first) (s.pageProt (b.bigPageRegion i).first))
    (fun i => by
      by_cases h : b.bigOf p = b.loBig + i <;> simp [b.pagesOfRegion_eq])
  rw [← List.map_eq_flatMap] at hwrites
  simp only [blockGpuSplitBig, lastSmall_append, lastSmall, hwrites]
  unfold mixSmall splitBigState
  rcases Option.eq_none_or_eq_some (b.bigPageIndex p) with hidx | ⟨i, hidx⟩
  · simp [hidx]
  · have hi := lt_of_lt_of_le (b.bigPageIndex_eq_some.mp hidx).2 b.numBigPages_le
    by_cases ho : s.bigPtes i = true <;> by_cases ht : toSplit i = true <;> simp_all

theorem lastTop_splitBig (toSplit : BigMask) :
    lastTop (blockGpuSplitBig b s toMap toSplit).2 = lastTop (activateTables b s).2 := by
  have hwrites : ∀ l : List ℕ, lastTop (l.map fun i => PteCmd.small (b.pagesOfRegion i)
      (smallPteFor (toMap (b.bigPageRegion i).first) (s.pageProt (b.bigPageRegion i).first))) =
      none := fun l => by
    induction l with
    | nil => rfl
    | cons i l ih => simpa using ih
  simp only [blockGpuSplitBig, lastTop_append, hwrites]
  simp

end Mix

/-! ## Changing the swizzling of a big page -/

/-- `uvm_gpu_swizzle_op_t`. -/
inductive SwizzleOp where
  | swizzle
  | deswizzle
  deriving DecidableEq, Repr

def bigPageSingle (i : ℕ) : BigMask := fun j => decide (j = i)

def blockGpuBigPageChangeSwizzlingUnmap (s : PteState) (i : ℕ) : SwizzleOp → PtePush
  | .swizzle =>
    let merged := blockGpuPteMergeBigAndEnd b (bigPageSingle i)
    ({ s with bigPtes := Function.update s.bigPtes i true }, merged.1 ++ merged.2)
  | .deswizzle =>
    (s, [.big (bigPageSingle i) .unmapped,
      .invalidate (b.pagesOfBig (bigPageSingle i)) (only .big)])

def blockGpuBigPageChangeSwizzlingRemap (s : PteState) (toMap : ℕ → ProcessorId) (i : ℕ) :
    SwizzleOp → PtePush
  | .swizzle =>
    let first := (b.bigPageRegion i).first
    (s, [.big (bigPageSingle i) (bigPteFor (toMap first) (s.pageProt first)),
      .invalidate (b.pagesOfBig (bigPageSingle i)) (only .big)])
  | .deswizzle => blockGpuSplitBig b s toMap (bigPageSingle i)

end NvUvm
