import NvUvm.GpuPteWrites

/-!
# Operations on the page tables of a block

Model of the operations of `uvm8_va_block.c` that change one GPU's page tables for a block:
mapping, revoking and unmapping pages, fault cancelling, splitting the block, and the removal
of the GPU VA space.

What the operations read from elsewhere in the block, and the outcomes of allocations, pushes
and tracker operations, are inputs (`PteInput`).  An allocation that was retried gives up the
block lock, and the operation ends after it; what other threads did meanwhile are operations of
their own.  Swizzling changes that an operation makes on other GPUs are operations of theirs.
-/

namespace NvUvm

open GpuBlock

/-- What an operation reads and what it meets.  `resident` is the resident mask of the target,
`toMap` is `block_gpu_get_processor_to_map`, `canMapBig` is `mapped_gpus_can_map_big`, and
`swizzled` is `big_pages_swizzled` of the GPU where a page is resident.  `beforeSwizzle` and
`afterSwizzle` are what other GPUs do for a swizzling change. -/
structure PteInput where
  resident : PageMask
  toMap : ℕ → ProcessorId
  canMapBig : ℕ → Bool
  swizzled : BigMask
  alloc : PteSize → NvStatus
  beginPush : NvStatus
  addPush : NvStatus
  beforeSwizzle : ℕ → NvStatus
  afterSwizzle : ℕ → NvStatus

variable (b : GpuBlock)

/-! ## Which PTEs are split and merged -/

/-- `memset` and the first assignment of `block_gpu_compute_new_pte_state`. -/
def NewPteState.start : NewPteState where
  pteIs2m := false
  needs4k := true
  bigPtes := fun _ => false
  bigPtesCovered := fun _ => false
  bigPtesFullyUnmapped := fun _ => false

/-- `block_gpu_compute_new_pte_state`, where no `residentId` stands for
`UVM8_MAX_PROCESSORS`: the operation unmaps. -/
def blockGpuComputeNewPteState (s : PteState) (residentId : Option ProcessorId)
    (pagesChanging pageMaskAfter : PageMask) (canMapBig : ℕ → Bool) : NewPteState :=
  if s.force4kPtes then .start
  else if b.supports2m && decide (residentId ≠ some cpuId) && fullIn ⟨0, pages2m⟩ pageMaskAfter then
    { NewPteState.start with pteIs2m := true, needs4k := false }
  else if b.bigPageRegionAll.outer ≤ b.bigPageRegionAll.first then .start
  else
    -- an unmap must not allocate a big table only to merge
    let canMakeNewBigPtes := decide (residentId ≠ some cpuId) &&
      !(decide (residentId = none) && !s.rangeBig && !s.pteIs2m)
    let covered : BigMask := fun i =>
      decide (i < b.numBigPages) && anyIn (b.bigPageRegion i) pagesChanging
    let regionFull : BigMask := fun i => fullIn (b.bigPageRegion i) pageMaskAfter
    let made : BigMask := fun i => covered i && canMakeNewBigPtes && regionFull i &&
      (!b.swizzling || decide (residentId = none) || canMapBig i)
    let needs4k := (List.range b.numBigPages).any (fun i => covered i && !made i) ||
      anyIn ⟨0, b.bigPageRegionAll.first⟩ pagesChanging ||
      anyIn ⟨b.bigPageRegionAll.outer, b.numPages⟩ pagesChanging
    -- the big PTEs that the operation does not cover
    let notCovered : BigMask :=
      if s.pteIs2m || (b.supports2m && !s.range2m) then bigCompl maxBigPages covered
      else if !s.range4k && !needs4k then fun i => decide (i < b.numBigPages)
      else fun i => s.bigPtes i && !covered i
    { pteIs2m := false
      needs4k := needs4k
      bigPtes := fun i => made i || notCovered i
      bigPtesCovered := covered
      bigPtesFullyUnmapped := fun i => covered i && regionFull i && decide (residentId = none) }

/-! ## Page table ranges -/

def PteState.hasRange (s : PteState) : PteSize → Bool
  | .small => s.range4k
  | .big => s.rangeBig
  | .two => s.range2m

/-- The code at the `allocated` label of `block_alloc_pt_range_with_retry`, with what the page
tree does: `uvm_page_tree_get_ptes` writes its tables and links them, and
`uvm_page_tree_alloc_table` leaves both to the block. -/
def allocPtRange (s : PteState) : PteSize → PteState
  | .two => { s with range2m := true, pteIs2m := true, mem := { s.mem with top := .invalid } }
  | .big =>
    if b.supports2m then
      { s with rangeBig := true, mem := { s.mem with big := fun _ => none } }
    else
      { s with
        rangeBig := true
        initializedBig := true
        mem := { s.mem with top := .pde true s.range4k, big := fun _ => some .invalid } }
  | .small =>
    if b.supports2m then
      { s with range4k := true, mem := { s.mem with small := fun _ => none } }
    else
      { s with
        range4k := true
        mem := { s.mem with top := .pde s.rangeBig true, small := fun _ => some .invalid } }

/-- The loop of `block_alloc_ptes_with_retry`.  A retried allocation does not end it. -/
def allocPtesLoop (alloc : PteSize → NvStatus) (pageSizes : PteSize → Bool) :
    List PteSize → NvStatus → PteState → NvStatus × PteState
  | [], finalStatus, s => (finalStatus, s)
  | size :: rest, finalStatus, s =>
    if !pageSizes size || s.hasRange size then allocPtesLoop alloc pageSizes rest finalStatus s
    else match alloc size with
      | .ok => allocPtesLoop alloc pageSizes rest finalStatus (allocPtRange b s size)
      | .errMoreProcessingRequired =>
        allocPtesLoop alloc pageSizes rest .errMoreProcessingRequired (allocPtRange b s size)
      | status => (status, s)

/-- `block_alloc_ptes_with_retry`: the 2M level comes first, and always for a block that can
have it. -/
def blockAllocPtesWithRetry (alloc : PteSize → NvStatus) (pageSizes : PteSize → Bool)
    (s : PteState) : NvStatus × PteState :=
  allocPtesLoop b alloc (fun size => pageSizes size || (b.supports2m && decide (size = .two)))
    [.two, .big, .small] .ok s

def blockAllocPtesNewState (alloc : PteSize → NvStatus) (new : NewPteState) (s : PteState) :
    NvStatus × PteState :=
  blockAllocPtesWithRetry b alloc (fun size => match size with
    | .two => new.pteIs2m
    | .big => !new.pteIs2m && !bigEmpty new.bigPtes
    | .small => !new.pteIs2m && new.needs4k) s

/-! ## Swizzling changes on the way -/

/-- What `block_gpu_big_page_change_swizzling` does on the GPU whose mapping is about to
change: it is unmapped if it maps the page, and not mapped again. -/
def changeSwizzlingOwn (io : PteInput) (op : SwizzleOp) (mapsTo : ProcessorId) (i : ℕ)
    (s : PteState) : NvStatus × PteState :=
  let first := (b.bigPageRegion i).first
  if !(s.pteBits .read first && decide (io.toMap first = mapsTo)) then (io.afterSwizzle i, s)
  else
    let sizes : PteSize → Bool := fun size =>
      decide (size = if op = .swizzle then .big else .small)
    let r := blockAllocPtesWithRetry b io.alloc sizes s
    if r.1 ≠ .ok then r
    else if io.beforeSwizzle i ≠ .ok then (io.beforeSwizzle i, r.2)
    else (io.afterSwizzle i, PteState.apply (blockGpuBigPageChangeSwizzlingUnmap b r.2 i op))

/-- `block_gpu_change_swizzling_map`: what becomes big is swizzled, what becomes 4k is
deswizzled. -/
def blockGpuChangeSwizzlingMap (io : PteInput) (residentId : ProcessorId) (new : NewPteState)
    (s : PteState) : NvStatus × PteState :=
  let toSwizzle := setBits fun i => new.bigPtesCovered i && new.bigPtes i && !io.swizzled i
  let toDeswizzle := setBits fun i => new.bigPtesCovered i && !new.bigPtes i && io.swizzled i
  let r := Lib.runUntil NvStatus.isOk .ok (changeSwizzlingOwn b io .swizzle residentId) toSwizzle s
  if r.1 ≠ .ok then r
  else Lib.runUntil NvStatus.isOk .ok (changeSwizzlingOwn b io .deswizzle residentId) toDeswizzle r.2

/-- `block_gpu_change_swizzling_unmap`: what is unmapped in part is deswizzled. -/
def blockGpuChangeSwizzlingUnmap (io : PteInput) (new : NewPteState) (s : PteState) :
    NvStatus × PteState :=
  let toDeswizzle := setBits fun i =>
    new.bigPtesCovered i && !new.bigPtesFullyUnmapped i && s.bigPtes i
  Lib.runUntil NvStatus.isOk .ok
    (fun i => changeSwizzlingOwn b io .deswizzle (io.toMap (b.bigPageRegion i).first) i)
    toDeswizzle s

/-! ## Map, revoke, unmap -/

/-- `get_gpu_pte_bit_index`; mappings without permission have none. -/
def Prot.bit : Prot → PteBit
  | .readWriteAtomic => .atomic
  | .readWrite => .write
  | _ => .read

/-- The permission one below, `prot_to_revoke - 1`. -/
def Prot.pred : Prot → Prot
  | .readWriteAtomic => .readWrite
  | .readWrite => .readOnly
  | _ => .none

def PteBit.index : PteBit → ℕ
  | .read => 0
  | .write => 1
  | .atomic => 2

/-- The bit above: pages that have it have more than the permission. -/
def PteBit.above (bits : PteBit → PageMask) : PteBit → PageMask
  | .read => bits .write
  | .write => bits .atomic
  | .atomic => fun _ => false

def PteBit.below : PteBit → PteBit
  | .atomic => .write
  | _ => .read

/-- The three ways to write a new mapping, common to `uvm_va_block_map_gpu_to` and
`uvm_va_block_revoke_prot_gpu_to`. -/
def pushMapping (io : PteInput) (s : PteState) (residentId : ProcessorId) (newProt : Prot)
    (pages : PageMask) (new : NewPteState) : PtePush :=
  if new.pteIs2m then blockGpuMapTo2m s residentId newProt
  else if s.pteIs2m then blockGpuMapSplit2m b s io.toMap residentId newProt pages new
  else blockGpuMapBigAnd4k b s io.toMap residentId newProt pages new

/-- What `uvm_va_block_map_gpu_to` and `uvm_va_block_revoke_prot_gpu_to` do up to the end of
the push, once they know the pages. -/
def remap (io : PteInput) (residentId : ProcessorId) (newProt : Prot)
    (pages pageMaskAfter : PageMask) (s : PteState) : NvStatus × PteState :=
  let new := blockGpuComputeNewPteState b s (some residentId) pages pageMaskAfter io.canMapBig
  let r := blockAllocPtesNewState b io.alloc new s
  if r.1 ≠ .ok then r
  else
    let r := if b.swizzling && decide (residentId ≠ cpuId) then
      blockGpuChangeSwizzlingMap b io residentId new r.2 else r
    if r.1 ≠ .ok then r
    else if io.beginPush ≠ .ok then (io.beginPush, r.2)
    else (.ok, PteState.apply (pushMapping b io r.2 residentId newProt pages new))

def uvmVaBlockMapGpuTo (io : PteInput) (residentId : ProcessorId) (mapPageMask : PageMask)
    (newProt : Prot) (s : PteState) : NvStatus × PteState :=
  let bit := newProt.bit
  let pagesToMap : PageMask := fun p => mapPageMask p && !s.pteBits bit p && io.resident p
  if !anyIn ⟨0, b.numPages⟩ pagesToMap then (.ok, s)
  else
    -- the pages that will have exactly the new permission
    let after : PageMask := fun p =>
      (s.pteBits bit p || pagesToMap p) && !bit.above s.pteBits p && io.resident p
    let r := remap b io residentId newProt pagesToMap after s
    if r.1 ≠ .ok then r
    else (io.addPush, { r.2 with
      pteBits := fun c p => r.2.pteBits c p || (decide (c.index ≤ bit.index) && pagesToMap p) })

def uvmVaBlockRevokeProtGpuTo (io : PteInput) (residentId : ProcessorId)
    (revokePageMask : PageMask) (protToRevoke : Prot) (s : PteState) : NvStatus × PteState :=
  let bit : PteBit := if protToRevoke = .readWriteAtomic then .atomic else .write
  let pagesToRevoke : PageMask := fun p => revokePageMask p && s.pteBits bit p && io.resident p
  if !anyIn ⟨0, b.numPages⟩ pagesToRevoke then (.ok, s)
  else
    let after : PageMask := fun p =>
      s.pteBits bit.below p && !(s.pteBits bit p && !pagesToRevoke p) && io.resident p
    let r := remap b io residentId protToRevoke.pred pagesToRevoke after s
    if r.1 ≠ .ok then r
    else (io.addPush, { r.2 with
      pteBits := fun c p => r.2.pteBits c p && !(decide (bit.index ≤ c.index) && pagesToRevoke p) })

def pushUnmapping (io : PteInput) (s : PteState) (pages : PageMask) (new : NewPteState) :
    PtePush :=
  if new.pteIs2m then blockGpuUnmapTo2m s
  else if s.pteIs2m then blockGpuUnmapSplit2m b s io.toMap pages new
  else blockGpuUnmapBigAnd4k b s io.toMap pages new

/-- What `uvm_va_block_unmap_gpu` does up to the end of the push, once it knows the pages. -/
def unmapPages (io : PteInput) (pages pageMaskAfter : PageMask) (s : PteState) :
    NvStatus × PteState :=
  let new := blockGpuComputeNewPteState b s none pages pageMaskAfter io.canMapBig
  let r := blockAllocPtesNewState b io.alloc new s
  if r.1 ≠ .ok then r
  else
    let r := if b.swizzling then blockGpuChangeSwizzlingUnmap b io new r.2 else r
    if r.1 ≠ .ok then r
    else if io.beginPush ≠ .ok then (io.beginPush, r.2)
    else (.ok, PteState.apply (pushUnmapping b io r.2 pages new))

def uvmVaBlockUnmapGpu (io : PteInput) (unmapPageMask : PageMask) (s : PteState) :
    NvStatus × PteState :=
  let pagesToUnmap : PageMask := fun p => unmapPageMask p && s.pteBits .read p
  if !s.hasPageTables then (.ok, s)
  else if !anyIn ⟨0, b.numPages⟩ pagesToUnmap then (.ok, s)
  else
    let after : PageMask := fun p => !(s.pteBits .read p && !pagesToUnmap p)
    let r := unmapPages b io pagesToUnmap after s
    if r.1 ≠ .ok then r
    else (io.addPush, { r.2 with pteBits := fun c p => r.2.pteBits c p && !pagesToUnmap p })

/-! ## Fault cancelling -/

/-- `block_gpu_force_4k_ptes`, which `uvm_va_block_set_cancel` calls. -/
def blockGpuForce4kPtes (io : PteInput) (s : PteState) : NvStatus × PteState :=
  let s := { s with force4kPtes := true }
  if !s.hasPageTables then (.ok, s)
  else if !s.pteIs2m && bigEmpty s.bigPtes then (.ok, s)
  else
    let r := blockAllocPtesWithRetry b io.alloc (only .small) s
    if r.1 ≠ .ok then r
    else if io.beginPush ≠ .ok then (io.beginPush, r.2)
    else if r.2.pteIs2m then
      (io.addPush, PteState.apply (blockGpuSplit2m b r.2 io.toMap fun _ => false))
    else (io.addPush, PteState.apply (blockGpuSplitBig b r.2 io.toMap r.2.bigPtes))

/-! ## Splitting the block -/

/-- The page sizes for the parts of a split 2M PTE: 4k PTEs only for a big page that is cut. -/
def presplitSizes (aligned : Bool) : PteSize → Bool
  | .big => true
  | .small => !aligned
  | .two => false

/-- `uvm_va_block_split_presplit_ptes_gpu`, where the upper part starts with page `at_`. -/
def uvmVaBlockSplitPresplitPtesGpu (io : PteInput) (at_ : ℕ) (s : PteState) : NvStatus × PteState :=
  let aligned := decide ((b.start + at_) % b.bigPages = 0)
  if s.pteIs2m then
    -- an invalid 2M PTE without lower tables stays
    if s.pageProt 0 = .none ∧ s.rangeBig = false ∧ s.range4k = false then (.ok, s)
    else
      let newBigPtes : BigMask := fun i => decide (i < maxBigPages) &&
        (aligned || decide (b.bigPageIndex at_ ≠ some i))
      let r := blockAllocPtesWithRetry b io.alloc (presplitSizes aligned) s
      if r.1 ≠ .ok then r
      else if io.beginPush ≠ .ok then (io.beginPush, r.2)
      else (io.addPush, PteState.apply (blockGpuSplit2m b r.2 io.toMap newBigPtes))
  else
    match b.bigPageIndex at_ with
    | none => (.ok, s)
    | some i =>
      if aligned || !s.bigPtes i then (.ok, s)
      else
        let r := blockAllocPtesWithRetry b io.alloc (only .small) s
        if r.1 ≠ .ok then r
        else if io.beginPush ≠ .ok then (io.beginPush, r.2)
        else (io.addPush, PteState.apply (blockGpuSplitBig b r.2 io.toMap (bigPageSingle i)))

def GpuBlock.lower (at_ : ℕ) (h : 0 < at_ ∧ at_ < b.numPages) : GpuBlock :=
  { b with
    numPages := at_
    pages_pos := h.1
    fits := le_trans (Nat.add_le_add_left h.2.le _) b.fits }

def GpuBlock.upper (at_ : ℕ) (h : 0 < at_ ∧ at_ < b.numPages) : GpuBlock :=
  { b with
    start := b.start + at_
    numPages := b.numPages - at_
    pages_pos := Nat.sub_pos_of_lt h.2
    fits := by
      have hfits := b.fits
      have hadd := Nat.add_mod b.start at_ pages2m
      have hle := Nat.mod_le (b.start % pages2m + at_ % pages2m) pages2m
      have hle' := Nat.mod_le at_ pages2m
      omega }

/-- The 2M entry after a split, where `keepBig` says that a part still has the table of big PTEs:
a table that no part has a range of is freed, and its pointer is cleared. -/
def TopEntry.afterSplit (keepBig : Bool) : TopEntry → TopEntry
  | .pde big small => .pde (big && keepBig) small
  | _ => .pde false false

/-- The software state of the lower part after `uvm_va_block_split_gpu`, which has `bigBelow`
big pages, while the upper part has `bigAbove`. -/
def splitLower (s : PteState) (at_ bigBelow bigAbove : ℕ) : PteState :=
  { s with
    pteIs2m := false
    range2m := false
    rangeBig := s.rangeBig && decide (bigBelow ≠ 0)
    bigPtes := fun i => s.bigPtes i && !(s.rangeBig && decide (bigBelow ≤ i))
    pteBits := fun c p => s.pteBits c p && decide (p < at_)
    mem := { s.mem with top := s.mem.top.afterSplit (decide (bigBelow ≠ 0 ∨ bigAbove ≠ 0)) } }

/-- The software state of the upper part after `uvm_va_block_split_gpu`. -/
def splitUpper (s : PteState) (at_ bigBefore bigBelow bigAbove : ℕ) : PteState :=
  { PteState.fresh with
    initializedBig := s.rangeBig && s.initializedBig
    rangeBig := s.rangeBig && decide (bigAbove ≠ 0)
    range4k := s.range4k
    bigPtes := fun i => s.rangeBig && decide (bigAbove ≠ 0) && s.bigPtes (i + (bigBefore - bigAbove))
    pteBits := fun c p => s.pteBits c (p + at_)
    mem :=
      { top := s.mem.top.afterSplit (decide (bigBelow ≠ 0 ∨ bigAbove ≠ 0))
        big := fun i => s.mem.big (i + (bigBefore - bigAbove))
        small := fun p => s.mem.small (p + at_) } }

/-- `uvm_va_block_split` for one GPU: the status, and the state of the block or of both parts.
`preallocate` stands for the steps between the split of the PTEs and that of the state. -/
def uvmVaBlockSplit (io : PteInput) (preallocate : NvStatus) (at_ : ℕ)
    (h : 0 < at_ ∧ at_ < b.numPages) (s : PteState) :
    NvStatus × (PteState ⊕ PteState × PteState) :=
  let r := if s.hasPageTables then uvmVaBlockSplitPresplitPtesGpu b io at_ s else (.ok, s)
  if r.1 ≠ .ok then (r.1, .inl r.2)
  else if preallocate ≠ .ok then (preallocate, .inl r.2)
  else
    let bigBelow := (b.lower at_ h).numBigPages
    let bigAbove := (b.upper at_ h).numBigPages
    (.ok, .inr (splitLower r.2 at_ bigBelow bigAbove,
      splitUpper r.2 at_ b.numBigPages bigBelow bigAbove))

/-! ## Removing the GPU VA space -/

/-- `block_put_ptes_safe` for the three ranges: the tables are freed and the PDE loses its
pointers to them. -/
def putPtes (s : PteState) : PteState :=
  { s with
    range4k := false
    rangeBig := false
    range2m := false
    mem := { s.mem with top := .pde false false } }

/-- The PTEs that `uvm_va_block_remove_gpu_va_space` resets, since other allocations could reuse
them: those under big PTEs, and the big PTEs. -/
def resetPtes (s : PteState) : PteState :=
  if !b.supports2m && !bigEmpty s.bigPtes then
    PteState.apply (s, (if s.range4k then [.small (b.pagesOfBig s.bigPtes) .invalid] else []) ++
      [.big s.bigPtes .invalid, .invalidate (b.pagesOfBig s.bigPtes) (only .big)])
  else s

/-- `uvm_va_block_remove_gpu_va_space`.  `resetPush` and `wait` are the outcomes of its own push
and of the wait before the tables are freed.  All its failures are fatal for the system. -/
def uvmVaBlockRemoveGpuVaSpace (io : PteInput) (resetPush wait : NvStatus) (s : PteState) :
    PteState :=
  let r := uvmVaBlockUnmapGpu b io allPages s
  if r.1 ≠ .ok then r.2
  else if !b.supports2m && !bigEmpty r.2.bigPtes && decide (resetPush ≠ .ok) then r.2
  -- without the wait nothing is known to have been carried out
  else if wait ≠ .ok then r.2
  else { putPtes (resetPtes b r.2) with pteIs2m := false, bigPtes := fun _ => false }

end NvUvm
