import Mathlib.Data.List.FinRange
import NvUvm.Lib.Loop
import NvUvm.Processor

/-!
# Copying the pages of a VA block

Model of `block_copy_resident_pages` and of the functions it is made of (`uvm8_va_block.c`):
pages of a block that are resident on other processors are copied to a destination, directly
where the destination can copy from the source and staged through the CPU where it cannot, and
then marked resident there.

The residency of a block is one bitmap for each processor, as in the source.  What can fail
while pages are copied (`CopyEnv`) is an input: the allocation of a CPU page, the start of a
push, and the tracker operations.  `holds` is not in the source: it says on which processors
the memory of a page holds the page's data.  Performance events, the range group's list of
migrated ranges and the in-use marks of root chunks have no effect here and are left out.
-/

namespace NvUvm

open Lib
open Function (update)

/-- A bitmap over the pages of a VA block. -/
abbrev PageMask := ℕ → Bool

/-- `uvm_va_block_region_t`: the pages from `first` up to `outer`, which is not one of them. -/
structure BlockRegion where
  first : ℕ
  outer : ℕ
  deriving DecidableEq, Repr

/-- `for_each_va_block_page_in_mask`: the pages of a region in ascending order, restricted to
a mask if there is one. -/
def BlockRegion.pages (region : BlockRegion) (mask : Option PageMask) : List ℕ :=
  (List.range' region.first (region.outer - region.first)).filter fun p => mask.all (· p)

/-- `for_each_id_in_mask`: the processors of a mask in ascending order. -/
def ProcessorMask.ids (mask : ProcessorMask) : List ProcessorId :=
  (List.finRange maxProcessors).filter mask

/-- The fields of `uvm_va_block_t` about where its pages are.  `resident` holds the bitmaps of
the processors, `residentProcessors` is `block->resident`, `cpuPages` says which CPU pages are
allocated.  `holds` is a ghost: the processor's memory of the page holds the page's data. -/
structure Residency where
  numPages : ℕ
  resident : ProcessorId → PageMask
  residentProcessors : ProcessorMask
  readDuplicated : PageMask
  cpuPages : PageMask
  pageDirty : PageMask
  holds : ProcessorId → PageMask

/-- `uvm_va_block_transfer_mode_t`. -/
inductive TransferMode where
  | move
  | copy
  deriving DecidableEq, Repr

/-- `block_transfer_mode_internal_t`. -/
inductive InternalMode where
  | move
  | copy
  | moveToStage
  | moveFromStage
  | copyToStage
  | copyFromStage
  deriving DecidableEq, Repr

/-- The four places from which pages are copied: directly, to the CPU, from the stage, and
what is left on the CPU. -/
inductive CopyPass where
  | direct
  | toCpu
  | fromStage
  | rest
  deriving DecidableEq, Repr

/-- What a copy meets: the parts of the VA space and of the range it reads, and what fails.
A push is known by its pass and source. -/
structure CopyEnv where
  preferredLocation : Option ProcessorId
  handlingReplayableFaults : ProcessorId → Bool
  canCopyFrom : ProcessorId → ProcessorMask
  allocCpuPage : ProcessorId → ℕ → NvStatus
  beginPush : CopyPass → ProcessorId → NvStatus
  addPush : CopyPass → ProcessorId → NvStatus
  addTracker : NvStatus
  finalTracker : NvStatus

namespace Residency

def setResident (b : Residency) (id : ProcessorId) (mask : PageMask) : Residency :=
  { b with resident := update b.resident id mask }

/-- `__set_bit(page, resident mask of id)`. -/
def markResident (b : Residency) (id : ProcessorId) (p : ℕ) : Residency :=
  b.setResident id (update (b.resident id) p true)

/-- `__clear_bit(page, resident mask of id)`. -/
def clearResident (b : Residency) (id : ProcessorId) (p : ℕ) : Residency :=
  b.setResident id (update (b.resident id) p false)

/-- `uvm_page_mask_empty` of the bitmap of a processor. -/
def residentEmpty (b : Residency) (id : ProcessorId) : Bool :=
  (List.range b.numPages).all fun p => !b.resident id p

/-- `block_set_resident_processor`. -/
def setResidentProcessor (b : Residency) (id : ProcessorId) : Residency :=
  { b with residentProcessors := update b.residentProcessors id true }

/-- `block_clear_resident_processor`. -/
def clearResidentProcessor (b : Residency) (id : ProcessorId) : Residency :=
  { b with residentProcessors := update b.residentProcessors id false }

/-- `block_page_is_clean`: the page need not be copied to its preferred location, because the
CPU has not changed it since it left. -/
def pageIsClean (b : Residency) (env : CopyEnv) (dst src : ProcessorId) (p : ℕ) : Bool :=
  env.preferredLocation = some dst && src = cpuId && !env.handlingReplayableFaults dst &&
    !b.pageDirty p

/-- `block_update_page_dirty_state`. -/
def updatePageDirtyState (b : Residency) (env : CopyEnv) (dst src : ProcessorId) (p : ℕ) :
    Residency :=
  if dst ≠ cpuId then b
  else { b with
    pageDirty := update b.pageDirty p (decide (env.preferredLocation ≠ some src)) }

/-- `block_populate_page_cpu`. -/
def populatePageCpu (b : Residency) (env : CopyEnv) (src : ProcessorId) (p : ℕ) :
    NvStatus × Residency :=
  if b.cpuPages p then (.ok, b)
  else if env.allocCpuPage src p ≠ .ok then (env.allocCpuPage src p, b)
  else (.ok, { b with cpuPages := update b.cpuPages p true })

/-- The memory copy of a page: what the destination holds is what the source held. -/
def memcopy (b : Residency) (dst src : ProcessorId) (p : ℕ) : Residency :=
  { b with
    holds := update b.holds dst (update (b.holds dst) p (b.holds src p)) }

end Residency

/-! ## Copies from one source -/

/-- The local variables of `block_copy_resident_pages_between`; `pushing` stands for
`copying_gpu`, and `migrated` is the mask the caller passed. -/
structure BetweenState where
  block : Residency
  migrated : PageMask
  copiedPages : ℕ
  pushing : Bool

/-- The code at the `update_bits` label. -/
def updateBits (dst src : ProcessorId) (mode : InternalMode) (p : ℕ) (s : BetweenState) :
    BetweenState :=
  let block := s.block.markResident dst p
  let block := if mode = .copy ∨ mode = .copyFromStage then
    { block with readDuplicated := update block.readDuplicated p true } else block
  { s with
    copiedPages := s.copiedPages + 1
    migrated := update s.migrated p true
    -- a staged copy of a read-duplicated page stays on the CPU
    block := if mode = .moveFromStage then block.clearResident src p else block }

/-- The body of the loop over the pages of one source. -/
def copyPage (env : CopyEnv) (pass : CopyPass) (dst src : ProcessorId) (mode : InternalMode)
    (p : ℕ) (s : BetweenState) : NvStatus × BetweenState :=
  let r := if dst = cpuId then s.block.populatePageCpu env src p else (.ok, s.block)
  let s := { s with block := r.2 }
  if r.1 ≠ .ok then (r.1, s)
  -- nothing to copy, only the residency changes
  else if s.block.pageIsClean env dst src p then (.ok, updateBits dst src mode p s)
  else if !s.pushing && env.beginPush pass src ≠ .ok then (env.beginPush pass src, s)
  else
    let block := (s.block.updatePageDirtyState env dst src p).memcopy dst src p
    (.ok, updateBits dst src mode p { s with block := block, pushing := true })

/-- `src_move_mask`, as a list: the pages that are resident on the source and not on the
destination. -/
def movePages (b : Residency) (dst src : ProcessorId) (region : BlockRegion)
    (pageMask : Option PageMask) : List ℕ :=
  (region.pages pageMask).filter fun p => b.resident src p && !b.resident dst p

/-- What the functions below return: the status, the number of copied pages, the block and
the mask of migrated pages. -/
structure CopyResult where
  status : NvStatus
  copiedPages : ℕ
  block : Residency
  migrated : PageMask

def blockCopyResidentPagesBetween (env : CopyEnv) (pass : CopyPass) (dst src : ProcessorId)
    (region : BlockRegion) (pageMask : Option PageMask) (mode : InternalMode)
    (b : Residency) (migrated : PageMask) : CopyResult :=
  if dst = src then ⟨.ok, 0, b, migrated⟩
  else
    let r := runUntil NvStatus.isOk .ok (copyPage env pass dst src mode)
      (movePages b dst src region pageMask) ⟨b, migrated, 0, false⟩
    let s := r.2
    let block := if s.copiedPages ≠ 0 then s.block.setResidentProcessor dst else s.block
    let block := if s.copiedPages ≠ 0 ∧ mode = .moveFromStage ∧ block.residentEmpty src = true
      then block.clearResidentProcessor src else block
    -- the push ends here, and the tracker's status is returned only after a complete loop
    let status := if s.pushing then r.1.orElse (env.addPush pass src) else r.1
    ⟨status, s.copiedPages, block, s.migrated⟩

/-- `block_copy_resident_pages_mask`: the sources of a list one after the other, until one
fails or `maxPagesToCopy` pages are copied. -/
def blockCopyResidentPagesMask (env : CopyEnv) (pass : CopyPass) (dst : ProcessorId)
    (region : BlockRegion) (pageMask : Option PageMask) (mode : InternalMode)
    (maxPagesToCopy : ℕ) : List ProcessorId → ℕ → Residency → PageMask → CopyResult
  | [], copied, b, migrated => ⟨.ok, copied, b, migrated⟩
  | src :: rest, copied, b, migrated =>
    let r := blockCopyResidentPagesBetween env pass dst src region pageMask mode b migrated
    if r.status ≠ .ok then { r with copiedPages := copied }
    else if copied + r.copiedPages = maxPagesToCopy then
      { r with copiedPages := copied + r.copiedPages }
    else blockCopyResidentPagesMask env pass dst region pageMask mode maxPagesToCopy rest
      (copied + r.copiedPages) r.block r.migrated

/-! ## The passes -/

def breakReadDuplicationInRegion (dst : ProcessorId) (region : BlockRegion)
    (pageMask : Option PageMask) (b : Residency) : Residency :=
  let break_ : PageMask := fun p => decide (p ∈ region.pages pageMask)
  let cleared := { b with
    readDuplicated := fun p => b.readDuplicated p && !break_ p
    resident := fun id p => b.resident id p && !(b.residentProcessors id && id ≠ dst && break_ p) }
  { cleared with
    residentProcessors := fun id =>
      b.residentProcessors id && (id = dst || !cleared.residentEmpty id) }

/-- `missing_pages_count`. -/
def missingPages (b : Residency) (dst : ProcessorId) (region : BlockRegion)
    (pageMask : Option PageMask) : List ℕ :=
  (region.pages pageMask).filter fun p => !b.resident dst p

/-- `block_copy_resident_pages` up to the `out` label. -/
def copyPasses (env : CopyEnv) (dst : ProcessorId) (region : BlockRegion)
    (pageMask : Option PageMask) (mode : TransferMode) (b : Residency) (migrated : PageMask) :
    NvStatus × Residency × PageMask :=
  let missing := (missingPages b dst region pageMask).length
  let plain : InternalMode := if mode = .copy then .copy else .move
  if missing = 0 then (.ok, b, migrated)
  else if dst = cpuId then
    -- everything is copied to the CPU directly
    let sources : ProcessorMask := fun id => b.residentProcessors id && id ≠ cpuId
    let r := blockCopyResidentPagesMask env .toCpu cpuId region pageMask plain missing
      sources.ids 0 b fun _ => false
    (r.status, r.block, if r.status = .ok then fun p => migrated p || r.migrated p else migrated)
  else
    let direct : ProcessorMask := fun id =>
      env.canCopyFrom dst id && b.residentProcessors id && id ≠ dst
    let r := blockCopyResidentPagesMask env .direct dst region pageMask plain missing
      direct.ids 0 b migrated
    if r.status ≠ .ok then (r.status, r.block, r.migrated)
    else if missing - r.copiedPages = 0 then (.ok, r.block, r.migrated)
    else
      -- the other sources are staged through the CPU
      let staging : ProcessorMask := fun id =>
        r.block.residentProcessors id && !direct id && id ≠ dst && id ≠ cpuId
      let toStage : InternalMode := if mode = .copy then .copyToStage else .moveToStage
      let staged := blockCopyResidentPagesMask env .toCpu cpuId region pageMask toStage
        (missing - r.copiedPages) staging.ids 0 r.block fun _ => false
      if staged.status ≠ .ok then (staged.status, staged.block, r.migrated)
      else if env.addTracker ≠ .ok then (env.addTracker, staged.block, r.migrated)
      else
        let fromStage : InternalMode := if mode = .copy then .copyFromStage else .moveFromStage
        let r := blockCopyResidentPagesBetween env .fromStage dst cpuId region
          (some staged.migrated) fromStage staged.block r.migrated
        if r.status ≠ .ok then (r.status, r.block, r.migrated)
        else
          -- and what else there is on the CPU comes last
          let r := blockCopyResidentPagesBetween env .rest dst cpuId region pageMask plain
            r.block r.migrated
          (r.status, r.block, r.migrated)

/-- The code at the `out` label up to the tracker: it runs whatever happened before. -/
def copyOut (dst : ProcessorId) (region : BlockRegion) (pageMask : Option PageMask)
    (mode : TransferMode) (b : Residency) (migrated : PageMask) : Residency × PageMask :=
  let b := if mode = .move then breakReadDuplicationInRegion dst region pageMask b else b
  -- what is still missing is taken to have been populated at the destination
  let untouched := missingPages b dst region pageMask
  if untouched = [] then (b, migrated)
  else
    (((b.setResident dst fun p => b.resident dst p || decide (p ∈ untouched)).setResidentProcessor
      dst), fun p => migrated p || decide (p ∈ untouched))

/-- `block_copy_resident_pages`: the status, the block, and the mask of pages that changed
their residency. -/
def blockCopyResidentPages (env : CopyEnv) (dst : ProcessorId) (region : BlockRegion)
    (pageMask : Option PageMask) (mode : TransferMode) (b : Residency) (migrated : PageMask) :
    NvStatus × Residency × PageMask :=
  let r := copyPasses env dst region pageMask mode b migrated
  let out := copyOut dst region pageMask mode r.2.1 r.2.2
  (r.1.orElse env.finalTracker, out.1, out.2)

end NvUvm
