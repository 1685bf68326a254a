import NvUvm.FaultBatchScan
import NvUvm.PerfThrashing
import NvUvm.RangeGroup

/-!
# One pass over the faults of a block

`service_fault_batch_block_locked` (`uvm8_gpu_page_fault.c`) with all that it computes for the service
call: the new residency of the pages, their access types, the pages that are pinned or read-duplicated,
and the region of the faults.  `FaultBatch` has the same scan with its counters only, and `pass_agrees`
says that they agree.

What the scan asks of other parts of the driver is an input: whether an access is permitted, the hint of
the thrashing detection for a page, and where a page is to go (`PassEnv`).  The mappings of the GPU are those of the
block, and migratability is that of the range groups, by their iterator.
-/

namespace NvUvm.FaultPass

open Lib

/-! ## The faults of a batch -/

/-- The access types in the order of their values, the most intrusive first. -/
def intrusiveness : FaultAccessType → ℕ
  | .atomic => 0
  | .write => 1
  | .read => 2
  | .prefetch => 3

/-- `cmp_sort_fault_entry_by_va_space_address_access_type`. -/
def cmpFaultEntry (a b : FaultEntry) : Ordering :=
  (compare a.vaSpace b.vaSpace).then
    ((compare a.faultAddress b.faultAddress).then
      (compare (intrusiveness a.accessType) (intrusiveness b.accessType)))

/-- The page of an address, by its index in the block. -/
def pageIndex (block : FaultBlock) (address : ℕ) : ℕ := (address - block.start) / 4096

/-- The sorted fault cache with the block that was found for the fault `first`.  Addresses were aligned
when they were fetched, and a block has at most `PAGES_PER_UVM_VA_BLOCK` pages. -/
structure BlockBatch where
  entry : ℕ → FaultEntry
  cachedFaults : ℕ
  block : FaultBlock
  first : ℕ
  sorted : ∀ i j, i < j → j < cachedFaults → cmpFaultEntry (entry i) (entry j) ≠ .gt
  aligned : ∀ i < cachedFaults, (entry i).faultAddress % 4096 = 0
  startAligned : block.start % 4096 = 0
  size : block.last < block.start + pages2m * 4096
  firstLt : first < cachedFaults
  covers : block.Covers (entry first)

/-! ## What the scan meets -/

/-- `uvm_prot_t`. -/
inductive Prot where
  | readOnly
  | readWrite
  | readWriteAtomic
  deriving DecidableEq, Repr

/-- `uvm_fault_access_type_to_prot`. -/
def faultAccessTypeToProt : FaultAccessType → Prot
  | .atomic => .readWriteAtomic
  | .write => .readWrite
  | .read => .readOnly
  | .prefetch => .readOnly

/-- `pte_bits` of the state of a GPU.  A mapping that allows an access allows the weaker ones. -/
structure GpuPteBits where
  bits : Prot → PageMask
  writeReads : ∀ page, bits .readWrite page = true → bits .readOnly page = true
  atomicWrites : ∀ page, bits .readWriteAtomic page = true → bits .readWrite page = true

/-- What the pass meets: the range groups of the VA space, the permissions of the VA range, the mappings
of the GPU on the block if it has a state there, the hints and the destinations, and the outcomes of
servicing the pages and of setting up the cancel. -/
structure PassEnv where
  groups : List RangeGroupRange
  ordered : Ordered groups
  checkLogicalPermissions : FaultAccessType → Bool → NvStatus
  gpuState : Option GpuPteBits
  thrashingHint : ℕ → ThrashingHint
  selectResidency : ℕ → FaultAccessType → ThrashingHint → ProcessorId × Bool
  setCancel : NvStatus

/-- `uvm_va_block_is_gpu_authorized_on_whole_region`, of the region of one page. -/
def PassEnv.isGpuAuthorized (env : PassEnv) (page : ℕ) (prot : Prot) : Bool :=
  match env.gpuState with
  | none => false
  | some state => state.bits prot page

/-! ## The state of the scan -/

/-- `uvm_fault_service_block_context_t`. -/
structure ServiceContext where
  numRetries : ℕ
  residentProcessors : ProcessorMask
  newResidency : ProcessorId → PageMask
  thrashingPinCount : ℕ
  thrashingPinMask : PageMask
  readDuplicateCount : ℕ
  readDuplicateMask : PageMask
  faultAccessType : ℕ → FaultAccessType
  faultRegion : BlockRegion

/-- The context with the bounds of the pages in it. -/
structure Serviced where
  context : ServiceContext
  firstPageIndex : ℕ
  lastPageIndex : ℕ

/-- The local variables of `service_fault_batch_block_locked`.  `notified` are the faults of the fault
events. -/
structure PassState where
  scan : ScanState
  serviced : Serviced
  iter : RangeGroupRangeIter
  notified : List ℕ

namespace ServiceContext

variable (c : ServiceContext)

def init : ServiceContext :=
  { c with
    residentProcessors := fun _ => false
    thrashingPinCount := 0
    readDuplicateCount := 0 }

def pin (page : ℕ) : ServiceContext :=
  let mask : PageMask := if c.thrashingPinCount = 0 then fun _ => false else c.thrashingPinMask
  { c with
    thrashingPinCount := c.thrashingPinCount + 1
    thrashingPinMask := PageMask.setBit mask page true }

/-- The page gets a new residency; the mask of a processor is cleared when it gets its first page. -/
def setNewResidency (processor : ProcessorId) (page : ℕ) : ServiceContext :=
  let mask : PageMask :=
    if c.residentProcessors processor then c.newResidency processor else fun _ => false
  { c with
    residentProcessors := Function.update c.residentProcessors processor true
    newResidency := Function.update c.newResidency processor (PageMask.setBit mask page true) }

def setReadDuplicate (page : ℕ) : ServiceContext :=
  let mask : PageMask := if c.readDuplicateCount = 0 then fun _ => false else c.readDuplicateMask
  { c with
    readDuplicateCount := c.readDuplicateCount + 1
    readDuplicateMask := PageMask.setBit mask page true }

end ServiceContext

/-- The masks and the bounds for a page that is to be serviced. -/
def serviceFault (env : PassEnv) (block : FaultBlock) (e : FaultEntry) (s : Serviced) : Serviced :=
  let page := pageIndex block e.faultAddress
  let hint := env.thrashingHint e.faultAddress
  let c := match hint with
    | .pin _ _ => s.context.pin page
    | _ => s.context
  let (newResidency, readDuplicate) := env.selectResidency page e.accessType hint
  let c := c.setNewResidency newResidency page
  let c := if readDuplicate then c.setReadDuplicate page else c
  { context := { c with faultAccessType := Function.update c.faultAccessType page e.accessType }
    firstPageIndex := if page < s.firstPageIndex then page else s.firstPageIndex
    lastPageIndex := if s.lastPageIndex < page then page else s.lastPageIndex }

/-! ## The pass -/

/-- `while (iter.end < fault_address)`: every step moves the end of the iterator up. -/
def coverAddress (last address : ℕ) : ℕ → RangeGroupRangeIter → RangeGroupRangeIter
  | 0, iter => iter
  | fuel + 1, iter =>
    if iter.last < address then coverAddress last address fuel (migratabilityIterNext iter last)
    else iter

/-- The code at the `next` label, behind the flags of the fault. -/
def PassState.next (s : PassState) (entry : ℕ → FaultEntry) (i : ℕ) (flags : FaultFlags) :
    PassState :=
  { s with
    scan := countFault entry s.serviced.context.numRetries i flags
      { s.scan with batch := s.scan.batch.setFlags i flags } }

/-- One fault of the pass, from the fault event on. -/
def passFault (env : PassEnv) (entry : ℕ → FaultEntry) (block : FaultBlock) (first i : ℕ)
    (s : PassState) : PassState :=
  let e := entry i
  let s := { s with
    notified := if s.serviced.context.numRetries = 0 then s.notified ++ [i] else s.notified }
  let previous := if first < i ∧ e.faultAddress = (entry (i - 1)).faultAddress then
    some (s.scan.batch.flags (i - 1)) else none
  let flags : FaultFlags :=
    ⟨false, previous.any (·.isThrottled), previous.any (·.isInvalidPrefetch)⟩
  -- the page has been decided by the more intrusive fault before
  if previous.any (!·.isFatal) then s.next entry i flags
  else
    let s := { s with
      iter := coverAddress block.last e.faultAddress (e.faultAddress - s.iter.last) s.iter }
    if env.checkLogicalPermissions e.accessType s.iter.migratable ≠ .ok then
      if e.accessType ≠ .prefetch then s.next entry i { flags with isFatal := true }
      else s.next entry i { flags with isInvalidPrefetch := true }
    else if env.isGpuAuthorized (pageIndex block e.faultAddress)
        (faultAccessTypeToProt e.accessType) then s.next entry i flags
    else match env.thrashingHint e.faultAddress with
      | .throttle => s.next entry i { flags with isThrottled := true }
      | _ =>
        { s with
          scan := { s.scan with pageFaultCount := s.scan.pageFaultCount + 1 }
          serviced := serviceFault env block e s.serviced }.next entry i flags

/-- The `for` loop, with `left` faults of the cache left from `i` on, and the index it ends with. -/
def passBlock (env : PassEnv) (entry : ℕ → FaultEntry) (block : FaultBlock) (first : ℕ) :
    ℕ → ℕ → PassState → ℕ × PassState
  | 0, i, s => (i, s)
  | left + 1, i, s =>
    if block.last < (entry i).faultAddress then (i, s)
    else
      let s := { s with
        scan := { s.scan with batch := s.scan.batch.setFlags i ⟨false, false, false⟩ } }
      if first < i ∧ (entry i).vaSpace ≠ (entry (i - 1)).vaSpace then (i, s)
      else passBlock env entry block first left (i + 1) (passFault env entry block first i s)

/-- What a pass leaves: its status, the number of faults of the block, the batch context and the
service context, the context that the service call was given, and the faults of the fault events. -/
structure PassResult where
  status : NvStatus
  blockFaults : ℕ
  batch : BatchState
  context : ServiceContext
  service : Option ServiceContext
  notified : List ℕ

/-- The scan of `service_fault_batch_block_locked`, with what it starts from. -/
def passLoop (env : PassEnv) (b : BlockBatch) (batch : BatchState) (context : ServiceContext) :
    ℕ × PassState :=
  passBlock env b.entry b.block b.first (b.cachedFaults - b.first) b.first
    { scan := ⟨batch, [], 0, 0, 0⟩
      serviced := ⟨context.init, pages2m, 0⟩
      iter := migratabilityIterFirst env.groups b.block.start b.block.last
      notified := [] }

/-- What follows the scan: the service call, the cancel, and the counters of the batch.
`serviceFaults` is the outcome of `uvm_va_block_service_faults_locked` on the context. -/
def settlePass (env : PassEnv) (b : BlockBatch) (serviceFaults : ServiceContext → NvStatus)
    (loop : ℕ × PassState) : PassResult :=
  let (i, s) := loop
  let service := if 0 < s.scan.pageFaultCount then
    some { s.serviced.context with
      faultRegion := ⟨s.serviced.firstPageIndex, s.serviced.lastPageIndex + 1⟩ }
    else none
  let status := service.elim .ok serviceFaults
  let blockFaults := i - b.first
  let context := service.getD s.serviced.context
  let cancels := status = .ok ∧ 0 < s.scan.blockFatalFaults.length
  let status := if cancels then env.setCancel else status
  { status := status
    blockFaults := blockFaults
    -- the counters are reported when there will be no retry
    batch := if status = .ok then
      { s.scan.batch with
        fatalFaults := s.scan.batch.fatalFaults + s.scan.blockFatalFaults.length
        countedFatal := s.scan.batch.countedFatal ++ s.scan.blockFatalFaults
        throttledFaults := s.scan.batch.throttledFaults + s.scan.blockThrottledFaults
        invalidPrefetchFaults :=
          s.scan.batch.invalidPrefetchFaults + s.scan.blockInvalidPrefetchFaults
        servicedFaults := s.scan.batch.servicedFaults + ((blockFaults : ℤ) -
          (s.scan.blockFatalFaults.length + s.scan.blockInvalidPrefetchFaults +
            s.scan.blockThrottledFaults))
        cancelled := if cancels then s.scan.batch.cancelled ++ [b.block]
          else s.scan.batch.cancelled }
      else s.scan.batch
    context := { context with numRetries := context.numRetries + 1 }
    service := service
    notified := s.notified }

/-- `service_fault_batch_block_locked`. -/
def serviceFaultBatchBlockLockedPass (env : PassEnv) (b : BlockBatch)
    (serviceFaults : ServiceContext → NvStatus) (batch : BatchState) (context : ServiceContext) :
    PassResult :=
  settlePass env b serviceFaults (passLoop env b batch context)

end NvUvm.FaultPass
