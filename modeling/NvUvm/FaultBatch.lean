import Mathlib.Data.List.Basic
import NvUvm.Processor

/-!
# Servicing a batch of GPU faults

Model of `service_fault_batch` and of the block-level functions below it
(`uvm8_gpu_page_fault.c`): a loop over the ordered fault cache that finds the VA block of each
fault, a scan over the faults of that block that flags, skips or services them, and the
allocation retry around that scan.

What the driver learns elsewhere is an input (`FaultEnv`): the block found for a fault, and
for every attempt at servicing a block (`Attempt`) the logical permission checks, whether the
GPU already has access, the thrashing hint, and the outcomes of servicing the pages and of
setting up the cancel.  The residency masks the scan collects for the service call are not
kept, only whether there is a page to service.  Events and replays have no effect here beyond
the status a replay returns.
-/

namespace NvUvm

/-- `uvm_fault_access_type_t`. -/
inductive FaultAccessType where
  | atomic
  | write
  | read
  | prefetch
  deriving DecidableEq, Repr

/-- `uvm_fault_type_t`: the types the driver handles, and those from `UVM_FAULT_TYPE_FATAL`
on. -/
inductive FaultType where
  | invalidPde
  | invalidPte
  | atomic
  | write
  | read
  | fatal (type : ℕ)
  deriving DecidableEq, Repr

/-- `fault_type >= UVM_FAULT_TYPE_FATAL`. -/
def FaultType.isFatal : FaultType → Bool
  | .fatal _ => true
  | _ => false

/-- The fields of `uvm_fault_buffer_entry_t` that servicing reads and does not write. -/
structure FaultEntry where
  vaSpace : ℕ
  faultAddress : ℕ
  accessType : FaultAccessType
  faultType : FaultType
  utlbId : ℕ
  deriving DecidableEq, Repr

/-- The fields of `uvm_fault_buffer_entry_t` that servicing writes. -/
structure FaultFlags where
  isFatal : Bool
  isThrottled : Bool
  isInvalidPrefetch : Bool
  deriving DecidableEq, Repr

/-- The VA space and bounds of a VA block; the end is inclusive. -/
structure FaultBlock where
  vaSpace : ℕ
  start : ℕ
  last : ℕ
  deriving DecidableEq, Repr

def FaultBlock.Covers (b : FaultBlock) (e : FaultEntry) : Prop :=
  e.vaSpace = b.vaSpace ∧ b.start ≤ e.faultAddress ∧ e.faultAddress ≤ b.last

/-- The batch context, the flags of the cached faults, and the uTLB counters.  `countedFatal`
lists the faults behind `fatalFaults`, and `cancelled` the blocks for which
`uvm_va_block_set_cancel` completed. -/
structure BatchState where
  flags : ℕ → FaultFlags
  fatalFaults : ℕ
  throttledFaults : ℕ
  invalidPrefetchFaults : ℕ
  servicedFaults : ℤ
  batchId : ℕ
  utlbPending : ℕ → ℕ
  utlbFatal : ℕ → ℕ
  countedFatal : List ℕ
  cancelled : List FaultBlock

/-- What one attempt at servicing a block meets, by the index of the fault where it is about
a fault. -/
structure Attempt where
  permission : ℕ → NvStatus
  authorized : ℕ → Bool
  throttle : ℕ → Bool
  serviceFaults : NvStatus
  setCancel : NvStatus

/-- What a run of `service_fault_batch` meets.  `attempts` lists, for the fault a block is
serviced from, what its attempts meet, and `maxUtlbId` is the `max_utlb_id` up to which a flush
resets the uTLB statistics. -/
structure FaultEnv where
  registered : ℕ → Bool
  needsFaultBufferFlush : ℕ → Bool
  flush : NvStatus
  maxUtlbId : ℕ
  findCreate : ℕ → Except NvStatus FaultBlock
  attempts : ℕ → List Attempt
  addTracker : ℕ → NvStatus
  cancelMode : Bool
  replayPolicyBlock : Bool
  pushReplay : ℕ → NvStatus
  globalStatus : NvStatus

namespace BatchState

def setFlags (s : BatchState) (i : ℕ) (f : FaultFlags) : BatchState :=
  { s with flags := Function.update s.flags i f }

/-- `--utlb->num_pending_faults`. -/
def popPending (s : BatchState) (utlb : ℕ) : BatchState :=
  { s with utlbPending := Function.update s.utlbPending utlb (s.utlbPending utlb - 1) }

/-- `++utlb->num_fatal_faults`. -/
def countUtlbFatal (s : BatchState) (utlb : ℕ) : BatchState :=
  { s with utlbFatal := Function.update s.utlbFatal utlb (s.utlbFatal utlb + 1) }

/-- The reset of the uTLB statistics in `fault_buffer_flush_locked`. -/
def resetUtlbs (s : BatchState) (maxUtlbId : ℕ) : BatchState :=
  { s with
    utlbPending := fun utlb => if utlb ≤ maxUtlbId then 0 else s.utlbPending utlb
    utlbFatal := fun utlb => if utlb ≤ maxUtlbId then 0 else s.utlbFatal utlb }

/-- `++batch_context->fatal_faults`, for one fault. -/
def countFatal (s : BatchState) (i : ℕ) : BatchState :=
  { s with fatalFaults := s.fatalFaults + 1, countedFatal := s.countedFatal ++ [i] }

end BatchState

/-! ## One fault -/

/-- What the scan decides about a fault: its flags, and whether its page is to be serviced. -/
structure FaultVerdict where
  flags : FaultFlags
  service : Bool
  deriving DecidableEq, Repr

/-- The body of the scan for fault `i`; `previous` holds the flags of the preceding fault of
the block if that is on the same page. -/
def judgeFault (entry : ℕ → FaultEntry) (attempt : Attempt) (i : ℕ)
    (previous : Option FaultFlags) : FaultVerdict :=
  -- the page's flags spread over all its faults
  let invalid := previous.any (·.isInvalidPrefetch)
  let throttled := previous.any (·.isThrottled)
  -- the most intrusive fault of the page comes first; after it the rest is waived
  if previous.any (!·.isFatal) then ⟨⟨false, throttled, invalid⟩, false⟩
  else if attempt.permission i ≠ .ok then
    if (entry i).accessType ≠ .prefetch then ⟨⟨true, throttled, invalid⟩, false⟩
    else ⟨⟨false, throttled, true⟩, false⟩
  else if attempt.authorized i then ⟨⟨false, throttled, invalid⟩, false⟩
  else if attempt.throttle i then ⟨⟨false, true, invalid⟩, false⟩
  else ⟨⟨false, throttled, invalid⟩, true⟩

/-! ## The scan over a block -/

/-- The local variables of `service_fault_batch_block_locked`; `blockFatalFaults` lists the
faults its counter stands for. -/
structure ScanState where
  batch : BatchState
  blockFatalFaults : List ℕ
  blockThrottledFaults : ℕ
  blockInvalidPrefetchFaults : ℕ
  pageFaultCount : ℕ

/-- The code at the `next` label: counters are only updated on the first attempt. -/
def countFault (entry : ℕ → FaultEntry) (numRetries i : ℕ) (flags : FaultFlags)
    (s : ScanState) : ScanState :=
  if numRetries ≠ 0 then s
  else
    let utlb := (entry i).utlbId
    { s with
      batch := (if flags.isFatal then s.batch.countUtlbFatal utlb else s.batch).popPending utlb
      blockFatalFaults := if flags.isFatal then s.blockFatalFaults ++ [i]
                          else s.blockFatalFaults
      blockInvalidPrefetchFaults :=
        s.blockInvalidPrefetchFaults + if flags.isInvalidPrefetch then 1 else 0
      blockThrottledFaults := s.blockThrottledFaults + if flags.isThrottled then 1 else 0 }

/-- One fault of the scan, from the check against its predecessor on. -/
def scanFault (entry : ℕ → FaultEntry) (attempt : Attempt) (numRetries first i : ℕ)
    (s : ScanState) : ScanState :=
  let previous := if first < i ∧ (entry i).faultAddress = (entry (i - 1)).faultAddress then
    some (s.batch.flags (i - 1)) else none
  let verdict := judgeFault entry attempt i previous
  countFault entry numRetries i verdict.flags
    { s with batch := s.batch.setFlags i verdict.flags
             pageFaultCount := s.pageFaultCount + if verdict.service then 1 else 0 }

/-- The `for` loop of `service_fault_batch_block_locked`, with `left` faults of the cache left
from `i` on.  A fault's flags are cleared before its VA space is compared with that of the
fault before it.  Returns the index the loop ends with. -/
def scanBlock (entry : ℕ → FaultEntry) (block : FaultBlock) (attempt : Attempt)
    (numRetries first : ℕ) : ℕ → ℕ → ScanState → ℕ × ScanState
  | 0, i, s => (i, s)
  | left + 1, i, s =>
    if block.last < (entry i).faultAddress then (i, s)
    else
      let s := { s with batch := s.batch.setFlags i ⟨false, false, false⟩ }
      if first < i ∧ (entry i).vaSpace ≠ (entry (i - 1)).vaSpace then (i, s)
      else scanBlock entry block attempt numRetries first left (i + 1)
        (scanFault entry attempt numRetries first i s)

/-- `service_fault_batch_block_locked`: the status, the number of faults of the block, and
the state. -/
def serviceFaultBatchBlockLocked (entry : ℕ → FaultEntry) (cachedFaults : ℕ)
    (block : FaultBlock) (attempt : Attempt) (numRetries first : ℕ) (s : BatchState) :
    NvStatus × ℕ × BatchState :=
  let (i, scan) := scanBlock entry block attempt numRetries first (cachedFaults - first) first
    ⟨s, [], 0, 0, 0⟩
  let status := if 0 < scan.pageFaultCount then attempt.serviceFaults else .ok
  let blockFaults := i - first
  let cancels := status = .ok ∧ 0 < scan.blockFatalFaults.length
  let status := if cancels then attempt.setCancel else status
  if status = .ok then
    (.ok, blockFaults, { scan.batch with
      fatalFaults := scan.batch.fatalFaults + scan.blockFatalFaults.length
      countedFatal := scan.batch.countedFatal ++ scan.blockFatalFaults
      throttledFaults := scan.batch.throttledFaults + scan.blockThrottledFaults
      invalidPrefetchFaults :=
        scan.batch.invalidPrefetchFaults + scan.blockInvalidPrefetchFaults
      servicedFaults := scan.batch.servicedFaults + ((blockFaults : ℤ) -
        (scan.blockFatalFaults.length + scan.blockInvalidPrefetchFaults +
          scan.blockThrottledFaults))
      cancelled := if cancels then scan.batch.cancelled ++ [block] else scan.batch.cancelled })
  else (status, blockFaults, scan.batch)

/-- The retry of `service_fault_batch_block`: again as long as the attempt asks for it.
`none` if the attempts listed all do. -/
def retryBlock (entry : ℕ → FaultEntry) (cachedFaults : ℕ) (block : FaultBlock) (first : ℕ) :
    List Attempt → ℕ → BatchState → Option (NvStatus × ℕ × BatchState)
  | [], _, _ => none
  | attempt :: more, numRetries, s =>
    let r := serviceFaultBatchBlockLocked entry cachedFaults block attempt numRetries first s
    if r.1 = .errMoreProcessingRequired then
      retryBlock entry cachedFaults block first more (numRetries + 1) r.2.2
    else some r

def serviceFaultBatchBlock (env : FaultEnv) (entry : ℕ → FaultEntry) (cachedFaults : ℕ)
    (block : FaultBlock) (first : ℕ) (s : BatchState) : Option (NvStatus × ℕ × BatchState) :=
  (retryBlock entry cachedFaults block first (env.attempts first) 0 s).map fun r =>
    (r.1.orElse (env.addTracker first), r.2)

/-! ## The batch -/

/-- The fault was not found a block: the `else` branch of `service_fault_batch`. -/
def faultWithoutBlock (env : FaultEnv) (entry : ℕ → FaultEntry) (i : ℕ) (status : NvStatus)
    (s : BatchState) : NvStatus × BatchState :=
  let utlb := (entry i).utlbId
  let s := s.popPending utlb
  -- prefetches are only fatal when something fatal happened
  let s := if (entry i).accessType = .prefetch ∧ status = .errInvalidAddress then
    { s with invalidPrefetchFaults := s.invalidPrefetchFaults + 1 } else s
  if (entry i).accessType = .prefetch ∧ status ≠ env.globalStatus then (.ok, s)
  else
    let s := ((s.setFlags i { s.flags i with isFatal := true }).countFatal i).countUtlbFatal utlb
    (if status = .errInvalidAddress then .ok else status, s)

/-- One round of the loop of `service_fault_batch`, at fault `i` and with the VA space locked
so far: the status, the next index and the state.  `none` if a block's attempts never end. -/
def serviceFault (env : FaultEnv) (entry : ℕ → FaultEntry) (cachedFaults : ℕ)
    (vaSpace : Option ℕ) (i : ℕ) (s : BatchState) : Option (NvStatus × ℕ × BatchState) :=
  let e := entry i
  if some e.vaSpace ≠ vaSpace ∧ env.registered e.vaSpace = true ∧
      env.needsFaultBufferFlush e.vaSpace = true then
    some (if env.flush = .ok then .warnMoreProcessingRequired else env.flush, i,
      s.resetUtlbs env.maxUtlbId)
  else if (s.flags i).isFatal then
    some (.ok, i + 1, ((s.countFatal i).countUtlbFatal e.utlbId).popPending e.utlbId)
  else if !env.registered e.vaSpace then some (.ok, i + 1, s)
  else match env.findCreate i with
  | .error status =>
    let r := faultWithoutBlock env entry i status s
    some (r.1, i + 1, r.2)
  | .ok block =>
    (serviceFaultBatchBlock env entry cachedFaults block i s).map fun r =>
      if r.1 ≠ .ok then (r.1, i + r.2.1, r.2.2)
      else if !env.cancelMode && env.replayPolicyBlock then
        if env.pushReplay i ≠ .ok then (env.pushReplay i, i + r.2.1, r.2.2)
        else (.ok, i + r.2.1, { r.2.2 with batchId := r.2.2.batchId + 1 })
      else (.ok, i + r.2.1, r.2.2)

/-- The loop of `service_fault_batch`.  Every round that goes on moves the index, so
`cachedFaults` rounds are enough. -/
def serviceLoop (env : FaultEnv) (entry : ℕ → FaultEntry) (cachedFaults : ℕ) :
    ℕ → Option ℕ → ℕ → BatchState → Option (NvStatus × BatchState)
  | 0, _, i, s => if i < cachedFaults then none else some (.ok, s)
  | rounds + 1, vaSpace, i, s =>
    if i < cachedFaults then
      (serviceFault env entry cachedFaults vaSpace i s).bind fun r =>
        if r.1 = .ok then
          serviceLoop env entry cachedFaults rounds (some (entry i).vaSpace) r.2.1 r.2.2
        else some (r.1, r.2.2)
    else some (.ok, s)

def serviceFaultBatch (env : FaultEnv) (entry : ℕ → FaultEntry) (cachedFaults : ℕ)
    (s : BatchState) : Option (NvStatus × BatchState) :=
  serviceLoop env entry cachedFaults cachedFaults none 0 s

/-- The state `fetch_fault_buffer_entries` and the start of a batch leave: a fault is fatal
by its type, its other flags are those the cache had, and the counters of the batch are
zero. -/
def fetchedState (entry : ℕ → FaultEntry) (cache : ℕ → FaultFlags) (batchId : ℕ)
    (utlbPending utlbFatal : ℕ → ℕ) : BatchState where
  flags := fun i => { cache i with isFatal := (entry i).faultType.isFatal }
  fatalFaults := 0
  throttledFaults := 0
  invalidPrefetchFaults := 0
  servicedFaults := 0
  batchId := batchId
  utlbPending := utlbPending
  utlbFatal := utlbFatal
  countedFatal := []
  cancelled := []

end NvUvm
