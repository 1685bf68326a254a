import NvUvm.FaultBatchStats
import NvUvm.Lib.Loop
import NvUvm.Lib.Run

/-!
# The fault servicing loop

Model of `service_fault_buffer`, `cancel_faults_precise` and `cancel_fault_batch`
(`uvm8_gpu_page_fault.c`) around `service_fault_batch`, with the statistics and flags of the uTLBs
that stay from one batch to the next and from one bottom half to the next.

The bottom halves of a GPU run one at a time, so a run is a sequence of steps: a step fetches and
services a batch (`batch`, or `iterate` in the precise cancel), the next one acts on the status
(`finish`).  Which faults are in the buffer, how their VA spaces and blocks react and which pushes
fail is the input of a step.  The limits on the number of batches only end a bottom half earlier.
-/

namespace NvUvm

open Lib

/-- An entry of `fault_cache`, in the order that the hardware wrote them. -/
structure CachedFault where
  entry : FaultEntry
  instancePtr : ℕ
  isFatal : Bool
  deriving DecidableEq, Repr

/-- Where the loop is: between batches or bottom halves, after `service_fault_batch` returned, or at
the start of a round of `cancel_faults_precise`. -/
inductive LoopPhase where
  | idle
  | serviced (cancel : Bool) (status : NvStatus)
  | precise
  deriving DecidableEq, Repr

/-- What followed a service that ended with a global error: the uTLBs that `cancel_fault_batch`
pushed a cancel for, the ones with a fault in the batch, and whether a push failed. -/
structure CancelRecord where
  pushed : List ℕ
  faulted : List ℕ
  failed : Bool
  deriving DecidableEq, Repr

/-- The parts of `uvm_replayable_fault_buffer_info_t` and of the batch context that outlive a
batch.  `cancelRecord` is there if the last step followed a global error. -/
structure FaultLoop where
  phase : LoopPhase
  cache : List CachedFault
  maxUtlbId : ℕ
  utlbPending : ℕ → ℕ
  utlbFatal : ℕ → ℕ
  inLockdown : ℕ → Bool
  cancelled : ℕ → Bool
  prevFatalFault : ℕ → Option CachedFault
  fatalFaults : ℕ
  batchId : ℕ
  cancelRecord : Option CancelRecord

/-- The batch that a fetch finds: the faults as `preprocess_fault_batch` sorts them, the order in
which the hardware wrote them, and the status of the flush if one of them has an instance pointer
without a VA space. -/
structure BatchInput where
  faults : SortedBatch
  hwOrder : List ℕ
  perm : hwOrder.Perm (List.range faults.cachedFaults)
  instancePtr : ℕ → ℕ
  staleFlags : ℕ → FaultFlags
  vaSpaceGone : Option NvStatus

/-! ## The uTLBs of a batch -/

/-- `find_fatal_fault_in_utlb`: the number of cached faults if there is none. -/
def findFatalFaultInUtlb (cache : List CachedFault) (utlbId : ℕ) : ℕ :=
  cache.findIdx fun c => c.isFatal && decide (c.entry.utlbId = utlbId)

def isFatalFaultInBuffer (cache : List CachedFault) (fault : CachedFault) : Bool :=
  cache.any fun c => decide (c.instancePtr = fault.instancePtr ∧
    c.entry.faultAddress = fault.entry.faultAddress ∧
    c.entry.accessType = fault.entry.accessType ∧ c.entry.utlbId = fault.entry.utlbId)

def isFirstFaultInUtlb (cache : List CachedFault) (i utlbId : ℕ) : Bool :=
  (cache.take i).all fun c => decide (c.entry.utlbId ≠ utlbId)

/-- The faults of a page in a uTLB, as `faults_for_page_in_utlb` counts them. -/
def faultsForPageInUtlb (cache : List CachedFault) (entry : FaultEntry) : List CachedFault :=
  cache.filter fun c => decide (c.entry.utlbId = entry.utlbId ∧ c.entry.vaSpace = entry.vaSpace ∧
    c.entry.faultAddress = entry.faultAddress)

/-- `no_fatal_pages_in_utlb`: from `start` on there is a page of the uTLB with non-fatal faults
only. -/
def noFatalPagesInUtlb (cache : List CachedFault) (start utlbId : ℕ) : Bool :=
  (cache.drop start).any fun c => decide (c.entry.utlbId = utlbId) &&
    (faultsForPageInUtlb cache c.entry).any (fun q => !q.isFatal) &&
    (faultsForPageInUtlb cache c.entry).all fun q => !q.isFatal

/-- `try_to_cancel_utlbs`: the loop leaves with the first push that fails. -/
def tryToCancelUtlbs (push : ℕ → NvStatus) (cache : List CachedFault) (inLockdown : ℕ → Bool)
    (cancelled : ℕ → Bool) : NvStatus × (ℕ → Bool) :=
  runUntil NvStatus.isOk .ok
    (fun (x : CachedFault × ℕ) (cancelled : ℕ → Bool) =>
      let utlb := x.1.entry.utlbId
      if x.1.isFatal && inLockdown utlb && !cancelled utlb && isFirstFaultInUtlb cache x.2 utlb &&
          !noFatalPagesInUtlb cache (x.2 + 1) utlb then
        (push x.2, if push x.2 = .ok then Function.update cancelled utlb true else cancelled)
      else (.ok, cancelled))
    cache.zipIdx cancelled

/-- The body of the loop of `cancel_fault_batch`; the uTLBs that a cancel is pushed for are kept
beside the flags. -/
def cancelFault (push : ℕ → NvStatus) (x : CachedFault × ℕ) (s : (ℕ → Bool) × List ℕ) :
    NvStatus × (ℕ → Bool) × List ℕ :=
  let utlb := x.1.entry.utlbId
  -- if this uTLB has been already cancelled, skip it
  if s.1 utlb then (.ok, s)
  else if push x.2 ≠ .ok then (push x.2, s)
  else (.ok, Function.update s.1 utlb true, s.2 ++ [utlb])

def cancelFaultBatch (push : ℕ → NvStatus) (cache : List CachedFault) (cancelled : ℕ → Bool) :
    NvStatus × (ℕ → Bool) × List ℕ :=
  runUntil NvStatus.isOk .ok (cancelFault push) cache.zipIdx (cancelled, [])

namespace FaultLoop

variable (s : FaultLoop)

/-! ## A batch -/

/-- The part of `fault_buffer_flush_locked` that touches the statistics: the reset goes up to the
highest uTLB id of the last fetch. -/
def flushLocked : FaultLoop :=
  { s with
    utlbPending := fun utlb => if utlb ≤ s.maxUtlbId then 0 else s.utlbPending utlb
    utlbFatal := fun utlb => if utlb ≤ s.maxUtlbId then 0 else s.utlbFatal utlb }

def cacheOf (b : BatchInput) (isFatal : ℕ → Bool) : List CachedFault :=
  b.hwOrder.map fun j => ⟨b.faults.entry j, b.instancePtr j, isFatal j⟩

def maxUtlbOf (b : BatchInput) : ℕ :=
  (b.hwOrder.map fun j => (b.faults.entry j).utlbId).foldl max 0

/-- The start of a batch: the counters of the batch are zero, and
`fetch_fault_buffer_entries` fetches its faults. -/
def fetch (b : BatchInput) : FaultLoop :=
  { s with
    fatalFaults := 0
    maxUtlbId := maxUtlbOf b
    utlbPending := fun utlb =>
      s.utlbPending utlb + utlbCount b.faults.entry utlb (List.range b.faults.cachedFaults)
    cache := cacheOf b b.faults.fatalType
    batchId := s.batchId + 1 }

/-- The batch with the mode that it is serviced in. -/
def serviceInput (cancel : Bool) (b : BatchInput) : SortedBatch :=
  { b.faults with env := { b.faults.env with maxUtlbId := maxUtlbOf b, cancelMode := cancel } }

/-- `preprocess_fault_batch` and `service_fault_batch` after a fetch that found faults; `none` if
the attempts at a block never end. -/
def serviceBatch (cancel : Bool) (b : BatchInput) : Option FaultLoop :=
  let s := s.fetch b
  match b.vaSpaceGone with
  | some status =>
    -- the flush ends the batch; the precise cancel goes on if it succeeded
    some { s.flushLocked with phase := if cancel ∧ status = .ok then .precise else .idle }
  | none =>
    let f := serviceInput cancel b
    (serviceFaultBatch f.env f.entry f.cachedFaults
      (fetchedState f.entry b.staleFlags s.batchId s.utlbPending s.utlbFatal)).map fun r =>
      { s with
        phase := .serviced cancel r.1
        cache := cacheOf b fun j => (r.2.flags j).isFatal
        utlbPending := r.2.utlbPending
        utlbFatal := r.2.utlbFatal
        fatalFaults := r.2.fatalFaults
        batchId := r.2.batchId }

/-- The recording of one fatal fault for each uTLB; `pastEnd` is what lies behind the cached
faults. -/
def recordFatal (pastEnd : CachedFault) : FaultLoop :=
  { s with prevFatalFault := fun utlb =>
      if utlb ≤ s.maxUtlbId then
        if 0 < s.utlbFatal utlb then
          some (s.cache.getD (findFatalFaultInUtlb s.cache utlb) pastEnd)
        else none
      else s.prevFatalFault utlb }

/-- The check which uTLBs of the new batch are in lockdown. -/
def checkLockdown : FaultLoop :=
  { s with
    cancelled := fun utlb => if utlb ≤ s.maxUtlbId then false else s.cancelled utlb
    inLockdown := fun utlb =>
      if utlb ≤ s.maxUtlbId then
        (s.prevFatalFault utlb).any fun fault => isFatalFaultInBuffer s.cache fault
      else s.inLockdown utlb }

/-! ## The steps -/

end FaultLoop

/-- The replay policy as far as `service_fault_buffer` acts on it after a batch. -/
inductive ReplayPolicy where
  | block
  | batch
  | batchFlush
  | once
  deriving DecidableEq, Repr

/-- A step of the loop: a flush from outside, a batch of `service_fault_buffer`, a round of
`cancel_faults_precise` up to its service, or what follows a service. -/
inductive LoopOp where
  | bufferFlush
  | batch (b : BatchInput)
  | iterate (b : BatchInput) (pastEnd : CachedFault) (pushReplay waitReplay : NvStatus)
  | finish (policy : ReplayPolicy) (waitTracker : NvStatus) (push : ℕ → NvStatus)

namespace FaultLoop

variable (s : FaultLoop)

/-- A batch of `service_fault_buffer` up to the return of `service_fault_batch`. -/
def batchStep (b : BatchInput) : FaultLoop :=
  if b.faults.cachedFaults = 0 then { s with maxUtlbId := 0, cache := [], batchId := s.batchId + 1 }
  else (s.serviceBatch false b).getD s

/-- A round of `cancel_faults_precise` up to the return of `service_fault_batch`. -/
def iterateStep (b : BatchInput) (pastEnd : CachedFault) (pushReplay waitReplay : NvStatus) :
    FaultLoop :=
  let s' := (s.recordFatal pastEnd).flushLocked
  if pushReplay ≠ .ok ∨ waitReplay ≠ .ok then { s' with phase := .idle }
  else if b.faults.cachedFaults = 0 then
    { s' with phase := .idle, maxUtlbId := 0, cache := [], batchId := s'.batchId + 1 }
  else
    -- the lockdown check only needs the fetched faults, which the service fetches
    let checked := (s'.fetch b).checkLockdown
    ({ s' with cancelled := checked.cancelled, inLockdown := checked.inLockdown }.serviceBatch
      true b).getD s

/-- `service_fault_buffer` after a service. -/
def finishRegular (policy : ReplayPolicy) (waitTracker : NvStatus) (push : ℕ → NvStatus)
    (status : NvStatus) : FaultLoop :=
  if status = .warnMoreProcessingRequired then { s with phase := .idle }
  else if status ≠ .ok then
    let r := cancelFaultBatch push s.cache s.cancelled
    { s with
      phase := .idle
      cancelled := r.2.1
      cancelRecord := some ⟨r.2.2, s.cache.map fun c => c.entry.utlbId, !r.1.isOk⟩ }
  else if 0 < s.fatalFaults then
    { s with phase := if waitTracker = .ok then .precise else .idle }
  else if policy = .batchFlush then { s.flushLocked with phase := .idle }
  else { s with phase := .idle }

/-- `cancel_faults_precise` after a service. -/
def finishPrecise (push : ℕ → NvStatus) (status : NvStatus) : FaultLoop :=
  if status = .warnMoreProcessingRequired ∨ status = .errNoMemory then { s with phase := .precise }
  else if status ≠ .ok then
    -- the loop is left without a call of `cancel_fault_batch`
    { s with
      phase := .idle
      cancelRecord := some ⟨[], s.cache.map fun c => c.entry.utlbId, false⟩ }
  else if s.fatalFaults = 0 then { s with phase := .idle }
  else
    { s with
      phase := .precise
      cancelled := (tryToCancelUtlbs push s.cache s.inLockdown s.cancelled).2 }

/-- One step; a step that does not fit the phase is none. -/
def loopStep (s : FaultLoop) (op : LoopOp) : FaultLoop :=
  let s := { s with cancelRecord := none }
  match op, s.phase with
  | .bufferFlush, .idle => s.flushLocked
  | .batch b, .idle => s.batchStep b
  | .iterate b pastEnd pushReplay waitReplay, .precise => s.iterateStep b pastEnd pushReplay waitReplay
  | .finish policy waitTracker push, .serviced false status =>
    s.finishRegular policy waitTracker push status
  | .finish _ _ push, .serviced true status => s.finishPrecise push status
  | _, _ => s

end FaultLoop

def faultLoopInit : FaultLoop where
  phase := .idle
  cache := []
  maxUtlbId := 0
  utlbPending := fun _ => 0
  utlbFatal := fun _ => 0
  inLockdown := fun _ => false
  cancelled := fun _ => false
  prevFatalFault := fun _ => none
  fatalFaults := 0
  batchId := 0
  cancelRecord := none

/-- A read fault alone in a batch, in a VA space with or without a GPU VA space for the GPU, whose page
is serviced with the given status. -/
def readBatch (registered : Bool) (serviceFaults : NvStatus) : BatchInput where
  faults :=
    { entry := fun _ => ⟨0, 4096, .read, .invalidPte, 0⟩
      cachedFaults := 1
      env :=
        { registered := fun _ => registered
          needsFaultBufferFlush := fun _ => false
          flush := .ok
          maxUtlbId := 0
          findCreate := fun _ => .ok ⟨0, 0, 2097151⟩
          attempts := fun _ => [⟨fun _ => .ok, fun _ => false, fun _ => false, serviceFaults, .ok⟩]
          addTracker := fun _ => .ok
          cancelMode := false
          replayPolicyBlock := false
          pushReplay := fun _ => .ok
          globalStatus := .ok }
      sorted := fun _ _ _ _ => Or.inr ⟨rfl, Or.inr ⟨rfl, le_refl _⟩⟩
      covers := by
        rintro i b ⟨⟩
        exact ⟨rfl, by decide, by decide⟩
      disjoint := by
        rintro i j b c ⟨⟩ ⟨⟩ - - -
        rfl
      failed := by
        rintro i status ⟨⟩ }
  hwOrder := [0]
  perm := List.Perm.refl _
  instancePtr := fun _ => 0
  staleFlags := fun _ => ⟨false, false, false⟩
  vaSpaceGone := none

end NvUvm
