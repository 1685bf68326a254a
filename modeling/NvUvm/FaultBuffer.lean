import NvUvm.FaultBatch
import NvUvm.Lib.Ring

/-!
# The replayable fault buffer

A ring of `max_faults` entries (`uvm8_gpu_page_fault.c`).  The GPU reserves entries, writes them in any
order and makes each of them valid, and advances PUT; the driver consumes the entries from GET on.

The driver's functions run under the ISR lock, so that one of them is under way at a time, and the GPU
takes its steps between any two of theirs.  They read the PUT register and an entry once at a time, and
write the GET register last.  The GPU leaves one entry of the ring unused.
-/

namespace NvUvm.FaultBuffer

open Lib Lib.Ring
open Function (update)

/-! ## Entries -/

/-- What the GPU writes into an entry. -/
structure RawFault where
  faultAddress : ℕ
  accessType : FaultAccessType
  faultType : FaultType
  utlbId : ℕ

/-- `uvm_fault_buffer_entry_t` as it is cached. -/
structure CachedFault where
  faultAddress : ℕ
  accessType : FaultAccessType
  faultType : FaultType
  utlbId : ℕ
  vaSpace : Option ℕ
  isFatal : Bool

/-- `UVM_PAGE_ALIGN_DOWN`. -/
def pageAlignDown (address : ℕ) : ℕ := address / 4096 * 4096

/-- `parse_entry` and what `fetch_fault_buffer_entries` sets after it. -/
def parseEntry (f : RawFault) : CachedFault where
  faultAddress := pageAlignDown f.faultAddress
  accessType := f.accessType
  faultType := f.faultType
  utlbId := f.utlbId
  vaSpace := none
  isFatal := f.faultType.isFatal

/-! ## The state -/

/-- The size of the buffer and of the fault cache, and the module parameter for the size of a
batch. -/
structure Config where
  maxFaults : ℕ
  perfFaultBatchCount : ℕ
  pos : 0 < maxFaults

def Config.faultBatchCount (cfg : Config) : ℕ :=
  min (max cfg.perfFaultBatchCount 1) cfg.maxFaults

/-- `fault_fetch_mode_t`. -/
inductive FetchMode where
  | batchAll
  | batchReady
  | all
  deriving DecidableEq

/-- `fault_buffer_flush_mode_t`. -/
inductive FlushMode where
  | cachedPut
  | updatePut
  deriving DecidableEq

/-- Where the driver is, with its local variables.  `before` is GET as the call found it. -/
inductive Pc where
  | idle
  | slowPath
  | fetching (mode : FetchMode) (before i cachedFaults get put : ℕ)
  | fetched (before cachedFaults : ℕ)
  | flushing (get put : ℕ)
  | flushed

/-- What a call returned; a fetch with GET before and after it. -/
inductive Returned where
  | pending (result : Bool)
  | fetched (before count after : ℕ)
  | flushed

/-- A consumed entry: its number in the order of the reservations, where it was in the ring, its valid
bit, the registers when it was consumed, and what it held. -/
structure Consumed where
  number : ℕ
  index : ℕ
  valid : Bool
  get : ℕ
  put : ℕ
  fault : RawFault

/-- The GET and PUT registers with the entries; the GPU has reserved those before `reserve`, and is
writing to some of them.  The driver's copies of the registers, the fault cache and the uTLB counters.
Ghosts are the numbers of the entries, what was consumed, what the last call returned, and whether the
fault cache was overrun. -/
structure State where
  get : ℕ
  put : ℕ
  reserve : ℕ
  writing : ℕ → Bool
  valid : ℕ → Bool
  entry : ℕ → RawFault
  cachedGet : ℕ
  cachedPut : ℕ
  faultCache : ℕ → CachedFault
  maxUtlbId : ℕ
  numPendingFaults : ℕ → ℕ
  numFatalFaults : ℕ → ℕ
  pc : Pc
  number : ℕ → ℕ
  numReserved : ℕ
  consumed : List Consumed
  returned : Option Returned
  cacheOverrun : Bool

instance (n get put i : ℕ) : Decidable (InRing n get put i) :=
  inferInstanceAs (Decidable (_ ∧ _))

/-- The buffer as RM leaves it: which entries are reserved, which of those before PUT and behind it are
valid already, and what they hold. -/
structure Taken (cfg : Config) where
  get : ℕ
  put : ℕ
  reserve : ℕ
  valid : ℕ → Bool
  entry : ℕ → RawFault
  faultCache : ℕ → CachedFault
  getLt : get < cfg.maxFaults
  putLt : put < cfg.maxFaults
  reserveLt : reserve < cfg.maxFaults
  putLe : dist cfg.maxFaults get put ≤ dist cfg.maxFaults get reserve

/-- The state behind `init_replayable_faults`. -/
def State.taken {cfg : Config} (t : Taken cfg) : State where
  get := t.get
  put := t.put
  reserve := t.reserve
  writing i := decide (InRing cfg.maxFaults t.get t.reserve i) && !t.valid i
  valid i := decide (InRing cfg.maxFaults t.get t.reserve i) && t.valid i
  entry := t.entry
  cachedGet := t.get
  cachedPut := t.put
  faultCache := t.faultCache
  maxUtlbId := 0
  numPendingFaults _ := 0
  numFatalFaults _ := 0
  pc := .idle
  number := dist cfg.maxFaults t.get
  numReserved := dist cfg.maxFaults t.get t.reserve
  consumed := []
  returned := none
  cacheOverrun := false

/-! ## The driver -/

/-- `++get; if (get == max_faults) get = 0`. -/
def advance (cfg : Config) (get : ℕ) : ℕ := if get + 1 = cfg.maxFaults then 0 else get + 1

/-- Steps of the GPU, the calls of the driver, and their next access. -/
inductive Op where
  | reserve
  | write (index : ℕ) (fault : RawFault)
  | advancePut
  | pending
  | fetch (mode : FetchMode)
  | flush (mode : FlushMode)
  | resume

namespace State

variable (cfg : Config) (s : State)

/-- The entry is read, and its valid bit cleared. -/
def consume (get : ℕ) : State :=
  { s with
    valid := update s.valid get false
    consumed := s.consumed ++ [
      { number := s.number get
        index := get
        valid := s.valid get
        get := s.get
        put := s.put
        fault := s.entry get }] }

/-- The entry is parsed into `fault_cache[i]`, and counted for its uTLB. -/
def cacheEntry (get i : ℕ) : State :=
  let fault := parseEntry (s.entry get)
  { s.consume get with
    faultCache := update s.faultCache i fault
    maxUtlbId := max s.maxUtlbId fault.utlbId
    numPendingFaults := update s.numPendingFaults fault.utlbId
      (s.numPendingFaults fault.utlbId + 1)
    cacheOverrun := s.cacheOverrun || decide (cfg.maxFaults ≤ i) }

/-- `uvm_replayable_faults_pending`, up to the read of the PUT register. -/
def uvmReplayableFaultsPending : State :=
  if s.cachedGet ≠ s.cachedPut then { s with returned := some (.pending true) }
  else if s.valid s.cachedGet then { s with returned := some (.pending true) }
  else { s with pc := .slowPath, returned := none }

/-- `fetch_fault_buffer_entries`, up to its loop. -/
def fetchFaultBufferEntries (mode : FetchMode) : State :=
  let get := s.cachedGet
  let put := if get = s.cachedPut then s.put else s.cachedPut
  let s := { s with maxUtlbId := 0, cachedPut := put }
  if get = put then { s with returned := some (.fetched s.get 0 s.get) }
  else { s with pc := .fetching mode s.get 0 0 get put, returned := none }

/-- `fault_buffer_flush_locked`, up to its loop. -/
def faultBufferFlushLocked (mode : FlushMode) : State :=
  let put := if mode = .updatePut then s.put else s.cachedPut
  { s with cachedPut := put, pc := .flushing s.cachedGet put, returned := none }

/-- The uTLB counters up to `max_utlb_id` are reset. -/
def resetUtlbs : State :=
  { s with
    numPendingFaults := fun utlb => if utlb ≤ s.maxUtlbId then 0 else s.numPendingFaults utlb
    numFatalFaults := fun utlb => if utlb ≤ s.maxUtlbId then 0 else s.numFatalFaults utlb }

/-- A turn of the loop of `fetch_fault_buffer_entries`. -/
def fetchTurn (mode : FetchMode) (before i cachedFaults get put : ℕ) : State :=
  if get ≠ put ∧ (mode = .all ∨ i < cfg.faultBatchCount) then
    if s.valid get then
      { s.cacheEntry cfg get i with
        pc := .fetching mode before (i + 1) (cachedFaults + 1) (advance cfg get) put }
    else if mode = .batchReady ∧ cachedFaults ≠ 0 then
      -- the entry is left for later
      { s with cachedGet := get, pc := .fetched before cachedFaults }
    else s
  else { s with cachedGet := get, pc := .fetched before cachedFaults }

/-- A turn of the loop of `fault_buffer_flush_locked`. -/
def flushTurn (get put : ℕ) : State :=
  if get ≠ put then
    if s.valid get then { s.consume get with pc := .flushing (advance cfg get) put } else s
  else { s with cachedGet := get, pc := .flushed }

/-- The next access of the call that is under way. -/
def resume : State :=
  match s.pc with
  | .idle => s
  | .slowPath =>
    { s with
      cachedPut := s.put
      pc := .idle
      returned := some (.pending (decide (s.cachedGet ≠ s.put))) }
  | .fetching mode before i cachedFaults get put =>
    s.fetchTurn cfg mode before i cachedFaults get put
  | .fetched before cachedFaults =>
    { s with
      get := s.cachedGet
      pc := .idle
      returned := some (.fetched before cachedFaults s.cachedGet) }
  | .flushing get put => s.flushTurn cfg get put
  | .flushed => { s.resetUtlbs with get := s.cachedGet, pc := .idle, returned := some .flushed }

/-! ## The GPU -/

/-- The GPU reserves the next entry, as long as one stays free. -/
def reserveEntry : State :=
  if advance cfg s.reserve = s.get then s
  else
    { s with
      reserve := advance cfg s.reserve
      writing := update s.writing s.reserve true
      number := update s.number s.reserve s.numReserved
      numReserved := s.numReserved + 1 }

/-- The GPU has written a reserved entry, and makes it valid. -/
def writeEntry (index : ℕ) (fault : RawFault) : State :=
  if s.writing index then
    { s with
      writing := update s.writing index false
      valid := update s.valid index true
      entry := update s.entry index fault }
  else s

/-- PUT moves over a reserved entry, valid or not. -/
def advancePut : State :=
  if s.put = s.reserve then s else { s with put := advance cfg s.put }

end State

/-- A step of the GPU, or of the driver: a call begins when none is under way. -/
def step (cfg : Config) (s : State) : Op → State
  | .reserve => s.reserveEntry cfg
  | .write index fault => s.writeEntry index fault
  | .advancePut => s.advancePut cfg
  | .pending => match s.pc with
    | .idle => s.uvmReplayableFaultsPending
    | _ => s
  | .fetch mode => match s.pc with
    | .idle => s.fetchFaultBufferEntries mode
    | _ => s
  | .flush mode => match s.pc with
    | .idle => s.faultBufferFlushLocked mode
    | _ => s
  | .resume => s.resume cfg

end NvUvm.FaultBuffer
