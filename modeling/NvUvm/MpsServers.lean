import NvUvm.Lib.Run

/-!
# MPS servers and clients of UVM-Lite

Model of the processes of `uvm_lite.c` that share migration trackers.  An MPS server creates a
migration tracker for each of its GPUs; its clients keep pointers to these trackers in their own
tables.  Trackers go away when their process is closed and when their device is stopped.

Processes, servers and trackers are numbered in the order they are allocated, and a number is not used
again.  Each lock section is a step of its own.  A call that holds the `uvmPrivLock` of its process
from one section to the next is the `call` of the process; a client that also needs the
`uvmPrivLock` of its server waits until no call holds it.
-/

namespace NvUvm.Mps

open Lib

/-! ## The state -/

/-- `UVM_MAX_GPUS`. -/
def maxGpus : ℕ := 32

/-- `UvmGpuState`. -/
structure GpuState where
  gpuUuid : ℕ
  isEnabled : Bool

/-- `UvmMpsProcessType_t`. -/
inductive MpsProcessType where
  | notActive
  | server
  | client
deriving DecidableEq

/-- How far `uvmlite_close` of a process has got. -/
inductive Stage where
  | opened
  | delisted
  | dying
  | released
  | removed
  | closed
deriving DecidableEq

/-- The call that holds `uvmPrivLock`, with its local variables. -/
inductive Call where
  | idle
  | registerServer (done gpuUuidArray : List ℕ)
  | failServer (gpuUuidArray : List ℕ)
  | registerClient (mpsServer : ℕ)
  | createOrCheckChannel (index : ℕ)
  | fault (index : ℕ) (hasPage : Bool)
  | migrate (index migTracker : ℕ)
deriving DecidableEq

/-- `UvmProcessRecord`, with what `uvmlite_close` and the call under `uvmPrivLock` have done. -/
structure Process where
  euid : ℕ
  gpuMigs : ℕ → Option ℕ
  mpsProcessType : MpsProcessType
  mpsServer : Option ℕ
  stage : Stage
  call : Call

/-- `UvmMpsServer`, and how often it was freed. -/
structure MpsServer where
  handle : ℕ
  processRecord : ℕ
  kref : ℕ
  dying : Bool
  freed : ℕ

/-- The global tables, the processes and servers, and how often each tracker was freed.  `stopping` is
the device stop that holds `g_uvmDriverPrivateTableLock`, with the GPU and the processes it has still
to visit. -/
structure State where
  attached : List GpuState
  process : ℕ → Process
  opened : ℕ
  table : List ℕ
  server : ℕ → MpsServer
  servers : ℕ
  serversList : List ℕ
  trackers : ℕ
  freed : ℕ → ℕ
  stopping : Option (ℕ × List ℕ)
  violated : Bool

namespace State

variable (s : State)

def setProcess (p : ℕ) (pr : Process) : State :=
  { s with process := Function.update s.process p pr }

/-- A call takes, keeps or releases `uvmPrivLock`. -/
def setCall (p : ℕ) (c : Call) : State := s.setProcess p { s.process p with call := c }

/-- `uvmlite_close` goes on. -/
def setStage (p : ℕ) (stage : Stage) : State :=
  s.setProcess p { s.process p with stage := stage }

/-- An entry of `gpuMigs` is written. -/
def setMig (p i : ℕ) (t : Option ℕ) : State :=
  s.setProcess p { s.process p with gpuMigs := Function.update (s.process p).gpuMigs i t }

def setServer (m : ℕ) (server : MpsServer) : State :=
  { s with server := Function.update s.server m server }

/-! ## Accesses -/

def touchTracker (t : ℕ) : State :=
  { s with violated := s.violated || decide (s.freed t ≠ 0) }

/-- A `UvmMpsServer` is accessed. -/
def touchServer (m : ℕ) : State :=
  { s with violated := s.violated || decide ((s.server m).freed ≠ 0) }

def touchProcess (p : ℕ) : State :=
  { s with violated := s.violated || decide ((s.process p).stage = .closed) }

/-! ## Attached GPUs -/

def findGpuIndex (uuid : ℕ) : Option ℕ := s.attached.findIdx? fun gpu => gpu.gpuUuid = uuid

/-- `uvmlite_find_gpu_index`. -/
def findEnabledGpuIndex (uuid : ℕ) : Option ℕ :=
  (s.findGpuIndex uuid).filter fun i => s.attached[i]?.any GpuState.isEnabled

/-- `_find_or_add_gpu_index`, with whether RM knows the GPU: the index, and the list. -/
def findOrAddGpuIndex (uuid : ℕ) (infoOk : Bool) : Option (ℕ × List GpuState) :=
  match s.findGpuIndex uuid with
  | some i => some (i, s.attached)
  | none =>
    if maxGpus ≤ s.attached.length then none
    else if infoOk then some (s.attached.length, s.attached ++ [⟨uuid, false⟩])
    else none

/-- `uvmlite_enable_gpu_uuid` and `uvmlite_disable_gpu_uuid`. -/
def setEnabled (uuid : ℕ) (infoOk isEnabled : Bool) : State :=
  match s.findOrAddGpuIndex uuid infoOk with
  | none => s
  | some (i, attached) =>
    { s with attached := attached.modify i fun gpu => { gpu with isEnabled := isEnabled } }

/-! ## Migration trackers -/

/-- `_destroy_migration_resources`, and the tracker is freed. -/
def destroyTracker (t : ℕ) : State :=
  { s.touchTracker t with freed := Function.update s.freed t (s.freed t + 1) }

/-- The tracker of a process is created, with whether the allocation and
`_create_migration_resources` succeed. -/
def createTracker (p i : ℕ) (allocOk createOk : Bool) : Bool × State :=
  if !allocOk then (false, s.setMig p i none)
  else if !createOk then
    (false, { s.setMig p i none with
      trackers := s.trackers + 1
      freed := Function.update s.freed s.trackers 1 })
  else (true, { s.setMig p i (some s.trackers) with trackers := s.trackers + 1 })

/-- The body of the loop of `umvlite_destroy_per_process_gpu_resources`. -/
def destroyMig (p i : ℕ) : State :=
  match (s.process p).gpuMigs i with
  | none => s
  | some t =>
    (if (s.process p).mpsProcessType = .client then s else s.destroyTracker t).setMig p i none

/-- The body of the loop of `_delete_all_migration_resources`: the debug print reads the tracker. -/
def deleteMig (p : ℕ) (debugPrints : Bool) (i : ℕ) : State :=
  match (s.process p).gpuMigs i with
  | none => s
  | some t => (if debugPrints then s.touchTracker t else s).destroyMig p i

def deleteAllMigrationResources (p : ℕ) (debugPrints : Bool) : State :=
  (List.range maxGpus).foldl (fun s i => s.deleteMig p debugPrints i) s

/-! ## References to a server -/

def krefGet (m : ℕ) : State :=
  (s.touchServer m).setServer m { s.server m with kref := (s.server m).kref + 1 }

/-- `kref_put` with `_delete_mps_server`. -/
def krefPut (m : ℕ) : State :=
  let server := s.server m
  (s.touchServer m).setServer m
    (if server.kref = 1 then { server with kref := 0, freed := server.freed + 1 }
      else { server with kref := server.kref - 1 })

/-! ## Registration -/

/-- `uvmlite_register_mps_server`, before its first loop. -/
def registerMpsServer (p : ℕ) (gpuUuidArray : List ℕ) : State :=
  if maxGpus < gpuUuidArray.length then s
  else if (s.process p).mpsProcessType ≠ .notActive then s
  else if (s.process p).mpsServer.isSome then s
  else s.setCall p (.registerServer [] gpuUuidArray)

/-- A section of `uvmlite_register_mps_server`: the next GPU, and at the end the server. -/
def registerMpsServerNext (p : ℕ) (done : List ℕ) (allocOk createOk : Bool) (handle : ℕ) :
    List ℕ → State
  | uuid :: gpuUuidArray =>
    match s.findEnabledGpuIndex uuid with
    | none => s.setCall p (.failServer done)
    | some i =>
      let r := s.createTracker p i allocOk createOk
      if r.1 then r.2.setCall p (.registerServer (done ++ [uuid]) gpuUuidArray)
      else r.2.setCall p (.failServer done)
  | [] =>
    if !allocOk then s.setCall p (.failServer done)
    -- `_create_unique_mps_handle` draws another number
    else if handle ∈ s.serversList.map fun m => (s.server m).handle then s
    else
      { (s.setServer s.servers ⟨handle, p, 1, false, 0⟩).setProcess p
          { s.process p with
            mpsProcessType := .server
            mpsServer := some s.servers
            call := .idle } with
        servers := s.servers + 1
        serversList := s.servers :: s.serversList }

/-- An iteration of the loop at the end of `uvmlite_register_mps_server` that has failed. -/
def failMpsServerNext (p : ℕ) : List ℕ → State
  | [] => s.setCall p .idle
  | uuid :: gpuUuidArray =>
    match s.findEnabledGpuIndex uuid with
    | none => s.setCall p (.failServer gpuUuidArray)
    | some i =>
      match (s.process p).gpuMigs i with
      | none => s.setCall p (.failServer gpuUuidArray)
      | some t => ((s.destroyTracker t).setMig p i none).setCall p (.failServer gpuUuidArray)

/-- `uvmlite_register_mps_client`, up to the end of its lock section of `g_uvmMpsServersListLock`. -/
def registerMpsClient (p serverId : ℕ) : State :=
  if (s.process p).mpsProcessType ≠ .notActive then s
  else
    match s.serversList.find? fun m => (s.server m).handle = serverId with
    | none => s
    | some m => s.setCall p (.registerClient m)

/-- The rest of `uvmlite_register_mps_client`. -/
def registerMpsClientNext (p m : ℕ) : State :=
  let serverProcess := (s.server m).processRecord
  let s := (s.touchServer m).touchProcess serverProcess
  if (s.process serverProcess).euid ≠ (s.process p).euid then s.setCall p .idle
  else
    (s.setProcess p { s.process p with
      mpsProcessType := .client
      mpsServer := some m
      call := .idle }).krefGet m

/-! ## Commits, faults and migrations -/

/-- `_create_or_check_channel`, up to `_lock_mps_server` of a client. -/
def createOrCheckChannel (p uuid : ℕ) (allocOk createOk : Bool) : State :=
  match s.findEnabledGpuIndex uuid with
  | none => s
  | some i =>
    match (s.process p).gpuMigs i with
    | some _ => s
    | none =>
      if (s.process p).mpsProcessType = .client then s.setCall p (.createOrCheckChannel i)
      else (s.createTracker p i allocOk createOk).2

/-- `_fault_common`, up to `_lock_mps_server` of a client. -/
def faultCommon (p index : ℕ) (hasPage : Bool) : State :=
  if (s.process p).mpsProcessType = .client then s.setCall p (.fault index hasPage)
  else if hasPage then s
  else
    match (s.process p).gpuMigs index with
    | none => s
    | some t => s.touchTracker t

/-- `uvmlite_migrate_to_gpu`, up to `_lock_mps_server` of a client. -/
def migrateToGpu (p index : ℕ) (isMapped : Bool) : State :=
  match (s.process p).gpuMigs index with
  | none => s
  | some t =>
    if !isMapped then s
    else if (s.process p).mpsProcessType = .client then s.setCall p (.migrate index t)
    else s.touchTracker t

/-- What a client does between `_lock_mps_server` and `_unlock_mps_server`. -/
def underServerLock (p serverProcess : ℕ) : Call → State
  | .createOrCheckChannel i =>
    match (s.process serverProcess).gpuMigs i with
    | none => s
    | some t => s.setMig p i (some t)
  | .fault i hasPage =>
    if hasPage then s
    else
      match (s.process p).gpuMigs i with
      | none => s
      | some t => s.touchTracker t
  | .migrate _ t => s.touchTracker t
  | _ => s

/-- `_lock_mps_server` of a client and the rest of its call. -/
def lockMpsServer (p : ℕ) (c : Call) : State :=
  match (s.process p).mpsServer with
  | none => s
  | some m =>
    let s := s.touchServer m
    if (s.server m).dying then s.setCall p .idle
    else
      let serverProcess := (s.server m).processRecord
      -- it waits for the `uvmPrivLock` of the server
      if (s.process serverProcess).call ≠ .idle then s
      else ((s.touchProcess serverProcess).underServerLock p serverProcess c).setCall p .idle

/-- A call that holds `uvmPrivLock` goes on. -/
def next (p : ℕ) (allocOk createOk : Bool) (handle : ℕ) : State :=
  match (s.process p).call with
  | .idle => s
  | .registerServer done gpuUuidArray =>
    s.registerMpsServerNext p done allocOk createOk handle gpuUuidArray
  | .failServer gpuUuidArray => s.failMpsServerNext p gpuUuidArray
  | .registerClient m => s.registerMpsClientNext p m
  | c => s.lockMpsServer p c

/-! ## Files and devices -/

/-- `uvmlite_open`. -/
def openFile (euid : ℕ) : State :=
  { s.setProcess s.opened ⟨euid, fun _ => none, .notActive, none, .opened, .idle⟩ with
    opened := s.opened + 1
    table := s.opened :: s.table }

/-- The first section of `uvmlite_close`. -/
def close (p : ℕ) : State :=
  match (s.process p).mpsProcessType, (s.process p).mpsServer with
  | .server, some m =>
    { (s.touchServer m).setStage p .delisted with serversList := s.serversList.erase m }
  | .client, some m => (s.krefPut m).setStage p .released
  | _, _ => s.setStage p .released

/-- The next section of `uvmlite_close`. -/
def closeNext (p : ℕ) (debugPrints : Bool) : State :=
  match (s.process p).stage, (s.process p).mpsServer with
  | .delisted, some m =>
    ((s.touchServer m).setServer m { s.server m with dying := true }).setStage p .dying
  | .dying, some m => (s.krefPut m).setStage p .released
  | .released, _ =>
    if s.stopping.isSome then s
    else
      ({ s with table := s.table.erase p }.deleteAllMigrationResources p debugPrints).setStage p
        .removed
  | .removed, _ => s.setStage p .closed
  | _, _ => s

/-- `umvlite_destroy_per_process_gpu_resources`, before its loop. -/
def stopDevice (uuid : ℕ) : State :=
  match s.findGpuIndex uuid with
  | none => s
  | some i => { s with stopping := some (i, s.table) }

/-- The next process of the loop of `umvlite_destroy_per_process_gpu_resources`. -/
def stopNext : State :=
  match s.stopping with
  | none => s
  | some (_, []) => { s with stopping := none }
  | some (i, p :: rest) =>
    -- it waits for `uvmPrivLock`
    if (s.process p).call ≠ .idle then s
    else { (s.touchProcess p).destroyMig p i with stopping := some (i, rest) }

/-- A file that is open, and whose `uvmPrivLock` is not held. -/
def Ready (p : ℕ) : Prop :=
  p < s.opened ∧ (s.process p).stage = .opened ∧ (s.process p).call = .idle

instance (p : ℕ) : Decidable (s.Ready p) := inferInstanceAs (Decidable (_ ∧ _))

end State

/-! ## Runs -/

/-- A lock section, with the outcomes of what it calls. -/
inductive Op where
  | enableGpu (uuid : ℕ) (infoOk : Bool)
  | disableGpu (uuid : ℕ) (infoOk : Bool)
  | stopDevice (uuid : ℕ)
  | stopNext
  | openFile (euid : ℕ)
  | registerMpsServer (p : ℕ) (gpuUuidArray : List ℕ)
  | registerMpsClient (p serverId : ℕ)
  | createOrCheckChannel (p uuid : ℕ) (allocOk createOk : Bool)
  | faultCommon (p index : ℕ) (hasPage : Bool)
  | migrateToGpu (p index : ℕ) (isMapped : Bool)
  | next (p : ℕ) (allocOk createOk : Bool) (handle : ℕ)
  | close (p : ℕ)
  | closeNext (p : ℕ) (debugPrints : Bool)

/-- The state after a step.  A step that has to wait for a lock changes nothing. -/
def step (s : State) : Op → State
  | .enableGpu uuid infoOk => s.setEnabled uuid infoOk true
  | .disableGpu uuid infoOk => s.setEnabled uuid infoOk false
  | .stopDevice uuid => if s.stopping.isSome then s else s.stopDevice uuid
  | .stopNext => s.stopNext
  | .openFile euid => if s.stopping.isSome then s else s.openFile euid
  | .registerMpsServer p gpuUuidArray =>
    if s.Ready p then s.registerMpsServer p gpuUuidArray else s
  | .registerMpsClient p serverId => if s.Ready p then s.registerMpsClient p serverId else s
  | .createOrCheckChannel p uuid allocOk createOk =>
    if s.Ready p then s.createOrCheckChannel p uuid allocOk createOk else s
  | .faultCommon p index hasPage => if s.Ready p then s.faultCommon p index hasPage else s
  | .migrateToGpu p index isMapped => if s.Ready p then s.migrateToGpu p index isMapped else s
  | .next p allocOk createOk handle => s.next p allocOk createOk handle
  | .close p => if s.Ready p then s.close p else s
  | .closeNext p debugPrints => s.closeNext p debugPrints

def State.initial : State where
  attached := []
  process _ := ⟨0, fun _ => none, .notActive, none, .closed, .idle⟩
  opened := 0
  table := []
  server _ := ⟨0, 0, 0, false, 0⟩
  servers := 0
  serversList := []
  trackers := 0
  freed _ := 0
  stopping := none
  violated := false

end NvUvm.Mps
