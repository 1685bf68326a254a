import Mathlib.Data.BitVec
import NvUvm.Lib.Run
import NvUvm.Processor

/-!
# The session counts of the UVM-Lite counters

A debugger opens sessions on processes and enables counters for them.  The counters over all GPUs are
kept for a process as long as their session counts are not zero (`uvm_debug_session.c`,
`uvm_kernel_counters.c`).

Files of the driver are numbered in the order in which they are opened, and so are the counter
containers of the processes.  Only what decides the session counts is modelled.
-/

namespace NvUvm.SessionCounts

open Lib

/-- `UVM_TOTAL_COUNTERS`. -/
def totalCounters : ℕ := 10

/-- `UVM_MAX_SESSIONS_PER_PROCESS`. -/
def maxSessionsPerProcess : ℕ := 64

/-- `UVM_MAX_COUNTERS_PER_IOCTL_CALL`. -/
def maxCountersPerIoctlCall : ℕ := 32

/-- `NV_ERR_INSUFFICIENT_RESOURCES`. -/
def errInsufficientResources : NvStatus := .other 0x1A

/-- `NV_ERR_INSUFFICIENT_PERMISSIONS`. -/
def errInsufficientPermissions : NvStatus := .other 0x1B

/-- `NV_ERR_NOT_SUPPORTED`. -/
def errNotSupported : NvStatus := .other 0x56

/-- `UvmCounterConfig`, of 32-bit numbers. -/
structure UvmCounterConfig where
  scope : ℕ
  name : ℕ
  state : ℕ
  deriving DecidableEq

/-- `sessionCount` of a `UvmCounterInfo`, by counter. -/
abbrev Counts := ℕ → BitVec 32

/-! ## The requests of a call -/

def uvmGetCounterIndex (name : ℕ) : NvStatus :=
  if name < totalCounters then .ok else .errInvalidArgument

/-- `_uvm_increment_session_count`. -/
def incrementSessionCount (counts : Counts) (name : ℕ) : NvStatus × Counts :=
  let status := uvmGetCounterIndex name
  (status, if status = .ok then Function.update counts name (counts name + 1#32) else counts)

/-- `_uvm_decrement_session_count`. -/
def decrementSessionCount (counts : Counts) (name : ℕ) : NvStatus × Counts :=
  let status := uvmGetCounterIndex name
  (status, if status = .ok then Function.update counts name (counts name - 1#32) else counts)

/-- The loop of `uvm_counter_state_atomic_update`: every request for all GPUs sets the status. -/
def updateLoop : List UvmCounterConfig → NvStatus → Counts → NvStatus × Counts
  | [], status, counts => (status, counts)
  | currConfig :: rest, status, counts =>
    match currConfig.scope with
    -- single GPU: enabled by default
    | 0 => updateLoop rest status counts
    | 1 =>
      let r := if currConfig.state = 1 then incrementSessionCount counts currConfig.name
        else decrementSessionCount counts currConfig.name
      updateLoop rest r.1 r.2
    | 2 => (errNotSupported, counts)
    | _ => (.errInvalidArgument, counts)

def uvmCounterStateAtomicUpdate (config : List UvmCounterConfig) (counts : Counts) :
    NvStatus × Counts :=
  if maxCountersPerIoctlCall < config.length then (.errInvalidArgument, counts)
  else updateLoop config .ok counts

/-! ## What a call counts -/

/-- The requests that reach a count, each with its counter: those for all GPUs with the name of a
counter, up to an entry of another scope. -/
def requests : List UvmCounterConfig → List (ℕ × Bool)
  | [] => []
  | currConfig :: rest =>
    if currConfig.scope = 0 then requests rest
    else if currConfig.scope = 1 then
      if currConfig.name < totalCounters then
        (currConfig.name, decide (currConfig.state = 1)) :: requests rest
      else requests rest
    else []

/-- An entry is of one of the two scopes of a process. -/
def UvmCounterConfig.ofProcess (config : UvmCounterConfig) : Bool :=
  decide (config.scope = 0 ∨ config.scope = 1)

/-- The last request for all GPUs names no counter. -/
def LastUnknown : List UvmCounterConfig → Prop
  | [] => False
  | currConfig :: rest => LastUnknown rest ∨
      (currConfig.scope = 1 ∧ totalCounters ≤ currConfig.name ∧ ∀ c ∈ rest, c.scope ≠ 1)

/-- A call returns an error: it has too many entries, one of them is of another scope, or the last
request for all GPUs names no counter. -/
def Refused (config : List UvmCounterConfig) : Prop :=
  maxCountersPerIoctlCall < config.length ∨ (∃ c ∈ config, c.ofProcess = false) ∨ LastUnknown config

/-- What the requests for a counter add to its count. -/
def net (i : ℕ) : List (ℕ × Bool) → ℤ
  | [] => 0
  | (name, enable) :: rest => (if name = i then if enable then 1 else -1 else 0) + net i rest

/-- Whether a counter is enabled behind the requests. -/
def lastState (i : ℕ) (enabled : Bool) : List (ℕ × Bool) → Bool
  | [] => enabled
  | (name, enable) :: rest => lastState i (if name = i then enable else enabled) rest

/-- The number of requests for a state that the counter has already. -/
def redundant (i : ℕ) (wanted enabled : Bool) : List (ℕ × Bool) → ℕ
  | [] => 0
  | (name, enable) :: rest =>
    (if name = i ∧ enable = wanted ∧ enabled = wanted then 1 else 0) +
      redundant i wanted (if name = i then enable else enabled) rest

theorem net_cons (i name : ℕ) (enable : Bool) (rest : List (ℕ × Bool)) :
    net i ((name, enable) :: rest) =
      (if name = i then if enable then 1 else -1 else 0) + net i rest := rfl

theorem net_eq (i : ℕ) (enabled : Bool) (l : List (ℕ × Bool)) :
    net i l = (lastState i enabled l).toInt - enabled.toInt + redundant i true enabled l -
      redundant i false enabled l := by
  induction l generalizing enabled with
  | nil => simp [net, lastState, redundant]
  | cons request rest ih =>
    obtain ⟨name, enable⟩ := request
    unfold net lastState redundant
    by_cases hname : name = i
    · rw [if_pos hname, if_pos hname, ih enable]
      cases enable <;> cases enabled <;> simp [hname] <;> omega
    · rw [if_neg hname, if_neg hname, ih enabled]
      simp [hname]

theorem net_bounds (i : ℕ) (l : List (ℕ × Bool)) : -(l.length : ℤ) ≤ net i l ∧ net i l ≤ l.length := by
  induction l with
  | nil => exact ⟨Int.le_refl 0, Int.le_refl 0⟩
  | cons request rest ih =>
    unfold net
    rw [List.length_cons]
    push_cast
    split
    · split
      · constructor <;> omega
      · constructor <;> omega
    · constructor <;> omega

theorem requests_length (config : List UvmCounterConfig) :
    (requests config).length ≤ config.length := by
  induction config with
  | nil => exact Nat.le_refl 0
  | cons currConfig rest ih =>
    unfold requests
    split
    · exact Nat.le_succ_of_le ih
    · split
      · split
        · exact Nat.succ_le_succ ih
        · exact Nat.le_succ_of_le ih
      · exact Nat.zero_le _

/-! ## The loop -/

def countRequest (currConfig : UvmCounterConfig) (counts : Counts) : NvStatus × Counts :=
  if currConfig.state = 1 then incrementSessionCount counts currConfig.name
  else decrementSessionCount counts currConfig.name

theorem countRequest_status (currConfig : UvmCounterConfig) (counts : Counts) :
    (countRequest currConfig counts).1 = uvmGetCounterIndex currConfig.name := by
  unfold countRequest
  split
  · rfl
  · rfl

theorem updateLoop_cons (currConfig : UvmCounterConfig) (rest : List UvmCounterConfig)
    (status : NvStatus) (counts : Counts) :
    updateLoop (currConfig :: rest) status counts =
      if currConfig.scope = 0 then updateLoop rest status counts
      else if currConfig.scope = 1 then
        updateLoop rest (countRequest currConfig counts).1 (countRequest currConfig counts).2
      else if currConfig.scope = 2 then (errNotSupported, counts)
      else (.errInvalidArgument, counts) := by
  obtain ⟨scope, name, state⟩ := currConfig
  match scope with
  | 0 => rfl
  | 1 => rfl
  | 2 => rfl
  | n + 3 => rfl

theorem countRequest_unknown {currConfig : UvmCounterConfig}
    (hname : totalCounters ≤ currConfig.name) (counts : Counts) :
    countRequest currConfig counts = (.errInvalidArgument, counts) := by
  have hidx : uvmGetCounterIndex currConfig.name = .errInvalidArgument :=
    if_neg (Nat.not_lt.mpr hname)
  unfold countRequest incrementSessionCount decrementSessionCount
  rw [hidx]
  split
  · rfl
  · rfl

theorem countRequest_known {currConfig : UvmCounterConfig} (hname : currConfig.name < totalCounters)
    (counts : Counts) (i : ℕ) : (countRequest currConfig counts).2 i = counts i + BitVec.ofInt 32
      (if currConfig.name = i then if currConfig.state = 1 then 1 else -1 else 0) := by
  have hidx : uvmGetCounterIndex currConfig.name = .ok := if_pos hname
  unfold countRequest incrementSessionCount decrementSessionCount
  rw [hidx]
  by_cases hi : currConfig.name = i
  · subst hi
    by_cases hstate : currConfig.state = 1
    · rw [if_pos hstate, if_pos rfl, if_pos hstate]
      exact Function.update_self ..
    · rw [if_neg hstate, if_pos rfl, if_neg hstate]
      refine (Function.update_self ..).trans ?_
      rw [BitVec.sub_eq_add_neg]
      rfl
  · rw [if_neg hi]
    have hother : ∀ v, Function.update counts currConfig.name v i = counts i :=
      fun v => Function.update_of_ne (Ne.symm hi) _ _
    have hzero : counts i + BitVec.ofInt 32 0 = counts i := BitVec.add_zero _
    rw [hzero]
    split
    · exact hother _
    · exact hother _

theorem updateLoop_counts (config : List UvmCounterConfig) (status : NvStatus) (counts : Counts)
    (i : ℕ) : (updateLoop config status counts).2 i =
      counts i + BitVec.ofInt 32 (net i (requests config)) := by
  have hzero : ∀ v : BitVec 32, v + BitVec.ofInt 32 0 = v := BitVec.add_zero
  induction config generalizing status counts with
  | nil => exact (hzero _).symm
  | cons currConfig rest ih =>
    rw [updateLoop_cons]
    unfold requests
    by_cases hsingle : currConfig.scope = 0
    · rw [if_pos hsingle, if_pos hsingle]
      exact ih status counts
    rw [if_neg hsingle, if_neg hsingle]
    by_cases hall : currConfig.scope = 1
    · rw [if_pos hall, if_pos hall, ih]
      by_cases hname : currConfig.name < totalCounters
      · rw [if_pos hname, countRequest_known hname]
        rw [net_cons, BitVec.add_assoc, ← BitVec.ofInt_add]
        simp only [decide_eq_true_eq]
      · rw [if_neg hname, countRequest_unknown (Nat.not_lt.mp hname)]
    · -- an entry of another scope ends the loop
      rw [if_neg hall, if_neg hall]
      split
      · exact (hzero _).symm
      · exact (hzero _).symm

theorem updateLoop_status (config : List UvmCounterConfig) (status : NvStatus) (counts : Counts) :
    (updateLoop config status counts).1 = .ok ↔ (∀ c ∈ config, c.ofProcess = true) ∧
      ¬ LastUnknown config ∧ (status = .ok ∨ ∃ c ∈ config, c.scope = 1) := by
  induction config generalizing status counts with
  | nil =>
    show status = .ok ↔ _
    simp [LastUnknown]
  | cons currConfig rest ih =>
    rw [updateLoop_cons]
    by_cases hsingle : currConfig.scope = 0
    · rw [if_pos hsingle, ih]
      simp [LastUnknown, UvmCounterConfig.ofProcess, hsingle]
    rw [if_neg hsingle]
    by_cases hall : currConfig.scope = 1
    · rw [if_pos hall, ih, countRequest_status]
      by_cases hname : currConfig.name < totalCounters
      · have hidx : uvmGetCounterIndex currConfig.name = .ok := if_pos hname
        have hle : ¬ totalCounters ≤ currConfig.name := Nat.not_le.mpr hname
        simp [LastUnknown, UvmCounterConfig.ofProcess, hall, hidx, hle]
      · have hidx : uvmGetCounterIndex currConfig.name = .errInvalidArgument := if_neg hname
        have hle : totalCounters ≤ currConfig.name := Nat.not_lt.mp hname
        simp [LastUnknown, UvmCounterConfig.ofProcess, hall, hidx, hle]
    · rw [if_neg hall]
      have hother : currConfig.ofProcess = false := by
        simp [UvmCounterConfig.ofProcess, hsingle, hall]
      have hno : ¬ ∀ c ∈ currConfig :: rest, c.ofProcess = true := by
        intro h
        rw [h currConfig List.mem_cons_self] at hother
        exact nomatch hother
      refine ⟨fun h => ?_, fun h => absurd h.1 hno⟩
      split at h
      · exact nomatch h
      · exact nomatch h

/-- A call that is refused for its number of entries counts nothing. -/
def counted (config : List UvmCounterConfig) : List (ℕ × Bool) :=
  if maxCountersPerIoctlCall < config.length then [] else requests config

theorem counted_length (config : List UvmCounterConfig) :
    (counted config).length ≤ maxCountersPerIoctlCall := by
  unfold counted
  split
  · exact Nat.zero_le _
  · next hle => exact (requests_length config).trans (Nat.not_lt.mp hle)

theorem update_counts (config : List UvmCounterConfig) (counts : Counts) (i : ℕ) :
    (uvmCounterStateAtomicUpdate config counts).2 i =
      counts i + BitVec.ofInt 32 (net i (counted config)) := by
  unfold uvmCounterStateAtomicUpdate counted
  split
  · exact (BitVec.add_zero _).symm
  · exact updateLoop_counts config .ok counts i

theorem update_fails_iff (config : List UvmCounterConfig) (counts : Counts) :
    (uvmCounterStateAtomicUpdate config counts).1 ≠ .ok ↔ Refused config := by
  unfold uvmCounterStateAtomicUpdate Refused
  by_cases hmany : maxCountersPerIoctlCall < config.length
  · rw [if_pos hmany]
    exact ⟨fun _ => .inl hmany, fun _ => nofun⟩
  · rw [if_neg hmany, Ne, updateLoop_status]
    simp only [true_or, and_true, not_and, not_not, hmany, false_or]
    constructor
    · intro h
      by_cases hother : ∃ c ∈ config, c.ofProcess = false
      · exact .inl hother
      · refine .inr (h fun c hc => ?_)
        exact Bool.not_eq_false _ |>.mp fun hfalse => hother ⟨c, hc, hfalse⟩
    · rintro (⟨c, hc, hfalse⟩ | hlast) hall
      · rw [hall c hc] at hfalse
        exact nomatch hfalse
      · exact hlast

end NvUvm.SessionCounts
