import Mathlib.Data.BitVec
import NvUvm.Processor
import NvUvm.Lib.Run

/-!
# The tools event queue

Model of the event queue that the driver shares with a tools consumer (`enqueue_event`,
`queue_needs_wakeup` and `uvm_tools_poll` in `uvm8_tools.c`).

The consumer advances `get_ahead` and `get_behind` on its own, in memory that it shares with the
driver.  `uvm_tools_poll` takes two steps: its section under the queue lock, and `poll_wait`, which
registers the consumer on the wait queue; between them the driver can enqueue.
-/

namespace NvUvm

open Lib

/-- `UvmEventEntry`: the type of an event, and what else it carries. -/
structure EventEntry where
  eventType : ℕ
  data : ℕ

/-- `uvm_tools_queue_t` with its control page `UvmToolsEventControlData`.  The number of entries
is a power of two of at least 2 (`uvm_api_tools_init_event_tracker`). -/
structure ToolsQueue where
  queueBufferCount : BitVec 32
  count_pow : ∃ k, 1 ≤ k ∧ k < 32 ∧ queueBufferCount.toNat = 2 ^ k
  notificationThreshold : BitVec 32
  queue : BitVec 32 → Option EventEntry
  getAhead : BitVec 32
  getBehind : BitVec 32
  putAhead : BitVec 32
  putBehind : BitVec 32
  dropped : ℕ → BitVec 64
  isWakeupGetValid : Bool
  wakeupGet : BitVec 32

namespace ToolsQueue

variable (q : ToolsQueue)

def queueMask : BitVec 32 := q.queueBufferCount - 1#32

/-- The number of entries that are not consumed, as the driver computes it. -/
def pending : BitVec 32 := (q.queueBufferCount + q.putBehind - q.getAhead) &&& q.queueMask

/-- `queue_needs_wakeup`, with the pointers of the control page as its snapshot. -/
def queueNeedsWakeup : Bool := decide (q.notificationThreshold ≤ q.pending)

def size : ℕ := q.queueBufferCount.toNat

theorem size_pow : ∃ k, 1 ≤ k ∧ k < 32 ∧ q.size = 2 ^ k := q.count_pow

theorem size_dvd : q.size ∣ 2 ^ 32 := by
  obtain ⟨k, -, hk, hcnt⟩ := q.size_pow
  rw [hcnt]
  exact Nat.pow_dvd_pow 2 hk.le

theorem one_lt_size : 1 < q.size := by
  obtain ⟨k, hk, -, hcnt⟩ := q.size_pow
  rw [hcnt]
  exact Nat.one_lt_two_pow (by omega)

theorem size_lt : q.size < 2 ^ 32 := q.queueBufferCount.isLt

theorem and_queueMask_toNat (v : BitVec 32) : (v &&& q.queueMask).toNat = v.toNat % q.size := by
  obtain ⟨k, -, -, hcnt⟩ := q.size_pow
  have hmask : q.queueMask.toNat = 2 ^ k - 1 := by
    have hpos := q.one_lt_size
    have hlt := q.size_lt
    unfold size at hcnt hpos hlt
    simp only [queueMask, BitVec.toNat_sub, BitVec.toNat_ofNat]
    omega
  rw [BitVec.toNat_and, hmask, Nat.and_two_pow_sub_one_eq_mod, hcnt]

theorem distance_toNat (a b : BitVec 32) :
    ((q.queueBufferCount + a - b) &&& q.queueMask).toNat = (a - b).toNat % q.size := by
  have hdvd := q.size_dvd
  have hcnt : q.queueBufferCount.toNat = q.size := rfl
  rw [and_queueMask_toNat, BitVec.toNat_sub, BitVec.toNat_sub, BitVec.toNat_add, hcnt,
    Nat.mod_mod_of_dvd _ hdvd, Nat.mod_mod_of_dvd _ hdvd]
  rw [Nat.add_mod, Nat.mod_mod_of_dvd _ hdvd, ← Nat.add_mod, Nat.add_left_comm, Nat.add_mod_left]

end ToolsQueue

open ToolsQueue

/-- `enqueue_event`: what is done under the queue lock, and whether `wake_up_all` is called. -/
def enqueueEvent (entry : EventEntry) (q : ToolsQueue) : ToolsQueue × Bool :=
  let getBehind := q.getBehind &&& q.queueMask
  let putBehind := q.putBehind &&& q.queueMask
  let putAhead := (putBehind + 1#32) &&& q.queueMask
  -- one free element means that the queue is full
  if (q.queueBufferCount + getBehind - putBehind) &&& q.queueMask = 1#32 then
    let count := q.dropped entry.eventType + 1#64
    ({ q with dropped := Function.update q.dropped entry.eventType count }, false)
  else
    let q := { q with
      queue := Function.update q.queue putBehind (some entry)
      putAhead := putAhead
      putBehind := putAhead }
    -- at most one wakeup for a value of `get_ahead`
    if q.queueNeedsWakeup && !(q.isWakeupGetValid && decide (q.wakeupGet = q.getAhead)) then
      ({ q with isWakeupGetValid := true, wakeupGet := q.getAhead }, true)
    else (q, false)

/-- What `uvm_tools_poll` returns: `POLLERR`, `POLLIN | POLLRDNORM`, or no events. -/
inductive PollFlags where
  | none
  | inRdnorm
  | err
  deriving DecidableEq, Repr

/-- `uvm_tools_poll` up to `poll_wait`: the section under the queue lock, which is not reached
after a global error or on a tracker that is no queue. -/
def pollSection (globalStatus : NvStatus) (isQueue : Bool) (q : ToolsQueue) :
    PollFlags × ToolsQueue :=
  if globalStatus ≠ .ok then (.err, q)
  else if !isQueue then (.err, q)
  else
    let q := { q with isWakeupGetValid := false }
    (if q.queueNeedsWakeup then .inRdnorm else .none, q)

/-! ## The driver and one consumer -/

/-- Where the consumer is: running, in `uvm_tools_poll` between the two steps, or asleep after
a poll without events. -/
inductive ConsumerPhase where
  | running
  | polling (flags : PollFlags)
  | asleep
  deriving DecidableEq, Repr

/-- The queue and the consumer.  `woken` says that `wake_up_all` was called since the consumer
registered. -/
structure ToolsState where
  queue : ToolsQueue
  phase : ConsumerPhase
  woken : Bool

/-- The steps.  The consumer moves its pointers only while it runs, and to any values. -/
inductive ToolsStep where
  | enqueue (entry : EventEntry)
  | poll (globalStatus : NvStatus) (isQueue : Bool)
  | pollWait
  | consume (getAhead getBehind : BitVec 32)
  | wake

namespace ToolsState

/-- One step; a step that its party cannot take now changes nothing. -/
def step (s : ToolsState) : ToolsStep → ToolsState
  | .enqueue entry =>
    let r := enqueueEvent entry s.queue
    -- a wakeup reaches the consumer only if it is registered
    { s with queue := r.1, woken := s.woken || (r.2 && decide (s.phase = .asleep)) }
  | .poll globalStatus isQueue =>
    if s.phase = .running then
      let r := pollSection globalStatus isQueue s.queue
      if r.1 = .err then s else { s with queue := r.2, phase := .polling r.1 }
    else s
  | .pollWait =>
    match s.phase with
    | .polling .none => { s with phase := .asleep, woken := false }
    | .polling _ => { s with phase := .running }
    | _ => s
  | .consume getAhead getBehind =>
    if s.phase = .running then
      { s with queue := { s.queue with getAhead := getAhead, getBehind := getBehind } }
    else s
  | .wake => if s.phase = .asleep ∧ s.woken then { s with phase := .running } else s

/-- No wakeup is lost: a consumer that sleeps while the pending events are at or above the
threshold has been woken since it registered. -/
def NoLostWakeup (s : ToolsState) : Prop :=
  s.phase = .asleep → s.queue.queueNeedsWakeup = true → s.woken = true

/-- The consumer registers before a wakeup is spent: after the poll's section without events, no
enqueue has signalled. -/
def RegistersInTime (s : ToolsState) : ToolsStep → Prop
  | .pollWait => s.phase = .polling .none → s.queue.isWakeupGetValid = false
  | _ => True

/-- What holds as long as the consumer registers in time: a wakeup is still to come where the
consumer relies on one. -/
structure WakeupInv (s : ToolsState) : Prop where
  polling : s.phase = .polling .none → s.queue.isWakeupGetValid = false →
    s.queue.queueNeedsWakeup = false
  asleep : s.phase = .asleep → s.woken = false →
    s.queue.isWakeupGetValid = false ∧ s.queue.queueNeedsWakeup = false

theorem WakeupInv.noLostWakeup {s : ToolsState} (h : s.WakeupInv) : s.NoLostWakeup := by
  intro hasleep hneed
  by_contra hc
  have := (h.asleep hasleep (by simpa using hc)).2
  simp [hneed] at this

/-- What an enqueue does to the signal: with the wakeup unspent, it signals if and only if it
reaches the threshold, and then the wakeup is spent. -/
theorem enqueueEvent_signal (entry : EventEntry) {q : ToolsQueue}
    (hbelow : q.isWakeupGetValid = false → q.queueNeedsWakeup = false) :
    ((enqueueEvent entry q).1.isWakeupGetValid = false →
        (enqueueEvent entry q).1.queueNeedsWakeup = false) ∧
      (q.isWakeupGetValid = false → (enqueueEvent entry q).2 = false →
        (enqueueEvent entry q).1.isWakeupGetValid = false) := by
  unfold enqueueEvent
  dsimp only
  split
  · exact ⟨hbelow, fun hvalid _ => hvalid⟩
  · split
    · simp
    · next hquiet =>
      refine ⟨fun hvalid => ?_, fun hvalid _ => hvalid⟩
      have hvalid : q.isWakeupGetValid = false := hvalid
      by_contra hneed
      rw [Bool.not_eq_false] at hneed
      exact hquiet (by rw [hneed]; simp [hvalid])

private theorem wakeupInv_step {s : ToolsState} (h : s.WakeupInv) (op : ToolsStep)
    (hop : s.RegistersInTime op) : (s.step op).WakeupInv := by
  cases op with
  | enqueue entry =>
    refine ⟨fun hphase => ?_, fun hphase hwoken => ?_⟩
    · exact (enqueueEvent_signal entry (h.polling hphase)).1
    · have hphase : s.phase = .asleep := hphase
      simp only [step, hphase, decide_true, Bool.and_true, Bool.or_eq_false_iff] at hwoken
      obtain ⟨hvalid, hbelow⟩ := h.asleep hphase hwoken.1
      have hsignal := enqueueEvent_signal entry (q := s.queue) fun _ => hbelow
      have hvalid' := hsignal.2 hvalid hwoken.2
      exact ⟨hvalid', hsignal.1 hvalid'⟩
  | poll globalStatus isQueue =>
    simp only [step]
    split
    · next hrun =>
      split
      · exact h
      · next hflags =>
        unfold pollSection at hflags ⊢
        split at hflags
        · exact absurd rfl hflags
        · next hok =>
          rw [if_neg hok]
          split at hflags
          · exact absurd rfl hflags
          · next hqueue =>
            rw [if_neg hqueue]
            refine ⟨fun hphase _ => ?_, fun hphase => by cases hphase⟩
            dsimp only at hphase ⊢
            split at hphase
            · cases hphase
            · next hneed => simpa using hneed
    · exact h
  | pollWait =>
    simp only [step]
    split
    · next hphase =>
      -- here the consumer goes to sleep with the wakeup unspent
      have hvalid := hop hphase
      exact ⟨fun hc => (by cases hc), fun _ _ => ⟨hvalid, h.polling hphase hvalid⟩⟩
    · exact ⟨fun hc => (by cases hc), fun hc => (by cases hc)⟩
    · exact h
  | consume getAhead getBehind =>
    simp only [step]
    split
    · next hrun =>
      exact ⟨fun hc => absurd (hrun.symm.trans hc) (by simp),
        fun hc => absurd (hrun.symm.trans hc) (by simp)⟩
    · exact h
  | wake =>
    simp only [step]
    split
    · exact ⟨fun hc => (by cases hc), fun hc => (by cases hc)⟩
    · exact h

/-- **No wakeup is lost** in a run in which the consumer always registers in time, from any queue
and a consumer that runs. -/
theorem noLostWakeup_along (q : ToolsQueue) (ops : List ToolsStep)
    (h : StepsMeet step RegistersInTime ⟨q, .running, false⟩ ops) :
    HoldsAlong step NoLostWakeup ⟨q, .running, false⟩ ops :=
  holds_along_of_meets step (W := WakeupInv) ⟨fun hc => (by cases hc), fun hc => (by cases hc)⟩
    (fun _ hs => hs.noLostWakeup) (fun _ op hs hop => wakeupInv_step hs op hop) h

/-- An empty queue of four entries, with a threshold of one. -/
def emptyQueue : ToolsQueue where
  queueBufferCount := 4#32
  count_pow := ⟨2, by decide⟩
  notificationThreshold := 1#32
  queue := fun _ => none
  getAhead := 0#32
  getBehind := 0#32
  putAhead := 0#32
  putBehind := 0#32
  dropped := fun _ => 0#64
  isWakeupGetValid := false
  wakeupGet := 0#32

/-- A run whose poll registers before the driver enqueues. -/
theorem noLostWakeup_along_inTime : HoldsAlong step NoLostWakeup ⟨emptyQueue, .running, false⟩
      [.poll .ok true, .pollWait, .enqueue ⟨0, 0⟩] := by
  apply noLostWakeup_along
  simp [RegistersInTime, step, pollSection, emptyQueue, queueNeedsWakeup, pending, queueMask]

/-- An enqueue between the two steps of the poll spends the wakeup, and the consumer sleeps on
one pending event. -/
theorem enqueue_between_loses_wakeup : ¬ HoldsAlong step NoLostWakeup ⟨emptyQueue, .running, false⟩
      [.poll .ok true, .enqueue ⟨0, 0⟩, .pollWait] := by
  intro h
  have hwoken := h _ (List.prefix_refl _) (by decide) (by decide)
  exact absurd hwoken (by decide)

end ToolsState

end NvUvm
