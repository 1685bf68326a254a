import NvUvm.ToolsQueue
import NvUvm.Lib.RingLog

/-!
# The entries of the tools event queue

The queue of `enqueue_event` (`uvm8_tools.c`) as the driver and the consumer share it: each reads
and writes the control page and the entries one access at a time, the driver under the queue lock.

The consumer has read a number of entries, knows of some more, and gives slots back by `get_behind`.
It takes either `put_ahead` or `put_behind` for the end of the entries.  A hostile consumer writes
anything into the shared pages at any time.
-/

namespace NvUvm

open Lib Lib.RingLog
open Function (update update_of_ne update_self)

/-! ## The driver and the consumer -/

/-- Where the driver is in `enqueue_event`, with the values it has read.  Outside of the queue lock
it is idle. -/
inductive EnqueuePhase where
  | idle
  | gotGetBehind (entry : EventEntry) (getBehind : BitVec 32)
  | gotPutBehind (entry : EventEntry) (getBehind putBehind : BitVec 32)
  | copying (entry : EventEntry) (putBehind : BitVec 32)
  | copied (putAhead : BitVec 32)
  | putAheadSet (putAhead : BitVec 32)
  | putBehindSet (putAhead : BitVec 32)

namespace EnqueuePhase

/-- The event that the driver has not decided about, or not copied yet. -/
def pending : EnqueuePhase → List EventEntry
  | gotGetBehind entry _ => [entry]
  | gotPutBehind entry _ _ => [entry]
  | copying entry _ => [entry]
  | _ => []

/-- The entries that are in the queue but not before `put_ahead`. -/
def aheadLag : EnqueuePhase → ℕ
  | copied _ => 1
  | _ => 0

/-- The entries that are in the queue but not before `put_behind`. -/
def behindLag : EnqueuePhase → ℕ
  | copied _ => 1
  | putAheadSet _ => 1
  | _ => 0

end EnqueuePhase

/-- The queue with its two parties.  `readLog` is what the consumer has read, `limit` the number of
entries it knows of.  Ghosts are the slot where the queue starts, the number that stands in
`get_behind`, the events of the calls, those enqueued and those dropped, and the slots written. -/
structure SharedQueue where
  queue : ToolsQueue
  driver : EnqueuePhase
  readLog : List (Option EventEntry)
  limit : ℕ
  base : ℕ
  released : ℕ
  started : List EventEntry
  enqueued : List EventEntry
  droppedEvents : List EventEntry
  writes : List (BitVec 32)

/-- An access of the driver or of the consumer. -/
inductive SharedStep where
  | enter (entry : EventEntry)
  | drive
  | observe
  | read
  | setGetAhead (getAhead : BitVec 32)
  | release (count : ℕ) (getBehind : BitVec 32)
  | corrupt (getAhead getBehind putAhead putBehind : BitVec 32) (dropped : ℕ → BitVec 64)
      (queue : BitVec 32 → Option EventEntry)

/-- The consumer reads the control page or an entry. -/
def SharedStep.isRead : SharedStep → Bool
  | .observe | .read => true
  | _ => false

/-- The accesses of one call, as many as it can make. -/
def enqueueSteps (entry : EventEntry) : List SharedStep :=
  .enter entry :: List.replicate 6 .drive

namespace SharedQueue

/-- The state before anything happens to a queue. -/
def start (q : ToolsQueue) : SharedQueue where
  queue := q
  driver := .idle
  readLog := []
  limit := 0
  base := q.putBehind.toNat % q.size
  released := 0
  started := []
  enqueued := []
  droppedEvents := []
  writes := []

variable (s : SharedQueue)

def slotOf (i : ℕ) : ℕ := slot s.queue.size s.base i

def slots : ℕ → Option EventEntry := fun i => s.queue.queue (BitVec.ofNat 32 i)

/-- The next access of the driver under the queue lock. -/
def drive : SharedQueue :=
  let q := s.queue
  match s.driver with
  | .idle => s
  | .gotGetBehind entry getBehind =>
    { s with driver := .gotPutBehind entry getBehind (q.putBehind &&& q.queueMask) }
  | .gotPutBehind entry getBehind putBehind =>
    -- one free element means that the queue is full
    if (q.queueBufferCount + getBehind - putBehind) &&& q.queueMask = 1#32 then
      let count := q.dropped entry.eventType + 1#64
      { s with
        queue := { q with dropped := update q.dropped entry.eventType count }
        droppedEvents := s.droppedEvents ++ [entry]
        driver := .idle }
    else
      -- while it is copied the entry is in pieces
      { s with
        queue := { q with queue := update q.queue putBehind none }
        writes := s.writes ++ [putBehind]
        driver := .copying entry putBehind }
  | .copying entry putBehind =>
    { s with
      queue := { q with queue := update q.queue putBehind (some entry) }
      writes := s.writes ++ [putBehind]
      enqueued := s.enqueued ++ [entry]
      driver := .copied ((putBehind + 1#32) &&& q.queueMask) }
  | .copied putAhead =>
    { s with queue := { q with putAhead := putAhead }, driver := .putAheadSet putAhead }
  | .putAheadSet putAhead =>
    { s with queue := { q with putBehind := putAhead }, driver := .putBehindSet putAhead }
  | .putBehindSet putAhead =>
    -- the pointers are the driver's snapshot
    let sn := { q with putBehind := putAhead }
    if sn.queueNeedsWakeup && !(q.isWakeupGetValid && decide (q.wakeupGet = q.getAhead)) then
      { s with
        queue := { q with isWakeupGetValid := true, wakeupGet := q.getAhead }
        driver := .idle }
    else { s with driver := .idle }

/-- One access.  `useAhead` says which pointer the consumer takes for the end of the entries. -/
def step (useAhead : Bool) : SharedStep → SharedQueue
  | .enter entry =>
    match s.driver with
    | .idle =>
      { s with
        driver := .gotGetBehind entry (s.queue.getBehind &&& s.queue.queueMask)
        started := s.started ++ [entry] }
    | _ => s
  | .drive => s.drive
  | .observe =>
    let put := if useAhead then s.queue.putAhead else s.queue.putBehind
    { s with limit := s.readLog.length + (put.toNat % s.queue.size +
        (s.queue.size - s.slotOf s.readLog.length)) % s.queue.size }
  | .read =>
    if s.readLog.length < s.limit then
      { s with readLog := s.readLog ++ [s.slots (s.slotOf s.readLog.length)] }
    else s
  | .setGetAhead getAhead => { s with queue := { s.queue with getAhead := getAhead } }
  | .release count getBehind =>
    { s with queue := { s.queue with getBehind := getBehind }, released := count }
  | .corrupt getAhead getBehind putAhead putBehind dropped queue =>
    { s with queue := { s.queue with
        getAhead := getAhead
        getBehind := getBehind
        putAhead := putAhead
        putBehind := putBehind
        dropped := dropped
        queue := queue } }

/-- The consumer follows the protocol: it gives back slots that it has read, in order, and writes
nothing else. -/
def Follows (s : SharedQueue) : SharedStep → Prop
  | .release count getBehind =>
    s.released ≤ count ∧ count ≤ s.readLog.length ∧ getBehind.toNat % s.queue.size = s.slotOf count
  | .corrupt .. => False
  | _ => True

variable {s}

def Full (q : ToolsQueue) (getBehind putBehind : BitVec 32) : Prop :=
  (q.queueBufferCount + getBehind - putBehind) &&& q.queueMask = 1#32

theorem drive_full {entry : EventEntry} {getBehind putBehind : BitVec 32}
    (hdrv : s.driver = .gotPutBehind entry getBehind putBehind)
    (hfull : Full s.queue getBehind putBehind) :
    s.drive = { s with
      queue := { s.queue with
        dropped := update s.queue.dropped entry.eventType
          (s.queue.dropped entry.eventType + 1#64) }
      droppedEvents := s.droppedEvents ++ [entry]
      driver := .idle } := by
  unfold drive
  rw [hdrv]
  exact if_pos hfull

theorem drive_room {entry : EventEntry} {getBehind putBehind : BitVec 32}
    (hdrv : s.driver = .gotPutBehind entry getBehind putBehind)
    (hfull : ¬ Full s.queue getBehind putBehind) :
    s.drive = { s with
      queue := { s.queue with queue := update s.queue.queue putBehind none }
      writes := s.writes ++ [putBehind]
      driver := .copying entry putBehind } := by
  unfold drive
  rw [hdrv]
  exact if_neg hfull

/-! ## Calls with reads between -/

/-- **Without a consumer** the accesses of the driver are `enqueueEvent`. -/
theorem drive_alone (useAhead : Bool) (entry : EventEntry) (hidle : s.driver = .idle) :
    (run (step · useAhead) s (enqueueSteps entry)).queue = (enqueueEvent entry s.queue).1 ∧
      (run (step · useAhead) s (enqueueSteps entry)).driver = .idle := by
  obtain ⟨q, driver, readLog, limit, base, released, started, enqueued, droppedEvents, writes⟩ := s
  cases hidle
  let s₂ : SharedQueue := ⟨q, .gotPutBehind entry (q.getBehind &&& q.queueMask)
    (q.putBehind &&& q.queueMask), readLog, limit, base, released, started ++ [entry], enqueued,
    droppedEvents, writes⟩
  show s₂.drive.drive.drive.drive.drive.queue = (enqueueEvent entry q).1 ∧
    s₂.drive.drive.drive.drive.drive.driver = .idle
  unfold enqueueEvent
  by_cases hfull : (q.queueBufferCount + (q.getBehind &&& q.queueMask) -
      (q.putBehind &&& q.queueMask)) &&& q.queueMask = 1#32
  · rw [drive_full (s := s₂) rfl hfull, if_pos hfull]
    exact ⟨rfl, rfl⟩
  · rw [drive_room (s := s₂) rfl hfull, if_neg hfull]
    dsimp only [drive]
    rw [Function.update_idem]
    unfold ToolsQueue.queueMask
    split <;> exact ⟨rfl, rfl⟩

theorem drive_reads (readLog : List (Option EventEntry)) (limit : ℕ) :
    { s with readLog := readLog, limit := limit }.drive =
      { s.drive with readLog := readLog, limit := limit } := by
  obtain ⟨q, driver, _, _, base, released, started, enqueued, droppedEvents, writes⟩ := s
  cases driver with
  | gotPutBehind | putBehindSet =>
    unfold drive
    dsimp only
    split <;> rfl
  | _ => rfl

theorem step_reads (useAhead : Bool) (op : SharedStep) (readLog : List (Option EventEntry))
    (limit : ℕ) : ∃ readLog' limit',
      { s with readLog := readLog, limit := limit }.step useAhead op =
        { (if op.isRead then s else s.step useAhead op) with
          readLog := readLog', limit := limit' } := by
  cases op with
  | enter entry =>
    refine ⟨readLog, limit, ?_⟩
    unfold step
    cases hdrv : s.driver <;> simp [SharedStep.isRead, hdrv]
  | drive =>
    exact ⟨_, _, drive_reads readLog limit⟩
  | observe => exact ⟨_, _, rfl⟩
  | read =>
    by_cases hlt : readLog.length < limit
    · exact ⟨_, _, if_pos hlt⟩
    · exact ⟨_, _, if_neg hlt⟩
  | setGetAhead => exact ⟨_, _, rfl⟩
  | release => exact ⟨_, _, rfl⟩
  | corrupt => exact ⟨_, _, rfl⟩

/-- Without its reads a run leads to the same state, but for what the consumer has read. -/
theorem run_filter (useAhead : Bool) (ops : List SharedStep) :
    ∀ (s : SharedQueue) readLog limit, ∃ readLog' limit',
      run (step · useAhead) { s with readLog := readLog, limit := limit } ops =
        { run (step · useAhead) s (ops.filter (!·.isRead)) with
          readLog := readLog', limit := limit' } := by
  induction ops with
  | nil => exact fun s readLog limit => ⟨readLog, limit, rfl⟩
  | cons op ops ih =>
    intro s readLog limit
    obtain ⟨readLog', limit', hstep⟩ := s.step_reads useAhead op readLog limit
    obtain ⟨readLog'', limit'', hrun⟩ :=
      ih (if op.isRead then s else s.step useAhead op) readLog' limit'
    refine ⟨readLog'', limit'', ?_⟩
    rw [run, List.foldl_cons, hstep, ← run, hrun]
    cases hread : op.isRead <;> simp [hread, run]

/-- **The reads of a consumer do not disturb the driver**: however they come between its accesses,
calls of `enqueue_event` leave the queue as if each was made at once. -/
theorem enqueues_between_reads (useAhead : Bool) (q : ToolsQueue) (entries : List EventEntry)
    (ops : List SharedStep) (hops : ops.filter (!·.isRead) = entries.flatMap enqueueSteps) :
    (run (step · useAhead) (start q) ops).queue =
      entries.foldl (fun q entry => (enqueueEvent entry q).1) q := by
  have halone : ∀ s : SharedQueue, s.driver = .idle →
      (run (step · useAhead) s (entries.flatMap enqueueSteps)).queue =
        entries.foldl (fun q entry => (enqueueEvent entry q).1) s.queue := by
    clear hops
    induction entries with
    | nil => exact fun _ _ => rfl
    | cons entry entries ih =>
      intro s hidle
      obtain ⟨hqueue, hdone⟩ := drive_alone (s := s) useAhead entry hidle
      rw [List.flatMap_cons, run, List.foldl_append, List.foldl_cons, ← hqueue]
      exact ih _ hdone
  obtain ⟨readLog, limit, hrun⟩ := run_filter useAhead ops (start q) [] 0
  rw [hops] at hrun
  rw [show (start q) = { start q with readLog := [], limit := 0 } from rfl, hrun]
  exact halone (start q) rfl

theorem enqueues_between_reads_one :
    (run (step · true) (start ToolsState.emptyQueue)
      [.enter ⟨0, 0⟩, .drive, .observe, .drive, .drive, .drive, .observe, .read, .drive,
        .drive]).queue = (enqueueEvent ⟨0, 0⟩ ToolsState.emptyQueue).1 :=
  enqueues_between_reads true _ [⟨0, 0⟩] _ rfl

/-! ## The invariant -/

/-- The number of entries before the pointer that the consumer takes. -/
def visible (useAhead : Bool) (s : SharedQueue) : ℕ :=
  s.enqueued.length - if useAhead then s.driver.aheadLag else s.driver.behindLag

/-- A value of `get_behind` that the driver has read: it is that of now, or an earlier one. -/
def GetRead (s : SharedQueue) (getBehind : BitVec 32) : Prop :=
  ∃ r ≤ s.released, getBehind.toNat = s.slotOf r ∧ s.enqueued.length - r < s.queue.size

def DriverInv (s : SharedQueue) : EnqueuePhase → Prop
  | .idle => True
  | .gotGetBehind _ getBehind => s.GetRead getBehind
  | .gotPutBehind _ getBehind putBehind =>
    s.GetRead getBehind ∧ putBehind.toNat = s.slotOf s.enqueued.length
  | .copying _ putBehind =>
    putBehind.toNat = s.slotOf s.enqueued.length ∧
      s.enqueued.length + 1 - s.released < s.queue.size
  | .copied putAhead => putAhead.toNat = s.slotOf s.enqueued.length
  | .putAheadSet putAhead => putAhead.toNat = s.slotOf s.enqueued.length
  | .putBehindSet putAhead => putAhead.toNat = s.slotOf s.enqueued.length

/-- **The invariant**: the consumer is behind the driver by less than the size of the queue, and the
slots between them hold the entries. -/
structure Inv (useAhead : Bool) (dropped : ℕ → BitVec 64) (s : SharedQueue) : Prop where
  released_le : s.released ≤ s.readLog.length
  read_le : s.readLog.length ≤ s.limit
  limit_le : s.limit ≤ s.visible useAhead
  room : s.enqueued.length - s.released < s.queue.size
  getBehind : s.queue.getBehind.toNat % s.queue.size = s.slotOf s.released
  putAhead : s.queue.putAhead.toNat % s.queue.size =
    s.slotOf (s.enqueued.length - s.driver.aheadLag)
  putBehind : s.queue.putBehind.toNat % s.queue.size =
    s.slotOf (s.enqueued.length - s.driver.behindLag)
  driver : s.DriverInv s.driver
  holds : Holds s.queue.size s.base s.slots s.enqueued s.released
  readLog : s.readLog <+: s.enqueued.map some
  accounted : s.started.Perm (s.enqueued ++ s.droppedEvents ++ s.driver.pending)
  counted : ∀ t, s.queue.dropped t =
    dropped t + BitVec.ofNat 64 (s.droppedEvents.countP fun e => e.eventType = t)

variable {useAhead : Bool} {dropped : ℕ → BitVec 64} {entry : EventEntry}
  {getBehind putBehind putAhead : BitVec 32}

variable (s useAhead) in
theorem visible_le : s.visible useAhead ≤ s.enqueued.length := Nat.sub_le ..

theorem slotOf_lt (i : ℕ) : s.slotOf i < s.queue.size :=
  slot_lt (by have := s.queue.one_lt_size; omega)

private theorem ofNat_slot_eq_iff (q : ToolsQueue) (base i : ℕ) (p : BitVec 32) :
    BitVec.ofNat 32 (slot q.size base i) = p ↔ slot q.size base i = p.toNat := by
  have hpos : 0 < q.size := Nat.zero_lt_of_lt q.one_lt_size
  have hlt : slot q.size base i < 2 ^ 32 := (slot_lt hpos).trans q.size_lt
  constructor
  · rintro rfl
    rw [BitVec.toNat_ofNat, Nat.mod_eq_of_lt hlt]
  · intro heq
    rw [heq, BitVec.ofNat_toNat, BitVec.setWidth_eq]

private theorem holds_update (q : ToolsQueue) {base lo : ℕ} {log : List EventEntry}
    {f : BitVec 32 → Option EventEntry} {p : BitVec 32} {value : Option EventEntry} :
    Holds q.size base (fun i => update f p value (BitVec.ofNat 32 i)) log lo ↔
      Holds q.size base (update (fun i => f (BitVec.ofNat 32 i)) p.toNat value) log
        lo := by
  have hsame : ∀ i, update f p value (BitVec.ofNat 32 (slot q.size base i)) =
      update (fun i => f (BitVec.ofNat 32 i)) p.toNat value (slot q.size base i) := by
    intro i
    rw [Function.update_apply, Function.update_apply]
    simp only [ofNat_slot_eq_iff]
  unfold Holds
  simp only [hsame]

theorem full_iff {r : ℕ} (hget : getBehind.toNat = s.slotOf r)
    (hput : putBehind.toNat = s.slotOf s.enqueued.length) (hle : r ≤ s.enqueued.length)
    (hroom : s.enqueued.length - r < s.queue.size) :
    Full s.queue getBehind putBehind ↔ s.enqueued.length - r + 1 = s.queue.size := by
  have hone := s.queue.one_lt_size
  have hdist : ((s.queue.queueBufferCount + getBehind - putBehind) &&& s.queue.queueMask).toNat =
      (s.queue.size - (s.enqueued.length - r)) % s.queue.size := by
    rw [s.queue.distance_toNat, BitVec.toNat_sub, Nat.mod_mod_of_dvd _ s.queue.size_dvd,
      ← slot_room s.base hle hroom]
    show _ = (s.slotOf r + (s.queue.size - s.slotOf s.enqueued.length)) % s.queue.size
    rw [← hget, ← hput]
    -- the size divides 2 ^ 32
    obtain ⟨c, hc⟩ := s.queue.size_dvd
    have hlt : putBehind.toNat < s.queue.size := hput ▸ slotOf_lt _
    have hcpos : 0 < c := by
      apply Nat.pos_of_ne_zero
      rintro rfl
      omega
    have hwrap : 2 ^ 32 - putBehind.toNat + getBehind.toNat =
        getBehind.toNat + (s.queue.size - putBehind.toNat) + s.queue.size * (c - 1) := by
      have : s.queue.size * c = s.queue.size * (c - 1) + s.queue.size := by
        rw [← Nat.mul_succ, Nat.succ_eq_add_one, Nat.sub_add_cancel hcpos]
      omega
    rw [hwrap, Nat.add_mul_mod_self_left]
  have hfull : Full s.queue getBehind putBehind ↔
      ((s.queue.queueBufferCount + getBehind - putBehind) &&& s.queue.queueMask).toNat = 1 :=
    ⟨fun h => by rw [show _ = _ from h]; rfl, fun h => BitVec.eq_of_toNat_eq h⟩
  rw [hfull, hdist]
  rcases Nat.eq_zero_or_pos (s.enqueued.length - r) with hzero | hpos
  · rw [hzero, Nat.sub_zero, Nat.mod_self]
    omega
  · rw [Nat.mod_eq_of_lt (by omega)]
    omega

/-! ## Steps -/

private theorem Inv.enter (h : s.Inv useAhead dropped) (hidle : s.driver = .idle)
    (entry : EventEntry) : (s.step useAhead (.enter entry)).Inv useAhead dropped := by
  obtain ⟨q, driver, readLog, limit, base, released, started, enqueued, droppedEvents, writes⟩ := s
  cases hidle
  have haccounted : (started ++ [entry]).Perm (enqueued ++ droppedEvents ++ [entry]) := by
    have := h.accounted
    rw [show EnqueuePhase.pending .idle = [] from rfl, List.append_nil] at this
    exact this.append_right [entry]
  refine { h with driver := ?_, accounted := haccounted }
  exact ⟨released, le_rfl, (q.and_queueMask_toNat _).trans h.getBehind, h.room⟩

private theorem Inv.drive_gotGetBehind (h : s.Inv useAhead dropped)
    (hdrv : s.driver = .gotGetBehind entry getBehind) : s.drive.Inv useAhead dropped := by
  obtain ⟨q, driver, readLog, limit, base, released, started, enqueued, droppedEvents, writes⟩ := s
  cases hdrv
  have hput := h.putBehind
  refine { h with driver := ⟨h.driver, ?_⟩ }
  exact (q.and_queueMask_toNat _).trans hput

private theorem Inv.drive_gotPutBehind (h : s.Inv useAhead dropped)
    (hdrv : s.driver = .gotPutBehind entry getBehind putBehind) :
    s.drive.Inv useAhead dropped := by
  have hinv : s.DriverInv (.gotPutBehind entry getBehind putBehind) := hdrv ▸ h.driver
  obtain ⟨⟨r, hr, hget, hroom⟩, hput⟩ := hinv
  have hle : r ≤ s.enqueued.length := by
    have := h.released_le
    have := h.read_le
    have := h.limit_le
    have := s.visible_le useAhead
    omega
  have hiff := full_iff hget hput hle hroom
  by_cases hfull : Full s.queue getBehind putBehind
  · rw [drive_full hdrv hfull]
    obtain ⟨q, driver, readLog, limit, base, released, started, enqueued, droppedEvents, writes⟩ :=
      s
    cases hdrv
    refine { h with driver := trivial, accounted := ?_, counted := fun t => ?_ }
    · have := h.accounted
      simpa [EnqueuePhase.pending] using this
    · have hcnt := h.counted
      show update q.dropped entry.eventType (q.dropped entry.eventType + 1#64) t = _
      rcases eq_or_ne t entry.eventType with rfl | hne
      · rw [update_self, hcnt]
        simp [BitVec.ofNat_add, BitVec.add_assoc]
      · rw [update_of_ne hne, hcnt]
        simp [hne.symm]
  · rw [drive_room hdrv hfull]
    rw [hiff] at hfull
    obtain ⟨q, driver, readLog, limit, base, released, started, enqueued, droppedEvents, writes⟩ :=
      s
    cases hdrv
    refine { h with driver := ⟨hput, ?_⟩, holds := ?_ }
    · show enqueued.length + 1 - released < q.size
      change enqueued.length - r < q.size at hroom
      change ¬ enqueued.length - r + 1 = q.size at hfull
      change r ≤ released at hr
      omega
    · refine (holds_update q).mpr ?_
      rw [hput]
      exact h.holds.write h.room none

private theorem Inv.drive_copying (h : s.Inv useAhead dropped)
    (hdrv : s.driver = .copying entry putBehind) : s.drive.Inv useAhead dropped := by
  have hdriverInv : s.DriverInv (.copying entry putBehind) := hdrv ▸ h.driver
  obtain ⟨hput, hroom⟩ := hdriverInv
  obtain ⟨q, driver, readLog, limit, base, released, started, enqueued, droppedEvents, writes⟩ := s
  cases hdrv
  have hone := q.one_lt_size
  have hlen : (enqueued ++ [entry]).length = enqueued.length + 1 := by simp
  have hlast : (enqueued ++ [entry]).length - 1 = enqueued.length := by simp
  have hlimit : limit ≤ enqueued.length := by
    have := h.limit_le
    exact this.trans (Nat.sub_le ..)
  have hahead := h.putAhead
  have hbehind := h.putBehind
  refine { h with
    limit_le := ?_, room := ?_, putAhead := ?_, putBehind := ?_, driver := ?_, holds := ?_,
    readLog := ?_, accounted := ?_ }
  · show limit ≤ (enqueued ++ [entry]).length - if useAhead then 1 else 1
    rw [ite_self, hlast]
    exact hlimit
  · show (enqueued ++ [entry]).length - released < q.size
    rw [hlen]
    exact hroom
  · show q.putAhead.toNat % q.size = slot q.size base ((enqueued ++ [entry]).length - 1)
    rw [hlast]
    exact hahead
  · show q.putBehind.toNat % q.size = slot q.size base ((enqueued ++ [entry]).length - 1)
    rw [hlast]
    exact hbehind
  · show ((putBehind + 1#32) &&& q.queueMask).toNat = slot q.size base (enqueued ++ [entry]).length
    rw [q.and_queueMask_toNat, BitVec.toNat_add, Nat.mod_mod_of_dvd _ q.size_dvd, hput, hlen]
    show ((base + enqueued.length) % q.size + 1) % q.size = (base + (enqueued.length + 1)) % q.size
    rw [Nat.mod_add_mod, Nat.add_assoc]
  · refine (holds_update q).mpr ?_
    rw [hput]
    refine (h.holds.write h.room (some entry)).append ?_
    exact update_self ..
  · show readLog <+: (enqueued ++ [entry]).map some
    rw [List.map_append]
    exact h.readLog.trans (List.prefix_append ..)
  · have := h.accounted
    refine this.trans ?_
    show (enqueued ++ droppedEvents ++ [entry]).Perm (enqueued ++ [entry] ++ droppedEvents ++ [])
    rw [List.append_nil, List.append_assoc, List.append_assoc]
    exact List.perm_append_comm.append_left enqueued

private theorem Inv.drive_copied (h : s.Inv useAhead dropped)
    (hdrv : s.driver = .copied putAhead) : s.drive.Inv useAhead dropped := by
  obtain ⟨q, driver, readLog, limit, base, released, started, enqueued, droppedEvents, writes⟩ := s
  cases hdrv
  have hput : putAhead.toNat = slot q.size base enqueued.length := h.driver
  have hlimit : limit ≤ enqueued.length - if useAhead then 1 else 1 := h.limit_le
  refine { h with limit_le := ?_, putAhead := ?_ }
  · show limit ≤ enqueued.length - if useAhead then 0 else 1
    rw [ite_self] at hlimit
    split <;> omega
  · show putAhead.toNat % q.size = slot q.size base enqueued.length
    rw [hput]
    exact Nat.mod_mod ..

private theorem Inv.drive_putAheadSet (h : s.Inv useAhead dropped)
    (hdrv : s.driver = .putAheadSet putAhead) : s.drive.Inv useAhead dropped := by
  obtain ⟨q, driver, readLog, limit, base, released, started, enqueued, droppedEvents, writes⟩ := s
  cases hdrv
  have hput : putAhead.toNat = slot q.size base enqueued.length := h.driver
  have hlimit : limit ≤ enqueued.length - if useAhead then 0 else 1 := h.limit_le
  refine { h with limit_le := ?_, putBehind := ?_ }
  · show limit ≤ enqueued.length - if useAhead then 0 else 0
    rw [ite_self]
    exact hlimit.trans (Nat.sub_le ..)
  · show putAhead.toNat % q.size = slot q.size base enqueued.length
    rw [hput]
    exact Nat.mod_mod ..

private theorem Inv.drive_putBehindSet (h : s.Inv useAhead dropped)
    (hdrv : s.driver = .putBehindSet putAhead) : s.drive.Inv useAhead dropped := by
  obtain ⟨q, driver, readLog, limit, base, released, started, enqueued, droppedEvents, writes⟩ := s
  cases hdrv
  unfold drive
  dsimp only
  split
  · exact { h with driver := trivial }
  · exact { h with driver := trivial }

theorem Inv.drive (h : s.Inv useAhead dropped) : s.drive.Inv useAhead dropped := by
  cases hdrv : s.driver with
  | idle =>
    have hsame : s.drive = s := by
      unfold SharedQueue.drive
      rw [hdrv]
    rw [hsame]
    exact h
  | gotGetBehind entry getBehind => exact h.drive_gotGetBehind hdrv
  | gotPutBehind entry getBehind putBehind => exact h.drive_gotPutBehind hdrv
  | copying entry putBehind => exact h.drive_copying hdrv
  | copied putAhead => exact h.drive_copied hdrv
  | putAheadSet putAhead => exact h.drive_putAheadSet hdrv
  | putBehindSet putAhead => exact h.drive_putBehindSet hdrv

private theorem Inv.observe (h : s.Inv useAhead dropped) :
    (s.step useAhead .observe).Inv useAhead dropped := by
  have hread : s.readLog.length ≤ s.visible useAhead := h.read_le.trans h.limit_le
  have hroom : s.visible useAhead - s.readLog.length < s.queue.size := by
    have := h.room
    have := h.released_le
    have := s.visible_le useAhead
    omega
  have hput : (if useAhead then s.queue.putAhead else s.queue.putBehind).toNat % s.queue.size =
      s.slotOf (s.visible useAhead) := by
    cases useAhead with
    | false => exact h.putBehind
    | true => exact h.putAhead
  have hlimit : (s.step useAhead .observe).limit = s.visible useAhead := by
    show s.readLog.length + ((if useAhead then s.queue.putAhead else s.queue.putBehind).toNat %
      s.queue.size + (s.queue.size - s.slotOf s.readLog.length)) % s.queue.size = _
    rw [hput]
    unfold slotOf
    rw [slot_distance hread hroom]
    omega
  refine { h with read_le := ?_, limit_le := ?_ }
  · rw [hlimit]
    exact hread
  · rw [hlimit]
    exact le_rfl

private theorem Inv.read (h : s.Inv useAhead dropped) :
    (s.step useAhead .read).Inv useAhead dropped := by
  by_cases hmore : s.readLog.length < s.limit
  case neg =>
    have hsame : s.step useAhead .read = s := if_neg hmore
    rw [hsame]
    exact h
  have hlt : s.readLog.length < s.enqueued.length := by
    have := h.limit_le
    have := s.visible_le useAhead
    omega
  have hentry : s.slots (s.slotOf s.readLog.length) = some s.enqueued[s.readLog.length] :=
    h.holds _ h.released_le hlt
  have hstep : s.step useAhead .read =
      { s with readLog := s.readLog ++ [s.slots (s.slotOf s.readLog.length)] } := if_pos hmore
  rw [hstep, hentry]
  refine { h with released_le := ?_, read_le := ?_, readLog := ?_ }
  · show s.released ≤ (s.readLog ++ [some s.enqueued[s.readLog.length]]).length
    have := h.released_le
    simp only [List.length_append, List.length_singleton]
    omega
  · show (s.readLog ++ [some s.enqueued[s.readLog.length]]).length ≤ s.limit
    simp only [List.length_append, List.length_singleton]
    omega
  · show s.readLog ++ [some s.enqueued[s.readLog.length]] <+: s.enqueued.map some
    have htake : s.readLog = (s.enqueued.map some).take s.readLog.length :=
      List.prefix_iff_eq_take.mp h.readLog
    have hnext := List.take_succ_eq_append_getElem (l := s.enqueued.map some)
      (i := s.readLog.length) (by simpa using hlt)
    rw [List.getElem_map, ← htake] at hnext
    rw [← hnext]
    exact List.take_prefix ..

private theorem Inv.release (h : s.Inv useAhead dropped) {count : ℕ} {getBehind : BitVec 32}
    (hfollows : s.Follows (.release count getBehind)) :
    (s.step useAhead (.release count getBehind)).Inv useAhead dropped := by
  obtain ⟨hle, hread, hslot⟩ := hfollows
  obtain ⟨q, driver, readLog, limit, base, released, started, enqueued, droppedEvents, writes⟩ := s
  refine { h with
    released_le := hread, room := ?_, getBehind := hslot, driver := ?_, holds := h.holds.mono hle }
  · have := h.room
    show enqueued.length - count < q.size
    change enqueued.length - released < q.size at this
    change released ≤ count at hle
    omega
  · have hdrv := h.driver
    -- what the driver has read of `get_behind` stays an earlier value
    cases driver with
    | gotGetBehind entry getBehind =>
      obtain ⟨r, hr, hrest⟩ := hdrv
      exact ⟨r, le_trans hr hle, hrest⟩
    | gotPutBehind entry getBehind putBehind =>
      obtain ⟨⟨r, hr, hrest⟩, hput⟩ := hdrv
      exact ⟨⟨r, le_trans hr hle, hrest⟩, hput⟩
    | copying entry putBehind =>
      refine ⟨hdrv.1, ?_⟩
      have hroom := hdrv.2
      show enqueued.length + 1 - count < q.size
      change enqueued.length + 1 - released < q.size at hroom
      change released ≤ count at hle
      omega
    | idle => exact hdrv
    | copied putAhead => exact hdrv
    | putAheadSet putAhead => exact hdrv
    | putBehindSet putAhead => exact hdrv

theorem Inv.step (h : s.Inv useAhead dropped) {op : SharedStep} (hfollows : s.Follows op) :
    (s.step useAhead op).Inv useAhead dropped := by
  cases op with
  | enter entry =>
    by_cases hidle : s.driver = .idle
    · exact h.enter hidle entry
    · have hsame : s.step useAhead (.enter entry) = s := by
        unfold SharedQueue.step
        cases hdrv : s.driver with
        | idle => exact absurd hdrv hidle
        | _ => rfl
      rw [hsame]
      exact h
  | drive => exact h.drive
  | observe => exact h.observe
  | read => exact h.read
  | setGetAhead getAhead => exact { h with }
  | release count getBehind => exact h.release hfollows
  | corrupt => exact hfollows.elim

/-! ## Runs -/

/-- There are no entries: the pointers name one slot. -/
def Empty (q : ToolsQueue) : Prop :=
  q.getBehind.toNat % q.size = q.putBehind.toNat % q.size ∧
    q.putAhead.toNat % q.size = q.putBehind.toNat % q.size

/-- The entries that are not read are in their slots, those read are the first ones in order, and
each event is pending, enqueued or counted. -/
structure QueueRight (dropped : ℕ → BitVec 64) (s : SharedQueue) : Prop where
  intact : Holds s.queue.size s.base s.slots s.enqueued s.readLog.length
  inOrder : s.readLog <+: s.enqueued.map some
  accounted : s.started.Perm (s.enqueued ++ s.droppedEvents ++ s.driver.pending)
  counted : ∀ t, s.queue.dropped t =
    dropped t + BitVec.ofNat 64 (s.droppedEvents.countP fun e => e.eventType = t)

theorem Inv.queueRight (h : s.Inv useAhead dropped) : s.QueueRight dropped :=
  ⟨h.holds.mono h.released_le, h.readLog, h.accounted, h.counted⟩

theorem start_inv {q : ToolsQueue} (hempty : Empty q) : (start q).Inv useAhead q.dropped := by
  obtain ⟨hget, hahead⟩ := hempty
  have hone := q.one_lt_size
  have hslot : slot q.size (q.putBehind.toNat % q.size) 0 = q.putBehind.toNat % q.size :=
    Nat.mod_mod ..
  refine ⟨le_rfl, le_rfl, Nat.zero_le _, ?_, ?_, ?_, ?_, trivial, ?_, List.prefix_rfl, .nil, ?_⟩
  · exact Nat.zero_lt_of_lt hone
  · exact hget.trans hslot.symm
  · exact hahead.trans hslot.symm
  · exact hslot.symm
  · intro i _ hlt
    exact absurd hlt (Nat.not_lt_zero i)
  · intro t
    exact (BitVec.add_zero _).symm

def WritesInside (s : SharedQueue) : Prop := ∀ p ∈ s.writes, p.toNat < s.queue.size

/-- The slot that the driver is about to write is in the queue. -/
def NextInside (s : SharedQueue) : Prop :=
  match s.driver with
  | .gotPutBehind _ _ putBehind => putBehind.toNat < s.queue.size
  | .copying _ putBehind => putBehind.toNat < s.queue.size
  | _ => True

theorem drive_inside (h : s.WritesInside ∧ s.NextInside) :
    s.drive.WritesInside ∧ s.drive.NextInside := by
  obtain ⟨hwrites, hnext⟩ := h
  obtain ⟨q, driver, readLog, limit, base, released, started, enqueued, droppedEvents, writes⟩ := s
  have hwrite : ∀ putBehind : BitVec 32, putBehind.toNat < q.size →
      ∀ p ∈ writes ++ [putBehind], p.toNat < q.size := by
    intro putBehind hlt p hp
    rcases List.mem_append.mp hp with hp | hp
    · exact hwrites p hp
    · rw [List.mem_singleton.mp hp]
      exact hlt
  cases driver with
  | idle => exact ⟨hwrites, trivial⟩
  | gotGetBehind entry getBehind =>
    refine ⟨hwrites, ?_⟩
    show (q.putBehind &&& q.queueMask).toNat < q.size
    rw [q.and_queueMask_toNat]
    exact Nat.mod_lt _ (Nat.zero_lt_of_lt q.one_lt_size)
  | gotPutBehind entry getBehind putBehind =>
    unfold drive
    dsimp only
    split
    · exact ⟨hwrites, trivial⟩
    · exact ⟨hwrite putBehind hnext, hnext⟩
  | copying entry putBehind => exact ⟨hwrite putBehind hnext, trivial⟩
  | copied putAhead => exact ⟨hwrites, trivial⟩
  | putAheadSet putAhead => exact ⟨hwrites, trivial⟩
  | putBehindSet putAhead =>
    unfold drive
    dsimp only
    split
    · exact ⟨hwrites, trivial⟩
    · exact ⟨hwrites, trivial⟩

theorem step_inside (h : s.WritesInside ∧ s.NextInside) (op : SharedStep) :
    (s.step useAhead op).WritesInside ∧ (s.step useAhead op).NextInside := by
  cases op with
  | drive => exact drive_inside h
  | enter entry =>
    unfold step
    dsimp only
    split
    · exact ⟨h.1, trivial⟩
    · exact h
  | read =>
    unfold step
    dsimp only
    split
    · exact h
    · exact h
  | observe => exact h
  | setGetAhead getAhead => exact h
  | release count getBehind => exact h
  | corrupt getAhead getBehind putAhead putBehind dropped queue => exact h

/-- **The entries of the queue**, for any interleaving and any power of two.  With a consumer that
follows the protocol no entry is overwritten before it is consumed, those read are the enqueued ones
in order, and each event is enqueued or counted once.  With any consumer each write is to a slot of
the queue. -/
theorem toolsQueue_along (q : ToolsQueue) (useAhead : Bool) (ops : List SharedStep) :
    (Empty q → StepsMeet (step · useAhead) Follows (start q) ops →
      HoldsAlong (step · useAhead) (QueueRight q.dropped) (start q) ops) ∧
      HoldsAlong (step · useAhead) WritesInside (start q) ops := by
  constructor
  · intro hempty hmeet
    exact holds_along_of_meets _ (start_inv hempty) (fun _ h => h.queueRight)
      (fun _ _ h hop => h.step hop) hmeet
  · intro pre _
    have hstart : (start q).WritesInside ∧ (start q).NextInside :=
      ⟨fun p hp => absurd hp List.not_mem_nil, trivial⟩
    -- here no step of the consumer is excluded
    exact (run_inv _ (I := fun s : SharedQueue => s.WritesInside ∧ s.NextInside) hstart
      (fun _ op h => step_inside h op) pre).1

/-- An event goes through the queue. -/
theorem toolsQueue_along_one :
    let ops : List SharedStep := [.enter ⟨2, 7⟩, .drive, .drive, .drive, .drive, .drive, .drive,
      .observe, .read, .release 1 1#32]
    HoldsAlong (step · true) (QueueRight fun _ => 0#64) (start ToolsState.emptyQueue) ops ∧
      (run (step · true) (start ToolsState.emptyQueue) ops).readLog = [some ⟨2, 7⟩] := by
  intro ops
  have hempty : Empty ToolsState.emptyQueue := ⟨rfl, rfl⟩
  refine ⟨(toolsQueue_along _ true ops).1 hempty ?_, by rfl⟩
  simp only [ops, stepsMeet_cons, stepsMeet_nil, Follows, and_true]
  exact ⟨by decide, by decide, by decide⟩

end SharedQueue

end NvUvm
