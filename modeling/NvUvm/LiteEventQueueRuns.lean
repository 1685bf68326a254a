import Mathlib.Data.List.GetD
import Mathlib.Data.List.Nodup
import NvUvm.Lib.RingLog
import NvUvm.LiteEventQueues

/-!
# Every event is in its slot

The events of a queue are in the slots that their numbers modulo the capacity name, up to those that
later events have replaced, and both write indices are the number of events.  No byte is written
behind the buffer as long as no queue was created for more entries than the largest mapping holds.
-/

namespace NvUvm.EventQueues

open Lib
open Function (update update_of_ne update_self)

variable {s : State} {info : UvmEventQueueInfo} {event : Event} {q c : ℕ} {t : UvmEventType}

/-! ## One queue -/

/-- The indices count the events, and the last ones are in their slots. -/
structure QueueRight (info : UvmEventQueueInfo) : Prop where
  writeIndex : info.writeIndex = info.recorded.length
  userWriteIndex : info.userWriteIndex = info.recorded.length
  stored : ∀ n event, info.recorded[n]? = some event →
    info.recorded.length ≤ n + info.maxEventCapacity → ∀ k (hk : k < event.contents.length),
      info.pBuffer (eventEntrySize * (n % info.maxEventCapacity) + k) = event.contents[k]

/-- The buffer has room for the entries. -/
structure Room (info : UvmEventQueueInfo) : Prop where
  capacity : 0 < info.maxEventCapacity
  fits : info.maxEventCapacity * eventEntrySize ≤ info.mappedPages * 4096
  mapped : info.mappedPages < 2 ^ 32

theorem contents_le (event : Event) : event.contents.length ≤ eventEntrySize :=
  event.sized.trans_le (structSize_le event.eventType)

theorem Room.slot_fits (h : Room info) (n : ℕ) :
    eventEntrySize * (n % info.maxEventCapacity) + eventEntrySize ≤ info.mappedPages * 4096 := by
  have hlt := Nat.mod_lt n h.capacity
  have hle := Nat.mul_le_mul_left eventEntrySize (Nat.succ_le_of_lt hlt)
  rw [Nat.mul_succ, Nat.mul_comm eventEntrySize info.maxEventCapacity] at hle
  exact hle.trans h.fits

theorem Room.writeOffset (h : Room info) : State.writeOffset info =
    eventEntrySize * (info.writeIndex % info.maxEventCapacity) := by
  have hfits := h.slot_fits info.writeIndex
  have hmap := h.mapped
  exact Nat.mod_eq_of_lt (by unfold eventEntrySize at *; omega)

theorem memcpy_in (buffer : ℕ → UInt8) (offset : ℕ) (bytes : List UInt8) {k : ℕ}
    (hk : k < bytes.length) : State.memcpy buffer offset bytes (offset + k) = bytes[k] := by
  unfold State.memcpy
  rw [if_pos (Nat.le_add_right _ _), Nat.add_sub_cancel_left]
  exact List.getD_eq_getElem _ _ hk

theorem memcpy_out (buffer : ℕ → UInt8) (offset : ℕ) (bytes : List UInt8) {a : ℕ}
    (ha : a < offset ∨ offset + bytes.length ≤ a) : State.memcpy buffer offset bytes a = buffer a := by
  unfold State.memcpy
  split
  · next hle =>
    have hlen : bytes.length ≤ a - offset := by omega
    exact List.getD_eq_default _ _ hlen
  · rfl

def written (info : UvmEventQueueInfo) (event : Event) : UvmEventQueueInfo :=
  { info with
    pBuffer := State.memcpy info.pBuffer (State.writeOffset info) event.contents
    writeIndex := (info.writeIndex + 1) % 2 ^ 64
    userWriteIndex := (info.userWriteIndex + 1) % 2 ^ 64
    recorded := info.recorded ++ [event] }

theorem QueueRight.written (h : QueueRight info) (hroom : Room info)
    (hlt : info.recorded.length + 1 < 2 ^ 64) : QueueRight (written info event) := by
  let t := info.recorded ++ [event]
  have hlength : t.length = info.recorded.length + 1 := by
    rw [List.length_append, List.length_singleton]
  have hoff : State.writeOffset info =
      eventEntrySize * (info.recorded.length % info.maxEventCapacity) := by
    rw [hroom.writeOffset, h.writeIndex]
  refine ⟨?_, ?_, fun n e hn hlast k hk => ?_⟩
  · show (info.writeIndex + 1) % 2 ^ 64 = t.length
    rw [h.writeIndex, hlength, Nat.mod_eq_of_lt hlt]
  · show (info.userWriteIndex + 1) % 2 ^ 64 = t.length
    rw [h.userWriteIndex, hlength, Nat.mod_eq_of_lt hlt]
  · have hn : t[n]? = some e := hn
    have hlast : t.length ≤ n + info.maxEventCapacity := hlast
    show State.memcpy info.pBuffer (State.writeOffset info) event.contents
      (eventEntrySize * (n % info.maxEventCapacity) + k) = _
    rw [hoff]
    by_cases hnew : n < info.recorded.length
    · -- an entry that is still there has another slot than the new one
      rw [List.getElem?_append_left hnew] at hn
      have hslot : n % info.maxEventCapacity ≠ info.recorded.length % info.maxEventCapacity := by
        have hne : RingLog.slot info.maxEventCapacity 0 n ≠
            RingLog.slot info.maxEventCapacity 0 info.recorded.length :=
          RingLog.slot_ne hnew (by omega)
        unfold RingLog.slot at hne
        rwa [Nat.zero_add, Nat.zero_add] at hne
      have hke := hk.trans_le (contents_le e)
      have hlen := contents_le event
      rw [memcpy_out]
      · exact h.stored n e hn (by omega) k hk
      · generalize n % info.maxEventCapacity = i at *
        unfold eventEntrySize at *
        omega
    · have heq : n = info.recorded.length := by
        have hbound := (List.getElem?_eq_some_iff.mp hn).1
        omega
      subst heq
      have he : event = e := by
        rw [List.getElem?_append_right (Nat.le_refl _), Nat.sub_self] at hn
        exact Option.some.inj hn
      subst he
      exact memcpy_in _ _ _ hk

theorem Room.not_overrun (h : Room info) (event : Event) :
    ¬ info.mappedPages * 4096 < State.writeOffset info + event.contents.length := by
  have hfits := h.slot_fits info.writeIndex
  have hlen := contents_le event
  rw [h.writeOffset]
  omega

/-! ## All queues -/

/-- Every byte was written inside the buffers, and every queue is right. -/
structure Right (s : State) : Prop where
  calm : s.overrun = false
  queues : ∀ q < s.numQueues, QueueRight (s.queue q)

/-- The queues are right and have room, and a listener list has the queues of its container that have
the type enabled, once each. -/
structure Inv (s : State) : Prop where
  right : Right s
  room : ∀ q < s.numQueues, Room (s.queue q)
  created : ∀ q ∈ s.queues, q < s.numQueues
  listed : ∀ c t q, q ∈ s.eventListenerLists c t →
    q < s.numQueues ∧ (s.queue q).container = c ∧ (s.queue q).enabledEvents t = true
  once : ∀ c t, (s.eventListenerLists c t).Nodup

/-- The condition on a step: a queue is created for no more entries than the largest mapping holds,
and no queue gets its event number `2 ^ 64 - 1`. -/
def StepOk (s : State) : Op → Prop
  | .create io container queueSize notificationCount =>
    (s.uvmApiCreateEventQueue io container queueSize notificationCount).1 = .ok →
      queueSize ≤ maxQueueSize
  | .record container event => ∀ q ∈ s.eventListenerLists container event.eventType,
    (s.queue q).recorded.length + 1 < 2 ^ 64
  | _ => True

theorem setListeners_apply (s : State) (c : ℕ) (t : UvmEventType) (l : List ℕ) (c' : ℕ)
    (t' : UvmEventType) : (s.setListeners c t l).eventListenerLists c' t' =
      if c' = c ∧ t' = t then l else s.eventListenerLists c' t' := by
  show update s.eventListenerLists c _ c' t' = _
  by_cases hc : c' = c
  · subst hc
    rw [update_self]
    by_cases ht : t' = t
    · subst ht
      rw [update_self, if_pos ⟨rfl, rfl⟩]
    · rw [update_of_ne ht, if_neg fun h => ht h.2]
  · rw [update_of_ne hc, if_neg fun h => hc h.1]

def State.toggle (s : State) (q : ℕ) (t : UvmEventType) (l : List ℕ) (enable : Bool) : State :=
  (s.setListeners (s.queue q).container t l).setQueue q
    { s.queue q with enabledEvents := update (s.queue q).enabledEvents t enable }

theorem Inv.toggle (h : Inv s) (t : UvmEventType) {l : List ℕ} {enable : Bool}
    (hq : q < s.numQueues) (hl : ∀ q' ∈ l, (q' = q ∧ enable = true) ∨
      (q' ≠ q ∧ q' ∈ s.eventListenerLists (s.queue q).container t)) (hnd : l.Nodup) :
    Inv (s.toggle q t l enable) := by
  have hself : (s.toggle q t l enable).queue q = { s.queue q with
      enabledEvents := update (s.queue q).enabledEvents t enable } :=
    update_self ..
  have hother : ∀ q', q' ≠ q → (s.toggle q t l enable).queue q' = s.queue q' :=
    fun q' hne => update_of_ne hne _ _
  have hlist : ∀ c' t', (s.toggle q t l enable).eventListenerLists c' t' =
      if c' = (s.queue q).container ∧ t' = t then l else s.eventListenerLists c' t' :=
    fun c' t' => setListeners_apply s _ t l c' t'
  refine ⟨⟨h.right.calm, fun q' hq' => ?_⟩, fun q' hq' => ?_, h.created, fun c' t' q' hq' => ?_,
    fun c' t' => ?_⟩
  · have hright := h.right.queues q' hq'
    by_cases hqq : q' = q
    · subst hqq
      rw [hself]
      exact ⟨hright.writeIndex, hright.userWriteIndex, hright.stored⟩
    · rw [hother q' hqq]
      exact hright
  · have hroom := h.room q' hq'
    by_cases hqq : q' = q
    · subst hqq
      rw [hself]
      exact ⟨hroom.capacity, hroom.fits, hroom.mapped⟩
    · rw [hother q' hqq]
      exact hroom
  · rw [hlist] at hq'
    by_cases hct : c' = (s.queue q).container ∧ t' = t
    · rw [if_pos hct] at hq'
      obtain ⟨rfl, rfl⟩ := hct
      rcases hl q' hq' with ⟨rfl, rfl⟩ | ⟨hne, hold⟩
      · rw [hself]
        exact ⟨hq, rfl, update_self ..⟩
      · rw [hother q' hne]
        exact h.listed _ _ q' hold
    · rw [if_neg hct] at hq'
      obtain ⟨hlt, hcontainer, hen⟩ := h.listed c' t' q' hq'
      refine ⟨hlt, ?_⟩
      by_cases hqq : q' = q
      · -- the queue is on this list for another type
        subst hqq
        have htt : t' ≠ t := fun heq => hct ⟨hcontainer.symm, heq⟩
        rw [hself]
        exact ⟨hcontainer, (update_of_ne htt _ _).trans hen⟩
      · rw [hother q' hqq]
        exact ⟨hcontainer, hen⟩
  · rw [hlist]
    split
    · exact hnd
    · exact h.once c' t'

theorem Inv.enable (h : Inv s) (hq : q < s.numQueues) (t : UvmEventType) :
    Inv (s.uvmEnableEvent q t) := by
  unfold State.uvmEnableEvent
  dsimp only
  split
  · exact h
  · next hdisabled =>
    have hnew : q ∉ s.eventListenerLists (s.queue q).container t :=
      fun hmem => hdisabled (h.listed _ t q hmem).2.2
    refine h.toggle t hq (fun q' hq' => ?_) ?_
    · rcases List.mem_append.mp hq' with hold | hself
      · exact .inr ⟨fun heq => hnew (heq ▸ hold), hold⟩
      · exact .inl ⟨List.mem_singleton.mp hself, rfl⟩
    · exact (h.once _ t).append (List.nodup_singleton q) (List.disjoint_singleton.mpr hnew)

theorem Inv.disable (h : Inv s) (hq : q < s.numQueues) (t : UvmEventType) :
    Inv (s.uvmDisableEvent q t) := by
  unfold State.uvmDisableEvent
  dsimp only
  split
  · refine h.toggle t hq (fun q' hq' => ?_) ((h.once _ t).erase q)
    exact .inr ((h.once _ t).mem_erase_iff.mp hq')
  · exact h

theorem uvmDisableEvent_numQueues (s : State) (q : ℕ) (t : UvmEventType) :
    (s.uvmDisableEvent q t).numQueues = s.numQueues := by
  unfold State.uvmDisableEvent
  dsimp only
  split
  · rfl
  · rfl

theorem Inv.remove (h : Inv s) (hq : q < s.numQueues) : Inv (s.uvmRemoveEventQueue q) := by
  have hloop : ∀ l : List UvmEventType, ∀ s : State, Inv s → q < s.numQueues →
      Inv (l.foldl (fun s t => s.uvmDisableEvent q t) s) := by
    intro l
    induction l with
    | nil => exact fun s h _ => h
    | cons t l ih =>
      intro s h hq
      refine ih _ (h.disable hq t) ?_
      rw [uvmDisableEvent_numQueues]
      exact hq
  have hinv := hloop UvmEventType.all s h hq
  exact ⟨⟨hinv.right.calm, hinv.right.queues⟩, hinv.room,
    fun q' hq' => hinv.created q' (List.mem_of_mem_erase hq'), hinv.listed, hinv.once⟩

theorem Inv.clientRead (h : Inv s) (q readIndex : ℕ) :
    Inv (s.setQueue q { s.queue q with userReadIndex := readIndex }) := by
  have hself : (s.setQueue q { s.queue q with userReadIndex := readIndex }).queue q =
      { s.queue q with userReadIndex := readIndex } := update_self ..
  have hother : ∀ q', q' ≠ q →
      (s.setQueue q { s.queue q with userReadIndex := readIndex }).queue q' = s.queue q' :=
    fun q' hne => update_of_ne hne _ _
  refine ⟨⟨h.right.calm, fun q' hq' => ?_⟩, fun q' hq' => ?_, h.created, fun c t q' hq' => ?_,
    h.once⟩
  · have hright := h.right.queues q' hq'
    by_cases hqq : q' = q
    · subst hqq
      rw [hself]
      exact ⟨hright.writeIndex, hright.userWriteIndex, hright.stored⟩
    · rw [hother q' hqq]
      exact hright
  · have hroom := h.room q' hq'
    by_cases hqq : q' = q
    · subst hqq
      rw [hself]
      exact ⟨hroom.capacity, hroom.fits, hroom.mapped⟩
    · rw [hother q' hqq]
      exact hroom
  · obtain ⟨hlt, hlisted⟩ := h.listed c t q' hq'
    refine ⟨hlt, ?_⟩
    by_cases hqq : q' = q
    · subst hqq
      rw [hself]
      exact hlisted
    · rw [hother q' hqq]
      exact hlisted

/-! ## New queues -/

theorem uvmCreateEventQueue_cases (s : State) (io : CreateInput) (c queueSize n : ℕ) :
    ((s.uvmCreateEventQueue io c queueSize n).1 ≠ .ok ∧
        ∃ oops, (s.uvmCreateEventQueue io c queueSize n).2 = { s with oops := oops }) ∨
      s.uvmCreateEventQueue io c queueSize n = (.ok, { s with
        numQueues := s.numQueues + 1
        queue := update s.queue s.numQueues ⟨c, queuePages queueSize,
          vmapCount (queuePages queueSize), queueSize, 0, 0, 0, n, fun _ => false, fun _ => 0, []⟩
        queues := s.queues ++ [s.numQueues] }) := by
  unfold State.uvmCreateEventQueue
  dsimp only
  split
  · exact .inl ⟨nofun, s.oops, rfl⟩
  split
  · exact .inl ⟨nofun, s.oops, rfl⟩
  split
  · exact .inl ⟨nofun, s.oops, rfl⟩
  split
  · exact .inl ⟨nofun, true, rfl⟩
  split
  · exact .inl ⟨nofun, s.oops, rfl⟩
  split
  · exact .inl ⟨nofun, _, rfl⟩
  split
  · exact .inl ⟨nofun, true, rfl⟩
  split
  · exact .inl ⟨nofun, s.oops, rfl⟩
  · exact .inr rfl

theorem Inv.create (h : Inv s) (io : CreateInput) (c queueSize n : ℕ)
    (hok : StepOk s (.create io c queueSize n)) :
    Inv (s.uvmApiCreateEventQueue io c queueSize n).2 := by
  unfold StepOk at hok
  dsimp only at hok
  unfold State.uvmApiCreateEventQueue at hok ⊢
  by_cases hzero : queueSize = 0
  · rw [if_pos hzero]
    exact h
  rw [if_neg hzero] at hok ⊢
  rcases uvmCreateEventQueue_cases s io c queueSize n with ⟨-, oops, heq⟩ | heq
  · rw [heq]
    exact ⟨⟨h.right.calm, h.right.queues⟩, h.room, h.created, h.listed, h.once⟩
  · rw [heq] at hok ⊢
    have hsize := hok rfl
    have hself := update_self s.numQueues (⟨c, queuePages queueSize,
      vmapCount (queuePages queueSize), queueSize, 0, 0, 0, n, fun _ => false, fun _ => 0, []⟩ :
        UvmEventQueueInfo) s.queue
    have hother : ∀ q, q < s.numQueues → update s.queue s.numQueues
        (⟨c, queuePages queueSize, vmapCount (queuePages queueSize), queueSize, 0, 0, 0, n,
          fun _ => false, fun _ => 0, []⟩ : UvmEventQueueInfo) q = s.queue q :=
      fun q hq => update_of_ne (Nat.ne_of_lt hq) _ _
    refine ⟨⟨h.right.calm, fun q hq => ?_⟩, fun q hq => ?_, fun q hq => ?_, fun c' t q hq => ?_,
      h.once⟩
    · dsimp only at hq ⊢
      rcases Nat.lt_succ_iff_lt_or_eq.mp hq with hq | rfl
      · rw [hother q hq]
        exact h.right.queues q hq
      · rw [hself]
        exact ⟨rfl, rfl, fun n event hn => absurd hn nofun⟩
    · dsimp only at hq ⊢
      rcases Nat.lt_succ_iff_lt_or_eq.mp hq with hq | rfl
      · rw [hother q hq]
        exact h.room q hq
      · rw [hself]
        have hlt : queueSize < 2 ^ 64 := by
          unfold maxQueueSize at hsize
          omega
        exact ⟨Nat.pos_of_ne_zero hzero, (buffer_holds_iff hlt).mpr hsize,
          Nat.mod_lt _ (by decide)⟩
    · rcases List.mem_append.mp hq with hq | hq
      · exact Nat.lt_succ_of_lt (h.created q hq)
      · exact List.mem_singleton.mp hq ▸ Nat.lt_succ_self _
    · obtain ⟨hlt, hlisted⟩ := h.listed c' t q hq
      refine ⟨Nat.lt_succ_of_lt hlt, ?_⟩
      dsimp only
      rw [hother q hlt]
      exact hlisted

/-! ## Recording -/

theorem Inv.recordInQueue (h : Inv s) (event : Event) (hq : q < s.numQueues)
    (hlt : (s.queue q).recorded.length + 1 < 2 ^ 64) : Inv (s.recordInQueue event q) := by
  have hright := h.right.queues q hq
  have hroom := h.room q hq
  have hself : (s.recordInQueue event q).queue q = written (s.queue q) event :=
    update_self ..
  have hother : ∀ q', q' ≠ q → (s.recordInQueue event q).queue q' = s.queue q' :=
    fun q' hne => update_of_ne hne _ _
  refine ⟨⟨?_, fun q' hq' => ?_⟩, fun q' hq' => ?_, h.created, fun c t q' hq' => ?_, h.once⟩
  · show (s.overrun || decide _) = false
    rw [h.right.calm, Bool.false_or, decide_eq_false (hroom.not_overrun event)]
  · by_cases hqq : q' = q
    · subst hqq
      rw [hself]
      exact hright.written hroom hlt
    · rw [hother q' hqq]
      exact h.right.queues q' hq'
  · by_cases hqq : q' = q
    · subst hqq
      rw [hself]
      exact ⟨hroom.capacity, hroom.fits, hroom.mapped⟩
    · rw [hother q' hqq]
      exact h.room q' hq'
  · obtain ⟨hlt', hlisted⟩ := h.listed c t q' hq'
    refine ⟨hlt', ?_⟩
    by_cases hqq : q' = q
    · subst hqq
      rw [hself]
      exact hlisted
    · rw [hother q' hqq]
      exact hlisted

theorem Inv.recordAll (event : Event) : ∀ (l : List ℕ) (s : State), Inv s → l.Nodup →
    (∀ q ∈ l, q < s.numQueues ∧ (s.queue q).recorded.length + 1 < 2 ^ 64) →
      Inv (l.foldl (fun s q => s.recordInQueue event q) s) := by
  intro l
  induction l with
  | nil => exact fun s h _ _ => h
  | cons q l ih =>
    intro s h hnd hl
    obtain ⟨hq, hlt⟩ := hl q List.mem_cons_self
    obtain ⟨hql, hnd⟩ := List.nodup_cons.mp hnd
    refine ih _ (h.recordInQueue event hq hlt) hnd fun q' hq' => ?_
    -- the queues that are left have not been written to
    have hne : q' ≠ q := fun heq => hql (heq ▸ hq')
    obtain ⟨hlt', hroom⟩ := hl q' (List.mem_cons_of_mem _ hq')
    refine ⟨hlt', ?_⟩
    rw [show (s.recordInQueue event q).queue q' = s.queue q' from update_of_ne hne _ _]
    exact hroom

/-! ## Runs -/

theorem Inv.step (h : Inv s) (op : Op) (hok : StepOk s op) : Inv (step s op) := by
  cases op with
  | create io c queueSize n => exact h.create io c queueSize n hok
  | remove q =>
    unfold EventQueues.step
    dsimp only
    split
    · next hq => exact h.remove (h.created q hq)
    · exact h
  | enable q t =>
    unfold EventQueues.step
    dsimp only
    split
    · next hq => exact h.enable (h.created q hq) t
    · exact h
  | disable q t =>
    unfold EventQueues.step
    dsimp only
    split
    · next hq => exact h.disable (h.created q hq) t
    · exact h
  | clientRead q readIndex =>
    unfold EventQueues.step
    dsimp only
    split
    · exact h.clientRead q readIndex
    · exact h
  | record c event =>
    refine Inv.recordAll event _ s h (h.once c event.eventType) fun q hq => ?_
    exact ⟨(h.listed c event.eventType q hq).1, hok q hq⟩

theorem inv_init : Inv init :=
  ⟨⟨rfl, fun q hq => absurd hq (Nat.not_lt_zero q)⟩, fun q hq => absurd hq (Nat.not_lt_zero q),
    fun _ hq => absurd hq List.not_mem_nil, fun _ _ _ hq => absurd hq List.not_mem_nil,
    fun _ _ => List.nodup_nil⟩

/-- **In every run whose steps meet the condition**, every event is in its slot, both write indices
count the events, and no byte is written behind a buffer. -/
theorem slots_right_along (ops : List Op) (h : StepsMeet step StepOk init ops) :
    HoldsAlong step Right init ops :=
  holds_along_of_meets step inv_init (fun _ h => h.right) (fun _ op h hok => h.step op hok) h

def CreateInput.good : CreateInput := ⟨true, true, true, true, true, true, 4, true⟩

def Event.zero (t : UvmEventType) : Event := ⟨t, List.replicate t.structSize 0, List.length_replicate⟩

/-- A queue for two entries gets three events of different sizes. -/
theorem slots_right_along_three : HoldsAlong step Right init
    [.create .good 0 2 0, .enable 0 .gpuFault, .enable 0 .migration, .record 0 (.zero .gpuFault),
      .record 0 (.zero .migration), .record 0 (.zero .gpuFault)] := by
  apply slots_right_along
  simp only [stepsMeet_cons, stepsMeet_nil]
  refine ⟨fun _ => ?_, trivial, trivial, ?_, ?_, ?_⟩
  · show 2 ≤ maxQueueSize
    decide
  · unfold StepOk
    decide
  · unfold StepOk
    decide
  · unfold StepOk
    decide

/-- The bytes of `2 ^ 58 + 1` entries wrap to those of one entry, so that the buffer is one page: the
entry behind the first 64 is written behind it. -/
theorem wrapped_size_overruns : ¬ HoldsAlong step Right init
    ([.create .good 0 (2 ^ 58 + 1) 0, .enable 0 .migration] ++
      List.replicate 65 (.record 0 (.zero .migration))) := by
  intro h
  have hcalm := (h _ (List.prefix_refl _)).calm
  exact absurd hcalm (by decide +kernel)

end NvUvm.EventQueues
