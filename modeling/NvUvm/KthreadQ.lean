import NvUvm.Lib.CountedList
import NvUvm.Lib.FairRun
import Mathlib.Data.List.Count

/-!
# The queue of a kernel thread

`nv_kthread_q_t` (`nv-kthread-q.c`): a list of items under a spinlock, a semaphore that is raised
after an item is queued, and one thread that takes an item off the list for each count of the
semaphore and runs it.  An item that is in the list is not queued again; an item that runs is not in
the list, and may queue itself.  A flush queues an item of its own, twice, and waits until it has
run.  Nobody has called `nv_kthread_q_stop` yet.

A step is a section under `q_lock`, one operation on the semaphore or on a completion, or the start
or the return of the function of an item.  What was queued, started and finished is kept in order,
as the history of a run.
-/

namespace NvUvm.KthreadQ

/-! ## The queue -/

/-- `nv_kthread_q_item_t`: an item of a caller, or the item of one of the two passes of a flush,
which is a variable on the stack of the call. -/
inductive Item where
  | user (id : ℕ)
  | flush (call : ℕ) (second : Bool)
  deriving DecidableEq, Repr

/-- Where the thread of the queue is in `_main_loop`. -/
inductive QThread where
  /-- In `down_interruptible`. -/
  | down
  /-- It took a count of the semaphore. -/
  | token
  /-- It took the item off the list. -/
  | consumed (item : Item)
  /-- The function of the item runs. -/
  | running (item : Item)
  /-- The function of the item queued an item, before `up`. -/
  | scheduling (item : Item)
  /-- `_q_flush_function`, after `complete`. -/
  | completed (item : Item)
  deriving DecidableEq, Repr

/-- A call of `nv_kthread_q_schedule_q_item` or `nv_kthread_q_flush` by some thread, and where it
is. -/
inductive Call where
  | scheduleEnter (id : ℕ)
  | scheduleUp (id : ℕ)
  | scheduleReturned (id : ℕ) (ret : Bool)
  | flushEnter (second : Bool)
  | flushUp (second : Bool)
  | flushWait (second : Bool)
  | flushReturned
  deriving DecidableEq, Repr

/-- `nv_kthread_q_t`, the completions of the flushes, the calls, and the history: what was queued
and started and what has finished, in order, and whether the list was found empty. -/
structure State where
  list : List Item := []
  sem : ℕ := 0
  qThread : QThread := .down
  completions : List (ℕ × Bool) := []
  calls : List Call := []
  queued : List Item := []
  started : List Item := []
  finished : List Item := []
  warned : Bool := false
  deriving DecidableEq, Repr

/-- `nv_kthread_q_init`. -/
def State.initial : State := {}

def State.setCall (s : State) (i : ℕ) (call : Call) : State :=
  { s with calls := s.calls.set i call }

/-- The section of `_raw_q_schedule`, and its result. -/
def rawQSchedule (s : State) (item : Item) : State × Bool :=
  if item ∈ s.list then (s, false)
  else ({ s with list := s.list ++ [item], queued := s.queued ++ [item] }, true)

def State.up (s : State) : State := { s with sem := s.sem + 1 }

def callStep (s : State) (i : ℕ) : Call → State
  | .scheduleEnter id =>
    let r := rawQSchedule s (.user id)
    r.1.setCall i (if r.2 then .scheduleUp id else .scheduleReturned id false)
  | .scheduleUp id => s.up.setCall i (.scheduleReturned id true)
  | .scheduleReturned _ _ => s
  | .flushEnter second =>
    let r := rawQSchedule s (.flush i second)
    r.1.setCall i (if r.2 then .flushUp second else .flushWait second)
  | .flushUp second => s.up.setCall i (.flushWait second)
  | .flushWait second =>
    if (i, second) ∈ s.completions then
      s.setCall i (if second then .flushReturned else .flushEnter true)
    else s
  | .flushReturned => s

/-- The next step of `_main_loop`.  A function of a caller returns here. -/
def mainLoopStep (s : State) : State :=
  match s.qThread with
  | .down => if s.sem = 0 then s else { s with sem := s.sem - 1, qThread := .token }
  | .token =>
    match s.list with
    | [] => { s with qThread := .down, warned := true }
    | item :: list => { s with list, qThread := .consumed item }
  | .consumed item => { s with started := s.started ++ [item], qThread := .running item }
  | .running (.user id) => { s with finished := s.finished ++ [.user id], qThread := .down }
  | .running (.flush call second) =>
    { s with
        completions := (call, second) :: s.completions
        qThread := .completed (.flush call second) }
  | .scheduling item => { s.up with qThread := .running item }
  | .completed item => { s with finished := s.finished ++ [item], qThread := .down }

/-- The function of the item that runs calls `nv_kthread_q_schedule_q_item`. -/
def itemSchedules (s : State) (id : ℕ) : State :=
  match s.qThread with
  | .running (.user running) =>
    let r := rawQSchedule s (.user id)
    if r.2 then { r.1 with qThread := .scheduling (.user running) } else r.1
  | _ => s

/-- A thread enters one of the two functions, a call takes its next step, the function that runs
queues an item, or the thread of the queue takes its next step. -/
inductive Op where
  | schedule (id : ℕ)
  | flush
  | call (i : ℕ)
  | itemSchedules (id : ℕ)
  | mainLoop
  deriving DecidableEq, Repr

def step (s : State) : Op → State
  | .schedule id => { s with calls := s.calls ++ [.scheduleEnter id] }
  | .flush => { s with calls := s.calls ++ [.flushEnter false] }
  | .call i =>
    match s.calls[i]? with
    | none => s
    | some call => callStep s i call
  | .itemSchedules id => itemSchedules s id
  | .mainLoop => mainLoopStep s

/-! ## The invariant -/

/-- The count of the semaphore that the thread of the queue holds. -/
def QThread.tokens : QThread → ℕ
  | .token => 1
  | _ => 0

/-- The item that is off the list and has not started. -/
def QThread.consumedItems : QThread → List Item
  | .consumed item => [item]
  | _ => []

/-- The item that has started and has not finished. -/
def QThread.runningItems : QThread → List Item
  | .running item | .scheduling item | .completed item => [item]
  | _ => []

/-- The function that runs has an `up` to do. -/
def QThread.ups : QThread → ℕ
  | .scheduling _ => 1
  | _ => 0

/-- A call has an `up` to do. -/
def Call.isUp : Call → Bool
  | .scheduleUp _ | .flushUp _ => true
  | _ => false

def Call.Queued : Call → Bool → Prop
  | .flushUp second, pass | .flushWait second, pass => pass = true → second = true
  | .flushEnter second, pass => pass = false ∧ second = true
  | .flushReturned, _ => True
  | _, _ => False

/-- The invariant of the queue. -/
structure Inv (s : State) : Prop where
  /-- Every item in the list has a count of the semaphore, or its `up` is still to come. -/
  tokens : s.sem + s.qThread.tokens + s.calls.countP Call.isUp + s.qThread.ups = s.list.length
  warned : s.warned = false
  nodup : s.list.Nodup
  order : s.queued = s.started ++ s.qThread.consumedItems ++ s.list
  finished : s.started = s.finished ++ s.qThread.runningItems
  fresh : ∀ call pass, .flush call pass ∈ s.queued →
    ∃ c, s.calls[call]? = some c ∧ c.Queued pass
  once : ∀ call pass, s.queued.count (.flush call pass) ≤ 1
  completed : ∀ call pass, (call, pass) ∈ s.completions → .flush call pass ∈ s.started

theorem initial_inv : Inv State.initial := by
  constructor <;> simp [State.initial, QThread.tokens, QThread.ups, QThread.consumedItems,
    QThread.runningItems]

/-! ## One step -/

variable {s : State} {i : ℕ} {old new : Call} {item : Item}

theorem rawQSchedule_of_mem (h : item ∈ s.list) : rawQSchedule s item = (s, false) := if_pos h

theorem rawQSchedule_of_not_mem (h : item ∉ s.list) : rawQSchedule s item =
    ({ s with list := s.list ++ [item], queued := s.queued ++ [item] }, true) := if_neg h

theorem fresh_set {queued : List Item} (hcall : s.calls[i]? = some old)
    (hfresh : ∀ call pass, .flush call pass ∈ queued →
      (∃ c, s.calls[call]? = some c ∧ c.Queued pass) ∨ call = i ∧ new.Queued pass)
    (hkeep : ∀ pass, old.Queued pass → new.Queued pass) (call : ℕ) (pass : Bool)
    (h : .flush call pass ∈ queued) : ∃ c, (s.calls.set i new)[call]? = some c ∧ c.Queued pass := by
  obtain ⟨hlt, hget⟩ := List.getElem?_eq_some_iff.mp hcall
  by_cases heq : call = i
  · subst heq
    refine ⟨new, by simp [hlt], ?_⟩
    rcases hfresh call pass h with ⟨c, hc, hqueue⟩ | ⟨-, hqueue⟩
    · rw [hcall] at hc
      obtain rfl := Option.some.inj hc
      exact hkeep pass hqueue
    · exact hqueue
  · rcases hfresh call pass h with ⟨c, hc, hqueue⟩ | ⟨heq', -⟩
    · exact ⟨c, by rw [List.getElem?_set_ne (Ne.symm heq)]; exact hc, hqueue⟩
    · exact absurd heq' heq

theorem Inv.move (h : Inv s) (hcall : s.calls[i]? = some old) (hold : old.isUp = false)
    (hnew : new.isUp = false) (hkeep : ∀ pass, old.Queued pass → new.Queued pass) :
    Inv (s.setCall i new) where
  tokens := by
    have hcnt := Lib.countP_set_add hcall new Call.isUp
    rw [hold, hnew] at hcnt
    have := h.tokens
    simp only [State.setCall]
    omega
  warned := h.warned
  nodup := h.nodup
  order := h.order
  finished := h.finished
  fresh := fresh_set hcall (fun call pass hin => .inl (h.fresh call pass hin)) hkeep
  once := h.once
  completed := h.completed

theorem Inv.moveUp (h : Inv s) (hcall : s.calls[i]? = some old) (hold : old.isUp = true)
    (hnew : new.isUp = false) (hkeep : ∀ pass, old.Queued pass → new.Queued pass) :
    Inv (s.up.setCall i new) where
  tokens := by
    have hcnt := Lib.countP_set_add hcall new Call.isUp
    rw [hold, hnew] at hcnt
    have := h.tokens
    simp only [State.setCall, State.up]
    simp only [if_true, Bool.false_eq_true, if_false] at hcnt
    omega
  warned := h.warned
  nodup := h.nodup
  order := h.order
  finished := h.finished
  fresh := fresh_set hcall (fun call pass hin => .inl (h.fresh call pass hin)) hkeep
  once := h.once
  completed := h.completed

theorem Inv.queue (h : Inv s) (hcall : s.calls[i]? = some old) (hold : old.isUp = false)
    (hnew : new.isUp = true) (hkeep : ∀ pass, old.Queued pass → new.Queued pass)
    (hitem : item ∉ s.list)
    (hfresh : ∀ call pass, item = .flush call pass →
      call = i ∧ new.Queued pass ∧ ¬old.Queued pass) :
    Inv ({ s with list := s.list ++ [item], queued := s.queued ++ [item] }.setCall i new) where
  tokens := by
    have hcnt := Lib.countP_set_add hcall new Call.isUp
    rw [hold, hnew] at hcnt
    have := h.tokens
    simp only [State.setCall, List.length_append, List.length_singleton]
    simp only [if_true, Bool.false_eq_true, if_false] at hcnt
    omega
  warned := h.warned
  nodup := by
    rw [State.setCall, List.nodup_append]
    refine ⟨h.nodup, List.nodup_singleton _, fun a ha b hb => ?_⟩
    rintro rfl
    rw [List.mem_singleton.mp hb] at ha
    exact hitem ha
  order := by
    simp only [State.setCall, h.order, List.append_assoc]
  finished := h.finished
  fresh := by
    refine fresh_set hcall (fun call pass hin => ?_) hkeep
    rcases List.mem_append.mp hin with hin | hin
    · exact .inl (h.fresh call pass hin)
    · obtain ⟨heq, hqueue, -⟩ := hfresh call pass (List.mem_singleton.mp hin).symm
      exact .inr ⟨heq, hqueue⟩
  once := by
    intro call pass
    simp only [State.setCall, List.count_append]
    by_cases heq : item = .flush call pass
    · -- a new flush item was not queued before
      have hnone : .flush call pass ∉ s.queued := by
        intro hin
        obtain ⟨c, hc, hqueue⟩ := h.fresh call pass hin
        obtain ⟨rfl, -, hnot⟩ := hfresh call pass heq
        rw [hcall] at hc
        obtain rfl := Option.some.inj hc
        exact hnot hqueue
      simp [List.count_eq_zero.mpr hnone, heq]
    · simpa [heq] using h.once call pass
  completed := h.completed

theorem callStep_inv (h : Inv s) (hcall : s.calls[i]? = some old) : Inv (callStep s i old) := by
  cases old with
  | scheduleEnter id =>
    by_cases hin : .user id ∈ s.list
    · rw [callStep, rawQSchedule_of_mem hin]
      exact h.move hcall rfl rfl fun _ hq => hq
    · rw [callStep, rawQSchedule_of_not_mem hin]
      exact h.queue hcall rfl rfl (fun _ hq => hq) hin fun _ _ heq => by cases heq
  | scheduleUp id => exact h.moveUp hcall rfl rfl fun _ hq => hq
  | scheduleReturned id ret => exact h
  | flushEnter second =>
    have hsecond : ∀ pass, (Call.flushEnter second).Queued pass → pass = true → second = true :=
      fun pass hq _ => hq.2
    by_cases hin : .flush i second ∈ s.list
    · rw [callStep, rawQSchedule_of_mem hin]
      exact h.move hcall rfl rfl hsecond
    · rw [callStep, rawQSchedule_of_not_mem hin]
      refine h.queue hcall rfl rfl hsecond hin fun call pass heq => ?_
      injection heq with hc hp
      subst hc hp
      refine ⟨rfl, fun hp => hp, ?_⟩
      rintro ⟨hp, hs⟩
      rw [hp] at hs
      cases hs
  | flushUp second => exact h.moveUp hcall rfl rfl fun _ hq => hq
  | flushWait second =>
    rw [callStep]
    split
    swap
    · exact h
    cases second with
    | true => exact h.move hcall rfl rfl fun _ _ => trivial
    | false =>
      refine h.move hcall rfl rfl fun pass hq => ⟨?_, rfl⟩
      cases pass with
      | false => rfl
      | true => exact absurd (hq rfl) Bool.false_ne_true
  | flushReturned => exact h

theorem mainLoopStep_inv (h : Inv s) : Inv (mainLoopStep s) := by
  have htokens := h.tokens
  have hord := h.order
  have hfin := h.finished
  unfold mainLoopStep
  split
  · next hthr =>
    rw [hthr] at htokens hord hfin
    split
    · exact h
    · next hsem =>
      refine ⟨?_, h.warned, h.nodup, hord, hfin, h.fresh, h.once, h.completed⟩
      simp only [QThread.tokens, QThread.ups] at htokens ⊢
      omega
  · next hthr =>
    rw [hthr] at htokens hord hfin
    cases hlist : s.list with
    | nil =>
      rw [hlist] at htokens
      simp [QThread.tokens] at htokens
    | cons item list =>
      have hnd := h.nodup
      rw [hlist] at htokens hord hnd
      refine ⟨?_, h.warned, hnd.of_cons, ?_, hfin, h.fresh, h.once, h.completed⟩
      · simp only [QThread.tokens, QThread.ups, List.length_cons] at htokens ⊢
        omega
      · simpa [QThread.consumedItems] using hord
  · next item hthr =>
    rw [hthr] at htokens hord hfin
    refine ⟨htokens, h.warned, h.nodup, ?_, ?_, h.fresh, h.once, fun call pass hin => ?_⟩
    · simpa [QThread.consumedItems] using hord
    · simpa [QThread.runningItems] using hfin
    · exact List.mem_append_left _ (h.completed call pass hin)
  · next id hthr =>
    rw [hthr] at htokens hord hfin
    exact ⟨htokens, h.warned, h.nodup, hord, by simpa [QThread.runningItems] using hfin,
      h.fresh, h.once, h.completed⟩
  · next call second hthr =>
    rw [hthr] at htokens hord hfin
    refine ⟨htokens, h.warned, h.nodup, hord, hfin, h.fresh, h.once, fun c p hin => ?_⟩
    rcases List.mem_cons.mp hin with heq | hin
    · injection heq with hc hp
      rw [hc, hp, hfin]
      simp [QThread.runningItems]
    · exact h.completed c p hin
  · next item hthr =>
    rw [hthr] at htokens hord hfin
    refine ⟨?_, h.warned, h.nodup, hord, hfin, h.fresh, h.once, h.completed⟩
    simp only [QThread.tokens, QThread.ups, State.up] at htokens ⊢
    omega
  · next item hthr =>
    rw [hthr] at htokens hord hfin
    exact ⟨htokens, h.warned, h.nodup, hord, by simpa [QThread.runningItems] using hfin,
      h.fresh, h.once, h.completed⟩

theorem itemSchedules_inv (h : Inv s) (id : ℕ) : Inv (itemSchedules s id) := by
  unfold itemSchedules
  split
  swap
  · exact h
  next running hthr =>
  by_cases hin : .user id ∈ s.list
  · rw [rawQSchedule_of_mem hin]
    exact h
  · rw [rawQSchedule_of_not_mem hin]
    have htokens := h.tokens
    have hord := h.order
    have hfin := h.finished
    rw [hthr] at htokens hord hfin
    refine ⟨?_, h.warned, ?_, ?_, hfin, fun call pass hmem => ?_, fun call pass => ?_,
      h.completed⟩
    · simp only [QThread.tokens, QThread.ups, List.length_append, List.length_singleton,
        if_true] at htokens ⊢
      omega
    · rw [if_pos rfl, List.nodup_append]
      refine ⟨h.nodup, List.nodup_singleton _, fun a ha b hb => ?_⟩
      rintro rfl
      rw [List.mem_singleton.mp hb] at ha
      exact hin ha
    · simp [hord, QThread.consumedItems]
    · rcases List.mem_append.mp hmem with hmem | hmem
      · exact h.fresh call pass hmem
      · cases List.mem_singleton.mp hmem
    · simpa using h.once call pass

theorem step_inv (s : State) (op : Op) (h : Inv s) : Inv (step s op) := by
  have henter : ∀ call : Call, call.isUp = false → Inv { s with calls := s.calls ++ [call] } := by
    intro call hup
    refine ⟨?_, h.warned, h.nodup, h.order, h.finished, fun c pass hin => ?_, h.once, h.completed⟩
    · simpa [hup] using h.tokens
    · obtain ⟨call', hcall', hqueue⟩ := h.fresh c pass hin
      have hlt := (List.getElem?_eq_some_iff.mp hcall').1
      exact ⟨call', by rw [List.getElem?_append_left hlt]; exact hcall', hqueue⟩
  cases op with
  | schedule id => exact henter _ rfl
  | flush => exact henter _ rfl
  | call i =>
    rw [step]
    split
    · exact h
    · next call hcall => exact callStep_inv h hcall
  | itemSchedules id => exact itemSchedules_inv h id
  | mainLoop => exact mainLoopStep_inv h

theorem run_inv (ops : List Op) : Inv (Lib.run step State.initial ops) :=
  Lib.run_inv step initial_inv step_inv ops

end NvUvm.KthreadQ
