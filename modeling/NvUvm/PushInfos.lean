import Mathlib.Algebra.Ring.Nat
import NvUvm.ChannelRingPushes

/-!
# Push infos

Model of the push infos of a channel (`uvm8_channel.c`, `uvm8_push.c`).  Each channel has as many of
them as it has GPFIFO entries.  A push gets the next one, in turn, when it begins; it keeps its
description and its `on_complete` callback there, and its GPFIFO entry points there when it ends.
-/

namespace NvUvm

open Lib Lib.Ring
open Function (update)

/-- `uvm_push_info_t`: which push the description is of, and which one's callback is set. -/
structure PushInfo where
  description : Option ℕ
  onComplete : Option ℕ
  deriving DecidableEq, Repr

/-- The channels and their push infos.  `filled` and `hasCallback` say how far the thread of a push
has come; `beginCount` counts the begins on each channel, and `beginNumber` is how many there were
before the push got its push info. -/
structure PushInfoManager where
  manager : ChannelManager
  nextPushInfoIndex : ℕ → ℕ
  pushInfos : ℕ → ℕ → PushInfo
  pushInfoIndex : ℕ → Option ℕ
  entryPushInfo : GpfifoSlot → ℕ
  filled : ℕ → Bool
  hasCallback : ℕ → Bool
  beginCount : ℕ → ℕ
  beginNumber : ℕ → Option ℕ

/-- The steps: those of the channels, and those of a thread that begins a push or sets its
callback. -/
inductive PushInfoStep where
  | manager (op : ManagerStep)
  | getNextPushInfoIndex (push : ℕ)
  | fillInfo (push : ℕ)
  | setOnComplete (push : ℕ)

namespace PushInfoManager

variable (s : PushInfoManager)

def channelOf (push : ℕ) : ℕ := (s.manager.pushes push).channel

def size (id : ℕ) : ℕ := (s.manager.channels id).numGpFifoEntries

def setPushInfo (id index : ℕ) (info : PushInfo) : PushInfoManager :=
  { s with
    pushInfos := update s.pushInfos id (update (s.pushInfos id) index info) }

/-- `channel_get_next_push_info_index`, at the end of `uvm_channel_begin_push`. -/
def getNextPushInfoIndex (push : ℕ) : PushInfoManager :=
  let id := s.channelOf push
  { s with
    nextPushInfoIndex := update s.nextPushInfoIndex id
      ((s.nextPushInfoIndex id + 1) % s.size id)
    pushInfoIndex := update s.pushInfoIndex push (some (s.nextPushInfoIndex id))
    beginCount := update s.beginCount id (s.beginCount id + 1)
    beginNumber := update s.beginNumber push (some (s.beginCount id)) }

/-- `uvm_channel_end_push`: the GPFIFO entry points to the push info. -/
def endPush (push : ℕ) (size : PushSize) (index : ℕ) : PushInfoManager :=
  { s with
    manager := s.manager.endPushSection push size
    pushInfoIndex := update s.pushInfoIndex push none
    entryPushInfo := update s.entryPushInfo
      (s.channelOf push, (s.manager.channels (s.channelOf push)).cpuPut) index }

/-- `uvm_pushbuffer_mark_completed` calls the callbacks of the entries and resets them. -/
def clearCallbacks (id : ℕ) (slots : List ℕ) : ℕ → PushInfo :=
  slots.foldl (fun infos i => update infos (s.entryPushInfo (id, i))
    { infos (s.entryPushInfo (id, i)) with onComplete := none }) (s.pushInfos id)

/-- `uvm_channel_update_progress_with_max`. -/
def updateProgress (id completedValue maxToComplete : ℕ) : PushInfoManager :=
  { s with
    manager :=
      (s.manager.uvmChannelUpdateProgressWithMax id completedValue maxToComplete .completed).2
    pushInfos := update s.pushInfos id (s.clearCallbacks id
      (passedEntries (s.manager.channels id) completedValue maxToComplete
        (s.manager.channels id).gpuGet)) }

/-- One step; a step that its thread cannot take now changes nothing. -/
def step (s : PushInfoManager) : PushInfoStep → PushInfoManager
  | .manager (.endPush push size) =>
    match s.pushInfoIndex push with
    | some index =>
      if (s.manager.pushes push).phase = .begun ∧ s.filled push then s.endPush push size index
      else s
    | none => s
  | .manager (.updateProgress id completedValue maxToComplete) =>
    if completedValue ≤ (s.manager.channels id).semaphore then
      s.updateProgress id completedValue maxToComplete
    else s
  | .manager op => { s with manager := s.manager.step op }
  | .getNextPushInfoIndex push =>
    if (s.manager.pushes push).phase = .begun ∧ s.pushInfoIndex push = none then
      s.getNextPushInfoIndex push
    else s
  | .fillInfo push =>
    match s.pushInfoIndex push with
    | some index =>
      { s.setPushInfo (s.channelOf push) index
          { s.pushInfos (s.channelOf push) index with description := some push } with
        filled := update s.filled push true }
    | none => s
  | .setOnComplete push =>
    match s.pushInfoIndex push with
    | some index =>
      { s.setPushInfo (s.channelOf push) index
          { s.pushInfos (s.channelOf push) index with onComplete := some push } with
        hasCallback := update s.hasCallback push true }
    | none => s

/-- The channels as they are created; `push_infos` is zeroed. -/
def init (numGpFifoEntries : ℕ → { n : ℕ // 0 < n }) : PushInfoManager where
  manager := .init numGpFifoEntries
  nextPushInfoIndex := fun _ => 0
  pushInfos := fun _ _ => ⟨none, none⟩
  pushInfoIndex := fun _ => none
  entryPushInfo := fun _ => 0
  filled := fun _ => false
  hasCallback := fun _ => false
  beginCount := fun _ => 0
  beginNumber := fun _ => none

/-- The push has begun and is not marked completed. -/
def Live (push : ℕ) : Prop :=
  (s.pushInfoIndex push ≠ none ∨ (s.manager.pushes push).Ended) ∧
    ¬ (s.manager.pushes push).MarkedCompleted

/-- The push info that a push uses: its own index until it ends, then that of its entry. -/
def Uses (push index : ℕ) : Prop :=
  s.pushInfoIndex push = some index ∨
    (s.manager.pushes push).Ended ∧ s.entryPushInfo (s.manager.pushes push).slot = index

/-- A push info holds what the push has recorded. -/
def Records (push : ℕ) (info : PushInfo) : Prop :=
  (s.filled push = true → info.description = some push) ∧
    info.onComplete = if s.hasCallback push then some push else none

/-- No two live pushes of a channel use one push info, so what each has recorded is still there, also
when the progress loop comes to its entry. -/
structure InfosSound (s : PushInfoManager) : Prop where
  distinct : ∀ p q index, s.Live p → s.Live q → s.channelOf p = s.channelOf q → s.Uses p index →
    s.Uses q index → p = q
  records : ∀ push index, s.Live push → s.Uses push index →
    s.Records push (s.pushInfos (s.channelOf push) index)
  processed : ∀ id i, (s.manager.channels id).Holds i →
    s.filled (s.manager.entry (id, i)).push = true ∧
      s.Records (s.manager.entry (id, i)).push (s.pushInfos id (s.entryPushInfo (id, i)))

/-- A push begins only when the push that began as many begins earlier on the channel as it has push
infos is marked completed. -/
def BeginsAfterCompletion (s : PushInfoManager) : PushInfoStep → Prop
  | .getNextPushInfoIndex push =>
    (s.manager.pushes push).phase = .begun → s.pushInfoIndex push = none →
      ∀ earlier number, s.channelOf earlier = s.channelOf push →
        s.beginNumber earlier = some number →
          number + s.size (s.channelOf push) = s.beginCount (s.channelOf push) →
            (s.manager.pushes earlier).MarkedCompleted
  | _ => True

end PushInfoManager

end NvUvm
