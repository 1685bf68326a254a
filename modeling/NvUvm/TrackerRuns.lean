import Mathlib.Data.Set.Insert
import NvUvm.Lib.Run
import NvUvm.Tracker

/-!
# Runs of tracker operations

The operations of `uvm8_tracker.c` that take two trackers, and runs of all of them.  Each tracker
comes with the pairs of a channel and a value that were added to it, itself or through another
tracker, since it was last cleared, overwritten, or given up by a wait that returned an error.
-/

namespace NvUvm

open Lib TrackerWorld
open Function (update update_of_ne update_self)

/-- A push that has ended (`uvm_push_t`): its channel and its tracking value. -/
structure EndedPush where
  channel : ℕ
  channelTrackingValue : ℕ
  deriving DecidableEq, Repr

/-- `uvm_push_get_tracker_entry`. -/
def EndedPush.trackerEntry (push : EndedPush) : TrackerEntry :=
  ⟨some push.channel, push.channelTrackingValue⟩

/-- The trackers, by their addresses, and what each of them answers for. -/
structure TrackerState where
  trackers : ℕ → Tracker
  world : TrackerWorld
  added : ℕ → Set TrackerEntry

def Tracker.hasChannel (t : Tracker) (channel : Option ℕ) : Bool :=
  (List.range t.size).any fun i => (t.entries i).channel = channel

/-- The count of `reserve_for_entries_from_tracker`. -/
def neededFreeEntries (dst : Tracker) (srcEntries : List TrackerEntry) : ℕ :=
  srcEntries.countP fun entry => !dst.hasChannel entry.channel

section Operations

variable (env : TrackerEnv)

/-- The reservation of `uvm_tracker_add_tracker`, for both trackers. -/
def reserveForTracker (dst src : Tracker) (w : TrackerWorld) :
    NvStatus × Tracker × Tracker × TrackerWorld :=
  let r := uvmTrackerReserve env dst src.size w
  if r.1 = .errNoMemory then
    let d := uvmTrackerRemoveCompleted env r.2.1 r.2.2
    let c := uvmTrackerRemoveCompleted env src d.2
    -- `reserve_for_entries_from_tracker`
    let r' := uvmTrackerReserve env d.1 (neededFreeEntries d.1 c.1.toList) c.2
    (r'.1, r'.2.1, c.1, r'.2.2)
  else (r.1, r.2.1, src, r.2.2)

/-- The loop of `uvm_tracker_add_tracker`. -/
def addEntries (dst : Tracker) (srcEntries : List TrackerEntry) (w : TrackerWorld) :
    Tracker × TrackerWorld :=
  srcEntries.foldl (fun r entry => (uvmTrackerAddEntry env r.1 entry r.2).2) (dst, w)

/-- `uvm_tracker_add_tracker` for two different trackers. -/
def addOtherTracker (dst src : Tracker) (w : TrackerWorld) :
    NvStatus × Tracker × Tracker × TrackerWorld :=
  let r := reserveForTracker env dst src w
  if r.1.isOk then
    let d := addEntries env r.2.1 r.2.2.1.toList r.2.2.2
    (.ok, d.1, r.2.2.1, d.2)
  else r

/-- The copy of `uvm_tracker_overwrite`. -/
def overwriteEntries (dst src : Tracker) : Tracker :=
  { dst.setEntries (fun i => if i < src.size then src.entries i else dst.entries i) with
    size := src.size }

namespace TrackerState

variable (s : TrackerState)

def set (id : ℕ) (t : Tracker) (w : TrackerWorld) : TrackerState :=
  { s with trackers := update s.trackers id t, world := w }

def uvmTrackerAddTracker (dst src : ℕ) : NvStatus × TrackerState :=
  if src = dst then (.ok, s)
  else
    let r := addOtherTracker env (s.trackers dst) (s.trackers src) s.world
    (r.1, (s.set src r.2.2.1 r.2.2.2).set dst r.2.1 r.2.2.2)

def uvmTrackerOverwrite (dst src : ℕ) : NvStatus × TrackerState :=
  -- the destination is cleared first, also if it is the source
  let s := s.set dst (s.trackers dst).clear s.world
  let r := uvmTrackerReserve env (s.trackers dst) (s.trackers src).size s.world
  if r.1.isOk then (.ok, s.set dst (overwriteEntries r.2.1 (s.trackers src)) r.2.2)
  else (r.1, s.set dst r.2.1 r.2.2)

/-- `uvm_tracker_wait`, for at most the given number of iterations. -/
def uvmTrackerWait (iterations id : ℕ) : Option NvStatus × TrackerState :=
  let r := NvUvm.uvmTrackerWait env iterations (s.trackers id) s.world
  (r.1, s.set id r.2.1 r.2.2)

/-- The safe forms of the operations wait for the source when they cannot get memory. -/
def waitIfNoMemory (iterations src : ℕ) (r : NvStatus × TrackerState) :
    Option NvStatus × TrackerState :=
  if r.1 = .errNoMemory then r.2.uvmTrackerWait env iterations src else (some r.1, r.2)

end TrackerState

/-- A call of one of the operations.  A wait is given up after a number of iterations, when the
thread is still waiting. -/
inductive TrackerOp where
  | addEntry (id : ℕ) (entry : TrackerEntry)
  | addPush (id : ℕ) (push : EndedPush)
  | addTracker (dst src : ℕ)
  | addTrackerSafe (dst src iterations : ℕ)
  | overwrite (dst src : ℕ)
  | overwriteSafe (dst src iterations : ℕ)
  | removeCompleted (id : ℕ)
  | wait (id iterations : ℕ)
  | clear (id : ℕ)
  deriving DecidableEq, Repr

/-- What a call returns and leaves.  The status is `none` while a thread is waiting. -/
def TrackerState.apply (s : TrackerState) : TrackerOp → Option NvStatus × TrackerState
  | .addEntry id entry =>
    let r := uvmTrackerAddEntry env (s.trackers id) entry s.world
    (some r.1, s.set id r.2.1 r.2.2)
  | .addPush id push =>
    let r := uvmTrackerAddEntry env (s.trackers id) push.trackerEntry s.world
    (some r.1, s.set id r.2.1 r.2.2)
  | .addTracker dst src =>
    let r := s.uvmTrackerAddTracker env dst src
    (some r.1, r.2)
  | .addTrackerSafe dst src iterations =>
    TrackerState.waitIfNoMemory env iterations src (s.uvmTrackerAddTracker env dst src)
  | .overwrite dst src =>
    let r := s.uvmTrackerOverwrite env dst src
    (some r.1, r.2)
  | .overwriteSafe dst src iterations =>
    TrackerState.waitIfNoMemory env iterations src (s.uvmTrackerOverwrite env dst src)
  | .removeCompleted id =>
    let r := uvmTrackerRemoveCompleted env (s.trackers id) s.world
    (some .ok, s.set id r.1 r.2)
  | .wait id iterations => s.uvmTrackerWait env iterations id
  | .clear id => (some .ok, s.set id (s.trackers id).clear s.world)

end Operations

/-- The pairs that the trackers answer for after a call that returned the given status.  A wait that
returns an error gives up what it waited for. -/
def TrackerOp.addedAfter (added : ℕ → Set TrackerEntry) (status : Option NvStatus) :
    TrackerOp → ℕ → Set TrackerEntry
  | .addEntry id entry =>
    update added id (if status = some .ok then insert entry (added id) else added id)
  | .addPush id push =>
    update added id
      (if status = some .ok then insert push.trackerEntry (added id) else added id)
  | .addTracker dst src =>
    update added dst (if status = some .ok then added dst ∪ added src else added dst)
  | .addTrackerSafe dst src _ =>
    match status with
    | none => added
    | some .ok => update added dst (added dst ∪ added src)
    | some _ => update added src ∅
  | .overwrite dst src =>
    update added dst (if status = some .ok then added src else ∅)
  | .overwriteSafe dst src _ =>
    match status with
    | none => update added dst ∅
    | some .ok => update added dst (added src)
    | some _ => update (update added dst ∅) src ∅
  | .removeCompleted _ => added
  | .wait id _ =>
    match status with
    | none | some .ok => added
    | some _ => update added id ∅
  | .clear id => update added id ∅

/-- An overwrite is of a tracker with another one. -/
def TrackerOp.OverwritesOther : TrackerOp → Prop
  | .overwrite dst src | .overwriteSafe dst src _ => dst ≠ src
  | _ => True

instance : DecidablePred TrackerOp.OverwritesOther := fun op => by
  cases op <;> unfold TrackerOp.OverwritesOther <;> infer_instance

namespace TrackerState

def step (env : TrackerEnv) (s : TrackerState) (op : TrackerOp) : TrackerState :=
  { (s.apply env op).2 with added := op.addedAfter s.added (s.apply env op).1 }

/-- Every tracker after `uvm_tracker_init`. -/
def init (world : TrackerWorld) : TrackerState where
  trackers := fun _ => .init
  world := world
  added := fun _ => ∅

end TrackerState

variable (env : TrackerEnv) {w w' : TrackerWorld} {t t' src : Tracker}
  {entry : TrackerEntry} {added added' : Set TrackerEntry}

/-! ## Room for the entries of another tracker -/

theorem Tracker.hasChannel_iff {channel : Option ℕ} :
    t.hasChannel channel = true ↔ ∃ i < t.size, (t.entries i).channel = channel := by
  simp [Tracker.hasChannel]

theorem neededFreeEntries_mono (h : ∀ channel, t.hasChannel channel → t'.hasChannel channel)
    (entries : List TrackerEntry) : neededFreeEntries t' entries ≤ neededFreeEntries t entries := by
  apply List.countP_mono_left
  intro entry _ hmiss
  by_contra hfound
  rw [h entry.channel (by simpa using hfound)] at hmiss
  cases hmiss

theorem addEntry_of_hasChannel (hchan : t.hasChannel entry.channel) (w : TrackerWorld)
    (entries : List TrackerEntry) :
    (uvmTrackerAddEntry env t entry w).1 = .ok ∧
      (uvmTrackerAddEntry env t entry w).2.1.size = t.size ∧
      (uvmTrackerAddEntry env t entry w).2.1.maxSize = t.maxSize ∧
      neededFreeEntries (uvmTrackerAddEntry env t entry w).2.1 entries ≤
        neededFreeEntries t entries := by
  obtain ⟨j, hj, hjchannel⟩ := Tracker.hasChannel_iff.mp hchan
  unfold uvmTrackerAddEntry
  split
  case h_2 hnone =>
    have h := List.find?_eq_none.mp hnone j (List.mem_range.mpr hj)
    exact absurd hjchannel (by simpa using h)
  case h_1 i hfind =>
    refine ⟨rfl, by simp, by simp, neededFreeEntries_mono ?_ entries⟩
    intro channel hhas
    obtain ⟨k, hk, hkchannel⟩ := Tracker.hasChannel_iff.mp hhas
    refine Tracker.hasChannel_iff.mpr ⟨k, by simpa using hk, ?_⟩
    rw [Tracker.setEntries_entries]
    by_cases hki : k = i
    · rw [hki, update_self, ← hkchannel, hki]
    · rw [update_of_ne hki]
      exact hkchannel

theorem addEntry_of_room (hchan : t.hasChannel entry.channel = false)
    (hroom : t.size + 1 ≤ t.maxSize) (w : TrackerWorld) (entries : List TrackerEntry) :
    (uvmTrackerAddEntry env t entry w).1 = .ok ∧
      (uvmTrackerAddEntry env t entry w).2.1.size = t.size + 1 ∧
      (uvmTrackerAddEntry env t entry w).2.1.maxSize = t.maxSize ∧
      neededFreeEntries (uvmTrackerAddEntry env t entry w).2.1 entries ≤
        neededFreeEntries t entries := by
  have hnone : (List.range t.size).find? (fun i => (t.entries i).channel = entry.channel) = none := by
    apply List.find?_eq_none.mpr
    intro i hi heq
    have hhas := Tracker.hasChannel_iff.mpr ⟨i, List.mem_range.mp hi, by simpa using heq⟩
    rw [hchan] at hhas
    cases hhas
  have hresv : uvmTrackerReserve env t 1 w = (.ok, t, w) := if_neg (Nat.not_lt.mpr hroom)
  simp only [uvmTrackerAddEntry, hnone, addNewEntry, hresv, NvStatus.isOk, if_true]
  refine ⟨trivial, trivial, by simp, neededFreeEntries_mono ?_ entries⟩
  intro channel hhas
  obtain ⟨k, hk, hkchannel⟩ := Tracker.hasChannel_iff.mp hhas
  refine Tracker.hasChannel_iff.mpr ⟨k, Nat.lt_succ_of_lt hk, ?_⟩
  rw [Tracker.entries_withSize, Tracker.setEntries_entries, update_of_ne hk.ne]
  exact hkchannel

theorem addEntry_room {entries : List TrackerEntry}
    (hroom : t.size + neededFreeEntries t (entry :: entries) ≤ t.maxSize) (w : TrackerWorld) :
    (uvmTrackerAddEntry env t entry w).1 = .ok ∧
      (uvmTrackerAddEntry env t entry w).2.1.size +
          neededFreeEntries (uvmTrackerAddEntry env t entry w).2.1 entries ≤
        (uvmTrackerAddEntry env t entry w).2.1.maxSize := by
  by_cases hchan : t.hasChannel entry.channel = true
  · have hneeded : neededFreeEntries t (entry :: entries) = neededFreeEntries t entries := by
      simp [neededFreeEntries, hchan]
    obtain ⟨hok, hsize, hmax, hrest⟩ := addEntry_of_hasChannel env hchan w entries
    exact ⟨hok, by omega⟩
  · rw [Bool.not_eq_true] at hchan
    have hneeded : neededFreeEntries t (entry :: entries) = neededFreeEntries t entries + 1 := by
      simp [neededFreeEntries, hchan]
    obtain ⟨hok, hsize, hmax, hrest⟩ :=
      addEntry_of_room env hchan (by omega) w entries
    exact ⟨hok, by omega⟩

theorem KeepSpec.trans {r r' : Tracker × TrackerWorld} (h : KeepSpec t w r)
    (h' : KeepSpec r.1 r.2 r') : KeepSpec t w r' where
  le := h.le.trans h'.le
  wf := h'.wf
  carries := h.carries.trans h'.carries h'.le

theorem addEntries_spec {entries : List TrackerEntry} (hwf : t.Wf)
    (hroom : t.size + neededFreeEntries t entries ≤ t.maxSize) (w : TrackerWorld) :
    KeepSpec t w (addEntries env t entries w) ∧
      ∀ entry ∈ entries, (addEntries env t entries w).1.Covers entry ∨
        (addEntries env t entries w).2.Completed entry := by
  induction entries generalizing t w with
  | nil => exact ⟨(RemoveSpec.later hwf (Le.refl w)).keep, fun _ h => absurd h List.not_mem_nil⟩
  | cons first entries ih =>
    have hadd := addEntry_spec env hwf first w
    obtain ⟨hok, hroom'⟩ := addEntry_room env hroom w
    obtain ⟨hkeep, hcov⟩ := ih hadd.wf hroom' (uvmTrackerAddEntry env t first w).2.2
    refine ⟨hadd.toKeepSpec.trans hkeep, ?_⟩
    intro entry hentry
    rcases List.mem_cons.mp hentry with rfl | hlater
    · exact hkeep.carries.covers (hadd.covers hok)
    · exact hcov entry hlater

/-! ## Two trackers -/

theorem ReserveSpec.removes {n : ℕ} {r : NvStatus × Tracker × TrackerWorld} (hwf : t.Wf)
    (h : ReserveSpec t n w r) : RemoveSpec t w r.2 where
  le := h.le
  wf := by
    apply hwf.congr h.size _ h.entries
    rw [h.size]
    exact hwf.size_le.trans h.maxSize
  retains := by
    rintro entry ⟨i, hi, rfl⟩
    exact Or.inl ⟨i, by rwa [h.size], h.entries i hi⟩

theorem RemoveSpec.weaken {w₀ : TrackerWorld} (h : RemoveSpec t w (t', w')) (hle : w₀.Le w) :
    RemoveSpec t w₀ (t', w') := ⟨hle.trans h.le, h.wf, h.retains⟩

theorem RemoveSpec.after {w₁ : TrackerWorld} (h : RemoveSpec t w (t', w')) (hle : w'.Le w₁) :
    RemoveSpec t w (t', w₁) :=
  RemoveSpec.trans h (.later h.wf hle)

/-- What the reservation of `uvm_tracker_add_tracker` leaves. -/
structure ReserveForSpec (dst src : Tracker) (w : TrackerWorld)
    (r : NvStatus × Tracker × Tracker × TrackerWorld) : Prop where
  dstRemoves : RemoveSpec dst w (r.2.1, r.2.2.2)
  srcRemoves : RemoveSpec src w (r.2.2.1, r.2.2.2)
  room : r.1 = .ok →
    r.2.1.size + neededFreeEntries r.2.1 r.2.2.1.toList ≤ r.2.1.maxSize
  failed : r.1 ≠ .ok → r.1 = .errNoMemory

theorem reserveForTracker_spec (hdst : t.Wf) (hsrc : src.Wf) (w : TrackerWorld) :
    ReserveForSpec t src w (reserveForTracker env t src w) := by
  have hresv := reserve_spec env hdst.size_le src.size w
  unfold reserveForTracker
  generalize uvmTrackerReserve env t src.size w = r at hresv
  have hremoves := hresv.removes hdst
  dsimp only
  split
  case isTrue =>
    -- without memory, make room by taking out what is complete
    have hdstDone := removeCompleted_spec env hremoves.wf r.2.2
    generalize uvmTrackerRemoveCompleted env r.2.1 r.2.2 = d at hdstDone
    have hsrcDone := removeCompleted_spec env hsrc d.2
    generalize uvmTrackerRemoveCompleted env src d.2 = c at hsrcDone
    have hagain := reserve_spec env hdstDone.wf.size_le
      (neededFreeEntries d.1 c.1.toList) c.2
    generalize uvmTrackerReserve env d.1 (neededFreeEntries d.1 c.1.toList) c.2 = r' at hagain
    have hdstAll := (hremoves.trans hdstDone).after hsrcDone.le
    have hlast := hagain.removes hdstDone.wf
    have hsame : ∀ channel, d.1.hasChannel channel → r'.2.1.hasChannel channel := by
      intro channel hhas
      obtain ⟨i, hi, hchan⟩ := Tracker.hasChannel_iff.mp hhas
      refine Tracker.hasChannel_iff.mpr ⟨i, by rwa [hagain.size], ?_⟩
      rw [hagain.entries i hi]
      exact hchan
    refine ⟨hdstAll.trans hlast, ?_, fun hok => ?_, fun hfail => (hagain.failed hfail).1⟩
    · exact (hsrcDone.after hagain.le).weaken (hremoves.le.trans hdstDone.le)
    · have hneeded := neededFreeEntries_mono hsame c.1.toList
      have hroom := hagain.room hok
      dsimp only
      omega
  case isFalse hmemory =>
    refine ⟨hremoves, .later hsrc hremoves.le, fun hok => ?_, fun hfail => ?_⟩
    · have hcnt : neededFreeEntries r.2.1 src.toList ≤ src.size := by
        have hlen : src.toList.length = src.size := by simp [Tracker.toList]
        exact List.countP_le_length.trans hlen.le
      have hroom := hresv.room hok
      dsimp only
      omega
    · exact absurd (hresv.failed hfail).1 hmemory

/-- What adding the entries of one tracker to another leaves: without memory, only completed entries
are gone from either. -/
structure AddTrackerSpec (dst src : Tracker) (w : TrackerWorld)
    (r : NvStatus × Tracker × Tracker × TrackerWorld) : Prop where
  dstKept : KeepSpec dst w (r.2.1, r.2.2.2)
  srcKept : KeepSpec src w (r.2.2.1, r.2.2.2)
  covers : r.1 = .ok → ∀ entry, src.Covers entry → r.2.1.Covers entry ∨ r.2.2.2.Completed entry
  failed : r.1 ≠ .ok → r.1 = .errNoMemory ∧
    ∀ entry, dst.Holds entry → r.2.1.Holds entry ∨ r.2.2.2.Completed entry

theorem addOtherTracker_spec (hdst : t.Wf) (hsrc : src.Wf) (w : TrackerWorld) :
    AddTrackerSpec t src w (addOtherTracker env t src w) := by
  have hresv := reserveForTracker_spec env hdst hsrc w
  unfold addOtherTracker
  generalize reserveForTracker env t src w = r at hresv
  dsimp only
  split
  case isTrue hok =>
    rw [NvStatus.isOk_eq_true] at hok
    obtain ⟨hkeep, hcov⟩ :=
      addEntries_spec env hresv.dstRemoves.wf (hresv.room hok) r.2.2.2
    have hsrcKept := hresv.srcRemoves.after hkeep.le
    refine ⟨hresv.dstRemoves.keep.trans hkeep, hsrcKept.keep, fun _ entry hcovered => ?_,
      fun h => absurd rfl h⟩
    -- an entry of the source is in the loop unless it is complete
    obtain ⟨i, hi, hchan, hvalue⟩ := hcovered
    have hdone : ∀ w₁ : TrackerWorld, w₁.Completed (src.entries i) → w₁.Completed entry :=
      fun w₁ h channel heq => hvalue.trans (h channel (hchan.trans heq))
    rcases hresv.srcRemoves.retains _ ⟨i, hi, rfl⟩ with hheld | hcompl
    · rcases hcov _ (Tracker.mem_toList.mpr hheld) with hcovers' | hcompl
      · obtain ⟨j, hj, hchannel', hvalue'⟩ := hcovers'
        exact Or.inl ⟨j, hj, hchannel'.trans hchan, hvalue.trans hvalue'⟩
      · exact Or.inr (hdone _ hcompl)
    · exact Or.inr (hdone _ (hcompl.mono hkeep.le))
  case isFalse hfail =>
    rw [NvStatus.isOk_eq_true] at hfail
    exact ⟨hresv.dstRemoves.keep, hresv.srcRemoves.keep, fun h => absurd h hfail,
      fun _ => ⟨hresv.failed hfail, hresv.dstRemoves.retains⟩⟩

variable {dst : Tracker}

theorem overwriteEntries_entries {i : ℕ} (hi : i < src.size) :
    (overwriteEntries dst src).entries i = src.entries i := by
  unfold overwriteEntries
  rw [Tracker.entries_withSize, Tracker.setEntries_entries]
  exact if_pos hi

theorem overwriteEntries_wf (hsrc : src.Wf) (hroom : src.size ≤ dst.maxSize) :
    (overwriteEntries dst src).Wf := by
  refine hsrc.congr rfl ?_ ?_
  · simpa [overwriteEntries] using hroom
  · exact fun i hi => overwriteEntries_entries hi

theorem overwriteEntries_covers (h : src.Covers entry) :
    (overwriteEntries dst src).Covers entry := by
  obtain ⟨i, hi, hchan, hvalue⟩ := h
  refine ⟨i, hi, ?_, ?_⟩
  · rw [overwriteEntries_entries hi]
    exact hchan
  · rw [overwriteEntries_entries hi]
    exact hvalue

/-! ## What the trackers answer for -/

/-- A well-formed tracker covers each of the pairs, unless its work is complete. -/
structure Tracked (w : TrackerWorld) (t : Tracker) (added : Set TrackerEntry) : Prop where
  wf : t.Wf
  covered : ∀ entry ∈ added, t.Covers entry ∨ w.Completed entry

theorem Tracked.keep {r : Tracker × TrackerWorld} (h : Tracked w t added) (hkeep : KeepSpec t w r) :
    Tracked r.2 r.1 added where
  wf := hkeep.wf
  covered := by
    intro entry hentry
    rcases h.covered entry hentry with hcov | hdone
    · exact hkeep.carries.covers hcov
    · exact Or.inr (hdone.mono hkeep.le)

theorem Tracked.later (h : Tracked w t added) (hle : w.Le w') : Tracked w' t added :=
  h.keep (RemoveSpec.later h.wf hle).keep

theorem Tracked.none (hwf : t.Wf) : Tracked w t ∅ := ⟨hwf, fun _ h => absurd h (Set.notMem_empty _)⟩

theorem Tracked.add {r : NvStatus × Tracker × TrackerWorld} (h : Tracked w t added)
    (hadd : AddSpec t entry w r) :
    Tracked r.2.2 r.2.1 (if some r.1 = some .ok then insert entry added else added) := by
  split
  case isTrue hok =>
    refine ⟨hadd.wf, fun other hother => ?_⟩
    rcases Set.mem_insert_iff.mp hother with rfl | hold
    · exact Or.inl (hadd.covers (Option.some.inj hok))
    · exact (h.keep hadd.toKeepSpec).covered other hold
  case isFalse => exact h.keep hadd.toKeepSpec

namespace TrackerState

variable {s s' : TrackerState}

/-- Every tracker is well formed and covers the pairs it answers for, unless they are complete. -/
def Sound (s : TrackerState) : Prop := ∀ id, Tracked s.world (s.trackers id) (s.added id)

theorem sound_init (world : TrackerWorld) : (init world).Sound :=
  fun _ => .none Tracker.wf_init

theorem Sound.frame (h : s.Sound) (hle : s.world.Le s'.world)
    (hwritten : ∀ id, (s'.trackers id = s.trackers id ∧ s'.added id = s.added id) ∨
      Tracked s'.world (s'.trackers id) (s'.added id)) : s'.Sound := by
  intro id
  rcases hwritten id with ⟨htracker, hadded⟩ | htracked
  · rw [htracker, hadded]
    exact (h id).later hle
  · exact htracked

theorem Sound.write (h : s.Sound) (id : ℕ) (hle : s.world.Le w) (htracked : Tracked w t added) :
    ({ s.set id t w with added := update s.added id added } : TrackerState).Sound := by
  refine h.frame hle fun other => ?_
  by_cases heq : other = id
  · subst heq
    refine Or.inr ?_
    dsimp only [set]
    rw [update_self, update_self]
    exact htracked
  · refine Or.inl ⟨?_, ?_⟩
    · exact update_of_ne heq _ _
    · exact update_of_ne heq _ _

theorem Sound.set (h : s.Sound) (id : ℕ) (hle : s.world.Le w)
    (htracked : Tracked w t (s.added id)) : (s.set id t w).Sound := by
  have hwrite := h.write id hle htracked
  rw [Function.update_eq_self] at hwrite
  exact hwrite

theorem Sound.credit (h : s.Sound) (id : ℕ)
    (hcovered : ∀ entry ∈ added, (s.trackers id).Covers entry ∨ s.world.Completed entry) :
    ({ s with added := update s.added id added } : TrackerState).Sound := by
  have hwrite := h.write id (Le.refl _) ⟨(h id).wf, hcovered⟩
  rw [TrackerState.set, Function.update_eq_self] at hwrite
  exact hwrite

/-- A wait for one of the trackers. -/
structure WaitSound (s : TrackerState) (id : ℕ) (r : Option NvStatus × TrackerState) : Prop where
  waiting : r.1 = none → r.2.Sound
  waited : r.1 = some .ok → r.2.Sound ∧ ∀ entry ∈ s.added id, r.2.world.Completed entry
  failed : ({ r.2 with added := update s.added id ∅ } : TrackerState).Sound

theorem Sound.wait (h : s.Sound) (iterations id : ℕ) :
    WaitSound s id (s.uvmTrackerWait env iterations id) := by
  have hwait := waitFor_spec env iterations .ok (h id).wf s.world
  refine ⟨fun hwaiting => ?_, fun hwaited => ?_, ?_⟩
  · have hremove := hwait.waiting hwaiting
    exact h.set id hwait.le ((h id).keep hremove.keep)
  · obtain ⟨hremove, hempty⟩ := hwait.waited hwaited
    refine ⟨h.set id hwait.le ((h id).keep hremove.keep), fun entry hentry => ?_⟩
    rcases (h id).covered entry hentry with hcov | hdone
    · exact hremove.completed hempty hcov
    · exact hdone.mono hwait.le
  · exact h.write id hwait.le (.none hwait.wf)

/-- What `uvm_tracker_add_tracker` leaves. -/
structure AddTrackerSound (s : TrackerState) (dst src : ℕ) (r : NvStatus × TrackerState) :
    Prop where
  sound : r.2.Sound
  added : r.2.added = s.added
  covers : r.1 = .ok → ∀ entry ∈ s.added src,
    (r.2.trackers dst).Covers entry ∨ r.2.world.Completed entry
  failed : r.1 ≠ .ok → r.1 = .errNoMemory ∧
    ∀ entry, (s.trackers dst).Holds entry →
      (r.2.trackers dst).Holds entry ∨ r.2.world.Completed entry

theorem Sound.addTracker (h : s.Sound) (dst src : ℕ) :
    AddTrackerSound s dst src (s.uvmTrackerAddTracker env dst src) := by
  unfold uvmTrackerAddTracker
  split
  case isTrue hsame =>
    subst hsame
    exact ⟨h, rfl, fun _ => (h src).covered, fun hfail => absurd rfl hfail⟩
  case isFalse hne =>
    have hadd := addOtherTracker_spec env (h dst).wf (h src).wf s.world
    generalize addOtherTracker env (s.trackers dst) (s.trackers src) s.world = r at hadd
    have hsrc : (s.set src r.2.2.1 r.2.2.2).Sound :=
      h.set src hadd.srcKept.le ((h src).keep hadd.srcKept)
    have hdst : Tracked r.2.2.2 r.2.1 (s.added dst) := (h dst).keep hadd.dstKept
    have hread : ((s.set src r.2.2.1 r.2.2.2).set dst r.2.1 r.2.2.2).trackers dst = r.2.1 :=
      update_self _ _ _
    refine ⟨hsrc.set dst (Le.refl _) hdst, rfl, fun hok entry hentry => ?_, fun hfail => ?_⟩
    · rw [hread]
      rcases (h src).covered entry hentry with hcov | hdone
      · exact hadd.covers hok entry hcov
      · exact Or.inr (hdone.mono hadd.srcKept.le)
    · rw [hread]
      exact hadd.failed hfail

/-- What `uvm_tracker_overwrite` of a tracker with another one leaves. -/
structure OverwriteSound (s : TrackerState) (dst src : ℕ) (r : NvStatus × TrackerState) : Prop where
  cleared : ({ r.2 with added := update s.added dst ∅ } : TrackerState).Sound
  covers : r.1 = .ok → ∀ entry ∈ s.added src,
    (r.2.trackers dst).Covers entry ∨ r.2.world.Completed entry
  failed : r.1 ≠ .ok → r.1 = .errNoMemory

variable {dst : ℕ} {r : NvStatus × TrackerState}

theorem Sound.overwrite (h : s.Sound) {src : ℕ} (hne : dst ≠ src) :
    OverwriteSound s dst src (s.uvmTrackerOverwrite env dst src) := by
  unfold uvmTrackerOverwrite
  dsimp only
  have hsrc : (s.set dst (s.trackers dst).clear s.world).trackers src = s.trackers src :=
    update_of_ne hne.symm _ _
  have hdst : (s.set dst (s.trackers dst).clear s.world).trackers dst = (s.trackers dst).clear :=
    update_self _ _ _
  have hclear := Tracker.wf_clear (s.trackers dst)
  have hresv := reserve_spec env hclear.size_le (s.trackers src).size s.world
  rw [hsrc, hdst]
  change OverwriteSound s dst src
    (let r := uvmTrackerReserve env (s.trackers dst).clear (s.trackers src).size s.world
     if r.1.isOk then
      (.ok, (s.set dst (s.trackers dst).clear s.world).set dst
        (overwriteEntries r.2.1 (s.trackers src)) r.2.2)
     else (r.1, (s.set dst (s.trackers dst).clear s.world).set dst r.2.1 r.2.2))
  generalize uvmTrackerReserve env (s.trackers dst).clear (s.trackers src).size s.world = r
    at hresv
  dsimp only
  -- the destination is written twice
  have hset : ∀ t, (s.set dst (s.trackers dst).clear s.world).set dst t r.2.2 = s.set dst t r.2.2 := by
    intro t
    unfold TrackerState.set
    rw [Function.update_idem]
  rw [hset, hset]
  split
  case isTrue hok =>
    rw [NvStatus.isOk_eq_true] at hok
    have hroom := hresv.room hok
    have hwf : (overwriteEntries r.2.1 (s.trackers src)).Wf :=
      overwriteEntries_wf (h src).wf ((Nat.le_add_left _ _).trans hroom)
    refine ⟨h.write dst hresv.le (.none hwf), fun _ entry hentry => ?_, fun hfail => absurd rfl hfail⟩
    have hread : (s.set dst (overwriteEntries r.2.1 (s.trackers src)) r.2.2).trackers dst =
        overwriteEntries r.2.1 (s.trackers src) := update_self _ _ _
    rw [hread]
    rcases (h src).covered entry hentry with hcov | hdone
    · exact Or.inl (overwriteEntries_covers hcov)
    · exact Or.inr (hdone.mono hresv.le)
  case isFalse hfail =>
    rw [NvStatus.isOk_eq_true] at hfail
    have hwf := (hresv.removes hclear).wf
    exact ⟨h.write dst hresv.le (.none hwf), fun hok => absurd hok hfail,
      fun _ => (hresv.failed hfail).1⟩

theorem AddTrackerSound.credit {src : ℕ} (h : AddTrackerSound s dst src r) (hok : r.1 = .ok) :
    ({ r.2 with added := update s.added dst (s.added dst ∪ s.added src) } :
      TrackerState).Sound := by
  rw [← h.added]
  apply h.sound.credit
  rintro entry (hdst | hsrc)
  · exact (h.sound dst).covered entry hdst
  · rw [h.added] at hsrc
    exact h.covers hok entry hsrc

theorem OverwriteSound.credit {src : ℕ} (h : OverwriteSound s dst src r) (hok : r.1 = .ok) :
    ({ r.2 with added := update s.added dst (s.added src) } : TrackerState).Sound := by
  have hcredit := h.cleared.credit dst (h.covers hok)
  rwa [Function.update_idem] at hcredit

theorem AddTrackerSound.safe {src : ℕ} (h : AddTrackerSound s dst src r) (iterations : ℕ) :
    ({ (waitIfNoMemory env iterations src r).2 with
        added := (TrackerOp.addTrackerSafe dst src iterations).addedAfter s.added
          (waitIfNoMemory env iterations src r).1 } : TrackerState).Sound := by
  unfold waitIfNoMemory
  split
  case isFalse hmemory =>
    have hok : r.1 = .ok := by
      by_contra hfail
      exact hmemory (h.failed hfail).1
    simp only [hok]
    exact h.credit hok
  case isTrue =>
    have hwait := h.sound.wait env iterations src
    have hadded : (r.2.uvmTrackerWait env iterations src).2.added = s.added := h.added
    unfold TrackerOp.addedAfter
    dsimp only
    split
    case h_1 hwaiting =>
      rw [← hadded]
      exact hwait.waiting hwaiting
    case h_2 hwaited =>
      -- everything that the source answered for is complete
      obtain ⟨hsound, hdone⟩ := hwait.waited hwaited
      rw [← hadded]
      apply hsound.credit
      rintro entry (hdst | hsrc)
      · exact (hsound dst).covered entry hdst
      · rw [hadded, ← h.added] at hsrc
        exact Or.inr (hdone entry hsrc)
    case h_3 =>
      rw [← h.added]
      exact hwait.failed

theorem OverwriteSound.safe {src : ℕ} (h : OverwriteSound s dst src r) (hne : dst ≠ src)
    (iterations : ℕ) :
    ({ (waitIfNoMemory env iterations src r).2 with
        added := (TrackerOp.overwriteSafe dst src iterations).addedAfter s.added
          (waitIfNoMemory env iterations src r).1 } : TrackerState).Sound := by
  unfold waitIfNoMemory
  split
  case isFalse hmemory =>
    have hok : r.1 = .ok := by
      by_contra hfail
      exact hmemory (h.failed hfail)
    simp only [hok]
    exact h.credit hok
  case isTrue =>
    have hwait := h.cleared.wait env iterations src
    unfold TrackerOp.addedAfter
    dsimp only
    split
    case h_1 hwaiting => exact hwait.waiting hwaiting
    case h_2 hwaited =>
      obtain ⟨hsound, hdone⟩ := hwait.waited hwaited
      have hsrc : ∀ entry ∈ s.added src, entry ∈ update s.added dst ∅ src := by
        intro entry hentry
        rwa [update_of_ne hne.symm]
      have hcredit := hsound.credit dst fun entry hentry => Or.inr (hdone entry (hsrc entry hentry))
      have hidem : update (update s.added dst ∅) dst (s.added src) =
          update s.added dst (s.added src) := Function.update_idem _ _ _
      rw [← hidem]
      exact hcredit
    case h_3 => exact hwait.failed

theorem Sound.step (h : s.Sound) {op : TrackerOp} (hop : op.OverwritesOther) :
    (s.step env op).Sound := by
  cases op with
  | addEntry id entry =>
    have hadd := addEntry_spec env (h id).wf entry s.world
    exact h.write id hadd.le ((h id).add hadd)
  | addPush id push =>
    have hadd := addEntry_spec env (h id).wf push.trackerEntry s.world
    exact h.write id hadd.le ((h id).add hadd)
  | addTracker dst src =>
    have hadd := h.addTracker env dst src
    unfold TrackerState.step TrackerState.apply TrackerOp.addedAfter
    dsimp only
    split
    case isTrue hok => exact hadd.credit (Option.some.inj hok)
    case isFalse =>
      rw [Function.update_eq_self, ← hadd.added]
      exact hadd.sound
  | addTrackerSafe dst src iterations => exact (h.addTracker env dst src).safe env iterations
  | overwrite dst src =>
    have hoverwrite := h.overwrite env hop
    unfold TrackerState.step TrackerState.apply TrackerOp.addedAfter
    dsimp only
    split
    case isTrue hok => exact hoverwrite.credit (Option.some.inj hok)
    case isFalse => exact hoverwrite.cleared
  | overwriteSafe dst src iterations => exact (h.overwrite env hop).safe env hop iterations
  | removeCompleted id =>
    have hremove := removeCompleted_spec env (h id).wf s.world
    exact h.set id hremove.le ((h id).keep hremove.keep)
  | wait id iterations =>
    have hwait := h.wait env iterations id
    unfold TrackerState.step TrackerState.apply TrackerOp.addedAfter
    dsimp only
    split
    case h_1 hwaiting => exact hwait.waiting hwaiting
    case h_2 hwaited => exact (hwait.waited hwaited).1
    case h_3 => exact hwait.failed
  | clear id => exact h.write id (Le.refl _) (.none (Tracker.wf_clear _))

theorem Sound.isCompleted (h : s.Sound) {id : ℕ}
    (hcompl : (uvmTrackerIsCompleted env (s.trackers id) s.world).1 = true) :
    ∀ entry ∈ s.added id,
      (uvmTrackerIsCompleted env (s.trackers id) s.world).2.2.Completed entry := by
  have hremove := removeCompleted_spec env (h id).wf s.world
  intro entry hentry
  rcases (h id).covered entry hentry with hcov | hdone
  · exact hremove.completed (of_decide_eq_true hcompl) hcov
  · exact hdone.mono hremove.le

end TrackerState

open TrackerState

/-- **Trackers lose no work**: in every state of every run, whatever allocations fail and however
the channels make progress, a tracker has one entry for each channel at most, and covers each pair
that was added to it, unless the work is complete, or since then the tracker was cleared or
overwritten or a wait for it returned an error.  So all of it is complete when the tracker reports
so, and an addition of a tracker that returns `NV_ERR_NO_MEMORY` takes only completed entries out
of the destination. -/
theorem sound_along (env : TrackerEnv) (world : TrackerWorld) (ops : List TrackerOp)
    (h : ∀ op ∈ ops, op.OverwritesOther) :
    HoldsAlong (step env)
      (fun s => s.Sound ∧
        (∀ id, (uvmTrackerIsCompleted env (s.trackers id) s.world).1 = true →
          ∀ entry ∈ s.added id,
            (uvmTrackerIsCompleted env (s.trackers id) s.world).2.2.Completed entry) ∧
        ∀ dst src, (s.uvmTrackerAddTracker env dst src).1 = .errNoMemory →
          ∀ entry, (s.trackers dst).Holds entry →
            ((s.uvmTrackerAddTracker env dst src).2.trackers dst).Holds entry ∨
              (s.uvmTrackerAddTracker env dst src).2.world.Completed entry)
      (init world) ops := by
  have hmeets : StepsMeet (step env) (fun _ op => op.OverwritesOther) (init world) ops := by
    intro pre op hpre
    exact h op (hpre.subset (by simp))
  refine holds_along_of_meets (step env) (sound_init world) ?_ ?_ hmeets
  · intro s hsound
    refine ⟨hsound, fun id => hsound.isCompleted env, fun dst src hmemory => ?_⟩
    have hfail : (s.uvmTrackerAddTracker env dst src).1 ≠ .ok := by
      rw [hmemory]
      exact nofun
    exact ((hsound.addTracker env dst src).failed hfail).2
  · exact fun s op hsound hop => hsound.step env hop

/-- Channels that make progress, and an allocator that fails. -/
def noMemory : TrackerEnv where
  progress := fun _ _ => 1
  memory := fun _ => none
  errors := fun _ => .ok

theorem sound_along_noMemory : (run (step noMemory) (init ⟨fun _ => 0, 0⟩)
      [.addEntry 0 ⟨some 0, 9⟩, .addEntry 1 ⟨some 1, 9⟩, .addTracker 0 1, .overwriteSafe 2 1 20,
        .addTrackerSafe 0 1 20]).Sound :=
  (sound_along noMemory ⟨fun _ => 0, 0⟩ _ (by decide) _ List.prefix_rfl).1

/-- A channel that makes no progress and has an error. -/
def stuckChannel : TrackerEnv where
  progress := fun _ _ => 0
  memory := fun _ => none
  errors := fun _ => .other 1

/-- A wait that returns an error, or a clear, leaves a tracker that reports completed, though the
work that was added to it is not. -/
theorem wait_or_clear_forgets :
    ((init ⟨fun _ => 0, 0⟩).apply stuckChannel (.addEntry 0 ⟨some 0, 1⟩)).1 = some .ok ∧
      ∀ last ∈ [TrackerOp.wait 0 2, .clear 0],
        let s := run (step stuckChannel) (init ⟨fun _ => 0, 0⟩) [.addEntry 0 ⟨some 0, 1⟩, last]
        (uvmTrackerIsCompleted stuckChannel (s.trackers 0) s.world).1 = true ∧
          ¬ (uvmTrackerIsCompleted stuckChannel (s.trackers 0) s.world).2.2.Completed
            ⟨some 0, 1⟩ := by
  refine ⟨by decide, fun last hlast => ⟨?_, fun h => ?_⟩⟩
  · revert last
    decide
  · have hdone := h 0 rfl
    clear h
    revert last
    decide

end NvUvm
