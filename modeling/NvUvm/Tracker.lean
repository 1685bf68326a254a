import Mathlib.Data.Nat.Log
import Mathlib.Data.List.Basic
import NvUvm.Processor

/-!
# Trackers

Model of the trackers of pushes (`uvm8_tracker.c`).  A tracker holds entries, a channel and a value
of its tracking semaphore, first in an array of one that is part of the tracker and later in one
from the heap.  Entries of one channel are merged, completed ones are replaced by the last one, and
every allocation can fail.
-/

namespace NvUvm

open Function (update update_of_ne update_self)

/-- `uvm_tracker_entry_t`.  The channel is `none` for `NULL`. -/
structure TrackerEntry where
  channel : Option ℕ
  value : ℕ
  deriving DecidableEq, Repr

/-- `uvm_tracker_t`.  The two arrays are a union in the source: `maxSize` says which one is
meant. -/
structure Tracker where
  staticEntries : ℕ → TrackerEntry
  dynamicEntries : ℕ → TrackerEntry
  size : ℕ
  maxSize : ℕ

/-- What the tracker code meets at a time: how far each channel gets, what an allocation returns
(`none` is a failed one), and what the checks for errors find. -/
structure TrackerEnv where
  progress : ℕ → ℕ → ℕ
  memory : ℕ → Option (ℕ → TrackerEntry)
  errors : ℕ → NvStatus

/-- The completed value of each channel, and the time. -/
structure TrackerWorld where
  completed : ℕ → ℕ
  clock : ℕ

namespace TrackerWorld

def tick (env : TrackerEnv) (w : TrackerWorld) : TrackerWorld where
  completed := fun channel => w.completed channel + env.progress w.clock channel
  clock := w.clock + 1

def Completed (w : TrackerWorld) (entry : TrackerEntry) : Prop :=
  ∀ channel, entry.channel = some channel → entry.value ≤ w.completed channel

/-- Time has passed between two worlds: nothing that was complete is not. -/
def Le (w w' : TrackerWorld) : Prop := ∀ channel, w.completed channel ≤ w'.completed channel

variable {w w' w'' : TrackerWorld}

theorem Le.refl (w : TrackerWorld) : w.Le w := fun _ => le_rfl

theorem Le.trans (h : w.Le w') (h' : w'.Le w'') : w.Le w'' :=
  fun channel => (h channel).trans (h' channel)

theorem le_tick (w : TrackerWorld) (env : TrackerEnv) : w.Le (w.tick env) := fun _ => Nat.le_add_right _ _

theorem Completed.mono {entry : TrackerEntry} (h : w.Completed entry) (hle : w.Le w') :
    w'.Completed entry :=
  fun channel hchan => (h channel hchan).trans (hle channel)

end TrackerWorld

namespace Tracker

variable (t : Tracker)

/-- `tracker_is_using_static_entries`. -/
def isUsingStaticEntries : Bool := decide (t.maxSize = 1)

/-- `uvm_tracker_get_entries`. -/
def entries (i : ℕ) : TrackerEntry :=
  if t.isUsingStaticEntries then t.staticEntries i else t.dynamicEntries i

def setEntries (entries : ℕ → TrackerEntry) : Tracker :=
  if t.isUsingStaticEntries then { t with staticEntries := entries }
  else { t with dynamicEntries := entries }

/-- The entries that `for_each_tracker_entry` goes through. -/
def toList : List TrackerEntry := (List.range t.size).map t.entries

/-- `uvm_tracker_init`. -/
def init : Tracker where
  staticEntries := fun _ => ⟨none, 0⟩
  dynamicEntries := fun _ => ⟨none, 0⟩
  size := 0
  maxSize := 1

/-- `uvm_tracker_clear`. -/
def clear : Tracker := { t with size := 0 }

end Tracker

section Operations

variable (env : TrackerEnv)

def uvmTrackerIsEntryCompleted (entry : TrackerEntry) (w : TrackerWorld) : Bool × TrackerWorld :=
  match entry.channel with
  | none => (true, w)
  | some channel =>
    (decide (entry.value ≤ (w.tick env).completed channel), w.tick env)

def uvmTrackerReserve (t : Tracker) (minFreeEntries : ℕ) (w : TrackerWorld) :
    NvStatus × Tracker × TrackerWorld :=
  if t.maxSize < t.size + minFreeEntries then
    match env.memory w.clock with
    | none => (.errNoMemory, t, w.tick env)
    | some newEntries =>
      -- `kvmalloc` and `memcpy` keep the used entries, `kvrealloc` the whole old array
      let kept := if t.isUsingStaticEntries then t.size else t.maxSize
      (.ok,
        { t with
          dynamicEntries := fun i => if i < kept then t.entries i else newEntries i
          maxSize := max 8 (2 ^ Nat.clog 2 (t.size + minFreeEntries)) },
        w.tick env)
  else (.ok, t, w)

/-- `get_new_entry`, and the write of the new entry by its caller. -/
def addNewEntry (t : Tracker) (newEntry : TrackerEntry) (w : TrackerWorld) :
    NvStatus × Tracker × TrackerWorld :=
  let r := uvmTrackerReserve env t 1 w
  if r.1.isOk then
    (.ok,
      { r.2.1.setEntries (update r.2.1.entries r.2.1.size newEntry) with
        size := r.2.1.size + 1 },
      r.2.2)
  else (.errNoMemory, r.2)

def uvmTrackerAddEntry (t : Tracker) (newEntry : TrackerEntry) (w : TrackerWorld) :
    NvStatus × Tracker × TrackerWorld :=
  match (List.range t.size).find? (fun i => (t.entries i).channel = newEntry.channel) with
  | some i =>
    let merged : TrackerEntry :=
      ⟨(t.entries i).channel, max (t.entries i).value newEntry.value⟩
    (.ok, t.setEntries (update t.entries i merged), w)
  | none => addNewEntry env t newEntry w

/-- The loop of `uvm_tracker_remove_completed` at index `i`, with `left` entries not looked at. -/
def removeCompletedFrom : ℕ → ℕ → Tracker → TrackerWorld → Tracker × TrackerWorld
  | 0, _, t, w => (t, w)
  | left + 1, i, t, w =>
    let r := uvmTrackerIsEntryCompleted env (t.entries i) w
    if r.1 then
      -- the last entry takes the place of the completed one
      let last := t.entries (t.size - 1)
      removeCompletedFrom left i
        { t.setEntries (update t.entries i last) with size := t.size - 1 } r.2
    else removeCompletedFrom left (i + 1) t r.2

def uvmTrackerRemoveCompleted (t : Tracker) (w : TrackerWorld) : Tracker × TrackerWorld :=
  removeCompletedFrom env t.size 0 t w

def uvmTrackerIsCompleted (t : Tracker) (w : TrackerWorld) : Bool × Tracker × TrackerWorld :=
  let r := uvmTrackerRemoveCompleted env t w
  (decide (r.1.size = 0), r)

/-- The loop of `uvm_tracker_wait`, for at most the given number of iterations.  The status is
`none` while the thread is still waiting. -/
def waitFor : ℕ → NvStatus → Tracker → TrackerWorld → Option NvStatus × Tracker × TrackerWorld
  | 0, _, t, w => (none, t, w)
  | left + 1, status, t, w =>
    let r := uvmTrackerIsCompleted env t w
    if !r.1 && status.isOk then
      waitFor left (env.errors r.2.2.clock) r.2.1 (r.2.2.tick env)
    -- the entries are removed on failure too
    else (some status, if status.isOk then r.2.1 else r.2.1.clear, r.2.2)

def uvmTrackerWait (iterations : ℕ) (t : Tracker) (w : TrackerWorld) :
    Option NvStatus × Tracker × TrackerWorld :=
  waitFor env iterations .ok t w

end Operations

namespace Tracker

def Holds (t : Tracker) (entry : TrackerEntry) : Prop := ∃ i < t.size, t.entries i = entry

/-- An entry of the same channel has a value at least as large. -/
def Covers (t : Tracker) (entry : TrackerEntry) : Prop :=
  ∃ i < t.size, (t.entries i).channel = entry.channel ∧ entry.value ≤ (t.entries i).value

/-- The entries fit, and there is one for each channel at most. -/
structure Wf (t : Tracker) : Prop where
  size_le : t.size ≤ t.maxSize
  distinct : ∀ i < t.size, ∀ j < t.size, (t.entries i).channel = (t.entries j).channel → i = j

variable {t : Tracker} {entry : TrackerEntry}

theorem Holds.covers (h : t.Holds entry) : t.Covers entry := by
  obtain ⟨i, hi, rfl⟩ := h
  exact ⟨i, hi, rfl, le_rfl⟩

theorem mem_toList : entry ∈ t.toList ↔ t.Holds entry := by
  simp [toList, Holds]

theorem Wf.congr {t' : Tracker} (h : t.Wf) (hsize : t'.size = t.size)
    (hmax : t'.size ≤ t'.maxSize) (hents : ∀ i < t.size, t'.entries i = t.entries i) :
    t'.Wf where
  size_le := hmax
  distinct := by
    intro i hi j hj hchan
    rw [hsize] at hi hj
    rw [hents i hi, hents j hj] at hchan
    exact h.distinct i hi j hj hchan

@[simp] theorem setEntries_entries (entries : ℕ → TrackerEntry) :
    (t.setEntries entries).entries = entries := by
  unfold setEntries Tracker.entries isUsingStaticEntries
  split <;> simp_all

@[simp] theorem setEntries_size (entries : ℕ → TrackerEntry) :
    (t.setEntries entries).size = t.size := by
  unfold setEntries
  split <;> rfl

@[simp] theorem setEntries_maxSize (entries : ℕ → TrackerEntry) :
    (t.setEntries entries).maxSize = t.maxSize := by
  unfold setEntries
  split <;> rfl

theorem entries_withSize (size : ℕ) : ({ t with size := size } : Tracker).entries = t.entries := by
  rfl

theorem wf_init : init.Wf := ⟨Nat.zero_le _, fun _ hi => absurd hi (Nat.not_lt_zero _)⟩

theorem wf_clear (t : Tracker) : t.clear.Wf :=
  ⟨Nat.zero_le _, fun _ hi => absurd hi (Nat.not_lt_zero _)⟩

end Tracker

open TrackerWorld

/-- From one tracker to another, no entry is lost that is not complete. -/
def Carries (w : TrackerWorld) (t t' : Tracker) : Prop :=
  ∀ entry, t.Holds entry → t'.Covers entry ∨ w.Completed entry

variable (env : TrackerEnv) {w w' w'' : TrackerWorld} {t t' t'' : Tracker} {entry : TrackerEntry}

theorem Carries.covers (h : Carries w t t') (hcov : t.Covers entry) :
    t'.Covers entry ∨ w.Completed entry := by
  obtain ⟨i, hi, hchan, hvalue⟩ := hcov
  rcases h (t.entries i) ⟨i, hi, rfl⟩ with ⟨j, hj, hchannel', hvalue'⟩ | hdone
  · exact Or.inl ⟨j, hj, hchannel'.trans hchan, hvalue.trans hvalue'⟩
  · exact Or.inr fun channel heq => hvalue.trans (hdone channel (hchan.trans heq))

theorem Carries.refl (w : TrackerWorld) (t : Tracker) : Carries w t t :=
  fun _ h => Or.inl h.covers

theorem Carries.trans (h : Carries w t t') (h' : Carries w' t' t'') (hle : w.Le w') :
    Carries w' t t'' := by
  intro entry hentry
  rcases h entry hentry with hcov | hdone
  · exact h'.covers hcov
  · exact Or.inr (hdone.mono hle)

theorem Carries.of_eq (w : TrackerWorld) (hsize : t.size ≤ t'.size)
    (hents : ∀ i < t.size, t'.entries i = t.entries i) : Carries w t t' := by
  rintro entry ⟨i, hi, rfl⟩
  exact Or.inl ⟨i, hi.trans_le hsize, by rw [hents i hi], by rw [hents i hi]⟩

/-! ## One operation after another -/

theorem isEntryCompleted_spec (entry : TrackerEntry) (w : TrackerWorld) :
    w.Le (uvmTrackerIsEntryCompleted env entry w).2 ∧
      ((uvmTrackerIsEntryCompleted env entry w).1 = true →
        (uvmTrackerIsEntryCompleted env entry w).2.Completed entry) := by
  unfold uvmTrackerIsEntryCompleted
  cases hchan : entry.channel with
  | none =>
    refine ⟨Le.refl w, fun _ channel heq => ?_⟩
    rw [hchan] at heq
    cases heq
  | some channel =>
    refine ⟨w.le_tick env, fun hdone channel' heq => ?_⟩
    rw [hchan] at heq
    obtain rfl := Option.some.inj heq
    exact of_decide_eq_true hdone

/-- What `uvm_tracker_reserve` leaves: the entries as they were, with room for more if it returns
success, and nothing changed otherwise. -/
structure ReserveSpec (t : Tracker) (minFreeEntries : ℕ) (w : TrackerWorld)
    (r : NvStatus × Tracker × TrackerWorld) : Prop where
  le : w.Le r.2.2
  size : r.2.1.size = t.size
  maxSize : t.maxSize ≤ r.2.1.maxSize
  entries : ∀ i < t.size, r.2.1.entries i = t.entries i
  room : r.1 = .ok → r.2.1.size + minFreeEntries ≤ r.2.1.maxSize
  failed : r.1 ≠ .ok → r.1 = .errNoMemory ∧ r.2.1 = t

theorem reserve_spec (hsize : t.size ≤ t.maxSize) (minFreeEntries : ℕ) (w : TrackerWorld) :
    ReserveSpec t minFreeEntries w (uvmTrackerReserve env t minFreeEntries w) := by
  unfold uvmTrackerReserve
  split
  case isFalse hroom =>
    exact ⟨Le.refl w, rfl, le_rfl, fun _ _ => rfl, fun _ => Nat.le_of_not_lt hroom,
      fun h => absurd rfl h⟩
  case isTrue hfull =>
    cases hmemory : env.memory w.clock with
    | none =>
      exact ⟨w.le_tick env, rfl, le_rfl, fun _ _ => rfl, nofun, fun _ => ⟨rfl, rfl⟩⟩
    | some newEntries =>
      have hpow : t.size + minFreeEntries ≤ 2 ^ Nat.clog 2 (t.size + minFreeEntries) :=
        Nat.le_pow_clog (by decide) _
      have hroom := hpow.trans (le_max_right 8 _)
      refine ⟨w.le_tick env, rfl, hfull.le.trans hroom, ?_, fun _ => hroom, fun h => absurd rfl h⟩
      intro i hi
      -- the new maximum is not that of the embedded array
      have hheap : max 8 (2 ^ Nat.clog 2 (t.size + minFreeEntries)) ≠ 1 := by
        omega
      have hkept : i < if t.isUsingStaticEntries then t.size else t.maxSize := by
        split
        · exact hi
        · exact hi.trans_le hsize
      conv_lhs => unfold Tracker.entries Tracker.isUsingStaticEntries
      rw [decide_eq_false hheap]
      exact if_pos hkept

/-- What an operation that adds no entry leaves. -/
structure KeepSpec (t : Tracker) (w : TrackerWorld) (r : Tracker × TrackerWorld) : Prop where
  le : w.Le r.2
  wf : r.1.Wf
  carries : Carries r.2 t r.1

/-- What an operation that adds an entry leaves. -/
structure AddSpec (t : Tracker) (entry : TrackerEntry) (w : TrackerWorld)
    (r : NvStatus × Tracker × TrackerWorld) : Prop extends KeepSpec t w r.2 where
  covers : r.1 = .ok → r.2.1.Covers entry
  failed : r.1 ≠ .ok → r.1 = .errNoMemory ∧ r.2.1 = t

theorem addNewEntry_spec (hwf : t.Wf) (hnew : ∀ i < t.size, (t.entries i).channel ≠ entry.channel)
    (w : TrackerWorld) : AddSpec t entry w (addNewEntry env t entry w) := by
  have hresv := reserve_spec env hwf.size_le 1 w
  unfold addNewEntry
  generalize uvmTrackerReserve env t 1 w = r at hresv
  dsimp only
  split
  case isFalse hfail =>
    rw [NvStatus.isOk_eq_true] at hfail
    obtain ⟨-, hsame⟩ := hresv.failed hfail
    refine ⟨⟨hresv.le, ?_, ?_⟩, nofun, fun _ => ⟨rfl, hsame⟩⟩
    · rw [hsame]; exact hwf
    · rw [hsame]; exact Carries.refl _ t
  case isTrue hok =>
    rw [NvStatus.isOk_eq_true] at hok
    have hroom := hresv.room hok
    have hsize := hresv.size
    -- the entries before the new one are the old ones
    have hold : ∀ i < t.size, update r.2.1.entries r.2.1.size entry i = t.entries i := by
      intro i hi
      rw [update_of_ne (by omega), hresv.entries i hi]
    have hlast : update r.2.1.entries r.2.1.size entry t.size = entry := by
      rw [hsize, update_self]
    refine ⟨⟨hresv.le, ⟨?_, ?_⟩, ?_⟩, fun _ => ?_, fun h => absurd rfl h⟩
    · simpa using hroom
    · intro i hi j hj hchan
      rw [Tracker.entries_withSize, Tracker.setEntries_entries] at hchan
      rcases Nat.lt_succ_iff_lt_or_eq.mp (hsize ▸ hi) with hi | rfl
      · rcases Nat.lt_succ_iff_lt_or_eq.mp (hsize ▸ hj) with hj | rfl
        · rw [hold i hi, hold j hj] at hchan
          exact hwf.distinct i hi j hj hchan
        · rw [hold i hi, hlast] at hchan
          exact absurd hchan (hnew i hi)
      · rcases Nat.lt_succ_iff_lt_or_eq.mp (hsize ▸ hj) with hj | rfl
        · rw [hold j hj, hlast] at hchan
          exact absurd hchan.symm (hnew j hj)
        · rfl
    · apply Carries.of_eq
      · exact Nat.le_succ_of_le hsize.ge
      · intro i hi
        rw [Tracker.entries_withSize, Tracker.setEntries_entries]
        exact hold i hi
    · refine ⟨t.size, ?_, ?_, ?_⟩
      · exact Nat.lt_succ_of_le hsize.ge
      · rw [Tracker.entries_withSize, Tracker.setEntries_entries, hlast]
      · rw [Tracker.entries_withSize, Tracker.setEntries_entries, hlast]

theorem merge_keeps (hwf : t.Wf) (i : ℕ) (merged : TrackerEntry)
    (hchan : merged.channel = (t.entries i).channel) (hvalue : (t.entries i).value ≤ merged.value)
    (w : TrackerWorld) : KeepSpec t w (t.setEntries (update t.entries i merged), w) := by
  have hchans : ∀ j, (update t.entries i merged j).channel = (t.entries j).channel := by
    intro j
    by_cases hj : j = i
    · rw [hj, update_self, hchan]
    · rw [update_of_ne hj]
  refine ⟨Le.refl w, ⟨?_, ?_⟩, ?_⟩
  · simpa using hwf.size_le
  · intro j hj k hk heq
    rw [Tracker.setEntries_entries, hchans, hchans] at heq
    exact hwf.distinct j (by simpa using hj) k (by simpa using hk) heq
  · rintro entry ⟨j, hj, rfl⟩
    refine Or.inl ⟨j, by simpa using hj, ?_, ?_⟩
    · rw [Tracker.setEntries_entries, hchans]
    · rw [Tracker.setEntries_entries]
      by_cases hji : j = i
      · rw [hji, update_self]
        exact hvalue
      · rw [update_of_ne hji]

theorem addEntry_spec (hwf : t.Wf) (entry : TrackerEntry) (w : TrackerWorld) :
    AddSpec t entry w (uvmTrackerAddEntry env t entry w) := by
  unfold uvmTrackerAddEntry
  split
  case h_1 i hfind =>
    have hi : i < t.size := List.mem_range.mp (List.mem_of_find?_eq_some hfind)
    have hchan : (t.entries i).channel = entry.channel := by
      simpa using List.find?_some hfind
    have hkeep := merge_keeps hwf i ⟨(t.entries i).channel, max (t.entries i).value entry.value⟩
      rfl (le_max_left _ _) w
    refine ⟨hkeep, fun _ => ?_, fun h => absurd rfl h⟩
    refine ⟨i, by simpa using hi, ?_, ?_⟩
    · dsimp only
      rw [Tracker.setEntries_entries, update_self]
      exact hchan
    · dsimp only
      rw [Tracker.setEntries_entries, update_self]
      exact le_max_right _ _
  case h_2 hnone =>
    apply addNewEntry_spec env hwf
    intro i hi hchan
    have h := List.find?_eq_none.mp hnone i (List.mem_range.mpr hi)
    exact h (by simpa using hchan)

/-- What an operation that only takes entries out leaves: the entries it takes out are complete. -/
structure RemoveSpec (t : Tracker) (w : TrackerWorld) (r : Tracker × TrackerWorld) : Prop where
  le : w.Le r.2
  wf : r.1.Wf
  retains : ∀ entry, t.Holds entry → r.1.Holds entry ∨ r.2.Completed entry

variable {r : Tracker × TrackerWorld}

theorem RemoveSpec.keep (h : RemoveSpec t w r) : KeepSpec t w r where
  le := h.le
  wf := h.wf
  carries := fun entry hentry => (h.retains entry hentry).imp Tracker.Holds.covers id

theorem RemoveSpec.trans {r' : Tracker × TrackerWorld} (h : RemoveSpec t w r)
    (h' : RemoveSpec r.1 r.2 r') : RemoveSpec t w r' where
  le := h.le.trans h'.le
  wf := h'.wf
  retains := by
    intro entry hentry
    rcases h.retains entry hentry with hheld | hdone
    · exact h'.retains entry hheld
    · exact Or.inr (hdone.mono h'.le)

theorem RemoveSpec.later (hwf : t.Wf) (hle : w.Le w') : RemoveSpec t w (t, w') :=
  ⟨hle, hwf, fun _ => Or.inl⟩

theorem replaceWithLast_removes (hwf : t.Wf) {i : ℕ} (hi : i < t.size)
    (hdone : w.Completed (t.entries i)) :
    RemoveSpec t w
      ({ t.setEntries (update t.entries i (t.entries (t.size - 1))) with
          size := t.size - 1 }, w) := by
  -- where an entry of the new tracker comes from
  have hfrom : ∀ j < t.size - 1, ∃ k < t.size, (k = if j = i then t.size - 1 else j) ∧
      update t.entries i (t.entries (t.size - 1)) j = t.entries k := by
    intro j hj
    by_cases hji : j = i
    · refine ⟨t.size - 1, by omega, by rw [if_pos hji], ?_⟩
      rw [hji, update_self]
    · refine ⟨j, by omega, by rw [if_neg hji], ?_⟩
      rw [update_of_ne hji]
  refine ⟨Le.refl w, ⟨?_, ?_⟩, ?_⟩
  · have := hwf.size_le
    simp only [Tracker.setEntries_maxSize]
    omega
  · intro j hj k hk hchan
    dsimp only at hj hk
    rw [Tracker.entries_withSize, Tracker.setEntries_entries] at hchan
    obtain ⟨j', hj', hjEq, hjEntry⟩ := hfrom j hj
    obtain ⟨k', hk', hkEq, hkEntry⟩ := hfrom k hk
    rw [hjEntry, hkEntry] at hchan
    have hsame := hwf.distinct j' hj' k' hk' hchan
    split at hjEq
    · split at hkEq
      · omega
      · omega
    · split at hkEq
      · omega
      · omega
  · rintro entry ⟨j, hj, rfl⟩
    by_cases hji : j = i
    · rw [hji]
      exact Or.inr hdone
    · -- the last entry is found at `i`, every other one where it was
      have hplace : ∃ k < t.size - 1,
          update t.entries i (t.entries (t.size - 1)) k = t.entries j := by
        by_cases hlast : j = t.size - 1
        · exact ⟨i, by omega, by rw [update_self, hlast]⟩
        · exact ⟨j, by omega, update_of_ne hji _ _⟩
      obtain ⟨k, hk, hentry⟩ := hplace
      refine Or.inl ⟨k, hk, ?_⟩
      rw [Tracker.entries_withSize, Tracker.setEntries_entries, hentry]

theorem removeCompletedFrom_spec (left i : ℕ) (hwf : t.Wf) (hleft : i + left = t.size)
    (w : TrackerWorld) : RemoveSpec t w (removeCompletedFrom env left i t w) := by
  induction left generalizing i t w with
  | zero => exact .later hwf (Le.refl w)
  | succ left ih =>
    obtain ⟨hle, hcompl⟩ := isEntryCompleted_spec env (t.entries i) w
    unfold removeCompletedFrom
    generalize uvmTrackerIsEntryCompleted env (t.entries i) w = r at hle hcompl
    dsimp only
    split
    case isTrue hdone =>
      have hremove := replaceWithLast_removes hwf (i := i) (by omega) (hcompl hdone)
      have hrest := ih i hremove.wf (by dsimp only; omega) r.2
      exact ((RemoveSpec.later hwf hle).trans hremove).trans hrest
    case isFalse =>
      have hrest := ih (i + 1) hwf (by omega) r.2
      exact (RemoveSpec.later hwf hle).trans hrest

theorem removeCompleted_spec (hwf : t.Wf) (w : TrackerWorld) :
    RemoveSpec t w (uvmTrackerRemoveCompleted env t w) :=
  removeCompletedFrom_spec env t.size 0 hwf (Nat.zero_add _) w

theorem RemoveSpec.completed (h : RemoveSpec t w r) (hempty : r.1.size = 0)
    (hcov : t.Covers entry) : r.2.Completed entry := by
  rcases h.keep.carries.covers hcov with ⟨i, hi, -⟩ | hdone
  · omega
  · exact hdone

/-- `uvm_tracker_wait`: it loses no entry but completed ones unless it returns an error, and when it
returns success everything is complete. -/
structure WaitSpec (t : Tracker) (w : TrackerWorld) (r : Option NvStatus × Tracker × TrackerWorld) :
    Prop where
  le : w.Le r.2.2
  wf : r.2.1.Wf
  waiting : r.1 = none → RemoveSpec t w r.2
  waited : r.1 = some .ok → RemoveSpec t w r.2 ∧ r.2.1.size = 0

theorem waitFor_spec (left : ℕ) (status : NvStatus) (hwf : t.Wf) (w : TrackerWorld) :
    WaitSpec t w (waitFor env left status t w) := by
  induction left generalizing status t w with
  | zero => exact ⟨Le.refl w, hwf, fun _ => .later hwf (Le.refl w), nofun⟩
  | succ left ih =>
    have hremove := removeCompleted_spec env hwf w
    unfold waitFor uvmTrackerIsCompleted
    generalize uvmTrackerRemoveCompleted env t w = r at hremove
    dsimp only
    split
    case isTrue =>
      have hlater := hremove.trans (.later hremove.wf (r.2.le_tick env))
      have hrest := ih (env.errors r.2.clock) hremove.wf (r.2.tick env)
      exact ⟨hlater.le.trans hrest.le, hrest.wf, fun h => hlater.trans (hrest.waiting h),
        fun h => ⟨hlater.trans (hrest.waited h).1, (hrest.waited h).2⟩⟩
    case isFalse hleave =>
      by_cases hok : status = .ok
      · subst hok
        have hempty : r.1.size = 0 := by
          by_contra hne
          exact hleave (by simp [hne])
        exact ⟨hremove.le, hremove.wf, nofun, fun _ => ⟨hremove, hempty⟩⟩
      · have hfail : status.isOk = false := by
          cases status with
          | ok => exact absurd rfl hok
          | _ => rfl
        rw [hfail]
        exact ⟨hremove.le, Tracker.wf_clear _, nofun, fun h => absurd (Option.some.inj h) hok⟩

end NvUvm
