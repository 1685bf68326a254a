import NvUvm.Lib.Run
import NvUvm.Lib.SearchTree
import NvUvm.LiteProgress

/-!
# Trackers of UVM-Lite

Model of the trackers of `uvm_channel_mgmt.c`.  A tracker keeps its used and its free items on one
list, the used ones first; `usedTail` points to the last used item, or to the head of the list where
there is none.

The items are numbered; the state holds the channel and the sequence number of each, the trackers,
and the progress of the channels.  `owed` is not part of the code: it lists what was merged into each
tracker and neither reset nor overwritten by a move.
-/

namespace NvUvm.LiteTracker

open Lib LiteChannel
open Function (update_of_ne update_self)

/-! ## The state -/

/-- `UvmTracker`; no `usedTail` stands for a pointer to the head of the list. -/
structure Tracker where
  items : List ℕ
  usedTail : Option ℕ
  nTotalItems : ℕ
  nUsedItems : ℕ
  deriving DecidableEq

/-- The trackers, the fields of their items, and the channels: what the driver has seen done, and
what the GPU has completed. -/
structure State (C : Type*) where
  trackers : ℕ → Tracker
  channel : ℕ → Option C
  seqNum : ℕ → ℕ
  nextItem : ℕ
  seqNumDone : C → ℕ
  completed : C → ℕ
  owed : ℕ → List (C × ℕ)

/-- `list_first_entry` behind an entry, or behind the head of the list. -/
def entryAfter (pos : Option ℕ) (items : List ℕ) : Option ℕ :=
  match pos with
  | none => items.head?
  | some x => nextOf x items

/-- `list_add` behind an entry, or behind the head of the list. -/
def listAdd (pos : Option ℕ) (x : ℕ) (items : List ℕ) : List ℕ :=
  match pos with
  | none => x :: items
  | some y => insertAfter y x items

/-- `list_cut_position`: the entries up to a position, and those behind it. -/
def listCutPosition (pos : Option ℕ) : List ℕ → List ℕ × List ℕ
  | [] => ([], [])
  | x :: items =>
    match pos with
    | none => ([], x :: items)
    | some y =>
      if x = y then ([x], items)
      else (x :: (listCutPosition (some y) items).1, (listCutPosition (some y) items).2)

namespace Tracker

variable (tr : Tracker)

/-- `uvm_init_tracker`. -/
def init : Tracker := ⟨[], none, 0, 0⟩

/-- `uvm_reset_tracker`. -/
def reset : Tracker := { tr with nUsedItems := 0, usedTail := none }

/-- The loop of `uvm_shrink_tracker`. -/
def shrinkLoop : ℕ → Tracker → Tracker
  | 0, tr => tr
  | fuel + 1, tr =>
    if tr.nUsedItems < tr.nTotalItems then
      match entryAfter tr.usedTail tr.items with
      | none => tr
      | some x =>
        shrinkLoop fuel
          { tr with items := tr.items.erase x, nTotalItems := tr.nTotalItems - 1 }
    else tr

/-- `uvm_shrink_tracker`; the count falls with each pass. -/
def shrink : Tracker := shrinkLoop tr.nTotalItems tr

/-- Step 3 of `uvm_move_tracker`: items of `temp` go to the tail of `dst` until it has as many as
`temp` had. -/
def topUp (tempTotal : ℕ) : List ℕ → Tracker → List ℕ × Tracker
  | [], dst => ([], dst)
  | x :: temp, dst =>
    if dst.nTotalItems < tempTotal then
      topUp tempTotal temp
        { dst with items := dst.items ++ [x], nTotalItems := dst.nTotalItems + 1 }
    else (x :: temp, dst)

/-- `uvm_move_tracker`, of two trackers: the new `dst` and `src`. -/
def move (dst src : Tracker) : Tracker × Tracker :=
  if src.nUsedItems = 0 then (dst, src)
  else
    let cut := listCutPosition src.usedTail src.items
    let dst' : Tracker :=
      ⟨cut.1, if cut.1.isEmpty then none else src.usedTail, src.nUsedItems, src.nUsedItems⟩
    let topped := topUp dst.nTotalItems dst.items dst'
    let leftOver := dst.nTotalItems - (topped.2.nTotalItems - dst'.nTotalItems)
    (topped.2,
      ⟨topped.1 ++ cut.2, none, src.nTotalItems - src.nUsedItems + leftOver, 0⟩)

/-- `uvm_retire_tracker_item`. -/
def retire (x : ℕ) : Tracker :=
  if tr.usedTail = some x then
    { tr with nUsedItems := tr.nUsedItems - 1, usedTail := prevOf x tr.items }
  else
    { tr with
      nUsedItems := tr.nUsedItems - 1
      items := listAdd tr.usedTail x (tr.items.erase x) }

end Tracker

namespace State

variable {C : Type*} [DecidableEq C] (s : State C)

def setTracker (t : ℕ) (tr : Tracker) : State C :=
  { s with trackers := Function.update s.trackers t tr }

/-- A new item, zeroed, is put behind the last used one. -/
def addItem (t : ℕ) : State C :=
  let tr := s.trackers t
  let s := s.setTracker t
    { tr with items := listAdd tr.usedTail s.nextItem tr.items, nTotalItems := tr.nTotalItems + 1 }
  { s with
    channel := Function.update s.channel s.nextItem none
    seqNum := Function.update s.seqNum s.nextItem 0
    nextItem := s.nextItem + 1 }

/-- `uvm_grow_tracker`, where the first `allocs` allocations succeed. -/
def grow (t nItems : ℕ) : ℕ → State C → NvStatus × State C
  | 0, s => (if (s.trackers t).nTotalItems < nItems then .errNoMemory else .ok, s)
  | allocs + 1, s =>
    if (s.trackers t).nTotalItems < nItems then grow t nItems allocs (s.addItem t) else (.ok, s)

/-- What the search of `uvm_merge_tracker_item` ends with: an item of the same channel, or the
position behind which the free items begin. -/
inductive MergePos where
  | same (x : ℕ)
  | behind (pos : Option ℕ)
  | notFound

/-- The search of `uvm_merge_tracker_item`. -/
def mergeSearch (usedTail : Option ℕ) (c : C) : List ℕ → MergePos
  | [] => .notFound
  | x :: items =>
    if s.channel x = some c then .same x
    else if usedTail = some x then .behind (some x)
    else mergeSearch usedTail c items

/-- `uvm_merge_tracker_item`. -/
def merge (t : ℕ) (c : C) (seq : ℕ) : NvStatus × State C :=
  let tr := s.trackers t
  if tr.nTotalItems = 0 then (.errNoMemory, s)
  else
    match if tr.nUsedItems = 0 then .behind none else s.mergeSearch tr.usedTail c tr.items with
    | .same x =>
      (.ok, if s.seqNum x < seq then { s with seqNum := Function.update s.seqNum x seq } else s)
    | .notFound => (.errNoMemory, s)
    | .behind pos =>
      if tr.nUsedItems < tr.nTotalItems then
        match entryAfter pos tr.items with
        | none => (.errNoMemory, s)
        | some x =>
          let s := s.setTracker t
            { tr with usedTail := some x, nUsedItems := tr.nUsedItems + 1 }
          (.ok, { s with
            channel := Function.update s.channel x (some c)
            seqNum := Function.update s.seqNum x seq })
      else (.errNoMemory, s)

def complete (n : C → ℕ) : State C := { s with completed := fun c => s.completed c + n c }

/-- `uvm_query_channel_seq_done`, of the channel of an item. -/
def queryItem (x : ℕ) : Bool × State C :=
  match s.channel x with
  | none => (false, s)
  | some c =>
    let r := querySeqDone (s.seqNumDone c) (semaphore (s.completed c)) (s.seqNum x)
    (r.1, { s with seqNumDone := Function.update s.seqNumDone c r.2 })

/-- The body of the loop of `uvm_query_tracker`, at an item. -/
def queryBody (t x : ℕ) : State C :=
  let r := s.queryItem x
  if r.1 then r.2.setTracker t ((r.2.trackers t).retire x) else r.2

/-- The loop of `uvm_query_tracker`, at an item; before each item the GPU may complete more. -/
def queryLoop (t : ℕ) (progress : ℕ → C → ℕ) : ℕ → ℕ → State C → State C
  | 0, _, s => s
  | fuel + 1, x, s =>
    -- the next item is read before the body moves this one
    let itemSafe := nextOf x (s.trackers t).items
    let bEndOfUsed := (s.trackers t).usedTail = some x
    let s := (s.complete (progress fuel)).queryBody t x
    if bEndOfUsed then s
    else
      match itemSafe with
      | none => s
      | some y => queryLoop t progress fuel y s

/-- `uvm_query_tracker`; the walk has at most as many steps as the list has items. -/
def query (t : ℕ) (progress : ℕ → C → ℕ) : NvStatus × State C :=
  if (s.trackers t).nUsedItems = 0 then (.ok, s)
  else
    let s :=
      match (s.trackers t).items with
      | [] => s
        | x :: items => queryLoop t progress (items.length + 1) x s
    (if (s.trackers t).nUsedItems = 0 then .ok else .warnMoreProcessingRequired, s)

end State

/-! ## The list of a tracker -/

section Lists

variable {used free : List ℕ} {x : ℕ}

private theorem split_last (h : used.Nodup) : (used = [] ∧ used.getLast? = none) ∨
      ∃ pre u, used = pre ++ [u] ∧ u ∉ pre ∧ used.getLast? = some u := by
  rcases List.eq_nil_or_concat used with rfl | ⟨pre, u, rfl⟩
  · exact .inl ⟨rfl, rfl⟩
  · rw [List.concat_eq_append] at h ⊢
    have hu : u ∉ pre := fun hu => List.disjoint_of_nodup_append h hu (by simp)
    exact .inr ⟨pre, u, rfl, hu, by simp⟩

theorem entryAfter_getLast? (h : used.Nodup) :
    entryAfter used.getLast? (used ++ free) = free.head? := by
  rcases split_last h with ⟨rfl, hlast⟩ | ⟨pre, u, rfl, hu, hlast⟩
  · rfl
  · rw [hlast, List.append_assoc]
    exact nextOf_append hu

theorem listAdd_getLast? (h : used.Nodup) :
    listAdd used.getLast? x (used ++ free) = used ++ x :: free := by
  rcases split_last h with ⟨rfl, hlast⟩ | ⟨pre, u, rfl, hu, hlast⟩
  · rfl
  · rw [hlast, List.append_assoc, List.append_assoc]
    exact insertAfter_append hu

theorem listCutPosition_getLast? (h : used.Nodup) :
    listCutPosition used.getLast? (used ++ free) = (used, free) := by
  rcases split_last h with ⟨rfl, hlast⟩ | ⟨pre, u, rfl, hu, hlast⟩
  · cases free <;> rfl
  · rw [hlast]
    clear hlast h
    induction pre with
    | nil => simp [listCutPosition]
    | cons y pre ih =>
      simp only [List.mem_cons, not_or] at hu
      have ih := ih hu.2
      simp only [List.cons_append, listCutPosition, if_neg (Ne.symm hu.1), ih]

end Lists

namespace Tracker

/-- The list of the tracker holds the used items and then the free ones. -/
structure Shape (tr : Tracker) (used free : List ℕ) : Prop where
  items : tr.items = used ++ free
  tail : tr.usedTail = used.getLast?
  total : tr.nTotalItems = used.length + free.length
  count : tr.nUsedItems = used.length
  nodup : (used ++ free).Nodup

variable {tr dst src : Tracker} {used free pre post : List ℕ} {x : ℕ}

theorem Shape.nodup_used (h : tr.Shape used free) : used.Nodup := h.nodup.of_append_left

theorem Shape.init : init.Shape [] [] := ⟨rfl, rfl, rfl, rfl, List.nodup_nil⟩

theorem Shape.reset (h : tr.Shape used free) : tr.reset.Shape [] (used ++ free) where
  items := h.items
  tail := rfl
  total := by simp [Tracker.reset, h.total]
  count := rfl
  nodup := h.nodup

theorem Shape.entryAfter (h : tr.Shape used free) :
    entryAfter tr.usedTail tr.items = free.head? := by
  rw [h.items, h.tail]
  exact entryAfter_getLast? h.nodup_used

theorem Shape.shrinkLoop {fuel : ℕ} (h : tr.Shape used free) (hfuel : free.length ≤ fuel) :
    (shrinkLoop fuel tr).Shape used [] := by
  induction free generalizing tr fuel with
  | nil =>
    cases fuel with
    | zero => exact h
    | succ fuel =>
      unfold Tracker.shrinkLoop
      rw [if_neg (by simp [h.total, h.count])]
      exact h
  | cons x free ih =>
    cases fuel with
    | zero => simp at hfuel
    | succ fuel =>
      unfold Tracker.shrinkLoop
      rw [if_pos (by simp [h.total, h.count]), h.entryAfter]
      have hx : x ∉ used := fun hx => List.disjoint_of_nodup_append h.nodup hx (by simp)
      refine ih ⟨?_, h.tail, ?_, h.count, ?_⟩ (by simpa using hfuel)
      · simp [h.items, List.erase_append_right _ hx]
      · simp only [h.total, List.length_cons]
        omega
      · exact h.nodup.sublist ((List.sublist_cons_self x free).append_left used)

theorem Shape.shrink (h : tr.Shape used free) : tr.shrink.Shape used [] :=
  h.shrinkLoop (by rw [h.total]; omega)

theorem Shape.retire (h : tr.Shape (pre ++ x :: post) free) :
    (tr.retire x).Shape (pre ++ post) (x :: free) := by
  have hnd := h.nodup
  rw [List.append_assoc] at hnd
  have hpre : x ∉ pre := fun hx => List.disjoint_of_nodup_append hnd hx (by simp)
  have hrest : x ∉ post ++ free := (List.nodup_cons.mp hnd.of_append_right).1
  simp only [List.mem_append, not_or] at hrest
  have hperm : ((pre ++ post) ++ x :: free).Perm ((pre ++ x :: post) ++ free) := by
    have h₁ : ((pre ++ post) ++ x :: free).Perm (x :: ((pre ++ post) ++ free)) :=
      List.perm_middle
    have h₂ : ((pre ++ x :: post) ++ free).Perm (x :: ((pre ++ post) ++ free)) := by
      simp
    exact h₁.trans h₂.symm
  have hlast : (pre ++ x :: post).getLast? = (x :: post).getLast? := by
    rw [List.getLast?_append]
    cases hl : (x :: post).getLast? with
    | none => simp at hl
    | some u => rfl
  unfold Tracker.retire
  by_cases htail : tr.usedTail = some x
  · -- the last used item: the boundary moves
    have hpost : post = [] := by
      by_contra hne
      rw [h.tail, hlast, List.getLast?_cons, List.getLast?_eq_some_getLast hne] at htail
      have hx : post.getLast hne = x := by simpa using htail
      exact hrest.1 (hx ▸ List.getLast_mem hne)
    subst hpost
    rw [if_pos htail]
    refine ⟨by simp [h.items], ?_, ?_, ?_, by simpa using h.nodup⟩
    · simp only [h.items, List.append_nil, List.append_assoc]
      exact prevOf_append hpre hrest.2
    · simp only [h.total]
      simp
      omega
    · simp [h.count]
  · rw [if_neg htail]
    have hne : post ≠ [] := by
      rintro rfl
      rw [h.tail] at htail
      simp at htail
    have herase : tr.items.erase x = (pre ++ post) ++ free := by
      rw [h.items, List.append_assoc, List.erase_append_right _ hpre]
      simp
    have htail' : tr.usedTail = (pre ++ post).getLast? := by
      rw [h.tail, hlast, List.getLast?_append, List.getLast?_cons,
        List.getLast?_eq_some_getLast hne]
      rfl
    have hnodup' : (pre ++ post).Nodup := (hperm.nodup_iff.mpr h.nodup).of_append_left
    refine ⟨?_, htail', ?_, ?_, hperm.nodup_iff.mpr h.nodup⟩
    · simp only [herase, htail']
      exact listAdd_getLast? hnodup'
    · simp only [h.total]
      simp
      omega
    · simp [h.count]

theorem topUp_eq {total : ℕ} {temp : List ℕ} :
    topUp total temp dst = (temp.drop (total - dst.nTotalItems),
      { dst with
        items := dst.items ++ temp.take (total - dst.nTotalItems)
        nTotalItems := dst.nTotalItems + min (total - dst.nTotalItems) temp.length }) := by
  induction temp generalizing dst with
  | nil => simp [topUp]
  | cons x temp ih =>
    unfold topUp
    by_cases hlt : dst.nTotalItems < total
    · obtain ⟨k, hk⟩ : ∃ k, total - dst.nTotalItems = k + 1 := ⟨total - dst.nTotalItems - 1, by omega⟩
      have hk' : total - (dst.nTotalItems + 1) = k := by omega
      rw [if_pos hlt, ih]
      simp only [hk, hk', List.drop_succ_cons, List.take_succ_cons, List.append_assoc,
        List.length_cons]
      congr 2
      omega
    · have hk : total - dst.nTotalItems = 0 := by omega
      rw [if_neg hlt, hk]
      simp

/-- **`uvm_move_tracker` of a source with used items**: they become the used items of the
destination, and every item is in one of the two lists. -/
theorem Shape.move {usedDst freeDst usedSrc freeSrc : List ℕ} (hdst : dst.Shape usedDst freeDst)
    (hsrc : src.Shape usedSrc freeSrc) (hne : usedSrc ≠ [])
    (hdisj : ∀ x ∈ usedDst ++ freeDst, x ∉ usedSrc ++ freeSrc) :
    ∃ top left, usedDst ++ freeDst = top ++ left ∧ (move dst src).1.Shape usedSrc top ∧
      (move dst src).2.Shape [] (left ++ freeSrc) := by
  have hcnt : src.nUsedItems ≠ 0 := by
    rw [hsrc.count]
    exact mt List.length_eq_zero_iff.mp hne
  have hcut : listCutPosition src.usedTail src.items = (usedSrc, freeSrc) := by
    rw [hsrc.items, hsrc.tail]
    exact listCutPosition_getLast? hsrc.nodup_used
  obtain ⟨k, hk⟩ : ∃ k, dst.nTotalItems - src.nUsedItems = k := ⟨_, rfl⟩
  refine ⟨(usedDst ++ freeDst).take k, (usedDst ++ freeDst).drop k,
    (List.take_append_drop k _).symm, ?_, ?_⟩
  all_goals
    unfold Tracker.move
    rw [if_neg hcnt, hcut]
    dsimp only
    rw [if_neg (by simpa using hne), topUp_eq]
    dsimp only
    rw [hdst.items, hk]
  · refine ⟨rfl, hsrc.tail, ?_, hsrc.count, ?_⟩
    · dsimp only
      rw [List.length_take, hsrc.count]
    · refine List.nodup_append'.mpr
        ⟨hsrc.nodup_used, hdst.nodup.sublist (List.take_sublist _ _), fun x hx hx' => ?_⟩
      exact hdisj x ((List.take_sublist _ _).subset hx') (List.mem_append_left _ hx)
  · refine ⟨rfl, rfl, ?_, rfl, ?_⟩
    · have htotal := hsrc.total
      have hcnt := hsrc.count
      have hlen := hdst.total
      simp only [List.length_nil, List.length_append, List.length_drop]
      omega
    · rw [List.nil_append]
      refine List.nodup_append'.mpr ⟨hdst.nodup.sublist (List.drop_sublist _ _),
        hsrc.nodup.of_append_right, fun x hx hx' => ?_⟩
      exact hdisj x ((List.drop_sublist _ _).subset hx) (List.mem_append_right _ hx')

end Tracker

/-! ## What the operations keep -/

namespace State

variable {C : Type*} {s s' : State C} {t u x : ℕ} {used free : List ℕ}

/-- Everything owed to a tracker that is not complete is covered by one of the items. -/
def Covers (s : State C) (t : ℕ) (used : List ℕ) : Prop :=
  ∀ p ∈ s.owed t, s.completed p.1 < p.2 →
    ∃ x ∈ used, s.channel x = some p.1 ∧ p.2 ≤ s.seqNum x

/-- A tracker with its used and its free items. -/
structure Holds (s : State C) (t : ℕ) (used free : List ℕ) : Prop where
  shape : (s.trackers t).Shape used free
  allocated : ∀ x ∈ used ++ free, x < s.nextItem
  oneEach : (used.map s.channel).Nodup
  covers : s.Covers t used

/-- The invariant of every run. -/
structure Inv (s : State C) : Prop where
  holds : ∀ t, ∃ used free, s.Holds t used free
  disjoint : ∀ t u, t ≠ u → ∀ x ∈ (s.trackers t).items, x ∉ (s.trackers u).items
  done : ∀ c, s.seqNumDone c ≤ s.completed c

def SameItems (s s' : State C) (items : List ℕ) : Prop :=
  ∀ x ∈ items, s'.channel x = s.channel x ∧ s'.seqNum x = s.seqNum x

theorem SameItems.map_channel {items : List ℕ} (h : s.SameItems s' items) :
    items.map s'.channel = items.map s.channel :=
  List.map_congr_left fun x hx => (h x hx).1

theorem Covers.frame (h : s.Covers t used) (howed : s'.owed t = s.owed t)
    (hitems : s.SameItems s' used) (hcompl : ∀ c, s.completed c ≤ s'.completed c) :
    s'.Covers t used := by
  intro p hp hlt
  rw [howed] at hp
  obtain ⟨x, hx, hchan, hle⟩ := h p hp (Nat.lt_of_le_of_lt (hcompl p.1) hlt)
  refine ⟨x, hx, ?_, ?_⟩
  · rw [(hitems x hx).1, hchan]
  · rwa [(hitems x hx).2]

theorem Holds.frame (h : s.Holds t used free) (htracker : s'.trackers t = s.trackers t)
    (howed : s'.owed t = s.owed t) (hitems : s.SameItems s' (used ++ free))
    (hcompl : ∀ c, s.completed c ≤ s'.completed c) (hnext : s.nextItem ≤ s'.nextItem) :
    s'.Holds t used free := by
  have hused : s.SameItems s' used := fun x hx => hitems x (List.mem_append_left _ hx)
  refine ⟨by rw [htracker]; exact h.shape, fun x hx => ?_, ?_, h.covers.frame howed hused hcompl⟩
  · exact Nat.lt_of_lt_of_le (h.allocated x hx) hnext
  · rw [hused.map_channel]
    exact h.oneEach

theorem Holds.mem_items (h : s.Holds t used free) :
    x ∈ (s.trackers t).items ↔ x ∈ used ++ free := by rw [h.shape.items]

/-- What an operation on one tracker leaves alone. -/
structure OnlyTracker (t : ℕ) (s s' : State C) : Prop where
  trackers : ∀ u, u ≠ t → s'.trackers u = s.trackers u
  owed : ∀ u, u ≠ t → s'.owed u = s.owed u
  items : ∀ x ∉ (s.trackers t).items, x < s.nextItem →
    s'.channel x = s.channel x ∧ s'.seqNum x = s.seqNum x
  newItems : ∀ x ∈ (s'.trackers t).items, x ∈ (s.trackers t).items ∨ s.nextItem ≤ x
  nextItem : s.nextItem ≤ s'.nextItem
  completed : ∀ c, s.completed c ≤ s'.completed c
  done : (∀ c, s.seqNumDone c ≤ s.completed c) → ∀ c, s'.seqNumDone c ≤ s'.completed c

theorem Inv.update (h : s.Inv) (honly : OnlyTracker t s s') (ht : ∃ used free, s'.Holds t used free) :
    s'.Inv where
  holds u := by
    by_cases hu : u = t
    · exact hu ▸ ht
    · obtain ⟨used, free, hold⟩ := h.holds u
      refine ⟨used, free, hold.frame (honly.trackers u hu) (honly.owed u hu) (fun x hx => ?_)
        honly.completed honly.nextItem⟩
      exact honly.items x (h.disjoint u t hu x (hold.mem_items.mpr hx)) (hold.allocated x hx)
  disjoint u v huv x hx hx' := by
    -- an item of the tracker is one of its old items or a new one, and so none of another's
    have hnew : ∀ w, w ≠ t → x ∈ (s'.trackers t).items → x ∉ (s'.trackers w).items := by
      intro w hw hx hxw
      rw [honly.trackers w hw] at hxw
      rcases honly.newItems x hx with hx | hx
      · exact h.disjoint t w (Ne.symm hw) x hx hxw
      · obtain ⟨used, free, hold⟩ := h.holds w
        exact absurd (hold.allocated x (hold.mem_items.mp hxw)) (Nat.not_lt.mpr hx)
    by_cases hu : u = t
    · subst hu
      exact hnew v (Ne.symm huv) hx hx'
    · by_cases hv : v = t
      · subst hv
        exact hnew u hu hx' hx
      · rw [honly.trackers u hu] at hx
        rw [honly.trackers v hv] at hx'
        exact h.disjoint u v huv x hx hx'
  done := honly.done h.done

theorem OnlyTracker.refl (s : State C) : OnlyTracker t s s :=
  ⟨fun _ _ => rfl, fun _ _ => rfl, fun _ _ _ => ⟨rfl, rfl⟩, fun _ hx => .inl hx, Nat.le_refl _,
    fun _ => Nat.le_refl _, id⟩

theorem OnlyTracker.setTracker {tr : Tracker} (hitems : ∀ x ∈ tr.items, x ∈ (s.trackers t).items) :
    OnlyTracker t s (s.setTracker t tr) where
  trackers u hu := update_of_ne hu _ _
  owed _ _ := rfl
  items _ _ _ := ⟨rfl, rfl⟩
  newItems x hx := by
    simp only [State.setTracker, update_self] at hx
    exact .inl (hitems x hx)
  nextItem := Nat.le_refl _
  completed _ := Nat.le_refl _
  done := id

theorem OnlyTracker.trans {s'' : State C} (h : OnlyTracker t s s') (h' : OnlyTracker t s' s'') :
    OnlyTracker t s s'' where
  trackers u hu := (h'.trackers u hu).trans (h.trackers u hu)
  owed u hu := (h'.owed u hu).trans (h.owed u hu)
  items x hx hlt := by
    have hx' : x ∉ (s'.trackers t).items := by
      intro hx'
      rcases h.newItems x hx' with hold | hnew
      · exact hx hold
      · omega
    have hbefore := h.items x hx hlt
    have hafter := h'.items x hx' (Nat.lt_of_lt_of_le hlt h.nextItem)
    exact ⟨hafter.1.trans hbefore.1, hafter.2.trans hbefore.2⟩
  newItems x hx := by
    rcases h'.newItems x hx with hx | hx
    · exact h.newItems x hx
    · exact .inr (Nat.le_trans h.nextItem hx)
  nextItem := Nat.le_trans h.nextItem h'.nextItem
  completed c := Nat.le_trans (h.completed c) (h'.completed c)
  done := h'.done ∘ h.done

/-! ### `uvm_grow_tracker` -/

theorem Holds.addItem (h : s.Holds t used free) :
    (s.addItem t).Holds t used (s.nextItem :: free) ∧ OnlyTracker t s (s.addItem t) := by
  have hadd : listAdd (s.trackers t).usedTail s.nextItem (s.trackers t).items =
      used ++ s.nextItem :: free := by
    rw [h.shape.items, h.shape.tail]
    exact listAdd_getLast? h.shape.nodup_used
  have htracker : (s.addItem t).trackers t =
      ⟨used ++ s.nextItem :: free, (s.trackers t).usedTail, (s.trackers t).nTotalItems + 1,
        (s.trackers t).nUsedItems⟩ := by
    simp only [State.addItem, State.setTracker, update_self, hadd]
  have hnew : ∀ x ∈ used ++ free, x ≠ s.nextItem := fun x hx => Nat.ne_of_lt (h.allocated x hx)
  have hperm : (used ++ s.nextItem :: free).Perm (s.nextItem :: (used ++ free)) :=
    List.perm_middle
  have hsame : s.SameItems (s.addItem t) used := by
    intro x hx
    have hx := hnew x (List.mem_append_left _ hx)
    exact ⟨update_of_ne hx _ _, update_of_ne hx _ _⟩
  refine ⟨⟨?_, fun x hx => ?_, ?_, ?_⟩, ?_⟩
  · rw [htracker]
    refine ⟨rfl, h.shape.tail, ?_, h.shape.count, hperm.nodup_iff.mpr ?_⟩
    · simp only [h.shape.total, List.length_cons]
      omega
    · exact List.nodup_cons.mpr ⟨fun hx => hnew _ hx rfl, h.shape.nodup⟩
  · rcases List.mem_cons.mp (hperm.mem_iff.mp hx) with rfl | hx
    · exact Nat.lt_succ_self _
    · exact Nat.lt_succ_of_lt (h.allocated x hx)
  · rw [hsame.map_channel]
    exact h.oneEach
  · exact h.covers.frame rfl hsame fun _ => Nat.le_refl _
  · refine ⟨fun u hu => update_of_ne hu _ _, fun _ _ => rfl, fun x _ hx => ?_,
      fun x hx => ?_, Nat.le_succ _, fun _ => Nat.le_refl _, id⟩
    · have hx := Nat.ne_of_lt hx
      exact ⟨update_of_ne hx _ _, update_of_ne hx _ _⟩
    · rw [htracker] at hx
      rcases List.mem_cons.mp (hperm.mem_iff.mp hx) with rfl | hx
      · exact .inr (Nat.le_refl _)
      · exact .inl (h.mem_items.mpr hx)

theorem Holds.grow (nItems allocs : ℕ) (h : s.Holds t used free) :
    ∃ free', (grow t nItems allocs s).2.Holds t used free' ∧
      OnlyTracker t s (grow t nItems allocs s).2 := by
  induction allocs generalizing s free with
  | zero => exact ⟨free, h, .refl s⟩
  | succ allocs ih =>
    unfold State.grow
    split
    · obtain ⟨hadd, honly⟩ := h.addItem
      obtain ⟨free', hold, honly'⟩ := ih hadd
      exact ⟨free', hold, honly.trans honly'⟩
    · exact ⟨free, h, .refl s⟩

/-! ### `uvm_merge_tracker_item` -/

variable {c : C}

theorem mergeSearch_spec [DecidableEq C] (hne : used ≠ []) (hnd : used.Nodup) :
    (∃ x ∈ used, s.channel x = some c ∧ s.mergeSearch used.getLast? c (used ++ free) = .same x) ∨
      ((∀ x ∈ used, s.channel x ≠ some c) ∧
        s.mergeSearch used.getLast? c (used ++ free) = .behind used.getLast?) := by
  induction used with
  | nil => exact absurd rfl hne
  | cons x used ih =>
    obtain ⟨hx, hnd⟩ := List.nodup_cons.mp hnd
    simp only [List.cons_append, mergeSearch]
    by_cases hchan : s.channel x = some c
    · exact .inl ⟨x, List.mem_cons_self, hchan, by rw [if_pos hchan]⟩
    · simp only [if_neg hchan]
      rcases List.eq_nil_or_concat used with rfl | ⟨pre, u, rfl⟩
      · exact .inr ⟨by simpa using hchan, by simp⟩
      · -- the walk goes on behind `x`
        have hlast : (x :: pre.concat u).getLast? = (pre.concat u).getLast? := by
          simp [List.getLast?_cons]
        have hxu : (pre.concat u).getLast? ≠ some x := by
          rw [List.concat_eq_append] at hx ⊢
          simp only [List.getLast?_concat, ne_eq, Option.some.injEq]
          rintro rfl
          exact hx (by simp)
        rw [hlast, if_neg hxu]
        rcases ih (by simp) hnd with ⟨y, hy, hsame⟩ | ⟨hnone, hbehind⟩
        · exact .inl ⟨y, List.mem_cons_of_mem x hy, hsame⟩
        · refine .inr ⟨fun y hy => ?_, hbehind⟩
          rcases List.mem_cons.mp hy with rfl | hy
          · exact hchan
          · exact hnone y hy

/-- An item that is merged is covered by a used item. -/
def Merged (s : State C) (t : ℕ) (c : C) (seq : ℕ) (s' : State C) : Prop :=
  OnlyTracker t s s' ∧ s'.owed = s.owed ∧ ∃ used free, s'.Holds t used free ∧
    ∃ x ∈ used, s'.channel x = some c ∧ seq ≤ s'.seqNum x

private theorem Holds.raise {seq : ℕ} (h : s.Holds t used free) (hx : x ∈ used)
    (hchan : s.channel x = some c) (hlt : s.seqNum x < seq) :
    s.Merged t c seq { s with seqNum := Function.update s.seqNum x seq } := by
  have hxt : x ∈ (s.trackers t).items := h.mem_items.mpr (List.mem_append_left _ hx)
  refine ⟨⟨fun _ _ => rfl, fun _ _ => rfl, fun y hy _ => ⟨rfl, ?_⟩, fun y hy => .inl hy,
    Nat.le_refl _, fun _ => Nat.le_refl _, id⟩, rfl, used, free,
    ⟨h.shape, h.allocated, h.oneEach, fun p hp hlt' => ?_⟩, x, hx, hchan, ?_⟩
  · have hyx : y ≠ x := fun heq => hy (heq ▸ hxt)
    exact update_of_ne hyx _ _
  · obtain ⟨y, hy, hcy, hle⟩ := h.covers p hp hlt'
    refine ⟨y, hy, hcy, ?_⟩
    by_cases hyx : y = x
    · subst hyx
      simp only [update_self]
      omega
    · exact Nat.le_trans hle (Nat.le_of_eq (update_of_ne hyx _ _).symm)
  · simp

private theorem Holds.useItem {seq : ℕ} (h : s.Holds t used (x :: free))
    (hnone : ∀ y ∈ used, s.channel y ≠ some c) :
    let s₁ := s.setTracker t
      { s.trackers t with usedTail := some x, nUsedItems := (s.trackers t).nUsedItems + 1 }
    s.Merged t c seq { s₁ with
      channel := Function.update s.channel x (some c)
      seqNum := Function.update s.seqNum x seq } := by
  have hxt : x ∈ (s.trackers t).items := h.mem_items.mpr (by simp)
  have hxused : x ∉ used := fun hx => List.disjoint_of_nodup_append h.shape.nodup hx (by simp)
  have hsame : ∀ y, y ≠ x → Function.update s.channel x (some c) y = s.channel y ∧
      Function.update s.seqNum x seq y = s.seqNum y := fun y hy =>
    ⟨update_of_ne hy _ _, update_of_ne hy _ _⟩
  have hother : ∀ y ∈ used, y ≠ x := fun y hy heq => hxused (heq ▸ hy)
  have hmap : used.map (Function.update s.channel x (some c)) = used.map s.channel :=
    List.map_congr_left fun y hy => (hsame y (hother y hy)).1
  refine ⟨⟨fun u hu => update_of_ne hu _ _, fun _ _ => rfl, fun y hy _ => ?_,
    fun y hy => .inl ?_, Nat.le_refl _, fun _ => Nat.le_refl _, id⟩, rfl, used ++ [x], free,
    ⟨?_, fun y hy => ?_, ?_, fun p hp hlt => ?_⟩, x, by simp, by simp, by simp⟩
  · exact hsame y fun heq => hy (heq ▸ hxt)
  · simpa only [State.setTracker, update_self] using hy
  · simp only [State.setTracker, update_self]
    refine ⟨by simp [h.shape.items], by simp, ?_, ?_, by simpa using h.shape.nodup⟩
    · simp only [h.shape.total, List.length_append, List.length_cons, List.length_nil]
      omega
    · simp [h.shape.count]
  · exact h.allocated y (by simpa using hy)
  · dsimp only
    rw [List.map_append, hmap]
    refine List.nodup_append'.mpr ⟨h.oneEach, by simp, ?_⟩
    intro d hd hd'
    obtain ⟨y, hy, rfl⟩ := List.mem_map.mp hd
    simp only [List.map_cons, update_self, List.map_nil, List.mem_singleton] at hd'
    exact hnone y hy hd'
  · obtain ⟨y, hy, hcy, hle⟩ := h.covers p hp hlt
    obtain ⟨hchan, hseq⟩ := hsame y (hother y hy)
    refine ⟨y, List.mem_append_left _ hy, ?_, ?_⟩
    · exact hchan.trans hcy
    · exact Nat.le_trans hle (Nat.le_of_eq hseq.symm)

theorem Holds.merge [DecidableEq C] (seq : ℕ) (h : s.Holds t used free) :
    s.merge t c seq = (.errNoMemory, s) ∨
      ((s.merge t c seq).1 = .ok ∧ s.Merged t c seq (s.merge t c seq).2) := by
  -- the position the search ends with
  have hpos : (∃ x ∈ used, s.channel x = some c ∧ (if (s.trackers t).nUsedItems = 0 then
        .behind none else s.mergeSearch (s.trackers t).usedTail c (s.trackers t).items) =
          MergePos.same x) ∨
      ((∀ x ∈ used, s.channel x ≠ some c) ∧ (if (s.trackers t).nUsedItems = 0 then
        .behind none else s.mergeSearch (s.trackers t).usedTail c (s.trackers t).items) =
          MergePos.behind used.getLast?) := by
    rw [h.shape.count, h.shape.items, h.shape.tail]
    by_cases hne : used = []
    · subst hne
      exact .inr ⟨by simp, rfl⟩
    · rw [if_neg (mt List.length_eq_zero_iff.mp hne)]
      exact mergeSearch_spec hne h.shape.nodup_used
  unfold State.merge
  by_cases hempty : (s.trackers t).nTotalItems = 0
  · exact .inl (if_pos hempty)
  · rw [if_neg hempty]
    rcases hpos with ⟨x, hx, hchan, hsame⟩ | ⟨hnone, hbehind⟩
    · rw [hsame]
      refine .inr ⟨rfl, ?_⟩
      dsimp only
      by_cases hlt : s.seqNum x < seq
      · rw [if_pos hlt]
        exact h.raise hx hchan hlt
      · rw [if_neg hlt]
        exact ⟨.refl s, rfl, used, free, h, x, hx, hchan, Nat.le_of_not_lt hlt⟩
    · rw [hbehind]
      dsimp only
      by_cases hroom : (s.trackers t).nUsedItems < (s.trackers t).nTotalItems
      · rw [if_pos hroom, ← h.shape.tail, h.shape.entryAfter]
        cases free with
        | nil =>
          rw [h.shape.total, h.shape.count] at hroom
          simp at hroom
        | cons x free => exact .inr ⟨rfl, h.useItem hnone⟩
      · rw [if_neg hroom]
        exact .inl rfl

/-! ### `uvm_query_tracker` -/

theorem OnlyTracker.complete (n : C → ℕ) : OnlyTracker t s (s.complete n) :=
  ⟨fun _ _ => rfl, fun _ _ => rfl, fun _ _ _ => ⟨rfl, rfl⟩, fun _ hx => .inl hx, Nat.le_refl _,
    fun _ => Nat.le_add_right _ _, fun h c => Nat.le_trans (h c) (Nat.le_add_right _ _)⟩

theorem Holds.complete (h : s.Holds t used free) (n : C → ℕ) : (s.complete n).Holds t used free :=
  h.frame rfl rfl (fun _ _ => ⟨rfl, rfl⟩) (fun _ => Nat.le_add_right _ _) (Nat.le_refl _)

theorem queryItem_spec [DecidableEq C] (hdone : ∀ c, s.seqNumDone c ≤ s.completed c) :
    ∃ seqNumDone, (s.queryItem x).2 = { s with seqNumDone := seqNumDone } ∧
      (∀ c, seqNumDone c ≤ s.completed c) ∧
      ((s.queryItem x).1 = true →
        ∃ c, s.channel x = some c ∧ s.seqNum x ≤ s.completed c) := by
  unfold queryItem
  cases hchan : s.channel x with
  | none => exact ⟨s.seqNumDone, rfl, hdone, by simp⟩
  | some c =>
    refine ⟨_, rfl, fun d => ?_, fun hd => ⟨c, rfl, le_completed_of_querySeqDone (hdone c) hd⟩⟩
    by_cases hdc : d = c
    · subst hdc
      rw [update_self]
      exact querySeqDone_le (hdone d)
    · rw [update_of_ne hdc]
      exact hdone d

/-- **One pass of the loop of `uvm_query_tracker`** keeps the item among the used ones, or retires
it when its sequence number is complete. -/
theorem Holds.queryBody [DecidableEq C] {pre post : List ℕ} (h : s.Holds t (pre ++ x :: post) free)
    (hdone : ∀ c, s.seqNumDone c ≤ s.completed c) :
    OnlyTracker t s (s.queryBody t x) ∧
      ((s.queryBody t x).Holds t (pre ++ x :: post) free ∨
        (s.queryBody t x).Holds t (pre ++ post) (x :: free)) := by
  obtain ⟨seqNumDone, hstate, hdone', hcomplete⟩ := queryItem_spec (x := x) hdone
  unfold State.queryBody
  dsimp only
  rw [hstate]
  have honly : OnlyTracker t s { s with seqNumDone := seqNumDone } :=
    ⟨fun _ _ => rfl, fun _ _ => rfl, fun _ _ _ => ⟨rfl, rfl⟩, fun _ hx => .inl hx, Nat.le_refl _,
      fun _ => Nat.le_refl _, fun _ => hdone'⟩
  have hhold : State.Holds { s with seqNumDone := seqNumDone } t (pre ++ x :: post) free :=
    h.frame rfl rfl (fun _ _ => ⟨rfl, rfl⟩) (fun _ => Nat.le_refl _) (Nat.le_refl _)
  by_cases hd : (s.queryItem x).1 = true
  · rw [if_pos hd]
    obtain ⟨c, hchan, hle⟩ := hcomplete hd
    have hretire := h.shape.retire
    have hperm : (pre ++ x :: post).Perm (x :: (pre ++ post)) := List.perm_middle
    have hmem : ∀ y ∈ (pre ++ post) ++ x :: free, y ∈ (pre ++ x :: post) ++ free := by
      intro y hy
      simp only [List.mem_append, List.mem_cons] at hy ⊢
      tauto
    refine ⟨honly.trans (.setTracker fun y hy => ?_), .inr ⟨?_, fun y hy => ?_, ?_, ?_⟩⟩
    · rw [hretire.items] at hy
      exact h.mem_items.mpr (hmem y hy)
    · simpa only [State.setTracker, update_self] using hretire
    · exact h.allocated y (hmem y hy)
    · exact ((hperm.map s.channel).nodup_iff.mp h.oneEach).of_cons
    · -- what the retired item covered is complete
      intro p hp hlt
      obtain ⟨y, hy, hcy, hley⟩ := h.covers p hp hlt
      rcases List.mem_cons.mp (hperm.mem_iff.mp hy) with rfl | hy
      · obtain rfl : p.1 = c := Option.some.inj (hcy.symm.trans hchan)
        exact absurd (Nat.le_trans hley hle) (Nat.not_le.mpr hlt)
      · exact ⟨y, hy, hcy, hley⟩
  · rw [if_neg hd]
    exact ⟨honly, .inl hhold⟩

/-- **The loop of `uvm_query_tracker`**, by induction on the items that are left: what was passed
and not retired is in front, what was retired behind the used items. -/
theorem Holds.queryLoop [DecidableEq C] {progress : ℕ → C → ℕ} {fuel : ℕ} {pre post : List ℕ}
    (h : s.Holds t (pre ++ x :: post) free) (hdone : ∀ c, s.seqNumDone c ≤ s.completed c) :
    OnlyTracker t s (queryLoop t progress fuel x s) ∧
      ∃ used' free', (queryLoop t progress fuel x s).Holds t used' free' := by
  induction fuel generalizing s x pre post free with
  | zero => exact ⟨.refl s, _, _, h⟩
  | succ fuel ih =>
    have hnd := h.shape.nodup
    rw [List.append_assoc] at hnd
    have hx : x ∉ pre := fun hx => List.disjoint_of_nodup_append hnd hx (by simp)
    have hnext : nextOf x (s.trackers t).items = (post ++ free).head? := by
      rw [h.shape.items, List.append_assoc]
      exact nextOf_append hx
    have honly₁ : OnlyTracker t s (s.complete (progress fuel)) := .complete _
    obtain ⟨honly₂, hbody⟩ := (h.complete (progress fuel)).queryBody (honly₁.done hdone)
    have honly := honly₁.trans honly₂
    have hend : ∃ used' free',
        ((s.complete (progress fuel)).queryBody t x).Holds t used' free' := by
      rcases hbody with hkeep | hretire
      · exact ⟨_, _, hkeep⟩
      · exact ⟨_, _, hretire⟩
    unfold State.queryLoop
    rw [hnext]
    by_cases htail : (s.trackers t).usedTail = some x
    · rw [if_pos htail]
      exact ⟨honly, hend⟩
    · rw [if_neg htail]
      cases post with
      | nil =>
        rw [h.shape.tail] at htail
        simp at htail
      | cons y post =>
        rcases hbody with hkeep | hretire
        · rw [show pre ++ x :: y :: post = (pre ++ [x]) ++ y :: post by simp] at hkeep
          obtain ⟨honly₃, hrest⟩ := ih hkeep (honly.done hdone)
          exact ⟨honly.trans honly₃, hrest⟩
        · obtain ⟨honly₃, hrest⟩ := ih hretire (honly.done hdone)
          exact ⟨honly.trans honly₃, hrest⟩

theorem Holds.query [DecidableEq C] (progress : ℕ → C → ℕ) (h : s.Holds t used free)
    (hdone : ∀ c, s.seqNumDone c ≤ s.completed c) :
    OnlyTracker t s (s.query t progress).2 ∧
      ∃ used' free', (s.query t progress).2.Holds t used' free' := by
  unfold State.query
  by_cases hzero : (s.trackers t).nUsedItems = 0
  · rw [if_pos hzero]
    exact ⟨.refl s, used, free, h⟩
  · rw [if_neg hzero, h.shape.items]
    cases used with
    | nil => exact absurd h.shape.count hzero
    | cons x used => exact (show s.Holds t ([] ++ x :: used) free from h).queryLoop hdone

end State

/-! ## Runs -/

/-- A call on trackers, with what it meets, or a step of the GPU. -/
inductive Op (C : Type*) where
  | merge (t : ℕ) (c : C) (seq : ℕ)
  | grow (t nItems allocs : ℕ)
  | shrink (t : ℕ)
  | reset (t : ℕ)
  | move (dst src : ℕ) (h : dst ≠ src)
  | query (t : ℕ) (progress : ℕ → C → ℕ)
  | complete (n : C → ℕ)

namespace State

variable {C : Type*}

/-- Trackers as `uvm_init_tracker` leaves them. -/
def init : State C where
  trackers _ := .init
  channel _ := none
  seqNum _ := 0
  nextItem := 0
  seqNumDone _ := 0
  completed _ := 0
  owed _ := []

def setOwed (s : State C) (t : ℕ) (l : List (C × ℕ)) : State C :=
  { s with owed := Function.update s.owed t l }

/-- The state after a call, with what is owed to each tracker then. -/
def step [DecidableEq C] (s : State C) : Op C → State C
  | .merge t c seq =>
    let r := s.merge t c seq
    if r.1 = .ok then r.2.setOwed t ((c, seq) :: s.owed t) else r.2
  | .grow t nItems allocs => (grow t nItems allocs s).2
  | .shrink t => s.setTracker t (s.trackers t).shrink
  | .reset t => (s.setTracker t (s.trackers t).reset).setOwed t []
  | .move dst src _ =>
    let r := (s.trackers dst).move (s.trackers src)
    (((s.setTracker dst r.1).setTracker src r.2).setOwed dst (s.owed src)).setOwed src []
  | .query t progress => (s.query t progress).2
  | .complete n => s.complete n

def used (s : State C) (t : ℕ) : List ℕ := (s.trackers t).items.take (s.trackers t).nUsedItems

/-- What holds of the trackers: the counts are right, the used items come first and end at
`usedTail`, no two of them are of one channel, and they cover everything that is owed and not
complete; no item is on two lists or twice on one. -/
structure Sound (s : State C) : Prop where
  total : ∀ t, (s.trackers t).nTotalItems = (s.trackers t).items.length
  usedLe : ∀ t, (s.trackers t).nUsedItems ≤ (s.trackers t).nTotalItems
  tail : ∀ t, (s.trackers t).usedTail = (s.used t).getLast?
  oneEach : ∀ t, ((s.used t).map s.channel).Nodup
  covers : ∀ t, s.Covers t (s.used t)
  nodup : ∀ t, (s.trackers t).items.Nodup
  disjoint : ∀ t u, t ≠ u → ∀ x ∈ (s.trackers t).items, x ∉ (s.trackers u).items

/-- What a move is for: the used items of the source become those of the destination, the source
has none, and no item is lost. -/
def MoveRight [DecidableEq C] (s : State C) : Op C → Prop
  | .move dst src h =>
    (s.step (.move dst src h)).used dst = s.used src ∧
      (s.step (.move dst src h)).used src = [] ∧
      (((s.step (.move dst src h)).trackers dst).items ++
        ((s.step (.move dst src h)).trackers src).items).Perm
          ((s.trackers dst).items ++ (s.trackers src).items)
  | _ => True

/-- The source has a used item, or the destination has none. -/
def MoveMeets (s : State C) : Op C → Prop
  | .move dst src _ => (s.trackers src).nUsedItems ≠ 0 ∨ (s.trackers dst).nUsedItems = 0
  | _ => True

variable {s : State C} {t : ℕ}

theorem Holds.used_eq {used free : List ℕ} (h : s.Holds t used free) : s.used t = used := by
  rw [State.used, h.shape.items, h.shape.count, List.take_left]

theorem Inv.sound (h : s.Inv) : s.Sound where
  total t := by
    obtain ⟨used, free, hold⟩ := h.holds t
    rw [hold.shape.total, hold.shape.items, List.length_append]
  usedLe t := by
    obtain ⟨used, free, hold⟩ := h.holds t
    rw [hold.shape.total, hold.shape.count]
    omega
  tail t := by
    obtain ⟨used, free, hold⟩ := h.holds t
    rw [hold.used_eq, hold.shape.tail]
  oneEach t := by
    obtain ⟨used, free, hold⟩ := h.holds t
    rw [hold.used_eq]
    exact hold.oneEach
  covers t := by
    obtain ⟨used, free, hold⟩ := h.holds t
    rw [hold.used_eq]
    exact hold.covers
  nodup t := by
    obtain ⟨used, free, hold⟩ := h.holds t
    rw [hold.shape.items]
    exact hold.shape.nodup
  disjoint := h.disjoint

theorem init_inv : (init : State C).Inv where
  holds t := ⟨[], [], .init, by simp, by simp, fun p hp => absurd hp List.not_mem_nil⟩
  disjoint _ _ _ x hx := absurd hx List.not_mem_nil
  done _ := Nat.le_refl _

theorem OnlyTracker.setOwed {s' : State C} (h : OnlyTracker t s s') (l : List (C × ℕ)) :
    OnlyTracker t s (s'.setOwed t l) :=
  { h with owed := fun u hu => (update_of_ne hu _ _).trans (h.owed u hu) }

theorem Inv.step_merge [DecidableEq C] (h : s.Inv) {c : C} {seq : ℕ} : (s.step (.merge t c seq)).Inv := by
  obtain ⟨used, free, hold⟩ := h.holds t
  unfold step
  dsimp only
  rcases hold.merge (c := c) seq with
    heq | ⟨hok, honly, howed, used', free', hold', x, hx, hc, hle⟩
  · rw [heq]
    exact h
  · rw [if_pos hok]
    refine h.update (honly.setOwed _) ⟨used', free', hold'.shape, hold'.allocated, hold'.oneEach, ?_⟩
    intro p hp hlt
    simp only [setOwed, update_self, List.mem_cons] at hp
    rcases hp with rfl | hp
    · exact ⟨x, hx, hc, hle⟩
    · exact hold'.covers p (howed ▸ hp) hlt

theorem Inv.step_reset (h : s.Inv) : ((s.setTracker t (s.trackers t).reset).setOwed t []).Inv := by
  obtain ⟨used, free, hold⟩ := h.holds t
  have honly : OnlyTracker t s (s.setTracker t (s.trackers t).reset) := .setTracker fun x hx => hx
  refine h.update (honly.setOwed []) ⟨[], used ++ free, ?_, ?_, by simp, ?_⟩
  · simpa only [setOwed, State.setTracker, update_self] using hold.shape.reset
  · exact hold.allocated
  · intro p hp
    simp [setOwed] at hp

theorem Inv.step_shrink (h : s.Inv) : (s.setTracker t (s.trackers t).shrink).Inv := by
  obtain ⟨used, free, hold⟩ := h.holds t
  have hshrink := hold.shape.shrink
  have hmem : ∀ x ∈ used, x ∈ used ++ free := fun x hx => List.mem_append_left _ hx
  refine h.update (.setTracker fun x hx => ?_) ⟨used, [], ?_, fun x hx => ?_, hold.oneEach,
    hold.covers⟩
  · rw [hshrink.items, List.append_nil] at hx
    exact hold.mem_items.mpr (hmem x hx)
  · simpa only [State.setTracker, update_self] using hshrink
  · exact hold.allocated x (hmem x (by simpa using hx))

/-! ### `uvm_move_tracker` -/

section Move

variable [DecidableEq C] {dst src : ℕ} (hne : dst ≠ src)

include hne in
theorem step_move_trackers :
    let s' := s.step (.move dst src hne)
    s'.trackers dst = ((s.trackers dst).move (s.trackers src)).1 ∧
      s'.trackers src = ((s.trackers dst).move (s.trackers src)).2 ∧
      ∀ u, u ≠ dst → u ≠ src → s'.trackers u = s.trackers u := by
  refine ⟨?_, update_self _ _ _, fun u hd hs => ?_⟩
  · exact (update_of_ne hne _ _).trans (update_self _ _ _)
  · exact (update_of_ne hs _ _).trans (update_of_ne hd _ _)

theorem step_move_owed :
    let s' := s.step (.move dst src hne)
    s'.owed dst = s.owed src ∧ s'.owed src = [] ∧
      ∀ u, u ≠ dst → u ≠ src → s'.owed u = s.owed u := by
  refine ⟨?_, update_self _ _ _, fun u hd hs => ?_⟩
  · exact (update_of_ne hne _ _).trans (update_self _ _ _)
  · exact (update_of_ne hs _ _).trans (update_of_ne hd _ _)

private theorem Inv.step_move_of_empty (h : s.Inv) (hempty : (s.trackers src).nUsedItems = 0) :
    (s.step (.move dst src hne)).Inv ∧
      (s.MoveRight (.move dst src hne) ↔ s.MoveMeets (.move dst src hne)) := by
  obtain ⟨hdst, hsrc, hrest⟩ := step_move_trackers (s := s) hne
  obtain ⟨howedDst, howedSrc, howedRest⟩ := step_move_owed (s := s) hne
  have hmove : (s.trackers dst).move (s.trackers src) = (s.trackers dst, s.trackers src) :=
    if_pos hempty
  rw [hmove] at hdst hsrc
  have hall : ∀ u, (s.step (.move dst src hne)).trackers u = s.trackers u := by
    intro u
    by_cases hd : u = dst
    · rw [hd, hdst]
    · by_cases hs : u = src
      · rw [hs, hsrc]
      · exact hrest u hd hs
  have hsrcUsed : s.used src = [] := by rw [State.used, hempty, List.take_zero]
  -- nothing that is owed to the source is still to come
  obtain ⟨usedSrc, freeSrc, holdSrc⟩ := h.holds src
  have hcomplete : ∀ p ∈ s.owed src, ¬ s.completed p.1 < p.2 := by
    intro p hp hlt
    obtain ⟨x, hx, -⟩ := holdSrc.covers p hp hlt
    rw [← holdSrc.used_eq, hsrcUsed] at hx
    exact List.not_mem_nil hx
  refine ⟨⟨fun u => ?_, fun u v huv x => ?_, h.done⟩, ?_⟩
  · obtain ⟨used, free, hold⟩ := h.holds u
    refine ⟨used, free, by rw [hall]; exact hold.shape, hold.allocated, hold.oneEach, ?_⟩
    intro p hp hlt
    by_cases hd : u = dst
    · rw [hd, howedDst] at hp
      exact absurd hlt (hcomplete p hp)
    · by_cases hs : u = src
      · rw [hs, howedSrc] at hp
        exact absurd hp List.not_mem_nil
      · rw [howedRest u hd hs] at hp
        exact hold.covers p hp hlt
  · rw [hall, hall]
    exact h.disjoint u v huv x
  · unfold MoveRight MoveMeets State.used
    dsimp only
    rw [hall, hall, hempty]
    obtain ⟨used, free, hold⟩ := h.holds dst
    rw [hold.shape.items, hold.shape.count, List.take_left]
    simp

private theorem Inv.step_move_of_used (h : s.Inv) (hused : (s.trackers src).nUsedItems ≠ 0) :
    (s.step (.move dst src hne)).Inv ∧ s.MoveRight (.move dst src hne) := by
  obtain ⟨hdst, hsrc, hrest⟩ := step_move_trackers (s := s) hne
  obtain ⟨howedDst, howedSrc, howedRest⟩ := step_move_owed (s := s) hne
  obtain ⟨usedDst, freeDst, holdDst⟩ := h.holds dst
  obtain ⟨usedSrc, freeSrc, holdSrc⟩ := h.holds src
  have hapart : ∀ x ∈ usedDst ++ freeDst, x ∉ usedSrc ++ freeSrc := fun x hx hx' =>
    h.disjoint dst src hne x (holdDst.mem_items.mpr hx) (holdSrc.mem_items.mpr hx')
  have husedSrc : usedSrc ≠ [] := by
    rintro rfl
    exact hused holdSrc.shape.count
  obtain ⟨top, left, hsplit, hshapeDst, hshapeSrc⟩ :=
    holdDst.shape.move holdSrc.shape husedSrc hapart
  rw [← hdst] at hshapeDst
  rw [← hsrc] at hshapeSrc
  have hdstSub : ∀ x ∈ usedSrc ++ top, x ∈ (s.trackers dst).items ∨ x ∈ (s.trackers src).items := by
    intro x hx
    rw [holdDst.mem_items, holdSrc.mem_items, hsplit]
    simp only [List.mem_append] at hx ⊢
    tauto
  have hsrcSub : ∀ x ∈ left ++ freeSrc,
      x ∈ (s.trackers dst).items ∨ x ∈ (s.trackers src).items := by
    intro x hx
    rw [holdDst.mem_items, holdSrc.mem_items, hsplit]
    simp only [List.mem_append] at hx ⊢
    tauto
  have hallocated : ∀ x, x ∈ (s.trackers dst).items ∨ x ∈ (s.trackers src).items →
      x < s.nextItem := by
    rintro x (hx | hx)
    · exact holdDst.allocated x (holdDst.mem_items.mp hx)
    · exact holdSrc.allocated x (holdSrc.mem_items.mp hx)
  have hbetween : ∀ x ∈ usedSrc ++ top, x ∉ left ++ freeSrc := by
    intro x hx hx'
    have hnd := holdDst.shape.nodup
    rw [hsplit] at hnd hapart
    rcases List.mem_append.mp hx with hx | hx <;> rcases List.mem_append.mp hx' with hx' | hx'
    · exact hapart x (List.mem_append_right _ hx') (List.mem_append_left _ hx)
    · exact List.disjoint_of_nodup_append holdSrc.shape.nodup hx hx'
    · exact List.disjoint_of_nodup_append hnd hx hx'
    · exact hapart x (List.mem_append_left _ hx) (List.mem_append_right _ hx')
  refine ⟨⟨fun u => ?_, ?_, h.done⟩, ?_, ?_, ?_⟩
  · by_cases hd : u = dst
    · subst hd
      refine ⟨usedSrc, top, hshapeDst, fun x hx => hallocated x (hdstSub x hx), holdSrc.oneEach, ?_⟩
      intro p hp hlt
      rw [howedDst] at hp
      exact holdSrc.covers p hp hlt
    · by_cases hs : u = src
      · subst hs
        refine ⟨[], left ++ freeSrc, hshapeSrc, fun x hx => hallocated x (hsrcSub x hx),
          by simp, ?_⟩
        intro p hp hlt
        rw [howedSrc] at hp
        exact absurd hp List.not_mem_nil
      · obtain ⟨used, free, hold⟩ := h.holds u
        exact ⟨used, free, hold.frame (hrest u hd hs) (howedRest u hd hs)
          (fun _ _ => ⟨rfl, rfl⟩) (fun _ => Nat.le_refl _) (Nat.le_refl _)⟩
  · -- the items of the two trackers are those they had before
    have hold : ∀ u, u = dst ∨ u = src → ∀ x ∈ ((s.step (.move dst src hne)).trackers u).items,
        x ∈ (s.trackers dst).items ∨ x ∈ (s.trackers src).items := by
      rintro u (rfl | rfl) x hx
      · exact hdstSub x (hshapeDst.items ▸ hx)
      · exact hsrcSub x (hshapeSrc.items ▸ hx)
    have hother : ∀ u v, u = dst ∨ u = src → v ≠ dst → v ≠ src →
        ∀ x ∈ ((s.step (.move dst src hne)).trackers u).items,
          x ∉ ((s.step (.move dst src hne)).trackers v).items := by
      intro u v hu hvd hvs x hx
      rw [hrest v hvd hvs]
      rcases hold u hu x hx with hx | hx
      · exact h.disjoint dst v (Ne.symm hvd) x hx
      · exact h.disjoint src v (Ne.symm hvs) x hx
    intro u v huv x hx hx'
    by_cases hu : u = dst ∨ u = src
    · by_cases hv : v = dst ∨ v = src
      · rcases hu with rfl | rfl <;> rcases hv with rfl | rfl
        · exact huv rfl
        · exact hbetween x (hshapeDst.items ▸ hx) (hshapeSrc.items ▸ hx')
        · exact hbetween x (hshapeDst.items ▸ hx') (hshapeSrc.items ▸ hx)
        · exact huv rfl
      · rw [not_or] at hv
        exact hother u v hu hv.1 hv.2 x hx hx'
    · rw [not_or] at hu
      by_cases hv : v = dst ∨ v = src
      · exact hother v u hv hu.1 hu.2 x hx' hx
      · rw [not_or] at hv
        rw [hrest u hu.1 hu.2] at hx
        rw [hrest v hv.1 hv.2] at hx'
        exact h.disjoint u v huv x hx hx'
  · rw [State.used, hshapeDst.items, hshapeDst.count, List.take_left, holdSrc.used_eq]
  · rw [State.used, hshapeSrc.count]
    rfl
  · rw [hshapeDst.items, hshapeSrc.items, holdDst.shape.items, holdSrc.shape.items, hsplit]
    have hcomm : (usedSrc ++ (top ++ left)).Perm ((top ++ left) ++ usedSrc) :=
      List.perm_append_comm
    have hswap := hcomm.append_right freeSrc
    simpa using hswap

theorem Inv.step_move (h : s.Inv) : (s.step (.move dst src hne)).Inv ∧
      (s.MoveRight (.move dst src hne) ↔ s.MoveMeets (.move dst src hne)) := by
  by_cases hempty : (s.trackers src).nUsedItems = 0
  · exact h.step_move_of_empty hne hempty
  · obtain ⟨hinv, hright⟩ := h.step_move_of_used hne hempty
    exact ⟨hinv, iff_of_true hright (.inl hempty)⟩

end Move

variable [DecidableEq C]

theorem Inv.step (h : s.Inv) (op : Op C) : (s.step op).Inv := by
  cases op with
  | merge t c seq => exact h.step_merge
  | grow t nItems allocs =>
    obtain ⟨used, free, hold⟩ := h.holds t
    obtain ⟨free', hold', honly⟩ := hold.grow nItems allocs
    exact h.update honly ⟨used, free', hold'⟩
  | shrink t => exact h.step_shrink
  | reset t => exact h.step_reset
  | move dst src hne => exact (h.step_move hne).1
  | query t progress =>
    obtain ⟨used, free, hold⟩ := h.holds t
    obtain ⟨honly, hold'⟩ := hold.query progress h.done
    exact h.update honly hold'
  | complete n =>
    obtain ⟨used, free, hold⟩ := h.holds 0
    exact h.update (.complete n) ⟨used, free, hold.complete n⟩

/-- **In every run the trackers are sound**, and the moves do what they are for exactly when the
source has a used item or the destination has none. -/
theorem moves_right_iff (ops : List (Op C)) : HoldsAlong State.step Sound init ops ∧
      (StepsMeet State.step MoveRight init ops ↔ StepsMeet State.step MoveMeets init ops) := by
  have hinv : ∀ pre, (run State.step (init : State C) pre).Inv :=
    run_inv State.step init_inv fun s op h => h.step op
  have hmove : ∀ pre op, (run State.step (init : State C) pre).MoveRight op ↔
      (run State.step (init : State C) pre).MoveMeets op := by
    intro pre op
    cases op with
    | move dst src hne => exact ((hinv pre).step_move hne).2
    | _ => exact Iff.rfl
  refine ⟨fun pre _ => (hinv pre).sound, ?_, ?_⟩
  · exact fun h pre op hpre => (hmove pre op).mp (h pre op hpre)
  · exact fun h pre op hpre => (hmove pre op).mpr (h pre op hpre)

/-- Tracker 0 has one item in use; tracker 1 has none. -/
def oneMerged : List (Op Unit) := [.grow 0 1 1, .merge 0 () 5]

/-- A move of a tracker without used items leaves the old contents of the destination. -/
theorem empty_move_keeps_contents :
    ¬ StepsMeet State.step MoveRight init (oneMerged ++ [.move 0 1 (by decide)]) := by
  intro h
  have hright := h oneMerged _ (List.prefix_refl _)
  revert hright
  unfold MoveRight
  decide

end State

end NvUvm.LiteTracker
