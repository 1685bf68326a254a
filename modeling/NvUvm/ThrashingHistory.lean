import NvUvm.PerfThrashing

/-!
# Thrashing detection against the events of a page

What `uvm8_perf_thrashing.c` knows of a page, beside what has happened to it: the streak of events
that came within the lapse of the one before, and the throttlings that have begun since the pages'
structures were allocated.  Time stamps are compared as the module does, in the resolution of a page's
time stamp.
-/

namespace NvUvm.ThrashingHistory

open Lib
open Function (update update_of_ne update_self)

variable (params : ThrashingParams)

/-! ## Histories -/

/-- The stamp of a page's last event, the number of its last events that each came within the lapse of
the one before, and the number of throttlings that have begun. -/
structure PageHistory where
  lastEvent : Option (BitVec 58)
  streak : ℕ
  begun : ℕ

/-- An event comes within the lapse of the one before. -/
def PageHistory.Within (h : PageHistory) (e : ThrashingEvent) : Prop :=
  ∃ stamp ∈ h.lastEvent, e.timeStamp - stamp.setWidth 64 <<< 6 ≤ params.lapseNs

instance (h : PageHistory) (e : ThrashingEvent) : Decidable (h.Within params e) :=
  match hlast : h.lastEvent with
  | none => .isFalse fun ⟨_, hmem, _⟩ => by
      rw [hlast] at hmem
      exact nomatch hmem
  | some stamp => decidable_of_iff (e.timeStamp - stamp.setWidth 64 <<< 6 ≤ params.lapseNs)
      ⟨fun hle => ⟨stamp, hlast, hle⟩, fun ⟨stamp', hmem, hle⟩ => by
        rw [hlast] at hmem
        obtain rfl : stamp = stamp' := Option.some.inj hmem
        exact hle⟩

def PageHistory.event (h : PageHistory) (e : ThrashingEvent) : PageHistory :=
  { h with
    lastEvent := some (pageTimeStamp e.timeStamp)
    streak := if h.Within params e then h.streak + 1 else 0 }

/-- A block's structure with the histories of its pages. -/
structure Traced where
  info : Option BlockThrashing
  history : ℕ → PageHistory

def eventHistory (e : ThrashingEvent) (history : ℕ → PageHistory) : ℕ → PageHistory := fun p =>
  if e.Counts ∧ p ∈ e.pages then (history p).event params e else history p

/-- A hint begins a throttling when it throttles a processor that was not throttled. -/
def beginsThrottling (r : HintRequest) (info : BlockThrashing) : Bool :=
  match (blockHint params r info).1 with
  | .throttle => !(info.pages r.page).throttledProcessors r.requester
  | _ => false

/-- The throttlings are forgotten with the pages' structures. -/
def forget (history : ℕ → PageHistory) : ℕ → PageHistory := fun p => { history p with begun := 0 }

def hintHistory (r : HintRequest) (info : BlockThrashing) (history : ℕ → PageHistory) :
    ℕ → PageHistory :=
  if (blockHint params r info).2.hasPages = false then forget history
  else if beginsThrottling params r info then
    update history r.page
      { history r.page with begun := (history r.page).begun + 1 }
  else history

def step (s : Traced) (op : ThrashingOp) : Traced where
  info := thrashingStep params s.info op
  history :=
    if params.enable then
      match op with
      | .event e => eventHistory params e s.history
      | .getHint r =>
        match s.info with
        | none => s.history
        | some info => hintHistory params r info s.history
      | .destroy => forget s.history
    else s.history

/-- A block without a structure, and nothing has happened to its pages. -/
def init : Traced := ⟨none, fun _ => ⟨none, 0, 0⟩⟩

/-! ## The claim about a step -/

/-- A request reaches the last branch of `get_hint_for_migration_thrashing`: throttle first, then
pin. -/
structure ThrottleThenPin (r : HintRequest) (info : BlockThrashing) : Prop where
  hasPages : info.hasPages = true
  epoch : ¬ (info.lastThrashingTimeStamp ≠ 0 ∧ info.thrashingResetCount < params.maxResets ∧
    params.epochNs < r.timeStamp - info.lastThrashingTimeStamp)
  thrashing : params.threshold ≤ (info.pages r.page).numThrashingEvents
  lapse : ¬ params.lapseNs < r.timeStamp - (info.pages r.page).timeStamp
  migration : ¬ ((info.pages r.page).hasRevocationEvents ∧ !(info.pages r.page).hasMigrationEvents)
  preferred : r.preferredLocation = none
  nvlink : (r.closestResidentInMask (update (info.pages r.page).processors r.requester
    true)).filter (fun id => processorSubset (update (info.pages r.page).processors
      r.requester true) (r.hasNvlinkFrom id)) = none

/-- A page that an event flags as thrashing has a streak of as many events as the threshold says, and
a page that has been throttled as often as the pin threshold says is pinned. -/
def StepRight (s : Traced) : ThrashingOp → Prop
  | .event e => ∀ info ∈ (step params s (.event e)).info, ∀ p, info.thrashingPages p = true →
      (∀ before ∈ s.info, before.thrashingPages p = false) →
        params.threshold ≤ ((step params s (.event e)).history p).streak
  | .getHint r => params.enable = true → ∀ info ∈ s.info, ThrottleThenPin params r info →
      (info.pages r.page).pinned = false → params.pinThreshold ≤ (s.history r.page).begun →
        ∃ residency processors, (thrashingGetHint params r s.info).1 = .pin residency processors
  | .destroy => True

/-- The condition on a step.  No event comes behind a gap to a page that has some thrashing events,
but not enough; and where a hint comes to the last branch, the pin threshold is one that the 8-bit
count of throttlings can reach, or the page has not been throttled that often. -/
def StepOk (s : Traced) : ThrashingOp → Prop
  | .event e => params.enable = true → e.Counts → ∀ info ∈ s.info, ∀ p ∈ e.pages,
      0 < (info.pages p).numThrashingEvents →
        (info.pages p).numThrashingEvents < params.threshold →
          (info.pages p).timeStamp ≠ 0 ∧ e.timeStamp - (info.pages p).timeStamp ≤ params.lapseNs
  | .getHint r => params.enable = true → ∀ info ∈ s.info, ThrottleThenPin params r info →
      (info.pages r.page).pinned = false →
        params.pinThreshold ≤ 255 ∨ (s.history r.page).begun < params.pinThreshold
  | .destroy => True

/-! ## What an event does to a page -/

variable {params} {e : ThrashingEvent} {r : HintRequest} {info : BlockThrashing} {index : ℕ}
  {page : PageThrashing} {h : PageHistory} {history : ℕ → PageHistory}

/-- A page's structure behind `thrashing_reset_page`. -/
def resetPage (page : PageThrashing) : PageThrashing :=
  { page with
    lastTimeStamp := 0
    hasMigrationEvents := false
    hasRevocationEvents := false
    numThrashingEvents := 0
    throttledProcessors := fun _ => false }

variable (params) in
/-- A page's structure behind an event, from that before it. -/
def pageAfter (e : ThrashingEvent) (page : PageThrashing) : PageThrashing :=
  if page.timeStamp = 0 then touchPage e page
  else if e.timeStamp - page.timeStamp ≤ params.lapseNs then countEvent e (touchPage e page)
  else if params.threshold ≤ page.numThrashingEvents then resetPage (touchPage e page)
  else touchPage e page

theorem updatePage_pages (e : ThrashingEvent) (info : BlockThrashing) (index : ℕ) :
    (updatePage params e info index).pages =
      update info.pages index (pageAfter params e (info.pages index)) := by
  unfold updatePage pageAfter
  dsimp only
  split
  · rfl
  · split
    · split
      · split
        · rfl
        · rfl
      · split
        · rfl
        · rfl
    · -- the number of events is that before the event
      have hnum : (touchPage e (info.pages index)).numThrashingEvents =
          (info.pages index).numThrashingEvents := rfl
      rw [hnum]
      split
      · unfold thrashingResetPage BlockThrashing.setPage resetPage
        dsimp only
        rw [Function.update_idem, update_self]
      · rfl

variable (params) in
theorem foldl_updatePage_pages (e : ThrashingEvent) {pages : List ℕ} (hnd : pages.Nodup)
    (info : BlockThrashing) (p : ℕ) : (pages.foldl (updatePage params e) info).pages p =
      if p ∈ pages then pageAfter params e (info.pages p) else info.pages p := by
  induction pages generalizing info with
  | nil => rfl
  | cons index pages ih =>
    obtain ⟨hnot, hnd⟩ := List.nodup_cons.mp hnd
    rw [List.foldl_cons, ih hnd, updatePage_pages]
    by_cases hp : p = index
    · subst hp
      rw [if_neg hnot, update_self, if_pos List.mem_cons_self]
    · rw [update_of_ne hp]
      simp only [List.mem_cons, hp, false_or]

theorem foldl_updatePage_hasPages (e : ThrashingEvent) (pages : List ℕ) {info : BlockThrashing}
    (hhas : info.hasPages = true) : (pages.foldl (updatePage params e) info).hasPages = true := by
  induction pages generalizing info with
  | nil => exact hhas
  | cons index pages ih =>
    refine ih ?_
    unfold updatePage
    dsimp only
    split
    · exact hhas
    · split
      · split
        · split
          · exact hhas
          · exact hhas
        · split
          · exact hhas
          · exact hhas
      · split
        · exact hhas
        · exact hhas

/-! ## A page and its history -/

/-- What a page's structure says of its history: the stamp is that of the last event, below the
threshold the number of events is not above the streak, and the count of throttlings stops at 255. -/
structure PageOk (threshold : ℕ) (page : PageThrashing) (h : PageHistory) : Prop where
  stamp : page.lastTimeStamp = 0 ∨ h.lastEvent = some page.lastTimeStamp
  num : page.numThrashingEvents < threshold → page.numThrashingEvents ≤ h.streak
  count : page.throttlingCount = min 255 h.begun

theorem PageOk.zero (threshold : ℕ) (hbegun : h.begun = 0) : PageOk threshold .zero h := by
  refine ⟨.inl rfl, fun _ => Nat.zero_le _, ?_⟩
  rw [hbegun]
  rfl

theorem PageOk.within (hok : PageOk params.threshold page h) (hstamp : page.timeStamp ≠ 0)
    (hlapse : e.timeStamp - page.timeStamp ≤ params.lapseNs) : h.Within params e := by
  rcases hok.stamp with hzero | hlast
  · refine absurd ?_ hstamp
    unfold PageThrashing.timeStamp
    rw [hzero]
    rfl
  · exact ⟨page.lastTimeStamp, hlast, hlapse⟩

/-- **An event of a page** keeps what the structure says of the history, unless it comes behind a gap
to a page with some events; and a page that it flags has a long enough streak. -/
theorem PageOk.event (hok : PageOk params.threshold page h)
    (hbounded : page.numThrashingEvents ≤ thresholdMax)
    (hgap : 0 < page.numThrashingEvents → page.numThrashingEvents < params.threshold →
      page.timeStamp ≠ 0 ∧ e.timeStamp - page.timeStamp ≤ params.lapseNs) :
    PageOk params.threshold (pageAfter params e page) (h.event params e) ∧
      (page.numThrashingEvents < params.threshold →
        params.threshold ≤ (pageAfter params e page).numThrashingEvents →
          params.threshold ≤ (h.event params e).streak) := by
  have hpos := params.threshold_pos
  have hle := params.threshold_le
  unfold pageAfter
  split
  · next hzero =>
    -- the first event since the structure was reset
    have hquiet : page.numThrashingEvents < params.threshold → page.numThrashingEvents = 0 := by
      intro hlt
      by_contra hne
      exact (hgap (Nat.pos_of_ne_zero hne) hlt).1 hzero
    refine ⟨⟨.inr rfl, fun hlt => ?_, hok.count⟩, fun hlt hthr => ?_⟩
    · show page.numThrashingEvents ≤ _
      rw [hquiet hlt]
      exact Nat.zero_le _
    · exact absurd hlt (Nat.not_lt.mpr hthr)
  · next hstamp =>
    split
    · next hlapse =>
      have hwithin := hok.within hstamp hlapse
      have hstreak : (h.event params e).streak = h.streak + 1 := if_pos hwithin
      have hnum : (countEvent e (touchPage e page)).numThrashingEvents =
          if page.numThrashingEvents = thresholdMax then thresholdMax
          else page.numThrashingEvents + 1 := saturatingInc_eq hbounded
      refine ⟨⟨.inr rfl, fun hlt => ?_, hok.count⟩, fun hlt hthr => ?_⟩
      · rw [hnum] at hlt ⊢
        split at hlt
        · omega
        · next hmax =>
          rw [if_neg hmax]
          have hbefore := hok.num (by omega)
          omega
      · rw [hnum] at hthr
        have hbefore := hok.num hlt
        split at hthr
        · omega
        · omega
    · next hlapse =>
      split
      · refine ⟨⟨.inl rfl, fun _ => Nat.zero_le _, hok.count⟩, fun _ hthr => ?_⟩
        exact absurd hpos (Nat.not_lt.mpr hthr)
      · next hthrash =>
        -- behind a gap there are no events to be forgotten
        have hquiet : page.numThrashingEvents = 0 := by
          by_contra hne
          exact hlapse (hgap (Nat.pos_of_ne_zero hne) (Nat.not_le.mp hthrash)).2
        refine ⟨⟨.inr rfl, fun _ => ?_, hok.count⟩, fun hlt hthr => ?_⟩
        · show page.numThrashingEvents ≤ _
          rw [hquiet]
          exact Nat.zero_le _
        · exact absurd hlt (Nat.not_lt.mpr hthr)

/-! ## Events of a block -/

/-- What a block's structure says of the histories of its pages. -/
structure BlockOk (threshold : ℕ) (info : BlockThrashing) (history : ℕ → PageHistory) : Prop where
  inv : info.Inv threshold
  zero : info.hasPages = false → ∀ p, info.pages p = .zero
  page : ∀ p, PageOk threshold (info.pages p) (history p)

variable (params) in
theorem BlockOk.new (hbegun : ∀ p, (history p).begun = 0) :
    BlockOk params.threshold .zero history :=
  ⟨BlockThrashing.zero_inv params, fun _ _ => rfl, fun p => PageOk.zero params.threshold (hbegun p)⟩

theorem BlockOk.event (hok : BlockOk params.threshold info history) (hcnts : e.Counts)
    (hgap : ∀ p ∈ e.pages, 0 < (info.pages p).numThrashingEvents →
      (info.pages p).numThrashingEvents < params.threshold → (info.pages p).timeStamp ≠ 0 ∧
        e.timeStamp - (info.pages p).timeStamp ≤ params.lapseNs) :
    BlockOk params.threshold (blockEvent params e info) (eventHistory params e history) ∧
      ∀ p, (blockEvent params e info).thrashingPages p = true → info.thrashingPages p = false →
        params.threshold ≤ (eventHistory params e history p).streak := by
  have hinv := (blockEvent_spec (e := e) hok.inv).1
  have hnd : e.pages.Nodup := List.nodup_range'
  have hin : ∀ p ∈ e.pages, eventHistory params e history p = (history p).event params e :=
    fun p hp => if_pos ⟨hcnts, hp⟩
  have hout : ∀ p, p ∉ e.pages → eventHistory params e history p = history p :=
    fun p hp => if_neg fun h => hp h.2
  have hpage := fun p (hp : p ∈ e.pages) => (hok.page p).event (hok.inv.bounded p) (hgap p hp)
  -- the pages' structures change where the event reaches them, or not at all
  have hpages : ((blockEvent params e info).hasPages = true ∧ ∀ p,
        (blockEvent params e info).pages p =
          if p ∈ e.pages then pageAfter params e (info.pages p) else info.pages p) ∨
      (info.hasPages = false ∧ (blockEvent params e info).hasPages = false ∧
        (blockEvent params e info).pages = info.pages) := by
    unfold blockEvent
    split
    · next hhas =>
      exact .inl ⟨foldl_updatePage_hasPages e e.pages hhas, foldl_updatePage_pages params e hnd info⟩
    · next hhas =>
      have hhas : info.hasPages = false := Bool.not_eq_true _ ▸ hhas
      split
      · refine .inl ⟨foldl_updatePage_hasPages e e.pages rfl, fun p => ?_⟩
        have hfold := foldl_updatePage_pages params e hnd
          { info with hasPages := true, pages := fun _ => .zero } p
        rw [hok.zero hhas p]
        exact hfold
      · exact .inr ⟨hhas, hhas, rfl⟩
  rcases hpages with ⟨hhas, hpages⟩ | ⟨hnone, hhas, hpages⟩
  · refine ⟨⟨hinv, fun hno => ?_, fun p => ?_⟩, fun p hflagged hclear => ?_⟩
    · rw [hhas] at hno
      exact nomatch hno
    · rw [hpages p]
      by_cases hp : p ∈ e.pages
      · rw [if_pos hp, hin p hp]
        exact (hpage p hp).1
      · rw [if_neg hp, hout p hp]
        exact hok.page p
    · have hreached := (hinv.marked p).mp hflagged
      have hbefore : (info.pages p).numThrashingEvents < params.threshold := by
        by_contra hge
        rw [(hok.inv.marked p).mpr (Nat.not_lt.mp hge)] at hclear
        exact nomatch hclear
      rw [hpages p] at hreached
      by_cases hp : p ∈ e.pages
      · rw [if_pos hp] at hreached
        rw [hin p hp]
        exact (hpage p hp).2 hbefore hreached
      · rw [if_neg hp] at hreached
        exact absurd hbefore (Nat.not_lt.mpr hreached)
  · refine ⟨⟨hinv, fun _ p => ?_, fun p => ?_⟩, fun p hflagged _ => ?_⟩
    · rw [hpages]
      exact hok.zero hnone p
    · -- without the pages' structures the event is not seen
      rw [hpages, hok.zero hnone p]
      have hcnt := (hok.page p).count
      rw [hok.zero hnone p] at hcnt
      refine ⟨.inl rfl, fun _ => Nat.zero_le _, hcnt.trans ?_⟩
      unfold eventHistory
      split
      · rfl
      · rfl
    · rw [hinv.unmarked hhas p] at hflagged
      exact nomatch hflagged

/-! ## Hints -/

/-- The requester is one of the page's processors. -/
def requested (r : HintRequest) (info : BlockThrashing) : BlockThrashing :=
  info.setPage r.page { info.pages r.page with
    processors := update (info.pages r.page).processors r.requester true }

variable (params) in
theorem getHintForMigrationThrashing_cases (r : HintRequest) (info : BlockThrashing) :
    getHintForMigrationThrashing params r info = throttle r info ∨
      ∃ residency, getHintForMigrationThrashing params r info = pin r residency info := by
  unfold getHintForMigrationThrashing
  dsimp only
  split
  · split
    · exact .inr ⟨_, rfl⟩
    · exact .inl rfl
  · split
    · exact .inr ⟨_, rfl⟩
    · split
      · exact .inr ⟨_, rfl⟩
      · exact .inl rfl

variable (params) in
theorem blockHint_cases (r : HintRequest) (info : BlockThrashing) :
    blockHint params r info = (.none, info) ∨
      blockHint params r info = (.none, resetBlock info) ∨
      (info.hasPages = true ∧ blockHint params r info = (.none, thrashingResetPage info r.page)) ∨
      (info.hasPages = true ∧ blockHint params r info = throttle r (requested r info)) ∨
      (info.hasPages = true ∧ ∃ residency,
        blockHint params r info = pin r residency (requested r info)) := by
  unfold blockHint
  split
  · exact .inl rfl
  next hhas =>
  have hhas : info.hasPages = true := by simpa using hhas
  split
  · exact .inr (.inl rfl)
  split
  · exact .inl rfl
  split
  · exact .inr (.inr (.inl ⟨hhas, rfl⟩))
  dsimp only
  split
  · exact .inr (.inr (.inr (.inl ⟨hhas, rfl⟩)))
  · rcases getHintForMigrationThrashing_cases params r (requested r info) with
      heq | ⟨residency, heq⟩
    · exact .inr (.inr (.inr (.inl ⟨hhas, heq⟩)))
    · exact .inr (.inr (.inr (.inr ⟨hhas, residency, heq⟩)))

theorem BlockOk.setPage (hok : BlockOk params.threshold info history) (q : ℕ)
    {info' : BlockThrashing} (hinv : info'.Inv params.threshold) (hhas : info'.hasPages = true)
    (hpages : ∀ p, p ≠ q → info'.pages p = info.pages p) {history' : ℕ → PageHistory}
    (hhistory : ∀ p, p ≠ q → history' p = history p)
    (hpage : PageOk params.threshold (info'.pages q) (history' q)) :
    BlockOk params.threshold info' history' := by
  refine ⟨hinv, fun hno => ?_, fun p => ?_⟩
  · rw [hhas] at hno
    exact nomatch hno
  · by_cases hp : p = q
    · rw [hp]
      exact hpage
    · rw [hpages p hp, hhistory p hp]
      exact hok.page p

/-- What a throttling leaves of the page. -/
structure Throttled (r : HintRequest) (info info' : BlockThrashing) : Prop where
  hasPages : info'.hasPages = info.hasPages
  others : ∀ p, p ≠ r.page → info'.pages p = info.pages p
  stamp : (info'.pages r.page).lastTimeStamp = (info.pages r.page).lastTimeStamp
  num : (info'.pages r.page).numThrashingEvents = (info.pages r.page).numThrashingEvents
  count : (info'.pages r.page).throttlingCount =
    if (info.pages r.page).throttledProcessors r.requester then (info.pages r.page).throttlingCount
    else saturatingInc 255 (info.pages r.page).throttlingCount

theorem throttle_throttled (r : HintRequest) (info : BlockThrashing) :
    (throttle r info).1 = .throttle ∧ Throttled r info (throttle r info).2 := by
  unfold throttle
  dsimp only
  split
  · next hthrottled =>
    refine ⟨rfl, rfl, fun _ _ => rfl, rfl, rfl, ?_⟩
    rw [if_pos hthrottled]
  · next hthrottled =>
    have hself : ∀ x : PageThrashing, update info.pages r.page x r.page = x :=
      fun x => update_self ..
    refine ⟨rfl, rfl, fun p hp => update_of_ne hp .., ?_, ?_, ?_⟩
    · exact (congrArg PageThrashing.lastTimeStamp (hself _) :)
    · exact (congrArg PageThrashing.numThrashingEvents (hself _) :)
    · rw [if_neg hthrottled]
      exact (congrArg PageThrashing.throttlingCount (hself _) :)

theorem hintHistory_of_hasPages (hhas : (blockHint params r info).2.hasPages = true) :
    hintHistory params r info history = if beginsThrottling params r info then
      update history r.page { history r.page with begun := (history r.page).begun + 1 }
      else history := by
  unfold hintHistory
  rw [hhas, if_neg Bool.true_eq_false_eq_False]

theorem BlockOk.hint (hok : BlockOk params.threshold info history) (r : HintRequest) :
    BlockOk params.threshold (blockHint params r info).2 (hintHistory params r info history) := by
  have hinv := (blockHint_spec hok.inv r).1
  -- the page that was asked for, before the hint is chosen
  have hrequested : (requested r info).pages r.page = { info.pages r.page with
      processors := update (info.pages r.page).processors r.requester true } :=
    update_self ..
  have hframe : ∀ p, p ≠ r.page → (requested r info).pages p = info.pages p :=
    fun p hp => update_of_ne hp ..
  have hpage := hok.page r.page
  rcases blockHint_cases params r info with heq | heq | ⟨hhas, heq⟩ | ⟨hhas, heq⟩ |
    ⟨hhas, residency, heq⟩
  · cases hhas : info.hasPages with
    | false =>
      have hforget : hintHistory params r info history = forget history := by
        unfold hintHistory
        rw [heq]
        exact if_pos hhas
      rw [hforget, heq]
      refine ⟨hok.inv, hok.zero, fun p => ?_⟩
      rw [hok.zero hhas p]
      exact PageOk.zero params.threshold rfl
    | true =>
      have hnone : beginsThrottling params r info = false := by
        unfold beginsThrottling
        rw [heq]
      rw [hintHistory_of_hasPages (by rw [heq]; exact hhas), hnone, if_neg Bool.false_ne_true, heq]
      exact hok
  · -- the pages' structures are freed
    have hforget : hintHistory params r info history = forget history := by
      unfold hintHistory
      rw [heq]
      exact if_pos rfl
    rw [heq] at hinv
    rw [hforget, heq]
    exact ⟨hinv, fun _ _ => rfl, fun p => PageOk.zero params.threshold rfl⟩
  · have hnone : beginsThrottling params r info = false := by
      unfold beginsThrottling
      rw [heq]
    rw [heq] at hinv
    rw [hintHistory_of_hasPages (by rw [heq]; exact hhas), hnone, if_neg Bool.false_ne_true, heq]
    refine hok.setPage r.page hinv hhas (fun p hp => update_of_ne hp ..) (fun _ _ => rfl) ?_
    rw [show (thrashingResetPage info r.page).pages r.page = resetPage (info.pages r.page) from
      update_self ..]
    exact ⟨.inl rfl, fun _ => Nat.zero_le _, hpage.count⟩
  · obtain ⟨hhint, hthrottled⟩ := throttle_throttled r (requested r info)
    have hbegins : beginsThrottling params r info =
        !(info.pages r.page).throttledProcessors r.requester := by
      unfold beginsThrottling
      rw [heq, hhint]
    rw [heq] at hinv
    rw [hintHistory_of_hasPages (by rw [heq, hthrottled.hasPages]; exact hhas), hbegins, heq]
    have hcnt := hthrottled.count
    have hstamp := hthrottled.stamp
    have hnum := hthrottled.num
    rw [hrequested] at hcnt hstamp hnum
    dsimp only at hcnt hstamp hnum
    refine hok.setPage r.page hinv (hthrottled.hasPages.trans hhas)
      (fun p hp => (hthrottled.others p hp).trans (hframe p hp)) (fun p hp => ?_) ?_
    · split
      · exact update_of_ne hp ..
      · rfl
    · cases hbefore : (info.pages r.page).throttledProcessors r.requester with
      | true =>
        rw [hbefore, if_pos rfl] at hcnt
        refine ⟨hstamp ▸ hpage.stamp, fun hlt => ?_, hcnt.trans hpage.count⟩
        rw [hnum] at hlt ⊢
        exact hpage.num hlt
      | false =>
        -- one more throttling, up to the largest count
        rw [hbefore, if_neg Bool.false_ne_true] at hcnt
        rw [Bool.not_false, if_pos rfl, update_self]
        refine ⟨hstamp ▸ hpage.stamp, fun hlt => ?_, ?_⟩
        · rw [hnum] at hlt ⊢
          exact hpage.num hlt
        · have hbegun := hpage.count
          rw [hcnt, saturatingInc_eq (by omega), hbegun]
          dsimp only
          split
          · omega
          · omega
  · have hnone : beginsThrottling params r info = false := by
      unfold beginsThrottling
      rw [heq]
      rfl
    have hself : (pin r residency (requested r info)).2.pages r.page =
        { (requested r info).pages r.page with pinned := true } := update_self ..
    rw [heq] at hinv
    rw [hintHistory_of_hasPages (by rw [heq]; exact hhas), hnone, if_neg Bool.false_ne_true, heq]
    refine hok.setPage r.page hinv hhas (fun p hp => ?_) (fun _ _ => rfl) ?_
    · exact (update_of_ne hp ..).trans (hframe p hp)
    · rw [hself, hrequested]
      exact ⟨hpage.stamp, hpage.num, hpage.count⟩

theorem BlockOk.pins (hok : BlockOk params.threshold info history) (r : HintRequest)
    (hbranch : ThrottleThenPin params r info) (hpin : (info.pages r.page).pinned = false)
    (hreach : params.pinThreshold ≤ 255) (hbegun : params.pinThreshold ≤ (history r.page).begun) :
    ∃ residency processors, (blockHint params r info).1 = .pin residency processors := by
  have hcnt : params.pinThreshold ≤ (info.pages r.page).throttlingCount := by
    rw [(hok.page r.page).count]
    omega
  have hrequested : (requested r info).pages r.page = { info.pages r.page with
      processors := update (info.pages r.page).processors r.requester true } :=
    update_self ..
  have hnone : ¬ (!info.hasPages) = true := by
    rw [hbranch.hasPages]
    exact nofun
  unfold blockHint
  rw [if_neg hnone, if_neg hbranch.epoch, if_neg (Nat.not_lt.mpr hbranch.thrashing),
    if_neg hbranch.lapse]
  rw [if_neg hbranch.migration]
  show ∃ residency processors, (getHintForMigrationThrashing params r (requested r info)).1 =
    .pin residency processors
  unfold getHintForMigrationThrashing
  rw [hbranch.preferred, hrequested]
  dsimp only
  rw [hbranch.nvlink]
  dsimp only
  rw [if_pos ⟨hcnt, by rw [hpin]; rfl⟩]
  exact ⟨_, _, rfl⟩

/-! ## Runs -/

variable (params) in
/-- What the structure of a block, if it has one, says of the histories. -/
structure Inv (s : Traced) : Prop where
  block : ∀ info ∈ s.info, BlockOk params.threshold info s.history
  none : s.info = none → ∀ p, (s.history p).begun = 0

variable {s : Traced}

theorem inv_init : Inv params init := ⟨fun _ hinfo => (nomatch hinfo), fun _ _ => rfl⟩

theorem step_disabled (henable : params.enable = false) (s : Traced) (op : ThrashingOp) :
    step params s op = s := by
  unfold step thrashingStep
  rw [henable]
  rfl

theorem step_event (henable : params.enable = true) (s : Traced) (e : ThrashingEvent) :
    step params s (.event e) = ⟨thrashingEvent params e s.info, eventHistory params e s.history⟩ := by
  unfold step thrashingStep
  rw [henable]
  rfl

theorem step_getHint (henable : params.enable = true) (s : Traced) (r : HintRequest) :
    step params s (.getHint r) = ⟨(thrashingGetHint params r s.info).2, match s.info with
      | none => s.history
      | some info => hintHistory params r info s.history⟩ := by
  unfold step thrashingStep
  rw [henable]
  rfl

theorem eventHistory_begun (e : ThrashingEvent) (history : ℕ → PageHistory) (p : ℕ) :
    (eventHistory params e history p).begun = (history p).begun := by
  unfold eventHistory
  split
  · rfl
  · rfl

theorem Inv.event (h : Inv params s) (e : ThrashingEvent) (hgap : StepOk params s (.event e)) :
    Inv params (step params s (.event e)) ∧ StepRight params s (.event e) := by
  have hsame : step params s (.event e) = s → Inv params (step params s (.event e)) ∧
      StepRight params s (.event e) := by
    intro heq
    refine ⟨heq.symm ▸ h, fun info hinfo p hflagged hclear => ?_⟩
    rw [heq] at hinfo
    rw [hclear info hinfo] at hflagged
    exact nomatch hflagged
  cases henable : params.enable with
  | false => exact hsame (step_disabled henable s _)
  | true =>
    by_cases hcnts : e.Counts
    swap
    · have hhistory : eventHistory params e s.history = s.history :=
        funext fun p => if_neg fun hin => hcnts hin.1
      refine hsame ?_
      rw [step_event henable, hhistory]
      unfold thrashingEvent
      rw [if_neg hcnts]
    have hinfo : (step params s (.event e)).info =
        (thrashingInfoGetCreate e.infoMemory s.info).map (blockEvent params e) := by
      rw [step_event henable]
      exact if_pos hcnts
    have hhistory : (step params s (.event e)).history = eventHistory params e s.history := by
      rw [step_event henable]
    -- an old structure, or a new one
    have hev : ∀ info, thrashingInfoGetCreate e.infoMemory s.info = some info →
        BlockOk params.threshold (blockEvent params e info) (eventHistory params e s.history) ∧
          ∀ p, (blockEvent params e info).thrashingPages p = true →
            (∀ before ∈ s.info, before.thrashingPages p = false) →
              params.threshold ≤ (eventHistory params e s.history p).streak := by
      intro info hcreate
      unfold thrashingInfoGetCreate at hcreate
      cases hs : s.info with
      | some before =>
        rw [hs, Option.some_or] at hcreate
        obtain rfl := Option.some.inj hcreate
        obtain ⟨hok, hflag⟩ := (h.block before hs).event hcnts (hgap henable hcnts before hs)
        exact ⟨hok, fun p hp hclear => hflag p hp (hclear before rfl)⟩
      | none =>
        rw [hs, Option.none_or] at hcreate
        split at hcreate
        swap
        · exact nomatch hcreate
        obtain rfl := Option.some.inj hcreate
        have hnew := BlockOk.new params (h.none hs)
        obtain ⟨hok, hflag⟩ := hnew.event hcnts fun p _ hpos => absurd hpos (Nat.lt_irrefl 0)
        exact ⟨hok, fun p hp _ => hflag p hp rfl⟩
    refine ⟨⟨fun info' hinfo' => ?_, fun hnone p => ?_⟩, fun info' hinfo' p hflagged hclear => ?_⟩
    · rw [hinfo] at hinfo'
      obtain ⟨info, hcreate, rfl⟩ := Option.map_eq_some_iff.mp hinfo'
      rw [hhistory]
      exact (hev info hcreate).1
    · rw [hinfo] at hnone
      have hcreate := Option.map_eq_none_iff.mp hnone
      unfold thrashingInfoGetCreate at hcreate
      rw [hhistory, eventHistory_begun]
      exact h.none (Option.or_eq_none_iff.mp hcreate).1 p
    · rw [hinfo] at hinfo'
      obtain ⟨info, hcreate, rfl⟩ := Option.map_eq_some_iff.mp hinfo'
      rw [hhistory]
      exact (hev info hcreate).2 p hflagged hclear

theorem Inv.getHint (h : Inv params s) (r : HintRequest) (hok : StepOk params s (.getHint r)) :
    Inv params (step params s (.getHint r)) ∧ StepRight params s (.getHint r) := by
  refine ⟨?_, fun henable info hinfo hbranch hpin hbegun => ?_⟩
  · cases henable : params.enable with
    | false =>
      rw [step_disabled henable]
      exact h
    | true =>
      rw [step_getHint henable]
      cases hs : s.info with
      | none => exact ⟨fun _ hinfo => (nomatch hinfo), fun _ => h.none hs⟩
      | some info =>
        refine ⟨fun info' hinfo' => ?_, fun hnone => nomatch hnone⟩
        obtain rfl : _ = info' := Option.some.inj hinfo'
        exact (h.block info hs).hint r
  · have hreach : params.pinThreshold ≤ 255 := by
      rcases hok henable info hinfo hbranch hpin with hle | hlt
      · exact hle
      · exact absurd hbegun (Nat.not_le.mpr hlt)
    rw [show s.info = some info from hinfo]
    exact (h.block info hinfo).pins r hbranch hpin hreach hbegun

theorem Inv.step (h : Inv params s) (op : ThrashingOp) (hok : StepOk params s op) :
    Inv params (step params s op) ∧ StepRight params s op := by
  cases op with
  | event e => exact h.event e hok
  | getHint r => exact h.getHint r hok
  | destroy =>
    refine ⟨?_, trivial⟩
    cases henable : params.enable with
    | false =>
      rw [step_disabled henable]
      exact h
    | true =>
      unfold ThrashingHistory.step thrashingStep
      rw [henable]
      exact ⟨fun _ hinfo => (nomatch hinfo), fun _ _ => rfl⟩

end NvUvm.ThrashingHistory
