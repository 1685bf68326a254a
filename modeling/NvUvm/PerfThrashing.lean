import Mathlib.Data.BitVec
import NvUvm.PageMask
import NvUvm.Lib.Run

/-!
# Thrashing detection of a VA block

Model of `uvm8_perf_thrashing.c`: migrations and revocations of a page that follow each other closely
are counted, and a page with as many of them as the threshold says is thrashing.  The block counts
its thrashing pages and keeps a mask of them.

Time stamps are 64-bit values, and those of a page lose their lowest bits.  What is recorded for the
tools is left out.
-/

namespace NvUvm

open Lib
open Function (update_of_ne update_self)

/-! ## Tunables -/

/-- `UVM_PERF_THRASHING_THRESHOLD_MAX`: the number of events of a page has 3 bits. -/
def thresholdMax : ℕ := 7

/-- The tunables as the module uses them. -/
structure ThrashingParams where
  enable : Bool
  threshold : ℕ
  pinThreshold : ℕ
  lapseNs : BitVec 64
  epochNs : BitVec 64
  maxResets : ℕ
  threshold_pos : 0 < threshold
  threshold_le : threshold ≤ thresholdMax

/-- `UVM_PERF_SATURATING_INC` on a counter whose largest value is `max`. -/
def saturatingInc (max counter : ℕ) : ℕ :=
  if (counter + 1) % (max + 1) ≠ counter + 1 then max else (counter + 1) % (max + 1)

/-- `page_thrashing_info_t`. -/
structure PageThrashing where
  lastTimeStamp : BitVec 58
  hasMigrationEvents : Bool
  hasRevocationEvents : Bool
  numThrashingEvents : ℕ
  pinned : Bool
  throttlingCount : ℕ
  processors : ProcessorMask
  throttledProcessors : ProcessorMask

def PageThrashing.zero : PageThrashing where
  lastTimeStamp := 0
  hasMigrationEvents := false
  hasRevocationEvents := false
  numThrashingEvents := 0
  pinned := false
  throttlingCount := 0
  processors := fun _ => false
  throttledProcessors := fun _ => false

/-- `page_thrashing_get_time_stamp`. -/
def PageThrashing.timeStamp (page : PageThrashing) : BitVec 64 :=
  page.lastTimeStamp.setWidth 64 <<< 6

/-- `page_thrashing_set_time_stamp`, of its argument. -/
def pageTimeStamp (timeStamp : BitVec 64) : BitVec 58 := (timeStamp >>> 6).setWidth 58

/-- `block_thrashing_info_t`.  Without the pages' structures (`hasPages`) those here are zero. -/
structure BlockThrashing where
  hasPages : Bool
  pages : ℕ → PageThrashing
  numThrashingPages : ℕ
  thrashingResetCount : ℕ
  lastProcessor : Option ProcessorId
  lastTimeStamp : BitVec 64
  lastThrashingTimeStamp : BitVec 64
  throttlingCount : ℕ
  pinCount : ℕ
  thrashingPages : PageMask

def BlockThrashing.zero : BlockThrashing where
  hasPages := false
  pages := fun _ => .zero
  numThrashingPages := 0
  thrashingResetCount := 0
  lastProcessor := none
  lastTimeStamp := 0
  lastThrashingTimeStamp := 0
  throttlingCount := 0
  pinCount := 0
  thrashingPages := fun _ => false

def BlockThrashing.setPage (info : BlockThrashing) (index : ℕ) (page : PageThrashing) :
    BlockThrashing :=
  { info with pages := Function.update info.pages index page }

/-! ## Events -/

inductive MigrationCause where
  | user
  | coherence
  | prefetch
  | evict
  deriving DecidableEq, Repr

inductive ThrashingEventKind where
  | migration (cause : MigrationCause)
  | revocation
  deriving DecidableEq, Repr

/-- An event of the block, with the time of the callback and whether it finds memory for the two
structures. -/
structure ThrashingEvent where
  kind : ThrashingEventKind
  region : BlockRegion
  processorId : ProcessorId
  timeStamp : BitVec 64
  infoMemory : Bool
  pagesMemory : Bool
  region_le : region.outer ≤ pages2m

/-- Only migrations due to faults and prefetching count. -/
def ThrashingEvent.Counts (e : ThrashingEvent) : Prop :=
  e.kind = .revocation ∨ e.kind = .migration .coherence ∨ e.kind = .migration .prefetch

instance (e : ThrashingEvent) : Decidable e.Counts := inferInstanceAs (Decidable (_ ∨ _))

section

variable (params : ThrashingParams)

def thrashingResetPage (info : BlockThrashing) (index : ℕ) : BlockThrashing :=
  { info with
    thrashingPages := info.thrashingPages.setBit index false
    numThrashingPages := (info.numThrashingPages + (2 ^ 16 - 1)) % 2 ^ 16 }.setPage index
    { info.pages index with
      lastTimeStamp := 0
      hasMigrationEvents := false
      hasRevocationEvents := false
      numThrashingEvents := 0
      throttledProcessors := fun _ => false }

def markThrashing (info : BlockThrashing) (index : ℕ) : BlockThrashing :=
  { info with
    thrashingPages := info.thrashingPages.setBit index true
    numThrashingPages := (info.numThrashingPages + 1) % 2 ^ 16 }

/-- The page's structure after its processors and its time stamp have been updated. -/
def touchPage (e : ThrashingEvent) (page : PageThrashing) : PageThrashing :=
  { page with
    pinned := page.processors e.processorId && page.pinned
    processors := Function.update page.processors e.processorId true
    lastTimeStamp := pageTimeStamp e.timeStamp }

/-- The page's structure after one more event within the lapse. -/
def countEvent (e : ThrashingEvent) (page : PageThrashing) : PageThrashing :=
  { page with
    numThrashingEvents := saturatingInc thresholdMax page.numThrashingEvents
    hasMigrationEvents := page.hasMigrationEvents || decide (e.kind ≠ .revocation)
    hasRevocationEvents := page.hasRevocationEvents || decide (e.kind = .revocation) }

/-- What `thrashing_event_cb` does to one page of its region. -/
def updatePage (e : ThrashingEvent) (info : BlockThrashing) (index : ℕ) : BlockThrashing :=
  let lastTimeStamp := (info.pages index).timeStamp
  let page := touchPage e (info.pages index)
  if lastTimeStamp = 0 then info.setPage index page
  else if e.timeStamp - lastTimeStamp ≤ params.lapseNs then
    let page := countEvent e page
    let info := if page.numThrashingEvents = params.threshold then markThrashing info index else info
    let info := if params.threshold ≤ page.numThrashingEvents then
      { info with lastThrashingTimeStamp := e.timeStamp } else info
    info.setPage index page
  else if params.threshold ≤ page.numThrashingEvents then
    thrashingResetPage (info.setPage index page) index
  else info.setPage index page

def ThrashingEvent.pages (e : ThrashingEvent) : List ℕ :=
  List.range' e.region.first (e.region.outer - e.region.first)

/-- The pages' structures are not created unless there is some potential thrashing. -/
def mayThrash (e : ThrashingEvent) (info : BlockThrashing) : Prop :=
  info.lastTimeStamp ≠ 0 ∧ info.lastProcessor ≠ some e.processorId ∧
    e.timeStamp - info.lastTimeStamp ≤ params.lapseNs

instance (e : ThrashingEvent) (info : BlockThrashing) : Decidable (mayThrash params e info) :=
  inferInstanceAs (Decidable (_ ∧ _ ∧ _))

/-- `thrashing_event_cb`, from where it has the block's structure. -/
def blockEvent (e : ThrashingEvent) (info : BlockThrashing) : BlockThrashing :=
  let info :=
    if info.hasPages then e.pages.foldl (updatePage params e) info
    else if mayThrash params e info ∧ e.pagesMemory then
      e.pages.foldl (updatePage params e) { info with hasPages := true, pages := fun _ => .zero }
    else info
  { info with lastTimeStamp := e.timeStamp, lastProcessor := some e.processorId }

def thrashingInfoGetCreate (memory : Bool) (info : Option BlockThrashing) : Option BlockThrashing :=
  info.or (if memory then some .zero else none)

/-- `thrashing_event_cb`. -/
def thrashingEvent (e : ThrashingEvent) (info : Option BlockThrashing) : Option BlockThrashing :=
  if e.Counts then (thrashingInfoGetCreate e.infoMemory info).map (blockEvent params e) else info

/-! ## Hints -/

/-- A hint, to a processor that accesses a page. -/
inductive ThrashingHint where
  | none
  | throttle
  | pin (residency : ProcessorId) (processors : ProcessorMask)

/-- A request for a hint, with what it reads: the range's preferred location, the masks of the VA
space, and which of some processors with a copy of the page is closest to the requester. -/
structure HintRequest where
  page : ℕ
  requester : ProcessorId
  timeStamp : BitVec 64
  preferredLocation : Option ProcessorId
  accessibleFrom : ProcessorId → ProcessorMask
  hasNvlinkFrom : ProcessorId → ProcessorMask
  closestResidentInMask : ProcessorMask → Option ProcessorId

/-- The processor is throttled, unless it has been already. -/
def throttle (r : HintRequest) (info : BlockThrashing) : ThrashingHint × BlockThrashing :=
  let page := info.pages r.page
  if page.throttledProcessors r.requester then (.throttle, info)
  else
    (.throttle, { info with throttlingCount := saturatingInc (2 ^ 32 - 1) info.throttlingCount }.setPage
      r.page
      { page with
        throttledProcessors := Function.update page.throttledProcessors r.requester true
        throttlingCount := saturatingInc 255 page.throttlingCount })

def pin (r : HintRequest) (residency : ProcessorId) (info : BlockThrashing) :
    ThrashingHint × BlockThrashing :=
  let page := info.pages r.page
  (.pin residency page.processors,
    { info with pinCount := (info.pinCount + 1) % 2 ^ 32 }.setPage r.page
      { page with pinned := true })

/-- Every processor of a mask is in the other one. -/
def processorSubset (mask super : ProcessorMask) : Bool :=
  (List.finRange maxProcessors).all fun id => !mask id || super id

def getHintForMigrationThrashing (r : HintRequest) (info : BlockThrashing) :
    ThrashingHint × BlockThrashing :=
  let page := info.pages r.page
  let closest := r.closestResidentInMask page.processors
  match r.preferredLocation with
  | some preferred =>
    if r.accessibleFrom preferred r.requester then pin r preferred info else throttle r info
  | none =>
    match closest.filter fun id => processorSubset page.processors (r.hasNvlinkFrom id) with
    | some id => pin r id info
    | none =>
      -- throttle first, then map
      if params.pinThreshold ≤ page.throttlingCount ∧ !page.pinned then
        pin r ((closest.filter fun id => r.accessibleFrom id r.requester).getD r.requester) info
      else throttle r info

/-- All is forgotten when there has been no thrashing for an epoch. -/
def resetBlock (info : BlockThrashing) : BlockThrashing :=
  { info with
    hasPages := false
    pages := fun _ => .zero
    thrashingResetCount := (info.thrashingResetCount + 1) % 256
    numThrashingPages := 0
    lastProcessor := none
    lastTimeStamp := 0
    lastThrashingTimeStamp := 0
    thrashingPages := fun _ => false }

/-- `uvm_perf_thrashing_get_hint`, for a block with a structure. -/
def blockHint (r : HintRequest) (info : BlockThrashing) : ThrashingHint × BlockThrashing :=
  if !info.hasPages then (.none, info)
  else if info.lastThrashingTimeStamp ≠ 0 ∧ info.thrashingResetCount < params.maxResets ∧
      params.epochNs < r.timeStamp - info.lastThrashingTimeStamp then
    (.none, resetBlock info)
  else if (info.pages r.page).numThrashingEvents < params.threshold then (.none, info)
  -- after a longer time than the lapse the page is no longer thrashing
  else if params.lapseNs < r.timeStamp - (info.pages r.page).timeStamp then
    (.none, thrashingResetPage info r.page)
  else
    let page := info.pages r.page
    let info := info.setPage r.page
      { page with processors := Function.update page.processors r.requester true }
    -- pure revocation thrashing
    if page.hasRevocationEvents ∧ !page.hasMigrationEvents then throttle r info
    else getHintForMigrationThrashing params r info

/-- `uvm_perf_thrashing_get_hint`. -/
def thrashingGetHint (r : HintRequest) (info : Option BlockThrashing) :
    ThrashingHint × Option BlockThrashing :=
  match info with
  | none => (.none, none)
  | some info => ((blockHint params r info).1, some (blockHint params r info).2)

/-! ## Runs -/

/-- What happens to a block: events, requests for hints, and the end of the block's structure. -/
inductive ThrashingOp where
  | event (e : ThrashingEvent)
  | getHint (r : HintRequest)
  | destroy

def thrashingStep (info : Option BlockThrashing) (op : ThrashingOp) : Option BlockThrashing :=
  if params.enable then
    match op with
    | .event e => thrashingEvent params e info
    | .getHint r => (thrashingGetHint params r info).2
    | .destroy => none
  else info

/-- `uvm_perf_thrashing_get_thrashing_pages`, with `none` for the NULL mask. -/
def thrashingPages (info : Option BlockThrashing) : Option PageMask :=
  if params.enable then
    info.bind fun info => if info.numThrashingPages = 0 then none else some info.thrashingPages
  else none

end

/-! ## The invariant -/

/-- **The invariant**: the mask has the pages with as many events as the threshold says, which are
pages of a block, and none without the pages' structures. -/
structure BlockThrashing.Inv (threshold : ℕ) (info : BlockThrashing) : Prop where
  marked : ∀ p, info.thrashingPages p = true ↔ threshold ≤ (info.pages p).numThrashingEvents
  bounded : ∀ p, (info.pages p).numThrashingEvents ≤ thresholdMax
  inBlock : ∀ p, info.thrashingPages p = true → p < pages2m
  unmarked : info.hasPages = false → ∀ p, info.thrashingPages p = false

/-- The count of the thrashing pages, up to pages that have been counted more than once. -/
def BlockThrashing.Counted (extra : ℕ) (info : BlockThrashing) : Prop :=
  info.numThrashingPages = info.thrashingPages.weight pages2m + extra

/-- The event counts a page that is counted already: the page's number of events is at its largest
value, and that is the threshold. -/
def CountsAgain (params : ThrashingParams) (e : ThrashingEvent) (page : PageThrashing) : Prop :=
  params.threshold = thresholdMax ∧ page.numThrashingEvents = thresholdMax ∧
    page.timeStamp ≠ 0 ∧ e.timeStamp - page.timeStamp ≤ params.lapseNs

instance (params : ThrashingParams) (e : ThrashingEvent) (page : PageThrashing) :
    Decidable (CountsAgain params e page) := inferInstanceAs (Decidable (_ ∧ _ ∧ _ ∧ _))

def timesAgain (params : ThrashingParams) (e : ThrashingEvent) (page : PageThrashing) : ℕ :=
  (decide (CountsAgain params e page)).toNat

section

variable {params : ThrashingParams} {e : ThrashingEvent} {info info' : BlockThrashing}
  {threshold index extra : ℕ}

variable {page : PageThrashing}

theorem timesAgain_of (h : CountsAgain params e page) : timesAgain params e page = 1 := by
  simp [timesAgain, h]

theorem timesAgain_of_not (h : ¬ CountsAgain params e page) : timesAgain params e page = 0 := by
  simp [timesAgain, h]

theorem saturatingInc_eq {max counter : ℕ} (h : counter ≤ max) :
    saturatingInc max counter = if counter = max then max else counter + 1 := by
  unfold saturatingInc
  rcases h.lt_or_eq with hlt | rfl
  · rw [Nat.mod_eq_of_lt (by omega), if_neg (by simp), if_neg hlt.ne]
  · rw [Nat.mod_self, if_pos (by omega), if_pos rfl]

private theorem BlockThrashing.Inv.update (h : info.Inv threshold) {value : Bool}
    (hpages : info'.pages = Function.update info.pages index page)
    (hmask : info'.thrashingPages = Function.update info.thrashingPages index value)
    (hvalue : value = true ↔ threshold ≤ page.numThrashingEvents)
    (hbounded : page.numThrashingEvents ≤ thresholdMax) (hidx : index < pages2m)
    (hhas : info'.hasPages = true) : info'.Inv threshold := by
  refine ⟨fun p => ?_, fun p => ?_, fun p hp => ?_, fun hnone => ?_⟩
  · rw [hpages, hmask]
    rcases eq_or_ne p index with rfl | hne
    · rw [update_self, update_self]
      exact hvalue
    · rw [update_of_ne hne, update_of_ne hne]
      exact h.marked p
  · rw [hpages]
    rcases eq_or_ne p index with rfl | hne
    · rw [update_self]
      exact hbounded
    · rw [update_of_ne hne]
      exact h.bounded p
  · rcases eq_or_ne p index with rfl | hne
    · exact hidx
    · rw [hmask, update_of_ne hne] at hp
      exact h.inBlock p hp
  · rw [hhas] at hnone
    exact absurd hnone Bool.true_eq_false_eq_False

private theorem BlockThrashing.Inv.updatePage (h : info.Inv threshold)
    (hpages : info'.pages = Function.update info.pages index page)
    (hmask : info'.thrashingPages = info.thrashingPages)
    (hnum : page.numThrashingEvents = (info.pages index).numThrashingEvents)
    (hhas : info'.hasPages = info.hasPages) : info'.Inv threshold := by
  refine ⟨fun p => ?_, fun p => ?_, fun p hp => ?_, fun hnone => ?_⟩
  · rw [hpages, hmask]
    rcases eq_or_ne p index with rfl | hne
    · rw [update_self, hnum]
      exact h.marked p
    · rw [update_of_ne hne]
      exact h.marked p
  · rw [hpages]
    rcases eq_or_ne p index with rfl | hne
    · rw [update_self, hnum]
      exact h.bounded p
    · rw [update_of_ne hne]
      exact h.bounded p
  · rw [hmask] at hp
    exact h.inBlock p hp
  · rw [hmask]
    rw [hhas] at hnone
    exact h.unmarked hnone

private theorem resetPage_spec (h : info.Inv threshold) (hpos : 0 < threshold)
    (hhas : info.hasPages = true)
    (hthrash : threshold ≤ (info.pages index).numThrashingEvents) :
    (thrashingResetPage info index).Inv threshold ∧ ∀ {extra}, extra ≤ pages2m →
      info.Counted extra → (thrashingResetPage info index).Counted extra := by
  have hset := (h.marked index).mpr hthrash
  have hidx := h.inBlock index hset
  refine ⟨h.update rfl rfl ?_ (Nat.zero_le _) hidx hhas, ?_⟩
  · exact iff_of_false Bool.false_ne_true (Nat.not_le.mpr hpos)
  · intro extra hextra hcnt
    have hweight := PageMask.weight_clear hidx hset
    have hle := info.thrashingPages.weight_le pages2m
    unfold BlockThrashing.Counted at hcnt ⊢
    show (info.numThrashingPages + (2 ^ 16 - 1)) % 2 ^ 16 =
      (info.thrashingPages.setBit index false).weight pages2m + extra
    unfold pages2m at *
    omega

/-- **What an event does to one page**: the invariant is kept, and the count stays that of the mask
unless the page is counted again. -/
private theorem updatePage_spec (h : info.Inv params.threshold) (hhas : info.hasPages = true)
    (hidx : index < pages2m) :
    (updatePage params e info index).Inv params.threshold ∧
      (updatePage params e info index).hasPages = true ∧
        (∀ p, p ≠ index → (updatePage params e info index).pages p = info.pages p) ∧
          ∀ {extra}, extra < pages2m → info.Counted extra →
            (updatePage params e info index).Counted
              (extra + timesAgain params e (info.pages index)) := by
  have hbounded := h.bounded index
  have hmarked := h.marked index
  -- the page is not counted again in the other cases
  set t := info.pages index
  have hquiet : ∀ {info' : BlockThrashing}, info'.numThrashingPages = info.numThrashingPages →
      info'.thrashingPages = info.thrashingPages →
        ¬ CountsAgain params e t → ∀ {extra}, extra < pages2m →
          info.Counted extra → info'.Counted
            (extra + timesAgain params e t) := by
    intro info' hnum hmask hagain extra _ hcnt
    rw [timesAgain_of_not hagain]
    unfold BlockThrashing.Counted
    rw [hnum, hmask]
    exact hcnt
  unfold updatePage
  dsimp only
  split
  · next hstamp =>
    -- the first event of the page
    refine ⟨h.updatePage rfl rfl rfl rfl, hhas, fun p hp => update_of_ne hp .., ?_⟩
    exact hquiet rfl rfl fun hagain => hagain.2.2.1 hstamp
  · next hstamp =>
    split
    · next hlapse =>
      -- one more event within the lapse
      have hnum : (countEvent e (touchPage e t)).numThrashingEvents =
          if t.numThrashingEvents = thresholdMax then thresholdMax
          else t.numThrashingEvents + 1 := saturatingInc_eq hbounded
      have hle := params.threshold_le
      have hagain : CountsAgain params e t ↔ params.threshold = thresholdMax ∧
          t.numThrashingEvents = thresholdMax := by
        unfold CountsAgain
        tauto
      by_cases hreach : (countEvent e (touchPage e t)).numThrashingEvents = params.threshold
      · -- the page is marked
        have hinv : ∀ {info' : BlockThrashing},
            info'.pages = Function.update info.pages index (countEvent e (touchPage e t)) →
            info'.thrashingPages = info.thrashingPages.setBit index true →
            info'.hasPages = info.hasPages → info'.Inv params.threshold := by
          intro info' hpages hmask hhas'
          refine h.update hpages hmask ?_ (hreach.le.trans hle) hidx (hhas'.trans hhas)
          exact iff_of_true rfl hreach.ge
        rw [if_pos hreach, if_pos hreach.ge]
        refine ⟨hinv rfl rfl rfl, hhas, fun p hp => update_of_ne hp .., ?_⟩
        intro extra hextra hcnt
        have hweight := info.thrashingPages.weight_le pages2m
        have hbit := PageMask.weight_setBit info.thrashingPages hidx true
        unfold BlockThrashing.Counted at hcnt ⊢
        show (info.numThrashingPages + 1) % 2 ^ 16 =
          (info.thrashingPages.setBit index true).weight pages2m + _
        by_cases hbefore : params.threshold ≤ t.numThrashingEvents
        · -- it was marked before
          have hmax : t.numThrashingEvents = thresholdMax := by
            by_contra hne
            rw [if_neg hne] at hnum
            omega
          rw [if_pos hmax] at hnum
          rw [timesAgain_of (hagain.mpr ⟨hreach.symm.trans hnum, hmax⟩)]
          rw [hmarked.mpr hbefore] at hbit
          unfold pages2m at *
          omega
        · have hclear : info.thrashingPages index = false := by
            rw [← Bool.not_eq_true, hmarked]
            exact hbefore
          rw [timesAgain_of_not fun hc =>
            hbefore ((hagain.mp hc).1.trans (hagain.mp hc).2.symm).le]
          rw [hclear] at hbit
          unfold pages2m at *
          simp only [Bool.toNat_false, Bool.toNat_true] at hbit
          omega
      · -- the page's bit stays as it is
        have hinv : ∀ {info' : BlockThrashing},
            info'.pages = Function.update info.pages index (countEvent e (touchPage e t)) →
            info'.thrashingPages = info.thrashingPages →
            info'.hasPages = info.hasPages → info'.Inv params.threshold := by
          intro info' hpages hmask hhas'
          have hself : info.thrashingPages =
              Function.update info.thrashingPages index (info.thrashingPages index) :=
            (Function.update_eq_self ..).symm
          refine h.update hpages (hmask.trans hself) ?_ ?_ hidx (hhas'.trans hhas)
          · rw [hmarked]
            split at hnum <;> omega
          · split at hnum <;> omega
        have hnot : ¬ CountsAgain params e t := by
          rw [hagain]
          rintro ⟨hmaxT, hmax⟩
          rw [if_pos hmax] at hnum
          exact hreach (hnum.trans hmaxT.symm)
        split
        · exact ⟨hinv rfl rfl rfl, hhas, fun p hp => update_of_ne hp .., hquiet rfl rfl hnot⟩
        · exact ⟨hinv rfl rfl rfl, hhas, fun p hp => update_of_ne hp .., hquiet rfl rfl hnot⟩
    · next hlapse =>
      have hnot : ¬ CountsAgain params e t := fun hc => hlapse hc.2.2.2
      have htouched : (info.setPage index (touchPage e t)).Inv params.threshold :=
        h.updatePage rfl rfl rfl rfl
      split
      · next hthrash =>
        have hpage : (info.setPage index (touchPage e t)).pages index =
            touchPage e t := update_self ..
        rw [← hpage] at hthrash
        obtain ⟨hinv, hcnt⟩ := resetPage_spec htouched params.threshold_pos hhas hthrash
        refine ⟨hinv, hhas, fun p hp => ?_, fun hextra hc => ?_⟩
        · exact (update_of_ne hp ..).trans (update_of_ne hp ..)
        · rw [timesAgain_of_not hnot]
          exact hcnt hextra.le hc
      · exact ⟨htouched, hhas, fun p hp => update_of_ne hp .., hquiet rfl rfl hnot⟩

private theorem foldl_updatePage_spec (e : ThrashingEvent) {pages : List ℕ} (hnd : pages.Nodup)
    (hpages : ∀ p ∈ pages, p < pages2m) (h : info.Inv params.threshold)
    (hhas : info.hasPages = true) (hextra : extra + pages.length ≤ pages2m) :
    (pages.foldl (updatePage params e) info).Inv params.threshold ∧
      (info.Counted extra → (pages.foldl (updatePage params e) info).Counted
        (extra + (pages.map fun p => timesAgain params e (info.pages p)).sum)) := by
  induction pages generalizing info extra with
  | nil => exact ⟨h, id⟩
  | cons index pages ih =>
    obtain ⟨hnot, hnd⟩ := List.nodup_cons.mp hnd
    rw [List.length_cons] at hextra
    obtain ⟨hinv, hhas', hframe, hcounted⟩ := updatePage_spec (e := e) h hhas
      (hpages index List.mem_cons_self)
    have hle : timesAgain params e (info.pages index) ≤ 1 := Bool.toNat_le ..
    obtain ⟨hinv', hrest⟩ := ih hnd (fun p hp => hpages p (List.mem_cons_of_mem _ hp)) hinv hhas'
      (by omega : extra + timesAgain params e (info.pages index) + pages.length ≤ pages2m)
    have hsame : (pages.map fun p =>
        timesAgain params e ((updatePage params e info index).pages p)) =
          pages.map fun p => timesAgain params e (info.pages p) := by
      apply List.map_congr_left
      intro p hp
      rw [hframe p fun heq => hnot (heq ▸ hp)]
    rw [hsame] at hrest
    rw [List.foldl_cons, List.map_cons, List.sum_cons, ← Nat.add_assoc]
    exact ⟨hinv', fun hcnt => hrest (hcounted (by omega) hcnt)⟩

def eventAgain (params : ThrashingParams) (e : ThrashingEvent) (info : BlockThrashing) : ℕ :=
  if info.hasPages then (e.pages.map fun p => timesAgain params e (info.pages p)).sum else 0

theorem blockEvent_spec (h : info.Inv params.threshold) :
    (blockEvent params e info).Inv params.threshold ∧
      (info.Counted 0 → (blockEvent params e info).Counted (eventAgain params e info)) := by
  have hnd : e.pages.Nodup := List.nodup_range'
  have hlen : 0 + e.pages.length ≤ pages2m := by
    have := e.region_le
    unfold ThrashingEvent.pages
    rw [List.length_range']
    omega
  have hpages : ∀ p ∈ e.pages, p < pages2m := by
    intro p hp
    have := e.region_le
    have := List.mem_range'_1.mp hp
    omega
  -- neither depends on the block's own time stamp and processor
  have hstamp : ∀ {info' : BlockThrashing}, info'.Inv params.threshold → ({ info' with
        lastTimeStamp := e.timeStamp
        lastProcessor := some e.processorId } : BlockThrashing).Inv params.threshold :=
    fun h' => ⟨h'.marked, h'.bounded, h'.inBlock, h'.unmarked⟩
  unfold blockEvent eventAgain
  split
  · next hhas =>
    obtain ⟨hinv, hcnt⟩ := foldl_updatePage_spec e hnd hpages h hhas hlen
    rw [Nat.zero_add] at hcnt
    exact ⟨hstamp hinv, hcnt⟩
  · next hhas =>
    have hunmarked := h.unmarked (Bool.not_eq_true _ ▸ hhas)
    split
    · -- the pages' structures are created
      have hnew : ({ info with hasPages := true, pages := fun _ => .zero } : BlockThrashing).Inv
          params.threshold := by
        refine ⟨fun p => ?_, fun p => Nat.zero_le _, h.inBlock, fun hnone => ?_⟩
        · rw [hunmarked p]
          exact iff_of_false Bool.false_ne_true (Nat.not_le.mpr params.threshold_pos)
        · exact absurd hnone Bool.true_eq_false_eq_False
      obtain ⟨hinv, hcnt⟩ := foldl_updatePage_spec e hnd hpages hnew rfl hlen
      have hzero : timesAgain params e PageThrashing.zero = 0 :=
        timesAgain_of_not fun hagain => absurd hagain.2.1 (by decide)
      have hsum : (e.pages.map fun _ => timesAgain params e PageThrashing.zero).sum = 0 := by
        simp [hzero]
      rw [Nat.zero_add, hsum] at hcnt
      exact ⟨hstamp hinv, hcnt⟩
    · exact ⟨hstamp h, id⟩

/-! ## Hints -/

private theorem setPage_quiet (h : info.Inv threshold) (hpages : info'.pages = info.pages)
    (hmask : info'.thrashingPages = info.thrashingPages)
    (hcnt : info'.numThrashingPages = info.numThrashingPages)
    (hhas : info'.hasPages = info.hasPages)
    (hnum : page.numThrashingEvents = (info.pages index).numThrashingEvents) :
    (info'.setPage index page).Inv threshold ∧
      (info.Counted 0 → (info'.setPage index page).Counted 0) := by
  have hupd : (info'.setPage index page).pages = Function.update info.pages index page := by
    unfold BlockThrashing.setPage
    rw [hpages]
  refine ⟨h.updatePage hupd hmask hnum hhas, ?_⟩
  unfold BlockThrashing.Counted BlockThrashing.setPage
  rw [hmask, hcnt]
  exact id

private theorem throttle_spec (h : info.Inv threshold) (r : HintRequest) :
    (throttle r info).2.Inv threshold ∧ (info.Counted 0 → (throttle r info).2.Counted 0) := by
  unfold throttle
  dsimp only
  split
  · exact ⟨h, id⟩
  · exact setPage_quiet h rfl rfl rfl rfl rfl

private theorem pin_spec (h : info.Inv threshold) (r : HintRequest) (residency : ProcessorId) :
    (pin r residency info).2.Inv threshold ∧
      (info.Counted 0 → (pin r residency info).2.Counted 0) :=
  setPage_quiet h rfl rfl rfl rfl rfl

variable (params) in
private theorem getHintForMigrationThrashing_spec (h : info.Inv threshold) (r : HintRequest) :
    (getHintForMigrationThrashing params r info).2.Inv threshold ∧
      (info.Counted 0 → (getHintForMigrationThrashing params r info).2.Counted 0) := by
  unfold getHintForMigrationThrashing
  dsimp only
  split
  · split
    · exact pin_spec h r _
    · exact throttle_spec h r
  · split
    · exact pin_spec h r _
    · split
      · exact pin_spec h r _
      · exact throttle_spec h r

theorem blockHint_spec (h : info.Inv params.threshold) (r : HintRequest) :
    (blockHint params r info).2.Inv params.threshold ∧
      (info.Counted 0 → (blockHint params r info).2.Counted 0) := by
  unfold blockHint
  split
  · exact ⟨h, id⟩
  · next hhas =>
    split
    · -- all is forgotten
      refine ⟨⟨fun p => ?_, fun p => Nat.zero_le _, fun p hp => ?_, fun _ p => rfl⟩, fun _ => ?_⟩
      · exact iff_of_false Bool.false_ne_true (Nat.not_le.mpr params.threshold_pos)
      · exact absurd hp Bool.false_ne_true
      · have hzero : (resetBlock info).thrashingPages.weight pages2m = 0 := by
          rw [PageMask.weight_eq_zero]
          exact fun _ _ => rfl
        unfold BlockThrashing.Counted
        rw [hzero]
        rfl
    · split
      · exact ⟨h, id⟩
      · next hthrash =>
        split
        · obtain ⟨hinv, hcnt⟩ := resetPage_spec h params.threshold_pos (by simpa using hhas)
            (Nat.not_lt.mp hthrash)
          exact ⟨hinv, hcnt (Nat.zero_le _)⟩
        · -- the requester is one of the page's processors now
          let page : PageThrashing := { info.pages r.page with
            processors := Function.update (info.pages r.page).processors r.requester true }
          have hset : (info.setPage r.page page).Inv params.threshold ∧
              (info.Counted 0 → (info.setPage r.page page).Counted 0) :=
            setPage_quiet h rfl rfl rfl rfl rfl
          dsimp only
          split
          · obtain ⟨hinv, hcnt⟩ := throttle_spec hset.1 r
            exact ⟨hinv, fun hc => hcnt (hset.2 hc)⟩
          · obtain ⟨hinv, hcnt⟩ := getHintForMigrationThrashing_spec params hset.1 r
            exact ⟨hinv, fun hc => hcnt (hset.2 hc)⟩

/-! ## The count along a run -/

theorem BlockThrashing.zero_inv (params : ThrashingParams) :
    BlockThrashing.zero.Inv params.threshold := by
  refine ⟨fun p => ?_, fun p => Nat.zero_le _, fun p hp => ?_, fun _ p => rfl⟩
  · exact iff_of_false Bool.false_ne_true (Nat.not_le.mpr params.threshold_pos)
  · exact absurd hp Bool.false_ne_true

end

end NvUvm
