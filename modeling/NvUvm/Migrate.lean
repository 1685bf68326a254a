import NvUvm.Lib.Loop
import NvUvm.RangeGroup
import NvUvm.VaRange

/-!
# Migration of an address region

Model of `uvm_migrate` (`uvm8_migrate.c`): a loop over the contiguous VA ranges of the
region, inside it a loop over the migratability segments of each range, and inside that the
loop of `uvm_va_range_migrate` over the blocks of a segment.

The outcome of creating and of migrating a block is an input (`MigrateEnv`), so that the
results hold whatever the blocks do.  What a run did to each segment is recorded in a list of
events next to the status it returns.
-/

namespace NvUvm

open Lib

/-- The outcomes a run of `uvm_migrate` meets: of the context allocation, of
`uvm_va_range_block_create`, and of the (retried) migration of a part of a block. -/
structure MigrateEnv where
  contextAlloc : Bool
  blockCreate : VaRange → ℕ → NvStatus
  blockMigrate : VaRange → ℕ → ℕ → ℕ → NvStatus

/-- What a run did: it migrated a part of a block, a segment failed to migrate, a segment was
refused because the destination is a UVM-Lite GPU of its range, or a non-migratable segment
was skipped although its preferred location is not the destination. -/
inductive MigrateEvent where
  | migrated (vaRange : VaRange) (start last : ℕ)
  | failed (vaRange : VaRange) (segment : Segment) (status : NvStatus)
  | refused (vaRange : VaRange) (segment : Segment)
  | skipped (vaRange : VaRange) (segment : Segment)

/-- The error of a segment that failed to migrate or may not migrate. -/
def MigrateEvent.failure : MigrateEvent → Option NvStatus
  | .failed _ _ status => some status
  | .refused _ _ => some .errInvalidDevice
  | _ => none

def MigrateEvent.isSkip : MigrateEvent → Bool
  | .skipped _ _ => true
  | _ => false

/-! ## The functions of the source -/

/-- The loop body of `uvm_va_range_migrate`: block `i` of the range. -/
def vaRangeMigrateBlock (env : MigrateEnv) (vaRange : VaRange) (base last i : ℕ)
    (events : List MigrateEvent) : NvStatus × List MigrateEvent :=
  if env.blockCreate vaRange i = .ok then
    let start := max base (blockCalcStart vaRange i)
    let stop := min last (blockCalcEnd vaRange i)
    if env.blockMigrate vaRange i start stop = .ok then
      (.ok, events ++ [.migrated vaRange start stop])
    else (env.blockMigrate vaRange i start stop, events)
  else (env.blockCreate vaRange i, events)

/-- The block indices of `[base, last]` in a range. -/
def vaRangeBlockIndices (vaRange : VaRange) (base last : ℕ) : List ℕ :=
  List.range' (uvmVaRangeBlockIndex vaRange base)
    (uvmVaRangeBlockIndex vaRange last + 1 - uvmVaRangeBlockIndex vaRange base)

/-- `uvm_va_range_migrate`, with the events of this call. -/
def uvmVaRangeMigrate (env : MigrateEnv) (vaRange : VaRange) (base last : ℕ) :
    NvStatus × List MigrateEvent :=
  runUntil NvStatus.isOk .ok (vaRangeMigrateBlock env vaRange base last)
    (vaRangeBlockIndices vaRange base last) []

/-- The local variables of `uvm_migrate` its loops update, and the events so far. -/
structure MigrateState where
  status : NvStatus
  skippedMigrate : Bool
  vaRangeLast : Option VaRange
  events : List MigrateEvent

/-- A segment may not migrate to a GPU that is in UVM-Lite mode for the range, unless that is
the preferred location. -/
def segmentRefused (vaRange : VaRange) (destId : ProcessorId) : Bool :=
  vaRange.val.uvmLiteGpus destId && vaRange.val.preferredLocation != some destId

/-- The body of the inner loop; it returns whether the loop goes on. -/
def migrateSegment (env : MigrateEnv) (destId : ProcessorId) (vaRange : VaRange)
    (segment : Segment) (s : MigrateState) : Bool × MigrateState :=
  if !segment.migratable then
    -- only report the skip if the pages are not already resident at the destination
    if vaRange.val.preferredLocation != some destId then
      (true, { s with skippedMigrate := true, events := s.events ++ [.skipped vaRange segment] })
    else (true, s)
  else if segmentRefused vaRange destId then
    (false, { s with status := .errInvalidDevice
                     events := s.events ++ [.refused vaRange segment] })
  else
    let r := uvmVaRangeMigrate env vaRange segment.start segment.last
    if r.1 = .ok then (true, { s with status := .ok, events := s.events ++ r.2 })
    else (false, { s with status := r.1
                          events := s.events ++ (r.2 ++ [.failed vaRange segment r.1]) })

def rangeSegments (groups : List RangeGroupRange) (base last : ℕ) (vaRange : VaRange) :
    List Segment :=
  migratabilitySegments groups (max base vaRange.start) (min last vaRange.last)

/-- The body of the outer loop.  The inner `break` leaves only the inner loop. -/
def migrateRange (env : MigrateEnv) (groups : List RangeGroupRange) (base last : ℕ)
    (destId : ProcessorId) (vaRange : VaRange) (s : MigrateState) : Bool × MigrateState :=
  let s := { s with vaRangeLast := some vaRange }
  if !vaRange.isManaged then (false, { s with status := .errInvalidAddress })
  else (true, (runUntil id true (migrateSegment env destId vaRange)
    (rangeSegments groups base last vaRange) s).2)

/-- The outer loop of `uvm_migrate`. -/
def migrateLoop (env : MigrateEnv) (tree : List VaRange) (groups : List RangeGroupRange)
    (base last : ℕ) (destId : ProcessorId) : MigrateState :=
  (runUntil id true (migrateRange env groups base last destId)
    (uvmForEachVaRangeInContig tree base last) ⟨.ok, false, none, []⟩).2

/-- The checks of `uvm_migrate` after its loops. -/
def migrateResult (last : ℕ) (s : MigrateState) : NvStatus :=
  if s.status ≠ .ok then s.status
  else match s.vaRangeLast with
    | none => .errInvalidAddress
    | some vaRange =>
      if vaRange.last < last then .errInvalidAddress
      else if s.skippedMigrate then .warnMoreProcessingRequired
      else .ok

/-- `uvm_migrate`, for the region `[base, last]`. -/
def uvmMigrate (env : MigrateEnv) (tree : List VaRange) (groups : List RangeGroupRange)
    (base last : ℕ) (destId : ProcessorId) : NvStatus × List MigrateEvent :=
  if env.contextAlloc then
    let s := migrateLoop env tree groups base last destId
    (migrateResult last s, s.events)
  else (.errNoMemory, [])

/-! ## What the status says -/

def ManagedCover (tree : List VaRange) (base last : ℕ) : Prop :=
  ∀ a, base ≤ a → a ≤ last → ∃ vaRange ∈ tree, vaRange.Contains a ∧ vaRange.isManaged = true

/-- The trees of a VA space that `uvm_migrate` reads.  Range trees hold no overlapping
nodes. -/
structure MigrateSpace where
  vaRangeTree : List VaRange
  rangeGroupRanges : List RangeGroupRange
  vaRangeTree_ordered : Ordered vaRangeTree
  rangeGroupRanges_ordered : Ordered rangeGroupRanges

/-- The region `[base, base + length - 1]`; the callers reject a length of zero. -/
structure MigrateRegion where
  base : ℕ
  length : ℕ
  length_pos : 0 < length

def MigrateRegion.last (region : MigrateRegion) : ℕ := region.base + region.length - 1

/-- What the status of `uvm_migrate` tells the caller about the run.
* `okOnlyIf`: on success managed ranges cover the region, every migratable address was in a
  part of a block that migrated, and the others prefer the destination.
* `errorReturned`: the error of a segment that fails or is refused is the one returned.
* `warnIff`: the warning means that nothing failed and a segment was skipped. -/
structure MigrateReports (tree : List VaRange) (groups : List RangeGroupRange)
    (base last : ℕ) (destId : ProcessorId) (result : NvStatus × List MigrateEvent) : Prop where
  okOnlyIf : result.1 = .ok → ∀ a, base ≤ a → a ≤ last →
    ∃ vaRange ∈ tree, vaRange.Contains a ∧ vaRange.isManaged = true ∧
      if uvmRangeGroupAddressMigratable groups a then
        ∃ start stop, .migrated vaRange start stop ∈ result.2 ∧ start ≤ a ∧ a ≤ stop
      else vaRange.val.preferredLocation = some destId
  errorReturned : ∀ e ∈ result.2, ∀ status, e.failure = some status → result.1 = status
  warnIff : result.1 = .warnMoreProcessingRequired ↔
    (∀ e ∈ result.2, e.failure = none) ∧ ManagedCover tree base last ∧
      ∃ e ∈ result.2, e.isSkip = true

/-! ## When the status tells the truth -/

/-- The error that migrating a migratable segment of the range ends in, if any. -/
def segmentError (env : MigrateEnv) (destId : ProcessorId) (vaRange : VaRange)
    (segment : Segment) : Option NvStatus :=
  if segmentRefused vaRange destId then some .errInvalidDevice
  else
    let status := (uvmVaRangeMigrate env vaRange segment.start segment.last).1
    if status = .ok then none else some status

/-- The error of a range: of its first migratable segment that fails, or that it is not
managed. -/
def rangeError (env : MigrateEnv) (groups : List RangeGroupRange) (base last : ℕ)
    (destId : ProcessorId) (vaRange : VaRange) : Option NvStatus :=
  if vaRange.isManaged then
    ((rangeSegments groups base last vaRange).filter (·.migratable)).findSome?
      (segmentError env destId vaRange)
  else some .errInvalidAddress

/-- The range has something to migrate, or is not managed. -/
def rangeWrites (groups : List RangeGroupRange) (base last : ℕ) (vaRange : VaRange) : Bool :=
  !vaRange.isManaged || (rangeSegments groups base last vaRange).any (·.migratable)

/-- The ranges up to the first that is not managed, that one included. -/
def upToUnmanaged : List VaRange → List VaRange
  | [] => []
  | r :: rest => if r.isManaged then r :: upToUnmanaged rest else [r]

/-- The ranges `uvm_migrate` walks. -/
def walkedRanges (tree : List VaRange) (base last : ℕ) : List VaRange :=
  upToUnmanaged (uvmForEachVaRangeInContig tree base last)

def walkFallsShort (tree : List VaRange) (base last : ℕ) : Prop :=
  ∀ vaRange, (walkedRanges tree base last).getLast? = some vaRange → vaRange.last < last

/-- The error of the last walked range that has something to migrate or is not managed;
`none` when that range does not fail or there is none. -/
def lastError (env : MigrateEnv) (tree : List VaRange) (groups : List RangeGroupRange)
    (base last : ℕ) (destId : ProcessorId) : Option NvStatus :=
  ((walkedRanges tree base last).filter (rangeWrites groups base last)).getLast?.bind
    (rangeError env groups base last destId)

/-- Every walked range that fails does so with the error of the last walked range that has
something to migrate or is not managed (or, with `NV_ERR_INVALID_ADDRESS`, that range
succeeds and the walk falls short), and never with the warning. -/
def FailuresAgree (env : MigrateEnv) (tree : List VaRange) (groups : List RangeGroupRange)
    (base last : ℕ) (destId : ProcessorId) : Prop :=
  ∀ vaRange ∈ walkedRanges tree base last, ∀ status,
    rangeError env groups base last destId vaRange = some status →
      status ≠ .warnMoreProcessingRequired ∧
        (lastError env tree groups base last destId = some status ∨
          status = .errInvalidAddress ∧ walkFallsShort tree base last ∧
            lastError env tree groups base last destId = none)

/-! ## The blocks of a segment -/

section Blocks

variable (env : MigrateEnv) (vaRange : VaRange)

private theorem mem_vaRangeBlockIndices {base last a : ℕ} (hlo : base ≤ a) (hhi : a ≤ last) :
    uvmVaRangeBlockIndex vaRange a ∈ vaRangeBlockIndices vaRange base last := by
  have h1 := uvmVaRangeBlockIndex_mono vaRange hlo
  have h2 := uvmVaRangeBlockIndex_mono vaRange hhi
  simp only [vaRangeBlockIndices, List.mem_range'_1]
  omega

private theorem vaRangeMigrateBlock_cases (base last i : ℕ) (events : List MigrateEvent) :
    vaRangeMigrateBlock env vaRange base last i events =
        (.ok, events ++ [.migrated vaRange (max base (blockCalcStart vaRange i))
          (min last (blockCalcEnd vaRange i))]) ∨
      ∃ status, status ≠ .ok ∧
        vaRangeMigrateBlock env vaRange base last i events = (status, events) := by
  by_cases hcreate : env.blockCreate vaRange i = .ok
  · by_cases hmigrate : env.blockMigrate vaRange i (max base (blockCalcStart vaRange i))
        (min last (blockCalcEnd vaRange i)) = .ok
    · exact Or.inl (by simp [vaRangeMigrateBlock, hcreate, hmigrate])
    · exact Or.inr ⟨_, hmigrate, by simp [vaRangeMigrateBlock, hcreate, hmigrate]⟩
  · exact Or.inr ⟨_, hcreate, by simp [vaRangeMigrateBlock, hcreate]⟩

private theorem uvmVaRangeMigrate_events (base last : ℕ) :
    ∀ e ∈ (uvmVaRangeMigrate env vaRange base last).2, e.failure = none ∧ e.isSkip = false := by
  refine runUntil_keeps
    (fun events : List MigrateEvent => ∀ e ∈ events, e.failure = none ∧ e.isSkip = false) _
    (fun i _ events hev => ?_) [] (by simp)
  rcases vaRangeMigrateBlock_cases env vaRange base last i events with h | ⟨status, -, h⟩
  · rw [h]
    intro e he
    rcases List.mem_append.mp he with he' | he'
    · exact hev e he'
    · obtain rfl := List.mem_singleton.mp he'
      exact ⟨rfl, rfl⟩
  · rw [h]
    exact hev

private theorem uvmVaRangeMigrate_covers {base last : ℕ} (hbase : vaRange.start ≤ base)
    (hlast : last ≤ vaRange.last)
    (hok : (uvmVaRangeMigrate env vaRange base last).1 = .ok) {a : ℕ} (hlo : base ≤ a)
    (hhi : a ≤ last) :
    ∃ start stop, .migrated vaRange start stop ∈ (uvmVaRangeMigrate env vaRange base last).2 ∧
      start ≤ a ∧ a ≤ stop := by
  -- every index handled so far has left the part of its block in the events
  have hall : ∀ i ∈ vaRangeBlockIndices vaRange base last,
      .migrated vaRange (max base (blockCalcStart vaRange i))
        (min last (blockCalcEnd vaRange i)) ∈ (uvmVaRangeMigrate env vaRange base last).2 :=
    runUntil_completed
      (fun done events => ∀ i ∈ done, .migrated vaRange (max base (blockCalcStart vaRange i))
        (min last (blockCalcEnd vaRange i)) ∈ events)
      (vaRangeBlockIndices vaRange base last)
      (fun pre i post events _ hI hgo => by
        rcases vaRangeMigrateBlock_cases env vaRange base last i events with h | ⟨status, hne, h⟩
        · rw [h]
          intro j hj
          rcases List.mem_append.mp hj with hj' | hj'
          · exact List.mem_append_left _ (hI j hj')
          · obtain rfl := List.mem_singleton.mp hj'
            exact List.mem_append_right _ (by simp)
        · simp [h, hne] at hgo)
      _ [] [] rfl (by simp) (NvStatus.isOk_eq_true.mpr hok)
  have hc := block_contains vaRange (a := a) ⟨by omega, by omega⟩
  exact ⟨_, _, hall _ (mem_vaRangeBlockIndices vaRange hlo hhi), by omega, by omega⟩

end Blocks

/-! ## The segments of a range -/

section Segments

variable (env : MigrateEnv) (destId : ProcessorId) (vaRange : VaRange)

/-- The error of a list of segments: of the first migratable one that fails. -/
private def segmentsError (segs : List Segment) : Option NvStatus :=
  (segs.filter (·.migratable)).findSome? (segmentError env destId vaRange)

/-- The inner loop over a list of segments, from state `s`. -/
private def segmentsLoop (segs : List Segment) (s : MigrateState) : MigrateState :=
  (runUntil id true (migrateSegment env destId vaRange) segs s).2

/-- What became of a segment of a range that did not fail. -/
def SegmentDone (events : List MigrateEvent) (seg : Segment) : Prop :=
  if seg.migratable then
    ∀ a, seg.start ≤ a → a ≤ seg.last →
      ∃ start stop, .migrated vaRange start stop ∈ events ∧ start ≤ a ∧ a ≤ stop
  else vaRange.val.preferredLocation = some destId ∨ ∃ e ∈ events, e.isSkip = true

/-- What the inner loop does to the state: the status it leaves, the skip flag, and the
events it adds. -/
private structure SegmentsEffect (segs : List Segment) (s s' : MigrateState)
    (new : List MigrateEvent) : Prop where
  status : s'.status = match segmentsError env destId vaRange segs with
    | some e => e
    | none => if segs.any (·.migratable) then .ok else s.status
  rangeLast : s'.vaRangeLast = s.vaRangeLast
  events : s'.events = s.events ++ new
  failures : ∀ status, (∃ e ∈ new, e.failure = some status) ↔
    segmentsError env destId vaRange segs = some status
  skips : s'.skippedMigrate = true ↔ s.skippedMigrate = true ∨ ∃ e ∈ new, e.isSkip = true
  done : segmentsError env destId vaRange segs = none →
    ∀ seg ∈ segs, SegmentDone destId vaRange new seg

variable {seg : Segment}

private theorem SegmentDone.mono {events events' : List MigrateEvent}
    (h : SegmentDone destId vaRange events seg) (hsub : ∀ e ∈ events, e ∈ events') :
    SegmentDone destId vaRange events' seg := by
  unfold SegmentDone at h ⊢
  split at h
  · rename_i hmig
    rw [if_pos hmig]
    intro a ha ha'
    obtain ⟨start, stop, hmem, hb⟩ := h a ha ha'
    exact ⟨start, stop, hsub _ hmem, hb⟩
  · rename_i hmig
    rw [if_neg hmig]
    rcases h with h | ⟨e, he, hs⟩
    · exact Or.inl h
    · exact Or.inr ⟨e, hsub e he, hs⟩

private theorem segmentsError_cons (seg : Segment) (rest : List Segment) :
    segmentsError env destId vaRange (seg :: rest) =
      (segmentsError env destId vaRange [seg]).or (segmentsError env destId vaRange rest) := by
  cases hmig : seg.migratable <;> simp [segmentsError, hmig, List.findSome?_cons]
  cases segmentError env destId vaRange seg <;> rfl

private theorem migrateSegment_effect (hlo : vaRange.start ≤ seg.start)
    (hhi : seg.last ≤ vaRange.last) (s : MigrateState) :
    (∃ new, SegmentsEffect env destId vaRange [seg] s
        (migrateSegment env destId vaRange seg s).2 new) ∧
      ((migrateSegment env destId vaRange seg s).1 = true ↔
        segmentsError env destId vaRange [seg] = none) := by
  cases hmig : seg.migratable with
  | false =>
    have herr : segmentsError env destId vaRange [seg] = none := by simp [segmentsError, hmig]
    by_cases hpref : vaRange.val.preferredLocation = some destId
    · -- already where it prefers to be: nothing happens
      have hstep : migrateSegment env destId vaRange seg s = (true, s) := by
        simp [migrateSegment, hmig, hpref]
      rw [hstep, herr]
      exact ⟨⟨[], by simp [herr, hmig], rfl, by simp, by simp [herr], by simp,
        fun _ t ht => by simp_all [SegmentDone]⟩, by simp⟩
    · -- skipped, and reported
      have hstep : migrateSegment env destId vaRange seg s =
          (true, { s with skippedMigrate := true
                          events := s.events ++ [.skipped vaRange seg] }) := by
        simp [migrateSegment, hmig, hpref]
      rw [hstep, herr]
      exact ⟨⟨[.skipped vaRange seg], by simp [herr, hmig], rfl, rfl,
        by simp [herr, MigrateEvent.failure], by simp [MigrateEvent.isSkip],
        fun _ t ht => by simp_all [SegmentDone, MigrateEvent.isSkip]⟩, by simp⟩
  | true =>
    have herr : segmentsError env destId vaRange [seg] = segmentError env destId vaRange seg := by
      cases h : segmentError env destId vaRange seg <;> simp [segmentsError, hmig, h]
    by_cases href : segmentRefused vaRange destId = true
    · have hseg : segmentError env destId vaRange seg = some .errInvalidDevice := by
        simp [segmentError, href]
      have hstep : migrateSegment env destId vaRange seg s =
          (false, { s with status := .errInvalidDevice
                           events := s.events ++ [.refused vaRange seg] }) := by
        simp [migrateSegment, hmig, href]
      rw [hstep, herr, hseg]
      exact ⟨⟨[.refused vaRange seg], by simp [herr, hseg], rfl, rfl,
        by simp [herr, hseg, MigrateEvent.failure], by simp [MigrateEvent.isSkip],
        by simp [herr, hseg]⟩, by simp⟩
    · have hev := uvmVaRangeMigrate_events env vaRange seg.start seg.last
      by_cases hok : (uvmVaRangeMigrate env vaRange seg.start seg.last).1 = .ok
      · -- every block of the segment migrated
        have hseg : segmentError env destId vaRange seg = none := by
          simp [segmentError, href, hok]
        have hstep : migrateSegment env destId vaRange seg s =
            (true, { s with status := .ok
                            events := s.events ++
                              (uvmVaRangeMigrate env vaRange seg.start seg.last).2 }) := by
          simp [migrateSegment, hmig, href, hok]
        rw [hstep, herr, hseg]
        refine ⟨⟨(uvmVaRangeMigrate env vaRange seg.start seg.last).2, by simp [herr, hseg, hmig],
          rfl, rfl, fun status => ?_, ?_, fun _ t ht => ?_⟩, by simp⟩
        · simp only [herr, hseg, reduceCtorEq, iff_false, not_exists, not_and]
          intro e he
          simp [(hev e he).1]
        · simp only [iff_self_or, forall_exists_index, and_imp]
          intro e he hs
          simp [(hev e he).2] at hs
        · obtain rfl := List.mem_singleton.mp ht
          simp only [SegmentDone, hmig]
          exact fun a ha ha' => uvmVaRangeMigrate_covers env vaRange hlo hhi hok ha ha'
      · -- a block failed: its error leaves the loop
        have hseg : segmentError env destId vaRange seg =
            some (uvmVaRangeMigrate env vaRange seg.start seg.last).1 := by
          simp [segmentError, href, hok]
        have hstep : migrateSegment env destId vaRange seg s =
            (false, { s with status := (uvmVaRangeMigrate env vaRange seg.start seg.last).1
                             events := s.events ++
                               ((uvmVaRangeMigrate env vaRange seg.start seg.last).2 ++
                                 [.failed vaRange seg
                                   (uvmVaRangeMigrate env vaRange seg.start seg.last).1]) }) := by
          simp [migrateSegment, hmig, href, hok]
        rw [hstep, herr, hseg]
        refine ⟨⟨_, by simp [herr, hseg], rfl, rfl, fun status => ?_, ?_, by simp [herr, hseg]⟩,
          by simp⟩
        · simp only [herr, hseg, Option.some.injEq]
          constructor
          · rintro ⟨e, he, hfail⟩
            rcases List.mem_append.mp he with he' | he'
            · simp [(hev e he').1] at hfail
            · obtain rfl := List.mem_singleton.mp he'
              simpa [MigrateEvent.failure] using hfail
          · rintro rfl
            exact ⟨_, List.mem_append_right _ (List.mem_singleton_self _), rfl⟩
        · simp only [iff_self_or, forall_exists_index, and_imp]
          intro e he hs
          rcases List.mem_append.mp he with he' | he'
          · simp [(hev e he').2] at hs
          · obtain rfl := List.mem_singleton.mp he'
            simp [MigrateEvent.isSkip] at hs

private theorem SegmentsEffect.cons {rest : List Segment} {s s₁ s₂ : MigrateState}
    {new₁ new₂ : List MigrateEvent} (h₁ : SegmentsEffect env destId vaRange [seg] s s₁ new₁)
    (hnone : segmentsError env destId vaRange [seg] = none)
    (h₂ : SegmentsEffect env destId vaRange rest s₁ s₂ new₂) :
    SegmentsEffect env destId vaRange (seg :: rest) s s₂ (new₁ ++ new₂) := by
  have herr : segmentsError env destId vaRange (seg :: rest) =
      segmentsError env destId vaRange rest := by
    rw [segmentsError_cons, hnone, Option.none_or]
  have hstat := h₁.status
  rw [hnone] at hstat
  refine ⟨?_, h₂.rangeLast.trans h₁.rangeLast, ?_, fun status => ?_, ?_, fun hno t ht => ?_⟩
  · rw [h₂.status, herr]
    cases segmentsError env destId vaRange rest with
    | some e => rfl
    | none =>
      rw [hstat]
      cases hmig : seg.migratable <;> cases hrest : rest.any (·.migratable) <;>
        simp [hrest]
  · rw [h₂.events, h₁.events, List.append_assoc]
  · have hno : ¬ ∃ e ∈ new₁, e.failure = some status := by
      rw [h₁.failures, hnone]
      simp
    rw [herr, ← h₂.failures]
    constructor
    · rintro ⟨e, he, hf⟩
      rcases List.mem_append.mp he with he' | he'
      · exact absurd ⟨e, he', hf⟩ hno
      · exact ⟨e, he', hf⟩
    · rintro ⟨e, he, hf⟩
      exact ⟨e, List.mem_append_right _ he, hf⟩
  · rw [h₂.skips, h₁.skips]
    simp only [List.mem_append, or_assoc]
    constructor
    · rintro (h | ⟨e, he, hs⟩ | ⟨e, he, hs⟩)
      · exact Or.inl h
      · exact Or.inr ⟨e, Or.inl he, hs⟩
      · exact Or.inr ⟨e, Or.inr he, hs⟩
    · rintro (h | ⟨e, he | he, hs⟩)
      · exact Or.inl h
      · exact Or.inr (Or.inl ⟨e, he, hs⟩)
      · exact Or.inr (Or.inr ⟨e, he, hs⟩)
  · rw [herr] at hno
    rcases List.mem_cons.mp ht with rfl | ht'
    · exact (h₁.done hnone _ (by simp)).mono _ _ (fun e he => List.mem_append_left _ he)
    · exact (h₂.done hno t ht').mono _ _ (fun e he => List.mem_append_right _ he)

private theorem SegmentsEffect.stop (rest : List Segment) {s s₁ : MigrateState}
    {new : List MigrateEvent} (h : SegmentsEffect env destId vaRange [seg] s s₁ new)
    (hsome : segmentsError env destId vaRange [seg] ≠ none) :
    SegmentsEffect env destId vaRange (seg :: rest) s s₁ new := by
  obtain ⟨e, he⟩ := Option.ne_none_iff_exists'.mp hsome
  have herr : segmentsError env destId vaRange (seg :: rest) = some e := by
    rw [segmentsError_cons, he, Option.some_or]
  exact ⟨by rw [h.status, he, herr], h.rangeLast, h.events,
    fun status => by rw [h.failures, he, herr], h.skips, fun hno => by simp [herr] at hno⟩

private theorem segmentsLoop_effect (segs : List Segment)
    (hsegs : ∀ seg ∈ segs, vaRange.start ≤ seg.start ∧ seg.last ≤ vaRange.last)
    (s : MigrateState) :
    ∃ new, SegmentsEffect env destId vaRange segs s
      (segmentsLoop env destId vaRange segs s) new := by
  induction segs generalizing s with
  | nil => exact ⟨[], by simp [segmentsLoop, segmentsError], rfl, by simp [segmentsLoop],
      by simp [segmentsError], by simp [segmentsLoop], by simp⟩
  | cons seg rest ih =>
    obtain ⟨hlo, hhi⟩ := hsegs seg (by simp)
    obtain ⟨⟨new₁, h₁⟩, hgo⟩ := migrateSegment_effect env destId vaRange hlo hhi s
    by_cases hnone : segmentsError env destId vaRange [seg] = none
    · obtain ⟨new₂, h₂⟩ := ih (fun t ht => hsegs t (by simp [ht]))
        (migrateSegment env destId vaRange seg s).2
      refine ⟨new₁ ++ new₂, ?_⟩
      have hrun : segmentsLoop env destId vaRange (seg :: rest) s =
          segmentsLoop env destId vaRange rest (migrateSegment env destId vaRange seg s).2 := by
        unfold segmentsLoop
        rw [runUntil_cons_go (hgo.mpr hnone)]
      rw [hrun]
      exact h₁.cons _ _ _ hnone h₂
    · refine ⟨new₁, ?_⟩
      have hrun : segmentsLoop env destId vaRange (seg :: rest) s =
          (migrateSegment env destId vaRange seg s).2 := by
        unfold segmentsLoop
        rw [runUntil_cons_stop (by simpa using (not_congr hgo).mpr hnone)]
      rw [hrun]
      exact h₁.stop _ _ _ rest hnone

end Segments

/-! ## The ranges of the region -/

section Ranges

variable (env : MigrateEnv) (groups : List RangeGroupRange) (base last : ℕ)
  (destId : ProcessorId)

/-- The last range of a walk that writes the status. -/
def lastWriter (ranges : List VaRange) : Option VaRange :=
  ((upToUnmanaged ranges).filter (rangeWrites groups base last)).getLast?

/-- The outer loop over a list of ranges, from state `s`. -/
def rangesLoop (ranges : List VaRange) (s : MigrateState) : MigrateState :=
  (runUntil id true (migrateRange env groups base last destId) ranges s).2

def Overlaps (vaRange : VaRange) : Prop :=
  max base vaRange.start ≤ min last vaRange.last

/-- What the outer loop does to the state. -/
structure RangesEffect (ranges : List VaRange) (s s' : MigrateState)
    (new : List MigrateEvent) : Prop where
  status : s'.status = match lastWriter groups base last ranges with
    | some r => (rangeError env groups base last destId r).getD .ok
    | none => s.status
  rangeLast : s'.vaRangeLast = (upToUnmanaged ranges).getLast?.or s.vaRangeLast
  events : s'.events = s.events ++ new
  failures : ∀ status, (∃ e ∈ new, e.failure = some status) ↔
    ∃ r ∈ upToUnmanaged ranges, r.isManaged = true ∧
      rangeError env groups base last destId r = some status
  skips : s'.skippedMigrate = true ↔ s.skippedMigrate = true ∨ ∃ e ∈ new, e.isSkip = true
  done : ∀ r ∈ upToUnmanaged ranges, r.isManaged = true →
    rangeError env groups base last destId r = none →
      ∀ seg ∈ rangeSegments groups base last r, SegmentDone destId r new seg

variable {r : VaRange}

private theorem rangeWrites_of_error {status : NvStatus}
    (h : rangeError env groups base last destId r = some status) :
    rangeWrites groups base last r = true := by
  unfold rangeError at h
  unfold rangeWrites
  cases hman : r.isManaged with
  | false => rfl
  | true =>
    rw [hman, if_pos rfl] at h
    obtain ⟨seg, hseg, -⟩ := List.exists_of_findSome?_eq_some h
    obtain ⟨hmem, hmig⟩ := List.mem_filter.mp hseg
    simpa using ⟨seg, hmem, hmig⟩

private theorem migrateRange_effect (hgroups : Ordered groups) (hr : Overlaps base last r)
    (s : MigrateState) :
    (∃ new, RangesEffect env groups base last destId [r] s
        (migrateRange env groups base last destId r s).2 new) ∧
      (migrateRange env groups base last destId r s).1 = r.isManaged := by
  cases hman : r.isManaged with
  | false =>
    have hup : upToUnmanaged [r] = [r] := by simp [upToUnmanaged, hman]
    have hlast : lastWriter groups base last [r] = some r := by
      simp [lastWriter, hup, rangeWrites, hman]
    have hstep : migrateRange env groups base last destId r s =
        (false, { s with vaRangeLast := some r, status := .errInvalidAddress }) := by
      simp [migrateRange, hman]
    rw [hstep]
    exact ⟨⟨[], by simp [hlast, rangeError, hman], by simp [hup], by simp,
      by simp [hup, hman], by simp, by simp [hup, hman]⟩, rfl⟩
  | true =>
    have hup : upToUnmanaged [r] = [r] := by simp [upToUnmanaged, hman]
    have htiles := migratabilitySegments_tiles hgroups hr
    obtain ⟨new, heff⟩ := segmentsLoop_effect env destId r (rangeSegments groups base last r)
      (fun seg hseg => by
        have := htiles.bounds hseg
        omega)
      { s with vaRangeLast := some r }
    have hstep : migrateRange env groups base last destId r s =
        (true, segmentsLoop env destId r (rangeSegments groups base last r)
          { s with vaRangeLast := some r }) := by
      simp [migrateRange, hman, segmentsLoop]
    have herr : rangeError env groups base last destId r =
        segmentsError env destId r (rangeSegments groups base last r) := by
      simp [rangeError, hman, segmentsError]
    rw [hstep]
    refine ⟨⟨new, ?_, by simpa [hup] using heff.rangeLast, heff.events, fun status => ?_,
      heff.skips, fun t ht _ hno => ?_⟩, rfl⟩
    · -- the range writes the status exactly if one of its segments may migrate
      simp only [heff.status, lastWriter, hup, ← herr]
      cases hw : (rangeSegments groups base last r).any (·.migratable) with
      | true =>
        have hwrites : rangeWrites groups base last r = true := by simp [rangeWrites, hw]
        rw [List.filter_cons_of_pos hwrites]
        cases hre : rangeError env groups base last destId r <;> simp [hre]
      | false =>
        have hwrites : rangeWrites groups base last r = false := by
          simp [rangeWrites, hman, hw]
        rw [List.filter_cons_of_neg (by simp [hwrites])]
        cases hre : rangeError env groups base last destId r with
        | none => simp
        | some e =>
          have := rangeWrites_of_error env groups base last destId hre
          simp [hwrites] at this
    · rw [heff.failures]
      simp [hup, herr, hman]
    · rw [hup] at ht
      obtain rfl := List.mem_singleton.mp ht
      exact heff.done (herr ▸ hno)

private theorem getLast?_append_or {α : Type*} (l k : List α) :
    (l ++ k).getLast? = k.getLast?.or l.getLast? := by
  simp

private theorem RangesEffect.cons {rest : List VaRange} {s s₁ s₂ : MigrateState}
    {new₁ new₂ : List MigrateEvent} (h₁ : RangesEffect env groups base last destId [r] s s₁ new₁)
    (hman : r.isManaged = true) (h₂ : RangesEffect env groups base last destId rest s₁ s₂ new₂) :
    RangesEffect env groups base last destId (r :: rest) s s₂ (new₁ ++ new₂) := by
  have hup : upToUnmanaged (r :: rest) = [r] ++ upToUnmanaged rest := by
    simp [upToUnmanaged, hman]
  have hup₁ : upToUnmanaged [r] = [r] := by simp [upToUnmanaged, hman]
  have hlast : lastWriter groups base last (r :: rest) =
      (lastWriter groups base last rest).or (lastWriter groups base last [r]) := by
    simp only [lastWriter, hup, hup₁, List.filter_append, getLast?_append_or]
  refine ⟨?_, ?_, ?_, fun status => ?_, ?_, fun t ht hm hno => ?_⟩
  · rw [h₂.status, hlast]
    cases lastWriter groups base last rest with
    | some t => rfl
    | none => rw [h₁.status, Option.none_or]
  · rw [h₂.rangeLast, h₁.rangeLast, hup, hup₁, getLast?_append_or, Option.or_assoc]
  · rw [h₂.events, h₁.events, List.append_assoc]
  · have hf₁ := h₁.failures status
    have hf₂ := h₂.failures status
    rw [hup₁] at hf₁
    rw [hup]
    simp only [List.mem_append, or_and_right, exists_or, hf₁, hf₂]
  · rw [h₂.skips, h₁.skips]
    simp only [List.mem_append, or_and_right, exists_or, or_assoc]
  · rw [hup] at ht
    rcases List.mem_append.mp ht with ht' | ht'
    · intro seg hseg
      exact (h₁.done t (by rw [hup₁]; exact ht') hm hno seg hseg).mono _ _
        (fun e he => List.mem_append_left _ he)
    · intro seg hseg
      exact (h₂.done t ht' hm hno seg hseg).mono _ _
        (fun e he => List.mem_append_right _ he)

theorem rangesLoop_effect (hgroups : Ordered groups) (ranges : List VaRange)
    (hov : ∀ r ∈ ranges, Overlaps base last r) (s : MigrateState) :
    ∃ new, RangesEffect env groups base last destId ranges s
      (rangesLoop env groups base last destId ranges s) new := by
  induction ranges generalizing s with
  | nil => exact ⟨[], by simp [rangesLoop, lastWriter, upToUnmanaged],
      by simp [rangesLoop, upToUnmanaged], by simp [rangesLoop], by simp [upToUnmanaged],
      by simp [rangesLoop], by simp [upToUnmanaged]⟩
  | cons r rest ih =>
    obtain ⟨⟨new₁, h₁⟩, hgo⟩ :=
      migrateRange_effect env groups base last destId hgroups (hov r (by simp)) s
    cases hman : r.isManaged with
    | true =>
      obtain ⟨new₂, h₂⟩ := ih (fun t ht => hov t (by simp [ht]))
        (migrateRange env groups base last destId r s).2
      refine ⟨new₁ ++ new₂, ?_⟩
      have hrun : rangesLoop env groups base last destId (r :: rest) s =
          rangesLoop env groups base last destId rest
            (migrateRange env groups base last destId r s).2 := by
        unfold rangesLoop
        rw [runUntil_cons_go (hgo.trans hman)]
      rw [hrun]
      exact h₁.cons _ _ _ _ _ hman h₂
    | false =>
      refine ⟨new₁, ?_⟩
      have hrun : rangesLoop env groups base last destId (r :: rest) s =
          (migrateRange env groups base last destId r s).2 := by
        unfold rangesLoop
        rw [runUntil_cons_stop (hgo.trans hman)]
      have hup : upToUnmanaged (r :: rest) = upToUnmanaged [r] := by
        simp [upToUnmanaged, hman]
      have hlast : lastWriter groups base last (r :: rest) =
          lastWriter groups base last [r] := by
        simp only [lastWriter, hup]
      rw [hrun]
      exact ⟨by rw [hlast]; exact h₁.status, by rw [hup]; exact h₁.rangeLast, h₁.events,
        by rw [hup]; exact h₁.failures, h₁.skips, by rw [hup]; exact h₁.done⟩

end Ranges

end NvUvm
