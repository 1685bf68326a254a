import NvUvm.LiteStreamSteps

/-!
# The allocations of a commit record

`uvmlite_create_commit_record` (`uvm_lite.c`) allocates a record, the array of its pages, and with
`uvmlite_init_prefetch_info` (`uvm_lite_prefetch.c`) a table of regions with a record and the nodes of each.
Where that fails, the initialiser destroys the table, and the caller then destroys the record with all that
it holds.
-/

namespace NvUvm.Lite

open Function (update update_of_ne update_self)

/-- The blocks of `kmem_cache_zalloc` and `vmalloc`, by number.  `table` is what the region tables hold,
and `nodes` the field of the regions.  `failed` says that an allocation has failed, and `bad` that a table or
region was read that is freed or not there. -/
structure Heap where
  attempts : ℕ
  next : ℕ
  freed : ℕ → ℕ
  table : ℕ → ℕ → Option ℕ
  nodes : ℕ → Option ℕ
  failed : Bool
  bad : Bool

/-- What the allocations meet: the module parameter `uvm_prefetch`, and the outcome of each attempt. -/
structure AllocEnv where
  uvmPrefetch : Bool
  allocOk : ℕ → Bool

namespace Heap

def empty : Heap := ⟨0, 0, fun _ => 0, fun _ _ => none, fun _ => none, false, false⟩

variable (h : Heap)

def alloc (env : AllocEnv) (bytes : ℕ) : Option ℕ × Heap :=
  if env.allocOk h.attempts && decide (0 < bytes) then
    (some h.next, { h with
      attempts := h.attempts + 1
      next := h.next + 1
      table := update h.table h.next fun _ => none
      nodes := update h.nodes h.next none })
  else (none, { h with attempts := h.attempts + 1, failed := true })

/-- `vfree` and `kmem_cache_free`. -/
def free (block : ℕ) : Heap := { h with freed := update h.freed block (h.freed block + 1) }

def read (block : ℕ) : Heap := { h with bad := h.bad || decide (0 < h.freed block) }

/-- `uvmlite_destroy_access_region`. -/
def destroyAccessRegion (region : ℕ) : Heap :=
  let h := h.read region
  let h := match h.nodes region with
    | none => h
    | some nodes => h.free nodes
  h.free region

/-- `uvmlite_create_access_region`; a region has a page at least. -/
def createAccessRegion (env : AllocEnv) : Option ℕ × Heap :=
  match h.alloc env 1 with
  | (none, h) => (none, h)
  | (some region, h) =>
    match h.alloc env 1 with
    | (none, h) => (none, h.destroyAccessRegion region)
    | (some nodes, h) => (some region, { h with nodes := update h.nodes region (some nodes) })

/-- A turn of the loop of `uvmlite_destroy_prefetch_info`. -/
def destroyEntry (table : ℕ) (h : Heap) (i : ℕ) : Heap :=
  let h := h.read table
  match h.table table i with
  | none => h
  | some region => h.destroyAccessRegion region

/-- `uvmlite_destroy_prefetch_info`, of a number of regions and their table. -/
def destroyPrefetchInfo (env : AllocEnv) (regions : ℕ) (regionPtrs : Option ℕ) : Heap :=
  if !env.uvmPrefetch then h
  else if regions = 0 then h
  else match regionPtrs with
    | none => { h with bad := true }
    | some table => ((List.range regions).foldl (destroyEntry table) h).free table

end Heap

/-- `g_uvmLitePrefetchRegionOrder` and `g_uvmLitePrefetchMinCommitRecordOrder`, in bytes. -/
def prefetchRegionLength : ℕ := 2 ^ 20

/-- The smallest record with prefetch information. -/
def prefetchMinLength : ℕ := 2 ^ 14

/-- `pPrefetchInfo->regions`. -/
def prefetchRegions (length : ℕ) : ℕ := (length + prefetchRegionLength - 1) % 2 ^ 64 / prefetchRegionLength

/-- The loop of `uvmlite_init_prefetch_info` over the regions. -/
def createRegions (env : AllocEnv) (table : ℕ) : List ℕ → Heap → Bool × Heap
  | [], h => (true, h)
  | i :: rest, h =>
    match h.createAccessRegion env with
    | (none, h) => (false, h)
    | (some region, h) =>
      createRegions env table rest
        { h with table := update h.table table (update (h.table table) i (some region)) }

/-- `uvmlite_init_prefetch_info`: whether it succeeds, and the table. -/
def initPrefetchInfo (env : AllocEnv) (length : ℕ) (h : Heap) : Bool × ℕ × Option ℕ × Heap :=
  if !env.uvmPrefetch then (true, 0, none, h)
  else if length < prefetchMinLength then (true, 0, none, h)
  else
    let regions := prefetchRegions length
    match h.alloc env (regions * 8) with
    | (none, h) => (false, regions, none, h.destroyPrefetchInfo env regions none)
    | (some table, h) =>
      match createRegions env table (List.range regions) h with
      | (true, h) => (true, regions, some table, h)
      | (false, h) => (false, regions, some table, h.destroyPrefetchInfo env regions (some table))

/-- The allocations of `uvmlite_create_commit_record`: the record, and the exit
`uvmlite_destroy_commit_record` of a record that is no child and on no stream. -/
def createCommitRecordAllocs (env : AllocEnv) (length : ℕ) (h : Heap) : Option ℕ × Heap :=
  match h.alloc env 1 with
  | (none, h) => (none, h)
  | (some record, h) =>
    match h.alloc env (8 * (pageAlign length / pageSize)) with
    | (none, h) => (none, (h.destroyPrefetchInfo env 0 none).free record)
    | (some pages, h) =>
      match initPrefetchInfo env length h with
      | (true, _, _, h) => (some record, h)
      | (false, regions, regionPtrs, h) =>
        (none, ((h.free pages).destroyPrefetchInfo env regions regionPtrs).free record)

/-- `uvmlite_split_commit_record` with the region tracker, which `track` adds a child to. -/
def splitAndTrack {T : Type*} (track : State → ℕ → T → T) (s : State) (tracker : T) (r splitPoint : ℕ)
    (createOk : ℕ → Bool) : Option (ℕ × ℕ) × State × T :=
  match s.splitCommitRecord r splitPoint createOk with
  | (none, s) => (none, s, tracker)
  | (some (left, right), s) => (some (left, right), s, track s right (track s left tracker))

/-! ## When the exits are right -/

/-- After a failed allocation the function returns `NULL` with each of its blocks freed once, and nothing
was read that is not there. -/
structure CreateRight (r : Option ℕ × Heap) : Prop where
  null : r.2.failed = true → r.1 = none
  freed : r.2.failed = true → ∀ block < r.2.next, r.2.freed block = 1
  sound : r.2.failed = true → r.2.bad = false

/-- A split that fails leaves the record, the tracker and the streams as they were. -/
structure SplitRight {T : Type*} (s : State) (tracker : T) (r : ℕ) (result : Option (ℕ × ℕ) × State × T) :
    Prop where
  record : result.1 = none → result.2.1.record r = s.record r
  streams : result.1 = none → result.2.1.stream = s.stream ∧ result.2.1.allStreamList = s.allStreamList ∧
    result.2.1.streamsCache = s.streamsCache
  tracker : result.1 = none → result.2.2 = tracker

/-- The record and its pages are allocated, and of what the prefetcher needs an allocation fails: the
table, or a record or the nodes of a region. -/
def PrefetchFails (env : AllocEnv) (length : ℕ) : Prop :=
  env.uvmPrefetch = true ∧ prefetchMinLength ≤ length ∧ 0 < pageAlign length / pageSize ∧
    0 < prefetchRegions length ∧ env.allocOk 0 = true ∧ env.allocOk 1 = true ∧
    ∃ i < 2 * prefetchRegions length + 1, env.allocOk (2 + i) = false

namespace Heap

variable {env : AllocEnv} {h : Heap}

/-- An allocation adds a block. -/
structure Allocated (h h' : Heap) : Prop where
  attempts : h'.attempts = h.attempts + 1
  next : h'.next = h.next + 1
  freed : h'.freed = h.freed
  failed : h'.failed = h.failed
  bad : h'.bad = h.bad

theorem alloc_ok {bytes : ℕ} (hok : env.allocOk h.attempts = true) (hbytes : 0 < bytes) :
    ∃ h', h.alloc env bytes = (some h.next, h') ∧ Allocated h h' := by
  unfold alloc
  rw [hok, decide_eq_true hbytes, if_pos (by rfl)]
  exact ⟨_, rfl, rfl, rfl, rfl, rfl, rfl⟩

theorem alloc_fails {bytes : ℕ} (hfail : ¬ (env.allocOk h.attempts = true ∧ 0 < bytes)) :
    h.alloc env bytes = (none, { h with attempts := h.attempts + 1, failed := true }) := by
  unfold alloc
  rw [if_neg (by simpa using hfail)]

/-- What frees and reads leave of the flags. -/
structure Worse (h h' : Heap) : Prop where
  failed : h'.failed = h.failed
  bad : h.bad = true → h'.bad = true

theorem Worse.trans {h' h'' : Heap} (hw : Worse h h') (hw' : Worse h' h'') : Worse h h'' :=
  ⟨hw'.failed.trans hw.failed, fun hb => hw'.bad (hw.bad hb)⟩

theorem read_worse (h : Heap) (block : ℕ) : Worse h (h.read block) :=
  ⟨rfl, fun hb => by simp [read, hb]⟩

theorem destroyAccessRegion_worse (h : Heap) (region : ℕ) : Worse h (h.destroyAccessRegion region) := by
  apply (read_worse h region).trans
  unfold destroyAccessRegion
  dsimp only
  split <;> exact ⟨rfl, id⟩

theorem destroyRegions_worse (table : ℕ) (l : List ℕ) (h : Heap) :
    Worse h (l.foldl (destroyEntry table) h) ∧
      (l ≠ [] → 0 < h.freed table → (l.foldl (destroyEntry table) h).bad = true) := by
  induction l generalizing h with
  | nil => exact ⟨⟨rfl, id⟩, fun hne => absurd rfl hne⟩
  | cons i rest ih =>
    have hturn : Worse (h.read table) (destroyEntry table h i) := by
      unfold destroyEntry
      dsimp only
      split
      · exact ⟨rfl, id⟩
      · exact destroyAccessRegion_worse _ _
    refine ⟨((read_worse h table).trans hturn).trans (ih _).1, fun _ hfreed => (ih _).1.bad (hturn.bad ?_)⟩
    simp [read, hfreed]

theorem destroyPrefetchInfo_zero (h : Heap) (regionPtrs : Option ℕ) :
    h.destroyPrefetchInfo env 0 regionPtrs = h := by
  unfold destroyPrefetchInfo
  split <;> rfl

theorem destroyPrefetchInfo_worse (h : Heap) (regions : ℕ) (regionPtrs : Option ℕ) :
    Worse h (h.destroyPrefetchInfo env regions regionPtrs) := by
  unfold destroyPrefetchInfo
  split
  · exact ⟨rfl, id⟩
  split
  · exact ⟨rfl, id⟩
  cases regionPtrs with
  | none => exact ⟨rfl, fun _ => rfl⟩
  | some table =>
    obtain ⟨hfailed, hbad⟩ := (destroyRegions_worse table (List.range regions) h).1
    exact ⟨hfailed, hbad⟩

theorem destroyPrefetchInfo_bad {regions : ℕ} {regionPtrs : Option ℕ} (hpref : env.uvmPrefetch = true)
    (hregions : 0 < regions) (hptr : ∀ table, regionPtrs = some table → 0 < h.freed table) :
    (h.destroyPrefetchInfo env regions regionPtrs).bad = true := by
  unfold destroyPrefetchInfo
  rw [hpref, if_neg (by simp), if_neg (by omega)]
  cases regionPtrs with
  | none => rfl
  | some table =>
    exact (destroyRegions_worse table (List.range regions) h).2
      (by rw [Ne, List.range_eq_nil]; omega) (hptr table rfl)

theorem destroyPrefetchInfo_frees {regions table : ℕ} (hpref : env.uvmPrefetch = true)
    (hregions : 0 < regions) : 0 < (h.destroyPrefetchInfo env regions (some table)).freed table := by
  unfold destroyPrefetchInfo
  rw [hpref, if_neg (by simp), if_neg (by omega)]
  show 0 < update (β := fun _ => ℕ) _ table _ table
  rw [update_self]
  omega

end Heap

open Heap

theorem createRegions_iff (env : AllocEnv) (table : ℕ) (l : List ℕ) (h : Heap) :
    ((createRegions env table l h).1 = true ↔ ∀ i < 2 * l.length, env.allocOk (h.attempts + i) = true) ∧
      ((createRegions env table l h).2.failed = true ↔
        h.failed = true ∨ (createRegions env table l h).1 = false) := by
  induction l generalizing h with
  | nil => simp [createRegions]
  | cons j rest ih =>
    unfold createRegions createAccessRegion
    by_cases hfirst : env.allocOk h.attempts = true
    · obtain ⟨h₁, halloc₁, hnew₁⟩ := alloc_ok hfirst Nat.one_pos
      rw [halloc₁]
      dsimp only
      by_cases hsecond : env.allocOk (h.attempts + 1) = true
      · obtain ⟨h₂, halloc₂, hnew₂⟩ := alloc_ok (hnew₁.attempts ▸ hsecond) Nat.one_pos
        rw [halloc₂]
        dsimp only
        have hattempts : h₂.attempts = h.attempts + 2 := by rw [hnew₂.attempts, hnew₁.attempts]
        have hsame : h₂.failed = h.failed := by rw [hnew₂.failed, hnew₁.failed]
        refine ⟨(ih _).1.trans ?_, (ih _).2.trans (by rw [hsame])⟩
        dsimp only
        rw [hattempts]
        constructor
        · intro hrest i hi
          rcases Nat.lt_or_ge i 2 with hlt | hge
          · rcases Nat.lt_succ_iff_lt_or_eq.mp hlt with hzero | rfl
            · obtain rfl : i = 0 := by omega
              exact hfirst
            · exact hsecond
          · have := hrest (i - 2) (by rw [List.length_cons] at hi; omega)
            rwa [show h.attempts + 2 + (i - 2) = h.attempts + i by omega] at this
        · intro hall i hi
          have := hall (i + 2) (by rw [List.length_cons]; omega)
          rwa [show h.attempts + (i + 2) = h.attempts + 2 + i by omega] at this
      · rw [alloc_fails fun hc => hsecond (hnew₁.attempts ▸ hc.1)]
        dsimp only
        refine ⟨iff_of_false (by simp) fun hall => hsecond (hall 1 (by simp; omega)), ?_⟩
        rw [(destroyAccessRegion_worse _ _).failed]
        simp
    · rw [alloc_fails fun hc => hfirst hc.1]
      exact ⟨iff_of_false (by simp) fun hall => hfirst (hall 0 (by simp)), by simp⟩

section Init

variable {env : AllocEnv} {length : ℕ} {h : Heap}

theorem initPrefetchInfo_eq {regions : ℕ} (hpref : env.uvmPrefetch = true) (hlong : prefetchMinLength ≤ length)
    (hcnt : prefetchRegions length = regions) : initPrefetchInfo env length h =
      match h.alloc env (regions * 8) with
      | (none, h) => (false, regions, none, h.destroyPrefetchInfo env regions none)
      | (some table, h) =>
        match createRegions env table (List.range regions) h with
        | (true, h) => (true, regions, some table, h)
        | (false, h) => (false, regions, some table, h.destroyPrefetchInfo env regions (some table)) := by
  unfold initPrefetchInfo
  rw [hpref, if_neg (by simp), if_neg (Nat.not_lt.mpr hlong), hcnt]

theorem initPrefetchInfo_fails (hpref : env.uvmPrefetch = true) (hlong : prefetchMinLength ≤ length)
    (hregions : 0 < prefetchRegions length)
    (hfails : ∃ i < 2 * prefetchRegions length + 1, env.allocOk (h.attempts + i) = false) :
    ∃ regionPtrs h', initPrefetchInfo env length h = (false, prefetchRegions length, regionPtrs, h') ∧
      h'.failed = true ∧ ∀ table, regionPtrs = some table → 0 < h'.freed table := by
  obtain ⟨regions, hcnt⟩ : ∃ regions, prefetchRegions length = regions := ⟨_, rfl⟩
  rw [hcnt] at hregions hfails ⊢
  rw [initPrefetchInfo_eq hpref hlong hcnt]
  by_cases htable : env.allocOk h.attempts = true
  · obtain ⟨start, halloc, hnew⟩ := @alloc_ok env h (regions * 8) htable (by omega)
    rw [halloc]
    dsimp only
    obtain ⟨hall, hfailed⟩ := createRegions_iff env h.next (List.range regions) start
    rcases hloop : createRegions env h.next (List.range regions) start with ⟨ok, h'⟩
    rw [hloop] at hall hfailed
    have hok : ok = false := by
      by_contra hc
      obtain ⟨i, hi, hbad⟩ := hfails
      have hgood : env.allocOk (h.attempts + i) = true := by
        rcases Nat.eq_zero_or_pos i with rfl | hpos
        · exact htable
        · have := hall.mp (by simpa using hc) (i - 1) (by rw [List.length_range]; omega)
          rwa [hnew.attempts, show h.attempts + 1 + (i - 1) = h.attempts + i by omega] at this
      rw [hgood] at hbad
      cases hbad
    subst hok
    refine ⟨some h.next, _, rfl, ?_, fun table htable => ?_⟩
    · exact (destroyPrefetchInfo_worse _ _ _).failed.trans (hfailed.mpr (Or.inr rfl))
    · cases htable
      exact destroyPrefetchInfo_frees hpref hregions
  · rw [alloc_fails fun hc => htable hc.1]
    exact ⟨none, _, rfl, (destroyPrefetchInfo_worse _ _ _).failed, fun _ hc => nomatch hc⟩

theorem initPrefetchInfo_succeeds (hpref : env.uvmPrefetch = true) (hlong : prefetchMinLength ≤ length)
    (hregions : 0 < prefetchRegions length)
    (hall : ∀ i < 2 * prefetchRegions length + 1, env.allocOk (h.attempts + i) = true) :
    ∃ regionPtrs h', initPrefetchInfo env length h = (true, prefetchRegions length, regionPtrs, h') ∧
      h'.failed = h.failed := by
  obtain ⟨regions, hcnt⟩ : ∃ regions, prefetchRegions length = regions := ⟨_, rfl⟩
  rw [hcnt] at hregions hall ⊢
  rw [initPrefetchInfo_eq hpref hlong hcnt]
  obtain ⟨start, halloc, hnew⟩ := @alloc_ok env h (regions * 8)
    (hall 0 (by omega)) (by omega)
  rw [halloc]
  dsimp only
  obtain ⟨hloopOk, hfailed⟩ := createRegions_iff env h.next (List.range regions) start
  have hok := hloopOk.mpr fun i hi => by
    rw [List.length_range] at hi
    have := hall (i + 1) (by omega)
    rwa [show h.attempts + (i + 1) = start.attempts + i by rw [hnew.attempts]; omega] at this
  rcases hloop : createRegions env h.next (List.range regions) start with ⟨ok, h'⟩
  rw [hloop] at hok hfailed
  obtain rfl : ok = true := hok
  refine ⟨some h.next, h', rfl, hnew.failed ▸ ?_⟩
  rw [Bool.eq_iff_iff, hfailed]
  simp

end Init

theorem createAllocs_bad {env : AllocEnv} {length : ℕ} (hfails : PrefetchFails env length) :
    (createCommitRecordAllocs env length .empty).2.failed = true ∧
      (createCommitRecordAllocs env length .empty).2.bad = true := by
  obtain ⟨hpref, hlong, hpages, hregions, hrec, harray, hbad⟩ := hfails
  obtain ⟨h₁, halloc₁, hnew₁⟩ := @alloc_ok env .empty _ hrec Nat.one_pos
  obtain ⟨h₂, halloc₂, hnew₂⟩ := @alloc_ok env h₁ (8 * (pageAlign length / pageSize))
    (by rw [hnew₁.attempts]; exact harray) (by omega)
  have hattempts : h₂.attempts = 2 := by rw [hnew₂.attempts, hnew₁.attempts]; rfl
  unfold createCommitRecordAllocs
  rw [halloc₁]
  dsimp only
  rw [halloc₂]
  dsimp only
  obtain ⟨regionPtrs, h', hinit, hfailed, hptr⟩ := initPrefetchInfo_fails (h := h₂) hpref hlong hregions
    (hattempts ▸ hbad)
  rw [hinit]
  refine ⟨(destroyPrefetchInfo_worse _ _ _).failed.trans hfailed, ?_⟩
  refine destroyPrefetchInfo_bad hpref hregions fun table htable => ?_
  have hold := hptr table htable
  show 0 < update h'.freed h₁.next (h'.freed h₁.next + 1) table
  by_cases hsame : table = h₁.next
  · subst hsame
    rw [update_self]
    omega
  · rwa [update_of_ne hsame]

theorem createAllocs_right {env : AllocEnv} {length : ℕ} (hnot : ¬ PrefetchFails env length) :
    CreateRight (createCommitRecordAllocs env length .empty) := by
  have hdone : ∀ {record : ℕ} {h : Heap}, h.failed = false → CreateRight (some record, h) :=
    fun hfailed => ⟨fun hc => by simp [hfailed] at hc, fun hc => by simp [hfailed] at hc,
      fun hc => by simp [hfailed] at hc⟩
  unfold createCommitRecordAllocs
  by_cases hrec : env.allocOk 0 = true
  swap
  · rw [alloc_fails fun hc => hrec hc.1]
    exact ⟨fun _ => rfl, fun _ block hblock => absurd hblock (Nat.not_lt_zero block), fun _ => rfl⟩
  obtain ⟨h₁, halloc₁, hnew₁⟩ := @alloc_ok env .empty _ hrec Nat.one_pos
  rw [halloc₁]
  dsimp only
  have hattempts₁ : h₁.attempts = 1 := hnew₁.attempts
  have hnext₁ : h₁.next = 1 := hnew₁.next
  have hfreed₁ : ∀ block, h₁.freed block = 0 := fun block => congrFun hnew₁.freed block
  by_cases harray : env.allocOk 1 = true ∧ 0 < 8 * (pageAlign length / pageSize)
  swap
  · -- the record is freed, which has no table
    rw [alloc_fails (hattempts₁ ▸ harray)]
    dsimp only
    rw [destroyPrefetchInfo_zero]
    refine ⟨fun _ => rfl, fun _ block hblock => ?_, fun _ => hnew₁.bad⟩
    replace hblock : block < h₁.next := hblock
    obtain rfl : block = 0 := by omega
    show h₁.freed 0 + 1 = 1
    rw [hfreed₁]
  obtain ⟨h₂, halloc₂, hnew₂⟩ := alloc_ok (h := h₁) (hattempts₁ ▸ harray.1) harray.2
  rw [halloc₂]
  dsimp only
  have hattempts₂ : h₂.attempts = 2 := by rw [hnew₂.attempts, hattempts₁]
  have hfailed₂ : h₂.failed = false := hnew₂.failed.trans hnew₁.failed
  by_cases hinfo : env.uvmPrefetch = true ∧ prefetchMinLength ≤ length
  · obtain ⟨hpref, hlong⟩ := hinfo
    by_cases hregions : 0 < prefetchRegions length
    · obtain ⟨regionPtrs, h', hinit, hfailed⟩ := initPrefetchInfo_succeeds (h := h₂) hpref hlong hregions
        fun i hi => by
          rw [hattempts₂]
          by_contra hc
          exact hnot ⟨hpref, hlong, by omega, hregions, hrec, harray.1, i, hi, by simpa using hc⟩
      rw [hinit]
      exact hdone (hfailed.trans hfailed₂)
    · -- the number of regions has wrapped
      have hzero : prefetchRegions length = 0 := by omega
      unfold initPrefetchInfo
      rw [hpref, if_neg (by simp), if_neg (by omega), hzero]
      dsimp only
      rw [alloc_fails (by omega)]
      dsimp only
      rw [destroyPrefetchInfo_zero, destroyPrefetchInfo_zero]
      refine ⟨fun _ => rfl, fun _ block hblock => ?_, fun _ => hnew₂.bad.trans hnew₁.bad⟩
      replace hblock : block < h₂.next := hblock
      have hfreed₂ : ∀ b, h₂.freed b = 0 := fun b => (congrFun hnew₂.freed b).trans (hfreed₁ b)
      rw [hnew₂.next, hnext₁] at hblock
      show update (update h₂.freed h₁.next (h₂.freed h₁.next + 1)) 0
        (update h₂.freed h₁.next (h₂.freed h₁.next + 1) 0 + 1) block = 1
      rw [hnext₁]
      rcases (by omega : block = 0 ∨ block = 1) with rfl | rfl
      · rw [update_self, update_of_ne (by decide), hfreed₂]
      · rw [update_of_ne (by decide), update_self, hfreed₂]
  · have hinit : initPrefetchInfo env length h₂ = (true, 0, none, h₂) := by
      unfold initPrefetchInfo
      split
      · rfl
      · next hpref => rw [if_pos (by by_contra hc; exact hinfo ⟨by simpa using hpref, by omega⟩)]
    rw [hinit]
    exact hdone hfailed₂

theorem splitAndTrack_right {T : Type*} (track : State → ℕ → T → T) {s : State} (h : s.Links) {r : ℕ}
    (hlive : s.Live r) (tracker : T) (splitPoint : ℕ) (createOk : ℕ → Bool) :
    SplitRight s tracker r (splitAndTrack track s tracker r splitPoint createOk) := by
  have hfails : (s.splitCommitRecord r splitPoint createOk).1 = none →
      State.Extended s (s.splitCommitRecord r splitPoint createOk).2 := fun hnone =>
    (h.splitCommitRecord_fails hlive.1 hlive.2 fun hok => by
      rw [(State.splitCommitRecord_eq hlive.1 hok).1] at hnone
      cases hnone).2
  unfold splitAndTrack
  rcases hsplit : s.splitCommitRecord r splitPoint createOk with ⟨_ | children, s'⟩
  · rw [hsplit] at hfails
    have he := hfails rfl
    exact ⟨fun _ => he.record r hlive.1, fun _ => ⟨he.stream, he.allStreamList, he.streamsCache⟩,
      fun _ => rfl⟩
  · exact ⟨(fun hc => nomatch hc), (fun hc => nomatch hc), (fun hc => nomatch hc)⟩

/-- **The exits are right unless an allocation of the prefetcher fails.** -/
theorem commitRecord_right_iff (env : AllocEnv) (length : ℕ) :
    CreateRight (createCommitRecordAllocs env length .empty) ∧
        (∀ (T : Type) (track : State → ℕ → T → T) (s : State) (tracker : T) (r splitPoint : ℕ)
          (createOk : ℕ → Bool), s.Links → s.Live r →
          SplitRight s tracker r (splitAndTrack track s tracker r splitPoint createOk)) ↔
      ¬ PrefetchFails env length := by
  constructor
  · rintro ⟨hright, -⟩ hfails
    obtain ⟨hfailed, hbad⟩ := createAllocs_bad hfails
    exact absurd (hright.sound hfailed) (by simp [hbad])
  · exact fun hnot => ⟨createAllocs_right hnot, fun T track s tracker r splitPoint createOk h hlive =>
      splitAndTrack_right track h hlive tracker splitPoint createOk⟩

/-- A record of 16K with prefetching, where the table of its only region cannot be allocated. -/
theorem missing_table_is_read :
    ¬ ∀ (env : AllocEnv) (length : ℕ), CreateRight (createCommitRecordAllocs env length .empty) := by
  intro h
  have hsound := (h ⟨true, fun i => decide (i ≠ 2)⟩ 0x4000).sound (by decide)
  revert hsound
  decide

end NvUvm.Lite
