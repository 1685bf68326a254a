import NvUvm.Lib.Ledger
import NvUvm.LiteEventQueues

/-!
# What an event queue allocates

`uvm_create_event_queue` leaves every failure to `uvm_remove_event_queue`, which tells from two pointers of
the queue how far its construction has come (`uvm_kernel_events.c`).
-/

namespace NvUvm.EventQueues

open Lib

/-- The allocations and mappings of a queue, and the lists that it is on. -/
inductive Resource where
  | info
  | roDataPage
  | roData
  | rwDataPage
  | rwData
  | bufferPageList
  | bufferPage (i : ℕ)
  | buffer
  | session
  | listener (t : UvmEventType)
  deriving DecidableEq

/-- The fields of `UvmEventQueueInfo` that the destructor looks at. -/
structure Built where
  pUserROData : Bool
  pUserRWData : Bool
  ppBufferPageList : Bool
  pBuffer : Bool
  listed : Bool
  enabledEvents : UvmEventType → Bool

/-- A queue that was just allocated. -/
def Built.zero : Built := ⟨false, false, false, false, false, fun _ => false⟩

/-- `vunmap`, `vfree` and `list_del_init` do nothing where there is nothing. -/
def releaseIf (b : Bool) (r : Resource) (l : Ledger Resource) : Ledger Resource :=
  if b then l.release r else l

def bufferPages (n : ℕ) : List Resource := (List.range n).map .bufferPage

/-- `uvm_remove_event_queue`.  The number of pages is the one that was asked for. -/
def removeQueue (q : Built) (numQueuePages : ℕ) (l : Ledger Resource) : Option (Ledger Resource) :=
  if !q.pUserROData then some l
  else
    let l := l.releaseAll ((UvmEventType.all.filter q.enabledEvents).map .listener)
    let l := (l.release .roData).release .roDataPage
    if !q.pUserRWData then some l
    else
      let l := (l.release .rwData).release .rwDataPage
      let l := releaseIf q.pBuffer .buffer l
      -- the loop reads the list
      if !q.ppBufferPageList && decide (numQueuePages ≠ 0) then none
      else
        let l := releaseIf q.ppBufferPageList .bufferPageList (l.releaseAll (bufferPages numQueuePages))
        some ((releaseIf q.listed .session l).release .info)

/-- The exit of a failure. -/
def failQueue (status : NvStatus) (q : Built) (numQueuePages : ℕ) (l : Ledger Resource) :
    Option (NvStatus × Ledger Resource) :=
  (removeQueue q numQueuePages l).map fun l => (status, l)

/-- `uvm_create_event_queue`. -/
def createQueue (io : CreateInput) (queueSize : ℕ) (l : Ledger Resource) :
    Option (NvStatus × Ledger Resource) :=
  let n := queuePages queueSize
  if !io.vmallocInfo then some (.errNoMemory, l)
  else
    let l := l.acquire .info
    if !io.roPage then failQueue .errNoMemory .zero n l
    else
      let l := l.acquire .roDataPage
      if !io.roMap then failQueue errInsufficientResources .zero n l
      else
        let l := l.acquire .roData
        let q := { Built.zero with pUserROData := true }
        -- the test behind this allocation looks at the other page, and `kmap` gets a null pointer
        if !io.rwPage then none
        else
          let l := l.acquire .rwDataPage
          if !io.rwMap then failQueue errInsufficientResources q n l
          else
            let l := l.acquire .rwData
            let q := { q with pUserRWData := true }
            if !io.vmallocList || decide (n = 0) then failQueue .errNoMemory q n l
            else
              let l := l.acquire .bufferPageList
              let q := { q with ppBufferPageList := true }
              if io.pages < n then failQueue .errNoMemory q n (l.acquireAll (bufferPages io.pages))
              else
                let l := l.acquireAll (bufferPages n)
                if !io.vmap || decide (vmapCount n = 0) then failQueue .errNoMemory q n l
                else some (.ok, (l.acquire .buffer).acquire .session)

/-- A queue that has everything but its pages. -/
def withoutPages : List Resource := [.info, .roDataPage, .roData, .rwDataPage, .rwData, .bufferPageList]

/-- What the destructor of such a queue frees. -/
def tornDown (numQueuePages : ℕ) : List Resource :=
  [.roData, .roDataPage, .rwData, .rwDataPage] ++ (bufferPages numQueuePages ++ [.bufferPageList, .info])

/-- A complete queue that listens to some events. -/
def complete (queueSize : ℕ) (enabledEvents : UvmEventType → Bool) : List Resource :=
  withoutPages ++ bufferPages (queuePages queueSize) ++ [.buffer, .session] ++ (UvmEventType.all.filter enabledEvents).map .listener

/-- Nothing is held. -/
def nothing : Ledger Resource := ⟨0, false⟩

/-- A call that fails leaves nothing, and one that succeeds makes a queue that can be removed. -/
structure CreateRight (io : CreateInput) (queueSize : ℕ) : Prop where
  returns : (createQueue io queueSize nothing).isSome = true
  failed : ∀ status l, createQueue io queueSize nothing = some (status, l) → status ≠ .ok → l = nothing
  created : ∀ l, createQueue io queueSize nothing = some (.ok, l) →
    l = nothing.acquireAll (complete queueSize fun _ => false) ∧
    ∀ enabledEvents, removeQueue ⟨true, true, true, true, true, enabledEvents⟩ (queuePages queueSize)
      (l.acquireAll ((UvmEventType.all.filter enabledEvents).map .listener)) = some nothing

/-- One of the shared pages or mappings fails, or the list or the pages of a buffer that is not empty. -/
def Uncleared (io : CreateInput) (queueSize : ℕ) : Prop :=
  io.vmallocInfo = true ∧ (io.roPage = false ∨ io.roMap = false ∨ io.rwPage = false ∨ io.rwMap = false ∨
    queuePages queueSize ≠ 0 ∧ (io.vmallocList = false ∨ io.pages < queuePages queueSize))

/-! ## When it is right -/

theorem complete_perm (queueSize : ℕ) (enabledEvents : UvmEventType → Bool) :
    (complete queueSize enabledEvents).Perm ((UvmEventType.all.filter enabledEvents).map .listener ++
      ([.roData, .roDataPage, .rwData, .rwDataPage, .buffer] ++ (bufferPages (queuePages queueSize) ++
        [.bufferPageList, .session, .info]))) := by
  rw [List.perm_iff_count]
  simp only [complete, withoutPages, List.count_append, List.count_cons]
  omega

theorem removeQueue_complete (queueSize : ℕ) (enabledEvents : UvmEventType → Bool) :
    removeQueue ⟨true, true, true, true, true, enabledEvents⟩ (queuePages queueSize)
      (nothing.acquireAll (complete queueSize enabledEvents)) = some nothing := by
  have hall := Ledger.releaseAll_acquireAll nothing (complete_perm queueSize enabledEvents)
  simp only [Ledger.releaseAll, List.foldl_append, List.foldl_cons, List.foldl_nil] at hall
  simp only [removeQueue, releaseIf, Ledger.releaseAll, Bool.not_true, Bool.false_and, Bool.false_eq_true,
    if_false, if_true]
  rw [hall]

theorem ne_nothing_of_bad {l : Ledger Resource} (h : l.bad = true) : l ≠ nothing := by
  rintro rfl
  cases h

theorem not_createRight_of_none {io : CreateInput} {queueSize : ℕ}
    (h : createQueue io queueSize nothing = none) : ¬ CreateRight io queueSize := by
  intro hright
  have hreturns := hright.returns
  rw [h] at hreturns
  cases hreturns

theorem createRight_iff_of_failed {io : CreateInput} {queueSize : ℕ} {status : NvStatus}
    {l : Ledger Resource} (h : createQueue io queueSize nothing = some (status, l)) (hstat : status ≠ .ok) :
    CreateRight io queueSize ↔ l = nothing := by
  refine ⟨fun hright => hright.failed status l h hstat, fun hl => ?_⟩
  rw [hl] at h
  refine ⟨by rw [h]; rfl, fun status' l' h' _ => ?_, fun l' h' => ?_⟩
  · cases h.symm.trans h'
    rfl
  · cases h.symm.trans h'
    exact absurd rfl hstat

/-- **A queue is created, or nothing is left of it**, unless one of these steps fails. -/
theorem createQueue_right_iff (io : CreateInput) (queueSize : ℕ) :
    CreateRight io queueSize ↔ ¬ Uncleared io queueSize := by
  unfold Uncleared
  cases hinfo : io.vmallocInfo with
  | false =>
    have h : createQueue io queueSize nothing = some (.errNoMemory, nothing) := by simp [createQueue, hinfo]
    simp [createRight_iff_of_failed h]
  | true =>
  cases hro : io.roPage with
  | false =>
    -- the queue itself is lost
    have h : createQueue io queueSize nothing = some (.errNoMemory, nothing.acquire .info) := by
      simp [createQueue, failQueue, removeQueue, Built.zero, hinfo, hro]
    simp [createRight_iff_of_failed h, show nothing.acquire .info ≠ nothing by decide]
  | true =>
  cases hmap : io.roMap with
  | false =>
    have h : createQueue io queueSize nothing =
        some (errInsufficientResources, (nothing.acquire .info).acquire .roDataPage) := by
      simp [createQueue, failQueue, removeQueue, Built.zero, hinfo, hro, hmap]
    simp [createRight_iff_of_failed h (by decide),
      show (nothing.acquire .info).acquire .roDataPage ≠ nothing by decide]
  | true =>
  cases hrw : io.rwPage with
  | false =>
    have h : createQueue io queueSize nothing = none := by simp [createQueue, hinfo, hro, hmap, hrw]
    simp [not_createRight_of_none h]
  | true =>
  cases hmap' : io.rwMap with
  | false =>
    have h : createQueue io queueSize nothing = some (errInsufficientResources,
        (nothing.acquireAll [.info, .roDataPage, .roData, .rwDataPage]).releaseAll [.roData, .roDataPage]) := by
      simp [createQueue, failQueue, removeQueue, Built.zero, hinfo, hro, hmap, hrw, hmap',
        Ledger.releaseAll, Ledger.acquireAll]
    simp [createRight_iff_of_failed h (by decide),
      show (nothing.acquireAll [.info, .roDataPage, .roData, .rwDataPage]).releaseAll
        [.roData, .roDataPage] ≠ nothing by decide]
  | true =>
  by_cases hzero : queuePages queueSize = 0
  · -- there is no list, and no page to be freed
    have h : createQueue io queueSize nothing = some (.errNoMemory,
        (nothing.acquireAll [.info, .roDataPage, .roData, .rwDataPage, .rwData]).releaseAll
          [.roData, .roDataPage, .rwData, .rwDataPage, .info]) := by
      simp [createQueue, failQueue, removeQueue, releaseIf, bufferPages, Built.zero, hinfo, hro, hmap, hrw,
        hmap', hzero, Ledger.releaseAll, Ledger.acquireAll]
    have hall : (nothing.acquireAll [.info, .roDataPage, .roData, .rwDataPage, .rwData]).releaseAll
        [.roData, .roDataPage, .rwData, .rwDataPage, .info] = nothing := by decide
    simp [createRight_iff_of_failed h, hall, hzero]
  cases hlist : io.vmallocList with
  | false =>
    have h : createQueue io queueSize nothing = none := by
      simp [createQueue, failQueue, removeQueue, Built.zero, hinfo, hro, hmap, hrw, hmap', hzero, hlist]
    simp [not_createRight_of_none h, hzero]
  | true =>
  have hheld : ∀ rs : List Resource,
      ((((((nothing.acquire .info).acquire .roDataPage).acquire .roData).acquire .rwDataPage).acquire
        .rwData).acquire .bufferPageList).acquireAll rs =
      nothing.acquireAll (withoutPages ++ rs) :=
    fun rs => by simp only [withoutPages, Ledger.acquireAll, List.foldl_append, List.foldl_cons, List.foldl_nil]
  -- the destructor of a queue without a buffer
  have hfree : ∀ l, removeQueue { Built.zero with
      pUserROData := true
      pUserRWData := true
      ppBufferPageList := true } (queuePages queueSize) l =
      some (l.releaseAll (tornDown (queuePages queueSize))) := fun l => by
    simp [removeQueue, tornDown, releaseIf, Built.zero, Ledger.releaseAll]
  by_cases hpages : io.pages < queuePages queueSize
  · have h : createQueue io queueSize nothing = some (.errNoMemory,
        (nothing.acquireAll (withoutPages ++ bufferPages io.pages)).releaseAll
          (tornDown (queuePages queueSize))) := by
      rw [← hheld]
      simp [createQueue, failQueue, hinfo, hro, hmap, hrw, hmap', hzero, hlist, hpages, hfree]
    -- the first page that is missing is freed
    have hbad := Ledger.releaseAll_bad_of_notMem (r := .bufferPage io.pages)
      (nothing.acquireAll (withoutPages ++ bufferPages io.pages)) (tornDown (queuePages queueSize))
      (by simp [tornDown, bufferPages, hpages])
      (by simp [Ledger.acquireAll_eq, nothing, withoutPages, bufferPages])
    exact iff_of_false (fun hright => ne_nothing_of_bad hbad ((createRight_iff_of_failed h (by simp)).mp hright))
      (by simp [hzero, hpages])
  refine iff_of_true ?_ (by simp [hzero, hpages])
  cases hvmap : !io.vmap || decide (vmapCount (queuePages queueSize) = 0) with
  | true =>
    have hperm : (withoutPages ++ bufferPages (queuePages queueSize)).Perm
        (tornDown (queuePages queueSize)) := by
      rw [List.perm_iff_count]
      simp only [withoutPages, tornDown, List.count_append, List.count_cons, List.count_nil]
      omega
    have hall := Ledger.releaseAll_acquireAll nothing hperm
    rw [← hheld] at hall
    have h : createQueue io queueSize nothing = some (.errNoMemory, nothing) := by
      simp [createQueue, failQueue, hinfo, hro, hmap, hrw, hmap', hzero, hlist, hpages, hvmap, hfree, hall]
    exact (createRight_iff_of_failed h (by simp)).mpr rfl
  | false =>
    have h : createQueue io queueSize nothing =
        some (.ok, nothing.acquireAll (complete queueSize fun _ => false)) := by
      simp [createQueue, complete, withoutPages, hinfo, hro, hmap, hrw, hmap', hzero, hlist, hpages, hvmap,
        Ledger.acquireAll]
    refine ⟨by rw [h]; rfl, fun status l h' hstat => ?_, fun l h' => ?_⟩
    · cases h.symm.trans h'
      exact absurd rfl hstat
    · cases h.symm.trans h'
      refine ⟨rfl, fun enabledEvents => ?_⟩
      have hcomplete := removeQueue_complete queueSize enabledEvents
      simpa only [complete, Ledger.acquireAll, List.foldl_append, List.filter_false, List.map_nil,
        List.foldl_nil] using hcomplete

/-- A page of the buffer cannot be allocated, and the destructor frees it all the same. -/
theorem missing_page_is_freed : ¬ ∀ io queueSize, CreateRight io queueSize := by
  intro hall
  have hfailed := (hall ⟨true, true, true, true, true, true, 1, true⟩ 100).failed .errNoMemory _ rfl
    (by decide)
  exact absurd hfailed (by decide)

end NvUvm.EventQueues
