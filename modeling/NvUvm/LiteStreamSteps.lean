import NvUvm.LiteStreamCalls

/-!
# The calls on streams, one by one

Each call keeps the invariant when it may be made, and leaves something wrong when it may not.
-/

namespace NvUvm.Lite

open Function (update update_of_ne update_self)

namespace State

variable {s s' : State} {r st new id n : ℕ} {spare : List ℕ} {a : Prop} {io : Io}

/-! ## Finding a stream, or a new one -/

/-- What `_stream_find_or_alloc` leaves when it finds or allocates a stream. -/
structure Found (s s' : State) (st id : ℕ) : Prop where
  record : s'.record = s.record
  records : s'.records = s.records
  runningStreams : s'.runningStreams = s.runningStreams
  streams : s.streams ≤ s'.streams
  stream : ∀ st', st' < s.streams → s'.stream st' = s.stream st'
  mem : st ∈ s'.allStreamList
  streamId : (s'.stream st).streamId = id
  listed : ∀ st' ∈ s.allStreamList, st' ∈ s'.allStreamList ∧ s'.stream st' = s.stream st'
  only : ∀ st' ∈ s'.allStreamList, st' = st ∨ st' ∈ s.allStreamList
  source : (s.streamFind id = some st ∧ s'.allStreamList = s.allStreamList) ∨
    (s.streamFind id = none ∧ st ∉ s.allStreamList ∧ s'.stream st = ⟨id, false, [], false⟩)

theorem Inv.streamFindOrAlloc (h : s.Inv spare n a) (id : ℕ) (streamOk : Bool) :
    (s.streamFind id = none ∧ streamOk = false ∧
      s.streamFindOrAlloc id streamOk = (none, s)) ∨
    ∃ st s', s.streamFindOrAlloc id streamOk = (some st, s') ∧ Found s s' st id ∧
      (s.streamFind id = none → streamOk = true) ∧ s'.Inv (st :: spare) n a ∧
      (st ∉ spare → s'.Matches st) := by
  unfold State.streamFindOrAlloc
  cases hfind : s.streamFind id with
  | some st =>
    obtain ⟨hst, hid⟩ := h.links.streamFind_iff.mp hfind
    refine .inr ⟨st, s.streamSaveInCache st, rfl,
      ⟨rfl, rfl, rfl, Nat.le_refl _, fun _ _ => rfl, hst, hid, fun st' hst' => ⟨hst', rfl⟩,
        fun _ => .inr,
        .inl ⟨hfind, rfl⟩⟩,
      (fun heq => nomatch heq), ?_, h.matched st hst⟩
    exact (h.streamSaveInCache hst).mono (List.subset_cons_self st spare)
  | none =>
    have hid := h.links.streamFind_none hfind
    cases streamOk with
    | false => exact .inl ⟨rfl, rfl, rfl⟩
    | true =>
      have hnew : (s.streamAlloc id).stream s.streams = ⟨id, false, [], false⟩ :=
        update_self ..
      have hmem : s.streams ∈ (s.streamAlloc id).allStreamList :=
        List.mem_append_right _ (List.mem_singleton.mpr rfl)
      have hout : s.streams ∉ s.allStreamList :=
        fun hst => absurd ((h.links.live _).mp hst).1 (Nat.lt_irrefl _)
      refine .inr ⟨s.streams, (s.streamAlloc id).streamSaveInCache s.streams, rfl,
        ⟨rfl, rfl, rfl, Nat.le_succ _, fun st' hlt => update_of_ne (Nat.ne_of_lt hlt) ..,
          hmem, congrArg StreamRecord.streamId hnew, fun st' hst' => ⟨?_, ?_⟩,
          fun st' hst' => ?_, .inr ⟨hfind, hout, hnew⟩⟩,
        fun _ => rfl, (h.streamAlloc hid).streamSaveInCache hmem, fun _ r hr => ?_⟩
      · exact List.mem_append_left _ hst'
      · refine update_of_ne ?_ ..
        rintro rfl
        exact hout hst'
      · exact (List.mem_append.mp hst').symm.imp_left List.mem_singleton.mp
      · replace hr : r ∈ ((s.streamAlloc id).stream s.streams).commitRecordsList := hr
        rw [hnew] at hr
        exact nomatch hr

/-! ## A record changes its stream -/

theorem streamDestroyIfEmpty_rest (s : State) (o : Option ℕ) :
    (s.streamDestroyIfEmpty o).record = s.record ∧ (s.streamDestroyIfEmpty o).records = s.records ∧
      (s.streamDestroyIfEmpty o).runningStreams = s.runningStreams ∧
      (s.streamDestroyIfEmpty o).oops = s.oops := by
  unfold State.streamDestroyIfEmpty
  split
  · exact ⟨rfl, rfl, rfl, rfl⟩
  split
  · exact ⟨rfl, rfl, rfl, rfl⟩
  split
  · exact ⟨rfl, rfl, rfl, rfl⟩
  next st _ _ =>
  obtain ⟨hrec, hrecs, -, hrun, hoops, -⟩ := streamDestroy_rest s st
  exact ⟨hrec, hrecs, hrun, hoops⟩

theorem listDel_oops (hnode : (s.record r).streamRegionsListNode = .deleted) :
    (s.listDel r).oops = true := by
  unfold State.listDel
  rw [hnode]

theorem Moved.of_same {s₁ : State} {target : Option ℕ} (hsame : SameLinks s s₁)
    (hchildren : (s₁.record r).hasChildren = (s.record r).hasChildren)
    (hother : ∀ q, q ≠ r → s₁.record q = s.record q) (m : Moved s₁ s' r target) :
    Moved s s' r target where
  records := m.records.trans hsame.records
  streams := m.streams.trans hsame.streams
  allStreamList := m.allStreamList.trans hsame.allStreamList
  streamsCache := m.streamsCache.trans hsame.streamsCache
  runningStreams := m.runningStreams.trans hsame.runningStreams
  oops := m.oops.trans hsame.oops
  record q hq := (m.record q hq).trans (hother q hq)
  pStream := m.pStream
  node := m.node
  hasChildren := m.hasChildren.trans hchildren
  recordFreed := m.recordFreed.trans (hsame.freed r)
  stream st hst := by
    rw [m.stream st (hsame.allStreamList ▸ hst), hsame.stream]
  freed st := by
    rw [m.freed st, hsame.stream]

theorem migrateToGpu_record (s : State) (r : ℕ) (io : Io) :
    (∀ q, q ≠ r → (s.migrateToGpu r io).2.record q = s.record q) ∧
      ((s.migrateToGpu r io).2.record r).isAccessible = (s.record r).isAccessible ∧
      ((s.migrateToGpu r io).2.record r).hasChildren = (s.record r).hasChildren := by
  unfold State.migrateToGpu
  split
  · exact ⟨fun _ _ => rfl, rfl, rfl⟩
  split
  · exact ⟨fun _ _ => rfl, rfl, rfl⟩
  split
  · exact ⟨fun _ _ => rfl, rfl, rfl⟩
  refine ⟨fun q hq => update_of_ne hq .., ?_, ?_⟩
  · dsimp only
    rw [setRecord_self]
  · dsimp only
    rw [setRecord_self]

theorem setAccessible_record (s : State) (r : ℕ) (isAccessible : Bool) :
    (∀ q, q ≠ r → (s.setAccessible r isAccessible).record q = s.record q) ∧
      (s.setAccessible r isAccessible).record r =
        { s.record r with isAccessible := isAccessible } :=
  ⟨fun _ hq => update_of_ne hq .., update_self ..⟩

/-- The first half of `_record_attach_to_stream`. -/
def attachAccess (s : State) (r new : ℕ) (io : Io) : NvStatus × State :=
  let unchanged := (s.record r).pStream.any fun st =>
    (s.stream st).isRunning = (s.stream new).isRunning
  if unchanged then (.ok, s)
  else if (s.stream new).isRunning then (s.setAccessible r false).migrateToGpu r io
  else (.ok, s.setAccessible r true)

/-- The second half of `_record_attach_to_stream`, less what becomes of the old stream. -/
def attachLink (s : State) (r new : ℕ) : State :=
  ((s.listDel r).listAddTail r new).setRecord r
    { ((s.listDel r).listAddTail r new).record r with pStream := some new }

theorem recordAttachToStream_eq (s : State) (r new : ℕ) (io : Io) :
    s.recordAttachToStream r new io = ((s.attachAccess r new io).1,
      ((s.attachAccess r new io).2.attachLink r new).streamDestroyIfEmpty (s.record r).pStream) :=
  rfl

theorem attachAccess_same (s : State) (r new : ℕ) (io : Io) :
    SameLinks s (s.attachAccess r new io).2 ∧
      ((s.attachAccess r new io).2.record r).hasChildren = (s.record r).hasChildren ∧
      (∀ q, q ≠ r → (s.attachAccess r new io).2.record q = s.record q) ∧
      (((s.attachAccess r new io).2.record r).isAccessible = !(s.stream new).isRunning ∨
        ∃ st, (s.record r).pStream = some st ∧
          (s.stream st).isRunning = (s.stream new).isRunning ∧
          (s.attachAccess r new io).2 = s) := by
  unfold attachAccess
  dsimp only
  split
  · next hunchanged =>
    obtain ⟨st, hst, hsame⟩ := (Option.any_eq_true _ _).mp hunchanged
    exact ⟨SameLinks.refl s, rfl, fun _ _ => rfl, .inr ⟨st, hst, of_decide_eq_true hsame, rfl⟩⟩
  split
  · next hrun =>
    obtain ⟨hother, hacc, hchildren⟩ := migrateToGpu_record (s.setAccessible r false) r io
    obtain ⟨hother', hself⟩ := setAccessible_record s r false
    refine ⟨(setAccessible_sameLinks s r false).trans (migrateToGpu_sameLinks _ r io), ?_,
      fun q hq => (hother q hq).trans (hother' q hq), .inl ?_⟩
    · rw [hchildren, hself]
    · rw [hacc, hself, hrun]
      rfl
  · next hstop =>
    obtain ⟨hother', hself⟩ := setAccessible_record s r true
    refine ⟨setAccessible_sameLinks s r true, ?_, hother', .inl ?_⟩
    · rw [hself]
    · rw [hself, Bool.eq_false_iff.mpr hstop]
      rfl

theorem Inv.recordAttachToStream (h : s.Inv [new] n a) (hnew : new ∈ s.allStreamList)
    (hmatch : s.Matches new) (hr : r < s.records) (hlive : (s.record r).freed = 0)
    (hnode : (s.record r).streamRegionsListNode ≠ .deleted) :
    (s.recordAttachToStream r new io).2.Inv [] n a ∧
      (s.recordAttachToStream r new io).2.runningStreams = s.runningStreams := by
  obtain ⟨hsame, hchildren, hother, hacc⟩ := attachAccess_same s r new io
  have hlinks := h.links.same hsame
  let t := s.attachAccess r new io
  have hm : Moved s (t.2.attachLink r new) r (some new) := by
    refine Moved.of_same hsame hchildren hother (hlinks.moved_attach ?_)
    rw [hsame.node]
    exact hnode
  have hmatches : ∀ st ∈ s.allStreamList, s.Matches st := by
    intro st hst
    by_cases heq : st = new
    · exact heq ▸ hmatch
    · exact h.matched st hst fun hmem => heq (List.mem_singleton.mp hmem)
  have hwanted : (((t.2.attachLink r new)).record r).isAccessible = !(s.stream new).isRunning := by
    have hkeep : ((t.2.attachLink r new).record r).isAccessible = (t.2.record r).isAccessible := by
      have hdel := (hlinks.listDel (r := r) (by rw [hsame.node]; exact hnode)).1
      show (update (update (t.2.listDel r).record r _) r
        { update (t.2.listDel r).record r _ r with
          pStream := some new } r).isAccessible = _
      rw [update_self, update_self, hdel, update_self]
    rw [hkeep]
    rcases hacc with hdone | ⟨st, hst, hrun, heq⟩
    · exact hdone
    · -- the old stream is in the same state, and the record matches it
      obtain ⟨hlist, hmem⟩ := h.links.linked r st hr hlive hst
      rw [heq, hmatches st hlist r hmem, hrun]
  have hsplit : (s.record r).hasChildren = false :=
    Bool.eq_false_iff.mpr fun hchild => hnode (h.links.split r hr hchild)
  have hspare : ∀ st ∈ [new], some new = some st ∧ s.Matches st := by
    intro st hst
    rw [List.mem_singleton.mp hst]
    exact ⟨rfl, hmatch⟩
  have hmoved := h.moved hm hr hlive (fun _ => hsplit)
    (fun st hst => Option.some.inj hst ▸ hnew) hspare
    (fun st hst => Option.some.inj hst ▸ hwanted)
  have hall := h.matched_moved hm (fun st hst => (hspare st hst).2)
    (fun st hst => Option.some.inj hst ▸ hwanted)
  rw [recordAttachToStream_eq]
  rw [(streamDestroyIfEmpty_rest _ _).2.2.1]
  refine ⟨?_, hm.runningStreams⟩
  cases hold : (s.record r).pStream with
  | none =>
    rw [hold] at hmoved
    exact hmoved
  | some st =>
    rw [hold] at hmoved
    have hst : st ∈ (t.2.attachLink r new).allStreamList := by
      rw [hm.allStreamList]
      exact (h.links.linked r st hr hlive hold).1
    exact hmoved.streamDestroyIfEmpty hst (hall st hst)

theorem recordAttachToStream_oops (hnode : (s.record r).streamRegionsListNode = .deleted) :
    (s.recordAttachToStream r new io).2.oops = true := by
  rw [recordAttachToStream_eq]
  rw [(streamDestroyIfEmpty_rest _ _).2.2.2]
  refine listDel_oops (s := (s.attachAccess r new io).2) ?_
  rw [(attachAccess_same s r new io).1.node]
  exact hnode

def OnStream (s : State) (r id : ℕ) : Prop :=
  (s.record r).pStream.any (fun st => (s.stream st).streamId = id) = true

/-- There is no stream with this number, and none can be allocated. -/
def NoStream (s : State) (id : ℕ) (streamOk : Bool) : Prop :=
  s.streamFind id = none ∧ streamOk = false

theorem Inv.regionSetStream (h : s.Inv [] n a) (hr : r < s.records) (hlive : (s.record r).freed = 0)
    (hok : s.OnStream r id ∨ s.NoStream id io.streamOk ∨
      (s.record r).streamRegionsListNode ≠ .deleted) :
    (s.regionSetStream r id io).2.Inv [] n a ∧
      (s.regionSetStream r id io).2.runningStreams = s.runningStreams := by
  unfold State.regionSetStream
  split
  · exact ⟨h, rfl⟩
  next hother =>
  rcases h.streamFindOrAlloc id io.streamOk with ⟨_, _, heq⟩ | ⟨st, s', heq, hfound, hnew, hinv, hmatch⟩
  · rw [heq]
    exact ⟨h, rfl⟩
  rw [heq]
  -- the stream is there, so the node is what the condition is about
  have hnode : (s.record r).streamRegionsListNode ≠ .deleted := by
    rcases hok with hon | ⟨hnone, hfail⟩ | hnode
    · exact absurd hon hother
    · exact nomatch hfail.symm.trans (hnew hnone)
    · exact hnode
  rw [← hfound.runningStreams]
  rw [← hfound.record] at hlive hnode
  rw [← hfound.records] at hr
  exact hinv.recordAttachToStream hfound.mem (hmatch List.not_mem_nil) hr hlive hnode

theorem Inv.regionSetStream_oops (h : s.Inv [] n a) (hoff : ¬ s.OnStream r id)
    (hstr : ¬ s.NoStream id io.streamOk)
    (hnode : (s.record r).streamRegionsListNode = .deleted) :
    (s.regionSetStream r id io).2.oops = true := by
  unfold OnStream at hoff
  unfold State.regionSetStream
  rw [if_neg hoff]
  rcases h.streamFindOrAlloc id io.streamOk with ⟨hnone, hfail, _⟩ | ⟨st, s', heq, hfound, _⟩
  · exact absurd ⟨hnone, hfail⟩ hstr
  rw [heq]
  rw [← hfound.record] at hnode
  exact recordAttachToStream_oops hnode

/-! ## A record is destroyed -/

theorem streamRemoveFromCache_setRecord (s : State) (st r : ℕ) (record : CommitRecord) :
    (s.setRecord r record).streamRemoveFromCache st =
      (s.streamRemoveFromCache st).setRecord r record := by
  unfold streamRemoveFromCache
  show (if s.streamsCache ((s.stream st).streamId % streamsCacheSize) = some st then
    { s.setRecord r record with
      streamsCache := update s.streamsCache
        ((s.stream st).streamId % streamsCacheSize) none }
    else s.setRecord r record) = _
  by_cases hslot : s.streamsCache ((s.stream st).streamId % streamsCacheSize) = some st
  · rw [if_pos hslot, if_pos hslot]
    rfl
  · rw [if_neg hslot, if_neg hslot]

theorem streamDestroyIfEmpty_setRecord (s : State) (o : Option ℕ) (r : ℕ) (record : CommitRecord) :
    (s.setRecord r record).streamDestroyIfEmpty o =
      (s.streamDestroyIfEmpty o).setRecord r record := by
  unfold State.streamDestroyIfEmpty
  cases o with
  | none => rfl
  | some st =>
    dsimp only
    show (if (s.stream st).isRunning = true then s.setRecord r record
      else if (s.stream st).commitRecordsList ≠ [] then s.setRecord r record
      else (s.setRecord r record).streamDestroy st) = _
    by_cases hrun : (s.stream st).isRunning = true
    · rw [if_pos hrun, if_pos hrun]
    rw [if_neg hrun, if_neg hrun]
    by_cases hrecs : (s.stream st).commitRecordsList ≠ []
    · rw [if_pos hrecs, if_pos hrecs]
    rw [if_neg hrecs, if_neg hrecs]
    unfold State.streamDestroy
    dsimp only
    have hremove := streamRemoveFromCache_setRecord { s with
      allStreamList := s.allStreamList.erase st } st r record
    exact congrArg (fun s : State => s.setStream st { s.stream st with freed := true }) hremove

theorem recordDetachFromStream_eq (s : State) (r : ℕ) :
    s.recordDetachFromStream r = ((s.listDel r).setRecord r
      { (s.listDel r).record r with pStream := none }).streamDestroyIfEmpty (s.record r).pStream := by
  rw [streamDestroyIfEmpty_setRecord]
  unfold State.recordDetachFromStream
  dsimp only
  rw [(streamDestroyIfEmpty_rest _ _).1]

theorem Inv.recordDetachFromStream {s₁ : State} (h : s.Inv [] n a) (hsame : SameLinks s s₁)
    (hchildren : (s₁.record r).hasChildren = (s.record r).hasChildren)
    (hother : ∀ q, q ≠ r → s₁.record q = s.record q) (hr : r < s.records)
    (hlive : (s.record r).freed = 0) (hnode : (s.record r).streamRegionsListNode ≠ .deleted) :
    (s₁.recordDetachFromStream r).Inv [] n a ∧
      (s₁.recordDetachFromStream r).records = s.records ∧
      (s₁.recordDetachFromStream r).runningStreams = s.runningStreams ∧
      ((s₁.recordDetachFromStream r).record r).pStream = none := by
  have hlinks := h.links.same hsame
  have hm := Moved.of_same hsame hchildren hother (hlinks.moved_detach (by
    rw [hsame.node]
    exact hnode))
  have hnone : ∀ st, (none : Option ℕ) = some st → False := fun st hst => nomatch hst
  have hmoved := h.moved hm hr hlive (fun hne => absurd rfl hne)
    (fun st hst => (hnone st hst).elim) (fun st hst => nomatch hst)
    (fun st hst => (hnone st hst).elim)
  have hall := h.matched_moved hm (fun st hst => nomatch hst) (fun st hst => (hnone st hst).elim)
  rw [recordDetachFromStream_eq, (streamDestroyIfEmpty_rest _ _).1,
    (streamDestroyIfEmpty_rest _ _).2.1, (streamDestroyIfEmpty_rest _ _).2.2.1]
  refine ⟨?_, hm.records, hm.runningStreams, hm.pStream⟩
  rw [hsame.pStream]
  cases hold : (s.record r).pStream with
  | none =>
    rw [hold] at hmoved
    exact hmoved
  | some st =>
    rw [hold] at hmoved
    refine hmoved.streamDestroyIfEmpty ?_ (hall st ?_)
    all_goals
      rw [hm.allStreamList]
      exact (h.links.linked r st hr hlive hold).1

theorem recordDetachFromStream_oops (hnode : (s.record r).streamRegionsListNode = .deleted) :
    (s.recordDetachFromStream r).oops = true := by
  rw [recordDetachFromStream_eq, (streamDestroyIfEmpty_rest _ _).2.2.2]
  exact listDel_oops hnode

theorem Inv.setRecord (h : s.Inv spare n a) (hout : (s.record r).pStream = none)
    {record : CommitRecord} (hpStream : record.pStream = none)
    (hnode : record.streamRegionsListNode = (s.record r).streamRegionsListNode)
    (hchildren : record.hasChildren = true → (s.record r).hasChildren = true) :
    (s.setRecord r record).Inv spare n a := by
  have hon : ∀ st ∈ s.allStreamList, ∀ q ∈ (s.stream st).commitRecordsList, q ≠ r := by
    rintro st hst q hq rfl
    exact nomatch hout.symm.trans (h.links.attached st hst q hq).2.2.1
  refine ⟨⟨h.links.calm, h.links.nodup, h.links.live, h.links.ids, h.links.cached, h.links.records,
    fun st hst q hq => ?_, fun q st hq hlive hst => ?_, fun q hq hnone st => ?_,
    fun q hq hsplit => ?_⟩, h.used, h.counted, h.all, fun st hst hnot q hq => ?_⟩
  · rw [setRecord_of_ne (hon st hst q hq)]
    exact h.links.attached st hst q hq
  · by_cases hqr : q = r
    · rw [hqr, setRecord_self, hpStream] at hst
      exact nomatch hst
    · rw [setRecord_of_ne hqr] at hlive hst
      exact h.links.linked q st hq hlive hst
  · by_cases hqr : q = r
    · rw [hqr, setRecord_self, hnode]
      exact h.links.unlinked r (hqr ▸ hq) hout st
    · rw [setRecord_of_ne hqr] at hnone ⊢
      exact h.links.unlinked q hq hnone st
  · by_cases hqr : q = r
    · rw [hqr, setRecord_self] at hsplit ⊢
      rw [hnode]
      exact h.links.split r (hqr ▸ hq) (hchildren hsplit)
    · rw [setRecord_of_ne hqr] at hsplit ⊢
      exact h.links.split q hq hsplit
  · rw [setRecord_of_ne (hon st hst q hq)]
    exact h.matched st hst hnot q hq

theorem Inv.destroyCommitRecord (h : s.Inv [] n a) (hr : r < s.records)
    (hlive : (s.record r).freed = 0)
    (hok : (s.record r).hasChildren = true ∨ (s.record r).streamRegionsListNode ≠ .deleted) :
    (s.destroyCommitRecord r).Inv [] n a ∧
      (s.destroyCommitRecord r).runningStreams = s.runningStreams := by
  obtain ⟨hother, hself⟩ := setAccessible_record s r false
  have hchildren : ((s.setAccessible r false).record r).hasChildren = (s.record r).hasChildren := by
    rw [hself]
  unfold State.destroyCommitRecord
  dsimp only
  rw [hchildren]
  split
  · next hsplit =>
    -- a record with children is on no stream
    have hout : (s.record r).pStream = none := by
      cases hst : (s.record r).pStream with
      | none => rfl
      | some st => exact nomatch (h.links.node hr hlive hst).2.symm.trans hsplit
    have hinv : (s.setAccessible r false).Inv [] n a := h.setRecord hout hout rfl id
    refine ⟨hinv.setRecord ?_ ?_ rfl id, rfl⟩
    · rw [hself]
      exact hout
    · rw [hself]
      exact hout
  · next hsplit =>
    obtain ⟨hinv, -, hrun, hout⟩ := h.recordDetachFromStream (setAccessible_sameLinks s r false)
      hchildren hother hr hlive (hok.resolve_left hsplit)
    exact ⟨hinv.setRecord hout hout rfl id, hrun⟩

theorem destroyCommitRecord_oops (hsplit : (s.record r).hasChildren = false)
    (hnode : (s.record r).streamRegionsListNode = .deleted) :
    (s.destroyCommitRecord r).oops = true := by
  obtain ⟨-, hself⟩ := setAccessible_record s r false
  unfold State.destroyCommitRecord
  dsimp only
  rw [hself]
  dsimp only
  rw [if_neg (Bool.eq_false_iff.mp hsplit)]
  refine recordDetachFromStream_oops (s := s.setAccessible r false) ?_
  rw [hself]
  exact hnode

/-! ## A commit -/

theorem Inv.setHomeGpu (h : s.Inv spare n a) (r : ℕ) (gpu : Option ℕ) :
    (s.setRecord r { s.record r with cachedHomeGpu := gpu }).Inv spare n a := by
  refine h.same (setRecord_sameLinks rfl rfl id rfl) fun st _ _ q _ => ?_
  by_cases hqr : q = r
  · rw [hqr, setRecord_self]
  · rw [setRecord_of_ne hqr]

/-- A commit succeeds, and the record is linked to its stream. -/
def Commits (s : State) (id : ℕ) (channel : NvStatus) (io : Io) : Prop :=
  channel = .ok ∧ ¬ s.NoStream id io.streamOk

theorem Inv.updateCommitRecord (h : s.Inv [] n a) {channel : NvStatus} {gpu : ℕ}
    (hr : r < s.records) (hlive : (s.record r).freed = 0)
    (hok : (s.record r).streamRegionsListNode ≠ .deleted ∨
      (s.record r).hasChildren = true ∧ ¬ s.Commits id channel io) :
    (s.updateCommitRecord r id channel gpu io).2.Inv [] n a ∧
      (s.updateCommitRecord r id channel gpu io).2.runningStreams = s.runningStreams := by
  have hfirst := h.setHomeGpu r none
  unfold State.updateCommitRecord
  dsimp only
  split
  · refine hfirst.destroyCommitRecord hr ?_ ?_
    · rw [setRecord_self]
      exact hlive
    · rw [setRecord_self]
      exact hok.symm.imp_left And.left
  next hchan =>
  replace hchan : channel = .ok := by simpa using hchan
  rw [setRecord_self]
  have hsecond := hfirst.setHomeGpu r (some gpu)
  rw [setRecord_self] at hsecond
  rcases hsecond.streamFindOrAlloc id io.streamOk with
    ⟨hnone, hfail, heq⟩ | ⟨st, s', heq, hfound, hnew, hinv, hmatch⟩
  · rw [heq]
    refine hsecond.destroyCommitRecord hr ?_ ?_
    · rw [setRecord_self]
      exact hlive
    · rw [setRecord_self]
      exact hok.symm.imp_left And.left
  · rw [heq]
    have hcommits : s.Commits id channel io := by
      refine ⟨hchan, fun hno => ?_⟩
      exact nomatch hno.2.symm.trans (hnew hno.1)
    have hnode := hok.resolve_right fun hsplit => hsplit.2 hcommits
    have hrun : s.runningStreams = s'.runningStreams := hfound.runningStreams.symm
    rw [hrun]
    refine hinv.recordAttachToStream hfound.mem (hmatch List.not_mem_nil) ?_ ?_ ?_
    · rw [hfound.records]
      exact hr
    · rw [hfound.record, setRecord_self]
      exact hlive
    · rw [hfound.record, setRecord_self]
      exact hnode

theorem Inv.updateCommitRecord_oops (h : s.Inv [] n a) {channel : NvStatus} {gpu : ℕ}
    (hnode : (s.record r).streamRegionsListNode = .deleted)
    (hcase : (s.record r).hasChildren = false ∨ s.Commits id channel io) :
    (s.updateCommitRecord r id channel gpu io).2.oops = true := by
  have hfirst := h.setHomeGpu r none
  unfold State.updateCommitRecord
  dsimp only
  split
  · next hchan =>
    have hsplit := hcase.resolve_right fun hcommits => hchan hcommits.1
    refine destroyCommitRecord_oops ?_ ?_
    · rw [setRecord_self]
      exact hsplit
    · rw [setRecord_self]
      exact hnode
  rw [setRecord_self]
  have hsecond := hfirst.setHomeGpu r (some gpu)
  rw [setRecord_self] at hsecond
  rcases hsecond.streamFindOrAlloc id io.streamOk with
    ⟨hnone, hfail, heq⟩ | ⟨st, s', heq, hfound, hnew, hinv, hmatch⟩
  · rw [heq]
    have hsplit := hcase.resolve_right fun hcommits => hcommits.2 ⟨hnone, hfail⟩
    refine destroyCommitRecord_oops ?_ ?_
    · rw [setRecord_self]
      exact hsplit
    · rw [setRecord_self]
      exact hnode
  · rw [heq]
    refine recordAttachToStream_oops ?_
    rw [hfound.record, setRecord_self]
    exact hnode

/-! ## Records are created -/

/-- Records are added that are on no stream. -/
structure Extended (s s' : State) : Prop where
  stream : s'.stream = s.stream
  streams : s'.streams = s.streams
  allStreamList : s'.allStreamList = s.allStreamList
  streamsCache : s'.streamsCache = s.streamsCache
  runningStreams : s'.runningStreams = s.runningStreams
  oops : s'.oops = s.oops
  records : s.records ≤ s'.records
  record : ∀ q, q < s.records → s'.record q = s.record q
  created : ∀ q, s.records ≤ q → q < s'.records →
    ((s'.record q).freed = 0 → (s'.record q).pStream = none) ∧
      (∀ st, (s'.record q).streamRegionsListNode ≠ .linked st) ∧ (s'.record q).hasChildren = false

theorem Inv.extended (h : s.Inv spare n a) (e : Extended s s') : s'.Inv spare n a := by
  have hcongr := counted_congr e.allStreamList fun st hst => by
    rw [e.stream]
    exact ⟨rfl, rfl⟩
  have hold : ∀ st ∈ s.allStreamList, ∀ q ∈ (s.stream st).commitRecordsList,
      s'.record q = s.record q :=
    fun st hst q hq => e.record q (h.links.attached st hst q hq).1
  refine ⟨⟨e.oops.trans h.links.calm, e.allStreamList ▸ h.links.nodup, fun st => ?_, ?_, ?_, ?_,
    fun st hst q hq => ?_, fun q st hq hlive hst => ?_, fun q hq hnone st => ?_,
    fun q hq hsplit => ?_⟩, ?_, hcongr.1.trans h.counted, hcongr.2.trans h.all,
    fun st hst hnot q hq => ?_⟩
  · rw [e.allStreamList, e.streams, e.stream]
    exact h.links.live st
  · rw [e.allStreamList, e.stream]
    exact h.links.ids
  · rw [e.streamsCache, e.allStreamList, e.stream]
    exact h.links.cached
  · rw [e.allStreamList, e.stream]
    exact h.links.records
  · rw [e.allStreamList] at hst
    rw [e.stream] at hq
    rw [hold st hst q hq]
    obtain ⟨hlt, hrest⟩ := h.links.attached st hst q hq
    exact ⟨Nat.lt_of_lt_of_le hlt e.records, hrest⟩
  · rw [e.allStreamList, e.stream]
    rcases Nat.lt_or_ge q s.records with hlt | hge
    · rw [e.record q hlt] at hlive hst
      exact h.links.linked q st hlt hlive hst
    · exact nomatch ((e.created q hge hq).1 hlive).symm.trans hst
  · rcases Nat.lt_or_ge q s.records with hlt | hge
    · rw [e.record q hlt] at hnone ⊢
      exact h.links.unlinked q hlt hnone st
    · exact (e.created q hge hq).2.1 st
  · rcases Nat.lt_or_ge q s.records with hlt | hge
    · rw [e.record q hlt] at hsplit ⊢
      exact h.links.split q hlt hsplit
    · exact nomatch (e.created q hge hq).2.2.symm.trans hsplit
  · rw [e.allStreamList, e.stream]
    exact h.used
  · rw [e.allStreamList] at hst
    rw [e.stream] at hq ⊢
    rw [hold st hst q hq]
    exact h.matched st hst hnot q hq

theorem createCommitRecord_extended (s : State) (baseAddress length : ℕ) (createOk : ℕ → Bool) :
    Extended s (s.createCommitRecord baseAddress length createOk).2 := by
  have hlast : ∀ q, s.records ≤ q → q < s.records + 1 → q = s.records := by
    omega
  unfold State.createCommitRecord
  dsimp only
  split
  · refine ⟨rfl, rfl, rfl, rfl, rfl, rfl, Nat.le_succ _,
      fun q hq => update_of_ne (Nat.ne_of_lt hq) .., fun q hge hlt => ?_⟩
    rw [hlast q hge hlt]
    rw [setRecord_self]
    exact ⟨fun _ => rfl, (fun st heq => nomatch heq), rfl⟩
  · refine ⟨rfl, rfl, rfl, rfl, rfl, rfl, Nat.le_succ _,
      fun q hq => update_of_ne (Nat.ne_of_lt hq) .., fun q hge hlt => ?_⟩
    rw [hlast q hge hlt]
    rw [setRecord_self]
    exact ⟨(fun heq => nomatch heq), (fun st heq => nomatch heq), rfl⟩

/-! ## A record is split -/

def childOf (parent : CommitRecord) (baseAddress length pageIndex : ℕ) : CommitRecord :=
  ⟨baseAddress, length, false, true, false, true, parent.cachedHomeGpu,
    ⟨parent.commitRecordPages.array, parent.commitRecordPages.offset + pageIndex⟩,
    parent.pStream, .init, 0⟩

def leftChild (parent : CommitRecord) (splitPoint : ℕ) : CommitRecord :=
  childOf parent parent.baseAddress (pageAlign splitPoint) 0

def rightChild (parent : CommitRecord) (splitPoint : ℕ) : CommitRecord :=
  childOf parent ((parent.baseAddress + pageAlign splitPoint) % 2 ^ 64)
    (sub64 parent.length (pageAlign splitPoint)) (pageAlign splitPoint / pageSize)

def addRecord (s : State) (record : CommitRecord) : State :=
  { s.setRecord s.records record with records := s.records + 1 }

variable {createOk : ℕ → Bool} {splitPoint : ℕ}

theorem createCommitRecord_initChild (hr : r < s.records) (baseAddress : ℕ) {length : ℕ}
    (hok : (createOk s.records && fitsVmalloc length) = true) (pageIndex : ℕ) :
    (s.createCommitRecord baseAddress length createOk).1 = some s.records ∧
      (s.createCommitRecord baseAddress length createOk).2.initChild r s.records pageIndex =
        s.addRecord (childOf (s.record r) baseAddress length pageIndex) := by
  have hne : r ≠ s.records := Nat.ne_of_lt hr
  unfold State.createCommitRecord initChild addRecord
  rw [if_pos hok]
  refine ⟨rfl, ?_⟩
  rw [setRecord_self, setRecord_of_ne hne]
  unfold State.setRecord
  rw [Function.update_idem]
  rfl

theorem createCommitRecord_none (baseAddress : ℕ) {length : ℕ}
    (hfail : (createOk s.records && fitsVmalloc length) ≠ true) :
    (s.createCommitRecord baseAddress length createOk).1 = none := by
  unfold State.createCommitRecord
  rw [if_neg hfail]

@[simp] theorem addRecord_self (s : State) (record : CommitRecord) :
    (s.addRecord record).record s.records = record := update_self ..

theorem addRecord_of_lt {record : CommitRecord} (hr : r < s.records) :
    (s.addRecord record).record r = s.record r := update_of_ne (Nat.ne_of_lt hr) ..

/-- The children have taken the place of their parent on a stream. -/
structure Linked (s s' : State) (r left right st : ℕ) : Prop where
  records : s'.records = s.records
  streams : s'.streams = s.streams
  allStreamList : s'.allStreamList = s.allStreamList
  streamsCache : s'.streamsCache = s.streamsCache
  runningStreams : s'.runningStreams = s.runningStreams
  oops : s'.oops = s.oops
  stream : s'.stream = update s.stream st { s.stream st with
    commitRecordsList := (s.stream st).commitRecordsList.erase r ++ [left, right] }
  parent : s'.record r = { s.record r with
    pStream := none
    streamRegionsListNode := .deleted
    hasChildren := true }
  leftRecord : s'.record left = { s.record left with streamRegionsListNode := .linked st }
  rightRecord : s'.record right = { s.record right with streamRegionsListNode := .linked st }
  record : ∀ q, q ≠ r → q ≠ left → q ≠ right → s'.record q = s.record q

theorem linkChildren_linked {left right : ℕ} (hst : (s.record r).pStream = some st)
    (hnode : (s.record r).streamRegionsListNode = .linked st) (hleft : left ≠ r) (hright : right ≠ r)
    (hne : left ≠ right) : Linked s (s.linkChildren r left right) r left right st := by
  unfold linkChildren State.listDel
  rw [hst, hnode]
  dsimp only [listAddTail, State.setRecord, setStream]
  refine ⟨rfl, rfl, rfl, rfl, rfl, rfl, ?_, ?_, ?_, ?_, fun q hqr hql hqq => ?_⟩
  · funext st'
    by_cases heq : st' = st
    · subst heq
      simp
    · simp [heq]
  · simp [hleft.symm, hright.symm]
  · simp [hleft, hne]
  · simp [hright, hne.symm]
  · simp [hqr, hql, hqq]

theorem Links.children_linked (h : s.Links) (hr : r < s.records) (hlive : (s.record r).freed = 0)
    (hst : (s.record r).pStream = some st) (left right : CommitRecord) :
    Linked ((s.addRecord left).addRecord right)
      (((s.addRecord left).addRecord right).linkChildren r s.records (s.records + 1)) r s.records
      (s.records + 1) st := by
  have hpar : ((s.addRecord left).addRecord right).record r = s.record r := by
    rw [addRecord_of_lt (Nat.lt_succ_of_lt hr), addRecord_of_lt hr]
  refine linkChildren_linked ?_ ?_ (Nat.ne_of_gt hr) (Nat.ne_of_gt (Nat.lt_succ_of_lt hr))
    (Nat.ne_of_lt (Nat.lt_succ_self _))
  · rw [hpar]
    exact hst
  · rw [hpar]
    exact (h.node hr hlive hst).1

theorem Inv.linked (h : s.Inv spare n a) (hr : r < s.records) (hlive : (s.record r).freed = 0)
    (hst : (s.record r).pStream = some st) {left right : CommitRecord}
    (hchild : ∀ child, child = left ∨ child = right → child.freed = 0 ∧ child.pStream = some st ∧
      child.hasChildren = false ∧ child.isAccessible = true)
    (l : Linked ((s.addRecord left).addRecord right) s' r s.records (s.records + 1) st)
    (hstop : st ∉ spare → (s.stream st).isRunning = false) : s'.Inv spare n a := by
  obtain ⟨hlist, hmem⟩ := h.links.linked r st hr hlive hst
  -- the records of the new state: the old ones, the parent, and the two children
  have hold : ∀ q, q < s.records → q ≠ r → s'.record q = s.record q := by
    intro q hq hqr
    rw [l.record q hqr (Nat.ne_of_lt hq) (by omega), addRecord_of_lt (Nat.lt_succ_of_lt hq),
      addRecord_of_lt hq]
  have hpar : s'.record r = { s.record r with
      pStream := none
      streamRegionsListNode := .deleted
      hasChildren := true } := by
    rw [l.parent, addRecord_of_lt (Nat.lt_succ_of_lt hr), addRecord_of_lt hr]
  have hnew : ∀ q, s.records ≤ q → q < s'.records →
      (s'.record q).freed = 0 ∧ (s'.record q).pStream = some st ∧
        (s'.record q).streamRegionsListNode = .linked st ∧ (s'.record q).hasChildren = false ∧
        (s'.record q).isAccessible = true := by
    intro q hge hlt
    rw [l.records] at hlt
    replace hlt : q < s.records + 2 := hlt
    obtain rfl | rfl : q = s.records ∨ q = s.records + 1 := by omega
    · rw [l.leftRecord, addRecord_of_lt (Nat.lt_succ_self _), addRecord_self]
      obtain ⟨hfreed, hstr, hsplit, hacc⟩ := hchild left (.inl rfl)
      exact ⟨hfreed, hstr, rfl, hsplit, hacc⟩
    · have hself : ((s.addRecord left).addRecord right).record (s.records + 1) = right :=
        addRecord_self (s.addRecord left) right
      rw [l.rightRecord, hself]
      obtain ⟨hfreed, hstr, hsplit, hacc⟩ := hchild right (.inr rfl)
      exact ⟨hfreed, hstr, rfl, hsplit, hacc⟩
  have hstr : ∀ st', st' ≠ st → s'.stream st' = s.stream st' := by
    intro st' hne
    rw [l.stream]
    exact update_of_ne hne ..
  have hself : s'.stream st = { s.stream st with
      commitRecordsList :=
        (s.stream st).commitRecordsList.erase r ++ [s.records, s.records + 1] } := by
    rw [l.stream]
    exact update_self ..
  have hflags : ∀ st', (s'.stream st').isRunning = (s.stream st').isRunning ∧
      (s'.stream st').streamId = (s.stream st').streamId ∧
      (s'.stream st').freed = (s.stream st').freed := by
    intro st'
    by_cases heq : st' = st
    · rw [heq, hself]
      exact ⟨rfl, rfl, rfl⟩
    · rw [hstr st' heq]
      exact ⟨rfl, rfl, rfl⟩
  have hlists : s'.allStreamList = s.allStreamList := l.allStreamList
  have hrecs : s'.records = s.records + 2 := l.records
  have hon : ∀ st' ∈ s.allStreamList, ∀ q, q ∈ (s'.stream st').commitRecordsList ↔
      (q ≠ r ∧ q ∈ (s.stream st').commitRecordsList) ∨
        (st' = st ∧ s.records ≤ q ∧ q < s'.records) := by
    intro st' hst' q
    by_cases heq : st' = st
    · subst heq
      rw [hself]
      dsimp only
      rw [List.mem_append, (h.links.records st' hst').mem_erase_iff, hrecs]
      refine or_congr_right ?_
      simp only [List.mem_cons, List.not_mem_nil, or_false, true_and]
      omega
    · rw [hstr st' heq]
      constructor
      · intro hq
        refine .inl ⟨?_, hq⟩
        rintro rfl
        exact heq (h.links.unique hst' hlist hq hmem)
      · rintro (⟨_, hq⟩ | ⟨hsame, _⟩)
        · exact hq
        · exact absurd hsame heq
  have hcongr := counted_congr hlists fun st' _ => ⟨(hflags st').1, (hflags st').2.1⟩
  refine ⟨⟨l.oops.trans h.links.calm, hlists ▸ h.links.nodup, fun st' => ?_,
    fun st₁ h₁ st₂ h₂ hsame => ?_, fun i st' hi => ?_, fun st' hst' => ?_, fun st' hst' q hq => ?_,
    fun q st' hq hqlive hst' => ?_, fun q hq hnone st' => ?_, fun q hq hsplit => ?_⟩,
    fun st' hst' hnot => ?_, hcongr.1.trans h.counted, hcongr.2.trans h.all,
    fun st' hst' hnot q hq => ?_⟩
  · rw [hlists, (hflags st').2.2, l.streams]
    exact h.links.live st'
  · rw [hlists] at h₁ h₂
    rw [(hflags st₁).2.1, (hflags st₂).2.1] at hsame
    exact h.links.ids st₁ h₁ st₂ h₂ hsame
  · rw [l.streamsCache] at hi
    rw [hlists, (hflags st').2.1]
    exact h.links.cached i st' hi
  · rw [hlists] at hst'
    by_cases heq : st' = st
    · subst heq
      rw [hself]
      refine List.Nodup.append ((h.links.records st' hst').erase r) (by simp) ?_
      intro q hq hnewq
      have hlt := (h.links.attached st' hst' q (List.mem_of_mem_erase hq)).1
      simp only [List.mem_cons, List.not_mem_nil, or_false] at hnewq
      omega
    · rw [hstr st' heq]
      exact h.links.records st' hst'
  · rw [hlists] at hst'
    rcases (hon st' hst' q).mp hq with ⟨hqr, hq⟩ | ⟨rfl, hge, hlt⟩
    · obtain ⟨hlt, hrest⟩ := h.links.attached st' hst' q hq
      rw [hold q hlt hqr]
      exact ⟨by omega, hrest⟩
    · obtain ⟨hfreed, hpStream, hnode, hsplit, -⟩ := hnew q hge hlt
      exact ⟨hlt, hfreed, hpStream, hnode, hsplit⟩
  · rw [hlists]
    rcases Nat.lt_or_ge q s.records with hlt | hge
    · by_cases hqr : q = r
      · rw [hqr, hpar] at hst'
        cases hst'
      · rw [hold q hlt hqr] at hqlive hst'
        obtain ⟨hlist', hmem'⟩ := h.links.linked q st' hlt hqlive hst'
        exact ⟨hlist', (hon st' hlist' q).mpr (.inl ⟨hqr, hmem'⟩)⟩
    · obtain rfl : st = st' := Option.some.inj ((hnew q hge hq).2.1.symm.trans hst')
      exact ⟨hlist, (hon st hlist q).mpr (.inr ⟨rfl, hge, hq⟩)⟩
  · rcases Nat.lt_or_ge q s.records with hlt | hge
    · by_cases hqr : q = r
      · rw [hqr, hpar]
        exact fun heq => by cases heq
      · rw [hold q hlt hqr] at hnone ⊢
        exact h.links.unlinked q hlt hnone st'
    · cases hnone.symm.trans (hnew q hge hq).2.1
  · rcases Nat.lt_or_ge q s.records with hlt | hge
    · by_cases hqr : q = r
      · rw [hqr, hpar]
      · rw [hold q hlt hqr] at hsplit ⊢
        exact h.links.split q hlt hsplit
    · cases (hnew q hge hq).2.2.2.1.symm.trans hsplit
  · rw [hlists] at hst'
    by_cases heq : st' = st
    · refine .inr fun hnil => ?_
      have hleft := (hon st' hst' s.records).mpr (.inr ⟨heq, Nat.le_refl _, by omega⟩)
      rw [hnil] at hleft
      cases hleft
    · rw [hstr st' heq]
      exact h.used st' hst' hnot
  · rw [hlists] at hst'
    rw [(hflags st').1]
    rcases (hon st' hst' q).mp hq with ⟨hqr, hq⟩ | ⟨rfl, hge, hlt⟩
    · rw [hold q (h.links.attached st' hst' q hq).1 hqr]
      exact h.matched st' hst' hnot q hq
    · rw [(hnew q hge hlt).2.2.2.2, hstop hnot]
      rfl

theorem linkChildren_oops {left right : ℕ} (hst : (s.record r).pStream = none) :
    (s.linkChildren r left right).oops = true := by
  unfold linkChildren
  rw [hst]

def SplitCreates (s : State) (r splitPoint : ℕ) (createOk : ℕ → Bool) : Prop :=
  (createOk s.records && fitsVmalloc (pageAlign splitPoint)) = true ∧
    (createOk (s.records + 1) &&
      fitsVmalloc (sub64 (s.record r).length (pageAlign splitPoint))) = true

theorem Links.destroyLeft (h : s.Links) (hr : r < s.records) (hlive : (s.record r).freed = 0)
    {left : CommitRecord} (hleft : left.pStream = (s.record r).pStream)
    (hinit : left.streamRegionsListNode = .init) (hsplit : left.hasChildren = false) (e : Extended (s.addRecord left) s') :
    Extended s (s'.destroyCommitRecord s.records) := by
  have hself : s'.record s.records = left :=
    (e.record _ (Nat.lt_succ_self _)).trans (addRecord_self s left)
  obtain ⟨hother, hacc⟩ := setAccessible_record s' s.records false
  -- the stream of the parent still has the parent
  have hkeep : ∀ s₁ : State, s₁.stream = s.stream →
      s₁.streamDestroyIfEmpty (s.record r).pStream = s₁ := by
    intro s₁ hstr
    unfold State.streamDestroyIfEmpty
    cases hst : (s.record r).pStream with
    | none => rfl
    | some st =>
      have hmem := (h.linked r st hr hlive hst).2
      dsimp only
      rw [hstr]
      split
      · rfl
      · rw [if_pos (List.ne_nil_of_mem hmem)]
  unfold State.destroyCommitRecord
  dsimp only
  rw [hacc, hself]
  dsimp only
  rw [hsplit, if_neg Bool.false_ne_true, recordDetachFromStream_eq]
  unfold State.listDel
  rw [hacc, hself]
  dsimp only
  rw [hinit, hleft]
  rw [hkeep _ (by exact e.stream)]
  refine ⟨e.stream, e.streams, e.allStreamList, e.streamsCache, e.runningStreams, e.oops,
    Nat.le_trans (Nat.le_succ _) e.records, fun q hq => ?_, fun q hge hlt => ?_⟩
  · have hne : q ≠ s.records := Nat.ne_of_lt hq
    rw [setRecord_of_ne hne, setRecord_of_ne hne, setRecord_of_ne hne, hother q hne,
      e.record q (Nat.lt_succ_of_lt hq), addRecord_of_lt hq]
  · by_cases heq : q = s.records
    · rw [heq, setRecord_self, setRecord_self, setRecord_self]
      exact ⟨fun _ => rfl, (fun st hnot => nomatch hnot), hsplit⟩
    · rw [setRecord_of_ne heq, setRecord_of_ne heq, setRecord_of_ne heq, hother q heq]
      exact e.created q (by show s.records + 1 ≤ q; omega) hlt

theorem Links.splitCommitRecord_fails (h : s.Links) (hr : r < s.records)
    (hlive : (s.record r).freed = 0) (hfail : ¬ s.SplitCreates r splitPoint createOk) :
    (s.splitCommitRecord r splitPoint createOk).1 = none ∧
      Extended s (s.splitCommitRecord r splitPoint createOk).2 := by
  unfold State.splitCommitRecord
  dsimp only
  by_cases hleft : (createOk s.records && fitsVmalloc (pageAlign splitPoint)) = true
  · obtain ⟨heq, hinit⟩ := createCommitRecord_initChild hr (s.record r).baseAddress hleft 0
    rw [heq]
    dsimp only
    rw [hinit]
    have hright := createCommitRecord_none (s := s.addRecord (leftChild (s.record r) splitPoint))
      (((s.record r).baseAddress + pageAlign splitPoint) % 2 ^ 64) fun hok => hfail ⟨hleft, hok⟩
    have he := createCommitRecord_extended (s.addRecord (leftChild (s.record r) splitPoint))
      (((s.record r).baseAddress + pageAlign splitPoint) % 2 ^ 64)
      (sub64 (s.record r).length (pageAlign splitPoint)) createOk
    replace hright : ((s.addRecord (childOf (s.record r) (s.record r).baseAddress
        (pageAlign splitPoint) 0)).createCommitRecord
      (((s.record r).baseAddress + pageAlign splitPoint) % 2 ^ 64)
      (sub64 (s.record r).length (pageAlign splitPoint)) createOk).1 = none := hright
    rw [hright]
    exact ⟨rfl, h.destroyLeft hr hlive (by rfl) (by rfl) (by rfl) he⟩
  · rw [createCommitRecord_none _ hleft]
    exact ⟨rfl, createCommitRecord_extended _ _ _ _⟩

theorem splitCommitRecord_eq (hr : r < s.records) (hok : s.SplitCreates r splitPoint createOk) :
    (s.splitCommitRecord r splitPoint createOk).1 = some (s.records, s.records + 1) ∧
      (s.splitCommitRecord r splitPoint createOk).2 =
        ((s.addRecord (leftChild (s.record r) splitPoint)).addRecord
          (rightChild (s.record r) splitPoint)).linkChildren r s.records (s.records + 1) := by
  unfold State.splitCommitRecord
  dsimp only
  obtain ⟨heq, hinit⟩ := createCommitRecord_initChild hr (s.record r).baseAddress hok.1 0
  rw [heq]
  dsimp only
  rw [hinit]
  obtain ⟨heq', hinit'⟩ := createCommitRecord_initChild
    (s := s.addRecord (childOf (s.record r) (s.record r).baseAddress (pageAlign splitPoint) 0))
    (Nat.lt_succ_of_lt hr) (((s.record r).baseAddress + pageAlign splitPoint) % 2 ^ 64) hok.2 (pageAlign splitPoint / pageSize)
  rw [heq']
  dsimp only
  rw [hinit', addRecord_of_lt hr]
  exact ⟨rfl, rfl⟩

theorem Inv.splitCommitRecord (h : s.Inv [] n a) (hr : r < s.records)
    (hlive : (s.record r).freed = 0) (hok : s.SplitCreates r splitPoint createOk →
      ∃ st, (s.record r).pStream = some st ∧ (s.stream st).isRunning = false) :
    (s.splitCommitRecord r splitPoint createOk).2.Inv [] n a ∧
      (s.splitCommitRecord r splitPoint createOk).2.runningStreams = s.runningStreams := by
  by_cases hcreates : s.SplitCreates r splitPoint createOk
  · obtain ⟨st, hst, hstop⟩ := hok hcreates
    rw [(splitCommitRecord_eq hr hcreates).2]
    have hl := h.links.children_linked hr hlive hst (leftChild (s.record r) splitPoint)
      (rightChild (s.record r) splitPoint)
    refine ⟨h.linked hr hlive hst ?_ hl fun _ => hstop, hl.runningStreams⟩
    rintro child (rfl | rfl)
    · exact ⟨rfl, hst, rfl, rfl⟩
    · exact ⟨rfl, hst, rfl, rfl⟩
  · have he := (h.links.splitCommitRecord_fails hr hlive hcreates).2
    exact ⟨h.extended he, he.runningStreams⟩

theorem Inv.splitCommitRecord_accessible (h : s.Inv [] n a) (hr : r < s.records)
    (hlive : (s.record r).freed = 0) (hcreates : s.SplitCreates r splitPoint createOk)
    (hst : (s.record r).pStream = some st) :
    let s' := (s.splitCommitRecord r splitPoint createOk).2
    s.records < s'.records ∧ (s'.record s.records).freed = 0 ∧
      (s'.record s.records).hasChildren = false ∧ (s'.record s.records).pStream = some st ∧
      (s'.record s.records).isAccessible = true ∧
      (s'.stream st).isRunning = (s.stream st).isRunning := by
  dsimp only
  rw [(splitCommitRecord_eq hr hcreates).2]
  have hl := h.links.children_linked hr hlive hst (leftChild (s.record r) splitPoint)
    (rightChild (s.record r) splitPoint)
  rw [hl.records, hl.leftRecord, hl.stream, addRecord_of_lt (Nat.lt_succ_self _), addRecord_self,
    update_self]
  exact ⟨by show s.records < s.records + 2; omega, rfl, rfl, hst, rfl, rfl⟩

theorem splitCommitRecord_oops (hr : r < s.records)
    (hcreates : s.SplitCreates r splitPoint createOk) (hst : (s.record r).pStream = none) :
    (s.splitCommitRecord r splitPoint createOk).2.oops = true := by
  rw [(splitCommitRecord_eq hr hcreates).2]
  refine linkChildren_oops ?_
  rw [addRecord_of_lt (Nat.lt_succ_of_lt hr), addRecord_of_lt hr]
  exact hst

end State

end NvUvm.Lite
