import Mathlib.Data.List.Nodup
import Mathlib.Data.List.Perm.Basic
import NvUvm.LiteRecords

/-!
# The links between records and streams
-/

namespace NvUvm.Lite

open Function (update update_of_ne update_self)

namespace State

variable {s s' : State} {r st new : ℕ} {id : ℕ}

/-! ## The invariant -/

def Live (s : State) (r : ℕ) : Prop := r < s.records ∧ (s.record r).freed = 0

instance (s : State) (r : ℕ) : Decidable (s.Live r) :=
  inferInstanceAs (Decidable (_ ∧ _))

/-- The streams on the list are the ones that are not freed, their records point to them, and the cache
points to them. -/
structure Links (s : State) : Prop where
  calm : s.oops = false
  nodup : s.allStreamList.Nodup
  live : ∀ st, st ∈ s.allStreamList ↔ st < s.streams ∧ (s.stream st).freed = false
  ids : ∀ st ∈ s.allStreamList, ∀ st' ∈ s.allStreamList,
    (s.stream st).streamId = (s.stream st').streamId → st = st'
  cached : ∀ i st, s.streamsCache i = some st →
    st ∈ s.allStreamList ∧ i = (s.stream st).streamId % streamsCacheSize
  records : ∀ st ∈ s.allStreamList, (s.stream st).commitRecordsList.Nodup
  attached : ∀ st ∈ s.allStreamList, ∀ r ∈ (s.stream st).commitRecordsList,
    r < s.records ∧ (s.record r).freed = 0 ∧ (s.record r).pStream = some st ∧
      (s.record r).streamRegionsListNode = .linked st ∧ (s.record r).hasChildren = false
  linked : ∀ r st, r < s.records → (s.record r).freed = 0 → (s.record r).pStream = some st →
    st ∈ s.allStreamList ∧ r ∈ (s.stream st).commitRecordsList
  unlinked : ∀ r, r < s.records → (s.record r).pStream = none →
    ∀ st, (s.record r).streamRegionsListNode ≠ .linked st
  split : ∀ r, r < s.records → (s.record r).hasChildren = true →
    (s.record r).streamRegionsListNode = .deleted

theorem Links.node (h : s.Links) (hr : r < s.records) (hlive : (s.record r).freed = 0)
    (hst : (s.record r).pStream = some st) :
    (s.record r).streamRegionsListNode = .linked st ∧ (s.record r).hasChildren = false := by
  obtain ⟨hlist, hmem⟩ := h.linked r st hr hlive hst
  exact (h.attached st hlist r hmem).2.2.2

theorem Links.unique (h : s.Links) {st' : ℕ} (hst : st ∈ s.allStreamList)
    (hst' : st' ∈ s.allStreamList) (hr : r ∈ (s.stream st).commitRecordsList)
    (hr' : r ∈ (s.stream st').commitRecordsList) : st = st' := by
  have hone := (h.attached st hst r hr).2.2.1
  have htwo := (h.attached st' hst' r hr').2.2.1
  exact Option.some.inj (hone.symm.trans htwo)

/-! ## Finding a stream -/

theorem Links.streamFind_iff (h : s.Links) :
    s.streamFind id = some st ↔ st ∈ s.allStreamList ∧ (s.stream st).streamId = id := by
  have hcache : ∀ st', s.streamFindInCache id = some st' →
      st' ∈ s.allStreamList ∧ (s.stream st').streamId = id := by
    intro st' hst'
    obtain ⟨hslot, hid⟩ := Option.filter_eq_some_iff.mp hst'
    exact ⟨(h.cached _ _ hslot).1, of_decide_eq_true hid⟩
  have hlist : ∀ st', s.streamFindInList id = some st' →
      st' ∈ s.allStreamList ∧ (s.stream st').streamId = id := by
    intro st' hst'
    refine ⟨List.mem_of_find?_eq_some hst', ?_⟩
    simpa using List.find?_some hst'
  unfold streamFind
  constructor
  · intro hfind
    split at hfind
    · next st' hst' => exact Option.some.inj hfind ▸ hcache st' hst'
    · exact hlist st hfind
  · rintro ⟨hst, hid⟩
    split
    · next st' hst' =>
      obtain ⟨hmem, hid'⟩ := hcache st' hst'
      rw [h.ids st' hmem st hst (hid'.trans hid.symm)]
    · cases hfind : s.streamFindInList id with
      | some st' =>
        obtain ⟨hmem, hid'⟩ := hlist st' hfind
        rw [h.ids st' hmem st hst (hid'.trans hid.symm)]
      | none =>
        have hnone := List.find?_eq_none.mp hfind st hst
        simp [hid] at hnone

theorem Links.streamFind_none (h : s.Links) (hfind : s.streamFind id = none) :
    ∀ st ∈ s.allStreamList, (s.stream st).streamId ≠ id := by
  intro st hst hid
  exact nomatch hfind.symm.trans (h.streamFind_iff.mpr ⟨hst, hid⟩)

theorem Links.streamSaveInCache (h : s.Links) (hst : st ∈ s.allStreamList) :
    (s.streamSaveInCache st).Links := by
  refine ⟨h.calm, h.nodup, h.live, h.ids, fun i st' hi => ?_, h.records, h.attached, h.linked,
    h.unlinked, h.split⟩
  by_cases heq : i = (s.stream st).streamId % streamsCacheSize
  · subst heq
    have hself : (s.streamSaveInCache st).streamsCache
        ((s.stream st).streamId % streamsCacheSize) = some st := update_self ..
    obtain rfl : st = st' := Option.some.inj (hself.symm.trans hi)
    exact ⟨hst, rfl⟩
  · exact h.cached i st' ((update_of_ne heq ..).symm.trans hi)

theorem Links.streamAlloc (h : s.Links) (hid : ∀ st ∈ s.allStreamList, (s.stream st).streamId ≠ id) :
    (s.streamAlloc id).Links := by
  have hnew : (s.streamAlloc id).stream s.streams = ⟨id, false, [], false⟩ :=
    update_self ..
  have hold : ∀ st, st ≠ s.streams → (s.streamAlloc id).stream st = s.stream st :=
    fun st hst => update_of_ne hst ..
  have hlt : ∀ st ∈ s.allStreamList, st ≠ s.streams := by
    rintro st hst rfl
    exact absurd ((h.live _).mp hst).1 (Nat.lt_irrefl _)
  have hmem : ∀ st, st ∈ (s.streamAlloc id).allStreamList ↔ st ∈ s.allStreamList ∨ st = s.streams :=
    fun st => List.mem_append.trans (or_congr_right List.mem_singleton)
  refine ⟨h.calm, ?_, fun st => ?_, fun st hst st' hst' hsame => ?_, fun i st hi => ?_,
    fun st hst => ?_, fun st hst r hr => ?_, fun r st hr hlive hst => ?_, h.unlinked, h.split⟩
  · refine List.Nodup.append h.nodup (List.nodup_singleton _) ?_
    intro st hst hst'
    exact hlt st hst (List.mem_singleton.mp hst')
  · rw [hmem]
    by_cases hst : st = s.streams
    · subst hst
      rw [hnew]
      exact iff_of_true (.inr rfl) ⟨Nat.lt_succ_self _, rfl⟩
    · rw [hold st hst, h.live]
      show _ ↔ st < s.streams + 1 ∧ _
      constructor
      · rintro (⟨hlt, hfreed⟩ | heq)
        · exact ⟨Nat.lt_succ_of_lt hlt, hfreed⟩
        · exact absurd heq hst
      · rintro ⟨hlt, hfreed⟩
        exact .inl ⟨by omega, hfreed⟩
  · rcases (hmem st).mp hst with hst | rfl
    · rcases (hmem st').mp hst' with hst' | rfl
      · rw [hold st (hlt st hst), hold st' (hlt st' hst')] at hsame
        exact h.ids st hst st' hst' hsame
      · rw [hold st (hlt st hst), hnew] at hsame
        exact absurd hsame (hid st hst)
    · rcases (hmem st').mp hst' with hst' | rfl
      · rw [hold st' (hlt st' hst'), hnew] at hsame
        exact absurd hsame.symm (hid st' hst')
      · rfl
  · obtain ⟨hst, hi⟩ := h.cached i st hi
    rw [hold st (hlt st hst)]
    exact ⟨(hmem st).mpr (.inl hst), hi⟩
  · rcases (hmem st).mp hst with hst | rfl
    · rw [hold st (hlt st hst)]
      exact h.records st hst
    · rw [hnew]
      exact List.nodup_nil
  · rcases (hmem st).mp hst with hst | rfl
    · rw [hold st (hlt st hst)] at hr
      exact h.attached st hst r hr
    · rw [hnew] at hr
      exact nomatch hr
  · obtain ⟨hst, hr⟩ := h.linked r st hr hlive hst
    rw [hold st (hlt st hst)]
    exact ⟨(hmem st).mpr (.inl hst), hr⟩

/-! ## Destroying a stream -/

theorem streamRemoveFromCache_cases (st : ℕ) (hcached : ∀ i st, s.streamsCache i = some st →
    i = (s.stream st).streamId % streamsCacheSize) {i st' : ℕ}
    (hi : (s.streamRemoveFromCache st).streamsCache i = some st') :
    s.streamsCache i = some st' ∧ st' ≠ st := by
  unfold streamRemoveFromCache at hi
  dsimp only at hi
  split at hi
  · next hslot =>
    by_cases heq : i = (s.stream st).streamId % streamsCacheSize
    · subst heq
      exact nomatch (update_self ..).symm.trans hi
    · replace hi : s.streamsCache i = some st' := (update_of_ne heq ..).symm.trans hi
      refine ⟨hi, ?_⟩
      rintro rfl
      exact heq (hcached i st' hi)
  · next hslot =>
    refine ⟨hi, ?_⟩
    rintro rfl
    rw [hcached i st' hi] at hi
    exact hslot hi

theorem streamDestroy_rest (s : State) (st : ℕ) :
    (s.streamDestroy st).record = s.record ∧ (s.streamDestroy st).records = s.records ∧
      (s.streamDestroy st).streams = s.streams ∧
      (s.streamDestroy st).runningStreams = s.runningStreams ∧
      (s.streamDestroy st).oops = s.oops ∧
      (s.streamDestroy st).allStreamList = s.allStreamList.erase st := by
  unfold State.streamDestroy State.streamRemoveFromCache
  dsimp only
  split
  · exact ⟨rfl, rfl, rfl, rfl, rfl, rfl⟩
  · exact ⟨rfl, rfl, rfl, rfl, rfl, rfl⟩

theorem streamDestroy_stream (s : State) (st : ℕ) :
    (s.streamDestroy st).stream = update s.stream st { s.stream st with freed := true } := by
  unfold State.streamDestroy State.streamRemoveFromCache
  dsimp only
  split
  · rfl
  · rfl

theorem Links.streamDestroy (h : s.Links) (hst : st ∈ s.allStreamList)
    (hempty : (s.stream st).commitRecordsList = []) : (s.streamDestroy st).Links := by
  obtain ⟨hrec, hrecs, hstreams, -, hoops, hlist⟩ := streamDestroy_rest s st
  have hstr := streamDestroy_stream s st
  have hmem : ∀ st', st' ∈ (s.streamDestroy st).allStreamList ↔
      st' ≠ st ∧ st' ∈ s.allStreamList := by
    intro st'
    rw [hlist]
    exact h.nodup.mem_erase_iff
  have hold : ∀ st', st' ≠ st → (s.streamDestroy st).stream st' = s.stream st' := by
    intro st' hne
    rw [hstr, update_of_ne hne]
  refine ⟨hoops.trans h.calm, ?_, fun st' => ?_, fun st₁ h₁ st₂ h₂ hsame => ?_, fun i st' hi => ?_,
    fun st' hst' => ?_, fun st' hst' r hr => ?_, fun r st' hr hlive hst' => ?_, fun r hr => ?_,
    fun r hr => ?_⟩
  · rw [hlist]
    exact h.nodup.erase st
  · rw [hmem, hstreams, h.live]
    by_cases hne : st' = st
    · subst hne
      rw [hstr, update_self]
      simp
    · rw [hold st' hne]
      simp [hne]
  · obtain ⟨hne₁, h₁⟩ := (hmem st₁).mp h₁
    obtain ⟨hne₂, h₂⟩ := (hmem st₂).mp h₂
    rw [hold st₁ hne₁, hold st₂ hne₂] at hsame
    exact h.ids st₁ h₁ st₂ h₂ hsame
  · have hcases := streamRemoveFromCache_cases
      (s := { s with allStreamList := s.allStreamList.erase st }) st
      (fun i st' hi => (h.cached i st' hi).2) hi
    obtain ⟨hslot, hidx⟩ := h.cached i st' hcases.1
    rw [hold st' hcases.2]
    exact ⟨(hmem st').mpr ⟨hcases.2, hslot⟩, hidx⟩
  · obtain ⟨hne, hst'⟩ := (hmem st').mp hst'
    rw [hold st' hne]
    exact h.records st' hst'
  · obtain ⟨hne, hst'⟩ := (hmem st').mp hst'
    rw [hold st' hne] at hr
    rw [hrec, hrecs]
    exact h.attached st' hst' r hr
  · rw [hrec] at hlive hst'
    rw [hrecs] at hr
    obtain ⟨hst', hr⟩ := h.linked r st' hr hlive hst'
    have hne : st' ≠ st := by
      rintro rfl
      rw [hempty] at hr
      exact nomatch hr
    rw [hold st' hne]
    exact ⟨(hmem st').mpr ⟨hne, hst'⟩, hr⟩
  · rw [hrec]
    rw [hrecs] at hr
    exact h.unlinked r hr
  · rw [hrec]
    rw [hrecs] at hr
    exact h.split r hr

/-! ## Records come and go -/

/-- The links of the records and the streams are not touched. -/
structure SameLinks (s s' : State) : Prop where
  records : s'.records = s.records
  stream : s'.stream = s.stream
  streams : s'.streams = s.streams
  allStreamList : s'.allStreamList = s.allStreamList
  streamsCache : s'.streamsCache = s.streamsCache
  runningStreams : s'.runningStreams = s.runningStreams
  oops : s'.oops = s.oops
  pStream : ∀ r, (s'.record r).pStream = (s.record r).pStream
  node : ∀ r, (s'.record r).streamRegionsListNode = (s.record r).streamRegionsListNode
  hasChildren : ∀ r, (s'.record r).hasChildren = true → (s.record r).hasChildren = true
  freed : ∀ r, (s'.record r).freed = (s.record r).freed

theorem SameLinks.refl (s : State) : SameLinks s s :=
  ⟨rfl, rfl, rfl, rfl, rfl, rfl, rfl, fun _ => rfl, fun _ => rfl, fun _ => id, fun _ => rfl⟩

theorem SameLinks.trans {s₁ s₂ s₃ : State} (h₁ : SameLinks s₁ s₂) (h₂ : SameLinks s₂ s₃) :
    SameLinks s₁ s₃ where
  records := h₂.records.trans h₁.records
  stream := h₂.stream.trans h₁.stream
  streams := h₂.streams.trans h₁.streams
  allStreamList := h₂.allStreamList.trans h₁.allStreamList
  streamsCache := h₂.streamsCache.trans h₁.streamsCache
  runningStreams := h₂.runningStreams.trans h₁.runningStreams
  oops := h₂.oops.trans h₁.oops
  pStream r := (h₂.pStream r).trans (h₁.pStream r)
  node r := (h₂.node r).trans (h₁.node r)
  hasChildren r := h₁.hasChildren r ∘ h₂.hasChildren r
  freed r := (h₂.freed r).trans (h₁.freed r)

theorem Links.same (h : s.Links) (hsame : SameLinks s s') : s'.Links := by
  refine ⟨hsame.oops.trans h.calm, hsame.allStreamList ▸ h.nodup, fun st => ?_, ?_, ?_, ?_, ?_,
    fun r st => ?_, fun r => ?_, fun r hr hsplit => ?_⟩
  · rw [hsame.allStreamList, hsame.streams, hsame.stream]
    exact h.live st
  · rw [hsame.allStreamList, hsame.stream]
    exact h.ids
  · rw [hsame.streamsCache, hsame.allStreamList, hsame.stream]
    exact h.cached
  · rw [hsame.allStreamList, hsame.stream]
    exact h.records
  · rw [hsame.allStreamList, hsame.stream, hsame.records]
    intro st hst r hr
    obtain ⟨hlt, hlive, hpStream, hnode, hchildren⟩ := h.attached st hst r hr
    rw [hsame.freed, hsame.pStream, hsame.node]
    refine ⟨hlt, hlive, hpStream, hnode, Bool.eq_false_iff.mpr fun hsplit => ?_⟩
    rw [hsame.hasChildren r hsplit] at hchildren
    exact nomatch hchildren
  · rw [hsame.allStreamList, hsame.stream, hsame.records, hsame.freed, hsame.pStream]
    exact h.linked r st
  · rw [hsame.records, hsame.pStream, hsame.node]
    exact h.unlinked r
  · rw [hsame.records] at hr
    rw [hsame.node]
    exact h.split r hr (hsame.hasChildren r hsplit)

@[simp] theorem setRecord_self (s : State) (r : ℕ) (record : CommitRecord) :
    (s.setRecord r record).record r = record := update_self ..

theorem setRecord_of_ne {q : ℕ} (hq : q ≠ r) (record : CommitRecord) :
    (s.setRecord r record).record q = s.record q := update_of_ne hq ..

theorem setRecord_sameLinks {record : CommitRecord} (hpStream : record.pStream = (s.record r).pStream)
    (hnode : record.streamRegionsListNode = (s.record r).streamRegionsListNode)
    (hhasChildren : record.hasChildren = true → (s.record r).hasChildren = true)
    (hfreed : record.freed = (s.record r).freed) : SameLinks s (s.setRecord r record) := by
  have hfield : ∀ {α : Type} (f : CommitRecord → α), f record = f (s.record r) →
      ∀ q, f ((s.setRecord r record).record q) = f (s.record q) := by
    intro α f hf q
    by_cases hq : q = r
    · rw [hq, setRecord_self, hf]
    · rw [setRecord_of_ne hq]
  refine ⟨rfl, rfl, rfl, rfl, rfl, rfl, rfl, hfield _ hpStream, hfield _ hnode, fun q => ?_,
    hfield _ hfreed⟩
  by_cases hq : q = r
  · rw [hq, setRecord_self]
    exact hhasChildren
  · rw [setRecord_of_ne hq]
    exact id

theorem setAccessible_sameLinks (s : State) (r : ℕ) (isAccessible : Bool) :
    SameLinks s (s.setAccessible r isAccessible) :=
  setRecord_sameLinks rfl rfl id rfl

theorem migrateToGpu_sameLinks (s : State) (r : ℕ) (io : Io) :
    SameLinks s (s.migrateToGpu r io).2 := by
  unfold State.migrateToGpu
  split
  · exact SameLinks.refl s
  · split
    · exact SameLinks.refl s
    · split
      · exact SameLinks.refl s
      · exact setRecord_sameLinks rfl rfl id rfl

/-- A record goes to the stream `target`, or to none. -/
structure Moved (s s' : State) (r : ℕ) (target : Option ℕ) : Prop where
  records : s'.records = s.records
  streams : s'.streams = s.streams
  allStreamList : s'.allStreamList = s.allStreamList
  streamsCache : s'.streamsCache = s.streamsCache
  runningStreams : s'.runningStreams = s.runningStreams
  oops : s'.oops = s.oops
  record : ∀ q, q ≠ r → s'.record q = s.record q
  pStream : (s'.record r).pStream = target
  node : (s'.record r).streamRegionsListNode = target.elim .deleted .linked
  hasChildren : (s'.record r).hasChildren = (s.record r).hasChildren
  recordFreed : (s'.record r).freed = (s.record r).freed
  stream : ∀ st ∈ s.allStreamList, s'.stream st = { s.stream st with
    commitRecordsList := (s.stream st).commitRecordsList.erase r ++
      if target = some st then [r] else [] }
  freed : ∀ st, (s'.stream st).freed = (s.stream st).freed

theorem update_field {α : Type} {streams : ℕ → StreamRecord} {stream : StreamRecord}
    (f : StreamRecord → α) (hf : f stream = f (streams new)) (st : ℕ) :
    f (update streams new stream st) = f (streams st) := by
  by_cases heq : st = new
  · rw [heq, update_self, hf]
  · rw [update_of_ne heq]

theorem listDel_stream (s : State) (r st : ℕ) :
    ((s.listDel r).stream st).freed = (s.stream st).freed ∧
      ((s.listDel r).stream st).streamId = (s.stream st).streamId := by
  unfold State.listDel
  split
  · exact ⟨rfl, rfl⟩
  · exact ⟨update_field (·.freed) (by rfl) st, update_field (·.streamId) (by rfl) st⟩
  · exact ⟨rfl, rfl⟩

theorem listAddTail_stream (s : State) (r new st : ℕ) :
    ((s.listAddTail r new).stream st).freed = (s.stream st).freed ∧
      ((s.listAddTail r new).stream st).streamId = (s.stream st).streamId :=
  ⟨update_field (·.freed) (by rfl) st, update_field (·.streamId) (by rfl) st⟩

theorem Links.listDel (h : s.Links) (hnode : (s.record r).streamRegionsListNode ≠ .deleted) :
    (s.listDel r).record = update s.record r
        { s.record r with streamRegionsListNode := .deleted } ∧
      (∀ st ∈ s.allStreamList, (s.listDel r).stream st = { s.stream st with
        commitRecordsList := (s.stream st).commitRecordsList.erase r }) ∧
      (s.listDel r).records = s.records ∧ (s.listDel r).streams = s.streams ∧
      (s.listDel r).allStreamList = s.allStreamList ∧
      (s.listDel r).streamsCache = s.streamsCache ∧
      (s.listDel r).runningStreams = s.runningStreams ∧ (s.listDel r).oops = s.oops := by
  -- a record is only on the list its node is linked to
  have hout : ∀ st ∈ s.allStreamList, (s.record r).streamRegionsListNode ≠ .linked st →
      r ∉ (s.stream st).commitRecordsList :=
    fun st hst hne hmem => hne (h.attached st hst r hmem).2.2.2.1
  unfold State.listDel
  cases hn : (s.record r).streamRegionsListNode with
  | deleted => exact absurd hn hnode
  | init =>
    refine ⟨rfl, fun st hst => ?_, rfl, rfl, rfl, rfl, rfl, rfl⟩
    have hmem := hout st hst (by rw [hn]; exact fun heq => nomatch heq)
    rw [List.erase_of_not_mem hmem]
    rfl
  | linked st₀ =>
    refine ⟨rfl, fun st hst => ?_, rfl, rfl, rfl, rfl, rfl, rfl⟩
    by_cases heq : st = st₀
    · subst heq
      exact update_self ..
    · have hmem := hout st hst (by
        rw [hn]
        exact fun hsame => heq (ListNode.linked.inj hsame).symm)
      rw [List.erase_of_not_mem hmem]
      exact update_of_ne heq ..

theorem Links.moved_attach (h : s.Links) (hnode : (s.record r).streamRegionsListNode ≠ .deleted) :
    Moved s (((s.listDel r).listAddTail r new).setRecord r
      { ((s.listDel r).listAddTail r new).record r with pStream := some new }) r (some new) := by
  obtain ⟨hrec, hstr, hrecs, hstreams, hlist, hcache, hrun, hoops⟩ := h.listDel hnode
  have hself : (((s.listDel r).listAddTail r new).setRecord r
      { ((s.listDel r).listAddTail r new).record r with pStream := some new }).record r =
      { s.record r with pStream := some new, streamRegionsListNode := .linked new } := by
    show update (update (s.listDel r).record r _) r
      { update (s.listDel r).record r _ r with pStream := some new } r = _
    rw [update_self, update_self, hrec, update_self]
  refine ⟨hrecs, hstreams, hlist, hcache, hrun, hoops, fun q hq => ?_, ?_, ?_, ?_, ?_,
    fun st hst => ?_,
    fun st => (listAddTail_stream (s.listDel r) r new st).1.trans (listDel_stream s r st).1⟩
  · show update (update (s.listDel r).record r _) r _ q = s.record q
    rw [update_of_ne hq, update_of_ne hq, hrec, update_of_ne hq]
  · rw [hself]
  · rw [hself]
    rfl
  · rw [hself]
  · rw [hself]
  · show update (s.listDel r).stream new { (s.listDel r).stream new with
      commitRecordsList := ((s.listDel r).stream new).commitRecordsList ++ [r] } st = _
    by_cases heq : st = new
    · subst heq
      rw [update_self, hstr st hst, if_pos rfl]
    · have hne : (some new : Option ℕ) ≠ some st := fun hsame => heq (Option.some.inj hsame).symm
      rw [update_of_ne heq, hstr st hst, if_neg hne, List.append_nil]

theorem Links.moved_detach (h : s.Links) (hnode : (s.record r).streamRegionsListNode ≠ .deleted) :
    Moved s ((s.listDel r).setRecord r { (s.listDel r).record r with pStream := none }) r none := by
  obtain ⟨hrec, hstr, hrecs, hstreams, hlist, hcache, hrun, hoops⟩ := h.listDel hnode
  have hself : ((s.listDel r).setRecord r { (s.listDel r).record r with pStream := none }).record r =
      { s.record r with pStream := none, streamRegionsListNode := .deleted } := by
    show update (s.listDel r).record r { (s.listDel r).record r with pStream := none } r = _
    rw [update_self, hrec, update_self]
  refine ⟨hrecs, hstreams, hlist, hcache, hrun, hoops, fun q hq => ?_, ?_, ?_, ?_, ?_,
    fun st hst => ?_, fun st => (listDel_stream s r st).1⟩
  · show update (s.listDel r).record r _ q = s.record q
    rw [update_of_ne hq, hrec, update_of_ne hq]
  · rw [hself]
  · rw [hself]
    rfl
  · rw [hself]
  · rw [hself]
  · refine (hstr st hst).trans ?_
    rw [if_neg (fun heq => nomatch heq), List.append_nil]

theorem Moved.mem_iff (h : s.Links) {target : Option ℕ} (m : Moved s s' r target)
    (hst : st ∈ s.allStreamList) (q : ℕ) :
    q ∈ (s'.stream st).commitRecordsList ↔
      (q ≠ r ∧ q ∈ (s.stream st).commitRecordsList) ∨ (q = r ∧ target = some st) := by
  rw [m.stream st hst]
  rw [List.mem_append, (h.records st hst).mem_erase_iff]
  split
  · next heq => simp [heq]
  · next hne => simp [hne]

theorem Links.moved (h : s.Links) {target : Option ℕ} (m : Moved s s' r target)
    (hr : r < s.records) (hlive : (s.record r).freed = 0)
    (hchild : target ≠ none → (s.record r).hasChildren = false)
    (htarget : ∀ st, target = some st → st ∈ s.allStreamList) : s'.Links := by
  have hid : ∀ st ∈ s.allStreamList, (s'.stream st).streamId = (s.stream st).streamId := by
    intro st hst
    rw [m.stream st hst]
  refine ⟨m.oops.trans h.calm, m.allStreamList ▸ h.nodup, fun st => ?_, ?_, fun i st hi => ?_,
    fun st hst => ?_, fun st hst q hq => ?_, fun q st hq hqlive hst => ?_, fun q hq hnone st => ?_,
    fun q hq hsplit => ?_⟩
  · rw [m.allStreamList, m.streams, h.live]
    rw [m.freed st]
  · rw [m.allStreamList]
    intro st hst st' hst' hsame
    rw [hid st hst, hid st' hst'] at hsame
    exact h.ids st hst st' hst' hsame
  · rw [m.streamsCache] at hi
    obtain ⟨hst, hidx⟩ := h.cached i st hi
    rw [m.allStreamList, hid st hst]
    exact ⟨hst, hidx⟩
  · rw [m.allStreamList] at hst
    rw [m.stream st hst]
    refine List.Nodup.append ((h.records st hst).erase r) ?_ ?_
    · split
      · exact List.nodup_singleton r
      · exact List.nodup_nil
    · intro q hq hqr
      split at hqr
      · rw [List.mem_singleton.mp hqr] at hq
        exact (h.records st hst).not_mem_erase hq
      · exact nomatch hqr
  · rw [m.allStreamList] at hst
    rw [m.records]
    rcases (m.mem_iff h hst q).mp hq with ⟨hqr, hq⟩ | ⟨rfl, htar⟩
    · rw [m.record q hqr]
      exact h.attached st hst q hq
    · rw [m.recordFreed, m.pStream, m.node, m.hasChildren, htar]
      refine ⟨hr, hlive, rfl, rfl, hchild ?_⟩
      rw [htar]
      exact Option.some_ne_none st
  · rw [m.allStreamList]
    rw [m.records] at hq
    by_cases hqr : q = r
    · subst hqr
      rw [m.pStream] at hst
      have hmem := htarget st hst
      exact ⟨hmem, (m.mem_iff h hmem q).mpr (.inr ⟨rfl, hst⟩)⟩
    · rw [m.record q hqr] at hqlive hst
      obtain ⟨hmem, hqmem⟩ := h.linked q st hq hqlive hst
      exact ⟨hmem, (m.mem_iff h hmem q).mpr (.inl ⟨hqr, hqmem⟩)⟩
  · rw [m.records] at hq
    by_cases hqr : q = r
    · subst hqr
      rw [m.pStream] at hnone
      rw [m.node, hnone]
      exact fun heq => nomatch heq
    · rw [m.record q hqr] at hnone ⊢
      exact h.unlinked q hq hnone st
  · rw [m.records] at hq
    by_cases hqr : q = r
    · subst hqr
      rw [m.hasChildren] at hsplit
      rw [m.node]
      cases target with
      | none => rfl
      | some st => exact nomatch hsplit.symm.trans (hchild (Option.some_ne_none st))
    · rw [m.record q hqr] at hsplit ⊢
      exact h.split q hq hsplit

end State

end NvUvm.Lite
