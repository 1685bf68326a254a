import NvUvm.Lib.CountedList
import NvUvm.LiteStreamInv

/-!
# What the helpers of the stream calls keep
-/

namespace NvUvm.Lite

open Function (update_of_ne update_self)

open Lib (countP_erase_of_not countP_change)

namespace State

variable {s s' : State} {r st new id n : ℕ} {spare : List ℕ} {a : Prop}

/-! ## The invariant of a call -/

/-- The streams that `runningStreams` counts. -/
def isCounted (s : State) (st : ℕ) : Bool :=
  (s.stream st).isRunning && (s.stream st).streamId != streamAll

def AllRunning (s : State) : Prop :=
  ∃ st ∈ s.allStreamList, (s.stream st).streamId = streamAll ∧ (s.stream st).isRunning = true

/-- **The streams are right** between calls. -/
structure Right (s : State) : Prop where
  calm : s.oops = false
  running : s.runningStreams = s.allStreamList.countP s.isCounted
  all : s.AllRunning ↔ 0 < s.runningStreams
  accessible : ∀ r st, r < s.records → (s.record r).freed = 0 → (s.record r).hasChildren = false →
    (s.record r).pStream = some st →
    ((s.record r).isAccessible = false ↔ (s.stream st).isRunning = true)
  nodup : s.allStreamList.Nodup
  listed : ∀ st, st < s.streams → ((s.stream st).freed = false ↔ st ∈ s.allStreamList)
  used : ∀ st ∈ s.allStreamList,
    (s.stream st).isRunning = true ∨ (s.stream st).commitRecordsList ≠ []
  cached : ∀ i st, s.streamsCache i = some st → st ∈ s.allStreamList

/-- The records of a stream are inaccessible exactly when it is running. -/
def Matches (s : State) (st : ℕ) : Prop :=
  ∀ r ∈ (s.stream st).commitRecordsList, (s.record r).isAccessible = !(s.stream st).isRunning

/-- The streams are linked, `n` of them are counted and the all-stream runs as `a` says.  Those that
are not `spare` are in use, and their records are accessible as they should be. -/
structure Inv (s : State) (spare : List ℕ) (n : ℕ) (a : Prop) : Prop where
  links : s.Links
  used : ∀ st ∈ s.allStreamList, st ∉ spare →
    (s.stream st).isRunning = true ∨ (s.stream st).commitRecordsList ≠ []
  counted : s.allStreamList.countP s.isCounted = n
  all : s.AllRunning ↔ a
  matched : ∀ st ∈ s.allStreamList, st ∉ spare → s.Matches st

/-- Between calls, no stream is left to be settled, and the count is the one of the process. -/
def Settled (s : State) : Prop := s.Inv [] s.runningStreams (0 < s.runningStreams)

theorem Settled.right (h : s.Settled) : s.Right where
  calm := h.links.calm
  running := h.counted.symm
  all := h.all
  accessible r st hr hlive _ hst := by
    obtain ⟨hlist, hmem⟩ := h.links.linked r st hr hlive hst
    rw [h.matched st hlist List.not_mem_nil r hmem, Bool.not_eq_false']
  nodup := h.links.nodup
  listed st hst := by
    rw [h.links.live]
    exact ⟨fun hfreed => ⟨hst, hfreed⟩, And.right⟩
  used st hst := h.used st hst List.not_mem_nil
  cached i st hi := (h.links.cached i st hi).1

theorem Inv.mono {spare' : List ℕ} (h : s.Inv spare n a) (hsub : spare ⊆ spare') :
    s.Inv spare' n a :=
  ⟨h.links, fun st hst hnot => h.used st hst fun hmem => hnot (hsub hmem), h.counted, h.all,
    fun st hst hnot => h.matched st hst fun hmem => hnot (hsub hmem)⟩

theorem counted_congr (hlist : s'.allStreamList = s.allStreamList)
    (hstr : ∀ st ∈ s.allStreamList, (s'.stream st).isRunning = (s.stream st).isRunning ∧
      (s'.stream st).streamId = (s.stream st).streamId) :
    s'.allStreamList.countP s'.isCounted = s.allStreamList.countP s.isCounted ∧
      (s'.AllRunning ↔ s.AllRunning) := by
  constructor
  · rw [hlist]
    refine List.countP_congr fun st hst => ?_
    unfold isCounted
    rw [(hstr st hst).1, (hstr st hst).2]
  · unfold AllRunning
    rw [hlist]
    refine exists_congr fun st => and_congr_right fun hst => ?_
    rw [(hstr st hst).1, (hstr st hst).2]

theorem Inv.settle (h : s.Inv (st :: spare) n a)
    (hused : (s.stream st).isRunning = true ∨ (s.stream st).commitRecordsList ≠ [])
    (hmatch : s.Matches st) : s.Inv spare n a := by
  refine ⟨h.links, fun st' hst' hnot => ?_, h.counted, h.all, fun st' hst' hnot => ?_⟩
  · by_cases heq : st' = st
    · exact heq ▸ hused
    · exact h.used st' hst' (List.not_mem_cons_of_ne_of_not_mem heq hnot)
  · by_cases heq : st' = st
    · exact heq ▸ hmatch
    · exact h.matched st' hst' (List.not_mem_cons_of_ne_of_not_mem heq hnot)

theorem Inv.same (h : s.Inv spare n a) (hsame : SameLinks s s')
    (hacc : ∀ st ∈ s.allStreamList, st ∉ spare → ∀ r ∈ (s.stream st).commitRecordsList,
      (s'.record r).isAccessible = (s.record r).isAccessible) : s'.Inv spare n a := by
  have hcongr := counted_congr hsame.allStreamList fun st hst => by
    rw [hsame.stream]
    exact ⟨rfl, rfl⟩
  refine ⟨h.links.same hsame, ?_, hcongr.1.trans h.counted, hcongr.2.trans h.all,
    fun st hst hnot r hr => ?_⟩
  · rw [hsame.allStreamList, hsame.stream]
    exact h.used
  · rw [hsame.allStreamList] at hst
    rw [hsame.stream] at hr ⊢
    rw [hacc st hst hnot r hr]
    exact h.matched st hst hnot r hr

theorem Inv.streamSaveInCache (h : s.Inv spare n a) (hst : st ∈ s.allStreamList) :
    (s.streamSaveInCache st).Inv spare n a :=
  ⟨h.links.streamSaveInCache hst, h.used, h.counted, h.all, h.matched⟩

theorem Inv.streamAlloc (h : s.Inv spare n a)
    (hid : ∀ st ∈ s.allStreamList, (s.stream st).streamId ≠ id) :
    (s.streamAlloc id).Inv (s.streams :: spare) n a := by
  have hnew : (s.streamAlloc id).stream s.streams = ⟨id, false, [], false⟩ :=
    update_self ..
  have hold : ∀ st ∈ s.allStreamList, (s.streamAlloc id).stream st = s.stream st := by
    intro st hst
    refine update_of_ne ?_ ..
    rintro rfl
    exact absurd ((h.links.live _).mp hst).1 (Nat.lt_irrefl _)
  have hmem : ∀ st, st ∈ (s.streamAlloc id).allStreamList ↔ st ∈ s.allStreamList ∨ st = s.streams :=
    fun st => List.mem_append.trans (or_congr_right List.mem_singleton)
  have hcase : ∀ st ∈ (s.streamAlloc id).allStreamList, st ∉ s.streams :: spare →
      st ∈ s.allStreamList ∧ st ∉ spare := by
    intro st hst hnot
    rw [List.mem_cons, not_or] at hnot
    exact ⟨((hmem st).mp hst).resolve_right hnot.1, hnot.2⟩
  refine ⟨h.links.streamAlloc hid, fun st hst hnot => ?_, ?_, ?_, fun st hst hnot => ?_⟩
  · obtain ⟨hst, hnot⟩ := hcase st hst hnot
    rw [hold st hst]
    exact h.used st hst hnot
  · -- the new stream is not counted
    refine Eq.trans ?_ h.counted
    show (s.allStreamList ++ [s.streams]).countP _ = _
    rw [List.countP_append, List.countP_singleton]
    have hnot : (s.streamAlloc id).isCounted s.streams = false := by
      unfold isCounted
      rw [hnew]
      rfl
    rw [hnot, if_neg Bool.false_ne_true, Nat.add_zero]
    refine List.countP_congr fun st hst => ?_
    unfold isCounted
    rw [hold st hst]
  · refine Iff.trans ?_ h.all
    constructor
    · rintro ⟨st, hst, hall, hrun⟩
      rcases (hmem st).mp hst with hst | rfl
      · rw [hold st hst] at hall hrun
        exact ⟨st, hst, hall, hrun⟩
      · rw [hnew] at hrun
        exact nomatch hrun
    · rintro ⟨st, hst, hall, hrun⟩
      refine ⟨st, (hmem st).mpr (.inl hst), ?_⟩
      rw [hold st hst]
      exact ⟨hall, hrun⟩
  · obtain ⟨hst, hnot⟩ := hcase st hst hnot
    intro r hr
    rw [hold st hst] at hr ⊢
    exact h.matched st hst hnot r hr

/-! ## A record moves -/

theorem Inv.matched_moved (h : s.Inv spare n a) {target : Option ℕ} (m : Moved s s' r target)
    (hspare : ∀ st ∈ spare, s.Matches st)
    (hacc : ∀ st, target = some st → (s'.record r).isAccessible = !(s.stream st).isRunning) :
    ∀ st ∈ s'.allStreamList, s'.Matches st := by
  intro st hst q hq
  rw [m.allStreamList] at hst
  have hrun : (s'.stream st).isRunning = (s.stream st).isRunning := by
    rw [m.stream st hst]
  rw [hrun]
  rcases (m.mem_iff h.links hst q).mp hq with ⟨hqr, hq⟩ | ⟨rfl, htarget⟩
  · rw [m.record q hqr]
    by_cases hmem : st ∈ spare
    · exact hspare st hmem q hq
    · exact h.matched st hst hmem q hq
  · exact hacc st htarget

theorem Inv.moved (h : s.Inv spare n a) {target : Option ℕ} (m : Moved s s' r target)
    (hr : r < s.records) (hlive : (s.record r).freed = 0)
    (hchild : target ≠ none → (s.record r).hasChildren = false)
    (htarget : ∀ st, target = some st → st ∈ s.allStreamList)
    (hspare : ∀ st ∈ spare, target = some st ∧ s.Matches st)
    (hacc : ∀ st, target = some st → (s'.record r).isAccessible = !(s.stream st).isRunning) :
    s'.Inv (s.record r).pStream.toList n a := by
  have hcongr := counted_congr m.allStreamList fun st hst => by
    rw [m.stream st hst]
    exact ⟨rfl, rfl⟩
  refine ⟨h.links.moved m hr hlive hchild htarget, fun st hst hnot => ?_,
    hcongr.1.trans h.counted, hcongr.2.trans h.all, fun st hst _ => ?_⟩
  · rw [m.allStreamList] at hst
    by_cases hto : target = some st
    · refine .inr fun hnil => ?_
      have hmem := (m.mem_iff h.links hst r).mpr (.inr ⟨rfl, hto⟩)
      rw [hnil] at hmem
      exact nomatch hmem
    · -- the record was not on this stream
      have hout : r ∉ (s.stream st).commitRecordsList := by
        intro hmem
        rw [(h.links.attached st hst r hmem).2.2.1] at hnot
        exact hnot (List.mem_singleton.mpr rfl)
      rw [m.stream st hst]
      rw [List.erase_of_not_mem hout, if_neg hto, List.append_nil]
      exact h.used st hst fun hmem => hto (hspare st hmem).1
  · exact h.matched_moved m (fun st hmem => (hspare st hmem).2) hacc st hst

/-! ## A stream is destroyed -/

theorem Inv.streamDestroyIfEmpty (h : s.Inv (st :: spare) n a) (hst : st ∈ s.allStreamList)
    (hmatch : s.Matches st) : (s.streamDestroyIfEmpty (some st)).Inv spare n a := by
  unfold State.streamDestroyIfEmpty
  dsimp only
  split
  · next hrun => exact h.settle (.inl hrun) hmatch
  split
  · next hne => exact h.settle (.inr hne) hmatch
  next hstop hempty =>
  replace hempty : (s.stream st).commitRecordsList = [] := by simpa using hempty
  obtain ⟨hrec, -, -, -, -, hlist⟩ := streamDestroy_rest s st
  have hstr := streamDestroy_stream s st
  have hmem : ∀ st' ∈ (s.streamDestroy st).allStreamList, st' ≠ st ∧ st' ∈ s.allStreamList := by
    intro st' hst'
    rw [hlist] at hst'
    exact h.links.nodup.mem_erase_iff.mp hst'
  have hold : ∀ st', (s.streamDestroy st).isCounted st' = s.isCounted st' := by
    intro st'
    unfold isCounted
    rw [hstr]
    by_cases heq : st' = st
    · subst heq
      rw [update_self]
    · rw [update_of_ne heq]
  refine ⟨h.links.streamDestroy hst hempty, fun st' hst' hnot => ?_, ?_, ?_,
    fun st' hst' hnot r hr => ?_⟩
  · obtain ⟨hne, hst'⟩ := hmem st' hst'
    rw [hstr, update_of_ne hne]
    exact h.used st' hst' (List.not_mem_cons_of_ne_of_not_mem hne hnot)
  · rw [hlist, funext hold]
    refine (countP_erase_of_not ?_).trans h.counted
    unfold isCounted
    rw [Bool.eq_false_iff.mpr hstop]
    rfl
  · refine Iff.trans ?_ h.all
    refine exists_congr fun st' => ?_
    rw [hlist, h.links.nodup.mem_erase_iff, hstr]
    by_cases heq : st' = st
    · subst heq
      simp [hstop]
    · simp [heq]
  · obtain ⟨hne, hst'⟩ := hmem st' hst'
    rw [hstr, update_of_ne hne] at hr ⊢
    rw [hrec]
    exact h.matched st' hst' (List.not_mem_cons_of_ne_of_not_mem hne hnot) r hr

/-! ## A stream is started or stopped -/

def setRunning (s : State) (st : ℕ) (isRunning : Bool) : State :=
  s.setStream st { s.stream st with isRunning := isRunning }

theorem setRunning_stream (s : State) (st st' : ℕ) (isRunning : Bool) :
    ((s.setRunning st isRunning).stream st').streamId = (s.stream st').streamId ∧
      ((s.setRunning st isRunning).stream st').commitRecordsList =
        (s.stream st').commitRecordsList ∧
      ((s.setRunning st isRunning).stream st').freed = (s.stream st').freed ∧
      ((s.setRunning st isRunning).stream st').isRunning =
        if st' = st then isRunning else (s.stream st').isRunning := by
  unfold setRunning setStream
  dsimp only
  by_cases heq : st' = st
  · subst heq
    rw [update_self, if_pos rfl]
    exact ⟨rfl, rfl, rfl, rfl⟩
  · rw [update_of_ne heq, if_neg heq]
    exact ⟨rfl, rfl, rfl, rfl⟩

theorem Links.setRunning (h : s.Links) (st : ℕ) (isRunning : Bool) :
    (s.setRunning st isRunning).Links := by
  have hid := fun st' => (setRunning_stream s st st' isRunning).1
  have hrecs := fun st' => (setRunning_stream s st st' isRunning).2.1
  have hfreed := fun st' => (setRunning_stream s st st' isRunning).2.2.1
  refine ⟨h.calm, h.nodup, fun st' => ?_, fun st₁ h₁ st₂ h₂ hsame => ?_, fun i st' hi => ?_,
    fun st' hst' => ?_, fun st' hst' r hr => ?_, fun r st' hr hlive hst' => ?_, h.unlinked,
    h.split⟩
  · rw [hfreed]
    exact h.live st'
  · rw [hid, hid] at hsame
    exact h.ids st₁ h₁ st₂ h₂ hsame
  · rw [hid]
    exact h.cached i st' hi
  · rw [hrecs]
    exact h.records st' hst'
  · rw [hrecs] at hr
    exact h.attached st' hst' r hr
  · rw [hrecs]
    exact h.linked r st' hr hlive hst'

theorem Inv.setRunning (h : s.Inv (st :: spare) n a) (hst : st ∈ s.allStreamList) (isRunning : Bool)
    (hmatch : ∀ r ∈ (s.stream st).commitRecordsList, (s.record r).isAccessible = !isRunning)
    {n' : ℕ} {a' : Prop}
    (hcnt : n' + (if s.isCounted st then 1 else 0) =
      n + if isRunning && (s.stream st).streamId != streamAll then 1 else 0)
    (hall : if (s.stream st).streamId = streamAll then a' ↔ isRunning = true else a' ↔ a) :
    (s.setRunning st isRunning).Inv (st :: spare) n' a' ∧
      (s.setRunning st isRunning).Matches st := by
  have hstr := fun st' => setRunning_stream s st st' isRunning
  set t := s.setRunning st isRunning
  have hself : (t.stream st).isRunning = isRunning := by
    rw [(hstr st).2.2.2, if_pos rfl]
  have hother : ∀ st', st' ≠ st → (t.stream st').isRunning = (s.stream st').isRunning := by
    intro st' hne
    rw [(hstr st').2.2.2, if_neg hne]
  have hmatch' : t.Matches st := by
    intro r hr
    rw [(hstr st).2.1] at hr
    rw [hself]
    exact hmatch r hr
  refine ⟨⟨h.links.setRunning st isRunning, fun st' hst' hnot => ?_, ?_, ?_,
    fun st' hst' hnot r hr => ?_⟩, hmatch'⟩
  · rw [(hstr st').2.1, hother st' (List.ne_of_not_mem_cons hnot)]
    exact h.used st' hst' hnot
  · have hchange := countP_change (q := t.isCounted) (p := s.isCounted)
      h.links.nodup hst fun st' _ hne => by
        unfold isCounted
        rw [hother st' hne, (hstr st').1]
    have hcounted : t.isCounted st = (isRunning && (s.stream st).streamId != streamAll) := by
      unfold isCounted
      rw [hself, (hstr st).1]
    rw [hcounted, h.counted] at hchange
    show s.allStreamList.countP _ = n'
    omega
  · by_cases hid : (s.stream st).streamId = streamAll
    · -- it is the only stream with this number
      rw [if_pos hid] at hall
      rw [hall]
      constructor
      · rintro ⟨st', hst', hid', hrun⟩
        rw [(hstr st').1] at hid'
        obtain rfl := h.links.ids st' hst' st hst (hid'.trans hid.symm)
        rw [← hself]
        exact hrun
      · intro hrun
        exact ⟨st, hst, (hstr st).1.trans hid, hself.trans hrun⟩
    · rw [if_neg hid] at hall
      refine Iff.trans (exists_congr fun st' => and_congr_right fun _ => ?_) (h.all.trans hall.symm)
      rw [(hstr st').1]
      refine and_congr_right fun hid' => ?_
      rw [hother st']
      rintro rfl
      exact hid hid'
  · rw [(hstr st').2.1] at hr
    rw [hother st' (List.ne_of_not_mem_cons hnot)]
    exact h.matched st' hst' hnot r hr

end State

end NvUvm.Lite
