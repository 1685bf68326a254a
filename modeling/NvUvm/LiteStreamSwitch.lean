import NvUvm.LiteStreamSteps

/-!
# Starting and stopping streams
-/

namespace NvUvm.Lite

namespace State

variable {s s' : State} {r st id n : ℕ} {spare : List ℕ} {a : Prop} {io : Io}

/-! ## The records of a stream -/

def migrates (record : CommitRecord) (r : ℕ) (io : Io) : Bool :=
  match record.cachedHomeGpu with
  | none => false
  | some gpu => io.migTracker gpu && (!record.isMapped || io.migrate r = .ok)

theorem migrateToGpu_ok (s : State) (r : ℕ) (io : Io) :
    ((s.setAccessible r false).migrateToGpu r io).1 = .ok ↔ migrates (s.record r) r io = true := by
  obtain ⟨-, hself⟩ := setAccessible_record s r false
  unfold State.migrateToGpu migrates
  rw [hself]
  cases (s.record r).cachedHomeGpu with
  | none => exact iff_of_false (fun heq => nomatch heq) Bool.false_ne_true
  | some gpu =>
    dsimp only
    cases io.migTracker gpu with
    | false => exact iff_of_false (fun heq => nomatch heq) Bool.false_ne_true
    | true =>
      cases (s.record r).isMapped with
      | false => exact iff_of_true rfl rfl
      | true => simp

theorem startRecords_spec (io : Io) (l : List ℕ) (hnd : l.Nodup) (s : State) :
    SameLinks s (startRecords io l s).2 ∧
      (∀ q, q ∉ l → (startRecords io l s).2.record q = s.record q) ∧
      ((startRecords io l s).1 = .ok → ∀ q ∈ l, migrates (s.record q) q io = true ∧
        ((startRecords io l s).2.record q).isAccessible = false) ∧
      ((startRecords io l s).1 ≠ .ok → ∃ q ∈ l, migrates (s.record q) q io = false ∧
        ((startRecords io l s).2.record q).isAccessible = false) := by
  induction l generalizing s with
  | nil => exact ⟨SameLinks.refl s, fun _ _ => rfl, fun _ q hq => (nomatch hq), absurd rfl⟩
  | cons r rest ih =>
    obtain ⟨hr, hrest⟩ := List.nodup_cons.mp hnd
    have hok := migrateToGpu_ok s r io
    obtain ⟨hother', hself⟩ := setAccessible_record s r false
    obtain ⟨hother, hacc, -⟩ := migrateToGpu_record (s.setAccessible r false) r io
    have hsame := (setAccessible_sameLinks s r false).trans
      (migrateToGpu_sameLinks (s.setAccessible r false) r io)
    have hshut : (((s.setAccessible r false).migrateToGpu r io).2.record r).isAccessible = false := by
      rw [hacc, hself]
    have hkeep : ∀ q, q ≠ r →
        ((s.setAccessible r false).migrateToGpu r io).2.record q = s.record q :=
      fun q hq => (hother q hq).trans (hother' q hq)
    unfold startRecords
    dsimp only
    split
    · next hstat =>
      obtain ⟨hsame', hkeep', hdone, hfail⟩ := ih hrest ((s.setAccessible r false).migrateToGpu r io).2
      have hne : ∀ q ∈ rest, q ≠ r := by
        rintro q hq rfl
        exact hr hq
      refine ⟨hsame.trans hsame', fun q hq => ?_, fun hstatus' q hq => ?_, fun hstatus' => ?_⟩
      · rw [List.mem_cons, not_or] at hq
        rw [hkeep' q hq.2, hkeep q hq.1]
      · rcases List.mem_cons.mp hq with rfl | hq
        · rw [hkeep' q hr]
          exact ⟨hok.mp hstat, hshut⟩
        · rw [← hkeep q (hne q hq)]
          exact hdone hstatus' q hq
      · obtain ⟨q, hq, hmigrates, hshut'⟩ := hfail hstatus'
        rw [hkeep q (hne q hq)] at hmigrates
        exact ⟨q, List.mem_cons_of_mem r hq, hmigrates, hshut'⟩
    · next hstat =>
      refine ⟨hsame, fun q hq => hkeep q (List.ne_of_not_mem_cons hq),
        fun hstatus' => absurd hstatus' hstat, fun _ => ⟨r, List.mem_cons_self, ?_, hshut⟩⟩
      exact Bool.eq_false_iff.mpr fun hmigrates => hstat (hok.mpr hmigrates)

theorem stopRecords_spec (l : List ℕ) (s : State) :
    SameLinks s (s.stopRecords l) ∧ (∀ q, q ∉ l → (s.stopRecords l).record q = s.record q) ∧
      ∀ q ∈ l, ((s.stopRecords l).record q).isAccessible = true := by
  induction l generalizing s with
  | nil => exact ⟨SameLinks.refl s, fun _ _ => rfl, fun q hq => (nomatch hq)⟩
  | cons r rest ih =>
    obtain ⟨hother, hself⟩ := setAccessible_record s r true
    obtain ⟨hsame, hkeep, hopen⟩ := ih (s.setAccessible r true)
    refine ⟨(setAccessible_sameLinks s r true).trans hsame, fun q hq => ?_, fun q hq => ?_⟩
    · rw [List.mem_cons, not_or] at hq
      exact (hkeep q hq.2).trans (hother q hq.1)
    · by_cases hmem : q ∈ rest
      · exact hopen q hmem
      · obtain rfl : q = r := (List.mem_cons.mp hq).resolve_right hmem
        refine (congrArg CommitRecord.isAccessible (hkeep q hmem)).trans ?_
        rw [hself]

theorem Inv.of_records (h : s.Inv (st :: spare) n a) (hst : st ∈ s.allStreamList)
    (hsame : SameLinks s s')
    (hother : ∀ q, q ∉ (s.stream st).commitRecordsList → s'.record q = s.record q) :
    s'.Inv (st :: spare) n a := by
  refine h.same hsame fun st' hst' hnot q hq => ?_
  rw [hother q]
  intro hmem
  exact List.ne_of_not_mem_cons hnot (h.links.unique hst' hst hq hmem)

theorem Inv.setRunningStreams (h : s.Inv spare n a) (runningStreams : ℕ) :
    { s with runningStreams := runningStreams }.Inv spare n a :=
  ⟨⟨h.links.calm, h.links.nodup, h.links.live, h.links.ids, h.links.cached, h.links.records,
    h.links.attached, h.links.linked, h.links.unlinked, h.links.split⟩, h.used, h.counted, h.all,
    h.matched⟩

/-! ## The other streams -/

/-- The streams with other numbers are left alone, and so are their records. -/
structure KeepsOthers (s s' : State) (id : ℕ) : Prop where
  listed : ∀ st ∈ s.allStreamList, (s.stream st).streamId ≠ id →
    st ∈ s'.allStreamList ∧ s'.stream st = s.stream st
  record : ∀ st ∈ s.allStreamList, (s.stream st).streamId ≠ id →
    ∀ r ∈ (s.stream st).commitRecordsList, s'.record r = s.record r
  only : ∀ st ∈ s'.allStreamList, (s'.stream st).streamId ≠ id →
    st ∈ s.allStreamList ∧ (s.stream st).streamId ≠ id

theorem KeepsOthers.trans {s₁ s₂ s₃ : State} (k : KeepsOthers s₁ s₂ id) (k' : KeepsOthers s₂ s₃ id) :
    KeepsOthers s₁ s₃ id where
  listed st hst hne := by
    obtain ⟨hlist, heq⟩ := k.listed st hst hne
    obtain ⟨hlist', heq'⟩ := k'.listed st hlist (heq.symm ▸ hne)
    exact ⟨hlist', heq'.trans heq⟩
  record st hst hne r hr := by
    obtain ⟨hlist, heq⟩ := k.listed st hst hne
    rw [k'.record st hlist (heq.symm ▸ hne) r (heq.symm ▸ hr), k.record st hst hne r hr]
  only st hst hne := by
    obtain ⟨hlist, hne⟩ := k'.only st hst hne
    exact k.only st hlist hne

theorem KeepsOthers.streamFind_iff (k : KeepsOthers s s' id) (h : s.Links) (h' : s'.Links) {id' : ℕ}
    (hne : id' ≠ id) : s'.streamFind id' = some st ↔ s.streamFind id' = some st := by
  rw [h.streamFind_iff, h'.streamFind_iff]
  constructor
  · rintro ⟨hst, hid⟩
    obtain ⟨hst, hother⟩ := k.only st hst fun heq => hne (hid.symm.trans heq)
    exact ⟨hst, (k.listed st hst hother).2 ▸ hid⟩
  · rintro ⟨hst, hid⟩
    obtain ⟨hst', heq⟩ := k.listed st hst fun heq => hne (hid.symm.trans heq)
    exact ⟨hst', heq.symm ▸ hid⟩

/-- The stream with this number is found or can be allocated, and its records migrate. -/
def StartsRecords (s : State) (id : ℕ) (streamOk : Bool) (io : Io) : Prop :=
  ¬ s.NoStream id streamOk ∧ ∀ st, s.streamFind id = some st →
    ∀ r ∈ (s.stream st).commitRecordsList, migrates (s.record r) r io = true

theorem KeepsOthers.startsRecords_iff (k : KeepsOthers s s' id) (h : s.Links) (h' : s'.Links)
    {id' : ℕ} (hne : id' ≠ id) (streamOk : Bool) (io : Io) :
    s'.StartsRecords id' streamOk io ↔ s.StartsRecords id' streamOk io := by
  have hfind : ∀ st, s'.streamFind id' = some st ↔ s.streamFind id' = some st :=
    fun _ => k.streamFind_iff h h' hne
  have hnone : s'.streamFind id' = none ↔ s.streamFind id' = none := by
    rw [Option.eq_none_iff_forall_ne_some, Option.eq_none_iff_forall_ne_some]
    exact forall_congr' fun st => not_congr (hfind st)
  unfold StartsRecords NoStream
  rw [hnone]
  refine and_congr_right fun _ => forall_congr' fun st => ?_
  rw [hfind]
  refine forall_congr' fun hst => ?_
  obtain ⟨hlist, hid⟩ := h.streamFind_iff.mp hst
  have hother : (s.stream st).streamId ≠ id := fun heq => hne (hid.symm.trans heq)
  rw [(k.listed st hlist hother).2]
  refine forall_congr' fun r => forall_congr' fun hr => ?_
  rw [k.record st hlist hother r hr]

/-! ## Starting a stream -/

/-- The end of `_set_stream_running`, once the records have migrated. -/
def finishRunning (startAll : State → NvStatus × State) (s : State) (st id : ℕ) :
    NvStatus × State :=
  let p : NvStatus × State :=
    if id ≠ streamAll then
      let s := { s with runningStreams := s.runningStreams + 1 }
      if s.runningStreams = 1 then startAll s else (.ok, s)
    else (.ok, s)
  if p.1 ≠ .ok then p
  else (.ok, p.2.setRunning st true)

/-- How far `_set_stream_running` gets. -/
inductive StartCase (s : State) (spare : List ℕ) (n : ℕ) (a : Prop) (io : Io) (streamOk : Bool)
    (startAll : State → NvStatus × State) (id : ℕ) : NvStatus × State → Prop where
  | noStream (hno : s.NoStream id streamOk) :
    StartCase s spare n a io streamOk startAll id (.ok, { s with oops := true })
  | running {st : ℕ} {s₁ : State} (hfind : s.streamFind id = some st)
    (hrunning : (s.stream st).isRunning = true) (hinv : s₁.Inv spare n a)
    (hcount : s₁.runningStreams = s.runningStreams) :
    StartCase s spare n a io streamOk startAll id (.ok, s₁)
  | failed {st r : ℕ} {status : NvStatus} {s₁ : State} (hstatus : status ≠ .ok)
    (hfind : s.streamFind id = some st) (hmem : r ∈ (s.stream st).commitRecordsList)
    (hmigrates : migrates (s.record r) r io = false)
    (hstopped : (s.stream st).isRunning = false) (hlist : st ∈ s₁.allStreamList)
    (hstream : s₁.stream st = s.stream st) (hshut : (s₁.record r).isAccessible = false)
    (hinv : s₁.Inv (st :: spare) n a) (hcount : s₁.runningStreams = s.runningStreams) :
    StartCase s spare n a io streamOk startAll id (status, s₁)
  | started {st : ℕ} {s₁ : State} (hstarts : s.StartsRecords id streamOk io)
    (hnone : ∀ st, s.streamFind id = some st → (s.stream st).isRunning = false)
    (hlist : st ∈ s₁.allStreamList) (hid : (s₁.stream st).streamId = id)
    (hstopped : (s₁.stream st).isRunning = false)
    (hshut : ∀ r ∈ (s₁.stream st).commitRecordsList, (s₁.record r).isAccessible = false)
    (hinv : s₁.Inv (st :: spare) n a) (hkeeps : KeepsOthers s s₁ id)
    (hcount : s₁.runningStreams = s.runningStreams) :
    StartCase s spare n a io streamOk startAll id (finishRunning startAll s₁ st id)

theorem Inv.setRunningBody (h : s.Inv spare n a) (io : Io) (streamOk : Bool)
    (startAll : State → NvStatus × State) (id : ℕ)
    (hspare : ∀ st ∈ spare, st ∈ s.allStreamList ∧ (s.stream st).streamId ≠ id) :
    StartCase s spare n a io streamOk startAll id (s.setRunningBody io streamOk startAll id) := by
  rcases h.streamFindOrAlloc id streamOk with
    ⟨hnone, hfail, heq⟩ | ⟨st, s₁, heq, hfound, hnew, hinv, hmatch⟩
  · unfold State.setRunningBody
    rw [heq]
    exact .noStream ⟨hnone, hfail⟩
  have hout : st ∉ spare := by
    intro hmem
    obtain ⟨hlist, hid⟩ := hspare st hmem
    rcases hfound.source with ⟨hfind, -⟩ | ⟨-, hnot, -⟩
    · exact hid (h.links.streamFind_iff.mp hfind).2
    · exact hnot hlist
  replace hmatch := hmatch hout
  unfold State.setRunningBody
  rw [heq]
  dsimp only
  split
  · next hrun =>
    -- a stream that was allocated is not running
    rcases hfound.source with ⟨hfind, -⟩ | ⟨-, -, hstr⟩
    · have hold := (hfound.listed st (h.links.streamFind_iff.mp hfind).1).2
      exact .running hfind (hold ▸ hrun) (hinv.settle (.inl hrun) hmatch)
        hfound.runningStreams
    · rw [hstr] at hrun
      exact nomatch hrun
  next hstop =>
  replace hstop : (s₁.stream st).isRunning = false := Bool.eq_false_iff.mpr hstop
  obtain ⟨hsame, hother, hdone, hfail⟩ := startRecords_spec io (s₁.stream st).commitRecordsList
    (hinv.links.records st hfound.mem) s₁
  have hinv' := hinv.of_records hfound.mem hsame hother
  have hlist' := hsame.allStreamList.symm ▸ hfound.mem
  have hcnt := hsame.runningStreams.trans hfound.runningStreams
  split
  · next hstat =>
    obtain ⟨r, hr, hmigrates, hshut⟩ := hfail hstat
    rcases hfound.source with ⟨hfind, -⟩ | ⟨-, -, hstr⟩
    · have hold := (hfound.listed st (h.links.streamFind_iff.mp hfind).1).2
      rw [hold] at hr hstop
      rw [hfound.record] at hmigrates
      exact .failed hstat hfind hr hmigrates hstop hlist'
        ((congrFun hsame.stream st).trans hold) hshut hinv' hcnt
    · rw [hstr] at hr
      exact nomatch hr
  next hstat =>
  replace hdone := hdone (by simpa using hstat)
  refine .started ⟨fun hno => ?_, fun st' hfind r hr => ?_⟩ (fun st' hfind => ?_) hlist' ?_ ?_ ?_ hinv'
    ⟨fun st' hst' hne => ?_, fun st' hst' hne r hr => ?_, fun st' hst' hne => ?_⟩ hcnt
  · exact nomatch hno.2.symm.trans (hnew hno.1)
  · rcases hfound.source with ⟨hfind', -⟩ | ⟨hnone, -⟩
    · obtain rfl : st = st' := Option.some.inj (hfind'.symm.trans hfind)
      rw [← hfound.record]
      rw [← (hfound.listed st (h.links.streamFind_iff.mp hfind).1).2] at hr
      exact (hdone r hr).1
    · exact nomatch hnone.symm.trans hfind
  · rcases hfound.source with ⟨hfind', -⟩ | ⟨hnone, -⟩
    · obtain rfl : st = st' := Option.some.inj (hfind'.symm.trans hfind)
      rw [← (hfound.listed st (h.links.streamFind_iff.mp hfind).1).2]
      exact hstop
    · exact nomatch hnone.symm.trans hfind
  · rw [hsame.stream]
    exact hfound.streamId
  · rw [hsame.stream]
    exact hstop
  · rw [hsame.stream]
    exact fun r hr => (hdone r hr).2
  · rw [hsame.allStreamList, hsame.stream]
    exact hfound.listed st' hst'
  · -- a record of another stream is not on this one
    obtain ⟨hlist, hstr⟩ := hfound.listed st' hst'
    rw [hother r, hfound.record]
    intro hmem
    rw [← hstr] at hr hne
    exact hne (hinv.links.unique hlist hfound.mem hr hmem ▸ hfound.streamId)
  · rw [hsame.allStreamList] at hst'
    rw [hsame.stream] at hne
    rcases hfound.only st' hst' with rfl | hold
    · exact absurd hfound.streamId hne
    · rw [(hfound.listed st' hold).2] at hne
      exact ⟨hold, hne⟩

theorem Inv.start (h : s.Inv (st :: spare) n a) (hst : st ∈ s.allStreamList)
    (hstop : (s.stream st).isRunning = false)
    (hshut : ∀ r ∈ (s.stream st).commitRecordsList, (s.record r).isAccessible = false) :
    (s.setRunning st true).Inv spare
      (if (s.stream st).streamId = streamAll then n else n + 1)
      (if (s.stream st).streamId = streamAll then True else a) := by
  have huncounted : s.isCounted st = false := by
    unfold isCounted
    rw [hstop]
    rfl
  have hrun : ((s.setRunning st true).stream st).isRunning = true := by
    rw [(setRunning_stream s st st true).2.2.2, if_pos rfl]
  have hboth : (s.setRunning st true).Inv (st :: spare)
      (if (s.stream st).streamId = streamAll then n else n + 1)
      (if (s.stream st).streamId = streamAll then True else a) ∧
        (s.setRunning st true).Matches st := by
    refine h.setRunning hst true hshut ?_ ?_
    · rw [huncounted]
      by_cases hid : (s.stream st).streamId = streamAll
      · simp [hid]
      · simp [hid]
    · by_cases hid : (s.stream st).streamId = streamAll
      · simp [hid]
      · simp [hid]
  exact hboth.1.settle (.inl hrun) hboth.2

theorem Inv.setAllRunning (h : s.Inv spare n False) (io : Io) (allOk : Bool)
    (hspare : ∀ st ∈ spare, st ∈ s.allStreamList ∧ (s.stream st).streamId ≠ streamAll) :
    (s.StartsRecords streamAll allOk io ∧ (s.setAllRunning io allOk).1 = .ok ∧
      (s.setAllRunning io allOk).2.Inv spare n True ∧
      (s.setAllRunning io allOk).2.runningStreams = s.runningStreams ∧
      KeepsOthers s (s.setAllRunning io allOk).2 streamAll) ∨
    (¬ s.StartsRecords streamAll allOk io ∧ ((s.setAllRunning io allOk).2.oops = true ∨
      (s.setAllRunning io allOk).1 ≠ .ok ∧
        (s.setAllRunning io allOk).2.runningStreams = s.runningStreams ∧
        (s.setAllRunning io allOk).2.allStreamList.countP (s.setAllRunning io allOk).2.isCounted =
          n)) := by
  have hcase := h.setRunningBody io allOk (fun s => (.ok, s)) streamAll hspare
  unfold State.setAllRunning
  generalize s.setRunningBody io allOk (fun s => (.ok, s)) streamAll = p at hcase ⊢
  cases hcase with
  | noStream hno => exact .inr ⟨fun hstarts => hstarts.1 hno, .inl rfl⟩
  | running hfind hrun _ _ =>
    -- no stream is running, so neither is the all-stream
    obtain ⟨hst, hid⟩ := h.links.streamFind_iff.mp hfind
    exact (h.all.mp ⟨_, hst, hid, hrun⟩).elim
  | failed hstat hfind hmem hmigrates _ _ _ _ hinv hcnt =>
    refine .inr ⟨fun hstarts => ?_, .inr ⟨hstat, hcnt, hinv.counted⟩⟩
    exact nomatch hmigrates.symm.trans (hstarts.2 _ hfind _ hmem)
  | @started st s₁ hstarts _ hlist hid hstop hshut hinv hkeep hcnt =>
    have hfinish : finishRunning (fun s => (.ok, s)) s₁ st streamAll =
        (.ok, s₁.setRunning st true) := rfl
    rw [hfinish]
    have hstart := hinv.start hlist hstop hshut
    rw [if_pos hid, if_pos hid] at hstart
    have hne : ∀ st', (s₁.stream st').streamId ≠ streamAll → st' ≠ st := by
      rintro st' hne rfl
      exact hne hid
    refine .inl ⟨hstarts, rfl, hstart, hcnt, fun st' hst' hother => ?_, hkeep.record,
      fun st' hst' hother => ?_⟩
    · obtain ⟨hlist', heq⟩ := hkeep.listed st' hst' hother
      refine ⟨hlist', (Function.update_of_ne (hne st' ?_) ..).trans heq⟩
      rw [heq]
      exact hother
    · rw [(setRunning_stream s₁ st st' true).1] at hother
      exact hkeep.only st' hst' hother

/-- A start is done already, or its records migrate, and with the first stream those of the
all-stream. -/
def StartAllowed (s : State) (id : ℕ) (io : Io) (allOk : Bool) : Prop :=
  isSpecialStream id = true ∨
    (∃ st, s.streamFind id = some st ∧ (s.stream st).isRunning = true) ∨
    (s.StartsRecords id io.streamOk io ∧
      (s.runningStreams = 0 → s.StartsRecords streamAll allOk io))

theorem Inv.not_right (h : s.Inv spare n a) (hst : st ∈ s.allStreamList)
    (hr : r ∈ (s.stream st).commitRecordsList) (hstop : (s.stream st).isRunning = false)
    (hshut : (s.record r).isAccessible = false) : ¬ s.Right := by
  intro hright
  obtain ⟨hlt, hlive, hpStream, -, hsplit⟩ := h.links.attached st hst r hr
  exact nomatch hstop.symm.trans ((hright.accessible r st hlt hlive hsplit hpStream).mp hshut)

theorem Settled.setStreamRunning (h : s.Settled) (id : ℕ) (io : Io) (allOk : Bool) :
    (s.StartAllowed id io allOk ∧ (s.setStreamRunning id io allOk).2.Settled) ∨
      (¬ s.StartAllowed id io allOk ∧ ¬ (s.setStreamRunning id io allOk).2.Right) := by
  unfold State.setStreamRunning
  split
  · next hspecial => exact .inl ⟨.inl hspecial, h⟩
  next hspecial =>
  have hall : streamAll ≠ id := by
    rintro rfl
    exact hspecial rfl
  have hcase := Inv.setRunningBody h io io.streamOk (fun s => s.setAllRunning io allOk) id
    fun st hst => nomatch hst
  generalize s.setRunningBody io io.streamOk (fun s => s.setAllRunning io allOk) id = p at hcase ⊢
  cases hcase with
  | noStream hno =>
    refine .inr ⟨?_, fun hright => nomatch hright.calm⟩
    rintro (hyes | ⟨st, hfind, -⟩ | ⟨hstarts, -⟩)
    · exact hspecial hyes
    · exact nomatch hno.1.symm.trans hfind
    · exact hstarts.1 hno
  | @running st s₁ hfind hrun hinv hcnt =>
    refine .inl ⟨.inr (.inl ⟨st, hfind, hrun⟩), ?_⟩
    unfold Settled
    dsimp only
    rw [hcnt]
    exact hinv
  | @failed st r status s₁ hstat hfind hmem hmigrates hstop hlist hstr hshut hinv hcnt =>
    refine .inr ⟨?_, hinv.not_right (r := r) hlist ?_ ?_ hshut⟩
    · rintro (hyes | ⟨st', hfind', hrun⟩ | ⟨hstarts, -⟩)
      · exact hspecial hyes
      · obtain rfl : st = st' := Option.some.inj (hfind.symm.trans hfind')
        exact nomatch hstop.symm.trans hrun
      · exact nomatch hmigrates.symm.trans (hstarts.2 st hfind r hmem)
    · rw [hstr]
      exact hmem
    · rw [hstr]
      exact hstop
  | @started st s₁ hstarts hnone hlist hid hstop hshut hinv hkeep hcnt =>
    -- the state once the stream has been counted
    let s₂ : State := { s₁ with runningStreams := s₁.runningStreams + 1 }
    have hinv₂ : s₂.Inv [st] s.runningStreams (0 < s.runningStreams) := hinv.setRunningStreams _
    have hkeeps₂ : KeepsOthers s s₂ id := ⟨hkeep.listed, hkeep.record, hkeep.only⟩
    have hcount₂ : s₂.runningStreams = s.runningStreams + 1 := congrArg (· + 1) hcnt
    have hne : (s₂.stream st).streamId ≠ streamAll := fun heq => hall (heq.symm.trans hid)
    have hfinish : finishRunning (fun s => s.setAllRunning io allOk) s₁ st id =
        if (if s₂.runningStreams = 1 then s₂.setAllRunning io allOk else (.ok, s₂)).1 ≠ .ok then
          (if s₂.runningStreams = 1 then s₂.setAllRunning io allOk else (.ok, s₂))
        else (.ok, (if s₂.runningStreams = 1 then s₂.setAllRunning io allOk
          else (.ok, s₂)).2.setRunning st true) := by
      unfold finishRunning
      rw [if_pos hall.symm]
    rw [hfinish, hcount₂]
    by_cases hfirst : s.runningStreams = 0
    · rw [hfirst] at hinv₂
      rw [hfirst, Nat.zero_add, if_pos rfl]
      have hbefore : s₂.Inv [st] 0 False := ⟨hinv₂.links, hinv₂.used, hinv₂.counted,
        hinv₂.all.trans (iff_of_false (Nat.lt_irrefl 0) not_false), hinv₂.matched⟩
      have hiff := hkeeps₂.startsRecords_iff h.links hinv₂.links hall allOk io
      rcases hbefore.setAllRunning io allOk fun st' hst' => by
          rw [List.mem_singleton.mp hst']
          exact ⟨hlist, hne⟩ with
        ⟨hstarts', hok, hinv₃, hcount₃, hkeeps₃⟩ | ⟨hnot, hwrong⟩
      · rw [hok, if_neg (not_not_intro rfl)]
        obtain ⟨hlist₃, hstream₃⟩ := hkeeps₃.listed st hlist hne
        have hrecord₃ := hkeeps₃.record st hlist hne
        have hstart := hinv₃.start hlist₃ (by rw [hstream₃]; exact hstop) (by
          rw [hstream₃]
          intro r hr
          rw [hrecord₃ r hr]
          exact hshut r hr)
        rw [hstream₃, if_neg hne, if_neg hne] at hstart
        refine .inl ⟨.inr (.inr ⟨hstarts, fun _ => hiff.mp hstarts'⟩), ?_⟩
        have hone : ((s₂.setAllRunning io allOk).2.setRunning st true).runningStreams = 1 :=
          hcount₃.trans (hcount₂.trans (by rw [hfirst]))
        unfold Settled
        rw [hone]
        exact ⟨hstart.links, hstart.used, hstart.counted,
          hstart.all.trans (iff_of_true trivial Nat.one_pos), hstart.matched⟩
      · refine .inr ⟨?_, fun hright => ?_⟩
        · rintro (hyes | ⟨st', hfind, hrun⟩ | ⟨-, hall'⟩)
          · exact hspecial hyes
          · exact nomatch (hnone st' hfind).symm.trans hrun
          · exact hnot (hiff.mpr (hall' hfirst))
        · -- the stream was counted, and is not running
          rcases hwrong with hoops | ⟨hstat, hcount₃, hcounted⟩
          · have hcalm : (s₂.setAllRunning io allOk).2.oops = false := by
              have hcalm := hright.calm
              split at hcalm
              · exact hcalm
              · exact hcalm
            exact nomatch hoops.symm.trans hcalm
          · rw [if_pos hstat] at hright
            have hrun := hright.running
            rw [hcounted, hcount₃, hcount₂] at hrun
            exact nomatch hrun
    · have hne' : s.runningStreams + 1 ≠ 1 := fun heq => hfirst (Nat.succ.inj heq)
      rw [if_neg hne', if_neg (not_not_intro rfl)]
      have hstart := hinv₂.start hlist hstop hshut
      rw [if_neg hne, if_neg hne] at hstart
      refine .inl ⟨.inr (.inr ⟨hstarts, fun hzero => absurd hzero hfirst⟩), ?_⟩
      have hcount₃ : (s₂.setRunning st true).runningStreams = s.runningStreams + 1 := hcount₂
      unfold Settled
      rw [hcount₃]
      exact ⟨hstart.links, hstart.used, hstart.counted,
        hstart.all.trans (iff_of_true (Nat.pos_of_ne_zero hfirst) (Nat.succ_pos _)), hstart.matched⟩

/-! ## Stopping a stream -/

theorem Inv.openRecords (h : s.Inv spare n a) (hfind : s.streamFind id = some st) :
    let s' := (s.streamSaveInCache st).stopRecords (s.stream st).commitRecordsList
    s'.Inv (st :: spare) n a ∧ s'.stream = s.stream ∧ s'.allStreamList = s.allStreamList ∧
      s'.runningStreams = s.runningStreams ∧ KeepsOthers s s' id ∧
      ∀ r ∈ (s.stream st).commitRecordsList, (s'.record r).isAccessible = true := by
  obtain ⟨hst, hid⟩ := h.links.streamFind_iff.mp hfind
  obtain ⟨hsame, hother, hopen⟩ := stopRecords_spec (s.stream st).commitRecordsList
    (s.streamSaveInCache st)
  have hinv := (h.streamSaveInCache hst).mono (List.subset_cons_self st spare)
  refine ⟨hinv.of_records hst hsame hother, hsame.stream, hsame.allStreamList,
    hsame.runningStreams, ⟨fun st' hst' _ => ?_, fun st' hst' hne r hr => ?_,
      fun st' hst' hne => ?_⟩, hopen⟩
  · rw [hsame.allStreamList, hsame.stream]
    exact ⟨hst', rfl⟩
  · refine hother r fun hmem => hne ?_
    rw [h.links.unique hst' hst hr hmem]
    exact hid
  · rw [hsame.allStreamList] at hst'
    rw [hsame.stream] at hne
    exact ⟨hst', hne⟩

theorem Inv.stop (h : s.Inv (st :: spare) n a) (hst : st ∈ s.allStreamList)
    (hrun : (s.stream st).isRunning = true)
    (hopen : ∀ r ∈ (s.stream st).commitRecordsList, (s.record r).isAccessible = true) :
    ((s.setRunning st false).streamDestroyIfEmpty (some st)).Inv spare
      (if (s.stream st).streamId = streamAll then n else n - 1)
      (if (s.stream st).streamId = streamAll then False else a) := by
  have hboth : (s.setRunning st false).Inv (st :: spare)
      (if (s.stream st).streamId = streamAll then n else n - 1)
      (if (s.stream st).streamId = streamAll then False else a) ∧
        (s.setRunning st false).Matches st := by
    refine h.setRunning hst false hopen ?_ ?_
    · by_cases hid : (s.stream st).streamId = streamAll
      · simp [isCounted, hid]
      · have hcnt : s.isCounted st = true := by
          simp [isCounted, hrun, hid]
        have hpos : 0 < n := by
          rw [← h.counted]
          exact List.countP_pos_iff.mpr ⟨st, hst, hcnt⟩
        rw [hcnt, if_neg hid, if_pos rfl]
        exact Nat.sub_add_cancel hpos
    · by_cases hid : (s.stream st).streamId = streamAll
      · simp [hid]
      · simp [hid]
  exact hboth.1.streamDestroyIfEmpty hst hboth.2

theorem KeepsOthers.stop (s : State) (hid : (s.stream st).streamId = id) :
    KeepsOthers s ((s.setRunning st false).streamDestroyIfEmpty (some st)) id := by
  have hne : ∀ st', (s.stream st').streamId ≠ id → st' ≠ st := by
    rintro st' hne rfl
    exact hne hid
  have hrun : KeepsOthers s (s.setRunning st false) id := by
    refine ⟨fun st' hst' hother => ⟨hst', Function.update_of_ne (hne st' hother) ..⟩,
      fun _ _ _ _ _ => rfl, fun st' hst' hother => ?_⟩
    rw [(setRunning_stream s st st' false).1] at hother
    exact ⟨hst', hother⟩
  unfold State.streamDestroyIfEmpty
  dsimp only
  split
  · exact hrun
  split
  · exact hrun
  obtain ⟨hrec, -, -, -, -, hlist⟩ := streamDestroy_rest (s.setRunning st false) st
  have hstr := streamDestroy_stream (s.setRunning st false) st
  have hid' : ∀ st', (((s.setRunning st false).streamDestroy st).stream st').streamId =
      (s.stream st').streamId := by
    intro st'
    rw [hstr]
    by_cases heq : st' = st
    · rw [heq, Function.update_self]
      exact (setRunning_stream s st st false).1
    · rw [Function.update_of_ne heq]
      exact (setRunning_stream s st st' false).1
  refine ⟨fun st' hst' hother => ⟨?_, ?_⟩, fun st' hst' hother r hr => congrFun hrec r,
    fun st' hst' hother => ?_⟩
  · rw [hlist]
    exact (List.mem_erase_of_ne (hne st' hother)).mpr hst'
  · rw [hstr, Function.update_of_ne (hne st' hother)]
    exact (hrun.listed st' hst' hother).2
  · rw [hid'] at hother
    rw [hlist] at hst'
    exact ⟨List.mem_of_mem_erase hst', hother⟩

theorem Inv.setAllStopped (h : s.Inv spare n a) (ha : a) :
    s.setAllStopped.1 = .ok ∧ s.setAllStopped.2.Inv spare n False ∧
      s.setAllStopped.2.runningStreams = s.runningStreams ∧
      KeepsOthers s s.setAllStopped.2 streamAll := by
  obtain ⟨st, hst, hid, hrun⟩ := h.all.mpr ha
  have hfind := h.links.streamFind_iff.mpr ⟨hst, hid⟩
  obtain ⟨hinv, hstr, hlist, hcnt, hkeep, hopen⟩ := h.openRecords hfind
  have heq : s.setAllStopped = (.ok, (((s.streamSaveInCache st).stopRecords
      (s.stream st).commitRecordsList).setRunning st false).streamDestroyIfEmpty (some st)) := by
    unfold State.setAllStopped State.setStoppedBody
    rw [hfind]
    dsimp only
    have hrunning' : ((s.streamSaveInCache st).stream st).isRunning = true := hrun
    rw [hrunning']
    rfl
  rw [heq]
  generalize (s.streamSaveInCache st).stopRecords (s.stream st).commitRecordsList = s₁ at *
  have hid₁ : (s₁.stream st).streamId = streamAll := by
    rw [hstr]
    exact hid
  have hstop := hinv.stop (hlist ▸ hst) (by rw [hstr]; exact hrun)
    (by rw [hstr]; exact hopen)
  rw [if_pos hid₁, if_pos hid₁] at hstop
  refine ⟨rfl, hstop, (streamDestroyIfEmpty_rest _ _).2.2.1.trans hcnt, ?_⟩
  exact hkeep.trans (KeepsOthers.stop s₁ hid₁)

theorem Settled.setStoppedBody (h : s.Settled) (hall : id ≠ streamAll) :
    (s.setStoppedBody State.setAllStopped id).2.Settled := by
  unfold State.setStoppedBody
  cases hfind : s.streamFind id with
  | none => exact h
  | some st =>
    obtain ⟨hst, hid⟩ := h.links.streamFind_iff.mp hfind
    obtain ⟨hinv, hstr, hlist, hcnt, hkeep, hopen⟩ := Inv.openRecords h hfind
    dsimp only
    split
    · exact Inv.streamSaveInCache h hst
    next hrun =>
    replace hrun : (s.stream st).isRunning = true :=
      (Bool.not_not _).symm.trans (congrArg not (Bool.eq_false_iff.mpr hrun))
    have hrecs : ((s.streamSaveInCache st).stream st).commitRecordsList =
        (s.stream st).commitRecordsList := rfl
    rw [hrecs]
    generalize (s.streamSaveInCache st).stopRecords (s.stream st).commitRecordsList = s₁ at *
    -- the stream counts, so the all-stream is running
    have hcounted : s.isCounted st = true := by
      simp [isCounted, hrun, hid, hall]
    have hpos : 0 < s.runningStreams := by
      rw [← h.counted]
      exact List.countP_pos_iff.mpr ⟨st, hst, hcounted⟩
    have hid₁ : (s₁.stream st).streamId ≠ streamAll := by
      rw [hstr, hid]
      exact hall
    let s₂ : State := { s₁ with runningStreams := s₁.runningStreams - 1 }
    have hinv₂ : s₂.Inv [st] s.runningStreams (0 < s.runningStreams) := hinv.setRunningStreams _
    have hcount₂ : s₂.runningStreams = s.runningStreams - 1 := congrArg (· - 1) hcnt
    show ((if (if s₂.runningStreams = 0 then s₂.setAllStopped else (.ok, s₂)).1 ≠ .ok then _
      else _) : NvStatus × State).2.Settled
    by_cases hlast : s₂.runningStreams = 0
    · rw [if_pos hlast]
      obtain ⟨hok, hinv₃, hcount₃, hkeeps₃⟩ := hinv₂.setAllStopped hpos
      rw [hok, if_neg (not_not_intro rfl)]
      obtain ⟨hlist₃, hstream₃⟩ := hkeeps₃.listed st (hlist ▸ hst) hid₁
      have hstop := hinv₃.stop hlist₃ (by rw [hstream₃]; exact hstr ▸ hrun) (by
        rw [hstream₃]
        intro r hr
        rw [hkeeps₃.record st (hlist ▸ hst) hid₁ r hr]
        exact hopen r (hstr ▸ hr))
      rw [hstream₃, if_neg hid₁, if_neg hid₁] at hstop
      have hzero : (((s₂.setAllStopped.2).setRunning st false).streamDestroyIfEmpty
          (some st)).runningStreams = 0 :=
        (streamDestroyIfEmpty_rest _ _).2.2.1.trans (hcount₃.trans hlast)
      show (((s₂.setAllStopped.2).setRunning st false).streamDestroyIfEmpty (some st)).Settled
      unfold Settled
      rw [hzero]
      have hn : s.runningStreams - 1 = 0 := hcount₂.symm.trans hlast
      rw [hn] at hstop
      exact ⟨hstop.links, hstop.used, hstop.counted,
        hstop.all.trans (iff_of_false not_false (Nat.lt_irrefl 0)), hstop.matched⟩
    · rw [if_neg hlast, if_neg (not_not_intro rfl)]
      have hrunning₂ : (s₂.stream st).isRunning = true := by
        show (s₁.stream st).isRunning = true
        rw [hstr]
        exact hrun
      have hopen₂ : ∀ r ∈ (s₂.stream st).commitRecordsList, (s₂.record r).isAccessible = true := by
        show ∀ r ∈ (s₁.stream st).commitRecordsList, _
        rw [hstr]
        exact hopen
      have hstop := hinv₂.stop (hlist ▸ hst) hrunning₂ hopen₂
      rw [if_neg hid₁, if_neg hid₁] at hstop
      have hrest : ((s₂.setRunning st false).streamDestroyIfEmpty (some st)).runningStreams =
          s.runningStreams - 1 := (streamDestroyIfEmpty_rest _ _).2.2.1.trans hcount₂
      show ((s₂.setRunning st false).streamDestroyIfEmpty (some st)).Settled
      unfold Settled
      rw [hrest]
      rw [hcount₂] at hlast
      exact ⟨hstop.links, hstop.used, hstop.counted,
        hstop.all.trans (iff_of_true hpos (Nat.pos_of_ne_zero hlast)), hstop.matched⟩

theorem Settled.stopStreams (l : List ℕ) (hl : ∀ id ∈ l, id ≠ streamAll) :
    ∀ {s : State}, s.Settled → (State.stopStreams l s).2.Settled := by
  induction l with
  | nil => exact fun h => h
  | cons id rest ih =>
    intro s h
    have hfirst := h.setStoppedBody (hl id List.mem_cons_self)
    unfold State.stopStreams
    dsimp only
    split
    · exact ih (fun id' hid => hl id' (List.mem_cons_of_mem id hid)) hfirst
    · exact hfirst

theorem Settled.setStreamsStopped (h : s.Settled) (streamIdArray : List ℕ) :
    (s.setStreamsStopped streamIdArray).2.Settled := by
  unfold State.setStreamsStopped
  split
  · exact h
  next hspecial =>
  refine h.stopStreams streamIdArray fun id hid heq => hspecial ?_
  refine List.any_eq_true.mpr ⟨id, hid, ?_⟩
  rw [heq]
  rfl

end State

end NvUvm.Lite
