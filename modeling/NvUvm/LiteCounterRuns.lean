import Mathlib.Algebra.BigOperators.Ring.Finset
import NvUvm.LiteCounters

/-!
# Session counts against sessions

A session has a counter enabled when the last request for it in a call that returned no error was one
to enable it.  The session count of a counter should be the number of live sessions that have it
enabled.
-/

namespace NvUvm.SessionCounts

open Lib
open Function (update update_of_ne update_self)

/-! ## Sessions -/

/-- `UvmSessionInfo`.  `enabled` are the counters the session has enabled, in the calls that returned
no error. -/
structure UvmSessionInfo where
  pidSessionOwner : ℕ
  pCounterContainer : ℕ
  enabled : ℕ → Bool

/-- The open files with their arrays of sessions, and the counts of the containers.  A slot that is
free has `UVM_PID_INIT_VALUE` for its owner in the source. -/
structure State where
  files : ℕ
  sessionInfoArray : ℕ × ℕ → Option UvmSessionInfo
  sessionCount : ℕ → Counts

namespace State

variable (s : State)

def setSession (p : ℕ × ℕ) (session : Option UvmSessionInfo) : State :=
  { s with sessionInfoArray := update s.sessionInfoArray p session }

/-- `uvm_get_session_info`: the slot and the session. -/
def uvmGetSessionInfo (file pid : ℕ) (sessionIndex : ℤ) :
    Except NvStatus ((ℕ × ℕ) × UvmSessionInfo) :=
  if -1 < sessionIndex ∧ sessionIndex < maxSessionsPerProcess then
    match s.sessionInfoArray (file, sessionIndex.toNat) with
    | some session =>
      if session.pidSessionOwner ≠ pid then .error errInsufficientPermissions
      else .ok ((file, sessionIndex.toNat), session)
    | none => .error errInsufficientPermissions
  else .error .errInvalidArgument

/-- `uvm_add_session_info`: the first free slot. -/
def uvmAddSessionInfo (file pid container : ℕ) : NvStatus × State :=
  match (List.range maxSessionsPerProcess).find? fun i =>
    (s.sessionInfoArray (file, i)).isNone with
  | none => (errInsufficientResources, s)
  | some i => (.ok, s.setSession (file, i) (some ⟨pid, container, fun _ => false⟩))

/-- `uvm_remove_session_info`, in `uvm_api_remove_session` or when a session cannot be mapped. -/
def uvmRemoveSessionInfo (file pid : ℕ) (sessionIndex : ℤ) : NvStatus × State :=
  match s.uvmGetSessionInfo file pid sessionIndex with
  | .error status => (status, s)
  | .ok (p, _) => (.ok, s.setSession p none)

def uvmApiEnableCounters (file pid : ℕ) (sessionIndex : ℤ) (config : List UvmCounterConfig) :
    NvStatus × State :=
  match s.uvmGetSessionInfo file pid sessionIndex with
  | .error status => (status, s)
  | .ok (p, session) =>
    let r := uvmCounterStateAtomicUpdate config (s.sessionCount session.pCounterContainer)
    let enabled := if r.1 = .ok then fun i => lastState i (session.enabled i) (requests config)
      else session.enabled
    (r.1, { s.setSession p (some { session with enabled := enabled }) with
      sessionCount := update s.sessionCount session.pCounterContainer r.2 })

end State

/-- What the debuggers do, each with its process and one of its files. -/
inductive Op where
  | open
  | add (file pid container : ℕ)
  | update (file pid : ℕ) (sessionIndex : ℤ) (config : List UvmCounterConfig)
  | remove (file pid : ℕ) (sessionIndex : ℤ)

/-- One step; there are no calls on files that are not open. -/
def step (s : State) : Op → State
  | .open => { s with files := s.files + 1 }
  | .add file pid container =>
    if file < s.files then (s.uvmAddSessionInfo file pid container).2 else s
  | .update file pid sessionIndex config =>
    if file < s.files then (s.uvmApiEnableCounters file pid sessionIndex config).2 else s
  | .remove file pid sessionIndex =>
    if file < s.files then (s.uvmRemoveSessionInfo file pid sessionIndex).2 else s

def init : State where
  files := 0
  sessionInfoArray _ := none
  sessionCount _ _ := 0#32

/-! ## The number of sessions -/

/-- A slot counts for a counter when its session is on the container and has the counter enabled. -/
def counts (c i : ℕ) : Option UvmSessionInfo → ℤ
  | none => 0
  | some session => if session.pCounterContainer = c then (session.enabled i).toInt else 0

theorem counts_none (c i : ℕ) : counts c i none = 0 := rfl

theorem counts_some (c i : ℕ) (session : UvmSessionInfo) : counts c i (some session) =
    if session.pCounterContainer = c then (session.enabled i).toInt else 0 := rfl

variable {session : UvmSessionInfo}

theorem counts_disabled {i : ℕ} (h : session.enabled i = false) (c : ℕ) :
    counts c i (some session) = 0 := by
  rw [counts_some, h]
  split
  · rfl
  · rfl

def State.slots (s : State) : Finset (ℕ × ℕ) :=
  Finset.range s.files ×ˢ Finset.range maxSessionsPerProcess

/-- The number of live sessions on a container that have a counter enabled. -/
def State.live (s : State) (c i : ℕ) : ℤ := ∑ p ∈ s.slots, counts c i (s.sessionInfoArray p)

/-- Every session count is the number of these sessions, as a 32-bit number. -/
def Right (s : State) : Prop := ∀ c i, s.sessionCount c i = BitVec.ofInt 32 (s.live c i)

/-- Nothing is in the slots of files that are not open. -/
def Closed (s : State) : Prop := ∀ file i, s.files ≤ file → s.sessionInfoArray (file, i) = none

/-- The counts are right, and no session is outside the open files. -/
structure Inv (s : State) : Prop where
  right : Right s
  closed : Closed s

variable {s : State} {p : ℕ × ℕ} {c i : ℕ}

theorem live_setSession (hp : p ∈ s.slots) (session : Option UvmSessionInfo) (c i : ℕ) :
    (s.setSession p session).live c i =
      s.live c i + (counts c i session - counts c i (s.sessionInfoArray p)) := by
  have hother : ∀ q ∈ s.slots.erase p, counts c i ((s.setSession p session).sessionInfoArray q) =
      counts c i (s.sessionInfoArray q) := by
    intro q hq
    refine congrArg (counts c i) ?_
    exact update_of_ne (Finset.ne_of_mem_erase hq) _ _
  have hself : (s.setSession p session).sessionInfoArray p = session := update_self ..
  show ∑ q ∈ s.slots, _ = ∑ q ∈ s.slots, _ + _
  rw [← Finset.add_sum_erase s.slots _ hp, ← Finset.add_sum_erase s.slots
    (fun q => counts c i (s.sessionInfoArray q)) hp, Finset.sum_congr rfl hother, hself]
  omega

theorem ofInt_inj {a b : ℤ} (ha : -64 ≤ a ∧ a ≤ 64) (hb : -64 ≤ b ∧ b ≤ 64) :
    BitVec.ofInt 32 a = BitVec.ofInt 32 b ↔ a = b := by
  constructor
  · intro h
    have hnat := congrArg BitVec.toNat h
    rw [BitVec.toNat_ofInt, BitVec.toNat_ofInt] at hnat
    omega
  · exact fun h => h ▸ rfl

/-! ## The condition -/

/-- The condition on a step.  A call that is refused has counted as many requests to enable a counter
as to disable it; in any other, as many requests to enable a counter come when it is enabled as
requests to disable it when it is not; and a session that is removed has no counter enabled. -/
def StepOk (s : State) : Op → Prop
  | .update file pid sessionIndex config => file < s.files →
    ∀ p session, s.uvmGetSessionInfo file pid sessionIndex = .ok (p, session) →
      (Refused config → ∀ i, net i (counted config) = 0) ∧
      (¬ Refused config → ∀ i, redundant i true (session.enabled i) (counted config) =
        redundant i false (session.enabled i) (counted config))
  | .remove file pid sessionIndex => file < s.files →
    ∀ p session, s.uvmGetSessionInfo file pid sessionIndex = .ok (p, session) →
      ∀ i, session.enabled i = false
  | _ => True

/-- An update that returns an error changes no count. -/
def FailureKeeps (s : State) : Op → Prop
  | .update file pid sessionIndex config => file < s.files →
    (s.uvmApiEnableCounters file pid sessionIndex config).1 ≠ .ok →
      (step s (.update file pid sessionIndex config)).sessionCount = s.sessionCount
  | _ => True

theorem getSessionInfo_found {file pid : ℕ} {sessionIndex : ℤ} (hfile : file < s.files)
    (h : s.uvmGetSessionInfo file pid sessionIndex = .ok (p, session)) :
    p ∈ s.slots ∧ s.sessionInfoArray p = some session := by
  unfold State.uvmGetSessionInfo at h
  split at h
  swap
  · exact nomatch h
  next hidx =>
  split at h
  · next x hx =>
    split at h
    · exact nomatch h
    · obtain ⟨rfl, rfl⟩ : (file, sessionIndex.toNat) = p ∧ x = session := by simpa using h
      refine ⟨Finset.mem_product.mpr ⟨Finset.mem_range.mpr hfile, Finset.mem_range.mpr ?_⟩, hx⟩
      show sessionIndex.toNat < maxSessionsPerProcess
      omega
  · exact nomatch h

theorem closed_setSession (h : Inv s) (hp : p ∈ s.slots) (session : Option UvmSessionInfo) :
    Closed (s.setSession p session) := by
  intro file i hfile
  have hne : (file, i) ≠ p := by
    rintro rfl
    have hlt := Finset.mem_range.mp (Finset.mem_product.mp hp).1
    exact absurd hlt (Nat.not_lt.mpr hfile)
  exact (update_of_ne hne _ _).trans (h.closed file i hfile)

/-! ## The steps -/

theorem Inv.open (h : Inv s) : Inv { s with files := s.files + 1 } := by
  refine ⟨fun c i => ?_, fun file i hfile => h.closed file i (Nat.le_of_succ_le hfile)⟩
  have hlive : ({ s with files := s.files + 1 } : State).live c i = s.live c i := by
    symm
    refine Finset.sum_subset (fun q hq => ?_) fun q _ hq => ?_
    · obtain ⟨hfile, hidx⟩ := Finset.mem_product.mp hq
      refine Finset.mem_product.mpr ⟨?_, hidx⟩
      exact Finset.mem_range.mpr (Nat.lt_succ_of_lt (Finset.mem_range.mp hfile))
    · -- the slots of the new file are free
      obtain ⟨file, j⟩ := q
      rw [h.closed file j, counts_none]
      by_contra hlt
      refine hq (Finset.mem_product.mpr ⟨Finset.mem_range.mpr (Nat.not_le.mp hlt), ?_⟩)
      exact (Finset.mem_product.mp ‹_›).2
  exact (h.right c i).trans (congrArg _ hlive.symm)

theorem Inv.add (h : Inv s) {file : ℕ} (hfile : file < s.files) (pid container : ℕ) :
    Inv (s.uvmAddSessionInfo file pid container).2 := by
  unfold State.uvmAddSessionInfo
  split
  · exact h
  · next j hj =>
    have hfree : s.sessionInfoArray (file, j) = none := by
      have hnone := List.find?_some hj
      exact Option.isNone_iff_eq_none.mp hnone
    have hslot : (file, j) ∈ s.slots :=
      Finset.mem_product.mpr ⟨Finset.mem_range.mpr hfile,
        Finset.mem_range.mpr (List.mem_range.mp (List.mem_of_find?_eq_some hj))⟩
    refine ⟨fun c i => ?_, closed_setSession h hslot _⟩
    have hlive := live_setSession hslot (some ⟨pid, container, fun _ => false⟩) c i
    rw [hfree, counts_disabled rfl, counts_none] at hlive
    refine (h.right c i).trans (congrArg _ ?_)
    rw [hlive]
    omega

theorem remove_right_iff (h : Inv s) (hp : p ∈ s.slots)
    (hsession : s.sessionInfoArray p = some session) :
    Right (s.setSession p none) ↔ ∀ i, session.enabled i = false := by
  have hlive : ∀ c i, (s.setSession p none).live c i =
      s.live c i + (0 - counts c i (some session)) := by
    intro c i
    rw [live_setSession hp none c i, hsession]
    rfl
  constructor
  · intro hright i
    have hcnt := hright session.pCounterContainer i
    rw [hlive, BitVec.ofInt_add, ← h.right] at hcnt
    have hzero : BitVec.ofInt 32 (0 - counts session.pCounterContainer i (some session)) =
        BitVec.ofInt 32 0 := by
      have hadd : s.sessionCount session.pCounterContainer i =
          s.sessionCount session.pCounterContainer i + BitVec.ofInt 32
            (0 - counts session.pCounterContainer i (some session)) := hcnt
      exact BitVec.self_eq_add_right.mp hadd
    rw [counts_some, if_pos rfl] at hzero
    cases hen : session.enabled i with
    | false => rfl
    | true =>
      rw [hen] at hzero
      exact absurd hzero (by decide)
  · intro hnone c i
    rw [hlive, counts_disabled (hnone i)]
    exact (h.right c i).trans (congrArg _ (by omega))

def enabledAfter (session : UvmSessionInfo) (config : List UvmCounterConfig) (status : NvStatus) :
    ℕ → Bool :=
  if status = .ok then fun i => lastState i (session.enabled i) (requests config)
  else session.enabled

theorem update_right_iff_net (h : Inv s) (hp : p ∈ s.slots)
    (hsession : s.sessionInfoArray p = some session) (config : List UvmCounterConfig)
    (enabled : ℕ → Bool) :
    Right { s.setSession p (some { session with enabled := enabled }) with
      sessionCount := update s.sessionCount session.pCounterContainer
        (uvmCounterStateAtomicUpdate config (s.sessionCount session.pCounterContainer)).2 } ↔
      ∀ i, net i (counted config) = (enabled i).toInt - (session.enabled i).toInt := by
  have hlive := fun c i => live_setSession hp (some { session with enabled := enabled }) c i
  simp only [hsession, counts_some] at hlive
  have hbound : ∀ b : Bool, 0 ≤ b.toInt ∧ b.toInt ≤ 1 := fun b => by cases b <;> decide
  have hstep : ∀ i, BitVec.ofInt 32 (net i (counted config)) =
      BitVec.ofInt 32 ((enabled i).toInt - (session.enabled i).toInt) ↔
        net i (counted config) = (enabled i).toInt - (session.enabled i).toInt := by
    intro i
    have hlen := counted_length config
    obtain ⟨hlo, hhi⟩ := net_bounds i (counted config)
    have hnew := hbound (enabled i)
    have hold := hbound (session.enabled i)
    unfold maxCountersPerIoctlCall at hlen
    exact ofInt_inj (by omega) (by omega)
  constructor
  · intro hright i
    have hcnt : update s.sessionCount session.pCounterContainer _
        session.pCounterContainer i = BitVec.ofInt 32
          ((s.setSession p (some { session with enabled := enabled })).live
            session.pCounterContainer i) := hright session.pCounterContainer i
    rw [update_self, update_counts, h.right, hlive, if_pos rfl, if_pos rfl,
      BitVec.ofInt_add] at hcnt
    exact (hstep i).mp ((BitVec.add_right_inj _).mp hcnt)
  · intro hnet c i
    show update s.sessionCount session.pCounterContainer _ c i = BitVec.ofInt 32
      ((s.setSession p (some { session with enabled := enabled })).live c i)
    rw [hlive]
    by_cases hc : c = session.pCounterContainer
    · subst hc
      rw [update_self, update_counts, h.right, if_pos rfl, if_pos rfl, BitVec.ofInt_add,
        hnet i]
    · rw [update_of_ne hc, if_neg (Ne.symm hc), if_neg (Ne.symm hc), h.right]
      exact congrArg _ (by omega)

theorem update_right_iff (h : Inv s) (hp : p ∈ s.slots)
    (hsession : s.sessionInfoArray p = some session) (config : List UvmCounterConfig) :
    Right { s.setSession p (some { session with
        enabled := enabledAfter session config (uvmCounterStateAtomicUpdate config
          (s.sessionCount session.pCounterContainer)).1 }) with
      sessionCount := update s.sessionCount session.pCounterContainer
        (uvmCounterStateAtomicUpdate config (s.sessionCount session.pCounterContainer)).2 } ↔
      (Refused config → ∀ i, net i (counted config) = 0) ∧
      (¬ Refused config → ∀ i, redundant i true (session.enabled i) (counted config) =
        redundant i false (session.enabled i) (counted config)) := by
  set t := uvmCounterStateAtomicUpdate config (s.sessionCount session.pCounterContainer)
  rw [update_right_iff_net h hp hsession]
  have hstat := update_fails_iff config (s.sessionCount session.pCounterContainer)
  by_cases hrefused : Refused config
  · have hsame : enabledAfter session config t.1 = session.enabled :=
      if_neg (hstat.mpr hrefused)
    rw [hsame]
    constructor
    · intro hnet
      refine ⟨fun _ i => ?_, fun hno => absurd hrefused hno⟩
      rw [hnet i]
      omega
    · intro hnet i
      rw [hnet.1 hrefused i]
      omega
  · have hok : t.1 = .ok := not_not.mp fun hfails => hrefused (hstat.mp hfails)
    have hcnt : counted config = requests config := if_neg fun hmany => hrefused (.inl hmany)
    have hafter : enabledAfter session config t.1 =
          fun i => lastState i (session.enabled i) (requests config) := if_pos hok
    rw [hafter, hcnt]
    constructor
    · intro hnet
      refine ⟨fun hno => absurd hno hrefused, fun _ i => ?_⟩
      have heq := net_eq i (session.enabled i) (requests config)
      have hnet := hnet i
      dsimp only at hnet
      omega
    · intro hredundant i
      have heq := net_eq i (session.enabled i) (requests config)
      have hredundant := hredundant.2 hrefused i
      dsimp only
      omega

theorem StepOk.failureKeeps {op : Op} (hok : StepOk s op) : FailureKeeps s op := by
  cases op with
  | update file pid sessionIndex config =>
    intro hfile hfails
    show (if file < s.files then _ else s).sessionCount = _
    rw [if_pos hfile]
    have hok := hok hfile
    unfold State.uvmApiEnableCounters at hfails ⊢
    cases hfound : s.uvmGetSessionInfo file pid sessionIndex with
    | error status => rfl
    | ok found =>
      obtain ⟨p, session⟩ := found
      rw [hfound] at hfails
      dsimp only at hfails ⊢
      have hnet := (hok p session hfound).1 ((update_fails_iff config _).mp hfails)
      funext c i
      by_cases hc : c = session.pCounterContainer
      · subst hc
        rw [update_self, update_counts, hnet i]
        exact BitVec.add_zero _
      · rw [update_of_ne hc]
  | «open» => trivial
  | add file pid container => trivial
  | remove file pid sessionIndex => trivial

theorem step_right_iff (h : Inv s) (op : Op) : Right (step s op) ↔ StepOk s op := by
  cases op with
  | «open» => exact ⟨fun _ => trivial, fun _ => h.open.right⟩
  | add file pid container =>
    refine ⟨fun _ => trivial, fun _ => ?_⟩
    show Right (if file < s.files then _ else s)
    split
    · next hfile => exact (h.add hfile pid container).right
    · exact h.right
  | update file pid sessionIndex config =>
    show Right (if file < s.files then _ else s) ↔ (file < s.files → _)
    by_cases hfile : file < s.files
    swap
    · rw [if_neg hfile]
      exact ⟨fun _ hlt => absurd hlt hfile, fun _ => h.right⟩
    rw [if_pos hfile]
    unfold State.uvmApiEnableCounters
    cases hfound : s.uvmGetSessionInfo file pid sessionIndex with
    | error status => exact ⟨fun _ _ p session heq => (nomatch heq), fun _ => h.right⟩
    | ok found =>
      obtain ⟨p, session⟩ := found
      obtain ⟨hp, hsession⟩ := getSessionInfo_found hfile hfound
      refine (update_right_iff h hp hsession config).trans ⟨fun hok _ q x heq => ?_, fun hok => ?_⟩
      · obtain ⟨rfl, rfl⟩ : p = q ∧ session = x := by simpa using heq
        exact hok
      · exact hok hfile p session rfl
  | remove file pid sessionIndex =>
    show Right (if file < s.files then _ else s) ↔ (file < s.files → _)
    by_cases hfile : file < s.files
    swap
    · rw [if_neg hfile]
      exact ⟨fun _ hlt => absurd hlt hfile, fun _ => h.right⟩
    rw [if_pos hfile]
    unfold State.uvmRemoveSessionInfo
    cases hfound : s.uvmGetSessionInfo file pid sessionIndex with
    | error status => exact ⟨fun _ _ p session heq => (nomatch heq), fun _ => h.right⟩
    | ok found =>
      obtain ⟨p, session⟩ := found
      obtain ⟨hp, hsession⟩ := getSessionInfo_found hfile hfound
      refine (remove_right_iff h hp hsession).trans ⟨fun hok _ q x heq => ?_, fun hok => ?_⟩
      · obtain ⟨rfl, rfl⟩ : p = q ∧ session = x := by simpa using heq
        exact hok
      · exact hok hfile p session rfl

theorem Inv.step (h : Inv s) (op : Op) (hok : StepOk s op) : Inv (step s op) := by
  refine ⟨(step_right_iff h op).mpr hok, ?_⟩
  cases op with
  | «open» => exact h.open.closed
  | add file pid container =>
    show Closed (if file < s.files then _ else s)
    split
    · next hfile => exact (h.add hfile pid container).closed
    · exact h.closed
  | update file pid sessionIndex config =>
    show Closed (if file < s.files then _ else s)
    split
    swap
    · exact h.closed
    next hfile =>
    unfold State.uvmApiEnableCounters
    cases hfound : s.uvmGetSessionInfo file pid sessionIndex with
    | error status => exact h.closed
    | ok found =>
      exact closed_setSession h (getSessionInfo_found hfile hfound).1 _
  | remove file pid sessionIndex =>
    show Closed (if file < s.files then _ else s)
    split
    swap
    · exact h.closed
    next hfile =>
    unfold State.uvmRemoveSessionInfo
    cases hfound : s.uvmGetSessionInfo file pid sessionIndex with
    | error status => exact h.closed
    | ok found =>
      exact closed_setSession h (getSessionInfo_found hfile hfound).1 _

theorem inv_init : Inv init := by
  refine ⟨fun c i => ?_, fun _ _ _ => rfl⟩
  rfl

/-- **The session counts are right in exactly the runs whose steps meet the condition**: then every
count is the number of live sessions that have the counter enabled, and a call that returns an error
changes none. -/
theorem counts_right_iff (ops : List Op) :
    HoldsAlong step Right init ops ∧ StepsMeet step FailureKeeps init ops ↔
      StepsMeet step StepOk init ops := by
  have hiff := holds_along_iff_of_guarded step inv_init (fun _ h => h.right)
    (fun s op h => step_right_iff h op) (fun s op h hok => h.step op hok) ops
  rw [hiff]
  refine ⟨fun h => h.1, fun h => ⟨h, fun pre op hpre => ?_⟩⟩
  exact (h pre op hpre).failureKeeps

/-- A session that asks twice for a counter is counted twice. -/
theorem repeated_enable_counts_twice : ¬ (HoldsAlong step Right init
      [.open, .add 0 100 0, .update 0 100 0 [⟨1, 0, 1⟩, ⟨1, 0, 1⟩]] ∧
    StepsMeet step FailureKeeps init
      [.open, .add 0 100 0, .update 0 100 0 [⟨1, 0, 1⟩, ⟨1, 0, 1⟩]]) := by
  rintro ⟨hright, -⟩
  have hcnt := hright _ (List.prefix_refl _) 0 0
  exact absurd hcnt (by decide)

end NvUvm.SessionCounts
