import NvUvm.Lib.Run
import NvUvm.LiteStreamSwitch

/-!
# Runs of the calls on streams

The calls that create, commit, split, move and destroy records, and that start and stop streams, in any
order and with any allocation and migration failing.
-/

namespace NvUvm.Lite

open Lib (HoldsAlong StepsMeet holds_along_iff_of_guarded)

/-- A call, with what it is answered. -/
inductive Op where
  /-- `uvmlite_mmap` creates a record. -/
  | mmap (baseAddress length : ℕ) (io : Io)
  /-- `uvm_api_region_commit`, with the answer of `_create_or_check_channel`. -/
  | regionCommit (r streamId : ℕ) (channel : NvStatus) (gpu : ℕ) (io : Io)
  /-- `uvm_api_region_set_stream` of a whole record. -/
  | regionSetStream (r newStreamId : ℕ) (io : Io)
  /-- `uvmlite_region_set_stream` of a leaf of a portion. -/
  | leafSetStream (r newStreamId : ℕ) (io : Io)
  /-- `uvmlite_split_commit_record`. -/
  | split (r splitPoint : ℕ) (io : Io)
  /-- `uvmlite_set_stream_running`, and whether the all-stream can be allocated. -/
  | setStreamRunning (streamId : ℕ) (io : Io) (allOk : Bool)
  /-- `uvmlite_set_streams_stopped`. -/
  | setStreamsStopped (streamIdArray : List ℕ)
  /-- `uvmlite_destroy_commit_record`. -/
  | destroy (r : ℕ)
  /-- A fault maps pages of a record. -/
  | fault (r : ℕ)

namespace State

variable {s : State} {r : ℕ}

/-- `uvmlite_mmap`, less the region tracker. -/
def mmap (s : State) (baseAddress length : ℕ) (io : Io) : State :=
  let p := s.createCommitRecord baseAddress length io.createOk
  match p.1 with
  | none => p.2
  | some r => p.2.setAccessible r false

/-- `uvm_api_region_set_stream` of a whole record, less the region tracker. -/
def regionSetStreamWhole (s : State) (r newStreamId : ℕ) (io : Io) : State :=
  ((s.setRecord r { s.record r with hasChildren := false }).regionSetStream r newStreamId io).2

/-- A call.  The calls on records find one that lives, or none. -/
def step (s : State) : Op → State
  | .mmap baseAddress length io => s.mmap baseAddress length io
  | .regionCommit r streamId channel gpu io =>
    if s.Live r then (s.updateCommitRecord r streamId channel gpu io).2 else s
  | .regionSetStream r newStreamId io =>
    if s.Live r then s.regionSetStreamWhole r newStreamId io else s
  | .leafSetStream r newStreamId io =>
    if s.Live r then (s.regionSetStream r newStreamId io).2 else s
  | .split r splitPoint io =>
    if s.Live r then (s.splitCommitRecord r splitPoint io.createOk).2 else s
  | .setStreamRunning streamId io allOk => (s.setStreamRunning streamId io allOk).2
  | .setStreamsStopped streamIdArray => (s.setStreamsStopped streamIdArray).2
  | .destroy r => if s.Live r then s.destroyCommitRecord r else s
  | .fault r =>
    if (s.record r).isAccessible then s.setRecord r { s.record r with isMapped := true } else s

/-- The node of the record can be taken off its list. -/
def Linkable (s : State) (r : ℕ) : Prop := (s.record r).streamRegionsListNode ≠ .deleted

def MoveAllowed (s : State) (r newStreamId : ℕ) (io : Io) : Prop :=
  s.OnStream r newStreamId ∨ s.NoStream newStreamId io.streamOk ∨ s.Linkable r

/-- **What a call must find** to leave the streams right. -/
def Allowed (s : State) : Op → Prop
  | .mmap _ _ _ => True
  | .regionCommit r streamId channel _ io => s.Live r →
    s.Linkable r ∨ (s.record r).hasChildren = true ∧ ¬ s.Commits streamId channel io
  | .regionSetStream r newStreamId io => s.Live r → s.MoveAllowed r newStreamId io
  | .leafSetStream r newStreamId io => s.Live r → s.MoveAllowed r newStreamId io
  | .split r splitPoint io => s.Live r → s.SplitCreates r splitPoint io.createOk →
    ∃ st, (s.record r).pStream = some st ∧ (s.stream st).isRunning = false
  | .setStreamRunning streamId io allOk => s.StartAllowed streamId io allOk
  | .setStreamsStopped _ => True
  | .destroy r => s.Live r → (s.record r).hasChildren = true ∨ s.Linkable r
  | .fault _ => True

/-! ## One call -/

theorem Settled.mmap (h : s.Settled) (baseAddress length : ℕ) (io : Io) :
    (s.mmap baseAddress length io).Settled := by
  have he := createCommitRecord_extended s baseAddress length io.createOk
  have hinv := Inv.extended h he
  have hcreated : (s.createCommitRecord baseAddress length io.createOk).2.Settled := by
    unfold Settled
    rw [he.runningStreams]
    exact hinv
  unfold State.mmap
  dsimp only
  split
  · exact hcreated
  next r hr =>
  -- the new record is on no stream
  obtain rfl : s.records = r := by
    unfold State.createCommitRecord at hr
    dsimp only at hr
    split at hr
    · exact Option.some.inj hr
    · exact nomatch hr
  refine Inv.same hcreated (setAccessible_sameLinks _ _ _) fun st hst _ q hq => ?_
  rw [he.allStreamList] at hst
  rw [he.stream] at hq
  have hne : q ≠ s.records := Nat.ne_of_lt (h.links.attached st hst q hq).1
  rw [(setAccessible_record _ s.records false).1 q hne]

theorem Settled.clearChildren (h : s.Settled) (r : ℕ) :
    (s.setRecord r { s.record r with hasChildren := false }).Settled := by
  refine Inv.same h (setRecord_sameLinks rfl rfl (fun hfalse => nomatch hfalse) rfl)
    fun st _ _ q _ => ?_
  by_cases hqr : q = r
  · rw [hqr, setRecord_self]
  · rw [setRecord_of_ne hqr]

theorem Settled.fault (h : s.Settled) (r : ℕ) :
    (s.setRecord r { s.record r with isMapped := true }).Settled := by
  refine Inv.same h (setRecord_sameLinks rfl rfl id rfl) fun st _ _ q _ => ?_
  by_cases hqr : q = r
  · rw [hqr, setRecord_self]
  · rw [setRecord_of_ne hqr]

theorem Settled.step (h : s.Settled) {op : Op} (hallowed : s.Allowed op) : (s.step op).Settled := by
  have hkeep : ∀ {s' : State}, s'.Inv [] s.runningStreams (0 < s.runningStreams) ∧
      s'.runningStreams = s.runningStreams → s'.Settled := by
    intro s' hboth
    unfold Settled
    rw [hboth.2]
    exact hboth.1
  cases op with
  | mmap baseAddress length io => exact h.mmap baseAddress length io
  | regionCommit r streamId channel gpu io =>
    unfold State.step
    dsimp only
    split
    · next hlive => exact hkeep (Inv.updateCommitRecord h hlive.1 hlive.2 (hallowed hlive))
    · exact h
  | regionSetStream r newStreamId io =>
    unfold State.step
    dsimp only
    split
    · next hlive =>
      refine hkeep (Inv.regionSetStream (h.clearChildren r) hlive.1 ?_ ?_)
      · rw [setRecord_self]
        exact hlive.2
      · unfold OnStream
        rw [setRecord_self]
        exact hallowed hlive
    · exact h
  | leafSetStream r newStreamId io =>
    unfold State.step
    dsimp only
    split
    · next hlive => exact hkeep (Inv.regionSetStream h hlive.1 hlive.2 (hallowed hlive))
    · exact h
  | split r splitPoint io =>
    unfold State.step
    dsimp only
    split
    · next hlive => exact hkeep (Inv.splitCommitRecord h hlive.1 hlive.2 (hallowed hlive))
    · exact h
  | setStreamRunning streamId io allOk =>
    exact ((h.setStreamRunning streamId io allOk).resolve_right fun hnot => hnot.1 hallowed).2
  | setStreamsStopped streamIdArray => exact h.setStreamsStopped streamIdArray
  | destroy r =>
    unfold State.step
    dsimp only
    split
    · next hlive => exact hkeep (Inv.destroyCommitRecord h hlive.1 hlive.2 (hallowed hlive))
    · exact h
  | fault r =>
    unfold State.step
    dsimp only
    split
    · exact h.fault r
    · exact h

theorem Settled.not_right (h : s.Settled) {op : Op} (hnot : ¬ s.Allowed op) :
    ¬ (s.step op).Right := by
  have hoops : ∀ {s' : State}, s'.oops = true → ¬ s'.Right :=
    fun hbad hright => nomatch hbad.symm.trans hright.calm
  cases op with
  | mmap baseAddress length io => exact absurd trivial hnot
  | setStreamsStopped streamIdArray => exact absurd trivial hnot
  | fault r => exact absurd trivial hnot
  | regionCommit r streamId channel gpu io =>
    obtain ⟨hlive, hnot⟩ := Classical.not_imp.mp hnot
    obtain ⟨hnode, hcase⟩ := not_or.mp hnot
    unfold State.step
    dsimp only
    rw [if_pos hlive]
    refine hoops (Inv.updateCommitRecord_oops h (not_not.mp hnode) ?_)
    by_cases hsplit : (s.record r).hasChildren = true
    · exact .inr (not_not.mp fun hno => hcase ⟨hsplit, hno⟩)
    · exact .inl (Bool.eq_false_iff.mpr hsplit)
  | regionSetStream r newStreamId io =>
    obtain ⟨hlive, hnot⟩ := Classical.not_imp.mp hnot
    obtain ⟨hon, hrest⟩ := not_or.mp hnot
    obtain ⟨hstr, hnode⟩ := not_or.mp hrest
    unfold State.step regionSetStreamWhole
    dsimp only
    rw [if_pos hlive]
    refine hoops (Inv.regionSetStream_oops (h.clearChildren r) ?_ hstr ?_)
    · unfold OnStream
      rw [setRecord_self]
      exact hon
    · rw [setRecord_self]
      exact not_not.mp hnode
  | leafSetStream r newStreamId io =>
    obtain ⟨hlive, hnot⟩ := Classical.not_imp.mp hnot
    obtain ⟨hon, hrest⟩ := not_or.mp hnot
    obtain ⟨hstr, hnode⟩ := not_or.mp hrest
    unfold State.step
    dsimp only
    rw [if_pos hlive]
    exact hoops (Inv.regionSetStream_oops h hon hstr (not_not.mp hnode))
  | split r splitPoint io =>
    obtain ⟨hlive, hnot⟩ := Classical.not_imp.mp hnot
    obtain ⟨hcreates, hnot⟩ := Classical.not_imp.mp hnot
    unfold State.step
    dsimp only
    rw [if_pos hlive]
    cases hst : (s.record r).pStream with
    | none => exact hoops (splitCommitRecord_oops hlive.1 hcreates hst)
    | some st =>
      -- the left half is accessible, although its stream is running
      have hrun : (s.stream st).isRunning = true := by
        by_contra hstop
        exact hnot ⟨st, hst, Bool.eq_false_iff.mpr hstop⟩
      obtain ⟨hlt, hfreed, hsplit, hpStream, hacc, hsame⟩ :=
        Inv.splitCommitRecord_accessible h hlive.1 hlive.2 hcreates hst
      intro hright
      have hshut := (hright.accessible s.records st hlt hfreed hsplit hpStream).mpr
        (hsame.trans hrun)
      exact nomatch hshut.symm.trans hacc
  | setStreamRunning streamId io allOk =>
    exact ((h.setStreamRunning streamId io allOk).resolve_left fun hyes => hnot hyes.1).2
  | destroy r =>
    obtain ⟨hlive, hnot⟩ := Classical.not_imp.mp hnot
    obtain ⟨hsplit, hnode⟩ := not_or.mp hnot
    unfold State.step
    dsimp only
    rw [if_pos hlive]
    exact hoops (destroyCommitRecord_oops (Bool.eq_false_iff.mpr hsplit) (not_not.mp hnode))

/-! ## Runs -/

theorem initial_settled : State.initial.Settled where
  links := by
    refine ⟨rfl, List.nodup_nil, fun st => ?_, (fun st hst => nomatch hst),
      (fun i st hi => nomatch hi), (fun st hst => nomatch hst), (fun st hst => nomatch hst),
      fun r st hr => ?_, fun r hr => ?_, fun r hr => ?_⟩
    · exact iff_of_false List.not_mem_nil fun hlt => absurd hlt.1 (Nat.not_lt_zero _)
    · exact absurd hr (Nat.not_lt_zero _)
    · exact absurd hr (Nat.not_lt_zero _)
    · exact absurd hr (Nat.not_lt_zero _)
  used st hst := nomatch hst
  counted := rfl
  all := iff_of_false (fun ⟨_, hst, _⟩ => nomatch hst) (Nat.lt_irrefl 0)
  matched st hst := nomatch hst

/-- Every allocation and every migration succeeds. -/
def goodIo : Io := ⟨fun _ => true, true, fun _ => true, fun _ => .ok, fun _ => false⟩

/-- **The streams are right along a run** exactly when every call of it is allowed. -/
theorem streams_right_iff (ops : List Op) :
    HoldsAlong step Right State.initial ops ↔ StepsMeet step Allowed State.initial ops := by
  refine holds_along_iff_of_guarded step (W := Settled) initial_settled (fun s h => h.right)
    (fun s op h => ⟨fun hright => ?_, fun hallowed => (h.step hallowed).right⟩)
    (fun s op h hallowed => h.step hallowed) ops
  by_contra hnot
  exact h.not_right hnot hright

/-- The migration of a record with mapped pages fails: the start of its stream returns the error, and
leaves the record inaccessible on a stream that is stopped. -/
theorem failed_start_hides_record : ¬ HoldsAlong step Right State.initial
      [.mmap 0x10000 0x2000 goodIo, .regionCommit 0 5 .ok 0 goodIo, .fault 0,
        .setStreamRunning 5 { goodIo with migrate := fun _ => .errNoMemory } true] := by
  intro h
  have hright := h _ (List.prefix_refl _)
  have hrun := (hright.accessible 0 0 (by decide) (by decide) (by decide) (by decide)).mp (by decide)
  exact absurd hrun (by decide)

end State

end NvUvm.Lite
