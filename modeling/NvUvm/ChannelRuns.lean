import NvUvm.ChannelCallInv
import NvUvm.Lib.Run

/-!
# Runs of the channel calls

The calls on one VA space in any interleaving of their sections.  Each channel is on one list, in the
hands of one call, or destroyed, and this with the invariant of the VA space and what each call relies
on is kept by every step (`inv_step`).
-/

namespace NvUvm.ChannelLife

open Space

/-! ## What the calls rely on -/

variable {s : Space}

theorem Pc.Right.keep {s' : Space} {pc other : Pc} (h : SpaceInv s) (hpc : pc.Right s)
    (hother : other.Right s) (hevolves : Evolves pc.making pc.unregistering s s')
    (howns : ∀ ch, pc.owns ch + other.owns ch ≤ 1)
    (hunreg : ∀ gpu, pc.unregisters gpu + other.unregisters gpu ≤ 1) : other.Right s' := by
  -- a stopped channel is not being made
  have hstop : ∀ ch, Stopped s ch → Stopped s' ch := by
    intro ch hs
    have hnot : ¬ pc.making ch := by
      intro hmaking
      cases pc with
      | registerChannel ch' g base last =>
        have heq : ch = ch' := hmaking
        have hh : InHands s g ch' := hpc
        rw [← heq] at hh
        exact hh.unregistered h.toChannelsRight g (hs.registered g hh.gpuVaSpace)
      | _ => exact hmaking.elim
    refine ⟨hs.created.trans_le hevolves.channelCount, ?_, fun g hg => ?_⟩
    · by_contra hb
      have hb' := hevolves.isBound ch hnot hs.created (Bool.not_eq_false _ |>.mp hb)
      rw [hs.isBound] at hb'
      cases hb'
    · obtain ⟨hg', hreg⟩ := hevolves.listed ch g hnot hs.created hg
      exact hreg (hs.registered g hg')
  cases other with
  | start request => trivial
  | registerChannel ch g base last =>
    have hh : InHands s g ch := hother
    have hnot : ¬ pc.making ch := by
      intro hmaking
      have hpos := Pc.owns_pos_of_making hmaking
      have hsum := howns ch
      have hone : (Pc.registerChannel ch g base last).owns ch = 1 := if_pos rfl
      omega
    have hsame := hevolves.unlisted ch hnot hh.created hh.vaRanges
    refine ⟨⟨hh.created.trans_le hevolves.channelCount, ?_, ?_⟩, ?_⟩
    · rw [hsame]
      exact hh.gpuVaSpace
    · rw [hsame]
      exact hh.isBound
    · rw [hsame]
      exact hh.vaRanges
  | registerChannelFailed ch => exact hstop ch hother
  | unregisterChannel ch => exact hstop ch hother
  | unregisterGpuVaSpace g =>
    exact ⟨hother.1.trans_le hevolves.gpuVaSpaceCount, hevolves.disallow g hother.1 hother.2⟩
  | unregisterGpu gpu =>
    obtain ⟨hprog, hdis⟩ := hother
    have hnot : ¬ pc.unregistering gpu := by
      intro hpos
      have hsum := hunreg gpu
      have hone : (Pc.unregisterGpu gpu).unregisters gpu = 1 := if_pos rfl
      unfold Pc.unregistering at hpos
      omega
    obtain ⟨hprog', hreg⟩ := hevolves.inProgress gpu hnot hprog
    refine ⟨hprog', fun g hg => ?_⟩
    have hold := hreg g hg
    have hlt := (h.attached g (h.lookup gpu g hold).1).1
    exact hevolves.disallow g hlt (hdis g hold)
  | destroy => exact hevolves.stopped hother
  | cleanup userChannels => trivial

/-! ## The invariant -/

/-- The call that destroys the VA space, at whichever section. -/
def Pc.Closing (s : Space) : Pc → Prop
  | .start request => request = .destroy
  | .destroy => True
  | .cleanup _ => ∀ g ch, ¬ s.Registered g ch
  | .registerChannel _ _ _ _ => False
  | .registerChannelFailed _ => False
  | .unregisterChannel _ => False
  | .unregisterGpuVaSpace _ => False
  | .unregisterGpu _ => False

/-- The invariant of the calls on a VA space. -/
structure Inv (s : State) : Prop where
  space : SpaceInv s.space
  calls : ∀ pc ∈ s.calls, pc.Right s.space
  owned : ∀ ch, s.space.owned ch + Lib.held Pc.owns s.calls ch = ofBool (ch < s.space.channelCount)
  unregisters : ∀ gpu, Lib.held Pc.unregisters s.calls gpu =
    ofBool (s.space.gpuRegisterInProgress gpu)
  closing : s.closing = true → ∃ old last, s.calls = old ++ [last] ∧
    (∀ pc ∈ old, pc = .returned) ∧ last.Closing s.space

theorem ofBool_le_one (b : Bool) : ofBool b ≤ 1 := by
  cases b <;> decide

theorem inv_initial : Inv State.initial where
  space :=
    { nodup := fun _ => List.nodup_nil
      listed := fun _ _ hr => (by cases hr)
      ranged := fun _ _ hl => (by cases hl)
      bound := fun _ hb => (by cases hb)
      known := fun _ _ hg => (by cases hg)
      attached := fun _ hatt => (by cases hatt)
      lookup := fun _ _ hg => (by cases hg)
      unmapped := fun _ _ => rfl
      written := fun _ hr _ => (by cases hr)
      log := fun _ he => (by cases he)
      refs :=
        { nodup := List.nodup_nil
          created := fun _ hr => (by cases hr)
          counted := fun _ hr => (by cases hr)
          used := fun _ => ⟨fun hr => (by cases hr), fun hpos => absurd hpos (Nat.lt_irrefl 0)⟩
          localNodup := fun _ => List.nodup_nil
          localRange := fun _ _ => ⟨fun hr => (by cases hr), fun hr => (by cases hr.1)⟩
          destroyed := fun _ => rfl } }
  calls := fun _ hpc => (by cases hpc)
  owned := fun _ => rfl
  unregisters := fun _ => rfl
  closing := fun hclosing => (by cases hclosing)

/-! ## The steps -/

def Op.Described : Op → Prop
  | .begin _ => True
  | .next _ o => RmDescribes o

theorem Inv.begin {s : State} (h : Inv s) {request : Request} {closing : Bool}
    (hclosing : closing = true → request = .destroy ∧ s.idle = true) :
    Inv { s with calls := s.calls ++ [.start request], closing := closing } where
  space := h.space
  calls := by
    intro pc hpc
    rcases List.mem_append.mp hpc with hpc | hpc
    · exact h.calls pc hpc
    · rw [List.mem_singleton.mp hpc]
      trivial
  owned := by
    intro ch
    rw [Lib.held_concat]
    exact h.owned ch
  unregisters := by
    intro gpu
    rw [Lib.held_concat]
    exact h.unregisters gpu
  closing := by
    intro hc
    obtain ⟨rfl, hidle⟩ := hclosing hc
    refine ⟨s.calls, .start .destroy, rfl, fun pc hpc => ?_, rfl⟩
    unfold State.idle at hidle
    rw [List.all_eq_true] at hidle
    simpa using hidle pc hpc

theorem advance_closing (h : SpaceInv s) {pc : Pc} (hright : pc.Right s) (o : Outcome)
    (hclosing : pc.Closing s) : (advance s o pc).pc.Closing (advance s o pc).space := by
  cases pc with
  | start request =>
    obtain rfl : request = .destroy := hclosing
    trivial
  | destroy =>
    obtain ⟨deferred, hpc, -, hnone⟩ := destroySection_spec h hright
    exact hnone
  | cleanup userChannels =>
    cases userChannels with
    | nil => exact hclosing
    | cons ch rest => exact hclosing
  | _ => exact hclosing.elim

theorem Inv.next {s : State} (h : Inv s) {i : ℕ} {pc : Pc} (hi : s.calls[i]? = some pc)
    {o : Outcome} (hrm : RmDescribes o) :
    Inv { s with
      space := (advance s.space o pc).space
      calls := s.calls.set i (advance s.space o pc).pc } := by
  have hmem := List.mem_of_getElem? hi
  have hright := h.calls pc hmem
  -- a channel that was not made yet has no ranges
  have hnone : (s.space.channels s.space.channelCount).vaRanges = none := by
    by_contra hne
    have howned := h.owned s.space.channelCount
    unfold Space.owned at howned
    rw [if_pos (Option.isSome_iff_ne_none.mpr hne)] at howned
    simp only [Nat.lt_irrefl] at howned
    change _ = 0 at howned
    omega
  have hs := advance_right h.space hright hrm hnone
  refine ⟨hs.inv, fun other hother => ?_, fun ch => ?_, fun gpu => ?_, fun hclosing => ?_⟩
  · obtain ⟨j, hj⟩ := List.mem_iff_getElem?.mp hother
    by_cases heq : i = j
    · subst heq
      have hlt : i < s.calls.length := (List.getElem?_eq_some_iff.mp hi).1
      rw [List.getElem?_set_self hlt] at hj
      obtain rfl := Option.some.inj hj
      exact hs.right
    · rw [List.getElem?_set_ne heq] at hj
      refine Pc.Right.keep h.space hright (h.calls other (List.mem_of_getElem? hj)) hs.evolves
        (fun ch => ?_) fun gpu => ?_
      · have hsum := h.owned ch
        have hone := ofBool_le_one (ch < s.space.channelCount)
        have hle := Lib.add_le_held Pc.owns hi hj heq ch
        omega
      · have hsum := h.unregisters gpu
        have hone := ofBool_le_one (s.space.gpuRegisterInProgress gpu)
        have hle := Lib.add_le_held Pc.unregisters hi hj heq gpu
        omega
  · have hset := Lib.held_set Pc.owns hi (advance s.space o pc).pc ch
    have hsum := h.owned ch
    have hsection := hs.owned ch
    dsimp only
    omega
  · have hset := Lib.held_set Pc.unregisters hi (advance s.space o pc).pc gpu
    have hsum := h.unregisters gpu
    have hsection := hs.unregisters gpu
    dsimp only
    omega
  · obtain ⟨old, last, hcalls, hold, hlast⟩ := h.closing hclosing
    dsimp only
    rw [hcalls] at hi ⊢
    rcases Nat.lt_or_ge i old.length with hlt | hge
    · -- the other calls have returned
      rw [List.getElem?_append_left hlt] at hi
      obtain rfl := hold pc (List.mem_of_getElem? hi)
      refine ⟨old.set i .returned, last, ?_, fun other hother => ?_, hlast⟩
      · rw [List.set_append, if_pos hlt]
        rfl
      · rcases List.mem_or_eq_of_mem_set hother with hmem' | heq
        · exact hold other hmem'
        · exact heq
    · obtain rfl : i = old.length := by
        rw [List.getElem?_append_right hge] at hi
        have hlt := (List.getElem?_eq_some_iff.mp hi).1
        rw [List.length_singleton] at hlt
        omega
      have heq : last = pc := by simpa using hi
      subst heq
      exact ⟨old, _, by simp, hold, advance_closing h.space hright o hlast⟩

theorem inv_step {s : State} (h : Inv s) {op : Op} (hop : op.Described) : Inv (step s op) := by
  cases op with
  | begin request =>
    dsimp only [step]
    by_cases hclosing : s.closing = true
    · rw [if_pos hclosing]
      exact h
    rw [if_neg hclosing]
    by_cases hdestroy : request = .destroy
    · rw [if_pos hdestroy]
      by_cases hidle : s.idle = true
      · rw [if_pos hidle]
        exact h.begin fun _ => ⟨rfl, hidle⟩
      · rw [if_neg hidle]
        exact h
    · rw [if_neg hdestroy]
      exact h.begin fun hc => absurd hc hclosing
  | next i o =>
    dsimp only [step]
    cases hi : s.calls[i]? with
    | none => exact h
    | some pc => exact h.next hi hop

/-! ## The life of a channel -/

/-- The channel is on the list of a GPU VA space of the VA space. -/
def Space.isRegistered (s : Space) (ch : ℕ) : Bool :=
  s.attachedGpuVaSpaces.any fun g => (s.gpuVaSpaces g).registeredChannels.contains ch

/-- The number of registered channels that use a range. -/
def Space.users (s : Space) (r : ℕ) : ℕ :=
  (List.range s.channelCount).countP fun ch =>
    s.isRegistered ch && ((s.channels ch).vaRanges.getD []).contains r

/-- What holds of the channels and the channel ranges of a VA space, and of what was recorded. -/
structure LifecycleRight (s : State) : Prop where
  detached : ∀ ch isBound, Event.detached ch isBound ∈ s.space.log → isBound = false
  bound : ∀ ch attached disallowed, Event.bound ch attached disallowed ∈ s.space.log →
    attached = true ∧ disallowed = false
  mapped : ∀ ch, (s.space.channels ch).isBound = true → ∃ l,
    (s.space.channels ch).vaRanges = some l ∧ ∀ r ∈ l, (s.space.ranges r).ptRanges = true ∧
      (s.space.fatal = false → (s.space.ranges r).ptesWritten = true)
  counted : ∀ r ∈ s.space.vaRangeTree, (s.space.ranges r).refCount = s.space.users r
  channelOnce : ∀ ch, s.space.log.count (.channelDestroyed ch) ≤ 1
  channelIdle : s.idle = true → ∀ ch, ch < s.space.channelCount →
    s.space.log.count (.channelDestroyed ch) = if s.space.isRegistered ch then 0 else 1
  rangeOnce : ∀ r, r < s.space.rangeCount →
    s.space.log.count (.rangeDestroyed r) = if r ∈ s.space.vaRangeTree then 0 else 1
  closed : s.closing = true → s.idle = true →
    (∀ ch, ch < s.space.channelCount → s.space.log.count (.channelDestroyed ch) = 1) ∧
      ∀ r, r < s.space.rangeCount → s.space.log.count (.rangeDestroyed r) = 1

theorem isRegistered_iff {ch : ℕ} :
    s.isRegistered ch = true ↔ ∃ g ∈ s.attachedGpuVaSpaces, s.Registered g ch := by
  unfold Space.isRegistered
  rw [List.any_eq_true]
  exact ⟨fun ⟨g, hg, hmem⟩ => ⟨g, hg, List.contains_iff_mem.mp hmem⟩,
    fun ⟨g, hg, hmem⟩ => ⟨g, hg, List.contains_iff_mem.mpr hmem⟩⟩

theorem SpaceInv.isRegistered_eq (h : SpaceInv s) (ch : ℕ) :
    s.isRegistered ch = (s.channels ch).vaRanges.isSome := by
  rw [Bool.eq_iff_iff, isRegistered_iff]
  constructor
  · rintro ⟨g, -, hreg⟩
    exact (h.listed g ch hreg).2.2.1
  · intro hsome
    obtain ⟨l, hl⟩ := Option.isSome_iff_exists.mp hsome
    obtain ⟨g, hreg, -, -⟩ := h.ranged ch l hl
    exact ⟨g, h.mem_attached hreg, hreg⟩

theorem SpaceInv.uses_eq_users (h : SpaceInv s) (r : ℕ) : s.uses r = s.users r := by
  refine Lib.held_of_bool _ fun ch _ => ?_
  rw [h.isRegistered_eq]
  unfold UserChannel.uses
  cases hl : (s.channels ch).vaRanges with
  | none => rfl
  | some l =>
    obtain ⟨_, -, hnd, -⟩ := h.ranged ch l hl
    simp only [Option.getD_some, Option.isSome_some, Bool.true_and, List.contains_iff_mem]
    by_cases hmem : r ∈ l
    · rw [if_pos hmem]
      exact List.count_eq_one_of_mem hnd hmem
    · rw [if_neg hmem]
      exact List.count_eq_zero_of_not_mem hmem

theorem Inv.owned_of_idle {s : State} (h : Inv s) (hidle : s.idle = true) {ch : ℕ}
    (hch : ch < s.space.channelCount) :
    (if s.space.isRegistered ch then 1 else 0) + s.space.log.count (.channelDestroyed ch) = 1 := by
  have howned := h.owned ch
  rw [Lib.held_eq_zero Pc.owns fun pc hpc => ?_] at howned
  · unfold Space.owned at howned
    rw [h.space.isRegistered_eq]
    simpa [hch, ofBool] using howned
  · unfold State.idle at hidle
    rw [List.all_eq_true] at hidle
    have hret : pc = .returned := by simpa using hidle pc hpc
    rw [hret]
    rfl

theorem Inv.lifecycle {s : State} (h : Inv s) : LifecycleRight s := by
  have hrange : ∀ r, r < s.space.rangeCount →
      s.space.log.count (.rangeDestroyed r) = if r ∈ s.space.vaRangeTree then 0 else 1 := by
    intro r hr
    rw [h.space.refs.destroyed r]
    by_cases hmem : r ∈ s.space.vaRangeTree
    · rw [if_pos hmem, if_neg fun hn => hn.2 hmem]
    · rw [if_neg hmem, if_pos ⟨hr, hmem⟩]
  have hidle : s.idle = true → ∀ ch, ch < s.space.channelCount →
      s.space.log.count (.channelDestroyed ch) = if s.space.isRegistered ch then 0 else 1 := by
    intro hidle ch hch
    have hsum := h.owned_of_idle hidle hch
    cases hreg : s.space.isRegistered ch <;> simp_all
  refine ⟨fun ch isBound he => h.space.log _ he, fun ch attached disallowed he => h.space.log _ he,
    fun ch hb => ?_, fun r hr => ?_, fun ch => ?_, hidle, hrange, fun hclosing hid => ?_⟩
  · obtain ⟨⟨g, hreg, -⟩, hmap, -⟩ := h.space.bound ch hb
    obtain ⟨l, hl⟩ := Option.isSome_iff_exists.mp (h.space.listed g ch hreg).2.2.1
    exact ⟨l, hl, fun r hr => ⟨hmap l hl r hr, h.space.written r (hmap l hl r hr)⟩⟩
  · rw [h.space.refs.counted r hr]
    exact h.space.uses_eq_users r
  · have howned := h.owned ch
    have hone := ofBool_le_one (ch < s.space.channelCount)
    unfold Space.owned at howned
    omega
  · -- the last call has left no channel on a list
    obtain ⟨old, last, hcalls, -, hlast⟩ := h.closing hclosing
    have hnone : ∀ g ch, ¬ s.space.Registered g ch := by
      have hid' := hid
      unfold State.idle at hid'
      rw [List.all_eq_true] at hid'
      have hret : last = .returned := by
        simpa using hid' last (by rw [hcalls]; exact List.mem_append_right _ List.mem_cons_self)
      rw [hret] at hlast
      exact hlast
    have hempty : s.space.vaRangeTree = [] := by
      refine List.eq_nil_iff_forall_not_mem.mpr fun r hr => ?_
      obtain ⟨ch, -, hreg, -, -⟩ := h.space.exists_user hr
      exact hnone _ ch hreg
    refine ⟨fun ch hch => ?_, fun r hr => ?_⟩
    · rw [hidle hid ch hch, if_neg]
      intro hreg
      obtain ⟨g, -, hreg⟩ := isRegistered_iff.mp hreg
      exact hnone g ch hreg
    · rw [hrange r hr, hempty, if_neg List.not_mem_nil]

/-- **The life of channels and channel ranges**, over every interleaving of the sections of the calls
and every outcome of what they meet. -/
theorem lifecycle_right (ops : List Op) (hrm : ∀ op ∈ ops, op.Described) :
    Lib.HoldsAlong step LifecycleRight State.initial ops := by
  have hmeets : Lib.StepsMeet step (fun _ op => op.Described) State.initial ops := by
    intro pre op hpre
    exact hrm op (hpre.subset (by simp))
  exact Lib.holds_along_of_meets step inv_initial (fun _ h => h.lifecycle)
    (fun _ _ h hop => inv_step h hop) hmeets

/-- Everything succeeds, and the channel has one resource, which it may share. -/
def Outcome.success : Outcome where
  channelAlloc := true
  retained := some 1
  resources := some [⟨7, false, 4096, 4096, false⟩]
  rangeFree := true
  arrayAlloc := true
  create := fun _ => .created
  map := fun _ => .mapped
  trackerWait := true
  addInstancePtr := true
  bindResources := true
  gpuVaSpaceCreated := true
  gpuVaSpaceMapped := true

/-- A channel is registered, and the VA space is destroyed. -/
def oneChannel : List Op :=
  [.begin (.registerGpu 1), .next 0 .success, .begin (.registerGpuVaSpace 1), .next 1 .success,
    .begin (.registerChannel 1 (1, 1) 4096 4096), .next 2 .success, .next 2 .success,
    .begin .destroy, .next 3 .success, .next 3 .success, .next 3 .success]

theorem Outcome.success_describes : RmDescribes .success := by
  refine ⟨fun desc hdesc => ?_, fun resources hres => ?_⟩
  · rw [← Option.some.inj hdesc]
    exact Nat.one_ne_zero
  · rw [← Option.some.inj hres]
    unfold LocalsDistinct
    decide

theorem lifecycle_right_oneChannel :
    (∀ op ∈ oneChannel, op.Described) ∧ LifecycleRight (Lib.run step State.initial oneChannel) ∧
      (Lib.run step State.initial oneChannel).idle = true ∧
      (Lib.run step State.initial oneChannel).space.log = [.channelDestroyed 0, .rangeDestroyed 0,
        .detached 0 false, .bound 0 true false] := by
  have hrm : ∀ op ∈ oneChannel, op.Described := by
    simp [oneChannel, Op.Described, Outcome.success_describes]
  exact ⟨hrm, lifecycle_right oneChannel hrm oneChannel (List.prefix_refl _), by decide, by decide⟩

/-- Two channels share a range.  The first maps it and fails with a system-fatal error, and before it
is detached the second finds the range mapped. -/
def twoChannels : List Op :=
  [.begin (.registerGpu 1), .next 0 .success, .begin (.registerGpuVaSpace 1), .next 1 .success,
    .begin (.registerChannel 1 (1, 1) 4096 4096), .next 2 .success,
    .begin (.registerChannel 1 (1, 2) 8192 4096), .next 3 .success,
    .next 2 { Outcome.success with map := fun _ => .leaked }, .next 3 .success]

/-- **A bound channel may have a range whose PTEs were not written.** -/
theorem bound_unwritten : (∀ op ∈ twoChannels, op.Described) ∧
      ¬ Lib.HoldsAlong step (fun s => ∀ ch, (s.space.channels ch).isBound = true →
        ∀ r ∈ (s.space.channels ch).vaRanges.getD [], (s.space.ranges r).ptRanges = true ∧
          (s.space.ranges r).ptesWritten = true) State.initial twoChannels := by
  refine ⟨?_, fun h => ?_⟩
  · have hleaked : RmDescribes { Outcome.success with map := fun _ => .leaked } :=
      Outcome.success_describes
    simp [twoChannels, Op.Described, Outcome.success_describes, hleaked]
  · have hmap := h twoChannels (List.prefix_refl _) 1 (by decide) 0 (by decide)
    revert hmap
    decide

end NvUvm.ChannelLife
