import NvUvm.PreventMigrationLists
import NvUvm.RangePolicySafe

/-!
# Where the pages of a prevented group are

A page that is not at its preferred location is owed a migration: its range group range is on a
list, or a call that prevents migration still has to reach it.  The steps of all threads keep this
as long as each section lists what it moves and nothing is under way when a call takes the list.
-/

namespace NvUvm

open Lib
open Function (update update_of_ne update_self)

/-- A page of a range group range and of a VA range. -/
structure GroupSpace.PageAt (sp : GroupSpace) (r : Lib.Interval ℕ) (n : VaRangeNode) (a : ℕ) : Prop where
  group : r ∈ sp.groupRanges
  inGroup : r.Contains a
  range : lookup sp.ranges a = some n

/-- Whatever range group range starts at the address belongs to the group. -/
def GroupSpace.OfGroup (sp : GroupSpace) (group start : ℕ) : Prop :=
  ∀ r ∈ sp.groupRanges, r.start = start → r.val = group

/-- Where the block of an address of a range starts. -/
def VaRangeNode.blockOf (n : VaRangeNode) (a : ℕ) : ℕ :=
  blockCalcStart n.vaRange (uvmVaRangeBlockIndex n.vaRange a)

/-- A task does not leave copies of the pages that it migrates behind. -/
def PolicyTask.Moves (sp : GroupSpace) : PolicyTask → Prop
  | .block n _ _ _ _ => ¬ (n.val.readDuplication = .enabled ∧ sp.canReadDuplicate = true)
  | _ => True

/-! ## What a call still has to do -/

namespace PolicyCall

/-- A call on the group of a range group range will still reach a page of it. -/
def Holds (c : PolicyCall) (migrated : List ℕ) (r : Lib.Interval ℕ) (n : VaRangeNode) (a : ℕ) : Prop :=
  match c.phase with
  | .flagged => r.start ∈ migrated
  | .draining current tasks localRanges =>
    r.start ∈ localRanges ∨ (current = some r.start ∧ ∃ task ∈ tasks, task.Covers n a)
  | .failing current localRanges => r.start ∈ current :: localRanges

/-- What a call works on belongs to its group, and its tasks are sound. -/
def Sound (c : PolicyCall) (sp : GroupSpace) : Prop :=
  match c.phase with
  | .flagged => True
  | .draining current tasks localRanges =>
    (∀ start ∈ current.toList ++ localRanges, sp.OfGroup c.group start) ∧
      ∀ task ∈ tasks, task.Sound sp
  | .failing current localRanges => ∀ start ∈ current :: localRanges, sp.OfGroup c.group start

end PolicyCall

/-- The sections that a thread has still to begin. -/
def MoveThread.todo : MoveThread → List BlockSection
  | .idle => []
  | .tested todo => todo
  | .inBlock _ _ _ _ todo => todo

/-- The range group ranges that a thread has still to list. -/
def MoveThread.adds : MoveThread → List RangeGroupRange
  | .inBlock _ adds _ _ _ => adds
  | _ => []

namespace PreventState

/-- A page of a range group range is going to be migrated: the range group range is on its group's
list, or a call on the group works on it. -/
def Pending (s : PreventState) (r : Lib.Interval ℕ) (n : VaRangeNode) (a : ℕ) : Prop :=
  match s.call with
  | none => r.start ∈ s.migratedRanges r.val
  | some c =>
    if c.group = r.val then c.Holds (s.migratedRanges r.val) r n a
    else r.start ∈ s.migratedRanges r.val

/-- A page that is going to be migrated before a call on its group can return `NV_OK`. -/
def Due (s : PreventState) (r : Lib.Interval ℕ) (n : VaRangeNode) (a : ℕ) : Prop :=
  s.prevented r.val = false ∧ s.Pending r n a

/-- A page where it belongs, or going to be migrated there. -/
def Settled (s : PreventState) (r : Lib.Interval ℕ) (n : VaRangeNode) (a : ℕ) (p : PageState) : Prop :=
  p.AtPreferred n ∨ s.Due r n a

/-- The group's pages may no longer leave: a call took its list, or returned `NV_OK`. -/
def Closed (s : PreventState) (group : ℕ) : Prop :=
  s.prevented group = true ∨ ∃ c, s.call = some c ∧ c.group = group ∧ c.phase ≠ .flagged

def lockOf (s : PreventState) (n : VaRangeNode) (a : ℕ) : Option ℕ :=
  s.locks (VaRangeNode.blockOf n a)

/-- A thread in a section holds the lock, and every page that it changes will be settled: where it is not,
its range group range is still to be listed and its group is not closed. -/
structure SectionSound (s : PreventState) (sp : GroupSpace) (t block : ℕ)
    (adds : List RangeGroupRange) (touched : List ℕ) (after : ℕ → PageState) : Prop where
  locked : s.locks block = some t
  ofGroup : ∀ q ∈ adds, sp.OfGroup q.val.id q.start
  settles : ∀ a ∈ touched, ∃ n, lookup sp.ranges a = some n ∧ block = VaRangeNode.blockOf n a ∧
    ∀ r ∈ sp.groupRanges, r.Contains a → s.Settled r n a (after a) ∨
      (¬ s.Closed r.val ∧ ∃ q ∈ adds, q.start = r.start ∧ q.val.id = r.val)

/-- The sections still to begin touch no page of a closed group. -/
def TodoSound (s : PreventState) (sp : GroupSpace) (todo : List BlockSection) : Prop :=
  ∀ sec ∈ todo, ∀ a ∈ sec.touched, ∀ r ∈ sp.groupRanges, r.Contains a → ¬ s.Closed r.val

def ThreadSound (s : PreventState) (sp : GroupSpace) (t : ℕ) (th : MoveThread) : Prop :=
  s.TodoSound sp th.todo ∧
    match th with
    | .inBlock block adds touched after _ => s.SectionSound sp t block adds touched after
    | _ => True

end PreventState

/-- The invariant: migration is not allowed where it is prevented or being prevented, the lists hold what
belongs to their groups, every page is settled, and so is what the threads are about to do. -/
structure PreventInv (sp : GroupSpace) (s : PreventState) : Prop where
  forbidden : ∀ g, s.prevented g = true → s.allowMigration g = false
  callForbids : ∀ c, s.call = some c → s.allowMigration c.group = false
  listed : ∀ g, ∀ start ∈ s.migratedRanges g, sp.OfGroup g start
  callSound : ∀ c, s.call = some c → c.Sound sp
  settled : ∀ r n a, sp.PageAt r n a → s.Settled r n a (s.pages a)
  threads : ∀ t, s.ThreadSound sp t (s.threads t)

/-! ## The property and its condition -/

namespace PreventState

/-- Every page of a group whose migration a call prevented is only at the preferred location of its
range, without a CPU mapping. -/
def PreventedHeld (sp : GroupSpace) (s : PreventState) : Prop :=
  ∀ r n a, sp.PageAt r n a → s.prevented r.val = true → (s.pages a).AtPreferred n

/-- No call runs, nothing is prevented, no thread is in a section, and the lists hold the range group
ranges with pages away from their preferred location. -/
structure Fresh (sp : GroupSpace) (s : PreventState) : Prop where
  noCall : s.call = none
  notPrevented : ∀ g, s.prevented g = false
  idle : ∀ t, s.threads t = .idle
  listed : ∀ g, ∀ start ∈ s.migratedRanges g, sp.OfGroup g start
  away : ∀ r n a, sp.PageAt r n a →
    (s.pages a).AtPreferred n ∨ r.start ∈ s.migratedRanges r.val

/-- A section lists the range group range of every page that it takes away from its preferred
location. -/
def ListsMoved (s : PreventState) (sp : GroupSpace) (sec : BlockSection) : Prop :=
  ∀ n, lookup sp.ranges sec.addr = some n → ∀ a ∈ sec.touched, ∀ q ∈ s.tree sp, q.Contains a →
    (s.pages a).AtPreferred n → ¬ (sec.after n s.pages a).AtPreferred n →
    sec.Lists n (s.tree sp) s.pages q a

/-- No hint pulls a page that may not migrate away from its preferred location. -/
def HintsKeep (s : PreventState) (sp : GroupSpace) (gpu : ProcessorId) (hints : ℕ → FaultHint)
    (sec : BlockSection) : Prop :=
  ∀ n, lookup sp.ranges sec.addr = some n → ∀ a ∈ sec.touched, s.migratable sp a = false →
    (s.pages a).AtPreferred n → (hints a).Keeps sp n gpu

/-- Nothing is under way on a group: no thread tested that it may move a page of it, or has a range group
range of it to list that is not on the list. -/
def Quiet (s : PreventState) (sp : GroupSpace) (group : ℕ) : Prop :=
  ∀ t, (∀ sec ∈ (s.threads t).todo, ∀ a ∈ sec.touched, ∀ r ∈ sp.groupRanges, r.Contains a →
      r.val ≠ group) ∧
    ∀ q ∈ (s.threads t).adds, q.val.id = group → q.start ∈ s.migratedRanges group

/-- The next task of the call does not read-duplicate. -/
def TaskMoves (s : PreventState) (sp : GroupSpace) : Prop :=
  ∀ group current task tasks localRanges,
    s.call = some ⟨group, .draining current (task :: tasks) localRanges⟩ → task.Moves sp

def Meets (sp : GroupSpace) (s : PreventState) : PreventOp → Prop
  | .drain => ∀ c, s.call = some c → s.Quiet sp c.group
  | .task _ _ _ _ => s.TaskMoves sp
  | .lockBlock t => ∀ sec todo, s.threads t = .tested (sec :: todo) → s.ListsMoved sp sec
  | .cpuFault _ sec => s.ListsMoved sp sec
  | .gpuFault _ gpu hints sec => s.ListsMoved sp sec ∧ s.HintsKeep sp gpu hints sec
  | _ => True

end PreventState

/-- The state in which a call took the list of its group. -/
def PreventState.takeList (s : PreventState) (group : ℕ) : PreventState :=
  { s with
    migratedRanges := update s.migratedRanges group []
    call := some ⟨group, .draining none [] (s.migratedRanges group)⟩ }

/-! ## What a step leaves to do -/

namespace PreventState

/-- A step leaves to do what is due for pages of locked blocks, and closes no group. -/
structure Keeps (sp : GroupSpace) (s s' : PreventState) : Prop where
  due : ∀ r n a, sp.PageAt r n a → (s.lockOf n a).isSome → s.Due r n a → s'.Due r n a
  closed : ∀ g, s'.Closed g → s.Closed g

variable {s s' : PreventState} {sp : GroupSpace}

theorem Keeps.of_eq (hcall : s'.call = s.call) (hlists : s'.migratedRanges = s.migratedRanges)
    (hprevented : s'.prevented = s.prevented) :
    Keeps sp s s' where
  due r n a _ _ h := by
    simpa only [Due, Pending, hcall, hlists, hprevented] using h
  closed g h := by
    simpa only [Closed, hcall, hprevented] using h

theorem TodoSound.keep (hk : Keeps sp s s') {todo : List BlockSection} (h : s.TodoSound sp todo) :
    s'.TodoSound sp todo :=
  fun sec hsec a ha r hr hra hc => h sec hsec a ha r hr hra (hk.closed _ hc)

theorem SectionSound.keep (hk : Keeps sp s s') {t block : ℕ} {adds : List RangeGroupRange}
    {touched : List ℕ} {after : ℕ → PageState} (h : s.SectionSound sp t block adds touched after)
    (hlock : s'.locks block = some t) :
    s'.SectionSound sp t block adds touched after where
  locked := hlock
  ofGroup := h.ofGroup
  settles a ha := by
    obtain ⟨n, hn, hblock, hsettles⟩ := h.settles a ha
    refine ⟨n, hn, hblock, fun r hr hra => ?_⟩
    have hlocked : (s.lockOf n a).isSome := by
      unfold lockOf
      rw [← hblock, h.locked]
      rfl
    rcases hsettles r hr hra with (hat | hdue) | ⟨hopen, hq⟩
    · exact Or.inl (Or.inl hat)
    · exact Or.inl (Or.inr (hk.due r n a ⟨hr, hra, hn⟩ hlocked hdue))
    · exact Or.inr ⟨fun hc => hopen (hk.closed _ hc), hq⟩

theorem ThreadSound.keep (hk : Keeps sp s s') {t : ℕ} {th : MoveThread}
    (hlock : ∀ block, s.locks block = some t → s'.locks block = some t)
    (h : s.ThreadSound sp t th) : s'.ThreadSound sp t th := by
  refine ⟨h.1.keep hk, ?_⟩
  cases th with
  | idle => trivial
  | tested todo => trivial
  | inBlock block adds touched after todo => exact h.2.keep hk (hlock _ h.2.locked)

theorem threads_keep {t : ℕ} (hk : Keeps sp s s') (hinv : PreventInv sp s)
    (hother : ∀ t', t' ≠ t → s'.threads t' = s.threads t')
    (hlock : ∀ t', t' ≠ t → ∀ block, s.locks block = some t' → s'.locks block = some t')
    (hself : s'.ThreadSound sp t (s'.threads t)) (t' : ℕ) :
    s'.ThreadSound sp t' (s'.threads t') := by
  by_cases h : t' = t
  · rw [h]
    exact hself
  · rw [hother t' h]
    exact (hinv.threads t').keep hk (hlock t' h)

/-! ## The tree of range group ranges -/

theorem mem_tree {q : RangeGroupRange} : q ∈ s.tree sp ↔
      ∃ r ∈ sp.groupRanges, (⟨r.start, r.last, ⟨r.val, s.allowMigration r.val⟩⟩ : RangeGroupRange) = q :=
  List.mem_map

theorem tree_ordered (s : PreventState) (sp : GroupSpace) : Ordered (s.tree sp) := by
  apply ordered_map _ sp.groupOrdered
  intro r
  exact ⟨rfl, rfl⟩

theorem migratable_eq (s : PreventState) {r : Lib.Interval ℕ} (hr : r ∈ sp.groupRanges) {a : ℕ}
    (ha : r.Contains a) : s.migratable sp a = s.allowMigration r.val := by
  have hq := (lookup_eq_some (s.tree_ordered sp)).mpr ⟨mem_tree.mpr ⟨r, hr, rfl⟩, ha⟩
  simp [migratable, uvmRangeGroupAddressMigratable, hq, uvmRangeGroupMigratable]

end PreventState

theorem GroupSpace.ofGroup_start (sp : GroupSpace) {r : Lib.Interval ℕ} (hr : r ∈ sp.groupRanges) :
    sp.OfGroup r.val r.start := by
  intro r' hr' h
  rw [sp.eq_of_start hr' hr h]

namespace PreventInv

variable {sp : GroupSpace} {s : PreventState}
variable {group a : ℕ} {r : Lib.Interval ℕ} {s' : PreventState} {c : PolicyCall} {n : VaRangeNode}
  {sec : BlockSection}

theorem forbidden_of_closed (hinv : PreventInv sp s) (h : s.Closed group) :
    s.allowMigration group = false := by
  rcases h with h | ⟨c, hc, rfl, -⟩
  · exact hinv.forbidden group h
  · exact hinv.callForbids c hc

theorem open_of_migratable (hinv : PreventInv sp s) (hr : r ∈ sp.groupRanges) (ha : r.Contains a)
    (h : s.migratable sp a = true) : ¬ s.Closed r.val := by
  intro hc
  rw [s.migratable_eq hr ha, hinv.forbidden_of_closed hc] at h
  cases h

/-! ## The steps of the call -/

private theorem control_keeps (hinv : PreventInv sp s) (hpages : s'.pages = s.pages)
    (hlocks : s'.locks = s.locks) (hthreads : s'.threads = s.threads)
    (hdue : ∀ r n a, sp.PageAt r n a → s.Due r n a → s'.Due r n a)
    (hclosed : ∀ g, s'.Closed g → s.Closed g)
    (hforbidden : ∀ g, s'.prevented g = true → s'.allowMigration g = false)
    (hlisted : ∀ g, ∀ start ∈ s'.migratedRanges g, sp.OfGroup g start)
    (hcall : ∀ c, s'.call = some c → s'.allowMigration c.group = false ∧ c.Sound sp) :
    PreventInv sp s' where
  forbidden := hforbidden
  callForbids c hc := (hcall c hc).1
  listed := hlisted
  callSound c hc := (hcall c hc).2
  settled r n a h := by
    rw [hpages]
    exact (hinv.settled r n a h).imp_right (hdue r n a h)
  threads t := by
    have hk : PreventState.Keeps sp s s' := ⟨fun r n a h _ => hdue r n a h, hclosed⟩
    rw [hthreads]
    exact (hinv.threads t).keep hk fun block h => by rw [hlocks, h]

private theorem setPolicy_keeps (hinv : PreventInv sp s) (group : ℕ) (allow : Bool) :
    PreventInv sp (PreventState.step sp s (.setPolicy group allow)) := by
  cases hcall : s.call with
  | some c => simpa [PreventState.step, hcall] using hinv
  | none =>
    have hpend : ∀ {r n a}, s.Pending r n a → r.start ∈ s.migratedRanges r.val := by
      intro r n a h
      simpa [PreventState.Pending, hcall] using h
    cases allow with
    | true =>
      simp only [PreventState.step, hcall, Option.isSome_none, Bool.false_eq_true, if_false]
      -- what stays prevented is another group
      have hprev : ∀ g, update s.prevented group false g = true →
          g ≠ group ∧ s.prevented g = true := by
        intro g h
        by_cases hg : g = group
        · simp [hg] at h
        · exact ⟨hg, by simpa [hg] using h⟩
      refine control_keeps hinv rfl rfl rfl ?_ ?_ ?_ hinv.listed ?_
      · intro r n a _ hdue
        refine ⟨?_, by simpa [PreventState.Pending, hcall] using hpend hdue.2⟩
        by_contra hp
        have := (hprev r.val (by simpa using hp)).2
        rw [hdue.1] at this
        cases this
      · intro g h
        rcases h with h | ⟨c, hc, -⟩
        · exact Or.inl (hprev g h).2
        · simp at hc
      · intro g h
        obtain ⟨hg, hp⟩ := hprev g h
        simpa [hg] using hinv.forbidden g hp
      · intro c hc
        simp at hc
    | false =>
      simp only [PreventState.step, hcall, Option.isSome_none, Bool.false_eq_true, if_false]
      have hallow : ∀ g, s.allowMigration g = false →
          update s.allowMigration group false g = false := by
        intro g h
        by_cases hg : g = group
        · simp [hg]
        · simpa [hg] using h
      refine control_keeps hinv rfl rfl rfl ?_ ?_ ?_ hinv.listed ?_
      · intro r n a _ hdue
        refine ⟨hdue.1, ?_⟩
        simp only [PreventState.Pending, PolicyCall.Holds, ite_self]
        exact hpend hdue.2
      · intro g h
        rcases h with h | ⟨c, hc, -, hphase⟩
        · exact Or.inl h
        · cases hc
          exact absurd rfl hphase
      · intro g h
        exact hallow g (hinv.forbidden g h)
      · intro c hc
        cases hc
        exact ⟨by simp, trivial⟩

private theorem drain_keeps (hinv : PreventInv sp s) (hcall : s.call = some ⟨group, .flagged⟩)
    (hquiet : s.Quiet sp group) : PreventInv sp (s.takeList group) := by
  have hdue : ∀ r n a, s.Due r n a → (s.takeList group).Due r n a := by
    intro r n a hdue
    refine ⟨hdue.1, ?_⟩
    have hp := hdue.2
    simp only [PreventState.Pending, hcall, PolicyCall.Holds, ite_self] at hp
    simp only [PreventState.takeList, PreventState.Pending]
    split
    · rename_i hg
      left
      rw [hg]
      exact hp
    · rename_i hg
      simpa [Ne.symm hg] using hp
  have hclosed : ∀ g, g ≠ group → (s.takeList group).Closed g → s.Closed g := by
    intro g hg h
    rcases h with h | ⟨c, hc, hcg, -⟩
    · exact Or.inl h
    · cases hc
      exact absurd hcg.symm hg
  refine ⟨hinv.forbidden, ?_, ?_, ?_, ?_, ?_⟩
  · intro c hc
    cases hc
    exact hinv.callForbids ⟨group, .flagged⟩ hcall
  · intro g start h
    by_cases hg : g = group
    · simp [PreventState.takeList, hg] at h
    · exact hinv.listed g start (by simpa [PreventState.takeList, hg] using h)
  · intro c hc
    cases hc
    refine ⟨?_, by simp⟩
    simpa using hinv.listed group
  · intro r n a h
    exact (hinv.settled r n a h).imp_right (hdue r n a)
  · intro t
    obtain ⟨htodo, hadds⟩ := hquiet t
    have hsound := hinv.threads t
    change (s.takeList group).ThreadSound sp t (s.threads t)
    refine ⟨?_, ?_⟩
    · intro sec hsec a ha r hr hra hc
      exact hsound.1 sec hsec a ha r hr hra (hclosed _ (htodo sec hsec a ha r hr hra) hc)
    · cases hth : s.threads t with
      | idle => trivial
      | tested todo => trivial
      | inBlock block adds touched after todo =>
        rw [hth] at hsound hadds
        obtain ⟨hlocked, hofGroup, hsettles⟩ := hsound.2
        refine ⟨hlocked, hofGroup, fun a ha => ?_⟩
        obtain ⟨n, hn, hblock, hr⟩ := hsettles a ha
        refine ⟨n, hn, hblock, fun r hrm hra => ?_⟩
        rcases hr r hrm hra with (hat | hd) | ⟨hopen, q, hq, hstart, hid⟩
        · exact Or.inl (Or.inl hat)
        · exact Or.inl (Or.inr (hdue r n a hd))
        · by_cases hg : r.val = group
          · -- what is still to be listed is on the list that the call takes
            refine Or.inl (Or.inr (hdue r n a ⟨?_, ?_⟩))
            · by_contra hp
              exact hopen (Or.inl (by simpa using hp))
            · have := hadds q hq (hid.trans hg)
              simp only [PreventState.Pending, hcall, PolicyCall.Holds, ite_self]
              rw [hg, ← hstart]
              exact this
          · exact Or.inr ⟨fun hc => hopen (hclosed _ hg hc), q, hq, hstart, hid⟩

private theorem next_keeps (hinv : PreventInv sp s) (hcall : s.call = some c) :
    PreventInv sp (s.callStep sp c .next) := by
  obtain ⟨group, phase⟩ := c
  have hforbids : s.allowMigration group = false := hinv.callForbids _ hcall
  cases phase with
  | flagged => exact hinv
  | failing current localRanges => exact hinv
  | draining current tasks localRanges =>
    have hsound := hinv.callSound _ hcall
    cases tasks with
    | cons task tasks => exact hinv
    | nil =>
      cases localRanges with
      | nil =>
        simp only [PreventState.callStep]
        -- a page that is due is in another group
        have hother : ∀ r n a, s.Due r n a → r.val ≠ group ∧ r.start ∈ s.migratedRanges r.val := by
          intro r n a hdue
          have hp := hdue.2
          simp only [PreventState.Pending, hcall, PolicyCall.Holds, List.not_mem_nil, false_and,
            exists_false, and_false, or_self] at hp
          split at hp
          · exact hp.elim
          · rename_i hg
            exact ⟨Ne.symm hg, hp⟩
        have hclosed : s.Closed group := Or.inr ⟨_, hcall, rfl, by simp⟩
        refine control_keeps hinv rfl rfl rfl ?_ ?_ ?_ hinv.listed ?_
        · intro r n a _ hdue
          obtain ⟨hg, hp⟩ := hother r n a hdue
          exact ⟨by simpa [hg] using hdue.1, hp⟩
        · intro g h
          by_cases hg : g = group
          · rw [hg]
            exact hclosed
          · rcases h with h | ⟨c, hc, -⟩
            · exact Or.inl (by simpa [hg] using h)
            · cases hc
        · intro g h
          by_cases hg : g = group
          · rw [hg]
            exact hforbids
          · exact hinv.forbidden g (by simpa [hg] using h)
        · intro c hc
          cases hc
      | cons start rest =>
        simp only [PreventState.callStep]
        refine control_keeps hinv rfl rfl rfl ?_ ?_ hinv.forbidden hinv.listed ?_
        · intro r n a hat hdue
          refine ⟨hdue.1, ?_⟩
          have hp := hdue.2
          simp only [PreventState.Pending, hcall, PolicyCall.Holds] at hp ⊢
          split at hp
          · rename_i hg
            rw [if_pos hg]
            simp only [List.mem_cons, List.not_mem_nil, false_and, exists_false, and_false,
              or_false] at hp
            rcases hp with hp | hp
            · -- the range group range that the call turns to
              right
              refine ⟨by rw [hp], ?_⟩
              rw [← hp]
              obtain ⟨hn, hna⟩ := (lookup_eq_some sp.ordered).mp hat.range
              exact exists_rangeTasks hat.group hat.inGroup hn hna
            · exact Or.inl hp
          · rename_i hg
            rw [if_neg hg]
            exact hp
        · intro g h
          rcases h with h | ⟨c, hc, hcg, -⟩
          · exact Or.inl h
          · cases hc
            exact Or.inr ⟨_, hcall, hcg, by simp⟩
        · intro c hc
          cases hc
          refine ⟨hforbids, fun x hx => hsound.1 x ?_, rangeTasks_sound sp start⟩
          rw [List.mem_append]
          right
          simpa using hx

private theorem putBack_keeps (hinv : PreventInv sp s) (hcall : s.call = some c) :
    PreventInv sp (s.callStep sp c .putBack) := by
  obtain ⟨group, phase⟩ := c
  cases phase with
  | flagged => exact hinv
  | draining current tasks localRanges => exact hinv
  | failing current localRanges =>
    have hsound : ∀ start ∈ current :: localRanges, sp.OfGroup group start :=
      hinv.callSound _ hcall
    simp only [PreventState.callStep]
    refine control_keeps hinv rfl rfl rfl ?_ ?_ hinv.forbidden ?_ ?_
    · intro r n a _ hdue
      refine ⟨hdue.1, ?_⟩
      have hp := hdue.2
      simp only [PreventState.Pending, hcall] at hp ⊢
      split at hp
      · rename_i hg
        rw [← hg, update_self]
        rcases List.mem_cons.mp hp with h | h
        · simp [h]
        · simp [h]
      · rename_i hg
        rwa [update_of_ne (Ne.symm hg)]
    · intro g h
      rcases h with h | ⟨c, hc, -⟩
      · exact Or.inl h
      · cases hc
    · intro g start h
      by_cases hg : g = group
      · subst hg
        simp only [update_self] at h
        rcases List.mem_append.mp h with h | h
        · rcases List.mem_append.mp h with h | h
          · exact hinv.listed g start (List.mem_of_mem_erase h)
          · exact hsound start (by simp [List.mem_singleton.mp h])
        · exact hsound start (by simp [h])
      · exact hinv.listed g start (by simpa [hg] using h)
    · intro c hc
      cases hc

/-- **A task of the call**: it leaves pages at their preferred location there, and a page that it covers is
there when it succeeds, or covered by what it leaves to do. -/
private structure TaskSpec (s : PreventState) (sp : GroupSpace) (task : PolicyTask)
    (status : NvStatus) (more : List PolicyTask) (pages : ℕ → PageState) : Prop where
  sound : ∀ task' ∈ more, task'.Sound sp
  keeps : ∀ n a, lookup sp.ranges a = some n → (s.pages a).AtPreferred n → (pages a).AtPreferred n
  covers : ∀ n a, lookup sp.ranges a = some n → task.Covers n a → status = .ok →
    (∃ task' ∈ more, task'.Covers n a) ∨ (s.lockOf n a = none ∧ (pages a).AtPreferred n)

private theorem migratedPage_keeps {dest : ProcessorId}
    (hpref : n.val.preferredLocation = some dest)
    (hmoves : ¬ (n.val.readDuplication = .enabled ∧ sp.canReadDuplicate = true)) {arrived : Bool}
    {p : PageState} (h : arrived = true ∨ p.AtPreferred n) :
    (PreventState.migratedPage sp n dest arrived p).AtPreferred n := by
  refine ⟨dest, hpref, ?_, rfl⟩
  cases arrived with
  | true => simp [PreventState.migratedPage, hmoves]
  | false =>
    obtain ⟨id, hid, hres, -⟩ := h.resolve_left (by simp)
    rw [hpref] at hid
    cases hid
    simpa [PreventState.migratedPage] using hres

private theorem runTask_spec {io : PolicyInput} {create status : NvStatus} {arrived : ℕ → Bool}
    {task : PolicyTask} (hsound : task.Sound sp) (hmoves : task.Moves sp)
    {r : NvStatus × List PolicyTask × (ℕ → PageState)}
    (hr : s.runTask sp io create arrived status task = some r) :
    TaskSpec s sp task r.1 r.2.1 r.2.2 := by
  cases task with
  | wait =>
    cases hr
    exact ⟨by simp, fun _ _ _ h => h, fun _ _ _ h => h.elim⟩
  | range n start last =>
    obtain ⟨hn, hlo, hhi⟩ := hsound
    cases hpref : n.val.preferredLocation with
    | none =>
      simp only [PreventState.runTask, hpref] at hr
      cases hr
      refine ⟨by simp, fun _ _ _ h => h, fun _ _ _ _ hok => ?_⟩
      simp [VaSpace.preventRange, hpref] at hok
    | some dest =>
      simp only [PreventState.runTask, hpref] at hr
      cases hr
      refine ⟨migrateTasks_sound hn hpref hlo hhi, fun _ _ _ h => h, ?_⟩
      rintro n' a hlook ⟨rfl, ha₁, ha₂⟩ -
      exact Or.inl (exists_migrateTasks dest ((lookup_eq_some sp.ordered).mp hlook).2 ha₁ ha₂)
  | block n dest index start last =>
    obtain ⟨hn, hpref, hlo, hhi⟩ := hsound
    simp only [PreventState.runTask] at hr
    split at hr
    · rename_i hcreate
      cases hr
      exact ⟨by simp, fun _ _ _ h => h, fun _ _ _ _ hok => absurd hok hcreate⟩
    · split at hr
      · cases hr
      · rename_i hfree
        cases hr
        refine ⟨by simp, ?_, ?_⟩
        · intro n' a hlook hat
          dsimp only
          split
          · rename_i ha
            -- the page is in the range of the task
            have hna : n.Contains a := ⟨hlo.trans ha.1, ha.2.trans hhi⟩
            rw [(lookup_eq_some sp.ordered).mpr ⟨hn, hna⟩] at hlook
            cases hlook
            exact migratedPage_keeps hpref hmoves (Or.inr hat)
          · exact hat
        · rintro n' a hlook ⟨rfl, rfl, ha⟩ hok
          right
          refine ⟨by simpa [PreventState.lockOf, VaRangeNode.blockOf] using hfree, ?_⟩
          dsimp only at hok ⊢
          rw [if_pos ha]
          exact migratedPage_keeps hpref hmoves (Or.inl (by simp [hok]))

private theorem work_keeps (hinv : PreventInv sp s) {phase phase' : CallPhase}
    (hcall : s.call = some ⟨group, phase⟩) (hphase : phase ≠ .flagged)
    (hsound : PolicyCall.Sound ⟨group, phase'⟩ sp) {pages : ℕ → PageState}
    (hkeep : ∀ n a, lookup sp.ranges a = some n → (s.pages a).AtPreferred n →
      (pages a).AtPreferred n) (hhold : ∀ (r : Lib.Interval ℕ) n a, sp.PageAt r n a →
      PolicyCall.Holds ⟨group, phase⟩ (s.migratedRanges r.val) r n a →
      PolicyCall.Holds ⟨group, phase'⟩ (s.migratedRanges r.val) r n a ∨
        (s.lockOf n a = none ∧ (pages a).AtPreferred n)) :
    PreventInv sp { s with pages := pages, call := some ⟨group, phase'⟩ } := by
  have hdue : ∀ r n a, sp.PageAt r n a → s.Due r n a →
      PreventState.Due { s with pages := pages, call := some ⟨group, phase'⟩ } r n a ∨
        (s.lockOf n a = none ∧ (pages a).AtPreferred n) := by
    intro r n a hat hdue
    have hp := hdue.2
    simp only [PreventState.Due, PreventState.Pending, hcall] at hp ⊢
    split at hp
    · rename_i hg
      rw [if_pos hg]
      exact (hhold r n a hat hp).imp_left fun h => ⟨hdue.1, h⟩
    · rename_i hg
      rw [if_neg hg]
      exact Or.inl ⟨hdue.1, hp⟩
  have hk : PreventState.Keeps sp s { s with pages := pages, call := some ⟨group, phase'⟩ } := by
    refine ⟨fun r n a hat hlocked h => ?_, fun g h => ?_⟩
    · rcases hdue r n a hat h with h' | ⟨hfree, -⟩
      · exact h'
      · rw [hfree] at hlocked
        cases hlocked
    · rcases h with h | ⟨c, hc, hcg, -⟩
      · exact Or.inl h
      · cases hc
        exact Or.inr ⟨_, hcall, hcg, hphase⟩
  refine ⟨hinv.forbidden, ?_, hinv.listed, ?_, ?_, ?_⟩
  · intro c hc
    cases hc
    exact hinv.callForbids ⟨group, phase⟩ hcall
  · intro c hc
    cases hc
    exact hsound
  · intro r n a hat
    rcases hinv.settled r n a hat with h | h
    · exact Or.inl (hkeep n a hat.range h)
    · rcases hdue r n a hat h with h' | ⟨-, h'⟩
      · exact Or.inr h'
      · exact Or.inl h'
  · intro t
    exact (hinv.threads t).keep hk fun _ h => h

private theorem task_keeps (hinv : PreventInv sp s) (hcall : s.call = some c)
    (hmoves : s.TaskMoves sp) (io : PolicyInput) (create : NvStatus) (arrived : ℕ → Bool)
    (status : NvStatus) : PreventInv sp (s.callStep sp c (.task io create arrived status)) := by
  obtain ⟨group, phase⟩ := c
  cases phase with
  | flagged => exact hinv
  | failing current localRanges => exact hinv
  | draining current tasks localRanges =>
    cases current with
    | none => exact hinv
    | some current =>
      cases tasks with
      | nil => exact hinv
      | cons task tasks =>
        obtain ⟨hofGroup, htasks⟩ := hinv.callSound _ hcall
        simp only [PreventState.callStep]
        cases hr : s.runTask sp io create arrived status task with
        | none => exact hinv
        | some r =>
          have hspec := runTask_spec (htasks task (by simp)) (hmoves _ _ _ _ _ hcall) hr
          by_cases hok : r.1 = .ok
          · simp only [hok]
            have hsound : PolicyCall.Sound
                ⟨group, .draining (some current) (r.2.1 ++ tasks) localRanges⟩ sp := by
              refine ⟨hofGroup, fun task' h => ?_⟩
              rcases List.mem_append.mp h with h | h
              · exact hspec.sound task' h
              · exact htasks task' (by simp [h])
            refine work_keeps hinv hcall (by simp) hsound hspec.keeps ?_
            rintro r' n a hat (h | ⟨hcur, task', htask', hcov⟩)
            · exact Or.inl (Or.inl h)
            · rcases List.mem_cons.mp htask' with rfl | h
              · -- the task that was run
                refine (hspec.covers n a hat.range hcov hok).imp_left fun hmore => ?_
                obtain ⟨task'', hmem, hcov'⟩ := hmore
                exact Or.inr ⟨hcur, task'', List.mem_append_left _ hmem, hcov'⟩
              · exact Or.inl (Or.inr ⟨hcur, task', List.mem_append_right _ h, hcov⟩)
          · simp only [hok]
            have hsound : PolicyCall.Sound ⟨group, .failing current localRanges⟩ sp := by
              simpa [PolicyCall.Sound] using hofGroup
            refine work_keeps hinv hcall (by simp) hsound hspec.keeps ?_
            rintro r' n a hat (h | ⟨hcur, -⟩)
            · exact Or.inl (List.mem_cons_of_mem _ h)
            · cases hcur
              exact Or.inl (by simp [PolicyCall.Holds])

/-! ## The steps of the threads -/

private theorem thread_keeps (hinv : PreventInv sp s) {t : ℕ}
    (hallow : s'.allowMigration = s.allowMigration) (hcall : s'.call = s.call)
    (hlists : s'.migratedRanges = s.migratedRanges) (hprevented : s'.prevented = s.prevented)
    (hsettled : ∀ r n a, sp.PageAt r n a → s.Settled r n a (s'.pages a))
    (hother : ∀ t', t' ≠ t → s'.threads t' = s.threads t')
    (hlock : ∀ t', t' ≠ t → ∀ block, s.locks block = some t' → s'.locks block = some t')
    (hself : s'.ThreadSound sp t (s'.threads t)) : PreventInv sp s' where
  forbidden g h := by
    rw [hprevented] at h
    rw [hallow]
    exact hinv.forbidden g h
  callForbids c h := by
    rw [hcall] at h
    rw [hallow]
    exact hinv.callForbids c h
  listed := by
    rw [hlists]
    exact hinv.listed
  callSound c h := hinv.callSound c (hcall ▸ h)
  settled r n a h := by
    refine (hsettled r n a h).imp_right fun hdue => ?_
    simpa only [PreventState.Due, PreventState.Pending, hcall, hlists, hprevented] using hdue
  threads := PreventState.threads_keep (.of_eq hcall hlists hprevented) hinv hother hlock hself

private theorem migrateTest_keeps (hinv : PreventInv sp s) (t : ℕ) (todo : List BlockSection) :
    PreventInv sp (PreventState.step sp s (.migrateTest t todo)) := by
  simp only [PreventState.step]
  split
  · split
    · rename_i htest
      refine thread_keeps (t := t) hinv rfl rfl rfl rfl hinv.settled ?_ (fun _ _ _ h => h) ?_
      · intro t' h
        simp [h]
      · simp only [update_self]
        refine ⟨fun sec hsec a ha r hr hra => ?_, trivial⟩
        have := List.all_eq_true.mp (List.all_eq_true.mp htest sec hsec) a ha
        exact hinv.open_of_migratable hr hra this
    · exact hinv
  · exact hinv

private theorem touched_mem (hn : n.Contains sec.addr) (hwithin : sec.within n = true)
    (ha : a ∈ sec.touched) :
    n.Contains a ∧ VaRangeNode.blockOf n a = VaRangeNode.blockOf n sec.addr := by
  have h := List.all_eq_true.mp (Bool.and_eq_true_iff.mp hwithin).2 a ha
  obtain ⟨hlo, hhi⟩ := of_decide_eq_true h
  obtain ⟨hc, hidx⟩ := index_of_block (VaRangeNode.vaRange n) hn hlo hhi
  refine ⟨hc, ?_⟩
  unfold VaRangeNode.blockOf
  rw [hidx]

/-- **A section begins.**  Its pages will be settled if it lists what it moves, and moves no page that is
where it belongs out of a closed group. -/
private theorem enter_keeps (hinv : PreventInv sp s) (t : ℕ) {todo : List BlockSection}
    (htodo : s.TodoSound sp todo) (hlists : s.ListsMoved sp sec)
    (hopen : ∀ n, lookup sp.ranges sec.addr = some n → ∀ a ∈ sec.touched,
      ∀ r ∈ sp.groupRanges, r.Contains a → (s.pages a).AtPreferred n →
      ¬ (sec.after n s.pages a).AtPreferred n → ¬ s.Closed r.val) :
    PreventInv sp (s.enter sp t sec todo) := by
  unfold PreventState.enter
  split
  · exact hinv
  · rename_i n hlook
    obtain ⟨hn, hna⟩ := (lookup_eq_some sp.ordered).mp hlook
    dsimp only
    split
    · exact hinv
    · rename_i hcond
      obtain ⟨hfree, hwithin⟩ : s.locks (VaRangeNode.blockOf n sec.addr) = none ∧
          sec.within n = true := by
        simpa [VaRangeNode.blockOf] using hcond
      refine thread_keeps (t := t) hinv rfl rfl rfl rfl hinv.settled ?_ ?_ ?_
      · intro t' h
        simp [h]
      · intro t' _ block hblock
        have hne : block ≠ VaRangeNode.blockOf n sec.addr := by
          rintro rfl
          rw [hfree] at hblock
          cases hblock
        exact (update_of_ne hne _ _).trans hblock
      · simp only [update_self]
        refine ⟨htodo, update_self _ _ _, ?_, ?_⟩
        · intro q hq
          obtain ⟨r, hr, rfl⟩ :=
            PreventState.mem_tree.mp (BlockSection.listed_subset (s.tree_ordered sp) hq)
          exact sp.ofGroup_start hr
        · intro a ha
          obtain ⟨hnc, hblock⟩ := touched_mem hna hwithin ha
          refine ⟨n, (lookup_eq_some sp.ordered).mpr ⟨hn, hnc⟩, hblock.symm, fun r hr hra => ?_⟩
          rcases hinv.settled r n a ⟨hr, hra, (lookup_eq_some sp.ordered).mpr ⟨hn, hnc⟩⟩ with h | h
          · by_cases hat : (sec.after n s.pages a).AtPreferred n
            · exact Or.inl (Or.inl hat)
            · -- the page leaves, and its range group range is listed
              have hq := PreventState.mem_tree (s := s).mpr ⟨r, hr, rfl⟩
              have hl := hlists n hlook a ha _ hq hra h hat
              exact Or.inr ⟨hopen n hlook a ha r hr hra h hat, _,
                BlockSection.mem_listed (s.tree_ordered sp) hwithin hq hra hl, rfl, rfl⟩
          · exact Or.inl (Or.inr h)

private theorem open_of_touched (hinv : PreventInv sp s)
    (htest : (sec.touched.all fun a => s.migratable sp a) = true) (ha : a ∈ sec.touched)
    (hr : r ∈ sp.groupRanges) (hra : r.Contains a) : ¬ s.Closed r.val :=
  hinv.open_of_migratable hr hra (List.all_eq_true.mp htest a ha)

private theorem lockBlock_keeps (hinv : PreventInv sp s) (t : ℕ)
    (hlists : ∀ sec todo, s.threads t = .tested (sec :: todo) → s.ListsMoved sp sec) :
    PreventInv sp (PreventState.step sp s (.lockBlock t)) := by
  have hsound := hinv.threads t
  simp only [PreventState.step]
  split
  · rename_i sec todo hth
    rw [hth] at hsound
    have htodo : s.TodoSound sp todo := fun sec' h => hsound.1 sec' (List.mem_cons_of_mem _ h)
    refine enter_keeps hinv t htodo (hlists sec todo hth) ?_
    intro n _ a ha r hr hra _ _
    exact hsound.1 sec (List.mem_cons_self ..) a ha r hr hra
  · refine thread_keeps (t := t) hinv rfl rfl rfl rfl hinv.settled ?_ (fun _ _ _ h => h) ?_
    · intro t' h
      simp [h]
    · simp only [update_self]
      exact ⟨fun sec h => absurd h (List.not_mem_nil), trivial⟩
  · exact hinv

private theorem cpuFault_keeps (hinv : PreventInv sp s) (t : ℕ) (hlists : s.ListsMoved sp sec) :
    PreventInv sp (PreventState.step sp s (.cpuFault t sec)) := by
  simp only [PreventState.step]
  split
  · split
    · rename_i htest
      refine enter_keeps hinv t (fun sec h => absurd h (List.not_mem_nil)) hlists ?_
      intro n _ a ha r hr hra _ _
      exact open_of_touched hinv htest ha hr hra
    · exact hinv
  · exact hinv

private theorem gpuFault_keepsInv (hinv : PreventInv sp s) (t : ℕ) {gpu : ProcessorId}
    {hints : ℕ → FaultHint} (hlists : s.ListsMoved sp sec) (hhints : s.HintsKeep sp gpu hints sec) :
    PreventInv sp (PreventState.step sp s (.gpuFault t gpu hints sec)) := by
  simp only [PreventState.step]
  split
  · rename_i n _ hlook
    split
    · rename_i hcond
      obtain ⟨hmap, hgpu, hmoves⟩ := hcond
      refine enter_keeps hinv t (fun sec h => absurd h (List.not_mem_nil)) hlists ?_
      intro n' hlook' a ha r hr hra hat haway
      rw [hlook] at hlook'
      cases hlook'
      cases hm : s.migratable sp a with
      | true => exact hinv.open_of_migratable hr hra hm
      | false => exact absurd (gpuFault_keeps hgpu hmap hmoves hm hat (hhints n hlook a ha hm hat)) haway
    · exact hinv
  · exact hinv

private theorem due_of_listed (hopen : ¬ s.Closed r.val) (h : r.start ∈ s.migratedRanges r.val)
    (n : VaRangeNode) (a : ℕ) : s.Due r n a := by
  constructor
  · by_contra hp
    exact hopen (Or.inl (by simpa using hp))
  · unfold PreventState.Pending
    cases hcall : s.call with
    | none => exact h
    | some c =>
      dsimp only
      split
      · rename_i hg
        obtain ⟨group, phase⟩ := c
        cases phase with
        | flagged => exact h
        | draining current tasks localRanges =>
          exact absurd (Or.inr ⟨_, hcall, hg, by simp⟩) hopen
        | failing current localRanges => exact absurd (Or.inr ⟨_, hcall, hg, by simp⟩) hopen
      · exact h

private theorem closed_of_local (hinv : PreventInv sp s) (hcall : s.call = some c)
    (hr : r ∈ sp.groupRanges) (h : r.start ∈ c.localRanges) : s.Closed r.val := by
  obtain ⟨group, phase⟩ := c
  have hsound := hinv.callSound _ hcall
  cases phase with
  | flagged => simp [PolicyCall.localRanges] at h
  | draining current tasks localRanges =>
    have hg := hsound.1 r.start (List.mem_append_right _ h) r hr rfl
    exact Or.inr ⟨_, hcall, hg.symm, by simp⟩
  | failing current localRanges =>
    have hg := hsound r.start (List.mem_cons_of_mem _ h) r hr rfl
    exact Or.inr ⟨_, hcall, hg.symm, by simp⟩

private theorem addMigrated_spec (s : PreventState) (q : RangeGroupRange) :
    ∃ lists, s.addMigrated q = { s with migratedRanges := lists } ∧ ∀ g start,
      start ∈ lists g ↔
        start ∈ s.migratedRanges g ∨ (s.isListed q = false ∧ g = q.val.id ∧ start = q.start) := by
  unfold PreventState.addMigrated
  split
  · rename_i h
    exact ⟨s.migratedRanges, rfl, by simp [h]⟩
  · rename_i h
    refine ⟨_, rfl, fun g start => ?_⟩
    by_cases hg : g = q.val.id
    · simp [hg, Bool.eq_false_iff.mpr h]
    · simp [hg]

private theorem due_of_grown (hcall : s'.call = s.call) (hprevented : s'.prevented = s.prevented)
    (hlists : ∀ g start, start ∈ s.migratedRanges g → start ∈ s'.migratedRanges g)
    (h : s.Due r n a) : s'.Due r n a := by
  refine ⟨hprevented ▸ h.1, ?_⟩
  have hp := h.2
  simp only [PreventState.Pending, hcall] at hp ⊢
  cases hc : s.call with
  | none =>
    simp only [hc] at hp
    exact hlists _ _ hp
  | some c =>
    simp only [hc] at hp ⊢
    split at hp
    · rename_i hg
      rw [if_pos hg]
      -- only a call that has not taken the list looks at it
      cases hphase : c.phase with
      | flagged =>
        simp only [PolicyCall.Holds, hphase] at hp ⊢
        exact hlists _ _ hp
      | draining current tasks localRanges => simpa only [PolicyCall.Holds, hphase] using hp
      | failing current localRanges => simpa only [PolicyCall.Holds, hphase] using hp
    · rename_i hg
      rw [if_neg hg]
      exact hlists _ _ hp

private theorem addRange_keeps (hinv : PreventInv sp s) (t : ℕ) :
    PreventInv sp (PreventState.step sp s (.addRange t)) := by
  have hsound := hinv.threads t
  simp only [PreventState.step]
  split
  · rename_i block q adds touched after todo hth
    rw [hth] at hsound
    obtain ⟨htodo, hlocked, hofGroup, hsettles⟩ := hsound
    obtain ⟨lists, heq, hlists⟩ := addMigrated_spec s q
    simp only [heq]
    have hmem : ∀ {g start}, start ∈ s.migratedRanges g → start ∈ lists g :=
      fun h => (hlists _ _).mpr (Or.inl h)
    generalize hs' : ({ s with
      migratedRanges := lists
      threads := update s.threads t (.inBlock block adds touched after todo) } :
        PreventState) = s'
    have hcall : s'.call = s.call := by subst hs'; rfl
    have hprevented : s'.prevented = s.prevented := by subst hs'; rfl
    have hlists' : s'.migratedRanges = lists := by subst hs'; rfl
    have hthreads : s'.threads = update s.threads t (.inBlock block adds touched after todo) := by
      subst hs'
      rfl
    have hlocks : s'.locks = s.locks := by subst hs'; rfl
    have hpages : s'.pages = s.pages := by subst hs'; rfl
    have hallow : s'.allowMigration = s.allowMigration := by subst hs'; rfl
    have hclosed : ∀ g, s'.Closed g ↔ s.Closed g := by
      intro g
      simp only [PreventState.Closed, hcall, hprevented]
    have hdue : ∀ r n a, s.Due r n a → s'.Due r n a := fun r n a =>
      due_of_grown hcall hprevented fun g start h => by rw [hlists']; exact hmem h
    have hk : PreventState.Keeps sp s s' :=
      ⟨fun r n a _ _ => hdue r n a, fun g => (hclosed g).mp⟩
    refine ⟨?_, ?_, ?_, ?_, ?_, ?_⟩
    · rw [hprevented, hallow]
      exact hinv.forbidden
    · rw [hcall, hallow]
      exact hinv.callForbids
    · intro g start h
      rw [hlists'] at h
      rcases (hlists g start).mp h with h | ⟨-, rfl, rfl⟩
      · exact hinv.listed g start h
      · exact hofGroup q (by simp)
    · rw [hcall]
      exact hinv.callSound
    · intro r n a hat
      rw [hpages]
      exact (hinv.settled r n a hat).imp_right (hdue r n a)
    · refine PreventState.threads_keep (t := t) hk hinv ?_ (fun _ _ _ h => by rw [hlocks, h]) ?_
      · intro t' h
        simp [hthreads, h]
      · rw [hthreads, update_self]
        refine ⟨htodo.keep hk, by rw [hlocks, hlocked], fun q' h => hofGroup q' (by simp [h]), ?_⟩
        intro a ha
        obtain ⟨n, hn, hblock, hr⟩ := hsettles a ha
        refine ⟨n, hn, hblock, fun r hrm hra => ?_⟩
        rcases hr r hrm hra with h | ⟨hopen, q', hq', hstart, hid⟩
        · exact Or.inl (h.imp_right (hdue r n a))
        · rcases List.mem_cons.mp hq' with rfl | h
          · -- the range group range that is listed now
            have hopen' : ¬ s'.Closed r.val := fun hc => hopen ((hclosed _).mp hc)
            refine Or.inl (Or.inr (due_of_listed hopen' ?_ n a))
            rw [hlists', hlists]
            by_cases hlisted : s.isListed q' = true
            · left
              rcases Bool.or_eq_true_iff.mp hlisted with h | h
              · rw [← hid, ← hstart]
                simpa using h
              · cases hc : s.call with
                | none => simp [hc] at h
                | some c =>
                  rw [hc, Option.any_some, List.contains_iff_mem, hstart] at h
                  exact absurd (closed_of_local hinv hc hrm h) hopen
            · exact Or.inr ⟨by simpa using hlisted, hid.symm, hstart.symm⟩
          · exact Or.inr ⟨fun hc => hopen ((hclosed _).mp hc), q', h, hstart, hid⟩
  · exact hinv

private theorem unlock_keeps (hinv : PreventInv sp s) (t : ℕ) :
    PreventInv sp (PreventState.step sp s (.unlock t)) := by
  have hsound := hinv.threads t
  simp only [PreventState.step]
  split
  · rename_i block touched after todo hth
    rw [hth] at hsound
    obtain ⟨htodo, hlocked, -, hsettles⟩ := hsound
    refine thread_keeps (t := t) hinv rfl rfl rfl rfl ?_ ?_ ?_ ?_
    · intro r n a hat
      dsimp only
      split
      · rename_i ha
        obtain ⟨n', hn', -, h⟩ := hsettles a ha
        rw [hat.range] at hn'
        cases hn'
        rcases h r hat.group hat.inGroup with h | ⟨-, q, hq, -⟩
        · exact h
        · simp at hq
      · exact hinv.settled r n a hat
    · intro t' h
      simp [h]
    · intro t' hne block' hblock'
      have : block' ≠ block := by
        rintro rfl
        rw [hlocked] at hblock'
        exact hne (Option.some.inj hblock').symm
      exact (update_of_ne this _ _).trans hblock'
    · simp only [update_self]
      exact ⟨htodo, trivial⟩
  · exact hinv

/-! ## The run -/

theorem step_keeps (hinv : PreventInv sp s) {op : PreventOp} (hmeets : s.Meets sp op) :
    PreventInv sp (PreventState.step sp s op) := by
  have hcallStep : ∀ op, (∀ c, s.call = some c → PreventInv sp (s.callStep sp c op)) →
      PreventInv sp (s.call.elim s fun c => s.callStep sp c op) := by
    intro op h
    cases hcall : s.call with
    | none => exact hinv
    | some c => exact h c hcall
  cases op with
  | setPolicy group allow => exact setPolicy_keeps hinv group allow
  | drain =>
    refine hcallStep _ fun c hcall => ?_
    obtain ⟨group, phase⟩ := c
    cases phase with
    | flagged => exact drain_keeps hinv hcall (hmeets _ hcall)
    | draining current tasks localRanges => exact hinv
    | failing current localRanges => exact hinv
  | next => exact hcallStep _ fun c => next_keeps hinv
  | task io create arrived status =>
    exact hcallStep _ fun c hcall => task_keeps hinv hcall hmeets io create arrived status
  | putBack => exact hcallStep _ fun c => putBack_keeps hinv
  | migrateTest t todo => exact migrateTest_keeps hinv t todo
  | lockBlock t => exact lockBlock_keeps hinv t hmeets
  | cpuFault t sec => exact cpuFault_keeps hinv t hmeets
  | gpuFault t gpu hints sec => exact gpuFault_keepsInv hinv t hmeets.1 hmeets.2
  | addRange t => exact addRange_keeps hinv t
  | unlock t => exact unlock_keeps hinv t

theorem held (hinv : PreventInv sp s) : s.PreventedHeld sp := by
  intro r n a hat hprevented
  rcases hinv.settled r n a hat with h | h
  · exact h
  · rw [h.1] at hprevented
    cases hprevented

theorem of_fresh (hs : s.Fresh sp) : PreventInv sp s where
  forbidden g h := by
    rw [hs.notPrevented g] at h
    cases h
  callForbids c h := by
    rw [hs.noCall] at h
    cases h
  listed := hs.listed
  callSound c h := by
    rw [hs.noCall] at h
    cases h
  settled r n a hat := by
    refine (hs.away r n a hat).imp_right fun h => ⟨hs.notPrevented r.val, ?_⟩
    simpa only [PreventState.Pending, hs.noCall] using h
  threads t := by
    rw [hs.idle t]
    exact ⟨fun sec h => absurd h (List.not_mem_nil), trivial⟩

end PreventInv

/-- **Prevented pages stay where they belong.**  From a state in which the lists hold what is away, and
along every run whose steps meet the condition, every page of a group whose migration a call prevented
is only at the preferred location of its range and has no CPU mapping. -/
theorem preventedHeld_along (sp : GroupSpace) {s : PreventState} (hs : s.Fresh sp)
    {ops : List PreventOp} (hops : StepsMeet (PreventState.step sp) (PreventState.Meets sp) s ops) :
    HoldsAlong (PreventState.step sp) (PreventState.PreventedHeld sp) s ops :=
  holds_along_of_meets _ (PreventInv.of_fresh hs) (fun _ => PreventInv.held)
    (fun _ _ h hc => PreventInv.step_keeps h hc) hops

/-! ## Runs -/

/-- A range whose preferred location is a GPU that cannot fault. -/
def locatedRange : VaRangeNode :=
  { oneMbRange with val := { oneMbRange.val with
      preferredLocation := some 1
      uvmLiteGpus := onlyProcessor 1 } }

def locatedSpace (first : ℕ) (h : first ≤ 3145727) : GroupSpace where
  ranges := [locatedRange]
  groupRanges := [⟨first, 3145727, 7⟩]
  topo := noPeerTopology
  hasNvlinkTo := fun _ _ => false
  canAccess := fun _ _ => false
  hasNativeAtomics := fun _ _ => false
  canReadDuplicate := false
  faultForceSysmem := false
  ordered := by decide
  groupOrdered := ⟨by simpa using h, by simp⟩

/-- Every page at the preferred location, and nothing on the lists. -/
def locatedState : PreventState where
  allowMigration := fun _ => true
  pages := fun _ => ⟨onlyProcessor 1, false⟩
  migratedRanges := fun _ => []
  locks := fun _ => none
  threads := fun _ => .idle
  call := none
  prevented := fun _ => false

/-- A section that moves pages of the first block to system memory. -/
def toSysmem (pages : List ℕ) : BlockSection where
  addr := 2097152
  moves := [⟨cpuId, .move, 2097152, 3145727, pages, true, [⟨1, cpuId, pages.length, pages.length⟩]⟩]
  mapCpu := []

theorem locatedState_fresh (first : ℕ) (h : first ≤ 3145727) :
    locatedState.Fresh (locatedSpace first h) := by
  refine ⟨rfl, fun _ => rfl, fun _ => rfl, fun g start hs => by simp [locatedState] at hs, ?_⟩
  intro r n a hat
  obtain ⟨hn, -⟩ := (lookup_eq_some (locatedSpace first h).ordered).mp hat.range
  obtain rfl := List.mem_singleton.mp hn
  exact Or.inl ⟨1, rfl, rfl, rfl⟩

/-- A page moved away by a CPU fault, and then its group prevented from migrating. -/
def preventAfterFault : List PreventOp :=
  [.cpuFault 0 (toSysmem [2097152]), .addRange 0, .unlock 0, .setPolicy 7 false, .drain, .next,
    .task policyInput .ok (fun _ => true) .ok, .task policyInput .ok (fun _ => true) .ok,
    .task policyInput .ok (fun _ => true) .ok, .next]

/-- The call succeeds with the page back where it belongs. -/
theorem preventedHeld_along_fault :
    (run (PreventState.step (locatedSpace 2097152 (by decide))) locatedState
      preventAfterFault).prevented 7 = true ∧
    HoldsAlong (PreventState.step (locatedSpace 2097152 (by decide)))
      (PreventState.PreventedHeld (locatedSpace 2097152 (by decide))) locatedState
      preventAfterFault := by
  refine ⟨by decide +kernel, ?_⟩
  apply preventedHeld_along _ (locatedState_fresh _ _)
  have htasks : ∀ s : PreventState, s.TaskMoves (locatedSpace 2097152 (by decide)) := by
    intro s _ _ task _ _ _
    cases task with
    | range n start last => trivial
    | block n dest index start last => exact fun h => Bool.false_ne_true h.2
    | wait => trivial
  unfold preventAfterFault
  simp only [stepsMeet_cons]
  refine ⟨?_, trivial, trivial, trivial, ?_, trivial, htasks _, htasks _, htasks _, trivial,
    stepsMeet_nil _ _ _⟩
  · -- the loop over the page finds its range group range
    intro n hn a ha q hq hqa _ _
    obtain ⟨hn, -⟩ := (lookup_eq_some (locatedSpace 2097152 (by decide)).ordered).mp hn
    obtain rfl := List.mem_singleton.mp hn
    obtain ⟨r, hr, rfl⟩ := PreventState.mem_tree.mp hq
    obtain rfl := List.mem_singleton.mp hr
    refine Or.inl ⟨⟨2097152, 3145727, [2097152]⟩, List.mem_singleton.mpr rfl, ?_, ?_⟩
    · exact ⟨2097152, by simp, by decide⟩
    · intro b hb hlt
      obtain rfl := List.mem_singleton.mp hb
      exact absurd hlt (lt_irrefl _)
  · -- nothing is under way when the call takes the list
    intro c hc t
    cases t with
    | zero => exact ⟨fun sec h => absurd h (List.not_mem_nil), fun q h => absurd h (List.not_mem_nil)⟩
    | succ t => exact ⟨fun sec h => absurd h (List.not_mem_nil), fun q h => absurd h (List.not_mem_nil)⟩

/-- A migration tests a page, its group is prevented from migrating, and then the page is moved. -/
def preventBetween : List PreventOp :=
  [.migrateTest 0 [toSysmem [2097152]], .setPolicy 7 false, .drain, .next, .lockBlock 0,
    .addRange 0, .unlock 0]

/-- Two pages move away, the first of them in the gap before the group's range, and then the group is
prevented from migrating. -/
def preventAfterGap : List PreventOp :=
  [.migrateTest 0 [toSysmem [2097152, 2101248]], .lockBlock 0, .unlock 0, .setPolicy 7 false,
    .drain, .next]

/-- **The page is away after `NV_OK`**: in the first run the migration tested the page before the flag
was cleared, in the second one `rgr_has_changed` was cleared at the page in the gap. -/
theorem prevented_page_away : ¬ HoldsAlong (PreventState.step (locatedSpace 2097152 (by decide)))
      (PreventState.PreventedHeld (locatedSpace 2097152 (by decide))) locatedState
      preventBetween ∧
    ¬ HoldsAlong (PreventState.step (locatedSpace 2101248 (by decide)))
      (PreventState.PreventedHeld (locatedSpace 2101248 (by decide))) locatedState
      preventAfterGap := by
  constructor
  · intro h
    obtain ⟨id, hid, hres, -⟩ := h preventBetween (List.prefix_refl _) ⟨2097152, 3145727, 7⟩
      locatedRange 2097152 ⟨by simp [locatedSpace], by decide, by rfl⟩ (by decide +kernel)
    cases hid
    exact absurd (congrFun hres cpuId) (by decide +kernel)
  · intro h
    obtain ⟨id, hid, hres, -⟩ := h preventAfterGap (List.prefix_refl _) ⟨2101248, 3145727, 7⟩
      locatedRange 2101248 ⟨by simp [locatedSpace], by decide, by rfl⟩ (by decide +kernel)
    cases hid
    exact absurd (congrFun hres cpuId) (by decide +kernel)

end NvUvm
