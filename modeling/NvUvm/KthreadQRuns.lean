import NvUvm.KthreadQ

/-!
# Runs of the queue of a kernel thread

What a flush waits for, and what happens in the end: an item that is queued starts, if the thread
of the queue and every call are scheduled again and again and the functions of the items return.
-/

namespace NvUvm.KthreadQ

/-! ## The history -/

/-- The history of a run only grows. -/
structure Grows (s s' : State) : Prop where
  queued : s.queued <+: s'.queued
  started : s.started <+: s'.started
  finished : s.finished <+: s'.finished

variable {s s' s'' : State} {i : ℕ} {item : Item}

theorem Grows.refl (s : State) : Grows s s :=
  ⟨List.prefix_rfl, List.prefix_rfl, List.prefix_rfl⟩

theorem Grows.trans (h : Grows s s') (h' : Grows s' s'') : Grows s s'' :=
  ⟨h.queued.trans h'.queued, h.started.trans h'.started, h.finished.trans h'.finished⟩

theorem Grows.of_eq (hqueue : s'.queued = s.queued) (hstarted : s'.started = s.started)
    (hfin : s'.finished = s.finished) : Grows s s' :=
  ⟨hqueue ▸ List.prefix_rfl, hstarted ▸ List.prefix_rfl, hfin ▸ List.prefix_rfl⟩

theorem rawQSchedule_grows (s : State) (item : Item) : Grows s (rawQSchedule s item).1 := by
  unfold rawQSchedule
  split
  · exact .refl s
  · exact ⟨List.prefix_append _ _, List.prefix_rfl, List.prefix_rfl⟩

theorem callStep_grows (s : State) (i : ℕ) (call : Call) : Grows s (callStep s i call) := by
  cases call with
  | scheduleEnter id =>
    obtain ⟨hqueue, hstarted, hfin⟩ := rawQSchedule_grows s (.user id)
    exact ⟨hqueue, hstarted, hfin⟩
  | flushEnter second =>
    obtain ⟨hqueue, hstarted, hfin⟩ := rawQSchedule_grows s (.flush i second)
    exact ⟨hqueue, hstarted, hfin⟩
  | flushWait second =>
    rw [callStep]
    split <;> exact .of_eq rfl rfl rfl
  | _ => exact .of_eq rfl rfl rfl

theorem step_grows (s : State) (op : Op) : Grows s (step s op) := by
  cases op with
  | schedule id => exact .of_eq rfl rfl rfl
  | flush => exact .of_eq rfl rfl rfl
  | call i =>
    rw [step]
    split
    · exact .refl s
    · exact callStep_grows s i _
  | itemSchedules id =>
    rw [step, itemSchedules]
    split
    · next running hthr =>
      obtain ⟨hqueue, hstarted, hfin⟩ := rawQSchedule_grows s (.user id)
      dsimp only
      split <;> exact ⟨hqueue, hstarted, hfin⟩
    · exact .refl s
  | mainLoop =>
    rw [step, mainLoopStep]
    split
    · split <;> exact .of_eq rfl rfl rfl
    · split <;> exact .of_eq rfl rfl rfl
    · exact ⟨List.prefix_rfl, List.prefix_append _ _, List.prefix_rfl⟩
    · exact ⟨List.prefix_rfl, List.prefix_rfl, List.prefix_append _ _⟩
    · exact .of_eq rfl rfl rfl
    · exact .of_eq rfl rfl rfl
    · exact ⟨List.prefix_rfl, List.prefix_rfl, List.prefix_append _ _⟩

theorem run_grows (s : State) (ops : List Op) : Grows s (Lib.run step s ops) := by
  induction ops generalizing s with
  | nil => exact .refl s
  | cons op ops ih => exact (step_grows s op).trans (ih _)

/-! ## Flushes -/

/-- Where an item of a flush is in the order of the queue: behind `n` items at least. -/
def Behind (s : State) (item : Item) (n : ℕ) : Prop :=
  ∃ u v, s.queued = u ++ item :: v ∧ n ≤ u.length

theorem Behind.grows {n : ℕ} (h : Behind s item n) (hgrows : Grows s s') : Behind s' item n := by
  obtain ⟨u, v, hqueue, hn⟩ := h
  obtain ⟨w, hw⟩ := hgrows.queued
  exact ⟨u, v ++ w, by rw [← hw, hqueue]; simp, hn⟩

variable {second : Bool} {call : Call}

theorem Behind.le_finished {n : ℕ} (h : Behind s (.flush i second) n) (hinv : Inv s)
    (hcompl : (i, second) ∈ s.completions) : n ≤ s.finished.length := by
  obtain ⟨u, v, hqueue, hn⟩ := h
  have hstarted := hinv.completed i second hcompl
  have honce := hinv.once i second
  rw [hqueue, List.count_append, List.count_cons_self] at honce
  have hu : .flush i second ∉ u := List.count_eq_zero.mp (by omega)
  -- the item is not among the first ones, so that more than these have started
  have hlong : u.length < s.started.length := by
    by_contra hshort
    have hpre : s.started <+: u ++ .flush i second :: v := by
      rw [← hqueue, hinv.order, List.append_assoc]
      exact List.prefix_append _ _
    have hpre : s.started <+: u :=
      List.prefix_of_prefix_length_le hpre (List.prefix_append _ _) (by omega)
    exact hu (hpre.subset hstarted)
  have hrun : s.qThread.runningItems.length ≤ 1 := by
    cases s.qThread <;> simp [QThread.runningItems]
  have hlen := congrArg List.length hinv.finished
  rw [List.length_append] at hlen
  omega

/-- A flush that was entered when `n` items had been queued, before it queues its second item. -/
def Early (s : State) (i n : ℕ) : Call → Prop
  | .flushEnter false => n ≤ s.queued.length
  | .flushUp false | .flushWait false => Behind s (.flush i false) n
  | .flushEnter true => n ≤ s.finished.length
  | _ => False

/-- A flush that has queued its second item behind `m` items. -/
def Late (s : State) (i m : ℕ) : Call → Prop
  | .flushUp true | .flushWait true => Behind s (.flush i true) m
  | .flushReturned => m ≤ s.finished.length
  | _ => False

theorem step_calls {op : Op} (hcall : s.calls[i]? = some call) (hop : op ≠ .call i) :
    (step s op).calls[i]? = some call := by
  have hlt := (List.getElem?_eq_some_iff.mp hcall).1
  have hraw : ∀ item, (rawQSchedule s item).1.calls = s.calls := by
    intro item
    unfold rawQSchedule
    split <;> rfl
  cases op with
  | schedule id => rw [step, List.getElem?_append_left hlt, hcall]
  | flush => rw [step, List.getElem?_append_left hlt, hcall]
  | call j =>
    have hne : j ≠ i := fun heq => hop (heq ▸ rfl)
    have hset : ∀ (calls : List Call) new, calls = s.calls → (calls.set j new)[i]? = some call := by
      rintro calls new rfl
      rw [List.getElem?_set_ne hne, hcall]
    rw [step]
    split
    · exact hcall
    · next old hold =>
      cases old with
      | scheduleEnter id => exact hset _ _ (hraw _)
      | scheduleUp id => exact hset _ _ rfl
      | scheduleReturned id ret => exact hcall
      | flushEnter second => exact hset _ _ (hraw _)
      | flushUp second => exact hset _ _ rfl
      | flushWait second =>
        rw [callStep]
        split
        · exact hset _ _ rfl
        · exact hcall
      | flushReturned => exact hcall
  | itemSchedules id =>
    rw [step, itemSchedules]
    split
    · dsimp only
      split
      · exact (congrArg (·[i]?) (hraw _)).trans hcall
      · exact (congrArg (·[i]?) (hraw _)).trans hcall
    · exact hcall
  | mainLoop =>
    rw [step, mainLoopStep]
    split
    · split <;> exact hcall
    · split <;> exact hcall
    all_goals exact hcall

theorem flushEnter_step (hinv : Inv s) (hcall : s.calls[i]? = some (.flushEnter second)) :
    (step s (.call i)).calls[i]? = some (.flushUp second) ∧
      Behind (step s (.call i)) (.flush i second) s.queued.length := by
  have hlt := (List.getElem?_eq_some_iff.mp hcall).1
  have hnew : .flush i second ∉ s.list := by
    intro hin
    have hqueue : .flush i second ∈ s.queued := by
      rw [hinv.order]
      exact List.mem_append_right _ hin
    obtain ⟨c, hc, hq⟩ := hinv.fresh i second hqueue
    rw [hcall] at hc
    obtain rfl := Option.some.inj hc
    obtain ⟨hfalse, htrue⟩ := hq
    rw [hfalse] at htrue
    cases htrue
  rw [step, hcall]
  dsimp only
  rw [callStep, rawQSchedule_of_not_mem hnew]
  exact ⟨by simp [State.setCall, hlt], s.queued, [], rfl, Nat.le_refl _⟩

theorem flushUp_step (hcall : s.calls[i]? = some (.flushUp second)) :
    (step s (.call i)).calls[i]? = some (.flushWait second) := by
  have hlt := (List.getElem?_eq_some_iff.mp hcall).1
  rw [step, hcall]
  simp [callStep, State.setCall, State.up, hlt]

theorem flushWait_step (hcall : s.calls[i]? = some (.flushWait second)) :
    (step s (.call i)).calls[i]? = some (.flushWait second) ∨
      (i, second) ∈ s.completions ∧ (step s (.call i)).calls[i]? =
        some (if second then .flushReturned else .flushEnter true) := by
  have hlt := (List.getElem?_eq_some_iff.mp hcall).1
  rw [step, hcall]
  dsimp only
  rw [callStep]
  split
  · next hcompl => exact .inr ⟨hcompl, by simp [State.setCall, hlt]⟩
  · exact .inl hcall

theorem early_step {n : ℕ} (h : Early s i n call) (hinv : Inv s) (hcall : s.calls[i]? = some call)
    (op : Op) :
    ∃ call', (step s op).calls[i]? = some call' ∧ (Early (step s op) i n call' ∨
      n ≤ (step s op).finished.length ∧ Late (step s op) i s.queued.length call') := by
  have hgrows := step_grows s op
  by_cases hop : op = .call i
  swap
  · refine ⟨call, step_calls hcall hop, .inl ?_⟩
    match call, h with
    | .flushEnter false, h => exact Nat.le_trans h hgrows.queued.length_le
    | .flushUp false, h => exact Behind.grows h hgrows
    | .flushWait false, h => exact Behind.grows h hgrows
    | .flushEnter true, h => exact Nat.le_trans h hgrows.finished.length_le
  subst hop
  match call, h with
  | .flushEnter false, h =>
    obtain ⟨hnext, hbehind⟩ := flushEnter_step hinv hcall
    obtain ⟨u, v, hqueue, hu⟩ := hbehind
    exact ⟨_, hnext, .inl ⟨u, v, hqueue, Nat.le_trans h hu⟩⟩
  | .flushUp false, h => exact ⟨_, flushUp_step hcall, .inl (Behind.grows h hgrows)⟩
  | .flushWait false, h =>
    rcases flushWait_step hcall with hnext | ⟨hcompl, hnext⟩
    · exact ⟨_, hnext, .inl (Behind.grows h hgrows)⟩
    · exact ⟨_, hnext, .inl (Nat.le_trans (h.le_finished hinv hcompl) hgrows.finished.length_le)⟩
  | .flushEnter true, h =>
    obtain ⟨hnext, hbehind⟩ := flushEnter_step hinv hcall
    exact ⟨_, hnext, .inr ⟨Nat.le_trans h hgrows.finished.length_le, hbehind⟩⟩

theorem late_step {m : ℕ} (h : Late s i m call) (hinv : Inv s) (hcall : s.calls[i]? = some call)
    (op : Op) : ∃ call', (step s op).calls[i]? = some call' ∧ Late (step s op) i m call' := by
  have hgrows := step_grows s op
  by_cases hop : op = .call i
  swap
  · refine ⟨call, step_calls hcall hop, ?_⟩
    match call, h with
    | .flushUp true, h => exact Behind.grows h hgrows
    | .flushWait true, h => exact Behind.grows h hgrows
    | .flushReturned, h => exact Nat.le_trans h hgrows.finished.length_le
  subst hop
  match call, h with
  | .flushUp true, h => exact ⟨_, flushUp_step hcall, Behind.grows h hgrows⟩
  | .flushWait true, h =>
    rcases flushWait_step hcall with hnext | ⟨hcompl, hnext⟩
    · exact ⟨_, hnext, Behind.grows h hgrows⟩
    · exact ⟨_, hnext, Nat.le_trans (h.le_finished hinv hcompl) hgrows.finished.length_le⟩
  | .flushReturned, h =>
    refine ⟨.flushReturned, ?_, Nat.le_trans h hgrows.finished.length_le⟩
    rw [step, hcall]
    exact hcall

theorem flush_inv (pre mid : List Op) :
    let before := Lib.run step State.initial pre
    let after := fun mid => Lib.run step State.initial (pre ++ .flush :: mid)
    ∃ call, (after mid).calls[before.calls.length]? = some call ∧
      (Early (after mid) before.calls.length before.queued.length call ∨
        ∃ m, before.queued.length ≤ (after mid).finished.length ∧
          Late (after mid) before.calls.length m call ∧
          ∀ mid', mid' <+: mid → (after mid').finished.length < before.queued.length →
            (after mid').queued.length ≤ m) := by
  intro before after
  induction mid using List.reverseRecOn with
  | nil =>
    refine ⟨.flushEnter false, ?_, .inl ?_⟩
    · simp [after, before, Lib.run_concat, step]
    · simp [after, before, Lib.run_concat, step, Early]
  | append_singleton mid op ih =>
    have hstep : after (mid ++ [op]) = step (after mid) op := by
      simp only [after, ← Lib.run_concat, List.append_assoc, List.cons_append]
    have hinv : Inv (after mid) := run_inv _
    have hmono : ∀ mid', mid' <+: mid → (after mid').queued.length ≤ (after mid).queued.length := by
      rintro mid' ⟨rest, rfl⟩
      have hrun : after (mid' ++ rest) = Lib.run step (after mid') rest := by
        simp [after, Lib.run]
      rw [hrun]
      exact (run_grows _ rest).queued.length_le
    obtain ⟨call, hcall, hphase⟩ := ih
    rw [hstep]
    rcases hphase with hearly | ⟨m, hn, hlate, hbound⟩
    · obtain ⟨call', hcall', hearly | ⟨hn, hlate⟩⟩ := early_step hearly hinv hcall op
      · exact ⟨call', hcall', .inl hearly⟩
      · refine ⟨call', hcall', .inr ⟨_, hn, hlate, fun mid' hpre hpend => ?_⟩⟩
        rcases List.prefix_concat_iff.mp hpre with rfl | hpre
        · rw [hstep] at hpend
          omega
        · exact hmono mid' hpre
    · obtain ⟨call', hcall', hlate⟩ := late_step hlate hinv hcall op
      have hgrows := (step_grows (after mid) op).finished.length_le
      refine ⟨call', hcall', .inr ⟨m, by omega, hlate, fun mid' hpre hpend => ?_⟩⟩
      rcases List.prefix_concat_iff.mp hpre with rfl | hpre
      · rw [hstep] at hpend
        omega
      · exact hbound mid' hpre hpend

/-- **What a flush waits for.**  When it returns, everything that was queued before it was called
has finished, and so has everything that was queued while some of that had not finished: what an
item queued before queues when it runs, itself for example. -/
theorem flush_waits (pre mid : List Op)
    (hret : (Lib.run step State.initial (pre ++ .flush :: mid)).calls[
      (Lib.run step State.initial pre).calls.length]? = some .flushReturned) :
    let before := Lib.run step State.initial pre
    let after := fun mid => Lib.run step State.initial (pre ++ .flush :: mid)
    before.queued.length ≤ (after mid).finished.length ∧
      ∀ mid', mid' <+: mid → (after mid').finished.length < before.queued.length →
        (after mid').queued.length ≤ (after mid).finished.length := by
  obtain ⟨call, hcall, hphase⟩ := flush_inv pre mid
  rw [hret] at hcall
  obtain rfl := Option.some.inj hcall
  rcases hphase with hearly | ⟨m, hn, hlate, hbound⟩
  · exact hearly.elim
  · exact ⟨hn, fun mid' hpre hpend => Nat.le_trans (hbound mid' hpre hpend) hlate⟩

/-! ## Progress -/

theorem step_other {op : Op} (hop : op ≠ .mainLoop) :
    s.sem ≤ (step s op).sem ∧ (step s op).started = s.started ∧
      ((∀ id, s.qThread ≠ .running (.user id)) → (step s op).qThread = s.qThread) := by
  have hraw : ∀ item, (rawQSchedule s item).1.sem = s.sem ∧
      (rawQSchedule s item).1.started = s.started ∧
      (rawQSchedule s item).1.qThread = s.qThread := by
    intro item
    unfold rawQSchedule
    split <;> exact ⟨rfl, rfl, rfl⟩
  cases op with
  | schedule id => exact ⟨Nat.le_refl _, rfl, fun _ => rfl⟩
  | flush => exact ⟨Nat.le_refl _, rfl, fun _ => rfl⟩
  | call i =>
    rw [step]
    split
    · exact ⟨Nat.le_refl _, rfl, fun _ => rfl⟩
    · next call hcall =>
      cases call with
      | scheduleEnter id =>
        obtain ⟨hsem, hstarted, hthr⟩ := hraw (.user id)
        exact ⟨Nat.le_of_eq hsem.symm, hstarted, fun _ => hthr⟩
      | flushEnter second =>
        obtain ⟨hsem, hstarted, hthr⟩ := hraw (.flush i second)
        exact ⟨Nat.le_of_eq hsem.symm, hstarted, fun _ => hthr⟩
      | scheduleUp id => exact ⟨Nat.le_succ _, rfl, fun _ => rfl⟩
      | flushUp second => exact ⟨Nat.le_succ _, rfl, fun _ => rfl⟩
      | flushWait second =>
        rw [callStep]
        split <;> exact ⟨Nat.le_refl _, rfl, fun _ => rfl⟩
      | _ => exact ⟨Nat.le_refl _, rfl, fun _ => rfl⟩
  | itemSchedules id =>
    rw [step, itemSchedules]
    split
    · next running hthr =>
      obtain ⟨hsem, hstarted, -⟩ := hraw (.user id)
      dsimp only
      split <;> exact ⟨Nat.le_of_eq hsem.symm, hstarted, fun hnot => absurd hthr (hnot running)⟩
    · exact ⟨Nat.le_refl _, rfl, fun _ => rfl⟩
  | mainLoop => exact absurd rfl hop

/-- A fair run: the thread of the queue and every call are scheduled again and again, and the
function of an item returns. -/
structure Fair (ops : ℕ → Op) : Prop where
  mainLoop : ∀ n, ∃ m ≥ n, ops m = .mainLoop
  call : ∀ n i, i < (Lib.states step State.initial ops n).calls.length → ∃ m ≥ n, ops m = .call i
  returns : ∀ n id, (Lib.states step State.initial ops n).qThread.runningItems = [.user id] →
    ∃ m ≥ n, (Lib.states step State.initial ops m).qThread = .down

variable {ops : ℕ → Op} {n k : ℕ}

theorem states_inv (ops : ℕ → Op) (n : ℕ) : Inv (Lib.states step State.initial ops n) :=
  Lib.states_inv initial_inv step_inv n

theorem states_grows (ops : ℕ → Op) {n m : ℕ} (h : n ≤ m) :
    Grows (Lib.states step State.initial ops n) (Lib.states step State.initial ops m) :=
  Lib.states_mono Grows.refl (fun _ _ _ => Grows.trans) step_grows h

theorem phase_ends {Q : State → Prop} {t : QThread} (hfair : Fair ops)
    (ht : ∀ id, t ≠ .running (.user id))
    (hdo : ∀ s, Inv s → s.qThread = t → s.started.length = k → Q (mainLoopStep s))
    (hphase : (Lib.states step State.initial ops n).qThread = t)
    (hk : (Lib.states step State.initial ops n).started.length = k) :
    ∃ m ≥ n, Q (Lib.states step State.initial ops m) := by
  refine Lib.eventually_of_taken (P := fun s => s.qThread = t ∧ s.started.length = k) .mainLoop
    (states_inv ops) ?_ (fun s hinv h => hdo s hinv h.1 h.2) ⟨hphase, hk⟩ (hfair.mainLoop n)
  rintro s op hinv ⟨hthr, hstarted⟩
  by_cases hop : op = .mainLoop
  · subst hop
    exact .inr (hdo s hinv hthr hstarted)
  · obtain ⟨-, hsame, hkeep⟩ := step_other (s := s) hop
    rw [hthr] at hkeep
    exact .inl ⟨hkeep ht, by rw [hsame, hstarted]⟩

theorem consumed_starts {item : Item} (hfair : Fair ops)
    (hphase : (Lib.states step State.initial ops n).qThread = .consumed item)
    (hk : (Lib.states step State.initial ops n).started.length = k) :
    ∃ m ≥ n, k < (Lib.states step State.initial ops m).started.length := by
  refine phase_ends (Q := fun s => k < s.started.length) hfair (fun _ h => by cases h)
    (fun s _ hthr hstarted => ?_) hphase hk
  simp [mainLoopStep, hthr, hstarted]

theorem token_starts (hfair : Fair ops)
    (hphase : (Lib.states step State.initial ops n).qThread = .token)
    (hk : (Lib.states step State.initial ops n).started.length = k) :
    ∃ m ≥ n, k < (Lib.states step State.initial ops m).started.length := by
  have hconsumed : ∀ s, Inv s → s.qThread = .token → s.started.length = k →
      (∃ item, (mainLoopStep s).qThread = .consumed item) ∧
        (mainLoopStep s).started.length = k := by
    intro s hinv hthr hstarted
    have htokens := hinv.tokens
    rw [hthr] at htokens
    cases hlist : s.list with
    | nil => simp [hlist, QThread.tokens] at htokens
    | cons item list =>
      simp only [mainLoopStep, hthr, hlist]
      exact ⟨⟨item, rfl⟩, hstarted⟩
  obtain ⟨m, hm, ⟨item, hitem⟩, hk'⟩ := phase_ends
    (Q := fun s => (∃ item, s.qThread = .consumed item) ∧ s.started.length = k) hfair
    (fun _ h => by cases h) hconsumed hphase hk
  obtain ⟨m', hm', hstarted⟩ := consumed_starts hfair hitem hk'
  exact ⟨m', Nat.le_trans hm hm', hstarted⟩

theorem raised_starts (hfair : Fair ops)
    (hphase : (Lib.states step State.initial ops n).qThread = .down)
    (hsem : 0 < (Lib.states step State.initial ops n).sem)
    (hk : (Lib.states step State.initial ops n).started.length = k) :
    ∃ m ≥ n, k < (Lib.states step State.initial ops m).started.length := by
  have htoken : ∀ s, s.qThread = .down → 0 < s.sem → s.started.length = k →
      (mainLoopStep s).qThread = .token ∧ (mainLoopStep s).started.length = k := by
    intro s hthr hsem hstarted
    simp only [mainLoopStep, hthr, if_neg (Nat.ne_of_gt hsem)]
    exact ⟨trivial, hstarted⟩
  have hstep : ∀ s op, Inv s → (s.qThread = .down ∧ 0 < s.sem ∧ s.started.length = k) →
      ((step s op).qThread = .down ∧ 0 < (step s op).sem ∧ (step s op).started.length = k) ∨
        ((step s op).qThread = .token ∧ (step s op).started.length = k) := by
    rintro s op - ⟨hthr, hsem, hstarted⟩
    by_cases hop : op = .mainLoop
    · subst hop
      exact .inr (htoken s hthr hsem hstarted)
    · obtain ⟨hle, hsame, hkeep⟩ := step_other (s := s) hop
      rw [hthr] at hkeep
      exact .inl ⟨hkeep (fun _ h => by cases h), by omega, by rw [hsame, hstarted]⟩
  obtain ⟨m, hm, hphase', hk'⟩ := Lib.eventually_of_taken
    (Q := fun s => s.qThread = .token ∧ s.started.length = k) .mainLoop
    (states_inv ops) hstep (fun s _ h => htoken s h.1 h.2.1 h.2.2)
    ⟨hphase, hsem, hk⟩ (hfair.mainLoop n)
  obtain ⟨m', hm', hstarted⟩ := token_starts hfair hphase' hk'
  exact ⟨m', Nat.le_trans hm hm', hstarted⟩

theorem waiting_starts (hfair : Fair ops)
    (hphase : (Lib.states step State.initial ops n).qThread = .down)
    (hlist : (Lib.states step State.initial ops n).list ≠ [])
    (hk : (Lib.states step State.initial ops n).started.length = k) :
    ∃ m ≥ n, k < (Lib.states step State.initial ops m).started.length := by
  by_cases hsem : 0 < (Lib.states step State.initial ops n).sem
  · exact raised_starts hfair hphase hsem hk
  have hcnt : 0 < (Lib.states step State.initial ops n).calls.countP Call.isUp := by
    have htokens := (states_inv ops n).tokens
    have hlen := List.length_pos_iff.mpr hlist
    rw [hphase] at htokens
    simp only [QThread.tokens, QThread.ups] at htokens
    omega
  obtain ⟨call, hmem, hup⟩ := List.countP_pos_iff.mp hcnt
  obtain ⟨i, hi⟩ := List.mem_iff_getElem?.mp hmem
  have hraise : ∀ s : State, s.qThread = .down → s.calls[i]? = some call → s.started.length = k →
      (step s (.call i)).started.length = k ∧
        (step s (.call i)).qThread = .down ∧ 0 < (step s (.call i)).sem := by
    intro s hthr hcall hstarted
    rw [step, hcall]
    cases call with
    | scheduleUp id => exact ⟨hstarted, hthr, Nat.succ_pos _⟩
    | flushUp second => exact ⟨hstarted, hthr, Nat.succ_pos _⟩
    | _ => cases hup
  -- another call may raise the semaphore first, and the thread of the queue may take that count
  have hstep : ∀ s op, Inv s →
      (s.qThread = .down ∧ s.calls[i]? = some call ∧ s.started.length = k) →
      ((step s op).qThread = .down ∧ (step s op).calls[i]? = some call ∧
        (step s op).started.length = k) ∨
      ((step s op).started.length = k ∧
        ((step s op).qThread = .token ∨ (step s op).qThread = .down ∧ 0 < (step s op).sem)) := by
    rintro s op - ⟨hthr, hcall, hstarted⟩
    by_cases hop : op = .call i
    · subst hop
      obtain ⟨hk, hraised⟩ := hraise s hthr hcall hstarted
      exact .inr ⟨hk, .inr hraised⟩
    have hcall' := step_calls hcall hop
    by_cases hmain : op = .mainLoop
    · subst hmain
      rw [step] at hcall' ⊢
      by_cases hzero : s.sem = 0
      · simp only [mainLoopStep, hthr, if_pos hzero]
        exact .inl ⟨trivial, hcall, hstarted⟩
      · simp only [mainLoopStep, hthr, if_neg hzero]
        exact .inr ⟨hstarted, .inl trivial⟩
    · obtain ⟨-, hsame, hkeep⟩ := step_other (s := s) hmain
      rw [hthr] at hkeep
      exact .inl ⟨hkeep (fun _ h => by cases h), hcall', by rw [hsame, hstarted]⟩
  obtain ⟨m, hm, hk', hphase'⟩ := Lib.eventually_of_taken
    (Q := fun s => s.started.length = k ∧ (s.qThread = .token ∨ s.qThread = .down ∧ 0 < s.sem))
    (.call i) (states_inv ops) hstep
    (fun s _ h => (hraise s h.1 h.2.1 h.2.2).imp_right .inr)
    ⟨hphase, hi, hk⟩ (hfair.call n i (List.getElem?_eq_some_iff.mp hi).1)
  rcases hphase' with htoken | ⟨hdown, hraised⟩
  · obtain ⟨m', hm', hstarted⟩ := token_starts hfair htoken hk'
    exact ⟨m', Nat.le_trans hm hm', hstarted⟩
  · obtain ⟨m', hm', hstarted⟩ := raised_starts hfair hdown hraised hk'
    exact ⟨m', Nat.le_trans hm hm', hstarted⟩

theorem running_finishes (hfair : Fair ops) {item : Item}
    (hphase : (Lib.states step State.initial ops n).qThread.runningItems = [item]) :
    ∃ m ≥ n, (Lib.states step State.initial ops m).qThread = .down := by
  cases item with
  | user id => exact hfair.returns n id hphase
  | flush call second =>
    have hcompl : ∀ n, (Lib.states step State.initial ops n).qThread =
        .completed (.flush call second) →
        ∃ m ≥ n, (Lib.states step State.initial ops m).qThread = .down := by
      intro n hphase
      refine phase_ends (Q := fun s => s.qThread = .down) hfair (fun _ h => by cases h)
        (fun s _ hthr _ => ?_) hphase rfl
      simp [mainLoopStep, hthr]
    have hrun : ∀ n, (Lib.states step State.initial ops n).qThread = .running (.flush call second) →
        ∃ m ≥ n, (Lib.states step State.initial ops m).qThread = .down := by
      intro n hphase
      obtain ⟨m, hm, hphase'⟩ := phase_ends
        (Q := fun s => s.qThread = .completed (.flush call second)) hfair (fun _ h => by cases h)
        (fun s _ hthr _ => by simp [mainLoopStep, hthr]) hphase rfl
      obtain ⟨m', hm', hdown⟩ := hcompl m hphase'
      exact ⟨m', Nat.le_trans hm hm', hdown⟩
    cases hthr : (Lib.states step State.initial ops n).qThread with
    | running item =>
      rw [hthr] at hphase
      obtain rfl := List.singleton_inj.mp hphase
      exact hrun n hthr
    | completed item =>
      rw [hthr] at hphase
      obtain rfl := List.singleton_inj.mp hphase
      exact hcompl n hthr
    | scheduling item =>
      rw [hthr] at hphase
      obtain rfl := List.singleton_inj.mp hphase
      obtain ⟨m, hm, hphase'⟩ := phase_ends
        (Q := fun s => s.qThread = .running (.flush call second)) hfair (fun _ h => by cases h)
        (fun s _ hthr _ => by simp [mainLoopStep, hthr]) hthr rfl
      obtain ⟨m', hm', hdown⟩ := hrun m hphase'
      exact ⟨m', Nat.le_trans hm hm', hdown⟩
    | down => rw [hthr] at hphase; cases hphase
    | token => rw [hthr] at hphase; cases hphase
    | consumed item => rw [hthr] at hphase; cases hphase

theorem next_starts (hfair : Fair ops) (hk : (Lib.states step State.initial ops n).started.length <
      (Lib.states step State.initial ops n).queued.length) :
    ∃ m ≥ n, (Lib.states step State.initial ops n).started.length <
      (Lib.states step State.initial ops m).started.length := by
  -- once the thread of the queue waits, with the item still to start
  have hdown : ∀ m ≥ n, (Lib.states step State.initial ops m).qThread = .down →
      ∃ m' ≥ n, (Lib.states step State.initial ops n).started.length <
        (Lib.states step State.initial ops m').started.length := by
    intro m hm hphase
    by_cases hmore : (Lib.states step State.initial ops n).started.length <
        (Lib.states step State.initial ops m).started.length
    · exact ⟨m, hm, hmore⟩
    have hgrows := states_grows ops hm
    have hstarted := hgrows.started.length_le
    have hqueue := hgrows.queued.length_le
    have hlist : (Lib.states step State.initial ops m).list ≠ [] := by
      intro hnil
      have hord := congrArg List.length (states_inv ops m).order
      rw [hphase, hnil] at hord
      simp only [QThread.consumedItems, List.append_nil] at hord
      omega
    obtain ⟨m', hm', hnext⟩ := waiting_starts hfair hphase hlist rfl
    exact ⟨m', Nat.le_trans hm hm', Nat.lt_of_le_of_lt hstarted hnext⟩
  cases hphase : (Lib.states step State.initial ops n).qThread with
  | down => exact hdown n (Nat.le_refl _) hphase
  | token => exact token_starts hfair hphase rfl
  | consumed item => exact consumed_starts hfair hphase rfl
  | running item =>
    obtain ⟨m, hm, hwaits⟩ := running_finishes hfair (congrArg QThread.runningItems hphase)
    exact hdown m hm hwaits
  | scheduling item =>
    obtain ⟨m, hm, hwaits⟩ := running_finishes hfair (congrArg QThread.runningItems hphase)
    exact hdown m hm hwaits
  | completed item =>
    obtain ⟨m, hm, hwaits⟩ := running_finishes hfair (congrArg QThread.runningItems hphase)
    exact hdown m hm hwaits

theorem started_eventually (hfair : Fair ops) {j : ℕ}
    (hj : (Lib.states step State.initial ops n).queued[j]? = some item) :
    ∃ m ≥ n, (Lib.states step State.initial ops m).started[j]? = some item := by
  -- enough items start
  have hmore : ∀ d, ∃ m ≥ n, d ≤ (Lib.states step State.initial ops m).started.length ∨
      j < (Lib.states step State.initial ops m).started.length := by
    intro d
    induction d with
    | zero => exact ⟨n, Nat.le_refl _, .inl (Nat.zero_le _)⟩
    | succ d ih =>
      obtain ⟨m, hm, hd | hd⟩ := ih
      · by_cases hnext : j < (Lib.states step State.initial ops m).started.length
        · exact ⟨m, hm, .inr hnext⟩
        have hqueue := (states_grows ops hm).queued.length_le
        have hlt := (List.getElem?_eq_some_iff.mp hj).1
        obtain ⟨m', hm', hstarted⟩ := next_starts (n := m) hfair (by omega)
        exact ⟨m', Nat.le_trans hm hm', .inl (by omega)⟩
      · exact ⟨m, hm, .inr hd⟩
  obtain ⟨m, hm, hj'⟩ := hmore (j + 1)
  have hlt : j < (Lib.states step State.initial ops m).started.length := by omega
  refine ⟨m, hm, ?_⟩
  obtain ⟨rest, hrest⟩ := (states_grows ops hm).queued
  have hord := (states_inv ops m).order
  have hget : (Lib.states step State.initial ops m).queued[j]? = some item := by
    rw [← hrest, List.getElem?_append_left (List.getElem?_eq_some_iff.mp hj).1, hj]
  rwa [hord, List.append_assoc, List.getElem?_append_left hlt] at hget

theorem pending_starts (hfair : Fair ops)
    (hpend : (rawQSchedule (Lib.states step State.initial ops n) item).2 = false) :
    ∃ m ≥ n, ∃ j : ℕ, j ≥ (Lib.states step State.initial ops n).started.length ∧
      (Lib.states step State.initial ops m).started[j]? = some item := by
  have hin : item ∈ (Lib.states step State.initial ops n).list := by
    by_contra hout
    rw [rawQSchedule_of_not_mem hout] at hpend
    cases hpend
  obtain ⟨k, hk⟩ := List.mem_iff_getElem?.mp hin
  have hord := (states_inv ops n).order
  rw [List.append_assoc] at hord
  have hj : (Lib.states step State.initial ops n).queued[
      (Lib.states step State.initial ops n).started.length +
        ((Lib.states step State.initial ops n).qThread.consumedItems.length + k)]? = some item := by
    rw [hord, List.getElem?_append_right (by omega), Nat.add_sub_cancel_left,
      List.getElem?_append_right (by omega), Nat.add_sub_cancel_left, hk]
  obtain ⟨m, hm, hstarted⟩ := started_eventually hfair hj
  exact ⟨m, hm, _, Nat.le_add_right _ _, hstarted⟩

/-! ## The queue -/

/-- What holds in every state: the list has an item for every count of the semaphore, and items
start, and finish, in the order in which they were queued, each once for each time. -/
structure Ordered (s : State) : Prop where
  tokens : s.sem + s.qThread.tokens ≤ s.list.length
  notWarned : s.warned = false
  order : s.queued = s.started ++ s.qThread.consumedItems ++ s.list
  finished : s.started = s.finished ++ s.qThread.runningItems

theorem ordered_run (ops : List Op) : Ordered (Lib.run step State.initial ops) := by
  have h := run_inv ops
  have htokens := h.tokens
  exact ⟨by omega, h.warned, h.order, h.finished⟩

/-- **The queue of a kernel thread.**  In every run the empty list is never met, and the history is
in order.  A flush returns when everything queued before it has finished, and everything queued
while some of that had not finished.  In a fair run the item queued as the `j`-th one starts as the
`j`-th one, and a schedule that finds its item pending is followed by a start of the item. -/
theorem queue_right : (∀ ops, Ordered (Lib.run step State.initial ops)) ∧ (∀ pre mid,
      let before := Lib.run step State.initial pre
      let after := fun mid => Lib.run step State.initial (pre ++ .flush :: mid)
      (after mid).calls[before.calls.length]? = some .flushReturned →
      before.queued.length ≤ (after mid).finished.length ∧
        ∀ mid', mid' <+: mid → (after mid').finished.length < before.queued.length →
          (after mid').queued.length ≤ (after mid).finished.length) ∧
    (∀ ops, Fair ops → ∀ n,
      let now := Lib.states step State.initial ops n
      (∀ (j : ℕ) (item : Item), now.queued[j]? = some item →
        ∃ m ≥ n, (Lib.states step State.initial ops m).started[j]? = some item) ∧
      (∀ item, (rawQSchedule now item).2 = false →
        ∃ m ≥ n, ∃ j : ℕ, j ≥ now.started.length ∧
          (Lib.states step State.initial ops m).started[j]? = some item)) :=
  ⟨ordered_run, flush_waits, fun _ hfair _ =>
    ⟨fun _ _ hj => started_eventually hfair hj, fun _ hpend => pending_starts hfair hpend⟩⟩

/-- One item is queued, and both threads go on in turn. -/
private def oneItem : ℕ → Op
  | 0 => .schedule 7
  | n + 1 => if n % 2 = 0 then .call 0 else .mainLoop

private theorem oneItem_rests (n : ℕ) : Lib.states step State.initial oneItem (n + 11) =
    Lib.states step State.initial oneItem 11 := by
  have hcall : step (Lib.states step State.initial oneItem 11) (.call 0) =
      Lib.states step State.initial oneItem 11 := by decide
  have hmain : step (Lib.states step State.initial oneItem 11) .mainLoop =
      Lib.states step State.initial oneItem 11 := by decide
  induction n with
  | zero => rfl
  | succ n ih =>
    rw [Nat.add_right_comm, Lib.states, ih, oneItem]
    split
    · exact hcall
    · exact hmain

private theorem oneItem_fair : Fair oneItem where
  mainLoop n := ⟨2 * n + 2, by omega, by simp [oneItem]⟩
  call n i hi := by
    have hcalls : (Lib.states step State.initial oneItem n).calls.length ≤ 1 := by
      by_cases hn : n < 11
      · have hfirst : ∀ n < 11, (Lib.states step State.initial oneItem n).calls.length ≤ 1 := by
          decide
        exact hfirst n hn
      · obtain ⟨k, rfl⟩ : ∃ k, n = k + 11 := ⟨n - 11, by omega⟩
        rw [oneItem_rests]
        decide
    obtain rfl : i = 0 := by omega
    exact ⟨2 * n + 1, by omega, by simp [oneItem]⟩
  returns n id _ := ⟨n + 11, by omega, by rw [oneItem_rests]; decide⟩

/-- Item `7` runs, and a flush behind an item returns. -/
theorem queue_right_item :
    (∃ m, (Lib.states step State.initial oneItem m).started[0]? = some (.user 7)) ∧
      1 ≤ (Lib.run step State.initial ([.schedule 7, .call 0] ++ .flush ::
        ([.call 1, .call 1, .call 0] ++ List.replicate 8 .mainLoop ++
          [.call 1, .call 1, .call 1] ++ List.replicate 5 .mainLoop ++ [.call 1]))).finished.length := by
  obtain ⟨m, -, hstarted⟩ := (queue_right.2.2 oneItem oneItem_fair 2).1 0 (.user 7) (by decide)
  refine ⟨⟨m, hstarted⟩, ?_⟩
  exact (queue_right.2.1 [.schedule 7, .call 0] ([.call 1, .call 1, .call 0] ++
    List.replicate 8 .mainLoop ++ [.call 1, .call 1, .call 1] ++ List.replicate 5 .mainLoop ++
    [.call 1]) (by decide)).1

end NvUvm.KthreadQ
