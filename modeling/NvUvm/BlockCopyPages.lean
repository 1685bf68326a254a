import Mathlib.Data.List.TakeWhile
import NvUvm.BlockCopy

/-!
# What the copies from one source leave

`blockCopyResidentPagesBetween` handles the pages of a source in order and stops at the first
one that fails.  Which page that is depends on the page alone (`pageGoes`), so the pages that
are copied can be told beforehand (`reachedPages`), and `between_spec` says what their copies
leave.

`Consistent` is the invariant of a block's residency: a processor's memory of a resident page
holds its data.  Copies keep it, and they never lose data.
-/

namespace NvUvm

open Lib

/-! ## The residency of a block -/

/-- The memory of a resident page holds the page's data, and so does the preferred location
of a page that is clean on the CPU; `block->resident` has the processors with a resident
page. -/
structure Residency.Consistent (b : Residency) (env : CopyEnv) : Prop where
  memory : ∀ id p, b.resident id p = true → b.holds id p = true
  clean : ∀ dst p, b.resident cpuId p = true → b.pageIsClean env dst cpuId p = true →
    b.holds dst p = true
  processors : ∀ id, b.residentProcessors id = true ↔
    ∃ p, p < b.numPages ∧ b.resident id p = true

theorem Residency.residentEmpty_eq_false {b : Residency} {id : ProcessorId} :
    b.residentEmpty id = false ↔ ∃ p, p < b.numPages ∧ b.resident id p = true := by
  simp [Residency.residentEmpty]

section Between

variable (env : CopyEnv) (pass : CopyPass) (dst src : ProcessorId) (mode : InternalMode)
  (b : Residency)

/-- Copying the page does not fail: there is memory for it on the CPU, and it is clean or its
push begins. -/
def pageGoes (p : ℕ) : Bool :=
  (dst ≠ cpuId || b.cpuPages p || env.allocCpuPage src p = .ok) &&
    (b.pageIsClean env dst src p || env.beginPush pass src = .ok)

/-- What the copies of the pages `done` leave. -/
structure CopiedFrom (done : List ℕ) (s : Residency) : Prop where
  numPages : s.numPages = b.numPages
  resident : ∀ id p, s.resident id p =
    if id = dst then b.resident dst p || decide (p ∈ done)
    else if id = src ∧ mode = .moveFromStage then b.resident src p && !decide (p ∈ done)
    else b.resident id p
  holds : ∀ id p, s.holds id p =
    if id = dst ∧ p ∈ done ∧ b.pageIsClean env dst src p = false then b.holds src p
    else b.holds id p
  readDuplicated : ∀ p, s.readDuplicated p = (b.readDuplicated p ||
    (decide (mode = .copy ∨ mode = .copyFromStage) && decide (p ∈ done)))
  pageDirty : ∀ p, s.pageDirty p =
    if dst = cpuId ∧ p ∈ done then decide (env.preferredLocation ≠ some src) else b.pageDirty p
  cpuPages : ∀ p, dst = cpuId → p ∈ done → s.cpuPages p = true
  cpuKept : ∀ p, b.cpuPages p = true → s.cpuPages p = true

/-- What the loop over the pages of a source leaves when it has copied `done`. -/
structure LoopLeft (migrated : PageMask) (done : List ℕ) (s : BetweenState) : Prop where
  copied : CopiedFrom env dst src mode b done s.block
  processors : s.block.residentProcessors = b.residentProcessors
  count : s.copiedPages = done.length
  migrated : ∀ p, s.migrated p = (migrated p || decide (p ∈ done))
  pushing : s.pushing = done.any fun p => !b.pageIsClean env dst src p

/-- The loop is between two pages. -/
structure LoopInv (migrated : PageMask) (done : List ℕ) (s : BetweenState) : Prop extends
    LoopLeft env dst src mode b migrated done s where
  begun : s.pushing = true → env.beginPush pass src = .ok
  untouched : ∀ p, dst ≠ cpuId ∨ p ∉ done → s.block.cpuPages p = b.cpuPages p

/-! ### One page -/

private theorem updateBits_resident (p : ℕ) (s : BetweenState) (id : ProcessorId) (q : ℕ) :
    (updateBits dst src mode p s).block.resident id q =
      if id = src ∧ mode = .moveFromStage ∧ q = p then false
      else if id = dst ∧ q = p then true else s.block.resident id q := by
  have hmark : (s.block.markResident dst p).resident id q =
      if id = dst ∧ q = p then true else s.block.resident id q := by
    by_cases hid : id = dst
    · subst hid
      by_cases hq : q = p <;> simp [Residency.markResident, Residency.setResident, hq]
    · simp [Residency.markResident, Residency.setResident, hid]
  have hclear : ∀ c : Residency, (c.clearResident src p).resident id q =
      if id = src ∧ q = p then false else c.resident id q := fun c => by
    by_cases hid : id = src
    · subst hid
      by_cases hq : q = p <;> simp [Residency.clearResident, Residency.setResident, hq]
    · simp [Residency.clearResident, Residency.setResident, hid]
  by_cases hcopy : mode = .copy ∨ mode = .copyFromStage <;> by_cases hmove : mode = .moveFromStage
    <;> simp [updateBits, hcopy, hmove, hmark, hclear]

private theorem updateBits_frame (p : ℕ) (s : BetweenState) :
    (updateBits dst src mode p s).block.numPages = s.block.numPages ∧
      (updateBits dst src mode p s).block.holds = s.block.holds ∧
      (updateBits dst src mode p s).block.pageDirty = s.block.pageDirty ∧
      (updateBits dst src mode p s).block.cpuPages = s.block.cpuPages ∧
      (updateBits dst src mode p s).block.residentProcessors = s.block.residentProcessors ∧
      (updateBits dst src mode p s).pushing = s.pushing ∧
      (updateBits dst src mode p s).copiedPages = s.copiedPages + 1 ∧
      (∀ q, (updateBits dst src mode p s).migrated q = (s.migrated q || decide (q = p))) ∧
      ∀ q, (updateBits dst src mode p s).block.readDuplicated q = (s.block.readDuplicated q ||
        (decide (mode = .copy ∨ mode = .copyFromStage) && decide (q = p))) := by
  have hmig : ∀ m : PageMask, ∀ q,
      Function.update m p true q = (m q || decide (q = p)) := fun m q => by
    by_cases hq : q = p
    · simp [hq]
    · simp [hq]
  by_cases hcopy : mode = .copy ∨ mode = .copyFromStage <;> by_cases hmove : mode = .moveFromStage
    <;> simp [updateBits, hcopy, hmove, Residency.markResident, Residency.clearResident,
      Residency.setResident, hmig]

/-- What a page's copy changes before its bits are updated: the CPU page, the dirty bit and
the memory of the destination. -/
private structure Prepared (s c : Residency) (p : ℕ) : Prop where
  numPages : c.numPages = s.numPages
  resident : c.resident = s.resident
  processors : c.residentProcessors = s.residentProcessors
  readDuplicated : c.readDuplicated = s.readDuplicated
  holds : ∀ id q, c.holds id q =
    if id = dst ∧ q = p ∧ b.pageIsClean env dst src p = false then b.holds src p
    else s.holds id q
  pageDirty : ∀ q, c.pageDirty q =
    if dst = cpuId ∧ q = p then decide (env.preferredLocation ≠ some src) else s.pageDirty q
  cpuPage : dst = cpuId → c.cpuPages p = true
  cpuKept : ∀ q, s.cpuPages q = true → c.cpuPages q = true
  cpuOthers : ∀ q, dst ≠ cpuId ∨ q ≠ p → c.cpuPages q = s.cpuPages q

variable {done : List ℕ} {p : ℕ} {s : BetweenState}

private theorem LoopInv.updateBits {migrated : PageMask} (hne : dst ≠ src)
    (hs : LoopInv env pass dst src mode b migrated done s) (hp : p ∉ done) (c : Residency)
    (hc : Prepared env dst src b s.block c p) (pushing : Bool)
    (hpush : pushing = (s.pushing || !b.pageIsClean env dst src p))
    (hbegun : pushing = true → env.beginPush pass src = .ok) :
    LoopInv env pass dst src mode b migrated (done ++ [p])
      (NvUvm.updateBits dst src mode p { s with block := c, pushing := pushing }) := by
  obtain ⟨hnum, hhold, hdirty, hcpu, hproc, hpushing, hcnt, hmig, hrd⟩ :=
    updateBits_frame dst src mode p { s with block := c, pushing := pushing }
  have hcop := hs.copied
  refine ⟨⟨⟨?_, fun id q => ?_, fun id q => ?_, fun q => ?_, fun q => ?_, fun q hd hq => ?_,
    fun q hq => ?_⟩, ?_, ?_, fun q => ?_, ?_⟩, ?_, fun q hq => ?_⟩
  · rw [hnum, hc.numPages, hcop.numPages]
  · -- the page's own bit, on the destination and on a stage
    rw [updateBits_resident]
    simp only [hc.resident, hcop.resident, List.mem_append, List.mem_singleton]
    by_cases hq : q = p
    · subst hq
      by_cases hid : id = dst
      · subst hid
        simp [hne]
      · by_cases hsrc : id = src <;> by_cases hmode : mode = .moveFromStage <;>
          simp [hid, hsrc, hmode, hne.symm]
    · simp [hq]
  · rw [hhold, hc.holds, hcop.holds]
    by_cases hq : q = p
    · subst hq
      simp [hp]
    · simp [hq]
  · rw [hrd]
    simp only [hc.readDuplicated, hcop.readDuplicated, List.mem_append]
    by_cases hm : mode = .copy ∨ mode = .copyFromStage
    · simp [hm, Bool.or_assoc]
    · simp [hm]
  · rw [hdirty]
    simp only [hc.pageDirty, hcop.pageDirty, List.mem_append]
    by_cases hq : q = p <;> by_cases hd : dst = cpuId <;> simp [hq, hd]
  · rw [hcpu]
    rcases List.mem_append.mp hq with hq | hq
    · exact hc.cpuKept q (hcop.cpuPages q hd hq)
    · obtain rfl := List.mem_singleton.mp hq
      exact hc.cpuPage hd
  · rw [hcpu]
    exact hc.cpuKept q (hcop.cpuKept q hq)
  · rw [hproc, hc.processors, hs.processors]
  · rw [hcnt]
    simp [hs.count]
  · rw [hmig]
    simp [hs.migrated, Bool.or_assoc]
  · rw [hpushing]
    simp [hpush, hs.pushing]
  · rw [hpushing]
    exact hbegun
  · rw [hcpu]
    simp only [List.mem_append, List.mem_singleton, not_or] at hq
    rw [hc.cpuOthers q (hq.imp_right And.right), hs.untouched q (hq.imp_right And.left)]

private theorem populatePageCpu_spec (s : Residency) (p : ℕ) :
    ((s.populatePageCpu env src p).1 = .ok ↔
        (s.cpuPages p || decide (env.allocCpuPage src p = .ok)) = true) ∧
      (s.populatePageCpu env src p).2 =
        { s with cpuPages := (s.populatePageCpu env src p).2.cpuPages } ∧
      (∀ q, s.cpuPages q = true → (s.populatePageCpu env src p).2.cpuPages q = true) ∧
      (∀ q, q ≠ p → (s.populatePageCpu env src p).2.cpuPages q = s.cpuPages q) ∧
      ((s.populatePageCpu env src p).1 = .ok →
        (s.populatePageCpu env src p).2.cpuPages p = true) := by
  by_cases hcpu : s.cpuPages p = true
  · simp [Residency.populatePageCpu, hcpu]
  · by_cases halloc : env.allocCpuPage src p = .ok
    · simp only [Residency.populatePageCpu, hcpu, halloc]
      refine ⟨by simp, by simp, fun q hq => ?_, fun q hq => by simp [hq], by simp⟩
      by_cases hqp : q = p
      · simp [hqp]
      · simp [hqp, hq]
    · simp [Residency.populatePageCpu, hcpu, halloc]

private theorem populated_spec (s : Residency) (p : ℕ) :
    let r := if dst = cpuId then s.populatePageCpu env src p else (.ok, s)
    (r.1 = .ok ↔ (decide (dst ≠ cpuId) || s.cpuPages p ||
        decide (env.allocCpuPage src p = .ok)) = true) ∧
      r.2 = { s with cpuPages := r.2.cpuPages } ∧
      (∀ q, s.cpuPages q = true → r.2.cpuPages q = true) ∧
      (∀ q, dst ≠ cpuId ∨ q ≠ p → r.2.cpuPages q = s.cpuPages q) ∧
      (dst = cpuId → r.1 = .ok → r.2.cpuPages p = true) := by
  by_cases hd : dst = cpuId
  · obtain ⟨h1, h2, h3, h4, h5⟩ := populatePageCpu_spec env src s p
    simp only [hd]
    exact ⟨by simpa using h1, h2, h3, fun q hq => h4 q (hq.resolve_left (fun h => h rfl)),
      fun _ => h5⟩
  · simp [hd]

private theorem pageIsClean_eq {migrated : PageMask}
    (hs : LoopInv env pass dst src mode b migrated done s) (hp : p ∉ done) {c : Residency}
    (hc : c = { s.block with cpuPages := c.cpuPages }) :
    c.pageIsClean env dst src p = b.pageIsClean env dst src p := by
  have hdirty : c.pageDirty p = b.pageDirty p := by
    rw [hc]
    simp [hs.copied.pageDirty, hp]
  simp only [Residency.pageIsClean, hdirty]

private theorem not_clean_of_cpu (hne : dst ≠ src) (hd : dst = cpuId) :
    b.pageIsClean env dst src p = false := by
  have hsrc : src ≠ cpuId := fun h => hne (hd.trans h.symm)
  simp [Residency.pageIsClean, hsrc]

private theorem copied_spec (c : Residency) (p : ℕ) :
    let c' := (c.updatePageDirtyState env dst src p).memcopy dst src p
    c'.numPages = c.numPages ∧ c'.resident = c.resident ∧
      c'.residentProcessors = c.residentProcessors ∧ c'.readDuplicated = c.readDuplicated ∧
      c'.cpuPages = c.cpuPages ∧
      (∀ id q, c'.holds id q = if id = dst ∧ q = p then c.holds src p else c.holds id q) ∧
      ∀ q, c'.pageDirty q = if dst = cpuId ∧ q = p then
        decide (env.preferredLocation ≠ some src) else c.pageDirty q := by
  have hupd : ∀ id q, Function.update c.holds dst
      (Function.update (c.holds dst) p (c.holds src p)) id q =
        if id = dst ∧ q = p then c.holds src p else c.holds id q := fun id q => by
    by_cases hid : id = dst
    · subst hid
      by_cases hq : q = p <;> simp [hq]
    · simp [hid]
  by_cases hd : dst = cpuId
  · subst hd
    simp only [Residency.memcopy, Residency.updatePageDirtyState, ne_eq, not_true_eq_false,
      if_false, true_and]
    exact ⟨hupd, fun q => by by_cases hq : q = p <;> simp [hq]⟩
  · simp [Residency.memcopy, Residency.updatePageDirtyState, hd, hupd]

private theorem copyPage_goes {migrated : PageMask} (hne : dst ≠ src)
    (hs : LoopInv env pass dst src mode b migrated done s) (hp : p ∉ done)
    (hgoes : pageGoes env pass dst src b p = true) :
    (copyPage env pass dst src mode p s).1 = .ok ∧
      LoopInv env pass dst src mode b migrated (done ++ [p])
        (copyPage env pass dst src mode p s).2 := by
  obtain ⟨hpop, hblock, hkept, hothers, hcpu⟩ := populated_spec env dst src s.block p
  simp only [pageGoes, Bool.and_eq_true] at hgoes
  rw [hs.untouched p (Or.inr hp)] at hpop
  simp only [copyPage]
  generalize (if dst = cpuId then s.block.populatePageCpu env src p else (.ok, s.block)) = r
    at hpop hblock hkept hothers hcpu ⊢
  obtain ⟨status, c⟩ := r
  simp only at hpop hblock hkept hothers hcpu ⊢
  have hstat : status = .ok := hpop.mpr hgoes.1
  subst hstat
  have hclean := pageIsClean_eq env pass dst src mode b hs hp hblock
  rw [if_neg (by simp), hclean]
  cases hcl : b.pageIsClean env dst src p with
  | true =>
    have hd : dst ≠ cpuId := fun h => by
      simp [not_clean_of_cpu env dst src b hne h] at hcl
    refine ⟨rfl, hs.updateBits env pass dst src mode b hne hp c
      ⟨?_, ?_, ?_, ?_, fun id q => ?_, fun q => ?_, fun h => absurd h hd, hkept, hothers⟩
      s.pushing (by simp [hcl]) hs.begun⟩
    all_goals rw [hblock]
    · simp [hcl]
    · simp [hd]
  | false =>
    have hbegin : env.beginPush pass src = .ok := by simpa [hcl] using hgoes.2
    rw [if_neg (by simp), if_neg (by simp [hbegin])]
    obtain ⟨h1, h2, h3, h4, h5, h6, h7⟩ := copied_spec env dst src c p
    have hsrc : s.block.holds src p = b.holds src p := by
      rw [hs.copied.holds, if_neg fun h => hne h.1.symm]
    refine ⟨rfl, hs.updateBits env pass dst src mode b hne hp
      ((c.updatePageDirtyState env dst src p).memcopy dst src p)
      ⟨?_, ?_, ?_, ?_, fun id q => ?_, fun q => ?_, fun h => ?_, fun q hq => ?_, fun q hq => ?_⟩
      true (by simp [hcl]) (fun _ => hbegin)⟩
    · rw [h1, hblock]
    · rw [h2, hblock]
    · rw [h3, hblock]
    · rw [h4, hblock]
    · rw [h6, hblock]
      simp [hcl, hsrc]
    · rw [h7, hblock]
    · rw [h5]
      exact hcpu h rfl
    · rw [h5]
      exact hkept q hq
    · rw [h5, hothers q hq]

private theorem copyPage_stops {migrated : PageMask}
    (hs : LoopInv env pass dst src mode b migrated done s) (hp : p ∉ done)
    (hgoes : pageGoes env pass dst src b p = false) :
    (copyPage env pass dst src mode p s).1 ≠ .ok ∧
      LoopLeft env dst src mode b migrated done (copyPage env pass dst src mode p s).2 ∧
      ∀ q, dst ≠ cpuId ∨ q ∉ done ∧ q ≠ p →
        (copyPage env pass dst src mode p s).2.block.cpuPages q = b.cpuPages q := by
  obtain ⟨hpop, hblock, hkept, hothers, hcpu⟩ := populated_spec env dst src s.block p
  rw [hs.untouched p (Or.inr hp)] at hpop
  simp only [copyPage]
  generalize (if dst = cpuId then s.block.populatePageCpu env src p else (.ok, s.block)) = r
    at hpop hblock hkept hothers hcpu ⊢
  obtain ⟨status, c⟩ := r
  simp only at hpop hblock hkept hothers hcpu ⊢
  -- whatever stopped the loop, only a CPU page may have been allocated
  have hleft : LoopLeft env dst src mode b migrated done { s with block := c } := by
    have hcop := hs.copied
    refine ⟨⟨?_, ?_, ?_, ?_, ?_, fun q hd hq => hkept q (hcop.cpuPages q hd hq),
      fun q hq => hkept q (hcop.cpuKept q hq)⟩, ?_, hs.count, hs.migrated, hs.pushing⟩
    all_goals rw [hblock]
    · exact hcop.numPages
    · exact hcop.resident
    · exact hcop.holds
    · exact hcop.readDuplicated
    · exact hcop.pageDirty
    · exact hs.processors
  have hsame : ∀ q, dst ≠ cpuId ∨ q ∉ done ∧ q ≠ p → c.cpuPages q = b.cpuPages q :=
    fun q hq => by
      rw [hothers q (hq.imp_right And.right), hs.untouched q (hq.imp_right And.left)]
  by_cases hstat : status = .ok
  · have hclean := pageIsClean_eq env pass dst src mode b hs hp hblock
    have hrest : b.pageIsClean env dst src p = false ∧ env.beginPush pass src ≠ .ok := by
      rw [pageGoes, hpop.mp hstat] at hgoes
      simpa using hgoes
    have hpushing : s.pushing = false := by
      rw [← Bool.not_eq_true]
      exact fun h => hrest.2 (hs.begun h)
    rw [if_neg (by simp [hstat]), hclean, hrest.1, if_neg (by simp),
      if_pos (by simp [hpushing, hrest.2])]
    exact ⟨hrest.2, hleft, hsame⟩
  · rw [if_pos hstat]
    exact ⟨hstat, hleft, hsame⟩

private theorem copyPages_spec {migrated : PageMask} (hne : dst ≠ src) :
    ∀ todo done s, (done ++ todo).Nodup →
      LoopInv env pass dst src mode b migrated done s →
      ((runUntil NvStatus.isOk .ok (copyPage env pass dst src mode) todo s).1 = .ok ↔
          todo.all (pageGoes env pass dst src b) = true) ∧
        LoopLeft env dst src mode b migrated
          (done ++ todo.takeWhile (pageGoes env pass dst src b))
          (runUntil NvStatus.isOk .ok (copyPage env pass dst src mode) todo s).2 ∧
        ∀ q, dst ≠ cpuId ∨ q ∉ done ++ todo →
          (runUntil NvStatus.isOk .ok (copyPage env pass dst src mode) todo s).2.block.cpuPages q =
            b.cpuPages q := by
  intro todo
  induction todo with
  | nil =>
    intro done s _ hs
    simpa using ⟨hs.toLoopLeft, hs.untouched⟩
  | cons p rest ih =>
    intro done s hnd hs
    have hp : p ∉ done := fun h => (List.nodup_append.mp hnd).2.2 p h p (by simp) rfl
    cases hgoes : pageGoes env pass dst src b p with
    | true =>
      obtain ⟨hok, hnext⟩ := copyPage_goes env pass dst src mode b hne hs hp hgoes
      rw [runUntil_cons_go (NvStatus.isOk_eq_true.mpr hok)]
      simpa [hgoes] using ih (done ++ [p]) _ (by simpa using hnd) hnext
    | false =>
      obtain ⟨hfail, hleft, hsame⟩ := copyPage_stops env pass dst src mode b hs hp hgoes
      rw [runUntil_cons_stop (NvStatus.isOk_eq_false.mpr hfail)]
      refine ⟨by simp [hgoes, hfail], by simpa [hgoes] using hleft, fun q hq => hsame q ?_⟩
      refine hq.imp_right fun hq => ?_
      simp only [List.mem_append, List.mem_cons, not_or] at hq
      exact ⟨hq.1, hq.2.1⟩

/-! ### One source -/

variable (region : BlockRegion) (pageMask : Option PageMask)

/-- The pages of a source that are copied: those before the first one that does not go. -/
def reachedPages : List ℕ :=
  (movePages b dst src region pageMask).takeWhile (pageGoes env pass dst src b)

/-- No page of the source fails, and neither does the end of its push, if there is one. -/
def sourceEnds : Bool :=
  (movePages b dst src region pageMask).all (pageGoes env pass dst src b) &&
    ((movePages b dst src region pageMask).all (b.pageIsClean env dst src) ||
      env.addPush pass src = .ok)

variable {env pass dst src mode b region pageMask}

theorem mem_movePages : p ∈ movePages b dst src region pageMask ↔ p ∈ region.pages pageMask ∧
      b.resident src p = true ∧ b.resident dst p = false := by
  simp [movePages]

theorem mem_of_reachedPages (h : p ∈ reachedPages env pass dst src b region pageMask) :
    p ∈ movePages b dst src region pageMask :=
  List.takeWhile_subset _ h

theorem nodup_pages : (region.pages pageMask).Nodup :=
  List.Nodup.filter _ List.nodup_range'

/-- What the copies from one source leave. -/
structure BetweenSpec (env : CopyEnv) (pass : CopyPass) (dst src : ProcessorId)
    (region : BlockRegion) (pageMask : Option PageMask) (mode : InternalMode) (b : Residency)
    (migrated : PageMask) (r : CopyResult) : Prop where
  copied : CopiedFrom env dst src mode b
    (reachedPages env pass dst src b region pageMask) r.block
  count : r.copiedPages = (reachedPages env pass dst src b region pageMask).length
  migrated : ∀ p, r.migrated p = (migrated p ||
    decide (p ∈ reachedPages env pass dst src b region pageMask))
  status : r.status = .ok ↔ sourceEnds env pass dst src b region pageMask = true
  cpuOthers : ∀ p, dst ≠ cpuId ∨ p ∉ movePages b dst src region pageMask →
    r.block.cpuPages p = b.cpuPages p
  processors : ∀ id, r.block.residentProcessors id =
    if id = src ∧ mode = .moveFromStage ∧ r.copiedPages ≠ 0 ∧ r.block.residentEmpty src = true
    then false
    else (b.residentProcessors id || (decide (id = dst) && decide (r.copiedPages ≠ 0)))

private theorem finish_spec (dst src : ProcessorId) (mode : InternalMode) (s : Residency)
    (copied : ℕ) :
    let c := if copied ≠ 0 then s.setResidentProcessor dst else s
    let c := if copied ≠ 0 ∧ mode = .moveFromStage ∧ c.residentEmpty src = true
      then c.clearResidentProcessor src else c
    c = { s with residentProcessors := c.residentProcessors } ∧
      ∀ id, c.residentProcessors id =
        if id = src ∧ mode = .moveFromStage ∧ copied ≠ 0 ∧ s.residentEmpty src = true then false
        else (s.residentProcessors id || (decide (id = dst) && decide (copied ≠ 0))) := by
  have hempty : (s.setResidentProcessor dst).residentEmpty src = s.residentEmpty src := rfl
  by_cases h0 : copied = 0
  · simp [h0]
  · have hset : ∀ id, Function.update s.residentProcessors dst true id =
        (s.residentProcessors id || decide (id = dst)) := fun id => by
      by_cases hid : id = dst <;> simp [hid]
    have h0' : copied ≠ 0 := h0
    simp only [if_pos h0', hempty]
    by_cases hclear : copied ≠ 0 ∧ mode = .moveFromStage ∧ s.residentEmpty src = true
    · simp only [if_pos hclear]
      refine ⟨rfl, fun id => ?_⟩
      by_cases hid : id = src <;>
        simp [Residency.clearResidentProcessor, Residency.setResidentProcessor, hset, hid, h0',
          hclear.2]
    · simp only [if_neg hclear]
      refine ⟨rfl, fun id => ?_⟩
      have hkeep : ¬ (id = src ∧ mode = .moveFromStage ∧ copied ≠ 0 ∧
          s.residentEmpty src = true) := fun h => hclear ⟨h0', h.2.1, h.2.2.2⟩
      rw [if_neg hkeep]
      simp [Residency.setResidentProcessor, hset, h0']

theorem between_spec (hne : dst ≠ src) (migrated : PageMask) :
    BetweenSpec env pass dst src region pageMask mode b migrated
      (blockCopyResidentPagesBetween env pass dst src region pageMask mode b migrated) := by
  have hinit : LoopInv env pass dst src mode b migrated [] ⟨b, migrated, 0, false⟩ :=
    ⟨⟨⟨rfl, fun id p => by
        by_cases hd : id = dst <;> by_cases hs : id = src ∧ mode = .moveFromStage <;>
          simp [hd, hs, hne.symm],
      by simp, by simp, by simp, by simp, fun _ h => h⟩, rfl, rfl, by simp, rfl⟩,
      by simp, fun _ _ => rfl⟩
  have hnd : ([] ++ movePages b dst src region pageMask).Nodup :=
    List.Nodup.filter _ nodup_pages
  obtain ⟨hst, hleft, hsame⟩ := copyPages_spec env pass dst src mode b hne _ _ _ hnd hinit
  rw [List.nil_append, ← reachedPages] at hleft
  simp only [blockCopyResidentPagesBetween, if_neg hne]
  generalize runUntil NvStatus.isOk .ok (copyPage env pass dst src mode)
    (movePages b dst src region pageMask) ⟨b, migrated, 0, false⟩ = r at hst hleft hsame ⊢
  obtain ⟨status, s⟩ := r
  simp only [List.nil_append] at hst hleft hsame ⊢
  obtain ⟨hblock, hprocs⟩ := finish_spec dst src mode s.block s.copiedPages
  generalize (if s.copiedPages ≠ 0 ∧ mode = .moveFromStage ∧
      (if s.copiedPages ≠ 0 then s.block.setResidentProcessor dst
        else s.block).residentEmpty src = true then
      (if s.copiedPages ≠ 0 then s.block.setResidentProcessor dst
        else s.block).clearResidentProcessor src
    else if s.copiedPages ≠ 0 then s.block.setResidentProcessor dst else s.block) = c
    at hblock hprocs ⊢
  have hcop := hleft.copied
  refine ⟨⟨?_, ?_, ?_, ?_, ?_, ?_, ?_⟩, hleft.count, hleft.migrated, ?_, ?_,
    fun id => ?_⟩
  · rw [hblock]; exact hcop.numPages
  · rw [hblock]; exact hcop.resident
  · rw [hblock]; exact hcop.holds
  · rw [hblock]; exact hcop.readDuplicated
  · rw [hblock]; exact hcop.pageDirty
  · rw [hblock]; exact hcop.cpuPages
  · rw [hblock]; exact hcop.cpuKept
  · -- the push that was begun ends
    simp only [sourceEnds, Bool.and_eq_true, ← hst, hleft.pushing]
    have hall (hok : status = .ok) : reachedPages env pass dst src b region pageMask =
        movePages b dst src region pageMask :=
      List.takeWhile_eq_self_iff.mpr (List.all_eq_true.mp (hst.mp hok))
    by_cases hok : status = .ok
    · rw [hall hok]
      cases hc : (movePages b dst src region pageMask).all (b.pageIsClean env dst src)
      · have hany : ((movePages b dst src region pageMask).any fun p =>
            !b.pageIsClean env dst src p) = true := by
          simpa using hc
        simp [hany, hok]
      · have hany : ((movePages b dst src region pageMask).any fun p =>
            !b.pageIsClean env dst src p) = false := by
          simpa using hc
        simp [hany, hok]
    · have hfail : (if (reachedPages env pass dst src b region pageMask).any fun p =>
          !b.pageIsClean env dst src p then status.orElse (env.addPush pass src) else status) ≠
          .ok := by
        split
        · exact fun h => hok (NvStatus.orElse_eq_ok.mp h).1
        · exact hok
      exact ⟨fun h => absurd h hfail, fun h => absurd h.1 hok⟩
  · rw [hblock]; exact hsame
  · rw [hprocs, hleft.processors]
    have hempty : c.residentEmpty src = s.block.residentEmpty src := by
      rw [hblock]
      rfl
    rw [hempty]

variable {migrated : PageMask} {r : CopyResult}

theorem BetweenSpec.holds_mono (h : BetweenSpec env pass dst src region pageMask mode b migrated r)
    (hb : b.Consistent env) {id : ProcessorId} (hp : b.holds id p = true) :
    r.block.holds id p = true := by
  rw [h.copied.holds]
  split
  · rename_i hc
    exact hb.memory src p (mem_movePages.mp (mem_of_reachedPages hc.2.1)).2.1
  · exact hp

theorem BetweenSpec.holds_reached
    (h : BetweenSpec env pass dst src region pageMask mode b migrated r) (hb : b.Consistent env)
    (hp : p ∈ reachedPages env pass dst src b region pageMask) : r.block.holds dst p = true := by
  have hsrc := (mem_movePages.mp (mem_of_reachedPages hp)).2.1
  rw [h.copied.holds]
  cases hcl : b.pageIsClean env dst src p with
  | false => simpa [hp] using hb.memory src p hsrc
  | true =>
    -- a clean page is not copied, for its destination still holds its data
    have hcpu : src = cpuId := by
      simp only [Residency.pageIsClean, Bool.and_eq_true, decide_eq_true_eq] at hcl
      exact hcl.1.1.2
    subst hcpu
    simpa using hb.clean dst p hsrc hcl

theorem BetweenSpec.resident_others
    (h : BetweenSpec env pass dst src region pageMask mode b migrated r) {id : ProcessorId}
    (hid : id ≠ dst) (hp : r.block.resident id p = true) : b.resident id p = true := by
  rw [h.copied.resident, if_neg hid] at hp
  split at hp
  · rename_i hc
    rw [hc.1]
    exact (Bool.and_eq_true_iff.mp hp).1
  · exact hp

theorem BetweenSpec.consistent
    (h : BetweenSpec env pass dst src region pageMask mode b migrated r) (hne : dst ≠ src)
    (hpages : ∀ p ∈ region.pages pageMask, p < b.numPages) (hb : b.Consistent env) :
    r.block.Consistent env := by
  refine ⟨fun id p hp => ?_, fun d p hp hcl => ?_, fun id => ?_⟩
  · by_cases hid : id = dst
    · subst hid
      rw [h.copied.resident, if_pos rfl, Bool.or_eq_true, decide_eq_true_eq] at hp
      rcases hp with hp | hp
      · exact h.holds_mono hb (hb.memory id p hp)
      · exact h.holds_reached hb hp
    · exact h.holds_mono hb (hb.memory id p (h.resident_others hid hp))
  · by_cases hcopied : dst = cpuId ∧ p ∈ reachedPages env pass dst src b region pageMask
    · -- a page copied to the CPU is clean only for the processor it was copied from
      obtain ⟨rfl, hmem⟩ := hcopied
      have hdirty : r.block.pageDirty p = decide (env.preferredLocation ≠ some src) := by
        rw [h.copied.pageDirty, if_pos ⟨rfl, hmem⟩]
      simp only [Residency.pageIsClean, hdirty, Bool.and_eq_true, decide_eq_true_eq,
        Bool.not_eq_true', decide_eq_false_iff_not, not_not] at hcl
      obtain ⟨⟨⟨hd, -⟩, -⟩, hsrc⟩ := hcl
      obtain rfl : d = src := Option.some.inj (hd.symm.trans hsrc)
      exact h.holds_mono hb (hb.memory d p (mem_movePages.mp (mem_of_reachedPages hmem)).2.1)
    · have hdirty : r.block.pageDirty p = b.pageDirty p := by
        rw [h.copied.pageDirty, if_neg hcopied]
      have hres : b.resident cpuId p = true := by
        by_cases hd : cpuId = dst
        · rw [h.copied.resident, if_pos hd, Bool.or_eq_true, decide_eq_true_eq] at hp
          rcases hp with hp | hp
          · rwa [hd]
          · exact absurd ⟨hd.symm, hp⟩ hcopied
        · exact h.resident_others hd hp
      rw [Residency.pageIsClean, hdirty] at hcl
      exact h.holds_mono hb (hb.clean d p hres hcl)
  · have hnum := h.copied.numPages
    have hcnt : r.copiedPages ≠ 0 ↔ ∃ p, p ∈ reachedPages env pass dst src b region pageMask := by
      rw [h.count, ← Nat.pos_iff_ne_zero, List.length_pos_iff_exists_mem]
    rw [h.processors]
    split
    · -- the stage is empty
      rename_i hc
      obtain ⟨rfl, -, -, hempty⟩ := hc
      rw [← Residency.residentEmpty_eq_false, hempty]
      simp
    · rename_i hc
      by_cases hid : id = dst
      · subst hid
        simp only [decide_true, Bool.true_and, Bool.or_eq_true, decide_eq_true_eq, hcnt,
          hb.processors, hnum, h.copied.resident, if_true]
        constructor
        · rintro (⟨p, hp, hres⟩ | ⟨p, hp⟩)
          · exact ⟨p, hp, Or.inl hres⟩
          · exact ⟨p, hpages p (mem_movePages.mp (mem_of_reachedPages hp)).1, Or.inr hp⟩
        · rintro ⟨p, hp, hres | hmem⟩
          · exact Or.inl ⟨p, hp, hres⟩
          · exact Or.inr ⟨p, hmem⟩
      · simp only [hid, decide_false, Bool.false_and, Bool.or_false, hb.processors, ← hnum]
        refine ⟨fun ⟨p, hp, hres⟩ => ?_, fun ⟨p, hp, hres⟩ => ⟨p, hp, h.resident_others hid hres⟩⟩
        by_cases hstage : id = src ∧ mode = .moveFromStage
        · by_cases hzero : r.copiedPages = 0
          · refine ⟨p, hp, ?_⟩
            have hnone : p ∉ reachedPages env pass dst src b region pageMask := fun hmem =>
              hcnt.mpr ⟨p, hmem⟩ hzero
            rw [h.copied.resident, if_neg hid, if_pos hstage, ← hstage.1, hres]
            simpa [hstage.1] using hnone
          · -- something is left on the stage
            have hleft : r.block.residentEmpty src = false := by
              rw [← Bool.not_eq_true]
              exact fun hempty => hc ⟨hstage.1, hstage.2, hzero, hempty⟩
            rw [hstage.1]
            exact Residency.residentEmpty_eq_false.mp hleft
        · refine ⟨p, hp, ?_⟩
          rw [h.copied.resident, if_neg hid, if_neg hstage, hres]

end Between

end NvUvm
