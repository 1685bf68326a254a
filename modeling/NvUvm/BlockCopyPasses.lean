import NvUvm.BlockCopyPages

/-!
# What a pass over several sources leaves

`passPlan` tells from the residency before a pass which pages the pass brings to its
destination and whether it completes: the sources are taken in order, each for the pages that
are still missing, until one fails or the number of copied pages is what the caller asked for.
`pass_spec` says that `blockCopyResidentPagesMask` leaves exactly what its plan says.
-/

namespace NvUvm

section Plan

variable (env : CopyEnv) (pass : CopyPass) (dst : ProcessorId) (region : BlockRegion)
  (pageMask : Option PageMask) (b : Residency) (maxPagesToCopy : ℕ)

/-- What a pass brings to its destination, and whether all of it completes. -/
structure PassPlan where
  pages : List ℕ
  completes : Bool

/-- The pages of a source that the destination, which has `got`, is to get from it. -/
def sourcePages (got : PageMask) (src : ProcessorId) : List ℕ :=
  (region.pages pageMask).filter fun p => b.resident src p && !got p

/-- Getting `pages` from the source does not fail. -/
def getsAll (src : ProcessorId) (pages : List ℕ) : Bool :=
  pages.all (pageGoes env pass dst src b) &&
    (pages.all (b.pageIsClean env dst src) || env.addPush pass src = .ok)

/-- The plan of a pass over `sources`; the destination has `got`, and `copied` pages are
copied so far. -/
def passPlan : List ProcessorId → PageMask → ℕ → PassPlan
  | [], _, _ => ⟨[], true⟩
  | src :: rest, got, copied =>
    let pages := sourcePages region pageMask b got src
    let reached := pages.takeWhile (pageGoes env pass dst src b)
    if !getsAll env pass dst b src pages then ⟨reached, false⟩
    else if copied + pages.length = maxPagesToCopy then ⟨pages, true⟩
    else
      let more := passPlan rest (fun p => got p || decide (p ∈ pages)) (copied + pages.length)
      ⟨pages ++ more.pages, more.completes⟩

end Plan

section Pass

variable {env : CopyEnv} {pass : CopyPass} {dst : ProcessorId} {region : BlockRegion}
  {pageMask : Option PageMask} {b : Residency} {maxPagesToCopy : ℕ}

theorem passPlan_pages : ∀ sources got copied,
      (passPlan env pass dst region pageMask b maxPagesToCopy sources got copied).pages.Nodup ∧
      ∀ p ∈ (passPlan env pass dst region pageMask b maxPagesToCopy sources got copied).pages,
        p ∈ region.pages pageMask ∧ got p = false ∧
          ∃ src ∈ sources, b.resident src p = true := by
  intro sources
  induction sources with
  | nil => intro got copied; simp [passPlan]
  | cons src rest ih =>
    intro got copied
    have hpages : ∀ p ∈ sourcePages region pageMask b got src, p ∈ region.pages pageMask ∧
        got p = false ∧ ∃ s ∈ src :: rest, b.resident s p = true := fun p hp => by
      simp only [sourcePages, List.mem_filter, Bool.and_eq_true, Bool.not_eq_true'] at hp
      exact ⟨hp.1, hp.2.2, src, List.mem_cons_self, hp.2.1⟩
    have hnd : (sourcePages region pageMask b got src).Nodup := List.Nodup.filter _ nodup_pages
    simp only [passPlan]
    split
    · exact ⟨hnd.sublist (List.takeWhile_sublist _), fun p hp => hpages p
        (List.takeWhile_subset _ hp)⟩
    · split
      · exact ⟨hnd, hpages⟩
      · obtain ⟨hn, hrest⟩ := ih (fun p => got p || decide (p ∈ sourcePages region pageMask b got src))
          (copied + (sourcePages region pageMask b got src).length)
        refine ⟨List.nodup_append.mpr ⟨hnd, hn, fun p hp q hq hpq => ?_⟩, fun p hp => ?_⟩
        · -- what a later source brings is still missing then
          subst hpq
          have := (hrest p hq).2.1
          simp [hp] at this
        · rcases List.mem_append.mp hp with hp | hp
          · exact hpages p hp
          · obtain ⟨h1, h2, s, hs, h3⟩ := hrest p hp
            simp only [Bool.or_eq_false_iff] at h2
            exact ⟨h1, h2.1, s, List.mem_cons_of_mem _ hs, h3⟩

/-- The block `s` in which a pass is to do what was planned for `b`. -/
structure Agrees (env : CopyEnv) (pass : CopyPass) (dst : ProcessorId) (b : Residency)
    (sources : List ProcessorId) (got : PageMask) (s : Residency) : Prop where
  atDst : s.resident dst = got
  resident : ∀ src ∈ sources, s.resident src = b.resident src
  goes : ∀ src ∈ sources, ∀ p, got p = false →
    pageGoes env pass dst src s p = pageGoes env pass dst src b p
  clean : ∀ src ∈ sources, ∀ p, got p = false →
    s.pageIsClean env dst src p = b.pageIsClean env dst src p

/-- What a pass leaves in block `s` whose plan is `plan`. -/
structure PassSpec (env : CopyEnv) (dst : ProcessorId) (mode : InternalMode)
    (sources : List ProcessorId) (plan : PassPlan) (s : Residency) (copied : ℕ)
    (migrated : PageMask) (r : CopyResult) : Prop where
  status : r.status = .ok ↔ plan.completes = true
  count : plan.completes = true → r.copiedPages = copied + plan.pages.length
  migrated : ∀ p, r.migrated p = (migrated p || decide (p ∈ plan.pages))
  numPages : r.block.numPages = s.numPages
  resident : ∀ id p, r.block.resident id p =
    (s.resident id p || (decide (id = dst) && decide (p ∈ plan.pages)))
  readDuplicated : ∀ p, r.block.readDuplicated p = (s.readDuplicated p ||
    (decide (mode = .copy ∨ mode = .copyFromStage) && decide (p ∈ plan.pages)))
  others : ∀ id p, id ≠ dst ∨ p ∉ plan.pages → r.block.holds id p = s.holds id p
  brought : s.Consistent env → ∀ p ∈ plan.pages, r.block.holds dst p = true
  dirtyKept : ∀ p, dst ≠ cpuId ∨ p ∉ plan.pages → r.block.pageDirty p = s.pageDirty p
  dirtied : ∀ p ∈ plan.pages, dst = cpuId →
    (∀ src ∈ sources, env.preferredLocation ≠ some src) → r.block.pageDirty p = true
  cpuPages : ∀ p, dst = cpuId → p ∈ plan.pages → r.block.cpuPages p = true
  cpuKept : ∀ p, s.cpuPages p = true → r.block.cpuPages p = true
  cpuOthers : dst ≠ cpuId → r.block.cpuPages = s.cpuPages
  consistent : s.Consistent env → r.block.Consistent env

variable {migrated : PageMask} {mode : InternalMode} {r : CopyResult} {s : Residency}
  {src : ProcessorId} {sources : List ProcessorId}

private theorem BetweenSpec.goes_eq
    (h : BetweenSpec env pass dst src region pageMask mode s migrated r) {p : ℕ}
    (hp : p ∉ movePages s dst src region pageMask) (q : ProcessorId) :
    pageGoes env pass dst q r.block p = pageGoes env pass dst q s p ∧
      r.block.pageIsClean env dst q p = s.pageIsClean env dst q p := by
  have hdirty : r.block.pageDirty p = s.pageDirty p := by
    rw [h.copied.pageDirty, if_neg fun hc => hp (mem_of_reachedPages hc.2)]
  have hclean : r.block.pageIsClean env dst q p = s.pageIsClean env dst q p := by
    simp only [Residency.pageIsClean, hdirty]
  refine ⟨?_, hclean⟩
  rw [pageGoes, pageGoes, hclean, h.cpuOthers p (Or.inr hp)]

private theorem PassSpec.single (hmode : mode ≠ .moveFromStage) (hsrc : src ∈ sources)
    (hne : dst ≠ src) (copied : ℕ) (hregion : ∀ p ∈ region.pages pageMask, p < s.numPages)
    (h : BetweenSpec env pass dst src region pageMask mode s migrated r) {n : ℕ}
    (hn : sourceEnds env pass dst src s region pageMask = true → n = copied + r.copiedPages) :
    PassSpec env dst mode sources ⟨reachedPages env pass dst src s region pageMask,
      sourceEnds env pass dst src s region pageMask⟩ s copied migrated
      { r with copiedPages := n } := by
  have hcop := h.copied
  refine ⟨h.status, fun hc => by rw [hn hc, h.count], h.migrated, hcop.numPages,
    fun id p => ?_, hcop.readDuplicated, fun id p hp => ?_, fun hs p hp => h.holds_reached hs hp,
    fun p hp => ?_, fun p hp hd hpref => ?_, fun p hd hp => hcop.cpuPages p hd hp, hcop.cpuKept,
    fun hd => funext fun p => h.cpuOthers p (Or.inl hd), fun hs => h.consistent hne hregion hs⟩
  · rw [hcop.resident]
    by_cases hid : id = dst
    · simp [hid]
    · simp [hid, hmode]
  · rw [hcop.holds, if_neg]
    rintro ⟨h1, h2, -⟩
    exact hp.elim (fun h => h h1) (fun h => h h2)
  · rw [hcop.pageDirty, if_neg]
    rintro ⟨h1, h2⟩
    exact hp.elim (fun h => h h1) (fun h => h h2)
  · rw [hcop.pageDirty, if_pos ⟨hd, hp⟩]
    simpa using hpref src hsrc

private theorem PassSpec.trans {rest : List ProcessorId} (hsub : rest ⊆ sources) {pages : List ℕ}
    {plan : PassPlan} {copied : ℕ} {r' : CopyResult}
    (h : PassSpec env dst mode sources ⟨pages, true⟩ s copied migrated r)
    (h' : PassSpec env dst mode rest plan r.block r.copiedPages r.migrated r') :
    PassSpec env dst mode sources ⟨pages ++ plan.pages, plan.completes⟩ s copied migrated r' := by
  refine ⟨h'.status, fun hc => ?_, fun p => ?_, h'.numPages.trans h.numPages, fun id p => ?_,
    fun p => ?_, fun id p hp => ?_, fun hs p hp => ?_, fun p hp => ?_, fun p hp hd hpref => ?_,
    fun p hd hp => ?_, fun p hp => h'.cpuKept p (h.cpuKept p hp),
    fun hd => (h'.cpuOthers hd).trans (h.cpuOthers hd), fun hs => h'.consistent (h.consistent hs)⟩
  · rw [h'.count hc, h.count rfl, List.length_append, Nat.add_assoc]
  · rw [h'.migrated, h.migrated]
    simp [Bool.or_assoc]
  · rw [h'.resident, h.resident]
    by_cases hid : id = dst <;> simp [hid, Bool.or_assoc]
  · rw [h'.readDuplicated, h.readDuplicated]
    by_cases hm : mode = .copy ∨ mode = .copyFromStage <;> simp [hm, Bool.or_assoc]
  · simp only [List.mem_append, not_or] at hp
    rw [h'.others id p (hp.imp_right And.right), h.others id p (hp.imp_right And.left)]
  · by_cases hp' : p ∈ plan.pages
    · exact h'.brought (h.consistent hs) p hp'
    · rw [h'.others dst p (Or.inr hp')]
      exact h.brought hs p ((List.mem_append.mp hp).resolve_right hp')
  · simp only [List.mem_append, not_or] at hp
    rw [h'.dirtyKept p (hp.imp_right And.right), h.dirtyKept p (hp.imp_right And.left)]
  · by_cases hp' : p ∈ plan.pages
    · exact h'.dirtied p hp' hd fun src hsrc => hpref src (hsub hsrc)
    · rw [h'.dirtyKept p (Or.inr hp')]
      exact h.dirtied p ((List.mem_append.mp hp).resolve_right hp') hd hpref
  · rcases List.mem_append.mp hp with hp | hp
    · exact h'.cpuKept p (h.cpuPages p hd hp)
    · exact h'.cpuPages p hd hp

private theorem all_congr_of_mem {α : Type*} {f g : α → Bool} {l : List α}
    (h : ∀ x ∈ l, f x = g x) : l.all f = l.all g := by
  rw [Bool.eq_iff_iff, List.all_eq_true, List.all_eq_true]
  exact forall₂_congr fun x hx => by rw [h x hx]

private theorem takeWhile_congr {α : Type*} {f g : α → Bool} :
    ∀ {l : List α}, (∀ x ∈ l, f x = g x) → l.takeWhile f = l.takeWhile g
  | [], _ => rfl
  | x :: l, h => by
    simp only [List.takeWhile_cons, h x List.mem_cons_self,
      takeWhile_congr fun y hy => h y (List.mem_cons_of_mem x hy)]

private theorem Agrees.source {got : PageMask} (h : Agrees env pass dst b sources got s)
    (hsrc : src ∈ sources) (region : BlockRegion) (pageMask : Option PageMask) :
    movePages s dst src region pageMask = sourcePages region pageMask b got src ∧
      reachedPages env pass dst src s region pageMask =
        (sourcePages region pageMask b got src).takeWhile (pageGoes env pass dst src b) ∧
      sourceEnds env pass dst src s region pageMask =
        getsAll env pass dst b src (sourcePages region pageMask b got src) := by
  set t := sourcePages region pageMask b got src
  have hpages : movePages s dst src region pageMask = sourcePages region pageMask b got src := by
    simp only [movePages, sourcePages, h.atDst, h.resident src hsrc]
  have hmiss : ∀ p ∈ sourcePages region pageMask b got src, got p = false := fun p hp => by
    simp only [sourcePages, List.mem_filter, Bool.and_eq_true, Bool.not_eq_true'] at hp
    exact hp.2.2
  refine ⟨hpages, ?_, ?_⟩
  · rw [reachedPages, hpages]
    exact takeWhile_congr fun p hp => h.goes src hsrc p (hmiss p hp)
  · have hgoes : t.all (pageGoes env pass dst src s) = t.all (pageGoes env pass dst src b) :=
      all_congr_of_mem fun p hp => h.goes src hsrc p (hmiss p hp)
    have hclean : t.all (s.pageIsClean env dst src) = t.all (b.pageIsClean env dst src) :=
      all_congr_of_mem fun p hp => h.clean src hsrc p (hmiss p hp)
    rw [sourceEnds, getsAll, hpages, hgoes, hclean]

theorem pass_spec (hmode : mode ≠ .moveFromStage) : ∀ sources got copied s migrated, dst ∉ sources →
      (∀ p ∈ region.pages pageMask, p < s.numPages) →
      Agrees env pass dst b sources got s →
      PassSpec env dst mode sources
        (passPlan env pass dst region pageMask b maxPagesToCopy sources got copied) s copied
        migrated (blockCopyResidentPagesMask env pass dst region pageMask mode maxPagesToCopy
          sources copied s migrated) := by
  intro sources
  induction sources with
  | nil =>
    intro got copied s migrated _ _ _
    exact ⟨by simp [blockCopyResidentPagesMask, passPlan], by simp [blockCopyResidentPagesMask,
      passPlan], by simp [blockCopyResidentPagesMask, passPlan], rfl,
      by simp [blockCopyResidentPagesMask, passPlan],
      by simp [blockCopyResidentPagesMask, passPlan], fun _ _ _ => rfl, by simp [passPlan],
      fun _ _ => rfl, by simp [passPlan], by simp [passPlan], fun _ h => h, fun _ => rfl, id⟩
  | cons src rest ih =>
    intro got copied s migrated hdst hregion hagree
    have hne : dst ≠ src := fun h => hdst (h ▸ List.mem_cons_self)
    obtain ⟨hmove, hreached, hends⟩ := hagree.source List.mem_cons_self region pageMask
    have hspec : BetweenSpec env pass dst src region pageMask mode s migrated
        (blockCopyResidentPagesBetween env pass dst src region pageMask mode s migrated) :=
      between_spec hne migrated
    have hsrc : src ∈ src :: rest := List.mem_cons_self
    simp only [blockCopyResidentPagesMask, passPlan]
    generalize blockCopyResidentPagesBetween env pass dst src region pageMask mode s migrated = r
      at hspec ⊢
    cases hgets : getsAll env pass dst b src (sourcePages region pageMask b got src) with
    | false =>
      -- the source fails, and so does the pass
      rw [hgets] at hends
      have hfail : r.status ≠ .ok := fun h => by simp [hspec.status.mp h] at hends
      rw [if_pos hfail, if_pos Bool.not_false, ← hreached]
      have := PassSpec.single hmode hsrc hne copied hregion hspec (n := copied)
        (fun h => by simp [h] at hends)
      rwa [hends] at this
    | true =>
      rw [hgets] at hends
      have hok : r.status = .ok := hspec.status.mpr hends
      have hall : reachedPages env pass dst src s region pageMask =
          sourcePages region pageMask b got src := by
        rw [hreached]
        exact List.takeWhile_eq_self_iff.mpr
          (List.all_eq_true.mp (Bool.and_eq_true_iff.mp hgets).1)
      have hcnt : r.copiedPages = (sourcePages region pageMask b got src).length := by
        rw [hspec.count, hall]
      have hsingle := PassSpec.single hmode hsrc hne copied hregion hspec
        (n := copied + r.copiedPages) (fun _ => rfl)
      rw [hends, hall] at hsingle
      rw [if_neg (show ¬ (!true) = true by simp), if_neg (not_not.mpr hok), hcnt]
      rw [hcnt] at hsingle
      by_cases hmax : copied + (sourcePages region pageMask b got src).length = maxPagesToCopy
      · rw [if_pos hmax, if_pos hmax]
        exact hsingle
      · rw [if_neg hmax, if_neg hmax]
        -- the pass goes on with the pages the source has not brought
        refine hsingle.trans (List.subset_cons_self src rest) ?_
        have hmiss : ∀ p, (got p || decide (p ∈ sourcePages region pageMask b got src)) = false →
            got p = false ∧ p ∉ movePages s dst src region pageMask := fun p hp => by
          simpa [hmove] using hp
        refine ih _ _ r.block r.migrated (fun h => hdst (List.mem_cons_of_mem src h))
          (fun p hp => hspec.copied.numPages ▸ hregion p hp) ⟨funext fun p => ?_,
            fun q hq => funext fun p => ?_, fun q hq p hp => ?_, fun q hq p hp => ?_⟩
        · rw [hspec.copied.resident, if_pos rfl, hall, hagree.atDst]
        · have hqd : q ≠ dst := fun h => hdst (h ▸ List.mem_cons_of_mem src hq)
          rw [hspec.copied.resident, if_neg hqd, if_neg fun h => hmode h.2,
            hagree.resident q (List.mem_cons_of_mem src hq)]
        · rw [(hspec.goes_eq (hmiss p hp).2 q).1]
          exact hagree.goes q (List.mem_cons_of_mem src hq) p (hmiss p hp).1
        · rw [(hspec.goes_eq (hmiss p hp).2 q).2]
          exact hagree.clean q (List.mem_cons_of_mem src hq) p (hmiss p hp).1

end Pass

end NvUvm
