import NvUvm.PreventMigration

/-!
# What a section lists, and what the call has to do

The facts about single functions that the invariant of `PreventMigrationHolds` rests on.
-/

namespace NvUvm

open Lib

/-! ## The range group ranges that a loop lists -/

/-- A loop finds a range group range: it looks at a page in it, and no page that it looks at is in the
gap right before it.  On such a page the iterator would stop at the range group range, and
`rgr_has_changed` would be cleared again before its first page. -/
def PageLoop.Finds (k : PageLoop) (tree : List RangeGroupRange) (q : RangeGroupRange) : Prop :=
  (∃ a ∈ k.pages, q.Contains a) ∧
    ∀ b ∈ k.pages, b < q.start → ∃ q' ∈ tree, q'.start < q.start ∧ b ≤ q'.last

variable {a last : ℕ} {node tree : List RangeGroupRange} {q : RangeGroupRange} {k : PageLoop}
  {n : VaRangeNode} {pages : ℕ → PageState} {sec : BlockSection} {sp : GroupSpace}
  {r : Lib.Interval ℕ}

private theorem seekGroupRange_spec (hnode : Ordered node) (hq : q ∈ node) (ha : a ≤ q.last)
    (hlast : q.start ≤ last) (changed : Bool) :
    (seekGroupRange last a node changed).1 <:+ node ∧
      q ∈ (seekGroupRange last a node changed).1 ∧
      (∀ h ∈ (seekGroupRange last a node changed).1.head?, a ≤ h.last) ∧
      ((seekGroupRange last a node changed).2 = true ∨
        seekGroupRange last a node changed = (node, changed)) := by
  induction node generalizing changed with
  | nil => simp at hq
  | cons r rest ih =>
    unfold seekGroupRange
    by_cases hr : r.last < a
    · have hmem : q ∈ rest := by
        rcases List.mem_cons.mp hq with rfl | h
        · omega
        · exact h
      obtain ⟨n, rest', rfl⟩ : ∃ n rest', rest = n :: rest' :=
        List.exists_cons_of_ne_nil (List.ne_nil_of_mem hmem)
      have hn : n.start ≤ last := by
        rcases List.mem_cons.mp hmem with rfl | h
        · exact hlast
        · have h₁ := hnode.tail.head_lt h
          have h₂ := hnode.1 n (by simp)
          omega
      obtain ⟨hsuf, hmem', hhead, hmoved⟩ := ih hnode.tail hmem true
      simp only [hr, if_true, List.head?_cons, Option.any_some, hn, decide_true]
      refine ⟨hsuf.trans (List.suffix_cons _ _), hmem', hhead, Or.inl ?_⟩
      rcases hmoved with h | h
      · exact h
      · rw [h]
    · rw [if_neg hr]
      exact ⟨List.suffix_rfl, hq, by simpa using Nat.not_lt.mp hr, Or.inr rfl⟩

private theorem mem_listRanges {pages : List ℕ} (hpages : pages.Pairwise (· < ·))
    (hlast : q.start ≤ last) (ha : ∃ a ∈ pages, q.Contains a) (hnode : Ordered node) (hq : q ∈ node)
    (hgap : ∀ b ∈ pages, b < q.start → ∃ q' ∈ node, q'.start < q.start ∧ b ≤ q'.last)
    {changed : Bool} (hfirst : changed = true ∨ node.head? ≠ some q) :
    q ∈ listRanges last pages node changed := by
  induction pages generalizing node changed with
  | nil => simp at ha
  | cons b rest ih =>
    obtain ⟨a, hmem, hlo, hhi⟩ := ha
    have hba : b ≤ a := by
      rcases List.mem_cons.mp hmem with rfl | h
      · exact le_refl _
      · exact ((List.pairwise_cons.mp hpages).1 a h).le
    obtain ⟨hsuf, hmem', hhead, hmoved⟩ :=
      seekGroupRange_spec hnode hq (hba.trans hhi) hlast changed
    have hord := hnode.of_suffix hsuf
    simp only [listRanges, List.mem_append]
    by_cases hb : b < q.start
    · -- the page is before the range group range, and so is the node that the loop stops at
      right
      obtain ⟨q', hq', hstart, hle⟩ := hgap b (by simp) hb
      have hafter : ∀ q'' ∈ node, q''.start < q.start → b ≤ q''.last →
          q'' ∈ (seekGroupRange last b node changed).1 := fun q'' h hs hl =>
        (seekGroupRange_spec hnode h hl (hs.le.trans hlast) changed).2.1
      apply ih (List.pairwise_cons.mp hpages).2
      · refine ⟨a, ?_, hlo, hhi⟩
        rcases List.mem_cons.mp hmem with rfl | h
        · omega
        · exact h
      · exact hord
      · exact hmem'
      · intro c hc hcq
        obtain ⟨q'', h, hs, hl⟩ := hgap c (by simp [hc]) hcq
        have hbc := (List.pairwise_cons.mp hpages).1 c hc
        exact ⟨q'', hafter q'' h hs (hbc.le.trans hl), hs, hl⟩
      · right
        intro hh
        obtain ⟨tl, htl⟩ : ∃ tl, (seekGroupRange last b node changed).1 = q :: tl :=
          ⟨_, List.eq_cons_of_mem_head? hh⟩
        have hin := hafter q' hq' hstart hle
        rw [htl] at hin hord
        rcases List.mem_cons.mp hin with rfl | h
        · exact absurd hstart (lt_irrefl _)
        · have h₁ := hord.head_lt h
          have h₂ := hord.1 q (by simp)
          omega
    · left
      -- the first page in the range group range
      obtain ⟨h, tl, htl⟩ : ∃ h tl, (seekGroupRange last b node changed).1 = h :: tl :=
        List.exists_cons_of_ne_nil (List.ne_nil_of_mem hmem')
      rw [htl] at hhead hmem' hord
      have hbh : b ≤ h.last := hhead h (by simp)
      obtain rfl : q = h := by
        rcases List.mem_cons.mp hmem' with rfl | hin
        · rfl
        · have h₁ := hord.head_lt hin
          omega
      have hchanged : (seekGroupRange last b node changed).2 = true := by
        rcases hmoved with hm | hm
        · exact hm
        · rw [hm] at htl ⊢
          rcases hfirst with hf | hf
          · exact hf
          · simp only at htl
            simp [htl] at hf
      simp only [htl, List.head?_cons, Option.toList_some, List.mem_filter, List.mem_singleton,
        hchanged, Bool.true_and, decide_eq_true_eq, true_and]
      exact ⟨Nat.not_lt.mp hb, hbh⟩

theorem PageLoop.mem_listed (htree : Ordered tree) (hsorted : k.pages.Pairwise (· < ·))
    (hregion : ∀ a ∈ k.pages, k.start ≤ a ∧ a ≤ k.last) (hq : q ∈ tree) (hfinds : k.Finds tree q) :
    q ∈ k.listed tree := by
  obtain ⟨⟨a, ha, hlo, hhi⟩, hgap⟩ := hfinds
  obtain ⟨hstart, hlast⟩ := hregion a ha
  -- the iterator starts at a suffix of the tree with all that ends behind the region's start
  have hseek : ∀ q' ∈ tree, k.start ≤ q'.last → q' ∈ seek tree k.start := by
    intro q' hq' hle
    obtain ⟨pre, hpre⟩ := seek_suffix tree k.start
    rw [← hpre] at hq'
    rcases List.mem_append.mp hq' with h | h
    · have := last_lt_of_skipped hpre h
      omega
    · exact h
  have hord := htree.of_suffix (seek_suffix tree k.start)
  have hmem := hseek q hq (hstart.trans hhi)
  obtain ⟨n, rest, hcons⟩ : ∃ n rest, seek tree k.start = n :: rest :=
    List.exists_cons_of_ne_nil (List.ne_nil_of_mem hmem)
  have hn : n.start ≤ k.last := by
    rw [hcons] at hmem hord
    rcases List.mem_cons.mp hmem with rfl | h
    · exact hlo.trans hlast
    · have h₁ := hord.head_lt h
      have h₂ := hord.1 n (by simp)
      omega
  have hiter : rangeGroupRangeIterFirst tree k.start k.last = seek tree k.start := by
    simp [rangeGroupRangeIterFirst, hcons, hn]
  unfold PageLoop.listed
  rw [hiter]
  refine mem_listRanges hsorted (hlo.trans hlast) ⟨a, ha, hlo, hhi⟩ hord hmem ?_ (Or.inl rfl)
  intro b hb hbq
  obtain ⟨q', hq', hs, hl⟩ := hgap b hb hbq
  exact ⟨q', hseek q' hq' ((hregion b hb).1.trans hl), hs, hl⟩

private theorem seekGroupRange_suffix (last a : ℕ) (node : List RangeGroupRange) (changed : Bool) :
    (seekGroupRange last a node changed).1 <:+ node := by
  induction node generalizing changed with
  | nil => exact List.suffix_rfl
  | cons r rest ih =>
    unfold seekGroupRange
    split
    · split
      · exact (ih true).trans (List.suffix_cons _ _)
      · exact List.nil_suffix
    · exact List.suffix_rfl

private theorem listRanges_subset {pages : List ℕ} {changed : Bool}
    (hq : q ∈ listRanges last pages node changed) : q ∈ node := by
  induction pages generalizing node changed with
  | nil => simp [listRanges] at hq
  | cons b rest ih =>
    have hsuf := seekGroupRange_suffix last b node changed
    simp only [listRanges, List.mem_append] at hq
    rcases hq with hq | hq
    · have hhead := (List.mem_filter.mp hq).1
      rw [Option.mem_toList] at hhead
      exact hsuf.subset (List.mem_of_mem_head? hhead)
    · exact hsuf.subset (ih hq)

private theorem PageLoop.listed_subset (hq : q ∈ k.listed tree) : q ∈ tree := by
  have hiter : ∀ q' ∈ rangeGroupRangeIterFirst tree k.start k.last, q' ∈ tree := by
    intro q' hq'
    unfold rangeGroupRangeIterFirst at hq'
    split at hq'
    · simp at hq'
    · rename_i n rest hseek
      split at hq'
      · exact (seek_suffix tree k.start).subset (hseek ▸ hq')
      · simp at hq'
  exact hiter q (listRanges_subset hq)

/-! ## The loops of a section -/

private theorem MakeResident.mem_runLoops {m : MakeResident} {loops : List CopyLoop}
    {r : ℕ → ProcessorMask} (hk : k ∈ (m.runLoops n loops r).1) :
    k.pages.Sublist m.pages ∧ k.start = m.start ∧ k.last = m.last := by
  induction loops generalizing r with
  | nil => simp [runLoops] at hk
  | cons l rest ih =>
    simp only [runLoops, List.mem_append] at hk
    rcases hk with hk | hk
    · unfold runLoop at hk
      dsimp only at hk
      split at hk
      · obtain rfl := List.mem_singleton.mp hk
        exact ⟨(List.take_sublist _ _).trans List.filter_sublist, rfl, rfl⟩
      · simp at hk
    · exact ih hk

private theorem BlockSection.mem_runMoves {moves : List MakeResident}
    (hk : k ∈ (BlockSection.runMoves n moves pages).1) :
    ∃ m ∈ moves, k.pages.Sublist m.pages ∧ k.start = m.start ∧ k.last = m.last := by
  induction moves generalizing pages with
  | nil => simp [runMoves] at hk
  | cons m rest ih =>
    simp only [runMoves, List.mem_append] at hk
    rcases hk with hk | hk
    · refine ⟨m, by simp, ?_⟩
      unfold MakeResident.run at hk
      dsimp only at hk
      split at hk
      · exact MakeResident.mem_runLoops hk
      · simp at hk
    · obtain ⟨m', hm', h⟩ := ih hk
      exact ⟨m', by simp [hm'], h⟩

/-- A section lists the range group range of a page: a loop finds it, or it maps the page on the CPU,
its preferred location. -/
def BlockSection.Lists (sec : BlockSection) (n : VaRangeNode) (tree : List RangeGroupRange)
    (pages : ℕ → PageState) (q : RangeGroupRange) (a : ℕ) : Prop :=
  (∃ k ∈ sec.pageLoops n pages, k.Finds tree q) ∨
    (n.val.preferredLocation = some cpuId ∧ a ∈ sec.mapCpu)

theorem BlockSection.mem_listed (htree : Ordered tree) (hwithin : sec.within n = true)
    (hq : q ∈ tree) (ha : q.Contains a) (hlists : sec.Lists n tree pages q a) :
    q ∈ sec.listed n tree pages := by
  unfold BlockSection.listed
  rw [List.mem_append]
  rcases hlists with ⟨k, hk, hfinds⟩ | ⟨hpref, hmap⟩
  · left
    obtain ⟨m, hm, hsub, hstart, hlast⟩ := BlockSection.mem_runMoves hk
    have hall := List.all_eq_true.mp (Bool.and_eq_true_iff.mp hwithin).1 m hm
    rw [Bool.and_eq_true_iff, decide_eq_true_eq, List.all_eq_true] at hall
    refine List.mem_flatMap.mpr ⟨k, hk, PageLoop.mem_listed htree (hall.1.sublist hsub) ?_ hq hfinds⟩
    intro b hb
    have hregion := of_decide_eq_true (hall.2 b (hsub.subset hb))
    rw [hstart, hlast]
    exact hregion
  · right
    rw [if_pos hpref]
    refine List.mem_flatMap.mpr ⟨a, hmap, ?_⟩
    rw [(lookup_eq_some htree).mpr ⟨hq, ha⟩]
    simp

theorem BlockSection.listed_subset (htree : Ordered tree) (hq : q ∈ sec.listed n tree pages) :
    q ∈ tree := by
  unfold BlockSection.listed at hq
  rcases List.mem_append.mp hq with h | h
  · obtain ⟨k, -, hk⟩ := List.mem_flatMap.mp h
    exact PageLoop.listed_subset hk
  · split at h
    · obtain ⟨a, -, ha⟩ := List.mem_flatMap.mp h
      rw [Option.mem_toList] at ha
      exact ((lookup_eq_some htree).mp ha).1
    · simp at h

/-! ## Pages that stay at their preferred location -/

/-- The page is only on the preferred location of its range, and the CPU does not have it mapped. -/
def PageState.AtPreferred (n : VaRangeNode) (p : PageState) : Prop :=
  ∃ id, n.val.preferredLocation = some id ∧ p.resident = onlyProcessor id ∧ p.cpuMapped = false

private theorem MakeResident.run_keeps {m : MakeResident} (hkept : (pages a).AtPreferred n)
    (hm : a ∈ m.pages → m.mode = .move ∧ n.val.preferredLocation = some m.dest) :
    ((m.run n pages).2 a).AtPreferred n := by
  obtain ⟨id, hpref, hres, hmap⟩ := hkept
  unfold MakeResident.run
  dsimp only
  split
  · rename_i ha
    obtain ⟨hmode, hdest⟩ := hm ha
    obtain rfl : id = m.dest := Option.some.inj (hpref.symm.trans hdest)
    refine ⟨m.dest, hdest, ?_, ?_⟩
    · simp [MakeResident.after, hmode, hres]
    · simp [MakeResident.after, hmode, hmap]
  · exact ⟨id, hpref, hres, hmap⟩

private theorem BlockSection.runMoves_keeps {moves : List MakeResident}
    (hkept : (pages a).AtPreferred n) (hmoves : ∀ m ∈ moves, a ∈ m.pages →
      m.mode = .move ∧ n.val.preferredLocation = some m.dest) :
    ((BlockSection.runMoves n moves pages).2 a).AtPreferred n := by
  induction moves generalizing pages with
  | nil => exact hkept
  | cons m rest ih =>
    have hfirst := MakeResident.run_keeps hkept (hmoves m (by simp))
    exact ih hfirst fun m' hm' => hmoves m' (by simp [hm'])

/-- The hints for a fault on a page that is at its preferred location leave it there: system memory is
not forced, the page is not read-duplicated, and it is not pinned elsewhere. -/
def FaultHint.Keeps (hint : FaultHint) (sp : GroupSpace) (n : VaRangeNode) (gpu : ProcessorId) :
    Prop :=
  (sp.faultForceSysmem = true → n.val.preferredLocation = some cpuId) ∧
    hint.readDuplicate = false ∧
    (n.val.preferredLocation = some gpu ∨
      ∀ id, hint.pin = some id → n.val.preferredLocation = some id)

private theorem findClosestId_only (sp : GroupSpace) (id src : ProcessorId) :
    sp.findClosestId (onlyProcessor id) src = some id := by
  let t := List.finRange maxProcessors
  have hfind : ∀ (p : ProcessorId → Bool) (q : ProcessorId),
      (t.find? fun q => onlyProcessor id q && p q) = some q →
        q = id := by
    intro p q hq
    have := List.find?_some hq
    simp only [onlyProcessor, Bool.and_eq_true, decide_eq_true_eq] at this
    exact this.1
  unfold GroupSpace.findClosestId
  by_cases hsrc : src = id
  · simp [onlyProcessor, hsrc]
  · have hlast : t.find? (onlyProcessor id) = some id := by
      obtain ⟨q, hq⟩ : ∃ q, t.find? (onlyProcessor id) = some q := by
        rw [← Option.isSome_iff_exists, List.find?_isSome]
        exact ⟨id, List.mem_finRange id, by simp [onlyProcessor]⟩
      have := List.find?_some hq
      rw [hq]
      simpa [onlyProcessor] using this
    rw [if_neg (by simpa [onlyProcessor] using hsrc), hlast]
    -- whichever search finds a processor finds this one
    cases hnv : t.find? fun q =>
        onlyProcessor id q && sp.hasNvlinkTo src q with
    | some q => simp [hfind _ q hnv]
    | none =>
      by_cases hcpu : src = cpuId
      · simp [hcpu]
      · cases hpeer : t.find? fun q =>
            onlyProcessor id q && sp.canAccess src q && decide (q ≠ cpuId) with
        | some q =>
          have hq : q = id := by
            apply hfind fun q => sp.canAccess src q && decide (q ≠ cpuId)
            simpa only [Bool.and_assoc] using hpeer
          simp [hcpu, hq]
        | none => simp [hcpu]

private theorem selectResidency_keeps {gpu : ProcessorId} {hint : FaultHint} {p : PageState}
    (hkept : p.AtPreferred n) (hgpu : gpu ≠ cpuId) (hhint : hint.Keeps sp n gpu)
    (hacc : sp.topo.accessible n.val.preferredLocation gpu = true) :
    n.val.preferredLocation = some (sp.selectResidencyAfterFault n gpu hint p) := by
  obtain ⟨id, hpref, hres, -⟩ := hkept
  obtain ⟨hforce, hdup, hpin⟩ := hhint
  unfold GroupSpace.selectResidencyAfterFault
  by_cases hsys : sp.faultForceSysmem = true
  · rw [if_pos hsys]
    exact hforce hsys
  · rw [if_neg hsys, if_neg (by simp [hgpu, hdup])]
    by_cases hself : n.val.preferredLocation = some gpu
    · rw [if_pos hself]
      exact hself
    · rw [if_neg hself]
      have hpin' := hpin.resolve_left hself
      cases hp : hint.pin with
      | some residency => exact hpin' residency hp
      | none =>
        rw [hpref] at hacc
        have : sp.topo.accessibleFrom id gpu = true := hacc
        simp [hres, findClosestId_only, hpref, this]

theorem gpuFault_keeps {s : PreventState} {gpu : ProcessorId} {hints : ℕ → FaultHint}
    (hgpu : gpu ≠ cpuId) (hmap : sec.mapCpu = [])
    (hmoves : sec.moves.all (fun m => s.gpuFaultMoves sp gpu hints n m) = true)
    (ha : s.migratable sp a = false) (hkept : (s.pages a).AtPreferred n)
    (hhint : (hints a).Keeps sp n gpu) : (sec.after n s.pages a).AtPreferred n := by
  have hrun : ((BlockSection.runMoves n sec.moves s.pages).2 a).AtPreferred n := by
    apply BlockSection.runMoves_keeps hkept
    intro m hm ham
    have hm' := List.all_eq_true.mp (List.all_eq_true.mp hmoves m hm) a ham
    simp only [ha, Bool.false_or, Bool.and_eq_true, decide_eq_true_eq, hhint.2.1] at hm'
    obtain ⟨⟨hacc, hdest⟩, hmode⟩ := hm'
    refine ⟨by simpa using hmode, ?_⟩
    rw [hdest]
    exact selectResidency_keeps hkept hgpu hhint hacc
  simpa [BlockSection.after, hmap] using hrun

/-! ## The work of the call -/

/-- What is left to do reaches a page of a range. -/
def PolicyTask.Covers (n : VaRangeNode) (a : ℕ) : PolicyTask → Prop
  | .range n' start last => n' = n ∧ start ≤ a ∧ a ≤ last
  | .block n' _ index start last =>
    n' = n ∧ index = uvmVaRangeBlockIndex n.vaRange a ∧ start ≤ a ∧ a ≤ last
  | .wait => False

/-- A piece of work stays in a range, and its destination is the preferred location. -/
def PolicyTask.Sound (sp : GroupSpace) : PolicyTask → Prop
  | .range n start last => n ∈ sp.ranges ∧ n.start ≤ start ∧ last ≤ n.last
  | .block n dest _ start last =>
    n ∈ sp.ranges ∧ n.val.preferredLocation = some dest ∧ n.start ≤ start ∧ last ≤ n.last
  | .wait => True

theorem exists_migrateTasks {start : ℕ} (dest : ProcessorId) (hn : n.Contains a) (hlo : start ≤ a)
    (hhi : a ≤ last) : ∃ task ∈ migrateTasks n dest start last, task.Covers n a := by
  have hfirst := uvmVaRangeBlockIndex_mono n.vaRange hlo
  have hlast := uvmVaRangeBlockIndex_mono n.vaRange hhi
  obtain ⟨hblo, hbhi⟩ := block_contains n.vaRange hn
  refine ⟨_, List.mem_append_left _ (List.mem_map.mpr
    ⟨uvmVaRangeBlockIndex n.vaRange a, List.mem_range'_1.mpr ⟨hfirst, by omega⟩, rfl⟩), ?_⟩
  exact ⟨rfl, rfl, max_le hlo hblo, le_min hhi hbhi⟩

theorem migrateTasks_sound {dest : ProcessorId} {start : ℕ} (hn : n ∈ sp.ranges)
    (hpref : n.val.preferredLocation = some dest) (hlo : n.start ≤ start) (hhi : last ≤ n.last) :
    ∀ task ∈ migrateTasks n dest start last, task.Sound sp := by
  intro task htask
  rcases List.mem_append.mp htask with h | h
  · obtain ⟨i, -, rfl⟩ := List.mem_map.mp h
    exact ⟨hn, hpref, hlo.trans (le_max_left _ _), (min_le_left _ _).trans hhi⟩
  · obtain rfl := List.mem_singleton.mp h
    trivial

theorem GroupSpace.eq_of_start (sp : GroupSpace) {r' : Lib.Interval ℕ} (hr : r ∈ sp.groupRanges)
    (hr' : r' ∈ sp.groupRanges) (h : r.start = r'.start) : r = r' := by
  apply sp.groupOrdered.unique hr hr' (a := r.start)
  · exact ⟨le_refl _, sp.groupOrdered.1 r hr⟩
  · exact ⟨h.ge, h ▸ sp.groupOrdered.1 r' hr'⟩

theorem GroupSpace.rangeTasks_eq (sp : GroupSpace) (hr : r ∈ sp.groupRanges) :
    sp.rangeTasks r.start = (sp.ranges.filter fun n => VaSpace.overlaps n r.start r.last).map
      fun n => .range n (max n.start r.start) (min n.last r.last) := by
  have hfind : (sp.groupRanges.find? fun r' => decide (r'.start = r.start)) = some r := by
    obtain ⟨r', h⟩ : ∃ r', (sp.groupRanges.find? fun r' => decide (r'.start = r.start)) = some r' := by
      rw [← Option.isSome_iff_exists, List.find?_isSome]
      exact ⟨r, hr, by simp⟩
    have hstart := List.find?_some h
    rw [h, sp.eq_of_start (List.mem_of_find?_eq_some h) hr (of_decide_eq_true hstart)]
  unfold GroupSpace.rangeTasks
  rw [hfind]

theorem exists_rangeTasks (hr : r ∈ sp.groupRanges) (ha : r.Contains a) (hn : n ∈ sp.ranges)
    (hna : n.Contains a) : ∃ task ∈ sp.rangeTasks r.start, task.Covers n a := by
  have hover : VaSpace.overlaps n r.start r.last = true := by
    simpa [VaSpace.overlaps] using ⟨hna.1.trans ha.2, ha.1.trans hna.2⟩
  rw [sp.rangeTasks_eq hr]
  refine ⟨_, List.mem_map.mpr ⟨n, List.mem_filter.mpr ⟨hn, hover⟩, rfl⟩, rfl, ?_⟩
  exact ⟨max_le hna.1 ha.1, le_min hna.2 ha.2⟩

theorem rangeTasks_sound (sp : GroupSpace) (start : ℕ) :
    ∀ task ∈ sp.rangeTasks start, task.Sound sp := by
  intro task htask
  unfold GroupSpace.rangeTasks at htask
  split at htask
  · simp at htask
  · obtain ⟨n, hn, rfl⟩ := List.mem_map.mp htask
    exact ⟨(List.mem_filter.mp hn).1, le_max_left _ _, min_le_left _ _⟩

end NvUvm
