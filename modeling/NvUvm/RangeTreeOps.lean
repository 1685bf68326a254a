import NvUvm.RangeTree

/-!
# What the operations of the range tree do

One lemma for each operation, in terms of the list of the nodes, and the invariant it keeps.
-/

namespace NvUvm

open Lib

namespace RangeTree

variable {rb : RbPrimitives} {s : RangeTree} {n p : ℕ} {pre post : List ℕ}

/-! ## The order of the nodes -/

def Before (s : RangeTree) (x y : ℕ) : Prop := s.last x < s.start y

theorem Inv.start_le_last (h : s.Inv) (hn : n ∈ s.head) : s.start n ≤ s.last n :=
  h.ordered.1 (s.interval n) (mem_intervals.mpr ⟨hn, rfl⟩)

theorem Inv.pairwise (h : s.Inv) : s.head.Pairwise s.Before := by
  have hpw : s.head.Pairwise fun x y => (s.interval x).last < (s.interval y).start :=
    List.pairwise_map.mp h.ordered.2
  exact hpw

theorem inv_iff : s.Inv ↔ s.rbRoot.inorder = s.head ∧ s.head.Pairwise s.Before ∧
    ∀ n ∈ s.head, s.start n ≤ s.last n ∧ s.last n < 2 ^ 64 := by
  constructor
  · intro h
    exact ⟨h.inStep, h.pairwise, fun n hn => ⟨h.start_le_last hn, h.bounded n hn⟩⟩
  · rintro ⟨hstep, hpw, hbounds⟩
    refine ⟨hstep, ⟨fun m hm => ?_, List.pairwise_map.mpr hpw⟩, fun n hn => (hbounds n hn).2⟩
    obtain ⟨hmem, heq⟩ := mem_intervals.mp hm
    rw [heq]
    exact (hbounds _ hmem).1

theorem Inv.nodup (h : s.Inv) : s.head.Nodup := by
  apply List.Pairwise.imp_of_mem _ h.pairwise
  rintro x y hx hy hlt rfl
  exact absurd hlt (Nat.not_lt.mpr (h.start_le_last hx))

theorem Inv.around (h : s.Inv) (hhead : s.head = pre ++ n :: post) :
    (∀ x ∈ pre, s.last x < s.start n) ∧ (∀ y ∈ post, s.last n < s.start y) ∧ n ∉ pre ∧ n ∉ post := by
  have hpw := h.pairwise
  have hnd := h.nodup
  rw [hhead] at hpw hnd
  obtain ⟨-, hright, hcross⟩ := List.pairwise_append.mp hpw
  obtain ⟨-, hnodupRight, hdisj⟩ := List.nodup_append.mp hnd
  exact ⟨fun x hx => hcross x hx n List.mem_cons_self, (List.pairwise_cons.mp hright).1,
    fun hn => hdisj n hn n List.mem_cons_self rfl, (List.nodup_cons.mp hnodupRight).1⟩

theorem Inv.next_eq (h : s.Inv) (hhead : s.head = pre ++ n :: post) : s.next n = post.head? := by
  unfold next
  rw [hhead]
  exact nextOf_append (h.around hhead).2.2.1

theorem Inv.prev_eq (h : s.Inv) (hhead : s.head = pre ++ n :: post) : s.prev n = pre.getLast? := by
  obtain ⟨-, -, hpre, hpost⟩ := h.around hhead
  unfold prev
  rw [hhead]
  exact prevOf_append hpre hpost

/-! ## The walk of the tree -/

variable {addr : ℕ}

theorem compareAddr_eq_lt : s.compareAddr addr n = .lt ↔ addr < s.start n := by
  unfold compareAddr
  split
  · next h => simp [h]
  · next h => split <;> simp [h]

theorem Inv.compareAddr_eq_gt (h : s.Inv) (hn : n ∈ s.head) :
    s.compareAddr addr n = .gt ↔ s.last n < addr := by
  have hle := h.start_le_last hn
  unfold compareAddr
  split
  · next hlt => simpa using by omega
  · next hlt => split <;> simp_all

theorem compareAddr_eq_eq : s.compareAddr addr n = .eq ↔ (s.interval n).Contains addr := by
  unfold compareAddr Interval.Contains interval
  split
  · next h => simpa using by omega
  · next h =>
    split
    · next h' => simpa using by omega
    · next h' => simpa using by omega

theorem Inv.searchable (h : s.Inv) (addr : ℕ) :
    Searchable (s.compareAddr addr) s.rbRoot.inorder := by
  rw [h.inStep]
  apply List.Pairwise.imp_of_mem _ h.pairwise
  intro x y hx hy hlt
  rw [h.compareAddr_eq_gt hx, compareAddr_eq_lt]
  unfold Before at hlt
  omega

/-- Where the walk of the tree ends: at the node that contains the address, in an empty tree, or
at a neighbour of the address, below which a leaf keeps the order. -/
theorem Inv.find_cases (h : s.Inv) (addr : ℕ) :
    (∃ n parent, s.rangeNodeFind addr = (some n, parent) ∧ n ∈ s.head ∧
        (s.interval n).Contains addr) ∨
      (∀ n ∈ s.head, ¬ (s.interval n).Contains addr) ∧
        (s.rangeNodeFind addr = (none, none) ∧ s.head = [] ∨
          ∃ p pre post, s.rangeNodeFind addr = (none, some p) ∧ s.head = pre ++ p :: post ∧
            (addr < s.start p ∧ (∀ x ∈ pre, s.last x < addr) ∧
                (∀ m, (s.rbRoot.linkLeft p m).inorder = pre ++ m :: p :: post) ∨
              s.last p < addr ∧ (∀ y ∈ post, addr < s.start y) ∧
                ∀ m, (s.rbRoot.linkRight p m).inorder = pre ++ p :: m :: post)) := by
  have hnd : s.rbRoot.inorder.Nodup := by
    rw [h.inStep]
    exact h.nodup
  have hspec := SearchTree.find_spec (h.searchable addr) hnd none
  unfold rangeNodeFind
  cases hr : s.rbRoot.find (s.compareAddr addr) none with
  | mk found last =>
    rw [hr] at hspec
    cases found with
    | some n =>
      obtain ⟨hmem, heq⟩ := hspec
      rw [h.inStep] at hmem
      exact .inl ⟨n, last, rfl, hmem, compareAddr_eq_eq.mp heq⟩
    | none =>
      obtain ⟨hnone, hplace⟩ := hspec
      rw [h.inStep] at hnone
      refine .inr ⟨fun n hn hc => hnone n hn (compareAddr_eq_eq.mpr hc), ?_⟩
      rcases hplace with ⟨hnil, rfl⟩ | ⟨p, rfl, pre, post, hord, hplace⟩
      · refine .inl ⟨rfl, ?_⟩
        rw [← h.inStep, hnil]
        rfl
      · rw [h.inStep] at hord
        have hmem : ∀ x, x ∈ pre ∨ x = p ∨ x ∈ post → x ∈ s.head := by
          intro x hx
          rw [hord]
          simpa using hx
        refine .inr ⟨p, pre, post, rfl, hord, ?_⟩
        rcases hplace with ⟨hp, hpre, hlink⟩ | ⟨hp, hpost, hlink⟩
        · refine .inl ⟨compareAddr_eq_lt.mp hp, fun x hx => ?_, hlink⟩
          exact (h.compareAddr_eq_gt (hmem x (.inl hx))).mp (hpre x hx)
        · refine .inr ⟨(h.compareAddr_eq_gt (hmem p (.inr (.inl rfl)))).mp hp, fun y hy => ?_, hlink⟩
          exact compareAddr_eq_lt.mp (hpost y hy)

/-! ## Insertion -/

theorem rangeNodesOverlap_iff {a b : ℕ} :
    s.rangeNodesOverlap a b = true ↔ IntervalSet.Meets (s.interval b) (s.start a) (s.last a) := by
  simp [rangeNodesOverlap, IntervalSet.Meets, interval]

variable (rb) in
theorem Inv.add_spec (h : s.Inv) (hle : s.start n ≤ s.last n) :
    (s.add rb n = (.errUvmAddressInUse, s) ∧
        ∃ x ∈ s.head, IntervalSet.Meets (s.interval x) (s.start n) (s.last n)) ∨
      ∃ pre post t, s.head = pre ++ post ∧ (∀ x ∈ pre, s.last x < s.start n) ∧
        (∀ y ∈ post, s.last n < s.start y) ∧ t.inorder = pre ++ n :: post ∧
          s.add rb n = (.ok, { s with rbRoot := t, head := pre ++ n :: post }) := by
  unfold add
  rcases h.find_cases (s.start n) with
    ⟨x, parent, hfind, hx, hcont⟩ | ⟨hnone, ⟨hfind, hnil⟩ | ⟨p, pre, post, hfind, hhead, hplace⟩⟩
  · rw [hfind]
    refine .inl ⟨rfl, x, hx, hcont.1.trans hle, hcont.2⟩
  · rw [hfind]
    refine .inr ⟨[], [], rb.insertColor n (.node .nil n .nil), by simp [hnil], by simp, by simp, ?_, ?_⟩
    · rw [rb.inorder_insertColor]
      rfl
    · simp [hnil]
  · rw [hfind]
    obtain ⟨hpre, hpost, hnotPre, hnotPost⟩ := h.around hhead
    have hmem : p ∈ s.head := by simp [hhead]
    have hpar := h.start_le_last hmem
    dsimp only
    split
    · next hover => exact .inl ⟨rfl, p, hmem, rangeNodesOverlap_iff.mp hover⟩
    · next hover =>
      have happart : ¬ (s.start p ≤ s.last n ∧ s.start n ≤ s.last p) := by
        simpa [rangeNodesOverlap] using hover
      rcases hplace with ⟨hlt, hbelow, hlink⟩ | ⟨hlt, habove, hlink⟩
      · -- the new node goes to the left of its parent, just before it
        rw [if_pos hlt]
        refine .inr ⟨pre, p :: post, rb.insertColor n (s.rbRoot.linkLeft p n), hhead, hbelow, ?_, ?_, ?_⟩
        · intro y hy
          rcases List.mem_cons.mp hy with rfl | hy
          · omega
          · have := hpost y hy
            omega
        · rw [rb.inorder_insertColor, hlink]
        · rw [hhead, insertBefore_append hnotPre]
      · -- the new node goes to the right of its parent, just behind it
        rw [if_neg (by omega), h.next_eq hhead]
        split
        · next hnext =>
          obtain ⟨y, hy, hover⟩ := (Option.any_eq_true _ _).mp hnext
          have hy' : y ∈ post := List.mem_of_mem_head? hy
          refine .inl ⟨rfl, y, ?_, rangeNodesOverlap_iff.mp hover⟩
          rw [hhead]
          simp [hy']
        · next hnext =>
          refine .inr ⟨pre ++ [p], post, rb.insertColor n (s.rbRoot.linkRight p n), by simp [hhead],
            ?_, ?_, ?_, ?_⟩
          · intro x hx
            rcases List.mem_append.mp hx with hx | hx
            · have := hpre x hx
              omega
            · rw [List.mem_singleton.mp hx]
              exact hlt
          · -- the first node behind does not overlap, and the others lie behind it
            cases post with
            | nil => simp
            | cons q post =>
              have hq : ¬ (s.start q ≤ s.last n ∧ s.start n ≤ s.last q) := by
                simpa [rangeNodesOverlap] using hnext
              have hqmem : q ∈ s.head := by simp [hhead]
              have hqle := h.start_le_last hqmem
              have hqabove := habove q List.mem_cons_self
              have hq : s.head = (pre ++ [p]) ++ q :: post := by simp [hhead]
              have haround := h.around hq
              intro y hy
              rcases List.mem_cons.mp hy with rfl | hy
              · omega
              · have := haround.2.1 y hy
                omega
          · rw [rb.inorder_insertColor, hlink]
            simp
          · rw [hhead, insertAfter_append hnotPre]
            simp

theorem Inv.insert (h : s.Inv) {t : SearchTree ℕ} (hhead : s.head = pre ++ post)
    (hpre : ∀ x ∈ pre, s.last x < s.start n) (hpost : ∀ y ∈ post, s.last n < s.start y)
    (ht : t.inorder = pre ++ n :: post) (hle : s.start n ≤ s.last n) (hlt : s.last n < 2 ^ 64) :
    ({ s with rbRoot := t, head := pre ++ n :: post } : RangeTree).Inv := by
  obtain ⟨-, hpw, hbounds⟩ := inv_iff.mp h
  rw [hhead] at hpw hbounds
  obtain ⟨hleft, hright, hcross⟩ := List.pairwise_append.mp hpw
  refine inv_iff.mpr ⟨ht, ?_, fun x hx => ?_⟩
  · refine List.pairwise_append.mpr ⟨hleft, List.pairwise_cons.mpr ⟨hpost, hright⟩, ?_⟩
    intro x hx y hy
    rcases List.mem_cons.mp hy with rfl | hy
    · exact hpre x hx
    · exact hcross x hx y hy
  · simp only [List.mem_append, List.mem_cons] at hx
    rcases hx with hx | rfl | hx
    · exact hbounds x (List.mem_append_left _ hx)
    · exact ⟨hle, hlt⟩
    · exact hbounds x (List.mem_append_right _ hx)

/-! ## Changes of bounds, and removal -/

section Bounds

variable {a b : ℕ}

@[simp] theorem setBounds_head : (s.setBounds n a b).head = s.head := rfl

@[simp] theorem setBounds_start_self : (s.setBounds n a b).start n = a := Function.update_self ..

@[simp] theorem setBounds_last_self : (s.setBounds n a b).last n = b := Function.update_self ..

@[simp] theorem setBounds_start_of_ne {x : ℕ} (h : x ≠ n) :
    (s.setBounds n a b).start x = s.start x := Function.update_of_ne h ..

@[simp] theorem setBounds_last_of_ne {x : ℕ} (h : x ≠ n) :
    (s.setBounds n a b).last x = s.last x := Function.update_of_ne h ..

theorem Inv.setBounds_of_notMem (h : s.Inv) (hn : n ∉ s.head) : (s.setBounds n a b).Inv := by
  obtain ⟨hstep, hpw, hbounds⟩ := inv_iff.mp h
  have hne : ∀ {x}, x ∈ s.head → x ≠ n := by
    rintro x hx rfl
    exact hn hx
  refine inv_iff.mpr ⟨hstep, hpw.imp_of_mem ?_, fun x hx => ?_⟩
  · intro x y hx hy hlt
    unfold Before
    rw [setBounds_last_of_ne (hne hx), setBounds_start_of_ne (hne hy)]
    exact hlt
  · rw [setBounds_start_of_ne (hne hx), setBounds_last_of_ne (hne hx)]
    exact hbounds x hx

theorem Inv.setBounds (h : s.Inv) (hhead : s.head = pre ++ n :: post)
    (hpre : ∀ x ∈ pre, s.last x < a) (hpost : ∀ y ∈ post, b < s.start y) (hle : a ≤ b)
    (hlt : b < 2 ^ 64) : (s.setBounds n a b).Inv := by
  obtain ⟨hstep, hpw, hbounds⟩ := inv_iff.mp h
  obtain ⟨-, -, hnotPre, hnotPost⟩ := h.around hhead
  rw [hhead] at hpw hbounds
  obtain ⟨hleft, hright, hcross⟩ := List.pairwise_append.mp hpw
  have hnePre : ∀ {x}, x ∈ pre → x ≠ n := by
    rintro x hx rfl
    exact hnotPre hx
  have hnePost : ∀ {y}, y ∈ post → y ≠ n := by
    rintro y hy rfl
    exact hnotPost hy
  refine inv_iff.mpr ⟨hstep, ?_, fun x hx => ?_⟩
  · rw [setBounds_head, hhead]
    refine List.pairwise_append.mpr ⟨?_, List.pairwise_cons.mpr ⟨fun y hy => ?_, ?_⟩, ?_⟩
    · refine hleft.imp_of_mem fun {x y} hx hy hlt => ?_
      unfold Before
      rw [setBounds_last_of_ne (hnePre hx), setBounds_start_of_ne (hnePre hy)]
      exact hlt
    · unfold Before
      rw [setBounds_last_self, setBounds_start_of_ne (hnePost hy)]
      exact hpost y hy
    · refine (List.pairwise_cons.mp hright).2.imp_of_mem fun {x y} hx hy hlt => ?_
      unfold Before
      rw [setBounds_last_of_ne (hnePost hx), setBounds_start_of_ne (hnePost hy)]
      exact hlt
    · intro x hx y hy
      unfold Before
      rw [setBounds_last_of_ne (hnePre hx)]
      rcases List.mem_cons.mp hy with rfl | hy
      · rw [setBounds_start_self]
        exact hpre x hx
      · rw [setBounds_start_of_ne (hnePost hy)]
        exact hcross x hx y (List.mem_cons_of_mem n hy)
  · rw [setBounds_head, hhead] at hx
    rcases eq_or_ne x n with rfl | hne
    · rw [setBounds_start_self, setBounds_last_self]
      exact ⟨hle, hlt⟩
    · rw [setBounds_start_of_ne hne, setBounds_last_of_ne hne]
      exact hbounds x hx

end Bounds

@[simp] theorem remove_head : (s.remove rb n).head = s.head.erase n := rfl

variable (rb) in
theorem Inv.remove (h : s.Inv) (n : ℕ) : (s.remove rb n).Inv := by
  obtain ⟨hstep, hpw, hbounds⟩ := inv_iff.mp h
  refine inv_iff.mpr ⟨?_, ?_, fun x hx => hbounds x (List.mem_of_mem_erase hx)⟩
  · have hnd : s.rbRoot.inorder.Nodup := by
      rw [hstep]
      exact h.nodup
    rw [remove_head, ← hstep]
    exact rb.inorder_erase n s.rbRoot hnd
  · exact hpw.sublist List.erase_sublist

theorem Inv.mem_remove (h : s.Inv) {x : ℕ} : x ∈ (s.remove rb n).head ↔ x ∈ s.head ∧ x ≠ n := by
  rw [remove_head, h.nodup.mem_erase_iff]
  exact and_comm

/-! ## Searches -/

theorem Inv.find_eq_some (h : s.Inv) :
    s.find addr = some n ↔ n ∈ s.head ∧ (s.interval n).Contains addr := by
  unfold find
  rcases h.find_cases addr with ⟨x, parent, hfind, hx, hcont⟩ | ⟨hnone, hrest⟩
  · rw [hfind]
    constructor
    · rintro ⟨⟩
      exact ⟨hx, hcont⟩
    · rintro ⟨hn, hc⟩
      have heq := h.ordered.unique (mem_intervals.mpr ⟨hx, rfl⟩) (mem_intervals.mpr ⟨hn, rfl⟩)
        hcont hc
      exact congrArg some (congrArg Interval.val heq)
  · have hfind : (s.rangeNodeFind addr).1 = none := by
      rcases hrest with ⟨hfind, -⟩ | ⟨p, pre, post, hfind, -⟩
      · rw [hfind]
      · rw [hfind]
    rw [hfind]
    simpa using fun hn => hnone n hn

theorem Inv.iterFirst_eq (h : s.Inv) {start last : ℕ} (hle : start ≤ last) :
    ∃ pre rest, s.head = pre ++ rest ∧ (∀ x ∈ pre, s.last x < start) ∧
      (∀ y ∈ rest, start ≤ s.last y) ∧
        s.iterFirst start last = rest.head?.filter fun y => s.start y ≤ last := by
  unfold iterFirst rangeNodeFindNext
  rcases h.find_cases start with
    ⟨n, parent, hfind, hn, hcont⟩ | ⟨hnone, ⟨hfind, hnil⟩ | ⟨p, pre, post, hfind, hhead, hplace⟩⟩
  · have hsome : s.find start = some n := h.find_eq_some.mpr ⟨hn, hcont⟩
    rw [hsome]
    obtain ⟨pre, post, hhead⟩ := List.append_of_mem hn
    obtain ⟨hpre, hpost, -, -⟩ := h.around hhead
    obtain ⟨hstart, hlast⟩ := hcont
    change s.start n ≤ start at hstart
    change start ≤ s.last n at hlast
    refine ⟨pre, n :: post, hhead, fun x hx => ?_, fun y hy => ?_, ?_⟩
    · have := hpre x hx
      omega
    · rcases List.mem_cons.mp hy with rfl | hy
      · exact hlast
      · have hmem : y ∈ s.head := by simp [hhead, hy]
        have := h.start_le_last hmem
        have := hpost y hy
        omega
    · have hstarts : s.start n ≤ last := hstart.trans hle
      simp [Option.filter, hstarts]
  · have hfindNone : s.find start = none := by simp [find, hfind]
    rw [hfindNone, hfind]
    exact ⟨[], [], by simp [hnil], by simp, by simp, rfl⟩
  · have hfindNone : s.find start = none := by simp [find, hfind]
    obtain ⟨hpre, hpost, -, -⟩ := h.around hhead
    have hle_of : ∀ {y}, y ∈ s.head → start < s.start y → start ≤ s.last y := fun hy hlt =>
      hlt.le.trans (h.start_le_last hy)
    rw [hfindNone, hfind]
    dsimp only
    rcases hplace with ⟨hlt, hbelow, -⟩ | ⟨hlt, habove, -⟩
    · rw [if_pos hlt]
      refine ⟨pre, p :: post, hhead, hbelow, fun y hy => ?_, rfl⟩
      have hmem : y ∈ s.head := by
        rw [hhead]
        exact List.mem_append_right _ hy
      rcases List.mem_cons.mp hy with rfl | hy
      · exact hle_of hmem hlt
      · have := hpost y hy
        have := h.start_le_last hmem
        have hp := h.start_le_last (n := p) (by simp [hhead])
        exact hle_of hmem (by omega)
    · have hp := h.start_le_last (n := p) (by simp [hhead])
      rw [if_neg (by omega), h.next_eq hhead]
      refine ⟨pre ++ [p], post, by simp [hhead], fun x hx => ?_, fun y hy => ?_, rfl⟩
      · rcases List.mem_append.mp hx with hx | hx
        · have := hpre x hx
          omega
        · rw [List.mem_singleton.mp hx]
          exact hlt
      · exact hle_of (by simp [hhead, hy]) (habove y hy)

private theorem Inv.visits_takeWhile (h : s.Inv) {rest : List ℕ} (last : ℕ)
    (hhead : s.head = pre ++ rest) :
    s.Visits last (rest.takeWhile fun y => decide (s.start y ≤ last))
      (rest.head?.filter fun y => s.start y ≤ last) := by
  induction rest generalizing pre with
  | nil => rfl
  | cons n rest ih =>
    have hnext := h.next_eq hhead
    have hrest : s.head = (pre ++ [n]) ++ rest := by simp [hhead]
    have ih := ih hrest
    by_cases hn : s.start n ≤ last
    · simp only [List.takeWhile_cons, hn, decide_true, if_true, List.head?_cons, Option.filter_some,
        Visits, true_and]
      unfold iterNext
      rw [hnext]
      exact ih
    · simp [Option.filter, hn, Visits]

theorem Inv.visits (h : s.Inv) {start last : ℕ} (hle : start ≤ last) :
    ∃ l, s.Visits last l (s.iterFirst start last) ∧ l.Pairwise s.Before ∧
      ∀ n, n ∈ l ↔ n ∈ s.head ∧ IntervalSet.Meets (s.interval n) start last := by
  obtain ⟨pre, rest, hhead, hpre, hrest, hfirst⟩ := h.iterFirst_eq hle
  have hpw := h.pairwise
  rw [hhead] at hpw
  obtain ⟨-, hright, -⟩ := List.pairwise_append.mp hpw
  refine ⟨rest.takeWhile fun y => decide (s.start y ≤ last), ?_, ?_, fun n => ?_⟩
  · rw [hfirst]
    exact h.visits_takeWhile last hhead
  · exact hright.sublist (List.takeWhile_sublist _)
  · constructor
    · intro hn
      have hmem := (List.takeWhile_sublist _).subset hn
      have hstart : s.start n ≤ last := by simpa using List.mem_takeWhile_imp hn
      exact ⟨by simp [hhead, hmem], hstart, hrest n hmem⟩
    · rintro ⟨hn, hstart, hlast⟩
      change s.start n ≤ last at hstart
      change start ≤ s.last n at hlast
      have hmem : n ∈ rest := by
        rw [hhead] at hn
        rcases List.mem_append.mp hn with hn | hn
        · exact absurd (hpre n hn) (by omega)
        · exact hn
      -- the nodes in front of it start earlier
      obtain ⟨before, after, rfl⟩ := List.append_of_mem hmem
      have hall : ∀ x ∈ before, decide (s.start x ≤ last) = true := by
        intro x hx
        have hlt := (List.pairwise_append.mp hright).2.2 x hx n List.mem_cons_self
        have hxle := h.start_le_last (n := x) (by simp [hhead, hx])
        unfold Before at hlt
        simpa using by omega
      rw [List.takeWhile_append_of_pos hall]
      simp [hstart]

end RangeTree

end NvUvm
