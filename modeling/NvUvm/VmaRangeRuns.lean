import Mathlib.Data.List.Basic
import NvUvm.VmaRanges

/-!
# Runs of the vma callbacks

Each step of the kernel and of the callbacks leaves the vmas, the wrappers and the ranges in one of
the ways of `VmaRanges`, so every run from an empty VA space keeps the managed vmas covered.
-/

namespace NvUvm.VmaRanges

open Lib
open Function (update update_of_ne update_self)

variable {s : State} {id w addr : ℕ} {v : Vma} {n m : VaRange} {o : OpenOutcome}

/-! ## What the callbacks leave -/

variable {new : Vma}

theorem copyVma_disables {orig : Vma} (hman : new.managed = true)
    (hdata : new.vmPrivateData = some w) (hw : s.wrappers w = some id)
    (horig : s.vmas id = some orig) (hid : id ≠ s.nextVma)
    (hcopy : new.mm ≠ orig.mm ∨ (new.vmStart ≠ orig.vmStart ∧ new.vmEnd ≠ orig.vmEnd)) :
    copyVma s new o = { s with
      vmas := update s.vmas s.nextVma
        (some { new with managed := false, vmPrivateData := none })
      nextVma := s.nextVma + 1 } := by
  have hfind : update s.vmas s.nextVma (some new) id = some orig :=
    (update_of_ne hid _ _).trans horig
  simp only [copyVma, hman, if_true, uvmVmOpenManaged, State.setVma, update_self,
    hdata, Option.bind_some, hw, hfind, if_pos hcopy, uvmDisableVma, State.destroyWrapper,
    Function.update_idem]

def Vma.off (v : Vma) : Vma := { v with managed := false, vmPrivateData := none }

theorem uvmVmOpenFailure_eq {new : ℕ} {u : Vma} (hv : s.vmas id = some v)
    (hdata : v.vmPrivateData = some w) (hu : s.vmas new = some u) (hne : new ≠ id) :
    uvmVmOpenFailure s id new =
      { (s.destroyWrapper (some w)).destroyWrapper u.vmPrivateData with
        ranges := s.ranges.filter fun n => !v.hasRange n
        vmas := update (update s.vmas id (some v.off)) new (some u.off) } := by
  have hfind : ∀ r, update s.vmas id r new = some u := fun r =>
    (update_of_ne hne _ _).trans hu
  cases hu' : u.vmPrivateData <;>
    simp only [uvmVmOpenFailure, uvmDestroyVmaManaged, hv, hdata, uvmDisableVma, State.setVma,
      State.destroyWrapper, update_self, Function.update_idem, hfind, hu', Vma.off,
      Bool.false_eq_true, if_false]

/-- The state in which `open` of a split looks for the range at the address. -/
def State.opened (s : State) (new : Vma) : State :=
  { s with
      vmas := update s.vmas s.nextVma (some { new with vmPrivateData := none })
      nextVma := s.nextVma + 1 }

theorem copyVma_part (hman : v.managed = true) (hdata : v.vmPrivateData = some w)
    (hw : s.wrappers w = some id) (hv : s.vmas id = some v) (hid : id ≠ s.nextVma)
    (hlo : v.vmStart < addr) (newBelow : Bool) :
    copyVma s (v.part addr newBelow) o =
      openSplit (s.opened (v.part addr newBelow)) id s.nextVma (addr - 1) o := by
  have hfind : ∀ r, update s.vmas s.nextVma r id = some v := fun r =>
    (update_of_ne hid _ _).trans hv
  have hne : addr ≠ v.vmStart := Nat.ne_of_gt hlo
  cases newBelow <;>
    simp only [copyVma, Vma.part, Bool.false_eq_true, if_false, if_true, hman, uvmVmOpenManaged,
      State.setVma, update_self, hdata, Option.bind_some, hw, hfind, ne_eq, not_true_eq_false,
      false_and, and_false, or_self, hne, State.opened, Function.update_idem]

def Crosses (s : State) (addr : ℕ) : Prop := ∃ n ∈ s.ranges, n.start < addr ∧ addr ≤ n.last

/-- What makes the `open` of a split fail. -/
def OpenFails (s : State) (addr : ℕ) (o : OpenOutcome) : Prop :=
  o.wrapperAllocated = false ∨ (o.rangeSplit = false ∧ Crosses s addr)

/-- The state after the first half of a split that fails. -/
def failState (s : State) (id : ℕ) (v : Vma) (w addr : ℕ) (newBelow : Bool) (next : ℕ) : State :=
  { s with
      vmas := update
        (update s.vmas s.nextVma (some (v.part addr newBelow).off)) id
        (some { v.off with adjusted := some (v.rest addr newBelow) })
      nextVma := s.nextVma + 1
      wrappers := update s.wrappers w none
      nextWrapper := next
      ranges := s.ranges.filter fun n => !v.hasRange n }

theorem Inv.range_below (h : Inv s) (hw : s.wrappers w = some id) (hv : s.vmas id = some v)
    (hadj : v.adjusted = none) (hlo : v.vmStart < addr) (hhi : addr < v.vmEnd) :
    ∃ n ∈ s.ranges, lookup s.ranges (addr - 1) = some n ∧ n.start < addr ∧
      (n.last = addr - 1 ↔ ¬Crosses s addr) := by
  have hcov := h.covers hw hv (addr - 1)
  rw [Vma.bounds_of_none hadj] at hcov
  obtain ⟨n, hn, hcont, -⟩ := hcov (by dsimp only; omega) (by dsimp only; omega)
  have hlookup := (lookup_eq_some h.ordered).mpr ⟨hn, hcont⟩
  obtain ⟨hstart, hlast⟩ := hcont
  refine ⟨n, hn, hlookup, by omega, fun heq hcross => ?_, fun hcross => ?_⟩
  · -- a range that crosses the address contains the address below it
    obtain ⟨m, hm, hmstart, hmlast⟩ := hcross
    obtain rfl := h.ordered.unique hn hm ⟨hstart, hlast⟩ ⟨by omega, by omega⟩
    omega
  · by_contra hne
    exact hcross ⟨n, hn, by omega, by omega⟩

theorem update_pair {α : Type} (f : ℕ → α) (i j : ℕ) (a b c d : α) :
    update (update (update (update f j a) i b) j c) i d =
      update (update f j c) i d := by
  funext k
  by_cases hi : k = i
  · rw [hi, update_self, update_self]
  · rw [update_of_ne hi, update_of_ne hi]
    by_cases hj : k = j
    · rw [hj, update_self, update_self]
    · rw [update_of_ne hj, update_of_ne hj, update_of_ne hi, update_of_ne hj]

theorem split_fails (h : Inv s) (hw : s.wrappers w = some id) (hv : s.vmas id = some v)
    (hadj : v.adjusted = none) (hlo : v.vmStart < addr) (hhi : addr < v.vmEnd) (newBelow : Bool)
    (hfails : OpenFails s addr o) :
    ∃ next, s.nextWrapper ≤ next ∧
      (copyVma s (v.part addr newBelow) o).setAdjusted id (v.rest addr newBelow) =
        failState s id v w addr newBelow next := by
  obtain ⟨hwlt, v', hv', hman, hdata⟩ := h.wrapper hw
  rw [hv] at hv'
  obtain rfl := Option.some.inj hv'
  have hid : id ≠ s.nextVma := ne_of_lt (h.vma hv).1
  have hfind : ∀ r, update s.vmas s.nextVma r id = some v := fun r =>
    (update_of_ne hid _ _).trans hv
  have hoff : ∀ r p, update (update (update s.vmas s.nextVma r) id
      (some v.off)) s.nextVma p id = some v.off := fun r p =>
    (update_of_ne hid _ _).trans (update_self _ _ _)
  rw [copyVma_part hman hdata hw hv hid hlo]
  simp only [openSplit, State.opened, update_self]
  cases hwa : o.wrapperAllocated with
  | false =>
    refine ⟨s.nextWrapper, Nat.le_refl _, ?_⟩
    rw [Bool.not_false, if_pos rfl, uvmVmOpenFailure_eq (hfind _) hdata (update_self _ _ _)
      hid.symm]
    simp only [State.setAdjusted, hoff, State.setVma, State.destroyWrapper, update_pair]
    rfl
  | true =>
    rw [OpenFails, hwa] at hfails
    obtain ⟨hsplit, hcross⟩ := hfails.resolve_left Bool.noConfusion
    obtain ⟨n, -, hlookup, -, hlast⟩ := h.range_below hw hv hadj hlo hhi
    have hne : n.last ≠ addr - 1 := fun heq => hlast.mp heq hcross
    refine ⟨s.nextWrapper + 1, Nat.le_succ _, ?_⟩
    simp only [Bool.not_true, Bool.false_eq_true, if_false, State.allocWrapper, State.setVma,
      hlookup, hne, hsplit, Bool.not_false, if_true, Function.update_idem]
    rw [uvmVmOpenFailure_eq (hfind _) hdata (update_self _ _ _) hid.symm]
    -- the wrapper of the new vma was not there before
    have hwrappers : update (update (update s.wrappers s.nextWrapper
        (some s.nextVma)) w none) s.nextWrapper none = update s.wrappers w none := by
      funext k
      by_cases hk : k = s.nextWrapper
      · rw [hk, update_self, update_of_ne (ne_of_gt hwlt), h.wrappers_next]
      · rw [update_of_ne hk]
        by_cases hkw : k = w
        · rw [hkw, update_self, update_self]
        · rw [update_of_ne hkw, update_of_ne hk, update_of_ne hkw]
    simp only [State.setAdjusted, hoff, State.setVma, State.destroyWrapper, update_pair,
      hwrappers]
    rfl

theorem splitRange_of_not_crosses (hcross : ¬Crosses s addr) :
    s.ranges.flatMap (splitRange addr) = s.ranges := by
  have hsame : ∀ n ∈ s.ranges, splitRange addr n = [n] := fun n hn =>
    if_neg fun hin => hcross ⟨n, hn, hin⟩
  rw [List.flatMap_congr hsame, List.flatMap_singleton']

theorem split_succeeds (h : Inv s) (hw : s.wrappers w = some id) (hv : s.vmas id = some v)
    (hadj : v.adjusted = none) (hlo : v.vmStart < addr) (hhi : addr < v.vmEnd) (newBelow : Bool)
    (hfails : ¬OpenFails s addr o) :
    (copyVma s (v.part addr newBelow) o).setAdjusted id (v.rest addr newBelow) =
      splitState { s with ranges := s.ranges.flatMap (splitRange addr) } id v addr newBelow := by
  obtain ⟨-, v', hv', hman, hdata⟩ := h.wrapper hw
  rw [hv] at hv'
  obtain rfl := Option.some.inj hv'
  have hid : id ≠ s.nextVma := ne_of_lt (h.vma hv).1
  have hfind : ∀ r, update s.vmas s.nextVma r id = some v := fun r =>
    (update_of_ne hid _ _).trans hv
  have hwa : o.wrapperAllocated = true := by
    by_contra hwa
    exact hfails (.inl (Bool.eq_false_iff.mpr hwa))
  obtain ⟨n, -, hlookup, -, hlast⟩ := h.range_below hw hv hadj hlo hhi
  rw [copyVma_part hman hdata hw hv hid hlo]
  simp only [openSplit, State.opened, update_self, hwa, Bool.not_true, Bool.false_eq_true,
    if_false, State.allocWrapper, State.setVma, hlookup, Function.update_idem,
    Nat.sub_add_cancel (Nat.succ_le_of_lt (Nat.zero_lt_of_lt hlo))]
  by_cases hcross : Crosses s addr
  · have hsplit : o.rangeSplit = true := by
      by_contra hsplit
      exact hfails (.inr ⟨Bool.eq_false_iff.mpr hsplit, hcross⟩)
    rw [if_neg fun heq => hlast.mp heq hcross, hsplit, Bool.not_true, if_neg Bool.false_ne_true]
    simp only [pointRanges, update_self, State.setAdjusted, hfind, State.setVma, splitState]
    rfl
  · rw [if_pos (hlast.mpr hcross), splitRange_of_not_crosses hcross]
    simp only [pointRanges, update_self, State.setAdjusted, hfind, State.setVma, splitState]
    rfl

/-! ## The steps keep the vmas covered -/

theorem Inv.mem_filter (h : Inv s) (hw : s.wrappers w = some id) (hv : s.vmas id = some v)
    (hadj : v.adjusted = none) :
    n ∈ (s.ranges.filter fun n => !v.hasRange n) ↔ n ∈ s.ranges ∧ n.val.vmaWrapper ≠ some w := by
  rw [List.mem_filter, Bool.not_eq_true']
  refine and_congr_right fun hn => ?_
  rw [← Bool.not_eq_true, h.hasRange_iff hw hv hadj hn]

theorem ordered_filter {l : List VaRange} (h : Ordered l) (p : VaRange → Bool) :
    Ordered (l.filter p) :=
  ⟨fun n hn => h.1 n (List.mem_of_mem_filter hn), h.2.filter p⟩

theorem Inv.destroy (h : Inv s) (hw : s.wrappers w = some id) (hv : s.vmas id = some v)
    (hadj : v.adjusted = none) {r : Option Vma} (hr : Idle r) :
    Inv { s with
      ranges := s.ranges.filter fun n => !v.hasRange n
      wrappers := update s.wrappers w none
      vmas := update s.vmas id r } := by
  refine h.release hw hv hr (ordered_filter h.ordered _)
    (fun n hn hne => (h.mem_filter hw hv hadj).mpr ⟨hn, hne⟩) fun n hn w' hwrap => ?_
  obtain ⟨hn, hne⟩ := (h.mem_filter hw hv hadj).mp hn
  rw [hwrap] at hne
  exact ⟨hn, fun heq => hne (congrArg some heq)⟩

theorem Inv.zombify (h : Inv s) (hw : s.wrappers w = some id) (hv : s.vmas id = some v)
    (hadj : v.adjusted = none) {r : Option Vma} (hr : Idle r) :
    Inv { s with
      ranges := s.ranges.map fun n => if v.hasRange n then setWrapper none n else n
      wrappers := update s.wrappers w none
      vmas := update s.vmas id r } := by
  refine h.release hw hv hr (ordered_map (fun n => ?_) h.ordered) (fun n hn hne => ?_)
    fun n hn w' hwrap => ?_
  · split <;> exact ⟨rfl, rfl⟩
  · refine List.mem_map.mpr ⟨n, hn, if_neg fun hhas => hne ?_⟩
    exact (h.hasRange_iff hw hv hadj hn).mp hhas
  · obtain ⟨m, hm, rfl⟩ := List.mem_map.mp hn
    by_cases hhas : v.hasRange m = true
    · rw [if_pos hhas] at hwrap
      cases hwrap
    · rw [if_neg hhas] at hwrap ⊢
      refine ⟨hm, fun heq => hhas ((h.hasRange_iff hw hv hadj hm).mpr ?_)⟩
      rw [hwrap, heq]

theorem Vma.part_lt (hlo : v.vmStart < addr) (hhi : addr < v.vmEnd) (newBelow : Bool) :
    (v.part addr newBelow).vmStart < (v.part addr newBelow).vmEnd := by
  cases newBelow
  · exact hhi
  · exact hlo

theorem Vma.rest_lt (hlo : v.vmStart < addr) (hhi : addr < v.vmEnd) (newBelow : Bool) :
    (v.rest addr newBelow).1 < (v.rest addr newBelow).2 := by
  cases newBelow
  · exact hlo
  · exact hhi

theorem Vma.part_bounds (hadj : v.adjusted = none) (newBelow : Bool) :
    (v.part addr newBelow).bounds =
      ((v.part addr newBelow).vmStart, (v.part addr newBelow).vmEnd) := by
  refine Vma.bounds_of_none ?_
  cases newBelow <;> exact hadj

theorem Inv.fail (h : Inv s) (hw : s.wrappers w = some id) (hv : s.vmas id = some v)
    (hadj : v.adjusted = none) (hlo : v.vmStart < addr) (hhi : addr < v.vmEnd) (newBelow : Bool)
    {next : ℕ} (hnext : s.nextWrapper ≤ next) : Inv (failState s id v w addr newBelow next) := by
  have hpart : Idle (some (v.part addr newBelow).off) := by
    refine idle_disabled (v := v.part addr newBelow) ?_ rfl rfl rfl
    rw [Vma.part_bounds hadj]
    exact Vma.part_lt hlo hhi newBelow
  have hrest : Idle (some { v.off with adjusted := some (v.rest addr newBelow) }) := by
    intro v' heq
    obtain rfl := Option.some.inj heq
    exact ⟨rfl, rfl, Vma.rest_lt hlo hhi newBelow⟩
  have hidle := h.idle (by rw [h.vmas_next]; exact idle_none) hpart (Nat.le_succ s.nextVma)
    fun _ => Nat.lt_succ_self _
  have hne : id ≠ s.nextVma := ne_of_lt (h.vma hv).1
  exact (hidle.destroy hw ((update_of_ne hne _ _).trans hv) hadj hrest).skipWrappers hnext

theorem Inv.copyOff (h : Inv s) {u : Vma} (hu : Idle (some u)) :
    Inv { s with vmas := update s.vmas s.nextVma (some u), nextVma := s.nextVma + 1 } :=
  h.idle (by rw [h.vmas_next]; exact idle_none) hu (Nat.le_succ s.nextVma) fun _ =>
    Nat.lt_succ_self _

theorem Inv.copy (h : Inv s) (hv : s.vmas id = some v) (hman : new.managed = v.managed)
    (hdata : new.vmPrivateData = v.vmPrivateData) (hlt : new.bounds.1 < new.bounds.2)
    (hcopy : new.mm ≠ v.mm ∨ (new.vmStart ≠ v.vmStart ∧ new.vmEnd ≠ v.vmEnd)) :
    Inv (copyVma s new o) := by
  cases hon : v.managed with
  | false =>
    rw [hon] at hman
    rw [(h.vma hv).2.2 hon] at hdata
    simp only [copyVma, hman, Bool.false_eq_true]
    refine h.copyOff fun u hu => ?_
    obtain rfl := Option.some.inj hu
    exact ⟨hman, hdata, hlt⟩
  | true =>
    obtain ⟨w, hdata', hw⟩ := h.managed hv hon
    rw [copyVma_disables (hman.trans hon) (hdata.trans hdata') hw hv (ne_of_lt (h.vma hv).1)
      hcopy]
    exact h.copyOff (idle_disabled (v := new) hlt rfl rfl rfl)

theorem Inv.splitOff (h : Inv s) (hv : s.vmas id = some v) (hadj : v.adjusted = none)
    (hlo : v.vmStart < addr) (hhi : addr < v.vmEnd) (newBelow : Bool) (hoff : v.managed = false) :
    Inv ((copyVma s (v.part addr newBelow) o).setAdjusted id (v.rest addr newBelow)) := by
  have hdata := (h.vma hv).2.2 hoff
  have hpartOff : (v.part addr newBelow).managed = false := by
    cases newBelow <;> exact hoff
  have hpart : Idle (some (v.part addr newBelow)) := by
    intro u hu
    obtain rfl := Option.some.inj hu
    refine ⟨hpartOff, ?_, ?_⟩
    · cases newBelow <;> exact hdata
    · rw [Vma.part_bounds hadj]
      exact Vma.part_lt hlo hhi newBelow
  have hfind : update s.vmas s.nextVma (some (v.part addr newBelow)) id = some v :=
    (update_of_ne (ne_of_lt (h.vma hv).1) _ _).trans hv
  simp only [copyVma, hpartOff, Bool.false_eq_true, if_false, State.setVma, State.setAdjusted, hfind]
  refine (h.copyOff hpart).idle ?_ ?_ (Nat.le_refl _) fun _ =>
    Nat.lt_succ_of_lt (h.vma hv).1
  · dsimp only
    rw [hfind]
    intro u hu
    obtain rfl := Option.some.inj hu
    exact ⟨hoff, hdata, (h.vma hv).2.1⟩
  · intro u hu
    obtain rfl := Option.some.inj hu
    exact ⟨hoff, hdata, Vma.rest_lt hlo hhi newBelow⟩

theorem step_split (h : Inv s) (newBelow : Bool) : Inv (step s (.split id addr newBelow o)) := by
  simp only [step]
  cases hv : s.vmas id with
  | none => exact h
  | some v =>
    dsimp only
    split
    · next hin =>
      obtain ⟨hadj, hlo, hhi⟩ := hin
      cases hman : v.managed with
      | false => exact h.splitOff hv hadj hlo hhi newBelow hman
      | true =>
        obtain ⟨w, -, hw⟩ := h.managed hv hman
        by_cases hfails : OpenFails s addr o
        · obtain ⟨next, hnext, heq⟩ := split_fails h hw hv hadj hlo hhi newBelow hfails
          rw [heq]
          exact h.fail hw hv hadj hlo hhi newBelow hnext
        · rw [split_succeeds h hw hv hadj hlo hhi newBelow hfails]
          refine (h.splitRange addr).split hw hv hadj hlo hhi newBelow fun n hn => ?_
          obtain ⟨m, hm, hn⟩ := List.mem_flatMap.mp hn
          exact (mem_splitRange (h.ordered.1 m hm) hn).2.2.2.2
    · exact h

theorem Inv.copy_ranges (h : Inv s) (hv : s.vmas id = some v) (hman : new.managed = v.managed)
    (hdata : new.vmPrivateData = v.vmPrivateData)
    (hcopy : new.mm ≠ v.mm ∨ (new.vmStart ≠ v.vmStart ∧ new.vmEnd ≠ v.vmEnd)) :
    (copyVma s new o).ranges = s.ranges := by
  cases hon : v.managed with
  | false =>
    simp only [copyVma, hman.trans hon, Bool.false_eq_true]
    rfl
  | true =>
    obtain ⟨w, hdata', hw⟩ := h.managed hv hon
    rw [copyVma_disables (hman.trans hon) (hdata.trans hdata') hw hv (ne_of_lt (h.vma hv).1)
      hcopy]

theorem step_close (h : Inv s) (isUvmTeardown : Bool) : Inv (step s (.close id isUvmTeardown)) := by
  simp only [step]
  cases hv : s.vmas id with
  | none => exact h
  | some v =>
    dsimp only
    split
    · next hadj =>
      cases hman : v.managed with
      | false =>
        refine h.idle ?_ idle_none (Nat.le_refl _) nofun
        rw [hv]
        intro u hu
        obtain rfl := Option.some.inj hu
        exact ⟨hman, (h.vma hv).2.2 hman, (h.vma hv).2.1⟩
      | true =>
        obtain ⟨w, hdata, hw⟩ := h.managed hv hman
        cases isUvmTeardown <;>
          simp only [if_true, uvmDestroyVmaManaged, hv, hdata, State.destroyWrapper, State.setVma,
            Bool.false_eq_true, Function.update_idem]
        · exact h.destroy hw hv hadj idle_none
        · exact h.zombify hw hv hadj idle_none
    · exact h

theorem step_mmap (h : Inv s) {mm vmStart vmEnd : ℕ} (wrapperAllocated rangeAllocated : Bool) :
    Inv (step s (.mmap mm vmStart vmEnd wrapperAllocated rangeAllocated)) := by
  have hskip : Inv { s with
      wrappers := update (update s.wrappers s.nextWrapper (some s.nextVma))
        s.nextWrapper none
      nextWrapper := s.nextWrapper + 1 } := by
    rw [Function.update_idem, ← h.wrappers_next, Function.update_eq_self]
    exact h.skipWrappers (Nat.le_succ _)
  simp only [step]
  split
  · next hlt =>
    cases wrapperAllocated with
    | false => exact h
    | true =>
      simp only [uvmMmap, Bool.not_true, Bool.false_eq_true, if_false, State.allocWrapper]
      cases rangeAllocated with
      | false => exact hskip
      | true =>
        simp only [uvmVaRangeCreateMmap]
        by_cases hany : (s.ranges.any fun m =>
            decide (m.start ≤ vmEnd - 1 ∧ vmStart ≤ m.last)) = true
        · rw [if_pos hany]
          exact hskip
        · rw [if_neg hany]
          refine h.mapped (v := ⟨mm, vmStart, vmEnd, true, some s.nextWrapper, none⟩) hlt rfl rfl
            rfl (fun m hm hin => hany ?_) s.nextBirth (s.nextBirth + 1)
          exact List.any_eq_true.mpr ⟨m, hm, decide_eq_true hin⟩
  · exact h

theorem mem_uvmMmap (wrapperAllocated rangeAllocated : Bool) (hn : n ∈ s.ranges) :
    n ∈ (uvmMmap s v wrapperAllocated rangeAllocated).ranges := by
  cases wrapperAllocated with
  | false => exact hn
  | true =>
    simp only [uvmMmap, Bool.not_true, Bool.false_eq_true, if_false, State.allocWrapper]
    cases rangeAllocated with
    | false => exact hn
    | true =>
      simp only [uvmVaRangeCreateMmap]
      by_cases hany : (s.ranges.any fun m =>
          decide (m.start ≤ v.vmEnd - 1 ∧ v.vmStart ≤ m.last)) = true
      · rw [if_pos hany]
        exact hn
      · rw [if_neg hany]
        exact mem_insertAt.mpr (.inr hn)

theorem step_inv (h : Inv s) (op : Op) : Inv (step s op) := by
  cases op with
  | mmap mm vmStart vmEnd wrapperAllocated rangeAllocated =>
    exact step_mmap h wrapperAllocated rangeAllocated
  | split id addr newBelow o => exact step_split h newBelow
  | adjust id =>
    simp only [step]
    cases hv : s.vmas id with
    | none => exact h
    | some v => exact h.adjust hv rfl rfl rfl
  | fork id mm =>
    simp only [step]
    cases hv : s.vmas id with
    | none => exact h
    | some v =>
      dsimp only
      split
      · next hfork =>
        exact h.copy hv rfl rfl (h.vma hv).2.1 (.inl hfork.2)
      · exact h
  | move id vmStart vmEnd =>
    simp only [step]
    cases hv : s.vmas id with
    | none => exact h
    | some v =>
      dsimp only
      split
      · next hmove =>
        obtain ⟨hadj, hlt, hdisj⟩ := hmove
        have hlt' := (h.vma hv).2.1
        rw [Vma.bounds_of_none hadj] at hlt'
        refine h.copy hv rfl rfl ?_ (.inr ⟨?_, ?_⟩)
        · rw [Vma.bounds_of_none (by exact hadj)]
          exact hlt
        -- the addresses are not those of the old vma, so neither are the ends
        · dsimp only
          omega
        · dsimp only
          omega
      · exact h
  | close id isUvmTeardown => exact step_close h isUvmTeardown
  | policySplit addr rangeSplit =>
    cases rangeSplit with
    | false => exact h
    | true => exact h.splitRange addr
  | cleanUpZombieResources =>
    refine ⟨ordered_filter h.ordered _, h.vma, h.managed, h.wrapper, fun hw hv a ha ha' => ?_,
      fun hn hwrap => h.inside (List.mem_of_mem_filter hn) hwrap⟩
    obtain ⟨n, hn, hcont, hwrap⟩ := h.covers hw hv a ha ha'
    refine ⟨n, List.mem_filter.mpr ⟨hn, ?_⟩, hcont, hwrap⟩
    rw [hwrap]
    rfl

/-! ## Runs -/

theorem run_inv (ops : List Op) : Inv (Lib.run step State.initial ops) :=
  Lib.run_inv step initial_inv (fun _ op h => step_inv h op) ops

/-- Every managed vma is covered exactly by ranges with its wrapper, and no range with a wrapper is
outside of its vma.  A vma that the kernel is splitting counts with the bounds it will have. -/
structure VmasCovered (s : State) : Prop where
  apart : Ordered s.ranges
  covered : ∀ id v, s.vmas id = some v → v.managed = true →
    ∃ w, v.vmPrivateData = some w ∧ s.wrappers w = some id ∧
      ∀ a, (∃ n ∈ s.ranges, n.Contains a ∧ n.val.vmaWrapper = some w) ↔
        v.bounds.1 ≤ a ∧ a < v.bounds.2
  inside : ∀ n ∈ s.ranges, ∀ w, n.val.vmaWrapper = some w →
    ∃ id v, s.wrappers w = some id ∧ s.vmas id = some v ∧ v.managed = true ∧
      v.bounds.1 ≤ n.start ∧ n.last < v.bounds.2

theorem Inv.vmasCovered (h : Inv s) : VmasCovered s where
  apart := h.ordered
  covered id v hv hman := by
    obtain ⟨w, hdata, hw⟩ := h.managed hv hman
    refine ⟨w, hdata, hw, fun a => ⟨?_, fun ⟨ha, ha'⟩ => h.covers hw hv a ha ha'⟩⟩
    rintro ⟨n, hn, ⟨hstart, hlast⟩, hwrap⟩
    obtain ⟨id', v', hw', hv', hlo, hhi⟩ := h.inside hn hwrap
    rw [hw] at hw'
    obtain rfl := Option.some.inj hw'
    rw [hv] at hv'
    obtain rfl := Option.some.inj hv'
    exact ⟨Nat.le_trans hlo hstart, Nat.lt_of_le_of_lt hlast hhi⟩
  inside n hn w hwrap := by
    obtain ⟨id, v, hw, hv, hbounds⟩ := h.inside hn hwrap
    obtain ⟨-, v', hv', hman, -⟩ := h.wrapper hw
    rw [hv] at hv'
    obtain rfl := Option.some.inj hv'
    exact ⟨id, v, hw, hv, hman, hbounds⟩

/-- What a split that fails leaves: two disabled vmas, and no range at the addresses of the old one
or with its wrapper. -/
structure BothDisabled (s : State) (id new : ℕ) (v : Vma) : Prop where
  old : ∃ v', s.vmas id = some v' ∧ v'.managed = false ∧ v'.vmPrivateData = none
  new : ∃ v', s.vmas new = some v' ∧ v'.managed = false ∧ v'.vmPrivateData = none
  gone : ∀ n ∈ s.ranges, v.hasRange n = false ∧ n.val.vmaWrapper ≠ v.vmPrivateData

theorem openFails_disables (h : Inv s) (hv : s.vmas id = some v) (hman : v.managed = true)
    (hadj : v.adjusted = none) (hlo : v.vmStart < addr) (hhi : addr < v.vmEnd) (newBelow : Bool)
    (hfails : OpenFails s addr o) :
    BothDisabled (step s (.split id addr newBelow o)) id s.nextVma v := by
  obtain ⟨w, hdata, hw⟩ := h.managed hv hman
  obtain ⟨next, -, heq⟩ := split_fails h hw hv hadj hlo hhi newBelow hfails
  have hne : s.nextVma ≠ id := ne_of_gt (h.vma hv).1
  have hstep : step s (.split id addr newBelow o) = failState s id v w addr newBelow next := by
    simp only [step, hv]
    rw [if_pos ⟨hadj, hlo, hhi⟩, heq]
  rw [hstep]
  refine ⟨⟨_, update_self _ _ _, rfl, rfl⟩,
    ⟨_, (update_of_ne hne _ _).trans (update_self _ _ _), rfl, rfl⟩, fun n hn => ?_⟩
  obtain ⟨-, hwrap⟩ := (h.mem_filter hw hv hadj).mp hn
  rw [hdata]
  exact ⟨(Bool.not_eq_true' _).mp (List.mem_filter.mp hn).2, hwrap⟩

/-- **The vmas and their ranges.**  After any run from an empty VA space, every managed vma is
covered exactly by the ranges with its wrapper, and a split of a managed vma that fails disables both
parts and leaves no range of either. -/
theorem vmas_covered (ops : List Op) : VmasCovered (Lib.run step State.initial ops) ∧
    ∀ id v addr newBelow o, (Lib.run step State.initial ops).vmas id = some v →
      v.managed = true → v.adjusted = none → v.vmStart < addr → addr < v.vmEnd →
      OpenFails (Lib.run step State.initial ops) addr o →
      BothDisabled (Lib.run step State.initial (ops ++ [.split id addr newBelow o])) id
        (Lib.run step State.initial ops).nextVma v := by
  refine ⟨(run_inv ops).vmasCovered, fun id v addr newBelow o hv hman hadj hlo hhi hfails => ?_⟩
  rw [run_concat]
  exact openFails_disables (run_inv ops) hv hman hadj hlo hhi newBelow hfails

/-- A vma of 10 pages, whose range was split by a policy call at another address, and a split of the
vma that finds no memory for the new range. -/
theorem vmas_covered_failing : BothDisabled (Lib.run step State.initial
      ([.mmap 0 10 20 true true, .policySplit 12 true] ++ [.split 0 15 true ⟨true, false⟩])) 0 1
      ⟨0, 10, 20, true, some 0, none⟩ :=
  (vmas_covered [.mmap 0 10 20 true true, .policySplit 12 true]).2 0 _ 15 true ⟨true, false⟩ rfl rfl
    rfl (by decide) (by decide) (.inr ⟨rfl, ⟨12, 19, some 0, 0⟩, by decide, by decide⟩)

end NvUvm.VmaRanges
