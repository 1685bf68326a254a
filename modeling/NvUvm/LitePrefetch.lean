import Mathlib.Data.Nat.Log
import NvUvm.Lib.LevelTree
import NvUvm.Lib.Run

/-!
# The UVM-Lite prefetcher

`uvm_lite_prefetch.c`: a record is cut in regions, and each region has a tree whose leaves are its pages and
whose inner nodes count the faulted or prefetched pages below them.  A node that is full enough makes a
hint.

The tuning of the threshold is left out: a fault may come with any.
-/

namespace NvUvm.LitePrefetch

open NvUvm.Lib Function

/-! ## A region -/

/-- `UvmAccessTreeLeaf`. -/
structure Leaf where
  fault : Bool
  prefetch : Bool
  accessed : Bool

/-- `UvmRegionAccess`: the first nodes are leaves, the others counts. -/
structure Region where
  leaf : ℕ → Leaf
  count : ℕ → ℕ

def Region.zero : Region := ⟨fun _ => ⟨false, false, false⟩, fun _ => 0⟩

def Leaf.logged (l : Leaf) : Bool := l.fault || l.prefetch

/-- The loop of `uvmlite_region_log_major_fault`, with the level of its hint.  The first value bounds the
turns. -/
def faultLoop (threshold : ℕ) : ℕ → ℕ → ℕ → ℕ → ℕ → ℕ → (ℕ → ℕ) → Option ℕ → (ℕ → ℕ) × Option ℕ
  | 0, _, _, _, _, _, nodes, hint => (nodes, hint)
  | turns + 1, level, children, off, elemsLevel, entryId, nodes, hint =>
    if elemsLevel = 0 then (nodes, hint)
    else
      let count := nodes (off + entryId) + 1
      faultLoop threshold turns (level + 1) (children * 2) (off + elemsLevel) (elemsLevel / 2) (entryId / 2)
        (update nodes (off + entryId) count)
        (if count ≠ children ∧ children * threshold < count * 100 then some level else hint)

/-- The loop of `uvmlite_region_ack_prefetch`. -/
def ackLoop : ℕ → ℕ → ℕ → ℕ → (ℕ → ℕ) → ℕ → ℕ
  | 0, _, _, _, nodes => nodes
  | turns + 1, off, elemsLevel, entryId, nodes =>
    if elemsLevel = 0 then nodes
    else ackLoop turns (off + elemsLevel) (elemsLevel / 2) (entryId / 2)
      (update nodes (off + entryId) (nodes (off + entryId) + 1))

def loopNodes : ℕ → ℕ → ℕ → ℕ → List ℕ
  | 0, _, _, _ => []
  | turns + 1, off, elemsLevel, entryId =>
    if elemsLevel = 0 then []
    else (off + entryId) :: loopNodes turns (off + elemsLevel) (elemsLevel / 2) (entryId / 2)

/-- `uvmlite_region_log_major_fault`: `none` is a panic. -/
def logMajorFault (region : Region) (pages entryId threshold : ℕ) : Option (Region × Option ℕ) :=
  let leaf := region.leaf entryId
  if leaf.fault || leaf.prefetch || leaf.accessed then none
  else
    let r := faultLoop threshold pages 1 2 pages (pages / 2) (entryId / 2) region.count none
    some (⟨update region.leaf entryId { leaf with fault := true }, r.1⟩, r.2)

/-- `uvmlite_region_log_minor_fault`. -/
def logMinorFault (region : Region) (entryId : ℕ) : Region :=
  { region with leaf := update region.leaf entryId { region.leaf entryId with accessed := true } }

/-- `uvmlite_region_ack_prefetch`. -/
def ackPrefetch (region : Region) (pages entryId : ℕ) : Option Region :=
  let leaf := region.leaf entryId
  if leaf.prefetch then none
  else some ⟨update region.leaf entryId { leaf with prefetch := true },
    ackLoop pages pages (pages / 2) (entryId / 2) region.count⟩

/-! ## A record -/

/-- A record of whole pages, and the order of its regions. -/
structure Record where
  pages : ℕ
  order : ℕ

def roundupPowOfTwo (n : ℕ) : ℕ := 2 ^ Nat.clog 2 n

/-- Calls to the prefetcher. -/
inductive Op (pages : ℕ) where
  | majorFault (page : Fin pages) (threshold : ℕ)
  | minorFault (page : Fin pages)
  | ack (page : Fin pages)
  | reset

structure State where
  halted : Bool
  region : ℕ → Region

def State.start : State := ⟨false, fun _ => .zero⟩

namespace Record

variable (r : Record)

def length : ℕ := r.pages * 2 ^ 12

def regionLength : ℕ := 2 ^ (12 + r.order)

/-- `pPrefetchInfo->regions`. -/
def regions : ℕ := if r.length < 2 ^ (12 + 2) then 0 else (r.length + r.regionLength - 1) / r.regionLength

/-- `region->pages`: the last region is rounded up. -/
def regionPages (i : ℕ) : ℕ :=
  (if i = r.regions - 1 then roundupPowOfTwo (r.length - i * r.regionLength) else r.regionLength) / 2 ^ 12

/-- `UVM_PAGE_REGION_ID`. -/
def pageRegionId (page : ℕ) : ℕ := page / 2 ^ r.order

/-- `UVM_PAGE_LOCAL_ID`. -/
def pageLocalId (page : ℕ) : ℕ := page - 2 ^ r.order * r.pageRegionId page

/-- A call: without regions there is nothing to do. -/
def step (s : State) (op : Op r.pages) : State :=
  if s.halted ∨ r.regions = 0 then s
  else
    match op with
    | .majorFault page threshold =>
      let id := r.pageRegionId page
      match logMajorFault (s.region id) (r.regionPages id) (r.pageLocalId page) threshold with
      | none => { s with halted := true }
      | some (region, _) => { s with region := update s.region id region }
    | .minorFault page =>
      let id := r.pageRegionId page
      { s with region := update s.region id (logMinorFault (s.region id) (r.pageLocalId page)) }
    | .ack page =>
      let id := r.pageRegionId page
      match ackPrefetch (s.region id) (r.regionPages id) (r.pageLocalId page) with
      | none => { s with halted := true }
      | some region => { s with region := update s.region id region }
    | .reset => { s with region := fun _ => .zero }

/-- The hint of `uvmlite_prefetch_log_major_fault`: its first page and the number of its pages. -/
def majorFaultHint (s : State) (page : Fin r.pages) (threshold : ℕ) : Option (ℕ × ℕ) :=
  if r.regions = 0 then none
  else
    let id := r.pageRegionId page
    match logMajorFault (s.region id) (r.regionPages id) (r.pageLocalId page) threshold with
    | some (_, some level) =>
      let children := 2 ^ level
      let baseEntry := r.pageLocalId page / children * children + id * 2 ^ r.order
      some (baseEntry, if r.pages < baseEntry + children then r.pages - baseEntry else children)
    | _ => none

/-- The nodes that a fault or an acknowledgement of the page uses. -/
def nodesOf (page : Fin r.pages) : List ℕ :=
  let pages := r.regionPages (r.pageRegionId page)
  let entryId := r.pageLocalId page
  entryId :: loopNodes pages pages (pages / 2) (entryId / 2)

/-! ## What is right -/

/-- Each inner node counts the logged leaves below it, and so no more than it has leaves. -/
def TreeRight (k : ℕ) (region : Region) : Prop :=
  ∀ l, 1 ≤ l → l ≤ k → ∀ e < 2 ^ (k - l),
    region.count (levelOffset k l + e) = leavesBelow k (fun j => (region.leaf j).logged) l e ∧
      region.count (levelOffset k l + e) ≤ 2 ^ l

def CountsRight (s : State) : Prop :=
  ∀ i < r.regions, ∀ k, r.regionPages i = 2 ^ k → TreeRight k (s.region i)

/-- A hint is an aligned power of two of pages, cut at the end of the record, with the page in it. -/
structure HintRight (page : Fin r.pages) (hint : ℕ × ℕ) : Prop where
  nonempty : 0 < hint.2
  contains : hint.1 ≤ page ∧ page < hint.1 + hint.2
  inside : hint.1 + hint.2 ≤ r.pages
  aligned : ∃ level, 2 ^ level ∣ hint.1 ∧ hint.2 = min (2 ^ level) (r.pages - hint.1)

/-- The call acknowledges a prefetch of a page that is logged as faulted, and not as prefetched, in a region
with inner nodes. -/
def DoubleCount (s : State) : Op r.pages → Prop
  | .ack page => s.halted = false ∧ r.regions ≠ 0 ∧ 1 < r.regionPages (r.pageRegionId page) ∧
    ((s.region (r.pageRegionId page)).leaf (r.pageLocalId page)).fault = true ∧
    ((s.region (r.pageRegionId page)).leaf (r.pageLocalId page)).prefetch = false
  | _ => False

end Record

/-! ## The loops -/

/-- The width of level `l` in the loops, which stop behind the root. -/
def levelElems (k l : ℕ) : ℕ := if l ≤ k then 2 ^ (k - l) else 0

theorem levelElems_half (k l : ℕ) : levelElems k l / 2 = levelElems k (l + 1) := by
  unfold levelElems
  rcases Nat.lt_trichotomy l k with hlt | rfl | hgt
  · rw [if_pos hlt.le, if_pos (show l + 1 ≤ k from hlt), show k - l = k - (l + 1) + 1 by omega, Nat.pow_succ,
      Nat.mul_div_cancel _ (by decide)]
  · simp
  · rw [if_neg (by omega), if_neg (by omega)]

theorem levelElems_ne_zero {k l : ℕ} : levelElems k l ≠ 0 ↔ l ≤ k := by
  unfold levelElems
  by_cases hl : l ≤ k
  · simp [hl]
  · simp [hl]

theorem nextLevel {k l : ℕ} (hl : l ≤ k) (i : ℕ) :
    levelOffset k l + levelElems k l = levelOffset k (l + 1) ∧ levelElems k l / 2 = levelElems k (l + 1) ∧
      i / 2 ^ l / 2 = i / 2 ^ (l + 1) := by
  refine ⟨?_, levelElems_half k l, ?_⟩
  · rw [levelOffset_succ hl, levelElems, if_pos hl]
  · rw [Nat.div_div_eq_div_mul, Nat.pow_succ]

theorem faultLoop_fst (threshold turns level children off elems e : ℕ) (nodes : ℕ → ℕ) (hint : Option ℕ) :
    (faultLoop threshold turns level children off elems e nodes hint).1 =
      ackLoop turns off elems e nodes := by
  induction turns generalizing level children off elems e nodes hint with
  | zero => rfl
  | succ turns ih =>
    unfold faultLoop ackLoop
    split
    · rfl
    · exact ih ..

section Tree

variable {k i : ℕ} (hi : i < 2 ^ k)
include hi

theorem ackLoop_count (turns l : ℕ) (hturns : k < turns + l) (nodes : ℕ → ℕ) {m e : ℕ} (hm : m ≤ k)
    (he : e < 2 ^ (k - m)) :
    ackLoop turns (levelOffset k l) (levelElems k l) (i / 2 ^ l) nodes (levelOffset k m + e) =
      nodes (levelOffset k m + e) + if l ≤ m ∧ i / 2 ^ m = e then 1 else 0 := by
  induction turns generalizing l nodes with
  | zero => rw [if_neg fun hc => by omega]; rfl
  | succ turns ih =>
    unfold ackLoop
    by_cases hl : l ≤ k
    · obtain ⟨hoff, helems, hentry⟩ := nextLevel hl i
      rw [if_neg (levelElems_ne_zero.mpr hl), hoff, helems, hentry, ih (l + 1) (by omega)]
      have hsame := levelOffset_add_inj hm hl he (div_pow_lt hi hl)
      by_cases hhere : m = l ∧ e = i / 2 ^ l
      · obtain ⟨rfl, rfl⟩ := hhere
        rw [update_self, if_neg (by omega), if_pos ⟨le_rfl, rfl⟩]
      · rw [update_of_ne fun hc => hhere (hsame.mp hc)]
        congr 1
        by_cases habove : i / 2 ^ m = e
        · have hne : m ≠ l := fun hc => hhere ⟨hc, by rw [← habove, hc]⟩
          simp [show l + 1 ≤ m ↔ l ≤ m by omega]
        · simp [habove]
    · have hzero : levelElems k l = 0 := not_ne_iff.mp fun hc => hl (levelElems_ne_zero.mp hc)
      rw [if_pos hzero, if_neg fun hc => hl (hc.1.trans hm), Nat.add_zero]

theorem loopNodes_lt (turns l : ℕ) :
    ∀ x ∈ loopNodes turns (levelOffset k l) (levelElems k l) (i / 2 ^ l), x < 2 * 2 ^ k - 1 := by
  induction turns generalizing l with
  | zero => nofun
  | succ turns ih =>
    unfold loopNodes
    by_cases hl : l ≤ k
    · obtain ⟨hoff, helems, hentry⟩ := nextLevel hl i
      rw [if_neg (levelElems_ne_zero.mpr hl), hoff, helems, hentry]
      exact List.forall_mem_cons.mpr ⟨levelOffset_add_lt hl (div_pow_lt hi hl), ih (l + 1)⟩
    · rw [if_pos (not_ne_iff.mp fun hc => hl (levelElems_ne_zero.mp hc))]
      nofun

omit hi in
theorem faultLoop_hint (threshold turns l children : ℕ) (nodes : ℕ → ℕ) (hint : Option ℕ)
    (hhint : ∀ level ∈ hint, level ≤ k) :
    ∀ level ∈ (faultLoop threshold turns l children (levelOffset k l) (levelElems k l) (i / 2 ^ l) nodes
      hint).2, level ≤ k := by
  induction turns generalizing l children nodes hint with
  | zero => exact hhint
  | succ turns ih =>
    unfold faultLoop
    by_cases hl : l ≤ k
    · obtain ⟨hoff, helems, hentry⟩ := nextLevel hl i
      rw [if_neg (levelElems_ne_zero.mpr hl), hoff, helems, hentry]
      apply ih
      split
      · rintro level ⟨⟩
        exact hl
      · exact hhint
    · rw [if_pos (not_ne_iff.mp fun hc => hl (levelElems_ne_zero.mp hc))]
      exact hhint

end Tree

theorem firstLevel (k i : ℕ) : 2 ^ k = levelOffset k 1 ∧ 2 ^ k / 2 = levelElems k 1 ∧ i / 2 = i / 2 ^ 1 := by
  have h := nextLevel (Nat.zero_le k) i
  rw [levelOffset_zero, levelElems, if_pos (Nat.zero_le k)] at h
  simpa using h

/-! ## The regions -/

namespace Record

variable {r : Record}

theorem lt_regions_iff (hne : r.regions ≠ 0) (i : ℕ) : i < r.regions ↔ i * 2 ^ r.order < r.pages := by
  have hpow : r.regionLength = 2 ^ r.order * 2 ^ 12 := (Nat.pow_add' ..)
  have hpos : 0 < 2 ^ r.order := Nat.two_pow_pos _
  unfold regions at hne ⊢
  rw [if_neg fun hc => hne (if_pos hc), ← Nat.succ_le_iff, hpow, Nat.le_div_iff_mul_le (by omega), length,
    Nat.succ_mul, ← Nat.mul_assoc]
  omega

theorem regionPages_spec (hne : r.regions ≠ 0) {i : ℕ} (hi : i < r.regions) :
    ∃ k ≤ r.order, r.regionPages i = 2 ^ k ∧ ∀ j < 2 ^ r.order, i * 2 ^ r.order + j < r.pages → j < 2 ^ k := by
  have hpow : r.regionLength = 2 ^ r.order * 2 ^ 12 := (Nat.pow_add' ..)
  have hin := (lt_regions_iff hne i).mp hi
  unfold regionPages
  by_cases hlast : i = r.regions - 1
  · -- the rest of the record, which no further region follows
    have hend : r.pages ≤ (i + 1) * 2 ^ r.order :=
      Nat.le_of_not_lt fun hc => absurd ((lt_regions_iff hne _).mpr hc) (by omega)
    have hrest : r.length - i * r.regionLength = (r.pages - i * 2 ^ r.order) * 2 ^ 12 := by
      rw [hpow, length, ← Nat.mul_assoc, ← Nat.sub_mul]
    rw [Nat.succ_mul] at hend
    rw [if_pos hlast, hrest]
    generalize hn : r.pages - i * 2 ^ r.order = n
    have hlow : 12 ≤ Nat.clog 2 (n * 2 ^ 12) := by
      calc 12 = Nat.clog 2 (2 ^ 12) := (Nat.clog_pow 2 12 (by decide)).symm
        _ ≤ _ := Nat.clog_mono_right 2 (Nat.le_mul_of_pos_left _ (by omega))
    have hhigh : Nat.clog 2 (n * 2 ^ 12) ≤ r.order + 12 := by
      calc _ ≤ Nat.clog 2 (2 ^ (r.order + 12)) := Nat.clog_mono_right 2 (by
            rw [Nat.pow_add]
            exact Nat.mul_le_mul_right _ (by omega))
        _ = _ := Nat.clog_pow 2 _ (by decide)
    have hfits := Nat.le_pow_clog (b := 2) (by decide) (n * 2 ^ 12)
    obtain ⟨k, hk⟩ := Nat.exists_eq_add_of_le' hlow
    refine ⟨k, by omega, ?_, fun j _ hj => ?_⟩
    · rw [roundupPowOfTwo, hk, Nat.pow_add, Nat.mul_div_cancel _ (by decide)]
    · rw [hk, Nat.pow_add] at hfits
      omega
  · refine ⟨r.order, le_rfl, ?_, fun j hj _ => hj⟩
    rw [if_neg hlast, hpow, Nat.mul_div_cancel _ (by decide)]

theorem page_spec (hne : r.regions ≠ 0) (page : Fin r.pages) : r.pageRegionId page < r.regions ∧
    page.val = r.pageLocalId page + r.pageRegionId page * 2 ^ r.order ∧
    ∃ k ≤ r.order, r.regionPages (r.pageRegionId page) = 2 ^ k ∧ r.pageLocalId page < 2 ^ k := by
  have hpos : 0 < 2 ^ r.order := Nat.two_pow_pos _
  have hdiv := Nat.div_add_mod page.val (2 ^ r.order)
  have hmod := Nat.mod_lt page.val hpos
  have hlocal : r.pageLocalId page = page.val % 2 ^ r.order := by
    unfold pageLocalId pageRegionId
    omega
  have hpage : page.val = r.pageLocalId page + r.pageRegionId page * 2 ^ r.order := by
    rw [hlocal, pageRegionId, Nat.mul_comm (page.val / _)]
    omega
  have hregion : r.pageRegionId page < r.regions := (lt_regions_iff hne _).mpr (by
    omega)
  obtain ⟨k, hk, hpages, hroom⟩ := regionPages_spec hne hregion
  refine ⟨hregion, hpage, k, hk, hpages, hroom _ (hlocal ▸ hmod) ?_⟩
  omega

/-! ## Faults and acknowledgements -/

theorem ackLoop_first {k i : ℕ} (hi : i < 2 ^ k) (nodes : ℕ → ℕ) {m e : ℕ} (hfirst : 1 ≤ m) (hm : m ≤ k)
    (he : e < 2 ^ (k - m)) : ackLoop (2 ^ k) (2 ^ k) (2 ^ k / 2) (i / 2) nodes (levelOffset k m + e) =
      nodes (levelOffset k m + e) + if i / 2 ^ m = e then 1 else 0 := by
  obtain ⟨hoff, helems, hentry⟩ := firstLevel k i
  have h := ackLoop_count hi (2 ^ k) 1 (Nat.lt_succ_of_lt Nat.lt_two_pow_self) nodes hm he
  rw [← hoff, ← helems, ← hentry] at h
  simpa [hfirst] using h

theorem treeRight_zero (k : ℕ) : TreeRight k .zero := by
  intro l _ _ e _
  have hzero : leavesBelow k (fun _ => false) l e = 0 := by simp [leavesBelow]
  exact ⟨hzero.symm, Nat.zero_le _⟩

theorem treeRight_iff {k i : ℕ} {region region' : Region} (hi : i < 2 ^ k) (h : TreeRight k region)
    (hset : (region'.leaf i).logged = true) (hother : ∀ j, j ≠ i → region'.leaf j = region.leaf j)
    (hcnt : region'.count = ackLoop (2 ^ k) (2 ^ k) (2 ^ k / 2) (i / 2) region.count) :
    TreeRight k region' ↔ (1 < 2 ^ k → (region.leaf i).logged = false) := by
  constructor
  · intro h' hk
    by_contra hlogged
    rw [Bool.not_eq_false] at hlogged
    have hpos : 1 ≤ k := Nat.pos_of_ne_zero fun hc => by simp [hc] at hk
    have hentry : i / 2 ^ 1 < 2 ^ (k - 1) := div_pow_lt hi hpos
    have hbefore := (h 1 le_rfl hpos _ hentry).1
    have hafter := (h' 1 le_rfl hpos _ hentry).1
    rw [hcnt, ackLoop_first hi _ le_rfl hpos hentry, if_pos rfl, hbefore] at hafter
    have hsame : leavesBelow k (fun j => (region'.leaf j).logged) 1 (i / 2 ^ 1) =
        leavesBelow k (fun j => (region.leaf j).logged) 1 (i / 2 ^ 1) := by
      apply leavesBelow_congr
      intro j _
      by_cases hj : j = i
      · rw [hj, hset, hlogged]
      · rw [hother j hj]
    omega
  · intro hclear l hl hlk e he
    have hk : 1 < 2 ^ k := Nat.one_lt_two_pow (by omega)
    have hmark := leavesBelow_mark (b := fun j => (region'.leaf j).logged) hi (hclear hk) hset
      (fun j hj => congrArg Leaf.logged (hother j hj)) l e
    have hright : region'.count (levelOffset k l + e) =
        leavesBelow k (fun j => (region'.leaf j).logged) l e := by
      rw [hcnt, ackLoop_first hi _ hl hlk he, (h l hl hlk e he).1, hmark]
    exact ⟨hright, hright ▸ leavesBelow_le ..⟩

theorem countsRight_update_iff {s : State} (h : r.CountsRight s) {id k : ℕ} (hid : id < r.regions)
    (hk : r.regionPages id = 2 ^ k) (region : Region) :
    r.CountsRight { s with region := update s.region id region } ↔ TreeRight k region := by
  constructor
  · intro h'
    simpa using h' id hid k hk
  · intro hright i hi k' hk'
    by_cases hsame : i = id
    · subst hsame
      obtain rfl := Nat.pow_right_injective le_rfl (hk.symm.trans hk')
      simpa using hright
    · simpa [hsame] using h i hi k' hk'

theorem step_countsRight_iff (s : State) (op : Op r.pages) (h : r.CountsRight s) :
    r.CountsRight (r.step s op) ↔ ¬ r.DoubleCount s op := by
  unfold step
  by_cases hstop : s.halted = true ∨ r.regions = 0
  · rw [if_pos hstop]
    refine iff_of_true h fun hdouble => ?_
    cases op with
    | ack page => exact hstop.elim (by simp [hdouble.1]) hdouble.2.1
    | _ => exact hdouble
  rw [if_neg hstop]
  obtain ⟨hrun, hne⟩ := not_or.mp hstop
  cases op with
  | reset =>
    exact iff_of_true (fun _ _ k _ => treeRight_zero k) id
  | majorFault page threshold =>
    obtain ⟨hid, -, k, -, hk, hlocal⟩ := page_spec hne page
    refine iff_of_true ?_ id
    unfold logMajorFault
    dsimp only
    rw [hk]
    by_cases hpanic : (((s.region (r.pageRegionId page)).leaf (r.pageLocalId page)).fault ||
        ((s.region (r.pageRegionId page)).leaf (r.pageLocalId page)).prefetch ||
        ((s.region (r.pageRegionId page)).leaf (r.pageLocalId page)).accessed) = true
    · rw [if_pos hpanic]
      exact h
    · rw [if_neg hpanic]
      refine (countsRight_update_iff h hid hk _).mpr ((treeRight_iff hlocal (h _ hid k hk) ?_ ?_ ?_).mpr ?_)
      · simp [Leaf.logged]
      · exact fun j hj => update_of_ne hj ..
      · exact faultLoop_fst ..
      · intro _
        simp only [Bool.or_eq_true, not_or] at hpanic
        simp [Leaf.logged, hpanic]
  | minorFault page =>
    obtain ⟨hid, -, k, -, hk, hlocal⟩ := page_spec hne page
    refine iff_of_true ((countsRight_update_iff h hid hk _).mpr fun l hl hlk e he => ?_) id
    have hright := h _ hid k hk l hl hlk e he
    refine ⟨hright.1.trans (leavesBelow_congr (fun j _ => ?_) l e), hright.2⟩
    by_cases hj : j = r.pageLocalId page
    · subst hj
      simp [logMinorFault, Leaf.logged]
    · simp [logMinorFault, hj]
  | ack page =>
    obtain ⟨hid, -, k, -, hk, hlocal⟩ := page_spec hne page
    unfold ackPrefetch DoubleCount
    dsimp only
    rw [hk]
    by_cases hpanic : ((s.region (r.pageRegionId page)).leaf (r.pageLocalId page)).prefetch = true
    · rw [if_pos hpanic]
      exact iff_of_true h fun hdouble => by simp [hpanic] at hdouble
    · rw [if_neg hpanic]
      refine (countsRight_update_iff h hid hk _).trans ((treeRight_iff hlocal (h _ hid k hk) ?_ ?_ rfl).trans ?_)
      · simp [Leaf.logged]
      · exact fun j hj => update_of_ne hj ..
      · simp [Leaf.logged, hpanic, hrun, hne]

theorem majorFaultHint_right {s : State} {page : Fin r.pages} {threshold : ℕ} {hint : ℕ × ℕ}
    (h : r.majorFaultHint s page threshold = some hint) : r.HintRight page hint := by
  unfold majorFaultHint at h
  by_cases hne : r.regions = 0
  · rw [if_pos hne] at h
    cases h
  rw [if_neg hne] at h
  obtain ⟨-, hpage, k, hord, hk, -⟩ := page_spec hne page
  dsimp only at h
  cases hlog : logMajorFault (s.region (r.pageRegionId page)) (r.regionPages (r.pageRegionId page))
      (r.pageLocalId page) threshold with
  | none => simp [hlog] at h
  | some result =>
    obtain ⟨region, _ | level⟩ := result
    · simp [hlog] at h
    have hlevel : level ≤ k := by
      unfold logMajorFault at hlog
      dsimp only at hlog
      split at hlog
      · cases hlog
      obtain ⟨hoff, helems, hentry⟩ := firstLevel k (r.pageLocalId page)
      have hloop := faultLoop_hint (k := k) (i := r.pageLocalId page) threshold (2 ^ k) 1 2
        (s.region (r.pageRegionId page)).count none nofun
      rw [← hoff, ← helems, ← hentry, ← hk] at hloop
      exact hloop level (congrArg Prod.snd (Option.some.inj hlog))
    simp only [hlog, Option.some.injEq] at h
    obtain rfl := h
    have hlow := Nat.div_mul_le_self (r.pageLocalId page) (2 ^ level)
    have hhigh := Nat.lt_div_mul_add (a := r.pageLocalId page) (Nat.two_pow_pos level)
    have halign : 2 ^ level ∣ r.pageLocalId page / 2 ^ level * 2 ^ level +
        r.pageRegionId page * 2 ^ r.order :=
      Nat.dvd_add (Nat.dvd_mul_left ..)
        ((Nat.pow_dvd_pow 2 (hlevel.trans hord)).trans (Nat.dvd_mul_left ..))
    generalize r.pageLocalId page / 2 ^ level * 2 ^ level = low at hlow hhigh halign ⊢
    generalize r.pageRegionId page * 2 ^ r.order = off at hpage halign ⊢
    -- the record may end within the node
    have hcut : (if r.pages < low + off + 2 ^ level then r.pages - (low + off) else 2 ^ level) =
        min (2 ^ level) (r.pages - (low + off)) := by
      split <;> omega
    rw [hcut]
    exact {
      nonempty := by dsimp only; omega
      contains := by dsimp only; omega
      inside := by dsimp only; omega
      aligned := ⟨level, halign, rfl⟩ }

/-- **The prefetcher is right** in every run that never counts a leaf twice, and in no other: the counts of
the nodes.  The nodes that are used and the hints are right in every state. -/
theorem prefetcher_right (r : Record) : (∀ ops, HoldsAlong r.step r.CountsRight .start ops ↔
      StepsMeet r.step (fun s op => ¬ r.DoubleCount s op) .start ops) ∧
    (∀ page : Fin r.pages, r.regions ≠ 0 →
      ∀ node ∈ r.nodesOf page, node < 2 * r.regionPages (r.pageRegionId page) - 1) ∧
    ∀ s page threshold hint, r.majorFaultHint s page threshold = some hint → r.HintRight page hint := by
  refine ⟨fun ops => ?_, fun page hne => ?_, fun _ _ _ _ => majorFaultHint_right⟩
  · exact holds_along_iff r.step (W := fun _ => True) trivial (fun _ _ k _ => treeRight_zero k)
      (fun _ _ _ => trivial) (fun s op _ h => step_countsRight_iff s op h) ops
  · obtain ⟨-, -, k, -, hk, hlocal⟩ := page_spec hne page
    obtain ⟨hoff, helems, hentry⟩ := firstLevel k (r.pageLocalId page)
    unfold nodesOf
    rw [hk]
    refine List.forall_mem_cons.mpr ⟨by omega, ?_⟩
    have h := loopNodes_lt hlocal (2 ^ k) 1
    rwa [← hoff, ← helems, ← hentry] at h

/-- A faulted leaf whose page is then prefetched is counted twice. -/
theorem faulted_leaf_counts_twice :
    ¬ ∀ (r : Record) (ops : List (Op r.pages)), HoldsAlong r.step r.CountsRight .start ops := by
  intro hall
  let r : Record := ⟨4, 8⟩
  have hregions : r.regions = 1 := by decide
  have hpages : r.regionPages 0 = 4 := by
    decide
  have h := hall r [.majorFault 0 50, .ack 0]
  have hfault := h [.majorFault 0 50] ⟨[.ack 0], rfl⟩
  have hack := h ([.majorFault 0 50] ++ [.ack 0]) (List.prefix_refl _)
  rw [run_concat] at hack
  have hregion : r.pageRegionId 0 = 0 := by decide
  have hlocal : r.pageLocalId 0 = 0 := by decide
  apply (step_countsRight_iff _ _ hfault).mp hack
  simp [DoubleCount, run, step, State.start, logMajorFault, Region.zero, hregions, hpages, hregion]

end Record

end NvUvm.LitePrefetch
