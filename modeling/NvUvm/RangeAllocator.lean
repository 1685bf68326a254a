import Mathlib.Data.List.Pairwise
import NvUvm.RangeTreeRuns

/-!
# The range allocator

Model of `uvm8_range_allocator.c`: an allocator of aligned ranges of a span of addresses, which keeps
the free ranges in a range tree.  Every allocation holds the tree node that will bring its range
back.
-/

namespace NvUvm

open Lib

/-! ## The calls -/

/-- `UVM_ALIGN_UP` on `NvU64`: the sum wraps, and the bits below the alignment are cleared. -/
def uvmAlignUp (x alignment : ℕ) : ℕ :=
  let sum := (x + (alignment - 1)) % 2 ^ 64
  sum - sum % alignment

/-- `uvm_range_allocation_t`, with the size and the alignment that were asked for. -/
structure RangeAllocation where
  alignedStart : ℕ
  node : ℕ
  size : ℕ
  alignment : ℕ
  deriving DecidableEq, Repr

/-- `uvm_range_allocator_t`, with the allocations that its callers hold. -/
structure RangeAllocator where
  size : ℕ
  rangeTree : RangeTree
  outstanding : List RangeAllocation

namespace RangeAllocator

variable (rb : RbPrimitives) (a : RangeAllocator)

/-- `uvm_range_allocator_init`, where a node has been allocated; `start` and `last` are the bounds
that the other nodes happen to hold. -/
def init (size node : ℕ) (start last : ℕ → ℕ) : RangeAllocator where
  size := size
  rangeTree := (((RangeTree.init start last).setBounds node 0 (size - 1)).add rb node).2
  outstanding := []

/-- The last address of a range of `size` addresses from `alignedStart` on, as an `NvU64`. -/
def alignedEnd (alignedStart size : ℕ) : ℕ := (alignedStart + (size - 1)) % 2 ^ 64

/-- The body of the loop of `uvm_range_allocator_alloc`: where the range starts that fits into a free
node. -/
def fitStart (tree : RangeTree) (size alignment n : ℕ) : Option ℕ :=
  let alignedStart := uvmAlignUp (tree.start n) alignment
  -- overflow of the start or of the end
  if alignedStart < tree.start n ∨ alignedEnd alignedStart size < alignedStart then none
  else if tree.last n < alignedEnd alignedStart size then none
  else some alignedStart

/-- The loop over the free nodes, with at most `fuel` rounds: the first that a range fits into. -/
def findFit (tree : RangeTree) (size alignment last : ℕ) : ℕ → Option ℕ → Option (ℕ × ℕ)
  | 0, _ => none
  | _ + 1, none => none
  | fuel + 1, some n =>
    match fitStart tree size alignment n with
    | some alignedStart => some (n, alignedStart)
    | none => findFit tree size alignment last fuel (tree.iterNext n last)

def realAlignment (alignment : ℕ) : ℕ := if alignment = 0 then 1 else alignment

/-- What the claim of the front of free node `n` does to the tree; `m` is the node of the
allocation. -/
def claim (tree : RangeTree) (m n alignedEnd : ℕ) : RangeTree :=
  let claimed := tree.setBounds m (tree.start n) alignedEnd
  if alignedEnd < tree.last n then claimed.shrinkNode n (alignedEnd + 1) (tree.last n)
  else claimed.remove rb n

/-- `uvm_range_allocator_alloc`; `node` is what the allocation of the helper node returns. -/
def alloc (size alignment : ℕ) (node : Option ℕ) : NvStatus × RangeAllocator :=
  if a.size < size then (.errUvmAddressInUse, a)
  else
    match node with
    | none => (.errNoMemory, a)
    | some m =>
      let last := a.size - size
      let alignment := realAlignment alignment
      match findFit a.rangeTree size alignment last a.rangeTree.head.length
          (a.rangeTree.iterFirst 0 last) with
      | none => (.errUvmAddressInUse, a)
      | some (n, alignedStart) =>
        (.ok, { a with
          rangeTree := claim rb a.rangeTree m n (alignedEnd alignedStart size)
          outstanding := ⟨alignedStart, m, size, alignment⟩ :: a.outstanding })

/-- `uvm_range_allocator_free`. -/
def free (r : RangeAllocation) : RangeAllocator :=
  let tree := (a.rangeTree.add rb r.node).2
  let tree := (tree.mergePrev rb r.node).2
  let tree := (tree.mergeNext rb r.node).2
  { a with rangeTree := tree, outstanding := a.outstanding.erase r }

end RangeAllocator

/-! ## Alignment -/

section Align

variable {x y k size : ℕ}

theorem uvmAlignUp_of_lt (h : x + (2 ^ k - 1) < 2 ^ 64) :
    2 ^ k ∣ uvmAlignUp x (2 ^ k) ∧ x ≤ uvmAlignUp x (2 ^ k) ∧
      ∀ y, 2 ^ k ∣ y → x ≤ y → uvmAlignUp x (2 ^ k) ≤ y := by
  have hpos : 0 < 2 ^ k := Nat.two_pow_pos k
  unfold uvmAlignUp
  dsimp only
  rw [Nat.mod_eq_of_lt h]
  refine ⟨Nat.dvd_sub_mod _, by omega, fun y hy hxy => ?_⟩
  -- a smaller multiple would be below `x`
  obtain ⟨q, rfl⟩ := hy
  have hdiv := Nat.div_add_mod (x + (2 ^ k - 1)) (2 ^ k)
  have hq : (x + (2 ^ k - 1)) / 2 ^ k ≤ q := by
    rw [← Nat.lt_succ_iff, Nat.div_lt_iff_lt_mul hpos, Nat.succ_mul, Nat.mul_comm q]
    omega
  have hmul := Nat.mul_le_mul_left (2 ^ k) hq
  omega

theorem uvmAlignUp_of_overflow (hk : k < 64) (hx : x < 2 ^ 64) (h : ¬ x + (2 ^ k - 1) < 2 ^ 64) :
    uvmAlignUp x (2 ^ k) < x ∧ ∀ y, 2 ^ k ∣ y → x ≤ y → 2 ^ 64 ≤ y := by
  have hle : 2 ^ k ≤ 2 ^ 64 := Nat.pow_le_pow_right Nat.zero_lt_two hk.le
  obtain ⟨q, hq⟩ : 2 ^ k ∣ 2 ^ 64 := Nat.pow_dvd_pow 2 hk.le
  unfold uvmAlignUp
  dsimp only
  have hsum : (x + (2 ^ k - 1)) % 2 ^ 64 = x + (2 ^ k - 1) - 2 ^ 64 := by
    rw [Nat.mod_eq_sub_mod (by omega), Nat.mod_eq_of_lt (by omega)]
  rw [hsum]
  refine ⟨?_, ?_⟩
  · rw [Nat.mod_eq_of_lt (by omega)]
    omega
  · rintro _ ⟨p, rfl⟩ hxy
    rw [hq]
    refine Nat.mul_le_mul_left (2 ^ k) ?_
    by_contra hlt
    have hmul := Nat.mul_le_mul_left (2 ^ k) (show p + 1 ≤ q by omega)
    rw [Nat.mul_add, Nat.mul_one] at hmul
    omega

end Align

namespace RangeAllocator

variable {rb : RbPrimitives} {a : RangeAllocator} {tree : RangeTree} {A B : IntervalSet}
  {size k n m alignedStart : ℕ}

/-! ## Where a range fits -/

/-- Free node `n` holds an aligned range. -/
def Holds (tree : RangeTree) (size alignment n : ℕ) : Prop :=
  ∃ x, alignment ∣ x ∧ tree.start n ≤ x ∧ x + (size - 1) ≤ tree.last n

/-- What is known of a place where a range fits. -/
structure Fits (tree : RangeTree) (size alignment n alignedStart : ℕ) : Prop where
  aligned : alignment ∣ alignedStart
  start_le : tree.start n ≤ alignedStart
  alignedEnd_eq : alignedEnd alignedStart size = alignedStart + (size - 1)
  le_last : alignedStart + (size - 1) ≤ tree.last n

/-- The checks of the loop find a place in the node exactly if there is one, also where aligning up
or the end of the range overflows. -/
theorem fitStart_spec (hk : k < 64) (hsize : size < 2 ^ 64) (hstart : tree.start n < 2 ^ 64)
    (hlast : tree.last n < 2 ^ 64) :
    (∃ alignedStart, fitStart tree size (2 ^ k) n = some alignedStart ∧
        Fits tree size (2 ^ k) n alignedStart) ∨
      fitStart tree size (2 ^ k) n = none ∧ ¬ Holds tree size (2 ^ k) n := by
  by_cases hsum : tree.start n + (2 ^ k - 1) < 2 ^ 64
  · obtain ⟨hdvd, hle, hleast⟩ := uvmAlignUp_of_lt hsum
    have hlow : uvmAlignUp (tree.start n) (2 ^ k) < 2 ^ 64 :=
      (Nat.sub_le _ _).trans_lt (Nat.mod_lt _ (Nat.two_pow_pos 64))
    unfold fitStart
    generalize uvmAlignUp (tree.start n) (2 ^ k) = y at hdvd hle hleast hlow
    dsimp only
    by_cases hend : y + (size - 1) < 2 ^ 64
    · have hend' : alignedEnd y size = y + (size - 1) := Nat.mod_eq_of_lt hend
      rw [hend', if_neg (by omega)]
      split
      · next hbeyond =>
        refine .inr ⟨rfl, ?_⟩
        rintro ⟨x, hx, hxle, hxlast⟩
        have := hleast x hx hxle
        omega
      · next hfits => exact .inl ⟨y, rfl, hdvd, hle, hend', by omega⟩
    · -- the end of the range wraps
      have hwrap : alignedEnd y size < y := by
        unfold alignedEnd
        omega
      rw [if_pos (.inr hwrap)]
      refine .inr ⟨rfl, ?_⟩
      rintro ⟨x, hx, hxle, hxlast⟩
      have := hleast x hx hxle
      omega
  · obtain ⟨hzero, hnone⟩ := uvmAlignUp_of_overflow hk hstart hsum
    unfold fitStart
    dsimp only
    rw [if_pos (.inl hzero)]
    refine .inr ⟨rfl, ?_⟩
    rintro ⟨x, hx, hxle, hxlast⟩
    have := hnone x hx hxle
    omega

private theorem findFit_visits {l : List ℕ} {last fuel : ℕ} {node : Option ℕ}
    (hvisits : tree.Visits last l node) (hfuel : l.length ≤ fuel) (alignment : ℕ) :
    (∃ n ∈ l, ∃ y, fitStart tree size alignment n = some y ∧
        findFit tree size alignment last fuel node = some (n, y)) ∨
      (∀ n ∈ l, fitStart tree size alignment n = none) ∧
        findFit tree size alignment last fuel node = none := by
  induction l generalizing fuel node with
  | nil =>
    obtain rfl : node = none := hvisits
    refine .inr ⟨by simp, ?_⟩
    cases fuel <;> rfl
  | cons n l ih =>
    obtain ⟨rfl, hrest⟩ := hvisits
    cases fuel with
    | zero => simp at hfuel
    | succ fuel =>
      unfold findFit
      cases hfit : fitStart tree size alignment n with
      | some y => exact .inl ⟨n, List.mem_cons_self, y, hfit, rfl⟩
      | none =>
        rcases ih hrest (Nat.le_of_succ_le_succ hfuel) with ⟨q, hq, y, hy, hfind⟩ | ⟨hall, hfind⟩
        · exact .inl ⟨q, List.mem_cons_of_mem n hq, y, hy, hfind⟩
        · refine .inr ⟨fun q hq => ?_, hfind⟩
          rcases List.mem_cons.mp hq with rfl | hq
          · exact hfit
          · exact hall q hq

theorem findFit_spec (h : tree.Inv) {total : ℕ} (hwithin : ∀ n ∈ tree.head, tree.last n < total)
    (hk : k < 64) (hpos : 0 < size) (hsize : size < 2 ^ 64) (hle : size ≤ total) :
    (∃ n ∈ tree.head, ∃ y, Fits tree size (2 ^ k) n y ∧
        findFit tree size (2 ^ k) (total - size) tree.head.length
          (tree.iterFirst 0 (total - size)) = some (n, y)) ∨
      (∀ n ∈ tree.head, ¬ Holds tree size (2 ^ k) n) ∧
        findFit tree size (2 ^ k) (total - size) tree.head.length
          (tree.iterFirst 0 (total - size)) = none := by
  obtain ⟨l, hvisits, hpw, hmem⟩ := h.visits (Nat.zero_le (total - size))
  have hbounds : ∀ n ∈ tree.head, tree.start n < 2 ^ 64 ∧ tree.last n < 2 ^ 64 := fun n hn =>
    ⟨(h.start_le_last hn).trans_lt (h.bounded n hn), h.bounded n hn⟩
  -- the loop takes no more rounds than there are nodes
  have hnd : l.Nodup := by
    apply List.Pairwise.imp_of_mem _ hpw
    rintro x y hx hy hlt rfl
    exact absurd hlt (Nat.not_lt.mpr (h.start_le_last ((hmem x).mp hx).1))
  have hlen : l.length ≤ tree.head.length :=
    (hnd.subperm fun x hx => ((hmem x).mp hx).1).length_le
  rcases findFit_visits hvisits hlen (2 ^ k) with
    ⟨n, hn, y, hy, hfind⟩ | ⟨hall, hfind⟩
  · have hhead := ((hmem n).mp hn).1
    rcases fitStart_spec hk hsize (hbounds n hhead).1 (hbounds n hhead).2 with
      ⟨y', hy', hfits⟩ | ⟨hnone, -⟩
    · obtain rfl : y = y' := Option.some.inj (hy.symm.trans hy')
      exact .inl ⟨n, hhead, y, hfits, hfind⟩
    · rw [hnone] at hy
      simp at hy
  · refine .inr ⟨fun n hn hhold => ?_, hfind⟩
    have hholds' := hhold
    obtain ⟨x, -, hxle, hxlast⟩ := hholds'
    have hlast := hwithin n hn
    -- a node that starts too late for the loop has no room either
    have hvisited : n ∈ l := by
      refine (hmem n).mpr ⟨hn, ?_, Nat.zero_le _⟩
      change tree.start n ≤ total - size
      omega
    rcases fitStart_spec hk hsize (hbounds n hn).1 (hbounds n hn).2 with
      ⟨y, hy, -⟩ | ⟨-, hnot⟩
    · rw [hall n hvisited] at hy
      simp at hy
    · exact hnot hhold

/-! ## The invariant -/

def Apart (A : IntervalSet) : Prop := ∀ m ∈ A.members, ∀ n ∈ A.members, m.last + 1 ≠ n.start

/-- The addresses that an allocation took from the free nodes. -/
def taken (a : RangeAllocator) (r : RangeAllocation) : Lib.Interval ℕ := a.rangeTree.interval r.node

/-- An allocation holds an aligned range of the size asked for. -/
structure HoldsRange (a : RangeAllocator) (r : RangeAllocation) : Prop where
  aligned : r.alignment ∣ r.alignedStart
  start_le : (a.taken r).start ≤ r.alignedStart
  last_eq : (a.taken r).last = r.alignedStart + (r.size - 1)
  bounded : (a.taken r).last < 2 ^ 64

variable {r : RangeAllocation} {alignment : ℕ}

theorem HoldsRange.nonempty (h : a.HoldsRange r) : (a.taken r).start ≤ (a.taken r).last := by
  rw [h.last_eq]
  exact h.start_le.trans (Nat.le_add_right ..)

/-- **The invariant**: the free nodes, which stand for the set `A`, and what the allocations took
tile the span, and no two free nodes are adjacent. -/
structure Inv (a : RangeAllocator) (A : IntervalSet) : Prop where
  represents : a.rangeTree.Represents A
  apart : Apart A
  covered : ∀ x, x < a.size ↔ A.Covers x ∨ ∃ r ∈ a.outstanding, (a.taken r).Contains x
  notFree : ∀ r ∈ a.outstanding, ∀ x, (a.taken r).Contains x → ¬ A.Covers x
  disjoint : a.outstanding.Pairwise fun r q =>
    r.node ≠ q.node ∧ ∀ x, (a.taken r).Contains x → ¬ (a.taken q).Contains x
  notListed : ∀ r ∈ a.outstanding, r.node ∉ a.rangeTree.head
  holds : ∀ r ∈ a.outstanding, a.HoldsRange r

theorem Inv.node_ne (h : a.Inv A) {q : RangeAllocation} (hr : r ∈ a.outstanding)
    (hq : q ∈ a.outstanding) (hne : r ≠ q) : r.node ≠ q.node := by
  have hsymm : Std.Symm fun r q : RangeAllocation => r.node ≠ q.node := ⟨fun _ _ => Ne.symm⟩
  have hpw : a.outstanding.Pairwise fun r q => r.node ≠ q.node := h.disjoint.imp And.left
  exact hpw.forall hr hq hne

theorem HoldsRange.congr {a' : RangeAllocator} (h : a.HoldsRange r)
    (htaken : a'.taken r = a.taken r) : a'.HoldsRange r := by
  obtain ⟨halign, hstart, hlast, hbounded⟩ := h
  exact ⟨halign, by rwa [htaken], by rwa [htaken], by rwa [htaken]⟩

/-! ## Initialisation -/

theorem init_inv (hpos : 0 < size) (hsize : size < 2 ^ 64) (node : ℕ) (start last : ℕ → ℕ) :
    ∃ A, (init rb size node start last).Inv A := by
  have hvalid : (RangeTree.init start last).Valid (.add node 0 (size - 1)) :=
    ⟨by simp [RangeTree.init], Nat.zero_le _, by omega⟩
  obtain ⟨A, hA, hspec⟩ := (RangeTree.init_represents start last).call_spec rb hvalid
  have hmems : A.members = {⟨0, size - 1, node⟩} := by
    rcases hspec with ⟨-, -, hmems⟩ | ⟨⟨m, hm, -⟩, -⟩
    · simpa using hmems
    · simp at hm
  refine ⟨A, hA, ?_, fun x => ?_, by simp [init], List.Pairwise.nil, by simp [init], by simp [init]⟩
  · intro m hm n hn
    rw [hmems, Finset.mem_singleton] at hm hn
    rw [hm, hn]
    exact Nat.succ_ne_zero _
  · have hcov : A.Covers x ↔ 0 ≤ x ∧ x ≤ size - 1 := by
      unfold IntervalSet.Covers
      rw [hmems]
      simp [Interval.Contains]
    rw [hcov]
    simp only [init, List.not_mem_nil, false_and, exists_false, or_false]
    omega

/-! ## Allocation -/

variable (rb) in
theorem claim_spec (h : tree.Represents A) (hm : m ∉ tree.head) (hn : n ∈ tree.head) {e : ℕ}
    (hstart : tree.start n ≤ e) (hlast : e ≤ tree.last n) (hapart : Apart A) :
    ∃ B, (claim rb tree m n e).Represents B ∧ Apart B ∧
      (∀ x, B.Covers x ↔ A.Covers x ∧ ¬ (tree.start n ≤ x ∧ x ≤ e)) ∧
        (∀ y ∈ (claim rb tree m n e).head, y ∈ tree.head) ∧
          (claim rb tree m n e).interval m = ⟨tree.start n, e, m⟩ ∧
            ∀ y, y ≠ m → y ≠ n → (claim rb tree m n e).interval y = tree.interval y := by
  have hne : n ≠ m := by
    rintro rfl
    exact hm hn
  have hclaimed := h.setBounds_of_notMem hm (tree.start n) e
  have hself := h.interval_mem hn
  unfold claim
  dsimp only
  split
  · next hlt =>
    -- the rest of the node stays free
    have hvalid : (tree.setBounds m (tree.start n) e).Valid (.shrinkNode n (e + 1) (tree.last n)) :=
      ⟨hn, hlt, by simp [hne]; omega, by simp [hne]⟩
    obtain ⟨B, hB, -, hmems, hcov⟩ := hclaimed.call_shrinkNode rb hvalid
    refine ⟨B, hB, ?_, fun x => ?_, fun y hy => hy, ?_, fun y hym hyn => ?_⟩
    · intro x hx y hy
      rw [hmems, Finset.mem_insert, IntervalSet.mem_without] at hx hy
      rcases hx with rfl | ⟨hx, hxn, -⟩
      · rcases hy with rfl | ⟨hy, -⟩
        · change tree.last n + 1 ≠ e + 1
          omega
        · exact hapart _ hself y hy
      · rcases hy with rfl | ⟨hy, -⟩
        · -- a member that ends before the rest would meet the claimed range
          change x.last + 1 ≠ e + 1
          intro heq
          have hxe : x.last = e := by omega
          have hsame := A.disjoint x hx _ hself e ⟨hxe ▸ A.nonempty x hx, hxe.ge⟩ ⟨hstart, hlast⟩
          exact hxn (congrArg Interval.val hsame)
        · exact hapart x hx y hy
    · rw [hcov x]
      constructor
      · rintro ⟨hA, hwithin⟩
        refine ⟨hA, fun hx => ?_⟩
        have := (hwithin _ hself rfl ⟨hx.1, hx.2.trans hlast⟩).1
        omega
      · rintro ⟨hA, hout⟩
        refine ⟨hA, fun q hq hqn hx => ?_⟩
        obtain rfl := A.named q hq _ hself hqn
        obtain ⟨hx1, hx2⟩ := hx
        change tree.start n ≤ x at hx1
        change x ≤ tree.last n at hx2
        omega
    · unfold RangeTree.shrinkNode
      rw [RangeTree.interval_setBounds_of_ne hne.symm, RangeTree.interval_setBounds_self]
    · unfold RangeTree.shrinkNode
      rw [RangeTree.interval_setBounds_of_ne hyn, RangeTree.interval_setBounds_of_ne hym]
  · next hge =>
    -- the whole node is taken
    have he : e = tree.last n := by omega
    obtain ⟨B, hB, -, hmems⟩ := hclaimed.call_remove rb (n := n)
    refine ⟨B, hB, ?_, fun x => ?_, fun y hy => List.mem_of_mem_erase hy, ?_, fun y hym hyn => ?_⟩
    · intro x hx y hy
      rw [hmems, IntervalSet.mem_without] at hx hy
      exact hapart x hx.1 y hy.1
    · unfold IntervalSet.Covers
      rw [hmems]
      simp only [IntervalSet.mem_without]
      constructor
      · rintro ⟨q, ⟨hq, hqn, -⟩, hx⟩
        refine ⟨⟨q, hq, hx⟩, fun hxn => hqn ?_⟩
        exact congrArg Interval.val (A.disjoint q hq _ hself x hx ⟨hxn.1, hxn.2.trans he.le⟩)
      · rintro ⟨⟨q, hq, hx⟩, hout⟩
        have hqn : q.val ≠ n := by
          intro hqn
          obtain rfl := A.named q hq _ hself hqn
          exact hout ⟨hx.1, hx.2.trans he.ge⟩
        exact ⟨q, ⟨hq, hqn, hqn⟩, hx⟩
    · change (tree.setBounds m (tree.start n) e).interval m = _
      rw [RangeTree.interval_setBounds_self]
    · change (tree.setBounds m (tree.start n) e).interval y = _
      rw [RangeTree.interval_setBounds_of_ne hym]

theorem Inv.last_lt_size (h : a.Inv A) (hn : n ∈ a.rangeTree.head) : a.rangeTree.last n < a.size := by
  refine (h.covered _).mpr (.inl ⟨_, h.represents.interval_mem hn, ?_, le_refl _⟩)
  exact h.represents.toInv.start_le_last hn

theorem Inv.claimed (h : a.Inv A) (hm : m ∉ a.rangeTree.head)
    (hfresh : ∀ r ∈ a.outstanding, r.node ≠ m) (hn : n ∈ a.rangeTree.head) {y : ℕ}
    (hfits : Fits a.rangeTree size alignment n y) :
    ∃ B, ({ a with
      rangeTree := claim rb a.rangeTree m n (y + (size - 1))
      outstanding := ⟨y, m, size, alignment⟩ :: a.outstanding } : RangeAllocator).Inv B := by
  have hself := h.represents.interval_mem hn
  have hbounded := h.represents.toInv.bounded n hn
  have hstart := hfits.start_le
  have hlast := hfits.le_last
  obtain ⟨B, hB, hapart, hcov, hhead, hintervalM, hint⟩ := claim_spec rb h.represents
    hm hn (e := y + (size - 1)) (by omega) hlast h.apart
  -- the other allocations keep what they took
  have hkept : ∀ r ∈ a.outstanding,
      (claim rb a.rangeTree m n (y + (size - 1))).interval r.node = a.taken r := by
    intro r hr
    refine hint r.node (hfresh r hr) ?_
    rintro rfl
    exact h.notListed r hr hn
  have hfree : ∀ x, a.rangeTree.start n ≤ x ∧ x ≤ y + (size - 1) → A.Covers x := fun x hx =>
    ⟨_, hself, hx.1, hx.2.trans hlast⟩
  refine ⟨B, hB, hapart, fun x => ?_, ?_, ?_, ?_, ?_⟩
  · rw [h.covered x, hcov x]
    simp only [List.mem_cons, exists_eq_or_imp, taken, hintervalM]
    have hothers : (∃ r ∈ a.outstanding,
        ((claim rb a.rangeTree m n (y + (size - 1))).interval r.node).Contains x) ↔
          ∃ r ∈ a.outstanding, (a.taken r).Contains x :=
      exists_congr fun r => and_congr_right fun hr => by rw [hkept r hr]
    rw [hothers]
    tauto
  · intro r hr x hx
    rw [hcov]
    rcases List.mem_cons.mp hr with rfl | hr
    · rw [taken, hintervalM] at hx
      exact fun hout => hout.2 hx
    · rw [taken, hkept r hr] at hx
      exact fun hin => h.notFree r hr x hx hin.1
  · refine List.pairwise_cons.mpr ⟨fun r hr => ⟨(hfresh r hr).symm, fun x hx hxr => ?_⟩,
      h.disjoint.imp_of_mem fun {r q} hr hq hrq => ⟨hrq.1, fun x hx hxq => ?_⟩⟩
    · rw [taken, hintervalM] at hx
      rw [taken, hkept r hr] at hxr
      exact h.notFree r hr x hxr (hfree x hx)
    · rw [taken, hkept r hr] at hx
      rw [taken, hkept q hq] at hxq
      exact hrq.2 x hx hxq
  · intro r hr hlisted
    have hmem := hhead _ hlisted
    rcases List.mem_cons.mp hr with rfl | hr
    · exact hm hmem
    · exact h.notListed r hr hmem
  · intro r hr
    rcases List.mem_cons.mp hr with rfl | hr
    · refine ⟨hfits.aligned, ?_, ?_, ?_⟩
      · rw [taken, hintervalM]
        exact hstart
      · rw [taken, hintervalM]
      · rw [taken, hintervalM]
        exact hlast.trans_lt hbounded
    · exact (h.holds r hr).congr (hkept r hr)

/-- The node that the kernel hands out for an allocation is not in use. -/
def Fresh (a : RangeAllocator) (node : Option ℕ) : Prop :=
  ∀ m ∈ node, m ∉ a.rangeTree.head ∧ ∀ r ∈ a.outstanding, r.node ≠ m

variable (rb) in
theorem Inv.alloc_cases (h : a.Inv A) (hpos : 0 < size) (hsize : size < 2 ^ 64) (hk : k < 64)
    (halign : realAlignment alignment = 2 ^ k) {node : Option ℕ} (hfresh : a.Fresh node) :
    (a.alloc rb size alignment node = (.errUvmAddressInUse, a) ∧
        (∀ n ∈ a.rangeTree.head, ¬ Holds a.rangeTree size (2 ^ k) n) ∧
          (a.size < size ∨ node ≠ none)) ∨
      (a.alloc rb size alignment node = (.errNoMemory, a) ∧ node = none ∧ size ≤ a.size) ∨
        ∃ n ∈ a.rangeTree.head, ∃ m ∈ node, ∃ y, size ≤ a.size ∧ Fits a.rangeTree size (2 ^ k) n y ∧
          a.alloc rb size alignment node = (.ok, { a with
            rangeTree := claim rb a.rangeTree m n (y + (size - 1))
            outstanding := ⟨y, m, size, 2 ^ k⟩ :: a.outstanding }) := by
  unfold alloc
  rw [halign]
  split
  · next hlarge =>
    refine .inl ⟨rfl, fun n hn => ?_, .inl hlarge⟩
    rintro ⟨x, -, -, hxlast⟩
    have := h.last_lt_size hn
    omega
  · next hle =>
    cases node with
    | none => exact .inr (.inl ⟨rfl, rfl, by omega⟩)
    | some m =>
      dsimp only
      rcases findFit_spec h.represents.toInv (fun n hn => h.last_lt_size hn) hk hpos hsize
        (Nat.le_of_not_lt hle) with ⟨n, hn, y, hfits, hfind⟩ | ⟨hnone, hfind⟩
      · rw [hfind]
        refine .inr (.inr ⟨n, hn, m, rfl, y, by omega, hfits, ?_⟩)
        dsimp only
        rw [hfits.alignedEnd_eq]
      · rw [hfind]
        exact .inl ⟨rfl, hnone, .inr (by simp)⟩

/-! ## Freeing -/

variable (rb) in
private theorem merge_frame (tree : RangeTree) (n : ℕ) :
    ((∀ y, y ≠ n → (tree.mergePrev rb n).2.interval y = tree.interval y) ∧
        ∀ y ∈ (tree.mergePrev rb n).2.head, y ∈ tree.head) ∧
      (∀ y, y ≠ n → (tree.mergeNext rb n).2.interval y = tree.interval y) ∧
        ∀ y ∈ (tree.mergeNext rb n).2.head, y ∈ tree.head := by
  unfold RangeTree.mergePrev RangeTree.mergeNext
  constructor
  all_goals
    split
    · exact ⟨fun _ _ => rfl, fun _ hy => hy⟩
    · split
      · exact ⟨fun _ _ => rfl, fun _ hy => hy⟩
      · exact ⟨fun y hy => RangeTree.interval_setBounds_of_ne hy,
          fun y hy => List.mem_of_mem_erase hy⟩

def giveBack (rb : RbPrimitives) (tree : RangeTree) (n : ℕ) : RangeTree :=
  ((((tree.add rb n).2).mergePrev rb n).2.mergeNext rb n).2

private theorem apart_mergePrev {A₁ : IntervalSet} {r : RangeTreeResult} {m : Lib.Interval ℕ}
    (hapart : Apart A) (hA₁ : A₁.members = insert m A.members)
    (hB : A₁.Spec (.mergePrev m.val) r B) :
    (∀ x ∈ B.members, ∀ y ∈ B.members, x.last + 1 = y.start → x.val = m.val) ∧
      ∃ q ∈ B.members, q.val = m.val := by
  have hm : m ∈ A₁.members := by simp [hA₁]
  have hother : ∀ q ∈ A₁.members, q.val ≠ m.val → q ∈ A.members := by
    intro q hq hne
    rw [hA₁] at hq
    rcases Finset.mem_insert.mp hq with rfl | hq
    · exact absurd rfl hne
    · exact hq
  obtain ⟨⟨m', hm', hname, hcase⟩, -⟩ := hB
  obtain rfl := A₁.named m' hm' m hm hname
  rcases hcase with ⟨p, hp, hadjacent, -, hmems⟩ | ⟨hnone, -, rfl⟩
  · refine ⟨fun x hx y hy heq => ?_, ⟨p.start, m'.last, m'.val⟩, by simp [hmems], rfl⟩
    rw [hmems, Finset.mem_insert, IntervalSet.mem_without] at hx hy
    rcases hx with rfl | ⟨hx, hxp, hxm⟩
    · rfl
    · have hpm : p.val ≠ m'.val := by
        intro hpm
        obtain rfl := A₁.named p hp m' hm hpm
        have := A₁.nonempty p hp
        omega
      rcases hy with rfl | ⟨hy, -, hym⟩
      · exact absurd heq (hapart x (hother x hx hxm) p (hother p hp hpm))
      · exact absurd heq (hapart x (hother x hx hxm) y (hother y hy hym))
  · refine ⟨fun x hx y hy heq => ?_, ⟨m', hm, rfl⟩⟩
    by_contra hxm
    by_cases hym : y.val = m'.val
    · obtain rfl := B.named y hy m' hm hym
      exact hnone x hx heq
    · exact hapart x (hother x hx hxm) y (hother y hy hym) heq

private theorem apart_mergeNext {r : RangeTreeResult}
    (hA : ∀ x ∈ A.members, ∀ y ∈ A.members, x.last + 1 = y.start → x.val = n)
    (hB : A.Spec (.mergeNext n) r B) : Apart B := by
  obtain ⟨⟨m, hm, rfl, hcase⟩, -⟩ := hB
  rcases hcase with ⟨p, hp, hadjacent, -, hmems⟩ | ⟨hnone, -, rfl⟩
  · intro x hx y hy heq
    rw [hmems, Finset.mem_insert, IntervalSet.mem_without] at hx hy
    have hpm : p.val ≠ m.val := by
      intro hpm
      obtain rfl := A.named p hp m hm hpm
      have := A.nonempty p hp
      omega
    rcases hx with rfl | ⟨hx, hxp, hxm⟩
    · rcases hy with rfl | ⟨hy, -, -⟩
      · have := A.nonempty p hp
        have := A.nonempty m hm
        change p.last + 1 = m.start at heq
        omega
      · exact hpm (hA p hp y hy heq)
    · rcases hy with rfl | ⟨hy, -, -⟩
      · exact hxm (hA x hx m hm heq)
      · exact hxm (hA x hx y hy heq)
  · intro x hx y hy heq
    obtain rfl := B.named x hx m hm (hA x hx y hy heq)
    exact hnone y hy heq

variable (rb) in
theorem giveBack_spec (h : tree.Represents A) (hle : tree.start n ≤ tree.last n)
    (hlt : tree.last n < 2 ^ 64) (hfree : ∀ x, (tree.interval n).Contains x → ¬ A.Covers x)
    (hapart : Apart A) :
    ∃ B, (giveBack rb tree n).Represents B ∧ Apart B ∧
      (∀ x, B.Covers x ↔ A.Covers x ∨ (tree.interval n).Contains x) ∧
        (∀ y ∈ (giveBack rb tree n).head, y = n ∨ y ∈ tree.head) ∧
          ∀ y, y ≠ n → (giveBack rb tree n).interval y = tree.interval y := by
  rcases h.add rb hle hlt with ⟨-, m, hm, hstart, hlast⟩ | ⟨A₁, -, hA₁, -, hmems⟩
  · -- an address of the node would be free already
    have hmle := A.nonempty m hm
    have hcont : (tree.interval n).Contains (max m.start (tree.start n)) :=
      ⟨le_max_right .., max_le hstart hle⟩
    exact absurd ⟨m, hm, le_max_left .., max_le hmle hlast⟩ (hfree _ hcont)
  · have hnames : ∀ {s : RangeTree} {C : IntervalSet}, s.Represents C → ∀ {y}, y ∈ s.head →
        ∃ m ∈ C.members, m.val = y := by
      intro s C hs y hy
      exact ⟨_, hs.interval_mem hy, rfl⟩
    have hlisted : ∀ {s : RangeTree} {C : IntervalSet}, s.Represents C → ∀ {m}, m ∈ C.members →
        m.val ∈ s.head := by
      intro s C hs m hm
      exact (hs.mem_iff.mp hm).1
    have hn₁ : n ∈ (tree.add rb n).2.head :=
      hlisted hA₁ (m := tree.interval n) (by simp [hmems])
    obtain ⟨A₂, hA₂, hspec₂⟩ := hA₁.call_mergePrev rb hn₁
    obtain ⟨hends, q, hq, hqn⟩ := apart_mergePrev hapart hmems hspec₂
    have hn₂ : n ∈ ((tree.add rb n).2.mergePrev rb n).2.head := by
      have := hlisted hA₂ hq
      rwa [hqn] at this
    obtain ⟨B, hB, hspec₃⟩ := hA₂.call_mergeNext rb hn₂
    obtain ⟨⟨hinterval₂, hhead₂⟩, -⟩ := merge_frame rb (tree.add rb n).2 n
    obtain ⟨-, hinterval₃, hhead₃⟩ := merge_frame rb ((tree.add rb n).2.mergePrev rb n).2 n
    have hbounds : ∀ y, (tree.add rb n).2.interval y = tree.interval y := by
      intro y
      rcases h.toInv.add_spec rb hle with ⟨heq, -⟩ | ⟨pre, post, t, -, -, -, -, heq⟩
      · rw [heq]
      · rw [heq]
        rfl
    refine ⟨B, hB, apart_mergeNext hends hspec₃, fun x => ?_, fun y hy => ?_, fun y hy => ?_⟩
    · rw [hspec₃.2 x, hspec₂.2 x]
      unfold IntervalSet.Covers
      rw [hmems]
      simp only [Finset.mem_insert, exists_eq_or_imp]
      exact or_comm
    · obtain ⟨m, hm, rfl⟩ := hnames hA₁ (hhead₂ y (hhead₃ y hy))
      rw [hmems] at hm
      rcases Finset.mem_insert.mp hm with rfl | hm
      · exact .inl rfl
      · exact .inr (hlisted h hm)
    · exact (hinterval₃ y hy).trans ((hinterval₂ y hy).trans (hbounds y))

theorem Inv.free (h : a.Inv A) (hr : r ∈ a.outstanding) : ∃ B, (a.free rb r).Inv B := by
  have hhold := h.holds r hr
  obtain ⟨B, hB, hapart, hcov, hhead, hint⟩ := giveBack_spec rb h.represents
    hhold.nonempty hhold.bounded (h.notFree r hr) h.apart
  have hnd : a.outstanding.Nodup := h.disjoint.imp fun {x y} hxy heq => hxy.1 (congrArg _ heq)
  have hother : ∀ {q}, q ∈ a.outstanding.erase r → q ∈ a.outstanding ∧ q.node ≠ r.node := by
    intro q hq
    obtain ⟨hne, hmem⟩ := hnd.mem_erase_iff.mp hq
    exact ⟨hmem, h.node_ne hmem hr hne⟩
  have hkept : ∀ {q}, q ∈ a.outstanding.erase r → (a.free rb r).taken q = a.taken q := fun hq =>
    hint _ (hother hq).2
  have hsymm : Std.Symm fun p q : RangeAllocation => p.node ≠ q.node ∧
      ∀ x, (a.taken p).Contains x → ¬ (a.taken q).Contains x :=
    ⟨fun p q hpq => ⟨hpq.1.symm, fun x hx hx' => hpq.2 x hx' hx⟩⟩
  refine ⟨B, hB, hapart, fun x => ?_, fun q hq x hx => ?_, ?_, fun q hq hlisted => ?_, fun q hq => ?_⟩
  · change x < a.size ↔ _ ∨ ∃ q ∈ a.outstanding.erase r, _
    rw [h.covered x, hcov x, or_assoc]
    refine or_congr_right ?_
    constructor
    · rintro ⟨q, hq, hx⟩
      by_cases hqr : q = r
      · exact .inl (hqr ▸ hx)
      · have hq' := hnd.mem_erase_iff.mpr ⟨hqr, hq⟩
        exact .inr ⟨q, hq', by rwa [hkept hq']⟩
    · rintro (hx | ⟨q, hq, hx⟩)
      · exact ⟨r, hr, hx⟩
      · rw [hkept hq] at hx
        exact ⟨q, (hother hq).1, hx⟩
  · rw [hkept hq] at hx
    rw [hcov]
    rintro (hA | hxr)
    · exact h.notFree q (hother hq).1 x hx hA
    · have hne := (hnd.mem_erase_iff.mp hq).1
      exact (h.disjoint.forall (hother hq).1 hr hne).2 x hx hxr
  · refine (h.disjoint.sublist List.erase_sublist).imp_of_mem fun {p q} hp hq hpq => ⟨hpq.1, ?_⟩
    rw [hkept hp, hkept hq]
    exact hpq.2
  · rcases hhead _ hlisted with heq | hmem
    · exact (hother hq).2 heq
    · exact h.notListed q (hother hq).1 hmem
  · exact (h.holds q (hother hq).1).congr (hkept hq)

/-! ## Runs -/

/-- A call: an allocation, with what the allocation of its helper node returns, or the freeing of an
allocation. -/
inductive Op where
  | alloc (size alignment : ℕ) (node : Option ℕ)
  | free (r : RangeAllocation)

def step (rb : RbPrimitives) (a : RangeAllocator) : Op → RangeAllocator
  | .alloc size alignment node => (a.alloc rb size alignment node).2
  | .free r => a.free rb r

/-- The arguments are valid: a 64-bit size that is not 0, an alignment that is 0 or a power of two,
and an allocation that is outstanding. -/
def Valid (a : RangeAllocator) : Op → Prop
  | .alloc size alignment node =>
    0 < size ∧ size < 2 ^ 64 ∧ (alignment = 0 ∨ ∃ k < 64, alignment = 2 ^ k) ∧ a.Fresh node
  | .free r => r ∈ a.outstanding

/-- The free nodes and what the allocations took, as one list of intervals. -/
def pieces (a : RangeAllocator) : List (Lib.Interval ℕ) :=
  a.rangeTree.intervals ++ a.outstanding.map a.taken

/-- What callers rely on in every state. -/
structure Sound (a : RangeAllocator) : Prop where
  disjoint : a.pieces.Pairwise fun p q => ∀ x, p.Contains x → ¬ q.Contains x
  tile : ∀ x, (∃ p ∈ a.pieces, p.Contains x) ↔ x < a.size
  apart : ∀ p ∈ a.rangeTree.intervals, ∀ q ∈ a.rangeTree.intervals, p.last + 1 ≠ q.start
  aligned : ∀ r ∈ a.outstanding, r.alignment ∣ r.alignedStart ∧
    (a.taken r).start ≤ r.alignedStart ∧ r.alignedStart + (r.size - 1) = (a.taken r).last
  allFreed : a.outstanding = [] → ∃ n, a.rangeTree.intervals = [⟨0, a.size - 1, n⟩]

private theorem single_of_apart (hapart : Apart A) (hpos : 0 < size)
    (hcov : ∀ x, x < size ↔ A.Covers x) : ∃ n, A.members = {⟨0, size - 1, n⟩} := by
  obtain ⟨m, hm, hstart, hlast⟩ := (hcov 0).mp hpos
  have hin : ∀ {q : Lib.Interval ℕ}, q ∈ A.members → q.last < size := fun hq =>
    (hcov _).mpr ⟨_, hq, A.nonempty _ hq, le_refl _⟩
  -- the member that begins at 0 reaches the end
  have hend : m.last = size - 1 := by
    by_contra hne
    have hmlast := hin hm
    obtain ⟨q, hq, hqstart, hqlast⟩ := (hcov (m.last + 1)).mp (by omega)
    refine hapart m hm q hq (Nat.le_antisymm ?_ hqstart)
    by_contra hlt
    have hsame := A.disjoint m hm q hq m.last ⟨A.nonempty m hm, le_refl _⟩ ⟨by omega, by omega⟩
    rw [← hsame] at hqlast
    omega
  have hzero : m.start = 0 := Nat.le_zero.mp hstart
  refine ⟨m.val, Finset.eq_singleton_iff_unique_mem.mpr ⟨?_, fun q hq => ?_⟩⟩
  · rw [← hend, ← hzero]
    exact hm
  · have hqlast := hin hq
    have hqle := A.nonempty q hq
    have hsame := A.disjoint q hq m hm q.start ⟨le_refl _, hqle⟩ ⟨by omega, by omega⟩
    rw [hsame, ← hend, ← hzero]

theorem Inv.sound (h : a.Inv A) (hpos : 0 < a.size) : a.Sound := by
  have hmem : ∀ p, p ∈ a.rangeTree.intervals ↔ p ∈ A.members := fun p => by
    rw [h.represents.members, List.mem_toFinset]
  refine ⟨?_, fun x => ?_, fun p hp q hq => h.apart p ((hmem p).mp hp) q ((hmem q).mp hq),
    fun r hr => ⟨(h.holds r hr).aligned, (h.holds r hr).start_le, (h.holds r hr).last_eq.symm⟩, ?_⟩
  · refine List.pairwise_append.mpr ⟨?_, List.pairwise_map.mpr (h.disjoint.imp And.right), ?_⟩
    · refine h.represents.ordered.2.imp fun {p q} hlt x hx hx' => ?_
      have := hx.2
      have := hx'.1
      omega
    · intro p hp q hq x hx hx'
      obtain ⟨r, hr, rfl⟩ := List.mem_map.mp hq
      exact h.notFree r hr x hx' ⟨p, (hmem p).mp hp, hx⟩
  · rw [h.covered x]
    unfold pieces IntervalSet.Covers
    simp only [List.mem_append, List.mem_map, or_and_right, exists_or, hmem,
      exists_exists_and_eq_and]
  · intro hnone
    have hcov : ∀ x, x < a.size ↔ A.Covers x := fun x => by
      rw [h.covered x, hnone]
      simp
    obtain ⟨n, hmems⟩ := single_of_apart h.apart hpos hcov
    have hone : ∀ p, p ∈ a.rangeTree.intervals ↔ p = ⟨0, a.size - 1, n⟩ := fun p => by
      rw [hmem, hmems, Finset.mem_singleton]
    have hnd : a.rangeTree.intervals.Nodup :=
      h.represents.toInv.nodup.map fun _ _ heq => congrArg Interval.val heq
    exact ⟨n, List.perm_singleton.mp ((List.perm_ext_iff_of_nodup hnd (by simp)).mpr
      fun p => by rw [hone, List.mem_singleton])⟩

/-- What a call returns.  An allocation fails for want of space exactly if no free node holds an
aligned range of the size, unless it has no helper node: then it fails for want of memory, except
that a size above that of the span is never looked for.  A failed call changes nothing. -/
def CallRight (rb : RbPrimitives) (a : RangeAllocator) : Op → Prop
  | .alloc size alignment node =>
    let r := a.alloc rb size alignment node
    (r.1 = .errUvmAddressInUse ↔ (a.size < size ∨ node ≠ none) ∧
        ∀ n ∈ a.rangeTree.head, ¬ Holds a.rangeTree size (realAlignment alignment) n) ∧
      (r.1 = .errNoMemory ↔ size ≤ a.size ∧ node = none) ∧
        (r.1 ≠ .ok → r.2 = a) ∧
          (r.1 = .ok → ∃ y, ∃ m ∈ node,
            r.2.outstanding = ⟨y, m, size, realAlignment alignment⟩ :: a.outstanding)
  | .free r => (a.free rb r).outstanding = a.outstanding.erase r

theorem exists_realAlignment (h : alignment = 0 ∨ ∃ k < 64, alignment = 2 ^ k) :
    ∃ k < 64, realAlignment alignment = 2 ^ k := by
  rcases h with rfl | ⟨k, hk, rfl⟩
  · exact ⟨0, by omega, rfl⟩
  · refine ⟨k, hk, ?_⟩
    unfold realAlignment
    rw [if_neg (Nat.two_pow_pos k).ne']

variable (rb) in
theorem Inv.step (h : a.Inv A) {op : Op} (hvalid : a.Valid op) :
    (∃ B, (a.step rb op).Inv B) ∧ (a.step rb op).size = a.size ∧ CallRight rb a op := by
  cases op with
  | free r => exact ⟨h.free hvalid, rfl, rfl⟩
  | alloc size alignment node =>
    obtain ⟨hpos, hsize, halign, hfresh⟩ := hvalid
    obtain ⟨k, hk, hreal⟩ := exists_realAlignment halign
    unfold RangeAllocator.step CallRight
    dsimp only
    rw [hreal]
    rcases h.alloc_cases rb hpos hsize hk hreal hfresh with
      ⟨heq, hnone, hor⟩ | ⟨heq, rfl, hle⟩ | ⟨n, hn, m, hm, y, hle, hfits, heq⟩
    · refine ⟨⟨A, by rw [heq]; exact h⟩, by rw [heq], ?_⟩
      rw [heq]
      refine ⟨by simpa using ⟨hor, hnone⟩, ?_, by simp, by simp⟩
      rcases hor with hlarge | hnode
      · simp [hlarge]
      · simp [hnode]
    · refine ⟨⟨A, by rw [heq]; exact h⟩, by rw [heq], ?_⟩
      rw [heq]
      simp [hle]
    · rw [heq]
      have hhold : Holds a.rangeTree size (2 ^ k) n :=
        ⟨y, hfits.aligned, hfits.start_le, hfits.le_last⟩
      obtain ⟨hm₁, hm₂⟩ := hfresh m hm
      refine ⟨h.claimed hm₁ hm₂ hn hfits, rfl, ?_, ?_, by simp, fun _ => ⟨y, m, hm, rfl⟩⟩
      · simpa using fun _ => ⟨n, hn, hhold⟩
      · rw [Option.mem_def.mp hm]
        simp

/-- **Free nodes and allocations tile the span**, in every run of calls with valid arguments, and
every call returns what it should. -/
theorem tiles_along (rb : RbPrimitives) (hpos : 0 < size) (hsize : size < 2 ^ 64) (node : ℕ)
    (start last : ℕ → ℕ) (ops : List Op)
    (h : StepsMeet (step rb) Valid (init rb size node start last) ops) :
    HoldsAlong (step rb) Sound (init rb size node start last) ops ∧
      StepsMeet (step rb) (CallRight rb) (init rb size node start last) ops := by
  have hinv : HoldsAlong (step rb) (fun a => (∃ A, a.Inv A) ∧ a.size = size)
      (init rb size node start last) ops :=
    holds_along_of_meets (step rb) ⟨init_inv hpos hsize node start last, rfl⟩ (fun _ ha => ha)
      (fun a op ⟨⟨A, hA⟩, hsz⟩ hop => by
        obtain ⟨hkeep, hsame, -⟩ := hA.step rb hop
        exact ⟨hkeep, hsame.trans hsz⟩) h
  refine ⟨fun pre hpre => ?_, fun pre op hpre => ?_⟩
  · obtain ⟨⟨A, hA⟩, hsz⟩ := hinv pre hpre
    exact hA.sound (by omega)
  · obtain ⟨⟨A, hA⟩, -⟩ := hinv pre ((List.prefix_append pre _).trans hpre)
    exact (hA.step rb (h pre op hpre)).2.2

/-- A range in the middle of a span is allocated and freed. -/
theorem tiles_along_onePage :
    let ops : List Op := [.alloc 4096 4096 (some 1), .free ⟨0, 1, 4096, 4096⟩]
    HoldsAlong (step RangeTree.smallTrees) Sound
        (init RangeTree.smallTrees (2 ^ 40) 0 (fun _ => 0) fun _ => 0) ops ∧
      StepsMeet (step RangeTree.smallTrees) (CallRight RangeTree.smallTrees)
        (init RangeTree.smallTrees (2 ^ 40) 0 (fun _ => 0) fun _ => 0) ops := by
  apply tiles_along
  · decide
  · decide
  · simp only [stepsMeet_cons, stepsMeet_nil, Valid, Fresh]
    decide +kernel

/-- A span of one address that is taken: an allocation whose helper node cannot be allocated does
not report the lack of space. -/
theorem full_span_reports_noMemory :
    let ops : List Op := [.alloc 1 1 (some 1)]
    let a := init RangeTree.smallTrees 1 0 (fun _ => 0) fun _ => 0
    StepsMeet (step RangeTree.smallTrees) Valid a (ops ++ [.alloc 1 1 none]) ∧
      (∀ n ∈ (run (step RangeTree.smallTrees) a ops).rangeTree.head,
        ¬ Holds (run (step RangeTree.smallTrees) a ops).rangeTree 1 1 n) ∧
        ((run (step RangeTree.smallTrees) a ops).alloc RangeTree.smallTrees 1 1 none).1 =
          .errNoMemory := by
  intro ops a
  have hhead : (run (step RangeTree.smallTrees) a ops).rangeTree.head = [] := by decide +kernel
  refine ⟨?_, by simp [hhead], by decide +kernel⟩
  simp only [ops, List.cons_append, List.nil_append, stepsMeet_cons, stepsMeet_nil, Valid,
    Fresh]
  decide +kernel

end RangeAllocator

end NvUvm
