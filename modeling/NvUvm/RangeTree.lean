import Mathlib.Data.Finset.Image
import NvUvm.Lib.Intervals
import NvUvm.Lib.SearchTree
import NvUvm.Processor

/-!
# The range tree

Model of the tree of address ranges (`uvm8_range_tree.c`): a red-black tree of nodes that are also
on a list, both sorted by address.  The nodes are numbered; their two bounds are 64-bit values, both
included.

The primitives of the kernel's red-black trees are not part of the source, so they are a parameter,
`RbPrimitives`: rebalancing keeps the order of the nodes.
-/

namespace NvUvm

open Lib

/-! ## The tree -/

/-- `x + 1` of an `NvU64`. -/
def succ64 (x : ℕ) : ℕ := (x + 1) % 2 ^ 64

/-- `x - 1` of an `NvU64`. -/
def pred64 (x : ℕ) : ℕ := (x + (2 ^ 64 - 1)) % 2 ^ 64

/-- The primitives of `linux/rbtree.h`: `rb_insert_color` rebalances the tree after a leaf has been
linked, and `rb_erase` takes a node out. -/
structure RbPrimitives where
  insertColor : ℕ → SearchTree ℕ → SearchTree ℕ
  erase : ℕ → SearchTree ℕ → SearchTree ℕ
  inorder_insertColor : ∀ n t, (insertColor n t).inorder = t.inorder
  inorder_erase : ∀ n t, t.inorder.Nodup → (erase n t).inorder = t.inorder.erase n

/-- `uvm_range_tree_t` and the bounds of its nodes, `uvm_range_tree_node_t`: `start` and `last`
(`end` in the source). -/
structure RangeTree where
  start : ℕ → ℕ
  last : ℕ → ℕ
  rbRoot : SearchTree ℕ
  head : List ℕ

namespace RangeTree

variable (rb : RbPrimitives) (s : RangeTree)

/-- `uvm_range_tree_init`. -/
def init (start last : ℕ → ℕ) : RangeTree := ⟨start, last, .nil, []⟩

def setBounds (n start last : ℕ) : RangeTree :=
  { s with start := Function.update s.start n start, last := Function.update s.last n last }

/-- `uvm_range_tree_prev`. -/
def prev (n : ℕ) : Option ℕ := prevOf n s.head

/-- `uvm_range_tree_next`. -/
def next (n : ℕ) : Option ℕ := nextOf n s.head

def rangeNodesOverlap (a b : ℕ) : Bool :=
  decide (s.start b ≤ s.last a ∧ s.start a ≤ s.last b)

/-- How the walk of the tree compares an address with a node. -/
def compareAddr (addr n : ℕ) : Ordering :=
  if addr < s.start n then .lt else if s.last n < addr then .gt else .eq

/-- The walk of `range_node_find`: the node found and the parent. -/
def rangeNodeFind (addr : ℕ) : Option ℕ × Option ℕ := s.rbRoot.find (s.compareAddr addr) none

/-- The `next` pointer of `range_node_find`: the first node that contains an address above. -/
def rangeNodeFindNext (addr : ℕ) : Option ℕ :=
  match s.rangeNodeFind addr with
  | (some n, _) => s.next n
  | (none, some parent) => if addr < s.start parent then some parent else s.next parent
  | (none, none) => none

/-- `uvm_range_tree_add`, of a node whose bounds are set. -/
def add (n : ℕ) : NvStatus × RangeTree :=
  match s.rangeNodeFind (s.start n) with
  | (some _, _) => (.errUvmAddressInUse, s)
  | (none, none) =>
    -- the tree is empty
    (.ok, { s with rbRoot := rb.insertColor n (.node .nil n .nil), head := n :: s.head })
  | (none, some parent) =>
    if s.rangeNodesOverlap n parent then (.errUvmAddressInUse, s)
    else if s.start n < s.start parent then
      (.ok, { s with
        rbRoot := rb.insertColor n (s.rbRoot.linkLeft parent n)
        head := insertBefore parent n s.head })
    else if (s.next parent).any (s.rangeNodesOverlap n) then (.errUvmAddressInUse, s)
    else
      (.ok, { s with
        rbRoot := rb.insertColor n (s.rbRoot.linkRight parent n)
        head := insertAfter parent n s.head })

/-- `uvm_range_tree_remove`. -/
def remove (n : ℕ) : RangeTree :=
  { s with rbRoot := rb.erase n s.rbRoot, head := s.head.erase n }

/-- `uvm_range_tree_shrink_node`. -/
def shrinkNode (n newStart newEnd : ℕ) : RangeTree := s.setBounds n newStart newEnd

/-- `uvm_range_tree_split`, where the start of the new node is set; with the status of the
insertion, which the source asserts to be `NV_OK`. -/
def split (existing new : ℕ) : NvStatus × RangeTree :=
  let s := s.setBounds new (s.start new) (s.last existing)
  add rb (s.setBounds existing (s.start existing) (pred64 (s.start new))) new

/-- `uvm_range_tree_merge_prev`. -/
def mergePrev (n : ℕ) : Option ℕ × RangeTree :=
  match s.prev n with
  | none => (none, s)
  | some prev =>
    if s.last prev ≠ pred64 (s.start n) then (none, s)
    else (some prev, (s.remove rb prev).setBounds n (s.start prev) (s.last n))

/-- `uvm_range_tree_merge_next`. -/
def mergeNext (n : ℕ) : Option ℕ × RangeTree :=
  match s.next n with
  | none => (none, s)
  | some next =>
    if s.start next ≠ succ64 (s.last n) then (none, s)
    else (some next, (s.remove rb next).setBounds n (s.start n) (s.last next))

/-- `uvm_range_tree_find`. -/
def find (addr : ℕ) : Option ℕ := (s.rangeNodeFind addr).1

/-- `uvm_range_tree_iter_first`. -/
def iterFirst (start last : ℕ) : Option ℕ :=
  match s.find start with
  | some n => some n
  | none => (s.rangeNodeFindNext start).filter fun next => s.start next ≤ last

/-- `uvm_range_tree_iter_next`. -/
def iterNext (n last : ℕ) : Option ℕ := (s.next n).filter fun next => s.start next ≤ last

/-- The loop `uvm_range_tree_for_each_in` visits the nodes of `l` in order, and no others. -/
def Visits (last : ℕ) : List ℕ → Option ℕ → Prop
  | [], node => node = none
  | n :: l, node => node = some n ∧ Visits last l (s.iterNext n last)

end RangeTree

/-! ## What the tree stands for -/

/-- A finite set of disjoint closed intervals of 64-bit addresses, each with a name. -/
structure IntervalSet where
  members : Finset (Lib.Interval ℕ)
  nonempty : ∀ m ∈ members, m.start ≤ m.last
  bounded : ∀ m ∈ members, m.last < 2 ^ 64
  disjoint : ∀ m ∈ members, ∀ n ∈ members, ∀ a, m.Contains a → n.Contains a → m = n
  named : ∀ m ∈ members, ∀ n ∈ members, m.val = n.val → m = n

namespace IntervalSet

def Covers (A : IntervalSet) (a : ℕ) : Prop := ∃ m ∈ A.members, m.Contains a

/-- An interval that shares an address with `[start, last]`. -/
def Meets (m : Lib.Interval ℕ) (start last : ℕ) : Prop := m.start ≤ last ∧ start ≤ m.last

end IntervalSet

namespace RangeTree

variable (s : RangeTree)

def interval (n : ℕ) : Lib.Interval ℕ := ⟨s.start n, s.last n, n⟩

def intervals : List (Lib.Interval ℕ) := s.head.map s.interval

/-- What the two linked structures keep: they hold the same nodes in the same order, which is that
of the addresses. -/
structure Inv : Prop where
  inStep : s.rbRoot.inorder = s.head
  ordered : Ordered s.intervals
  bounded : ∀ n ∈ s.head, s.last n < 2 ^ 64

/-- The tree stands for an interval set. -/
structure Represents (A : IntervalSet) : Prop extends s.Inv where
  members : A.members = s.intervals.toFinset

variable {s}

@[simp] theorem mem_intervals {m : Lib.Interval ℕ} :
    m ∈ s.intervals ↔ m.val ∈ s.head ∧ m = s.interval m.val := by
  unfold intervals
  rw [List.mem_map]
  constructor
  · rintro ⟨n, hn, rfl⟩
    exact ⟨hn, rfl⟩
  · rintro ⟨hn, heq⟩
    exact ⟨m.val, hn, heq.symm⟩

def Inv.toIntervalSet (h : s.Inv) : IntervalSet where
  members := s.intervals.toFinset
  nonempty m hm := h.ordered.1 m (List.mem_toFinset.mp hm)
  bounded m hm := by
    obtain ⟨hmem, heq⟩ := mem_intervals.mp (List.mem_toFinset.mp hm)
    rw [heq]
    exact h.bounded _ hmem
  disjoint m hm n hn _ hma hna :=
    h.ordered.unique (List.mem_toFinset.mp hm) (List.mem_toFinset.mp hn) hma hna
  named m hm n hn heq := by
    rw [(mem_intervals.mp (List.mem_toFinset.mp hm)).2,
      (mem_intervals.mp (List.mem_toFinset.mp hn)).2, heq]

theorem Inv.represents (h : s.Inv) : s.Represents h.toIntervalSet := ⟨h, rfl⟩

end RangeTree

end NvUvm
