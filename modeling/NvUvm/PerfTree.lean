import NvUvm.PerfPrefetch

/-!
# Trees in an array

The counter trees of `uvm8_perf_utils.h` lie in an array level by level, the leaves first, and are
not completed to a power of two.  The tree of a VA block (`uvm8_va_block.h`) has no array, and uses
the same ranges of leaves.
-/

namespace NvUvm

/-- `uvm_perf_tree_t`, without its nodes. -/
structure PerfTree where
  leafCount : ℕ
  levelCount : ℕ
  nodeCount : ℕ
  pow2LeafCount : ℕ

/-- `uvm_perf_tree_iter_t`. -/
structure PerfTreeIter where
  nodeIdx : ℕ
  levelIdx : ℤ
  levelOffset : ℕ

namespace PerfTree

/-- `leaves_to_nodes`. -/
def leavesToNodes (leafCount : ℕ) : ℕ :=
  if leafCount ≤ 1 then leafCount else leafCount + leavesToNodes ((leafCount + 1) / 2)
termination_by leafCount
decreasing_by omega

/-- `uvm_perf_tree_init`. -/
def init (leafCount : ℕ) : PerfTree where
  leafCount := leafCount
  levelCount := Nat.log 2 (2 ^ Nat.clog 2 leafCount) + 1
  nodeCount := leavesToNodes leafCount
  pow2LeafCount := 2 ^ Nat.clog 2 leafCount

variable (t : PerfTree)

/-- `uvm_perf_tree_level_node_count`; level 0 is that of the root. -/
def levelNodeCount (levelIdx : ℕ) : ℕ :=
  2 ^ levelIdx - (t.pow2LeafCount - t.leafCount) / 2 ^ (t.levelCount - 1 - levelIdx)

/-- `UVM_PERF_TREE_ITER_BRANCH_CURRENT`: the slot of the node in the array. -/
def branchCurrent (iter : PerfTreeIter) : Option ℕ :=
  if iter.levelIdx < 0 ∨ t.levelCount ≤ iter.levelIdx then none
  else some (iter.levelOffset + iter.nodeIdx / 2 ^ (t.levelCount - 1 - iter.levelIdx.toNat))

/-- `uvm_perf_tree_traverse_up`. -/
def traverseUp (iter : PerfTreeIter) : PerfTreeIter :=
  { iter with
    levelOffset := iter.levelOffset + t.levelNodeCount iter.levelIdx.toNat
    levelIdx := iter.levelIdx - 1 }

/-- The leaves from `uvm_perf_tree_iter_leaf_range_start` on, as many as `uvm_perf_tree_iter_leaf_range`. -/
def iterRange (iter : PerfTreeIter) : BlockRegion :=
  treeRange t.leafCount iter.nodeIdx (t.levelCount - 1 - iter.levelIdx.toNat)

/-- The loop of `uvm_perf_tree_traverse_leaf_to_root`, with the slot and the range of leaves of each
node, if it ends before the fuel does. -/
def traverse : ℕ → PerfTreeIter → Option (List (ℕ × BlockRegion))
  | 0, _ => none
  | fuel + 1, iter =>
    match t.branchCurrent iter with
    | none => some []
    | some slot => (traverse fuel (t.traverseUp iter)).map ((slot, t.iterRange iter) :: ·)

def leafToRoot (fuel leaf : ℕ) : Option (List (ℕ × BlockRegion)) :=
  t.traverse fuel ⟨leaf, t.levelCount - 1, 0⟩

/-! ## The levels -/

/-- The nodes of a level, counted from the leaves: each has the leaves below `2 ^ k` of an index. -/
def width (leafCount k : ℕ) : ℕ := (leafCount + 2 ^ k - 1) / 2 ^ k

/-- Where a level begins in the array. -/
def offset (leafCount k : ℕ) : ℕ := ((List.range k).map (width leafCount)).sum

/-- The levels of the array have room for their nodes, and a traversal from a leaf meets its ancestors,
each of which has the leaves of the one before. -/
structure Right : Prop where
  counts : ∀ k < t.levelCount, t.levelNodeCount (t.levelCount - 1 - k) = width t.leafCount k
  root : width t.leafCount (t.levelCount - 1) = 1
  slots : ∀ k i l j, i < width t.leafCount k → j < width t.leafCount l →
    offset t.leafCount k + i = offset t.leafCount l + j → k = l ∧ i = j
  bounds : ∀ k < t.levelCount, ∀ i < width t.leafCount k, offset t.leafCount k + i < t.nodeCount
  traversal : ∀ leaf < t.leafCount, ∀ fuel > t.levelCount, t.leafToRoot fuel leaf =
    some ((List.range t.levelCount).map fun k =>
      (offset t.leafCount k + leaf / 2 ^ k, treeRange t.leafCount leaf k))
  ancestors : ∀ leaf < t.leafCount, ∀ k, leaf / 2 ^ k < width t.leafCount k
  ranges : ∀ leaf < t.leafCount, ∀ k,
    (treeRange t.leafCount leaf k).first ≤ leaf ∧ leaf < (treeRange t.leafCount leaf k).outer ∧
      (treeRange t.leafCount leaf k).outer ≤ t.leafCount
  nested : ∀ leaf k,
    (treeRange t.leafCount leaf (k + 1)).first ≤ (treeRange t.leafCount leaf k).first ∧
      (treeRange t.leafCount leaf k).outer ≤ (treeRange t.leafCount leaf (k + 1)).outer

variable {t} {n k i : ℕ}

end PerfTree

end NvUvm
