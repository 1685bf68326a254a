import NvUvm.RangeGroupAssign
import NvUvm.VaRange

/-!
# Splitting and creating managed ranges

Model of `uvm_va_range_split` and `uvm_va_range_create_mmap` (`uvm8_va_range.c`) with their error
paths, which destroy the range that they have begun to build.  Destroying a managed range takes its
addresses out of their range groups, also when the range never got into the tree.
-/

namespace NvUvm

open Lib

/-- `uvm_read_duplication_policy_t`. -/
inductive ReadDuplication where
  | unset
  | enabled
  | disabled
  deriving DecidableEq, Repr

/-- `uvm_va_block_t` as far as a split of its range looks at it.  `chunkSpans` tells the GPUs
whose chunk at an address is populated and has to be split to split the block there, and
`splitChunks` the GPUs on which the chunk array points to a chunk that has been split. -/
structure VaBlock where
  id : ℕ
  start : ℕ
  last : ℕ
  chunkSpans : ℕ → ProcessorMask
  splitChunks : ProcessorMask

/-- What `uvm_va_range_t` holds beyond its bounds. -/
structure VaRangeState extends VaRangePolicy where
  vmaWrapper : ℕ
  readDuplication : ReadDuplication
  accessedBy : ProcessorMask
  blocks : ℕ → Option VaBlock
  injectSplitError : Bool

/-- `uvm_va_range_t`. -/
abbrev VaRangeNode := Interval VaRangeState

/-- The part of a range that other modules work with. -/
def VaRangeNode.vaRange (n : VaRangeNode) : VaRange := ⟨n.start, n.last, n.val.toVaRangePolicy⟩

/-- `uvm_va_space_t`.  `rangeGroups` maps the id of a group to whether it allows migration. -/
structure VaSpace where
  vaRangeTree : List VaRangeNode
  rangeGroups : ℕ → Option Bool
  rangeGroupIdCounter : ℕ
  rangeGroupRanges : List GroupRange

/-- What the calls of a split or a creation meet: whether memory for the range and for its block
array is found, the results of the parts of `uvm_va_block_split`, and the memory for
`uvm_range_group_assign_range`. -/
structure SplitInput where
  zalloc : Bool
  blocksAlloc : Bool
  blockCreate : NvStatus
  presplitPtes : NvStatus
  preallocate : NvStatus
  trackerWait : NvStatus
  newBlock : ℕ
  assign : AssignAlloc

/-- `uvm_va_block_split`: the status, what becomes of the block, and the error injection that it
may have used up.  Once the chunks are split, only success puts them in order. -/
def VaBlock.uvmVaBlockSplit (io : SplitInput) (inject : Bool) (old : VaBlock) (newEnd : ℕ) :
    NvStatus × VaBlock × Bool :=
  if io.blockCreate ≠ .ok then (io.blockCreate, old, inject)
  else if io.presplitPtes ≠ .ok then (io.presplitPtes, old, inject)
  -- a failure here merges the chunks back
  else if io.preallocate ≠ .ok then (io.preallocate, old, inject)
  else if inject then (.errNoMemory, old, false)
  else if io.trackerWait ≠ .ok then
    (io.trackerWait, { old with
      splitChunks := fun id => old.splitChunks id || old.chunkSpans (newEnd + 1) id }, inject)
  else (.ok, { old with last := newEnd }, inject)

namespace VaRangeNode

variable (n : VaRangeNode)

def setBlock (index : ℕ) (block : Option VaBlock) : VaRangeNode :=
  { n with val := { n.val with blocks := Function.update n.val.blocks index block } }

def setInject (inject : Bool) : VaRangeNode :=
  { n with val := { n.val with injectSplitError := inject } }

/-- `uvm_va_range_num_blocks`. -/
def numBlocks : ℕ := uvmVaRangeBlockIndex n.vaRange n.last + 1

end VaRangeNode

/-- `uvm_va_range_split_blocks` after the block at the split point: the check for an injected error,
and the loop that hands the blocks over. -/
def splitBlocksTail (existing new : VaRangeNode) (splitIndex newIndex : ℕ) :
    NvStatus × VaRangeNode × VaRangeNode :=
  if existing.val.injectSplitError then (.errNoMemory, existing.setInject false, new)
  else
    let moved := fun i => newIndex ≤ i ∧ i < new.numBlocks
    let newBlocks := fun i =>
      if moved i then existing.val.blocks (splitIndex + i) else new.val.blocks i
    let existingBlocks := fun i =>
      if splitIndex ≤ i ∧ moved (i - splitIndex) then none else existing.val.blocks i
    (.ok, { existing with val := { existing.val with blocks := existingBlocks } },
      { new with val := { new.val with blocks := newBlocks } })

def uvmVaRangeSplitBlocks (io : SplitInput) (existing new : VaRangeNode) :
    NvStatus × VaRangeNode × VaRangeNode :=
  let splitIndex := uvmVaRangeBlockIndex existing.vaRange new.start
  if blockCalcStart existing.vaRange splitIndex ≠ new.start then
    match existing.val.blocks splitIndex with
    | none => splitBlocksTail existing new splitIndex 1
    | some old =>
      let r := VaBlock.uvmVaBlockSplit io existing.val.injectSplitError old (new.start - 1)
      let existing := (existing.setBlock splitIndex (some r.2.1)).setInject r.2.2
      if r.1 ≠ .ok then (r.1, existing, new)
      else
        let block := { old with id := io.newBlock, start := new.start, splitChunks := fun _ => false }
        splitBlocksTail existing (new.setBlock 0 (some block)) splitIndex 1
  else splitBlocksTail existing new splitIndex 0

namespace VaSpace

variable (s : VaSpace)

/-- `uvm_va_range_destroy` of a managed range that is not in the tree.  Nothing is registered for the
destroy event, and the status of the assignment is dropped. -/
def uvmVaRangeDestroy (alloc : AssignAlloc) (start last : ℕ) : VaSpace :=
  { s with
    rangeGroupRanges := (uvmRangeGroupAssignRange alloc none start last s.rangeGroupRanges).2 }

def uvmVaRangeAllocManaged (io : SplitInput) (start last : ℕ) : Option VaRangeNode × VaSpace :=
  if !io.zalloc then (none, s)
  else if !io.blocksAlloc then (none, s.uvmVaRangeDestroy io.assign start last)
  else (some ⟨start, last, {
    type := .managed
    preferredLocation := none
    uvmLiteGpus := fun _ => false
    vmaWrapper := 0
    readDuplication := .unset
    accessedBy := fun _ => false
    blocks := fun _ => none
    injectSplitError := false }⟩, s)

def replaceRange (existing : VaRangeNode) (nodes : List VaRangeNode) : VaSpace :=
  { s with vaRangeTree := s.vaRangeTree.flatMap fun n =>
      if n.start = existing.start then nodes else [n] }

/-- `uvm_va_range_split` of a range of the tree. -/
def uvmVaRangeSplit (io : SplitInput) (existing : VaRangeNode) (newEnd : ℕ) : NvStatus × VaSpace :=
  match s.uvmVaRangeAllocManaged io (newEnd + 1) existing.last with
  | (none, s) => (.errNoMemory, s)
  | (some new, s) =>
    let new := { new with val := { existing.val with
      blocks := new.val.blocks, injectSplitError := new.val.injectSplitError } }
    let r := uvmVaRangeSplitBlocks io existing new
    if r.1 ≠ .ok then
      (r.1, (s.replaceRange existing [r.2.1]).uvmVaRangeDestroy io.assign (newEnd + 1) existing.last)
    else (.ok, s.replaceRange existing [{ r.2.1 with last := newEnd }, r.2.2])

def uvmVaRangeCreateMmap (io : SplitInput) (vmaWrapper start last : ℕ) : NvStatus × VaSpace :=
  match s.uvmVaRangeAllocManaged io start last with
  | (none, s) => (.errNoMemory, s)
  | (some new, s) =>
    let new := { new with val := { new.val with vmaWrapper := vmaWrapper } }
    -- `uvm_range_tree_add`
    if s.vaRangeTree.any fun n => decide (n.start ≤ last ∧ start ≤ n.last) then
      (.errUvmAddressInUse, s.uvmVaRangeDestroy io.assign start last)
    else (.ok, { s with vaRangeTree := insertAt new s.vaRangeTree })

end VaSpace

/-! ## What a failed call leaves -/

/-- A range as the claims about failures compare it: all but the error injection of the tests. -/
def VaRangeNode.visible (n : VaRangeNode) : VaRangeNode := n.setInject false

/-- The ranges with their bounds, blocks and policies, and the group of every address, are the
same. -/
structure SameVaSpace (s s' : VaSpace) : Prop where
  ranges : s'.vaRangeTree.map VaRangeNode.visible = s.vaRangeTree.map VaRangeNode.visible
  groups : ∀ a, groupAt s'.rangeGroupRanges a = groupAt s.rangeGroupRanges a

/-- Taking `[start, last]` out of all groups changes nothing: no address is in a group, or the range
that is has to be split and there is no memory for that. -/
def KeepsGroups (s : VaSpace) (alloc : AssignAlloc) (start last : ℕ) : Prop :=
  (∀ a, start ≤ a → a ≤ last → groupAt s.rangeGroupRanges a = none) ∨
    alloc.next = false ∧ ∃ rgr ∈ s.rangeGroupRanges, rgr.start < start ∧ last < rgr.last

/-- No chunk is left split: where the split gets as far as waiting for the block's tracker, no GPU
has a chunk across the split point. -/
def KeepsChunks (io : SplitInput) (existing : VaRangeNode) (newEnd : ℕ) : Prop :=
  ∀ old, existing.val.blocks (uvmVaRangeBlockIndex existing.vaRange (newEnd + 1)) = some old →
    blockCalcStart existing.vaRange (uvmVaRangeBlockIndex existing.vaRange (newEnd + 1)) ≠
      newEnd + 1 →
    io.blocksAlloc = true → io.blockCreate = .ok → io.presplitPtes = .ok → io.preallocate = .ok →
    existing.val.injectSplitError = false → io.trackerWait ≠ .ok →
    ∀ id, old.chunkSpans (newEnd + 1) id = true → old.splitChunks id = true

variable {s : VaSpace} {existing : VaRangeNode} {io : SplitInput}

theorem groups_kept_iff (alloc : AssignAlloc) (hg : Ordered s.rangeGroupRanges) {start last : ℕ}
    (hsl : start ≤ last) :
    (∀ a, groupAt (s.uvmVaRangeDestroy alloc start last).rangeGroupRanges a =
      groupAt s.rangeGroupRanges a) ↔ KeepsGroups s alloc start last := by
  have hspec : AssignSpec none start last s.rangeGroupRanges
    (uvmRangeGroupAssignRange alloc none start last s.rangeGroupRanges) := assignRange_spec _ _ hg hsl
  have hfails := assignRange_none_fails_iff alloc hg hsl
  unfold KeepsGroups
  rw [← hfails]
  simp only [VaSpace.uvmVaRangeDestroy]
  by_cases hok : (uvmRangeGroupAssignRange alloc none start last s.rangeGroupRanges).1 = .ok
  · simp only [hspec.assigned hok, hok, ne_eq, not_true_eq_false, or_false]
    constructor
    · intro h a h1 h2
      simpa [h1, h2] using (h a).symm
    · intro h a
      split
      · next ha => exact (h a ha.1 ha.2).symm
      · rfl
  · simp [hspec.failed hok, hok]

@[simp] theorem setInject_visible (n : VaRangeNode) (inject : Bool) :
    (n.setInject inject).visible = n.visible := rfl

private theorem splitBlocksTail_failed {new : VaRangeNode} {splitIndex newIndex : ℕ}
    (hfail : (splitBlocksTail existing new splitIndex newIndex).1 ≠ .ok) :
    existing.val.injectSplitError = true ∧
      (splitBlocksTail existing new splitIndex newIndex).2.1 = existing.setInject false := by
  unfold splitBlocksTail at hfail ⊢
  split at hfail
  · next hinject => simp [hinject]
  · exact absurd rfl hfail

private theorem setBlock_self {n : VaRangeNode} {index : ℕ} {block : VaBlock}
    (h : n.val.blocks index = some block) : n.setBlock index (some block) = n := by
  unfold VaRangeNode.setBlock
  rw [← h, Function.update_eq_self]

private theorem setBlock_splitChunks_iff {n : VaRangeNode} {index : ℕ} {old : VaBlock}
    (h : n.val.blocks index = some old) (spans : ProcessorMask) :
    (n.setBlock index (some { old with
        splitChunks := fun id => old.splitChunks id || spans id })).visible = n.visible ↔
      ∀ id, spans id = true → old.splitChunks id = true := by
  constructor
  · intro heq id hid
    have hblocks := congrArg (fun n : VaRangeNode => n.val.blocks index) heq
    simp only [VaRangeNode.visible, VaRangeNode.setInject, VaRangeNode.setBlock,
      Function.update_self, h, Option.some.injEq] at hblocks
    have hchunks := congrArg (fun block : VaBlock => block.splitChunks id) hblocks
    simpa [hid] using hchunks.symm
  · intro hspans
    have hsame : (fun id => old.splitChunks id || spans id) = old.splitChunks := by
      funext id
      cases hid : spans id with
      | false => simp
      | true => simp [hspans id hid]
    rw [hsame, setBlock_self h]

private theorem splitBlocks_failed {new : VaRangeNode} {newEnd : ℕ} (hnew : new.start = newEnd + 1)
    (hblocks : io.blocksAlloc = true) (hfail : (uvmVaRangeSplitBlocks io existing new).1 ≠ .ok) :
    (uvmVaRangeSplitBlocks io existing new).2.1.visible = existing.visible ↔
      KeepsChunks io existing newEnd := by
  unfold uvmVaRangeSplitBlocks at hfail ⊢
  unfold KeepsChunks
  rw [hnew] at hfail ⊢
  generalize hidx : uvmVaRangeBlockIndex existing.vaRange (newEnd + 1) = index at hfail ⊢
  by_cases hspan : blockCalcStart existing.vaRange index = newEnd + 1
  · rw [if_neg (not_not.mpr hspan)] at hfail ⊢
    simp [(splitBlocksTail_failed hfail).2, hspan]
  · rw [if_pos hspan] at hfail ⊢
    cases hold : existing.val.blocks index with
    | none =>
      simp only [hold] at hfail ⊢
      simp [(splitBlocksTail_failed hfail).2]
    | some old =>
      simp only [hold] at hfail ⊢
      simp only [VaBlock.uvmVaBlockSplit] at hfail ⊢
      by_cases hcreate : io.blockCreate = .ok
      swap
      · simp [hcreate, setBlock_self hold]
      by_cases hpresplit : io.presplitPtes = .ok
      swap
      · simp [hcreate, hpresplit, setBlock_self hold]
      by_cases hprealloc : io.preallocate = .ok
      swap
      · simp [hcreate, hpresplit, hprealloc, setBlock_self hold]
      cases hinject : existing.val.injectSplitError with
      | true => simp [hcreate, hpresplit, hprealloc, setBlock_self hold]
      | false =>
        by_cases hwait : io.trackerWait = .ok
        · -- the block is split and no error injected, so the rest succeeds
          simp [hcreate, hpresplit, hprealloc, hinject, hwait, splitBlocksTail,
            VaRangeNode.setInject] at hfail
        · have hiff := setBlock_splitChunks_iff hold (old.chunkSpans (newEnd + 1))
          simp [hcreate, hpresplit, hprealloc, hwait, hspan, hblocks, hiff]

private theorem replaceRange_visible_iff (ht : Ordered s.vaRangeTree)
    (hmem : existing ∈ s.vaRangeTree) (e : VaRangeNode) :
    (s.replaceRange existing [e]).vaRangeTree.map VaRangeNode.visible =
        s.vaRangeTree.map VaRangeNode.visible ↔ e.visible = existing.visible := by
  have hmap : (s.replaceRange existing [e]).vaRangeTree =
      s.vaRangeTree.map fun n => if n.start = existing.start then e else n := by
    simp only [VaSpace.replaceRange]
    induction s.vaRangeTree with
    | nil => rfl
    | cons n rest ih =>
      rw [List.flatMap_cons, List.map_cons, ih]
      split <;> rfl
  rw [hmap, List.map_map, List.map_inj_left]
  constructor
  · intro h
    simpa using h existing hmem
  · intro h n hn
    by_cases hstart : n.start = existing.start
    · -- only one range of the tree starts there
      have hself : n = existing := ht.unique (a := n.start) hn hmem ⟨le_refl _, ht.1 n hn⟩
        ⟨hstart.ge, hstart ▸ ht.1 existing hmem⟩
      simpa [hself] using h
    · simp [hstart]

private theorem split_undone_iff (ht : Ordered s.vaRangeTree) (hg : Ordered s.rangeGroupRanges)
    {newEnd : ℕ} (hmem : existing ∈ s.vaRangeTree) (hlt : newEnd < existing.last)
    (hfail : (s.uvmVaRangeSplit io existing newEnd).1 ≠ .ok) :
    SameVaSpace s (s.uvmVaRangeSplit io existing newEnd).2 ↔
      io.zalloc = false ∨
        KeepsGroups s io.assign (newEnd + 1) existing.last ∧ KeepsChunks io existing newEnd := by
  unfold VaSpace.uvmVaRangeSplit VaSpace.uvmVaRangeAllocManaged at *
  cases hzalloc : io.zalloc with
  | false =>
    simp only [Bool.not_false, true_or, iff_true]
    exact ⟨rfl, fun _ => rfl⟩
  | true =>
    cases hblocks : io.blocksAlloc with
    | false =>
      have hgroups := groups_kept_iff io.assign hg (show newEnd + 1 ≤ existing.last by
        omega)
      have hchunks : KeepsChunks io existing newEnd := fun _ _ _ hb => by
        simp [hblocks] at hb
      simp only [Bool.not_true, Bool.not_false, Bool.false_eq_true, if_false,
        Bool.true_eq_false, false_or, hchunks, and_true, ← hgroups]
      exact ⟨fun h => h.groups, fun h => ⟨rfl, h⟩⟩
    | true =>
      simp only [hzalloc, hblocks, Bool.not_true, Bool.false_eq_true, if_false, Bool.true_eq_false,
        false_or] at hfail ⊢
      generalize hnew : Interval.mk (newEnd + 1) existing.last _ = new at hfail ⊢
      have hstart : new.start = newEnd + 1 := by rw [← hnew]
      have hstat : (uvmVaRangeSplitBlocks io existing new).1 ≠ .ok := by
        by_contra hok
        simp [hok] at hfail
      rw [if_pos hstat, ← groups_kept_iff io.assign hg (by omega), ← splitBlocks_failed hstart hblocks hstat,
        ← replaceRange_visible_iff ht hmem]
      exact ⟨fun h => ⟨h.groups, h.ranges⟩, fun h => ⟨h.2, h.1⟩⟩

private theorem create_undone_iff (hg : Ordered s.rangeGroupRanges) {vmaWrapper start last : ℕ}
    (hsl : start ≤ last) (hfail : (s.uvmVaRangeCreateMmap io vmaWrapper start last).1 ≠ .ok) :
    (∀ a, groupAt (s.uvmVaRangeCreateMmap io vmaWrapper start last).2.rangeGroupRanges a =
      groupAt s.rangeGroupRanges a) ↔ io.zalloc = false ∨ KeepsGroups s io.assign start last := by
  have hgroups := groups_kept_iff io.assign hg hsl
  unfold VaSpace.uvmVaRangeCreateMmap VaSpace.uvmVaRangeAllocManaged at *
  cases hzalloc : io.zalloc with
  | false => simp
  | true =>
    cases hblocks : io.blocksAlloc with
    | false => simpa using hgroups
    | true =>
      simp only [hzalloc, hblocks, Bool.not_true, Bool.false_eq_true, if_false, Bool.true_eq_false] at hfail ⊢
      split at hfail
      · next hused =>
        simp only [if_pos hused]
        simpa using hgroups
      · exact absurd rfl hfail

/-- **When a failed call leaves everything as it was**: a failed split of a managed range of the
tree, and a failed creation of a managed range, for every outcome of the calls that they make. -/
theorem failures_undone_iff (s : VaSpace) (ht : Ordered s.vaRangeTree)
    (hg : Ordered s.rangeGroupRanges) (io : SplitInput) :
    (∀ existing ∈ s.vaRangeTree, existing.val.type = .managed → ∀ newEnd,
      existing.start < newEnd → newEnd < existing.last →
      (s.uvmVaRangeSplit io existing newEnd).1 ≠ .ok →
        (SameVaSpace s (s.uvmVaRangeSplit io existing newEnd).2 ↔
          io.zalloc = false ∨
            KeepsGroups s io.assign (newEnd + 1) existing.last ∧
              KeepsChunks io existing newEnd)) ∧
    ∀ vmaWrapper start last, start ≤ last →
      (s.uvmVaRangeCreateMmap io vmaWrapper start last).1 ≠ .ok →
        ((∀ a, groupAt (s.uvmVaRangeCreateMmap io vmaWrapper start last).2.rangeGroupRanges a =
          groupAt s.rangeGroupRanges a) ↔
            io.zalloc = false ∨ KeepsGroups s io.assign start last) :=
  ⟨fun _ hmem _ _ _ hlt hfail => split_undone_iff ht hg hmem hlt hfail,
    fun _ _ _ hsl hfail => create_undone_iff hg hsl hfail⟩

def oneMbRange : VaRangeNode := ⟨2097152, 3145727, {
  type := .managed
  preferredLocation := none
  uvmLiteGpus := fun _ => false
  vmaWrapper := 1
  readDuplication := .unset
  accessedBy := fun _ => false
  blocks := fun _ => none
  injectSplitError := false }⟩

/-- The VA space with that range and the given range group ranges. -/
def oneMbSpace (rgrs : List GroupRange) : VaSpace where
  vaRangeTree := [oneMbRange]
  rangeGroups := fun id => if id = 1 then some true else none
  rangeGroupIdCounter := 1
  rangeGroupRanges := rgrs

/-- Everything succeeds but the allocation of the block array. -/
def noBlockArray : SplitInput where
  zalloc := true
  blocksAlloc := false
  blockCreate := .ok
  presplitPtes := .ok
  preallocate := .ok
  trackerWait := .ok
  newBlock := 1
  assign := ⟨true, true⟩

/-- Without range groups a split and a creation that find no memory are undone. -/
theorem failures_undone_iff_noGroups : SameVaSpace (oneMbSpace [])
        ((oneMbSpace []).uvmVaRangeSplit noBlockArray oneMbRange 2621439).2 ∧
      ∀ a, groupAt ((oneMbSpace []).uvmVaRangeCreateMmap noBlockArray 1 4194304
          4198399).2.rangeGroupRanges a = groupAt (oneMbSpace []).rangeGroupRanges a := by
  obtain ⟨hsplit, hcreate⟩ := failures_undone_iff (oneMbSpace []) (by decide) (by decide)
    noBlockArray
  refine ⟨(hsplit oneMbRange (by simp [oneMbSpace]) rfl 2621439 (by decide) (by decide)
    (by decide)).mpr (.inr ⟨.inl fun _ _ _ => rfl, fun _ _ _ hb => by cases hb⟩), ?_⟩
  exact (hcreate 1 4194304 4198399 (by decide) (by decide)).mpr (.inr (.inl fun _ _ _ => rfl))

/-- A split that fails for lack of memory takes the upper half of the range out of its group. -/
theorem failed_split_drops_group :
    ((oneMbSpace [⟨2097152, 3145727, ⟨1, false⟩⟩]).uvmVaRangeSplit noBlockArray oneMbRange
        2621439).1 ≠ .ok ∧
      ¬ SameVaSpace (oneMbSpace [⟨2097152, 3145727, ⟨1, false⟩⟩])
        ((oneMbSpace [⟨2097152, 3145727, ⟨1, false⟩⟩]).uvmVaRangeSplit noBlockArray oneMbRange
          2621439).2 := by
  refine ⟨by decide, fun h => ?_⟩
  have := h.groups 2621440
  exact absurd this (by decide)

end NvUvm
