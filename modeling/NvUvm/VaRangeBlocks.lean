import NvUvm.Lib.Run
import NvUvm.VaRange

/-!
# The blocks of managed ranges

A managed range points to its VA blocks from an array, one element for each part of it that lies
between two boundaries of the block size (`uvm8_va_range.c`).  Blocks are created on demand by threads
that hold the VA space lock in read mode, so that two threads can create a block for one element; a
range is split under the lock in write mode, and the blocks above the split point move to the new
range.

Ranges and blocks are numbered in the order of their allocation, and a block points back to its range.
`oops` is an access beyond an array of block pointers.
-/

namespace NvUvm.RangeBlocks

open Lib

/-! ## The state -/

/-- `uvm_va_block_t` as far as its range knows it; the end is inclusive. -/
structure VaBlock where
  start : ℕ
  last : ℕ
  vaRange : ℕ
  freed : Bool
  deriving DecidableEq

/-- `uvm_va_range_t`.  The array `blocks` has `numEntries` elements. -/
structure Range where
  node : VaRange
  blocks : ℕ → Option ℕ
  numEntries : ℕ
  injectSplitError : Bool

/-- The ranges of the tree, the ranges and blocks that were allocated, and the blocks that threads
have created but not yet inserted, each with the range and the index it is for. -/
structure State where
  ranges : List ℕ
  numRanges : ℕ
  range : ℕ → Range
  numVaBlocks : ℕ
  block : ℕ → VaBlock
  creating : List (ℕ × ℕ × ℕ)
  oops : Bool

/-- What the calls of a split meet: whether there is memory for the range, its array and the smaller
array, and the results of `uvm_va_block_split` before and after the place where an error can be
injected. -/
structure SplitInput where
  zalloc : Bool
  blocksAlloc : Bool
  presplit : NvStatus
  trackerWait : NvStatus
  shrinks : Bool

/-- `uvm_va_range_num_blocks`. -/
def numBlocks (n : VaRange) : ℕ :=
  (vaBlockAlignUp n.last - vaBlockAlignDown n.start) / vaBlockSize

namespace State

variable (s : State)

def setRange (r : ℕ) (range : Range) : State :=
  { s with range := Function.update s.range r range }

def setBlock (b : ℕ) (block : VaBlock) : State :=
  { s with block := Function.update s.block b block }

/-- A write to an element of the array of a range. -/
def setEntry (r i : ℕ) (o : Option ℕ) : State :=
  s.setRange r { s.range r with blocks := Function.update (s.range r).blocks i o }

/-- An access to an element of the array of a range. -/
def access (r i : ℕ) : State :=
  { s with oops := s.oops || decide ((s.range r).numEntries ≤ i) }

/-! ## Creating blocks -/

/-- `uvm_va_block_create`, when there is memory. -/
def uvmVaBlockCreate (vaRange start last : ℕ) : State :=
  { s with
    numVaBlocks := s.numVaBlocks + 1
    block := Function.update s.block s.numVaBlocks ⟨start, last, vaRange, false⟩ }

/-- `uvm_va_range_block_create` up to the insertion. -/
def uvmVaRangeBlockCreate (r i : ℕ) (allocOk : Bool) : State :=
  let s := s.access r i
  match (s.range r).blocks i with
  | some _ => s
  | none =>
    if !allocOk then s
    else { s.uvmVaBlockCreate r (blockCalcStart (s.range r).node i) (blockCalcEnd (s.range r).node i)
      with creating := (r, i, s.numVaBlocks) :: s.creating }

/-- The insertion of `uvm_va_range_block_create`, by the thread that created the block: it is released
when another thread was faster. -/
def insertBlock (r i b : ℕ) : State :=
  if (r, i, b) ∈ s.creating then
    let s := { s with creating := s.creating.erase (r, i, b) }.access r i
    match (s.range r).blocks i with
    | none => s.setEntry r i (some b)
    | some _ => s.setBlock b { s.block b with freed := true }
  else s

/-! ## Splitting a range -/

/-- `uvm_va_block_split`, of a block of the range. -/
def uvmVaBlockSplit (io : SplitInput) (existing old newEnd new : ℕ) : NvStatus × State :=
  if io.presplit ≠ .ok then (io.presplit, s)
  else if (s.range existing).injectSplitError then
    (.errNoMemory, s.setRange existing { s.range existing with injectSplitError := false })
  else if io.trackerWait ≠ .ok then (io.trackerWait, s)
  else
    (.ok, (s.uvmVaBlockCreate new (newEnd + 1) (s.block old).last).setBlock old
      { s.block old with last := newEnd })

/-- One turn of the loop of `uvm_va_range_split_blocks`: a block moves to the new range. -/
def moveBlock (existing new splitIndex newIndex : ℕ) : State :=
  let s := s.access existing (splitIndex + newIndex)
  match (s.range existing).blocks (splitIndex + newIndex) with
  | none => s.access new newIndex
  | some b =>
    let s := s.setBlock b { s.block b with vaRange := new }
    let s := (s.access new newIndex).setEntry new newIndex (some b)
    s.setEntry existing (splitIndex + newIndex) none

/-- `blocks_array_shrink`: without memory for the smaller array the old one stays. -/
def blocksArrayShrink (r numBlocks : ℕ) (shrinks : Bool) : State :=
  if shrinks then s.setRange r { s.range r with numEntries := numBlocks } else s

/-- `uvm_va_range_split_blocks` behind the block that spans the split point. -/
def splitBlocksTail (io : SplitInput) (existing new splitIndex newIndex : ℕ) : NvStatus × State :=
  if (s.range existing).injectSplitError then
    (.errNoMemory, s.setRange existing { s.range existing with injectSplitError := false })
  else
    let indices := List.range' newIndex (numBlocks (s.range new).node - newIndex)
    let s := indices.foldl (fun s i => s.moveBlock existing new splitIndex i) s
    (.ok, s.blocksArrayShrink existing (splitIndex + newIndex) io.shrinks)

def uvmVaRangeSplitBlocks (io : SplitInput) (existing new : ℕ) : NvStatus × State :=
  let newStart := (s.range new).node.start
  let splitIndex := uvmVaRangeBlockIndex (s.range existing).node newStart
  if blockCalcStart (s.range existing).node splitIndex ≠ newStart then
    let s := s.access existing splitIndex
    match (s.range existing).blocks splitIndex with
    -- the part of a block that was never created still takes an element of each array
    | none => s.splitBlocksTail io existing new splitIndex 1
    | some old =>
      let r := s.uvmVaBlockSplit io existing old (newStart - 1) new
      if r.1 ≠ .ok then r
      else ((r.2.access new 0).setEntry new 0 (some s.numVaBlocks)).splitBlocksTail io existing new
        splitIndex 1
  else s.splitBlocksTail io existing new splitIndex 0

/-- `uvm_va_range_alloc_managed` and the copy of the policies. -/
def allocManaged (existing start last : ℕ) : State :=
  { s with numRanges := s.numRanges + 1 }.setRange s.numRanges
    { node := ⟨start, last, (s.range existing).node.val⟩
      blocks := fun _ => none
      numEntries := numBlocks ⟨start, last, (s.range existing).node.val⟩
      injectSplitError := false }

/-- `uvm_va_range_split`.  A range whose split fails has no blocks to be destroyed with it. -/
def uvmVaRangeSplit (io : SplitInput) (existing newEnd : ℕ) : NvStatus × State :=
  if !io.zalloc || !io.blocksAlloc then (.errNoMemory, s)
  else
    let new := s.numRanges
    let r := (s.allocManaged existing (newEnd + 1) (s.range existing).node.last).uvmVaRangeSplitBlocks
      io existing new
    if r.1 ≠ .ok then r
    else
      -- `uvm_range_tree_split`
      let range := r.2.range existing
      (.ok, { r.2.setRange existing { range with node := { range.node with last := newEnd } } with
        ranges := r.2.ranges ++ [new] })

end State

/-! ## Runs -/

/-- A step of a thread, or a test's request to inject an error. -/
inductive Op where
  | blockCreate (r i : ℕ) (allocOk : Bool)
  | insertBlock (r i b : ℕ)
  | split (io : SplitInput) (r newEnd : ℕ)
  | injectSplitError (r : ℕ)

/-- A thread asks for the block of an address of a range. -/
def State.CreateAllowed (s : State) (r i : ℕ) : Prop :=
  r ∈ s.ranges ∧ i < numBlocks (s.range r).node

instance (s : State) (r i : ℕ) : Decidable (s.CreateAllowed r i) :=
  inferInstanceAs (Decidable (_ ∧ _))

/-- The callers split a range between two of its pages, and hold the lock in write mode. -/
def State.SplitAllowed (s : State) (r newEnd : ℕ) : Prop :=
  s.creating = [] ∧ r ∈ s.ranges ∧ (s.range r).node.start < newEnd ∧
    newEnd < (s.range r).node.last ∧ 4096 ∣ newEnd + 1

instance (s : State) (r newEnd : ℕ) : Decidable (s.SplitAllowed r newEnd) :=
  inferInstanceAs (Decidable (_ ∧ _ ∧ _ ∧ _ ∧ _))

/-- One step; a thread that may not take it waits. -/
def step (s : State) : Op → State
  | .blockCreate r i allocOk =>
    if s.CreateAllowed r i then s.uvmVaRangeBlockCreate r i allocOk else s
  | .insertBlock r i b => s.insertBlock r i b
  | .split io r newEnd => if s.SplitAllowed r newEnd then (s.uvmVaRangeSplit io r newEnd).2 else s
  | .injectSplitError r => s.setRange r { s.range r with injectSplitError := true }

/-! ## The parts of a range -/

section Parts

variable {n : VaRange} {i j m a : ℕ}

theorem numBlocks_eq (hlast : 4096 ∣ n.last + 1) :
    numBlocks n = n.last / vaBlockSize + 1 - n.start / vaBlockSize := by
  have hup : (n.last + (vaBlockSize - 1)) / vaBlockSize = n.last / vaBlockSize + 1 := by
    unfold vaBlockSize
    omega
  have hsub : (n.last / vaBlockSize + 1) * vaBlockSize - n.start / vaBlockSize * vaBlockSize =
      (n.last / vaBlockSize + 1 - n.start / vaBlockSize) * vaBlockSize := by
    rw [Nat.sub_mul]
  unfold numBlocks vaBlockAlignUp vaBlockAlignDown
  rw [hup, hsub]
  exact Nat.mul_div_cancel _ (by decide)

theorem blockCalcStart_eq (n : VaRange) (i : ℕ) :
    blockCalcStart n i = max n.start ((n.start / vaBlockSize + i) * vaBlockSize) := by
  unfold blockCalcStart vaBlockAlignDown vaBlockSize
  omega

theorem blockCalcEnd_eq (n : VaRange) (i : ℕ) : blockCalcEnd n i =
      min n.last ((n.start / vaBlockSize + i) * vaBlockSize + vaBlockSize - 1) := by
  unfold blockCalcEnd vaBlockAlignUp
  rw [blockCalcStart_eq]
  unfold vaBlockSize
  omega

theorem in_block_iff (ha : n.Contains a) :
    blockCalcStart n i ≤ a ∧ a ≤ blockCalcEnd n i ↔ i = uvmVaRangeBlockIndex n a := by
  obtain ⟨hlo, hhi⟩ := ha
  rw [blockCalcStart_eq, blockCalcEnd_eq]
  unfold uvmVaRangeBlockIndex vaBlockSize
  constructor <;> omega

end Parts

section Split

variable {n : VaRange} {i j m : ℕ}

/-- A range is split below one of its pages. -/
structure Cut (n : VaRange) (m : ℕ) : Prop where
  start_lt : n.start < m
  le_last : m ≤ n.last
  page : 4096 ∣ m
  last : 4096 ∣ n.last + 1

def lower (n : VaRange) (m : ℕ) : VaRange := { n with last := m - 1 }

def upper (n : VaRange) (m : ℕ) : VaRange := ⟨m, n.last, n.val⟩

/-- Whether the block at the split point gets an element in both arrays. -/
def spans (n : VaRange) (m : ℕ) : ℕ :=
  if blockCalcStart n (uvmVaRangeBlockIndex n m) ≠ m then 1 else 0

theorem spans_eq (h : Cut n m) : spans n m = if vaBlockSize ∣ m then 0 else 1 := by
  have hlt := h.start_lt
  unfold spans
  rw [blockCalcStart_eq]
  unfold uvmVaRangeBlockIndex
  by_cases hdvd : vaBlockSize ∣ m
  · rw [if_pos hdvd, if_neg (not_not_intro _)]
    unfold vaBlockSize at *
    omega
  · rw [if_neg hdvd, if_pos]
    unfold vaBlockSize at *
    omega

theorem spans_le (n : VaRange) (m : ℕ) : spans n m ≤ 1 := by
  unfold spans
  split
  · exact Nat.le_refl 1
  · exact Nat.zero_le 1

theorem spans_le_upper (h : Cut n m) : spans n m ≤ numBlocks (upper n m) := by
  refine (spans_le n m).trans ?_
  rw [numBlocks_eq (n := upper n m) h.last]
  have hle : m / vaBlockSize ≤ n.last / vaBlockSize := Nat.div_le_div_right h.le_last
  show 1 ≤ n.last / vaBlockSize + 1 - m / vaBlockSize
  omega

theorem numBlocks_lower (h : Cut n m) :
    numBlocks (lower n m) = uvmVaRangeBlockIndex n m + spans n m := by
  obtain ⟨hlt, hle, hpage, hlast⟩ := h
  have hone : (lower n m).last + 1 = m := Nat.sub_add_cancel (Nat.one_le_of_lt hlt)
  rw [numBlocks_eq (by rw [hone]; exact hpage), spans_eq ⟨hlt, hle, hpage, hlast⟩]
  unfold lower uvmVaRangeBlockIndex
  dsimp only
  split
  · next hdvd =>
    unfold vaBlockSize at *
    omega
  · next hdvd =>
    unfold vaBlockSize at *
    omega

theorem numBlocks_upper (h : Cut n m) :
    uvmVaRangeBlockIndex n m + numBlocks (upper n m) = numBlocks n := by
  obtain ⟨hlt, hle, hpage, hlast⟩ := h
  rw [numBlocks_eq (n := upper n m) hlast, numBlocks_eq hlast]
  unfold upper uvmVaRangeBlockIndex vaBlockSize
  dsimp only
  omega

theorem calc_lower (h : Cut n m) (hi : i < uvmVaRangeBlockIndex n m) :
    blockCalcStart (lower n m) i = blockCalcStart n i ∧
      blockCalcEnd (lower n m) i = blockCalcEnd n i := by
  obtain ⟨hlt, hle, -, -⟩ := h
  simp only [blockCalcStart_eq, blockCalcEnd_eq]
  unfold uvmVaRangeBlockIndex at hi
  unfold lower vaBlockSize at *
  dsimp only
  omega

theorem calc_upper (h : Cut n m) (hj : spans n m ≤ j) :
    blockCalcStart (upper n m) j = blockCalcStart n (uvmVaRangeBlockIndex n m + j) ∧
      blockCalcEnd (upper n m) j = blockCalcEnd n (uvmVaRangeBlockIndex n m + j) := by
  rw [spans_eq h] at hj
  obtain ⟨hlt, hle, -, -⟩ := h
  simp only [blockCalcStart_eq, blockCalcEnd_eq]
  split at hj
  · next hdvd =>
    unfold upper uvmVaRangeBlockIndex vaBlockSize at *
    constructor <;> dsimp only <;> omega
  · next hdvd =>
    unfold upper uvmVaRangeBlockIndex vaBlockSize at *
    constructor <;> dsimp only <;> omega

theorem calc_spans (h : Cut n m) (hspans : spans n m = 1) :
    blockCalcStart (lower n m) (uvmVaRangeBlockIndex n m) =
        blockCalcStart n (uvmVaRangeBlockIndex n m) ∧
      blockCalcEnd (lower n m) (uvmVaRangeBlockIndex n m) = m - 1 ∧
      blockCalcStart (upper n m) 0 = m ∧
      blockCalcEnd (upper n m) 0 = blockCalcEnd n (uvmVaRangeBlockIndex n m) := by
  rw [spans_eq h] at hspans
  obtain ⟨hlt, hle, -, -⟩ := h
  have hdvd : ¬ vaBlockSize ∣ m := by
    intro hdvd
    rw [if_pos hdvd] at hspans
    exact nomatch hspans
  simp only [blockCalcStart_eq, blockCalcEnd_eq]
  unfold lower upper uvmVaRangeBlockIndex vaBlockSize at *
  refine ⟨?_, ?_, ?_, ?_⟩ <;> dsimp only <;> omega

end Split

end NvUvm.RangeBlocks
