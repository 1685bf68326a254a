import NvUvm.Lib.TreePtr

/-!
# The physical memory manager

Model of the chunks of GPU memory (`uvm8_pmm_gpu.c`).  Root chunks of 2 MB come from PMA.  A chunk
is split into chunks of the next smaller size that its memory type has, so the chunks under a root
form a tree; chunks that are free are on the free list of their type and size.

A chunk is known by its root and its place in the tree (`Lib.TreePtr`), and the state has one map
for each field of a chunk.  A subchunk that is not allocated has no state.  The fields of `suballoc`
are kept with the chunk that is split; `pinned_leaf_chunks` is used in the root chunks only.
-/

namespace NvUvm

open Lib
open Function (update)

/-- `uvm_pmm_gpu_chunk_state_t`. -/
inductive ChunkState where
  | pmaOwned
  | free
  | isSplit
  | tempPinned
  | allocated
  deriving DecidableEq, Repr

/-- `uvm_pmm_gpu_memory_type_t`. -/
inductive MemoryType where
  | user
  | kernel
  deriving DecidableEq, Repr

def uvmChunkSizeMax : ℕ := 2 ^ 21

/-- `uvm_chunk_sizes_mask_t`: powers of two, in ascending order, up to the size of a root chunk. -/
structure ChunkSizes where
  sizes : List ℕ
  sorted : sizes.Pairwise (· < ·)
  pow : ∀ size ∈ sizes, ∃ k, size = 2 ^ k
  max_mem : uvmChunkSizeMax ∈ sizes
  le_max : ∀ size ∈ sizes, size ≤ uvmChunkSizeMax

/-- `uvm_chunk_find_prev_size`; `none` is `UVM_CHUNK_SIZE_INVALID`. -/
def ChunkSizes.findPrevSize (sizes : ChunkSizes) (size : ℕ) : Option ℕ :=
  (sizes.sizes.filter (· < size)).getLast?

/-- The lists that a chunk can be on: `free_list`, and the two lists of root chunks that can be
evicted. -/
inductive ChunkList where
  | free (type : MemoryType) (size : ℕ)
  | vaBlockUsed
  | vaBlockUnused
  deriving DecidableEq, Repr

/-- `uvm_pmm_gpu_t` with its chunks. -/
structure Pmm where
  chunkSizes : MemoryType → ChunkSizes
  address : TreePtr → ℕ
  size : TreePtr → ℕ
  type : TreePtr → MemoryType
  state : TreePtr → Option ChunkState
  vaBlock : TreePtr → Option ℕ
  allocated : TreePtr → ℕ
  pinnedLeafChunks : ℕ → ℕ
  inEviction : ℕ → Bool
  lists : ChunkList → List TreePtr

namespace Pmm

variable (s : Pmm)

/-- `uvm_pmm_gpu_init`: all root chunks belong to PMA. -/
def init (chunkSizes : MemoryType → ChunkSizes) : Pmm where
  chunkSizes := chunkSizes
  address := fun p => p.root * uvmChunkSizeMax
  size := fun _ => uvmChunkSizeMax
  type := fun _ => .user
  state := fun p => if p.path = [] then some .pmaOwned else none
  vaBlock := fun _ => none
  allocated := fun _ => 0
  pinnedLeafChunks := fun _ => 0
  inEviction := fun _ => false
  lists := fun _ => []

/-- `uvm_gpu_chunk_set_state`. -/
def setState (p : TreePtr) (new : ChunkState) : Pmm :=
  { s with state := update s.state p (some new) }

def chunkIsRootChunk (p : TreePtr) : Bool := decide (s.size p = uvmChunkSizeMax)

/-- `chunk_is_root_chunk_pinned`, for the root of the chunk. -/
def chunkIsRootChunkPinned (p : TreePtr) : Bool :=
  match s.state p.rootPtr with
  | some .tempPinned => true
  | some .isSplit => decide (0 < s.pinnedLeafChunks p.root)
  | _ => false

def numSubchunks (p : TreePtr) : ℕ := s.size p / s.size (p.child 0)

/-- `list_del_init`: the node of a chunk is on one list at most. -/
def listDelInit (p : TreePtr) : Pmm :=
  { s with lists := fun list => (s.lists list).filter (· ≠ p) }

def listMoveTail (p : TreePtr) (list : ChunkList) : Pmm :=
  let s := s.listDelInit p
  { s with lists := update s.lists list (s.lists list ++ [p]) }

def findFreeListChunk (p : TreePtr) : ChunkList := .free (s.type p) (s.size p)

/-- A write to `pinned_leaf_chunks` of a root chunk. -/
def setPinnedLeafChunks (root n : ℕ) : Pmm :=
  { s with pinnedLeafChunks := update s.pinnedLeafChunks root n }

def chunkPin (p : TreePtr) : Pmm :=
  let s := s.setState p .tempPinned
  if s.chunkIsRootChunk p then s
  else s.setPinnedLeafChunks p.root (s.pinnedLeafChunks p.root + 1)

def chunkUnpin (p : TreePtr) (new : ChunkState) : Pmm :=
  let s := s.setState p new
  if s.chunkIsRootChunk p then s
  else s.setPinnedLeafChunks p.root (s.pinnedLeafChunks p.root - 1)

/-- The list of the root chunk in `chunk_update_lists_locked`: a root chunk of user memory that
could be evicted is on the list for it. -/
def updateRootList (p : TreePtr) : Pmm :=
  if s.type p = .user then
    if s.chunkIsRootChunkPinned p then s.listDelInit p.rootPtr
    else if s.state p.rootPtr ≠ some .free then s.listMoveTail p.rootPtr .vaBlockUsed
    else s
  else s

def chunkUpdateListsLocked (p : TreePtr) : Pmm :=
  let chunkState := s.state p
  let s := s.updateRootList p
  match chunkState with
  | some .free => s.listMoveTail p (s.findFreeListChunk p)
  | some .tempPinned => s.listDelInit p
  | _ => s

/-- The counts of allocated subchunks, with that of the parent of a chunk changed, if it has
one. -/
def parentAllocated (p : TreePtr) (f : ℕ → ℕ) : TreePtr → ℕ :=
  match p.parent with
  | none => s.allocated
  | some parent => update s.allocated parent (f (s.allocated parent))

/-- A write to the count of allocated subchunks of the parent. -/
def setParentAllocated (p : TreePtr) (f : ℕ → ℕ) : Pmm :=
  { s with allocated := s.parentAllocated p f }

def chunkIsLastAllocatedChild (p : TreePtr) : Bool :=
  match p.parent with
  | none => false
  | some parent => decide (s.allocated parent = 1)

def setVaBlock (p : TreePtr) (vaBlock : Option ℕ) : Pmm :=
  { s with vaBlock := update s.vaBlock p vaBlock }

def chunkFreeLocked (p : TreePtr) : Pmm :=
  if s.inEviction p.root then
    -- the evicting thread picks the chunk up
    (s.setVaBlock p none).chunkPin p
  else
    let chunkState := s.state p
    let s := s.setParentAllocated p (· - 1)
    let s :=
      if chunkState = some .tempPinned then s.chunkUnpin p .free
      else (s.setState p .free).setVaBlock p none
    s.chunkUpdateListsLocked p

/-- The end of `claim_free_chunk`, with the chunk it has found. -/
def claimChunk (p : TreePtr) : Pmm :=
  ((s.setParentAllocated p (· + 1)).chunkPin p).chunkUpdateListsLocked p

def claimFreeChunk (type : MemoryType) (size : ℕ) : Option TreePtr × Pmm :=
  -- chunks whose root has been picked for eviction leave the list
  let evicted := (s.lists (.free type size)).takeWhile fun p => s.inEviction p.root
  let s := evicted.foldl listDelInit s
  match (s.lists (.free type size)).head? with
  | none => (none, s)
  | some p => (some p, s.claimChunk p)

def tryChunkFree (p : TreePtr) : Bool × Pmm :=
  if s.chunkIsLastAllocatedChild p then (false, s) else (true, s.chunkFreeLocked p)

/-- The loop of `free_or_prepare_for_merge`: the subchunks are pinned and taken off their lists. -/
def pinSubchunks (parent : TreePtr) : Pmm :=
  let n := s.numSubchunks parent
  { s with
    state := parent.updateChildren s.state n fun _ => some .tempPinned
    lists := fun list => (s.lists list).filter fun q => ∀ i < n, q ≠ parent.child i
    pinnedLeafChunks := update s.pinnedLeafChunks parent.root
      (s.pinnedLeafChunks parent.root + n)
    allocated := update s.allocated parent n }

/-- `free_or_prepare_for_merge`: the parent to merge, if the chunk was its last allocated
subchunk. -/
def freeOrPrepareForMerge (p : TreePtr) : Option TreePtr × Pmm :=
  match p.parent with
  | none => (none, (s.tryChunkFree p).2)
  | some parent =>
    if s.chunkIsLastAllocatedChild p then (some parent, (s.chunkFreeLocked p).pinSubchunks parent)
    else (none, s.chunkFreeLocked p)

/-- `merge_gpu_chunk`: the chunk gets the state of its subchunks, and they are freed. -/
def mergeGpuChunk (p : TreePtr) : Pmm :=
  let n := s.numSubchunks p
  let childState := s.state (p.child 0)
  { s with
    state := p.updateChildren (update s.state p childState) n fun _ => none
    vaBlock := if childState = some .allocated then
        update s.vaBlock p (s.vaBlock (p.child 0))
      else s.vaBlock
    pinnedLeafChunks := if childState = some .tempPinned then
        update s.pinnedLeafChunks p.root (s.pinnedLeafChunks p.root + 1 - n)
      else s.pinnedLeafChunks }

/-- `split_gpu_chunk` with the subchunks it has allocated, which inherit the state of the chunk. -/
def splitInto (p : TreePtr) (subchunkSize : ℕ) : Pmm :=
  let n := s.size p / subchunkSize
  -- `suballoc` is zeroed, and a root chunk that was pinned itself is not a leaf any more
  let pinned := if s.chunkIsRootChunk p then 0 else s.pinnedLeafChunks p.root
  { s with
    address := p.updateChildren s.address n fun i => s.address p + i * subchunkSize
    size := p.updateChildren s.size n fun _ => subchunkSize
    type := p.updateChildren s.type n fun _ => s.type p
    state := p.updateChildren (update s.state p (some .isSplit)) n fun _ => s.state p
    vaBlock := p.updateChildren
      (update s.vaBlock p (if s.state p = some .allocated then none else s.vaBlock p)) n
      fun _ => if s.state p = some .allocated then s.vaBlock p else none
    allocated := update s.allocated p n
    pinnedLeafChunks := update s.pinnedLeafChunks p.root
      (if s.state p = some .tempPinned then
        (if s.chunkIsRootChunk p then pinned + (n - 1) + 1 else pinned + (n - 1))
      else pinned) }

/-- `split_gpu_chunk`, unless an allocation fails. -/
def splitGpuChunk (p : TreePtr) (fails : Bool) : Option Pmm :=
  match (s.chunkSizes (s.type p)).findPrevSize (s.size p) with
  | none => none
  | some subchunkSize => if fails then none else some (s.splitInto p subchunkSize)

/-- `free_chunk_with_merges`, up the path of the chunk. -/
def freeChunkWithMerges (root : ℕ) : List ℕ → Pmm → Pmm
  | [], s => (s.freeOrPrepareForMerge ⟨root, []⟩).2
  | i :: path, s =>
    match s.freeOrPrepareForMerge ⟨root, i :: path⟩ with
    | (none, s) => s
    | (some parent, s) => freeChunkWithMerges root path (s.mergeGpuChunk parent)

/-- The section of `free_next_available_root_chunk` under the list lock: the first free root chunk
is pinned. -/
def pickFreeRootChunk : Option TreePtr × Pmm :=
  let first := (s.lists (.free .user uvmChunkSizeMax)).head?.or
    (s.lists (.free .kernel uvmChunkSizeMax)).head?
  match first with
  | none => (none, s)
  | some p => (some p, (s.listDelInit p).chunkPin p)

def freeRootChunk (p : TreePtr) : Pmm := s.chunkUnpin p .pmaOwned

def freeNextAvailableRootChunk : Pmm :=
  match s.pickFreeRootChunk with
  | (none, s) => s
  | (some p, s) => s.freeRootChunk p

def freeChunk (p : TreePtr) : Pmm :=
  let isRoot := s.chunkIsRootChunk p
  let r := s.tryChunkFree p
  if r.1 then if isRoot then r.2.freeNextAvailableRootChunk else r.2
  else (freeChunkWithMerges p.root p.path r.2).freeNextAvailableRootChunk

end Pmm

end NvUvm
