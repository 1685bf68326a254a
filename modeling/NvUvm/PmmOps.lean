import NvUvm.Pmm

/-!
# The calls of the physical memory manager

The calls of `uvm8_pmm_gpu.c` one after another, without eviction: allocation, which claims a free
chunk or splits a larger one, `unpin`, `free`, and the splits and merges that the owner of a chunk
asks for.  Whatever can fail has its outcome as an argument.
-/

namespace NvUvm

open Lib TreePtr

/-- What the allocation of one chunk meets: the root chunk that PMA has for it, the sizes of chunks
whose split fails for lack of memory, and whether the tracker can be extended. -/
structure AllocOutcome where
  pma : Option ℕ
  splitFails : ℕ → Bool
  trackerFails : Bool

namespace Pmm

variable (s : Pmm)

/-- The section of `alloc_root_chunk` under the list lock. -/
def takeRootChunk (p : TreePtr) (type : MemoryType) : Pmm :=
  { s with
    type := Function.update s.type p type
    state := Function.update s.state p (some .tempPinned) }

/-- `alloc_root_chunk`.  PMA hands out root chunks that it owns. -/
def allocRootChunk (type : MemoryType) (pma : Option ℕ) : Option TreePtr × Pmm :=
  match pma with
  | none => (none, s)
  | some root =>
    let p : TreePtr := ⟨root, []⟩
    if s.state p = some .pmaOwned then (some p, s.takeRootChunk p type) else (none, s)

/-- The loop of `alloc_chunk_with_splits` that looks for a bigger free chunk. -/
def claimLargerChunk (type : MemoryType) : List ℕ → Pmm → Option (TreePtr × ℕ) × Pmm
  | [], s => (none, s)
  | size :: sizes, s =>
    match s.claimFreeChunk type size with
    | (some p, s) => (some (p, size), s)
    | (none, s) => claimLargerChunk type sizes s

/-- All subchunks but the first are added to the free list. -/
def freeOtherSubchunks (p : TreePtr) : Pmm :=
  (List.range' 1 (s.numSubchunks p - 1)).foldl (fun s i => s.chunkFreeLocked (p.child i)) s

/-- The loop of `alloc_chunk_with_splits` that splits a chunk down to a size. -/
def splitDown (size : ℕ) (splitFails : ℕ → Bool) : List ℕ → TreePtr → Pmm → Option TreePtr × Pmm
  -- `UVM_PANIC`
  | [], _, s => (none, s)
  | curSize :: sizes, p, s =>
    if curSize = size then (some p, s)
    else
      match s.splitGpuChunk p (splitFails curSize) with
      | none => (none, freeChunkWithMerges p.root p.path s)
      | some s => splitDown size splitFails sizes (p.child 0) (s.freeOtherSubchunks p)

/-- `alloc_chunk_with_splits`, without eviction. -/
def allocChunkWithSplits (type : MemoryType) (size : ℕ) (o : AllocOutcome) : Option TreePtr × Pmm :=
  let sizes := (s.chunkSizes type).sizes
  match s.claimFreeChunk type size with
  | (some p, s) => (some p, s)
  | (none, s) =>
    match claimLargerChunk type (sizes.filter (size ≤ ·)) s with
    | (some (p, curSize), s) =>
      splitDown size o.splitFails (sizes.filter (· ≤ curSize)).reverse p s
    | (none, s) =>
      match s.allocRootChunk type o.pma with
      | (none, s) => (none, s)
      | (some p, s) =>
        splitDown size o.splitFails (sizes.filter (· ≤ uvmChunkSizeMax)).reverse p s

/-- `alloc_chunk`, without eviction. -/
def allocChunk (type : MemoryType) (size : ℕ) (o : AllocOutcome) : Option TreePtr × Pmm :=
  match s.claimFreeChunk type size with
  | (some p, s) => (some p, s)
  | (none, s) =>
    if size = uvmChunkSizeMax then s.allocRootChunk type o.pma
    else
      match s.allocChunkWithSplits type size o with
      | (some p, s) => (some p, s)
      | (none, s) => (none, s.freeNextAvailableRootChunk)

/-- The loop of `uvm_pmm_gpu_alloc`, with the chunks it has, the last one first. -/
def allocLoop (type : MemoryType) (size : ℕ) :
    List AllocOutcome → List TreePtr → Pmm → Bool × List TreePtr × Pmm
  | [], chunks, s => (true, chunks, s)
  | o :: os, chunks, s =>
    match s.allocChunk type size o with
    | (none, s) => (false, chunks, s)
    | (some p, s) =>
      if o.trackerFails then (false, p :: chunks, s) else allocLoop type size os (p :: chunks) s

/-- How the allocation of chunks ends after the loop: the work that uses the chunks has been waited
for or handed out, or one of the steps before that fails and the chunks are freed, or the last wait
fails, which frees nothing. -/
inductive AllocEnd where
  | ok
  | trackerFails
  | waitFails
  deriving DecidableEq, Repr

/-- `uvm_pmm_gpu_alloc`, for as many chunks as there are outcomes. -/
def alloc (type : MemoryType) (size : ℕ) (os : List AllocOutcome) (ending : AllocEnd) :
    Option (List TreePtr) × Pmm :=
  let r := allocLoop type size os [] s
  if r.1 = true ∧ ending ≠ .trackerFails then
    (if ending = .ok then some r.2.1.reverse else none, r.2.2)
  else (none, r.2.1.foldl freeChunk r.2.2)

/-- `uvm_pmm_gpu_alloc_kernel`. -/
def allocKernel (size : ℕ) (os : List AllocOutcome) (ending : AllocEnd) :
    Option (List TreePtr) × Pmm :=
  match s.alloc .kernel size os ending with
  | (none, s) => (none, s)
  | (some chunks, s) => (some chunks, chunks.foldl (fun s p => s.chunkUnpin p .allocated) s)

/-- `uvm_pmm_gpu_unpin_temp`. -/
def unpinTemp (p : TreePtr) (vaBlock : ℕ) : Pmm :=
  ((s.chunkUnpin p .allocated).setVaBlock p (some vaBlock)).chunkUpdateListsLocked p

/-- The leaves under a chunk, in the order of the walk of `uvm_pmm_gpu_get_subchunks`. -/
def leaves : ℕ → TreePtr → List TreePtr
  | 0, _ => []
  | fuel + 1, p =>
    if s.state p = some .isSplit then
      (List.range (s.numSubchunks p)).flatMap fun i => leaves fuel (p.child i)
    else [p]

/-- `uvm_pmm_gpu_get_subchunks`, for all of them. -/
def getSubchunks (p : TreePtr) : List TreePtr := s.leaves (s.size p) p

/-- A walk goes on to the next chunk as long as it does not fail. -/
def walkSubchunks (walk : TreePtr → Pmm → Option (List TreePtr) × Pmm) :
    List TreePtr → Pmm → Option (List TreePtr) × Pmm
  | [], s => (some [], s)
  | p :: ps, s =>
    match walk p s with
    | (none, s) => (none, s)
    | (some subchunks, s) =>
      match walkSubchunks walk ps s with
      | (none, s) => (none, s)
      | (some more, s) => (some (subchunks ++ more), s)

/-- The pre-order walk with `split_walk_func`, which gives the subchunks of the target size. -/
def splitWalk (minSize : ℕ) (fails : TreePtr → Bool) :
    ℕ → TreePtr → Pmm → Option (List TreePtr) × Pmm
  | 0, _, s => (none, s)
  | fuel + 1, p, s =>
    match s.splitGpuChunk p (fails p) with
    | none => (none, s)
    | some s =>
      let subchunks := (List.range (s.numSubchunks p)).map p.child
      if s.size (p.child 0) = minSize then (some subchunks, s)
      else walkSubchunks (splitWalk minSize fails fuel) subchunks s

/-- The post-order walk with `merge_walk_func`. -/
def mergeWalk : ℕ → TreePtr → Pmm → Pmm
  | 0, _, s => s
  | fuel + 1, p, s =>
    if s.state p = some .isSplit then
      ((List.range (s.numSubchunks p)).foldl (fun s i => mergeWalk fuel (p.child i) s) s).mergeGpuChunk
        p
    else s

/-- `uvm_pmm_gpu_merge_chunk`. -/
def mergeChunk (p : TreePtr) : Pmm := mergeWalk (s.size p) p s

/-- `uvm_pmm_gpu_split_chunk`. -/
def splitChunk (p : TreePtr) (size : ℕ) (fails : TreePtr → Bool) : Option (List TreePtr) × Pmm :=
  match splitWalk size fails (s.size p) p s with
  | (some subchunks, s) => (some subchunks, s)
  -- put the chunk back in its original state
  | (none, s) => (none, s.mergeChunk p)

end Pmm

/-- A call of the physical memory manager. -/
inductive PmmOp where
  | alloc (type : MemoryType) (size : ℕ) (os : List AllocOutcome) (ending : Pmm.AllocEnd)
  | allocKernel (size : ℕ) (os : List AllocOutcome) (ending : Pmm.AllocEnd)
  | unpinTemp (p : TreePtr) (vaBlock : ℕ)
  | free (p : TreePtr)
  | splitChunk (p : TreePtr) (size : ℕ) (fails : TreePtr → Bool)
  | mergeChunk (p : TreePtr)

/-- The chunks, and those that callers hold. -/
structure PmmCalls where
  pmm : Pmm
  held : List TreePtr

namespace PmmCalls

def init (chunkSizes : MemoryType → ChunkSizes) : PmmCalls := ⟨Pmm.init chunkSizes, []⟩

/-- What the assertions at the beginning of a call ask of its caller: a caller uses chunks that it
holds, and asks for sizes that there are.  A chunk is merged when the leaves under it are all
pinned or all allocated. -/
def Allowed (s : PmmCalls) : PmmOp → Prop
  | .alloc type size _ _ => size ∈ (s.pmm.chunkSizes type).sizes
  | .allocKernel size _ _ => size ∈ (s.pmm.chunkSizes .kernel).sizes
  | .unpinTemp p _ => p ∈ s.held ∧ s.pmm.state p = some .tempPinned
  | .free p => p ∈ s.held
  | .splitChunk p size _ =>
    p ∈ s.held ∧ size ∈ (s.pmm.chunkSizes (s.pmm.type p)).sizes ∧ size < s.pmm.size p
  | .mergeChunk p =>
    s.pmm.state p ≠ none ∧ (∀ q ∈ s.pmm.getSubchunks p, q ∈ s.held) ∧
      ((∀ q ∈ s.pmm.getSubchunks p, s.pmm.state q = some .tempPinned) ∨
        ∀ q ∈ s.pmm.getSubchunks p, s.pmm.state q = some .allocated)

instance (s : PmmCalls) (op : PmmOp) : Decidable (s.Allowed op) := by
  cases op <;> unfold Allowed <;> infer_instance

def exec (s : PmmCalls) : PmmOp → PmmCalls
  | .alloc type size os ending =>
    let r := s.pmm.alloc type size os ending
    ⟨r.2, r.1.getD [] ++ s.held⟩
  | .allocKernel size os ending =>
    let r := s.pmm.allocKernel size os ending
    ⟨r.2, r.1.getD [] ++ s.held⟩
  | .unpinTemp p vaBlock => ⟨s.pmm.unpinTemp p vaBlock, s.held⟩
  | .free p => ⟨s.pmm.freeChunk p, s.held.erase p⟩
  | .splitChunk p size fails =>
    match s.pmm.splitChunk p size fails with
    | (none, pmm) => ⟨pmm, s.held⟩
    | (some subchunks, pmm) => ⟨pmm, subchunks ++ s.held.erase p⟩
  | .mergeChunk p =>
    ⟨s.pmm.mergeChunk p, p :: s.held.filter fun q => q ∉ s.pmm.getSubchunks p⟩

def step (s : PmmCalls) (op : PmmOp) : PmmCalls := if s.Allowed op then s.exec op else s

end PmmCalls

end NvUvm
