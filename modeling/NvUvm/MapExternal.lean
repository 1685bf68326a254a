import Mathlib.Data.Nat.Bitwise
import Mathlib.Data.List.Range

/-!
# Mapping an RM allocation

`uvm_va_range_map_rm_allocation` (`uvm8_map_external.c`) writes the PTEs of an external or a channel
VA range.  It asks RM for the PTEs ahead into a buffer, and copies them to the page table ranges of
`uvm_page_table_range_vec_init` (`uvm8_mmu.c`), which are cut at PDE boundaries, with pushes of
bounded size.  The last push invalidates the TLB.

Sizes and addresses are natural numbers.  The caller's `map_offset` is a 64-bit number, and the sums
with it wrap around.  All addresses of a VA range are below `2 ^ num_va_bits`, so that the sums with
them do not.  RM is the function `pteOf` from the offsets of an allocation to PTEs.
-/

namespace NvUvm.MapExternal

/-! ## The MMU modes -/

/-- `uvm_mmu_mode_hal_t`: those of `uvm8_kepler_mmu.c` with their two big page sizes, and that of
`uvm8_pascal_mmu.c`. -/
inductive MmuModeHal where
  | kepler64 | kepler128 | pascal
  deriving DecidableEq, Repr

namespace MmuModeHal

def entrySize : MmuModeHal → ℕ → ℕ
  | .pascal, depth => if depth = 3 then 16 else 8
  | _, _ => 8

/-- `index_bits`, with the page sizes 4K, 64K and 2M in bytes. -/
def indexBits : MmuModeHal → ℕ → ℕ → ℕ
  | .kepler64, depth, pageSize => if depth = 0 then 14 else if pageSize = 4096 then 14 else 10
  | .kepler128, depth, pageSize => if depth = 0 then 13 else if pageSize = 4096 then 15 else 10
  | .pascal, depth, pageSize =>
    if depth = 0 then 2
    else if depth < 3 then 9
    else if depth = 3 then 8
    else if pageSize = 4096 then 9
    else if pageSize = 65536 then 5
    else 0

def numVaBits : MmuModeHal → ℕ
  | .pascal => 49
  | _ => 40

def pageTableDepth : MmuModeHal → ℕ → ℕ
  | .pascal, pageSize => if pageSize = 2097152 then 3 else 4
  | _, _ => 1

def pageSizes : MmuModeHal → ℕ
  | .kepler64 => 65536 ||| 4096
  | .kepler128 => 131072 ||| 4096
  | .pascal => 2097152 ||| 65536 ||| 4096

end MmuModeHal

/-- `uvm_page_tree_t`.  `tableAddress` is the physical address of the page table below a PDE, with the
PDEs of a page size numbered by the addresses that they cover. -/
structure PageTree where
  hal : MmuModeHal
  tableAddress : ℕ → ℕ

namespace PageTree

variable (tree : PageTree)

/-- `uvm_mmu_page_tree_entries`, for the page tables of a page size. -/
def entries (pageSize : ℕ) : ℕ :=
  2 ^ tree.hal.indexBits (tree.hal.pageTableDepth pageSize) pageSize

/-- `uvm_mmu_pde_coverage`. -/
def pdeCoverage (pageSize : ℕ) : ℕ := tree.entries pageSize * pageSize

/-- `uvm_mmu_pte_size`. -/
def pteSize (pageSize : ℕ) : ℕ := tree.hal.entrySize (tree.hal.pageTableDepth pageSize)

def pteAddress (pageSize va : ℕ) : ℕ :=
  tree.tableAddress (va / tree.pdeCoverage pageSize) +
    va / pageSize % tree.entries pageSize * tree.pteSize pageSize

end PageTree

/-! ## Page table ranges -/

/-- `uvm_page_table_range_t`. -/
structure PageTableRange where
  table : ℕ
  startIndex : ℕ
  entryCount : ℕ
  pageSize : ℕ
  deriving DecidableEq, Repr

/-- `uvm_page_table_range_size`. -/
def PageTableRange.size (r : PageTableRange) : ℕ := r.entryCount * r.pageSize

/-- `uvm_page_table_range_entry_address`. -/
def entryAddress (tree : PageTree) (r : PageTableRange) (entryIndex : ℕ) : ℕ :=
  tree.tableAddress r.table + (r.startIndex + entryIndex) * tree.pteSize r.pageSize

def entryIndexFromVaddr (vaddr addrBitShift bits : ℕ) : ℕ := vaddr / 2 ^ addrBitShift % 2 ^ bits

/-- `addr_bit_shift` at the depth of the page tables. -/
def addrBitShift (hal : MmuModeHal) (pageSize : ℕ) : ℕ :=
  hal.numVaBits -
    ((List.range (hal.pageTableDepth pageSize + 1)).map fun d => hal.indexBits d pageSize).sum

/-- The range that `try_get_ptes` ends with, in the page table that its walk comes to. -/
def getPtes (tree : PageTree) (pageSize start size : ℕ) : PageTableRange :=
  let shift := addrBitShift tree.hal pageSize
  let bits := tree.hal.indexBits (tree.hal.pageTableDepth pageSize) pageSize
  let startIndex := entryIndexFromVaddr start shift bits
  let endIndex := entryIndexFromVaddr (start + size - 1) shift bits
  { table := start / 2 ^ (shift + bits), startIndex, entryCount := 1 + endIndex - startIndex, pageSize }

/-- `UVM_ALIGN_DOWN` and `UVM_ALIGN_UP`. -/
def alignDown (x a : ℕ) : ℕ := x / a * a

def alignUp (x a : ℕ) : ℕ := (x + a - 1) / a * a

/-- `uvm_page_table_range_vec_t`, before its ranges are there. -/
structure RangeVec where
  tree : PageTree
  pageSize : ℕ
  start : ℕ
  size : ℕ

namespace RangeVec

variable (v : RangeVec)

/-- `range_vec_calc_range_count`. -/
def rangeCount : ℕ :=
  let pdeCoverage := v.tree.pdeCoverage v.pageSize
  (alignUp (v.start + v.size) pdeCoverage - alignDown v.start pdeCoverage) / pdeCoverage

/-- `range_vec_calc_range_start`. -/
def rangeStart (i : ℕ) : ℕ :=
  let pdeCoverage := v.tree.pdeCoverage v.pageSize
  max v.start (alignDown v.start pdeCoverage + i * pdeCoverage)

/-- `range_vec_calc_range_end`. -/
def rangeEnd (i : ℕ) : ℕ :=
  min (v.start + v.size) (alignUp (v.rangeStart i + 1) (v.tree.pdeCoverage v.pageSize))

/-- `range_vec_calc_range_size`. -/
def rangeSize (i : ℕ) : ℕ := v.rangeEnd i - v.rangeStart i

/-- The ranges that `uvm_page_table_range_vec_init` gets. -/
def ranges : List PageTableRange :=
  (List.range v.rangeCount).map fun i =>
    getPtes v.tree v.pageSize (v.rangeStart i) (v.rangeSize i)

end RangeVec

/-! ## The call -/

/-- The bounds of an external or a channel VA range, which the mapping GPU can address. -/
structure VaRange (hal : MmuModeHal) where
  start : ℕ
  last : ℕ
  le : start ≤ last
  canAddress : last < 2 ^ hal.numVaBits

/-- `uvm_va_range_size`. -/
def VaRange.size {hal : MmuModeHal} (r : VaRange hal) : ℕ := r.last - r.start + 1

/-- `UvmGpuMemoryInfo`, as RM gives it. -/
structure MemInfo where
  pageSize : ℕ
  size : ℕ
  isPow : ∃ k, pageSize = 2 ^ k
  aligned : pageSize ∣ size
  inNvU64 : size < 2 ^ 64

/-- What the call meets: the two allocations, the page tables of each range and their wait, RM at each
offset, the push for each address, the caller's tracker, and the wait after an error. -/
structure Outcomes where
  pteBufferAllocated : Bool
  rangesAllocated : Bool
  getPtes : ℕ → Bool
  pageTreeWait : Bool
  getRmPtes : ℕ → Bool
  pushBegin : ℕ → Bool
  addTracker : Bool
  wait : Bool

/-- The arguments of `uvm_va_range_map_rm_allocation`, with RM and what the call meets. -/
structure Call (Pte : Type*) where
  tree : PageTree
  vaRange : VaRange tree.hal
  memInfo : MemInfo
  mapOffset : ℕ
  mapOffset_lt : mapOffset < 2 ^ 64
  pteOf : ℕ → Pte
  outcomes : Outcomes

/-- What RM is asked for and what is pushed: writes of PTEs to physical addresses, and after them
the TLB invalidate of a start and a size, if there is one. -/
inductive Effect (Pte : Type*) where
  | getRmPtes (mapOffset mapSize : ℕ)
  | push (writes : List (ℕ × Pte)) (invalidate : Option (ℕ × ℕ))
  /-- `uvm_page_table_range_vec_clear_ptes`, after an error. -/
  | clearPtes

/-- `uvm_pte_buffer_t`. -/
structure PteBuffer (Pte : Type*) where
  pteBuffer : List Pte
  bufferSize : ℕ
  pageSize : ℕ
  pteSize : ℕ
  maxPteOffset : ℕ
  numPtes : ℕ
  pteOffset : ℕ

def maxPteBufferSize : ℕ := 96 * 1024

def maxCopySizePerPush : ℕ := 128 * 1024 - 1024

/-- `UVM_PUSH_INLINE_DATA_MAX_SIZE`. -/
def maxInlineDataSize : ℕ := 8191 * 4

/-- The loop of `uvm_pte_batch_write_ptes`. -/
def writePtesLoop {Pte : Type*} (entrySize : ℕ) : ℕ → ℕ → List Pte → ℕ → List (ℕ × Pte)
  | 0, _, _, _ => []
  | fuel + 1, firstPte, ptes, entryCount =>
    if entryCount = 0 then []
    else
      let entriesThisTime := min (maxInlineDataSize / entrySize) entryCount
      ((ptes.take entriesThisTime).mapIdx fun i pte => (firstPte + i * entrySize, pte)) ++
        writePtesLoop entrySize fuel (firstPte + entriesThisTime * entrySize)
          (ptes.drop entriesThisTime) (entryCount - entriesThisTime)

/-- `uvm_pte_batch_single_write_ptes`. -/
def writePtes {Pte : Type*} (firstPte : ℕ) (ptes : List Pte) (entrySize entryCount : ℕ) :
    List (ℕ × Pte) :=
  writePtesLoop entrySize entryCount firstPte ptes entryCount

namespace Call

variable {Pte : Type*} (c : Call Pte)

def getRmPtes (mapOffset numPtes : ℕ) : Option (List Pte) :=
  if c.outcomes.getRmPtes mapOffset then
    some ((List.range numPtes).map fun j => c.pteOf (mapOffset + j * c.memInfo.pageSize))
  else none

/-- `uvm_pte_buffer_init`. -/
def pteBufferInit : PteBuffer Pte :=
  let pageSize := c.memInfo.pageSize
  let pteSize := c.tree.pteSize pageSize
  let numAllPtes := c.vaRange.size / pageSize
  { pteBuffer := []
    bufferSize := min maxPteBufferSize (numAllPtes * pteSize)
    pageSize
    pteSize
    maxPteOffset := c.mapOffset / pageSize + numAllPtes
    numPtes := 0
    pteOffset := 0 }

/-- `uvm_pte_buffer_get`, with what it asks of RM. -/
def pteBufferGet (b : PteBuffer Pte) (mapOffset mapSize : ℕ) :
    PteBuffer Pte × List (Effect Pte) × Option (List Pte) :=
  let pteOffset := mapOffset / b.pageSize
  let numPtes := mapSize / b.pageSize
  if b.pteOffset ≤ pteOffset ∧ pteOffset + numPtes ≤ b.pteOffset + b.numPtes then
    (b, [], some (b.pteBuffer.drop (pteOffset - b.pteOffset)))
  else
    let bufferPtes := min (b.bufferSize / b.pteSize) (b.maxPteOffset - pteOffset)
    let asked := Effect.getRmPtes mapOffset (bufferPtes * b.pageSize)
    let b := { b with pteOffset, numPtes := bufferPtes }
    match c.getRmPtes mapOffset bufferPtes with
    | none => (b, [asked], none)
    | some ptes => ({ b with pteBuffer := ptes }, [asked], some ptes)

/-- `copy_ptes` for an address of the range. -/
def copyPtes (addr pteAddr : ℕ) (ptes : List Pte) (numPtes : ℕ) (lastMapping : Bool) :
    Option (Effect Pte) :=
  if c.outcomes.pushBegin addr then
    some (.push (writePtes pteAddr ptes (c.tree.pteSize c.memInfo.pageSize) numPtes)
      (if lastMapping then some (c.vaRange.start, c.vaRange.last - c.vaRange.start + 1) else none))
  else none

/-- The variables of `map_rm_pt_range`, with the PTE buffer and what happened so far. -/
structure Cursor (Pte : Type*) where
  buffer : PteBuffer Pte
  effects : List (Effect Pte)
  pteAddr : ℕ
  addr : ℕ
  mapOffset : ℕ
  ptesLeft : ℕ

/-- The loop of `map_rm_pt_range` up to the last address of the page table range; `false` is an
error. -/
def mapLoop (maxPtes last : ℕ) : ℕ → Cursor Pte → Cursor Pte × Bool
  | 0, cur => (cur, true)
  | fuel + 1, cur =>
    if cur.addr < last then
      let pageSize := c.memInfo.pageSize
      let numPtes := min maxPtes cur.ptesLeft
      let mapSize := numPtes * pageSize
      match c.pteBufferGet cur.buffer cur.mapOffset mapSize with
      | (buffer, asked, none) => ({ cur with buffer, effects := cur.effects ++ asked }, false)
      | (buffer, asked, some ptes) =>
        let lastMapping := decide (cur.addr + mapSize - 1 = c.vaRange.last)
        match c.copyPtes cur.addr cur.pteAddr ptes numPtes lastMapping with
        | none => ({ cur with buffer, effects := cur.effects ++ asked }, false)
        | some push =>
          mapLoop maxPtes last fuel
            { buffer
              effects := cur.effects ++ asked ++ [push]
              pteAddr := cur.pteAddr + numPtes * c.tree.pteSize pageSize
              addr := cur.addr + mapSize
              mapOffset := (cur.mapOffset + mapSize) % 2 ^ 64
              ptesLeft := cur.ptesLeft - numPtes }
    else (cur, true)

def mapRmPtRange (r : PageTableRange) (buffer : PteBuffer Pte) (effects : List (Effect Pte))
    (start mapOffset : ℕ) : Cursor Pte × Bool :=
  let pteSize := c.tree.pteSize r.pageSize
  let maxPtes := min (min (c.tree.pdeCoverage r.pageSize / r.pageSize) (maxCopySizePerPush / pteSize))
    (buffer.bufferSize / pteSize)
  c.mapLoop maxPtes (start + r.size - 1) r.entryCount
    { buffer
      effects
      pteAddr := entryAddress c.tree r 0
      addr := start
      mapOffset
      ptesLeft := r.size / r.pageSize }

/-- The loop of `uvm_va_range_map_rm_allocation` over the page table ranges. -/
def mapRanges : List PageTableRange → PteBuffer Pte → List (Effect Pte) → ℕ → ℕ →
    List (Effect Pte) × Bool
  | [], _, effects, _, _ => (effects, true)
  | r :: ranges, buffer, effects, addr, mapOffset =>
    match c.mapRmPtRange r buffer effects addr mapOffset with
    | (cur, false) => (cur.effects, false)
    | (cur, true) =>
      mapRanges ranges cur.buffer cur.effects (addr + r.size) ((mapOffset + r.size) % 2 ^ 64)

end Call

/-- What `uvm_va_range_map_rm_allocation` returns: `NV_OK`, an error of its checks, no memory for the
buffer or the vector, or the error of a call. -/
inductive Status where
  | ok | invalidAddress | invalidOffset | noMemory | failed
  deriving DecidableEq, Repr

def Call.uvmVaRangeMapRmAllocation {Pte : Type*} (c : Call Pte) : Status × List (Effect Pte) :=
  let pageSize := c.memInfo.pageSize
  let vec : RangeVec := ⟨c.tree, pageSize, c.vaRange.start, c.vaRange.size⟩
  if pageSize &&& c.tree.hal.pageSizes = 0 then (.invalidAddress, [])
  else if ¬(c.vaRange.start % pageSize = 0 ∧ c.vaRange.size % pageSize = 0) then (.invalidAddress, [])
  else if ¬c.mapOffset % pageSize = 0 ∨ (c.mapOffset + c.vaRange.size) % 2 ^ 64 > c.memInfo.size then
    (.invalidOffset, [])
  else if !c.outcomes.pteBufferAllocated then (.noMemory, [])
  else if !c.outcomes.rangesAllocated then (.noMemory, [])
  else if !(List.range vec.rangeCount).all c.outcomes.getPtes || !c.outcomes.pageTreeWait then
    -- the ranges that it got are put back with the vector
    (.failed, [])
  else
    match c.mapRanges vec.ranges c.pteBufferInit [] c.vaRange.start c.mapOffset with
    | (effects, true) => if c.outcomes.addTracker then (.ok, effects) else
      (.failed, if c.outcomes.wait then effects ++ [.clearPtes] else effects)
    | (effects, false) => (.failed, if c.outcomes.wait then effects ++ [.clearPtes] else effects)

/-! ## What the call should do -/

def Effect.writes {Pte : Type*} : Effect Pte → List (ℕ × Pte)
  | .push writes _ => writes
  | _ => []

def Effect.invalidate {Pte : Type*} : Effect Pte → Option (ℕ × ℕ)
  | .push _ invalidate => invalidate
  | _ => none

/-- The PTE of each page of the range is written with what RM reports for its offset, and no other
PTE; RM is asked for offsets of the allocation only; and the last effect is the push with the only TLB
invalidate, which is of the whole range. -/
structure Call.MapsRight {Pte : Type*} (c : Call Pte) (effects : List (Effect Pte)) : Prop where
  writes : effects.flatMap Effect.writes =
    (List.range (c.vaRange.size / c.memInfo.pageSize)).map fun k =>
      (c.tree.pteAddress c.memInfo.pageSize (c.vaRange.start + k * c.memInfo.pageSize),
        c.pteOf (c.mapOffset + k * c.memInfo.pageSize))
  asked : ∀ mapOffset mapSize, .getRmPtes mapOffset mapSize ∈ effects →
    mapOffset + mapSize ≤ c.memInfo.size
  invalidated : ∃ before writes, effects = before ++
    [.push writes (some (c.vaRange.start, c.vaRange.size))] ∧ ∀ e ∈ before, e.invalidate = none

end NvUvm.MapExternal
