import NvUvm.BlockCopy

/-!
# The GPU page tables of a VA block

What one GPU's page tables say about the pages of one VA block, and what the driver keeps
about them (`uvm_va_block_gpu_state_t` in `uvm8_va_block.h`, the `block_gpu_pte_*` functions
in `uvm8_va_block.c`, and the page directory functions in `uvm8_mmu.c`).

Addresses are counted in pages of 4k, which are both the CPU's pages and the GPU's small pages.
Physical addresses are left out: a valid PTE is known by the processor whose memory it maps and
by its permission.  Memory that was never written since its table was allocated is `none`.
-/

namespace NvUvm

/-- A bitmap over the big pages of a VA block. -/
abbrev BigMask := ℕ → Bool

/-- `MAX_BIG_PAGES_PER_UVM_VA_BLOCK`. -/
def maxBigPages : ℕ := 32

/-- The pages of 4k in a VA block of full size, `UVM_PAGE_SIZE_2M`. -/
def pages2m : ℕ := 512

/-! ## Big pages of a block -/

/-- A VA block and what is fixed about a GPU that maps it: its first page and size, the size of
the GPU's big pages, and whether its MMU has 2M pages and its big pages are swizzled. -/
structure GpuBlock where
  start : ℕ
  numPages : ℕ
  bigPages : ℕ
  has2m : Bool
  swizzling : Bool
  pages_pos : 0 < numPages
  fits : start % pages2m + numPages ≤ pages2m
  minBig : 16 ≤ bigPages
  big_of_2m : has2m = true → bigPages = 16
  no_swizzle_2m : has2m = true → swizzling = false

namespace GpuBlock

variable (b : GpuBlock)

/-- `block_gpu_supports_2m`. -/
def supports2m : Bool := decide (pages2m ≤ b.numPages) && b.has2m

/-- `UVM_ALIGN_UP(va_block->start, big_page_size)`. -/
def firstBig : ℕ := (b.start + b.bigPages - 1) / b.bigPages * b.bigPages

/-- `UVM_ALIGN_DOWN(va_block->end + 1, big_page_size)`. -/
def outerBig : ℕ := (b.start + b.numPages) / b.bigPages * b.bigPages

/-- `uvm_va_block_big_page_region_all`. -/
def bigPageRegionAll : BlockRegion :=
  if b.outerBig ≤ b.firstBig then ⟨0, 0⟩ else ⟨b.firstBig - b.start, b.outerBig - b.start⟩

/-- `uvm_va_block_num_big_pages`. -/
def numBigPages : ℕ := (b.bigPageRegionAll.outer - b.bigPageRegionAll.first) / b.bigPages

/-- `uvm_va_block_big_page_index`, with `none` for `MAX_BIG_PAGES_PER_UVM_VA_BLOCK`. -/
def bigPageIndex (p : ℕ) : Option ℕ :=
  if p < b.bigPageRegionAll.first ∨ b.bigPageRegionAll.outer ≤ p then none
  else some ((p - b.bigPageRegionAll.first) / b.bigPages)

/-- `uvm_va_block_big_page_region`. -/
def bigPageRegion (i : ℕ) : BlockRegion :=
  let first := b.firstBig + i * b.bigPages - b.start
  ⟨first, first + b.bigPages⟩

/-- The pages of a big page's region, as `uvm_page_mask_region_fill` sets them. -/
def pagesOfRegion (i : ℕ) : PageMask := fun p =>
  decide ((b.bigPageRegion i).first ≤ p) && decide (p < (b.bigPageRegion i).outer)

/-- `uvm_page_mask_init_from_big_ptes`. -/
def pagesOfBig (mask : BigMask) : PageMask := fun p =>
  match b.bigPageIndex p with
  | some i => mask i
  | none => false

/-- `uvm_page_mask_region_empty`, negated. -/
def anyIn (region : BlockRegion) (mask : PageMask) : Bool :=
  (List.range' region.first (region.outer - region.first)).any mask

/-- `uvm_page_mask_region_full`. -/
def fullIn (region : BlockRegion) (mask : PageMask) : Bool :=
  (List.range' region.first (region.outer - region.first)).all mask

theorem anyIn_eq_true {region : BlockRegion} {mask : PageMask} :
    anyIn region mask = true ↔ ∃ p, region.first ≤ p ∧ p < region.outer ∧ mask p = true := by
  simp only [anyIn, List.any_eq_true, List.mem_range'_1]
  constructor
  · rintro ⟨p, hp, hmask⟩
    exact ⟨p, hp.1, by omega, hmask⟩
  · rintro ⟨p, hfirst, houter, hmask⟩
    exact ⟨p, ⟨hfirst, by omega⟩, hmask⟩

theorem fullIn_eq_true {region : BlockRegion} {mask : PageMask} :
    fullIn region mask = true ↔ ∀ p, region.first ≤ p → p < region.outer → mask p = true := by
  simp only [fullIn, List.all_eq_true, List.mem_range'_1]
  constructor
  · intro h p hfirst houter
    exact h p ⟨hfirst, by omega⟩
  · intro h p hp
    exact h p hp.1 (by omega)

/-- The bits of a bitmap in ascending order, as `for_each_set_bit` visits them. -/
def setBits (mask : BigMask) : List ℕ := (List.range maxBigPages).filter mask

variable {i p : ℕ}

@[simp] theorem mem_setBits {mask : BigMask} :
    i ∈ setBits mask ↔ i < maxBigPages ∧ mask i = true := by
  simp [setBits]

/-- `bitmap_empty`. -/
def bigEmpty (mask : BigMask) : Bool := (List.range maxBigPages).all fun i => !mask i

/-- `bitmap_full`. -/
def bigFull (mask : BigMask) : Bool := (List.range maxBigPages).all mask

theorem bigEmpty_eq_false {mask : BigMask} :
    bigEmpty mask = false ↔ ∃ i < maxBigPages, mask i = true := by
  simp [bigEmpty]

/-- `bitmap_complement` over `n` bits. -/
def bigCompl (n : ℕ) (mask : BigMask) : BigMask := fun i => decide (i < n) && !mask i

/-! ### Pages by the number of their big page -/

/-- The number of the big page that holds a page of the block. -/
def bigOf (p : ℕ) : ℕ := (b.start + p) / b.bigPages

/-- The number of the first big page that starts in the block. -/
def loBig : ℕ := (b.start + b.bigPages - 1) / b.bigPages

/-- The number of the first big page that ends behind the block. -/
def hiBig : ℕ := (b.start + b.numPages) / b.bigPages

theorem bigPages_pos : 0 < b.bigPages := lt_of_lt_of_le (by decide) b.minBig

theorem start_le_firstBig : b.start ≤ b.firstBig := by
  have hk := b.bigPages_pos
  have := Nat.div_add_mod (b.start + b.bigPages - 1) b.bigPages
  have := Nat.mod_lt (b.start + b.bigPages - 1) hk
  have hc : b.firstBig = b.bigPages * ((b.start + b.bigPages - 1) / b.bigPages) := Nat.mul_comm _ _
  omega

theorem firstBig_eq : b.firstBig = b.loBig * b.bigPages := rfl

theorem outerBig_eq : b.outerBig = b.hiBig * b.bigPages := rfl

theorem loBig_le_iff (p : ℕ) : b.loBig ≤ b.bigOf p ↔ b.firstBig ≤ b.start + p := by
  rw [bigOf, Nat.le_div_iff_mul_le b.bigPages_pos, firstBig_eq]

theorem bigOf_lt_hiBig_iff (p : ℕ) : b.bigOf p < b.hiBig ↔ b.start + p < b.outerBig := by
  rw [bigOf, Nat.div_lt_iff_lt_mul b.bigPages_pos, outerBig_eq]

theorem numBigPages_eq : b.numBigPages = b.hiBig - b.loBig := by
  have hk := b.bigPages_pos
  unfold numBigPages bigPageRegionAll
  split
  · next h =>
    rw [outerBig_eq, firstBig_eq] at h
    have := Nat.le_of_mul_le_mul_right h hk
    simp only [Nat.sub_self, Nat.zero_div]
    omega
  · next h =>
    have hs := b.start_le_firstBig
    have hsub : b.outerBig - b.start - (b.firstBig - b.start) = (b.hiBig - b.loBig) * b.bigPages := by
      rw [Nat.sub_mul, ← outerBig_eq, ← firstBig_eq]
      omega
    rw [hsub, Nat.mul_div_cancel _ hk]

theorem bigPageIndex_eq (p : ℕ) : b.bigPageIndex p =
    if b.loBig ≤ b.bigOf p ∧ b.bigOf p < b.hiBig then some (b.bigOf p - b.loBig) else none := by
  have hs := b.start_le_firstBig
  have hlo := b.loBig_le_iff p
  have hhi := b.bigOf_lt_hiBig_iff p
  unfold bigPageIndex bigPageRegionAll
  split_ifs with h1 h2 h3 h3 h2 h3 h3
  · have hle : b.outerBig ≤ b.firstBig := h1
    omega
  · rfl
  · exact absurd (Or.inr (Nat.zero_le p)) h2
  · exact absurd (Or.inr (Nat.zero_le p)) h2
  · have hle : ¬ b.outerBig ≤ b.firstBig := h1
    simp only at h2
    omega
  · rfl
  · simp only [Option.some.injEq]
    have h4 : b.firstBig ≤ b.start + p := hlo.mp h3.1
    have heq : p - (b.firstBig - b.start) = (b.start + p) - b.bigPages * b.loBig := by
      rw [firstBig_eq, Nat.mul_comm] at h4 hs ⊢
      omega
    rw [heq, Nat.sub_mul_div, bigOf]
  · simp only at h2
    omega

theorem bigPageIndex_eq_some :
    b.bigPageIndex p = some i ↔ b.bigOf p = b.loBig + i ∧ i < b.numBigPages := by
  rw [bigPageIndex_eq, numBigPages_eq]
  split <;> simp <;> omega

theorem mem_bigPageRegion :
    ((b.bigPageRegion i).first ≤ p ∧ p < (b.bigPageRegion i).outer) ↔ b.bigOf p = b.loBig + i := by
  have hk := b.bigPages_pos
  have hs := b.start_le_firstBig
  have hmul : b.firstBig + i * b.bigPages = (b.loBig + i) * b.bigPages := by
    rw [Nat.add_mul, firstBig_eq]
  have hnext : (b.loBig + i + 1) * b.bigPages = (b.loBig + i) * b.bigPages + b.bigPages :=
    Nat.succ_mul _ _
  have h1 : b.loBig + i ≤ b.bigOf p ↔ (b.loBig + i) * b.bigPages ≤ b.start + p := by
    rw [bigOf, Nat.le_div_iff_mul_le hk]
  have h2 : b.bigOf p < b.loBig + i + 1 ↔ b.start + p < (b.loBig + i + 1) * b.bigPages := by
    rw [bigOf, Nat.div_lt_iff_lt_mul hk]
  simp only [bigPageRegion]
  omega

theorem pagesOfRegion_eq (i p : ℕ) : b.pagesOfRegion i p = decide (b.bigOf p = b.loBig + i) := by
  rw [pagesOfRegion, ← Bool.decide_and, decide_eq_decide, b.mem_bigPageRegion]

theorem mem_bigPageRegion_of_index (h : b.bigPageIndex p = some i) :
    (b.bigPageRegion i).first ≤ p ∧ p < (b.bigPageRegion i).outer :=
  b.mem_bigPageRegion.mpr (b.bigPageIndex_eq_some.mp h).1

theorem numBigPages_le : b.numBigPages ≤ maxBigPages := by
  have hk := b.minBig
  have hfit := b.fits
  rw [numBigPages_eq]
  by_contra hc
  have hc : maxBigPages + 1 ≤ b.hiBig - b.loBig := by omega
  have h1 : b.hiBig * b.bigPages ≤ b.start + b.numPages := Nat.div_mul_le_self _ _
  have h2 := b.start_le_firstBig
  rw [firstBig_eq] at h2
  have h3 : (maxBigPages + 1) * b.bigPages ≤ b.hiBig * b.bigPages - b.loBig * b.bigPages := by
    rw [← Nat.sub_mul]
    exact Nat.mul_le_mul_right _ hc
  simp only [maxBigPages, pages2m] at *
  omega

theorem mem_bigPageRegionAll : (b.bigPageRegionAll.first ≤ p ∧ p < b.bigPageRegionAll.outer) ↔
      b.loBig ≤ b.bigOf p ∧ b.bigOf p < b.hiBig := by
  have hs := b.start_le_firstBig
  rw [loBig_le_iff, bigOf_lt_hiBig_iff, bigPageRegionAll]
  split
  · next h => exact iff_of_false (by simp) (by omega)
  · next h =>
    dsimp only
    omega

/-- The big pages lie in the block one after the other, each aligned to its size, and cover exactly
the region for all of them. -/
structure BigPagesRight : Prop where
  index : ∀ p i, b.bigPageIndex p = some i ↔
    i < b.numBigPages ∧ (b.bigPageRegion i).first ≤ p ∧ p < (b.bigPageRegion i).outer
  bits : b.numBigPages ≤ maxBigPages
  aligned : ∀ i < b.numBigPages, b.bigPages ∣ b.start + (b.bigPageRegion i).first ∧
    (b.bigPageRegion i).outer = (b.bigPageRegion i).first + b.bigPages
  inside : ∀ i < b.numBigPages, (b.bigPageRegion i).outer ≤ b.numPages
  disjoint : ∀ i j, i < j → (b.bigPageRegion i).outer ≤ (b.bigPageRegion j).first
  tiles : ∀ p, (∃ i < b.numBigPages, (b.bigPageRegion i).first ≤ p ∧ p < (b.bigPageRegion i).outer) ↔
    b.bigPageRegionAll.first ≤ p ∧ p < b.bigPageRegionAll.outer
  outside : ∀ p, ¬ (b.bigPageRegionAll.first ≤ p ∧ p < b.bigPageRegionAll.outer) →
    b.bigPageIndex p = none

/-- **The functions on big pages agree**, whatever the ends of the block are. -/
theorem bigPages_right : b.BigPagesRight where
  index := fun p i => by
    rw [bigPageIndex_eq_some, mem_bigPageRegion]
    exact and_comm
  bits := b.numBigPages_le
  aligned := fun i hi => by
    have hs := b.start_le_firstBig
    refine ⟨⟨b.loBig + i, ?_⟩, rfl⟩
    rw [Nat.mul_comm, Nat.add_mul, ← firstBig_eq, bigPageRegion]
    dsimp only
    omega
  inside := fun i hi => by
    have hs := b.start_le_firstBig
    have hend : (b.loBig + i + 1) * b.bigPages ≤ b.start + b.numPages := by
      rw [← Nat.le_div_iff_mul_le b.bigPages_pos]
      rw [numBigPages_eq] at hi
      change _ ≤ b.hiBig
      omega
    rw [Nat.add_assoc, Nat.add_mul, ← firstBig_eq, Nat.add_mul, Nat.one_mul] at hend
    rw [bigPageRegion]
    dsimp only
    omega
  disjoint := fun i j hlt => by
    have hmul := Nat.mul_le_mul_right b.bigPages (Nat.succ_le_of_lt hlt)
    rw [Nat.succ_mul] at hmul
    have hs := b.start_le_firstBig
    rw [bigPageRegion, bigPageRegion]
    dsimp only
    omega
  tiles := fun p => by
    rw [mem_bigPageRegionAll, numBigPages_eq]
    constructor
    · rintro ⟨i, hi, hmem⟩
      have hof := b.mem_bigPageRegion.mp hmem
      omega
    · rintro ⟨hlo, hhi⟩
      exact ⟨b.bigOf p - b.loBig, by omega, b.mem_bigPageRegion.mpr (by omega)⟩
  outside := fun p hp => by
    rw [mem_bigPageRegionAll] at hp
    rw [bigPageIndex_eq, if_neg hp]

theorem supports2m_iff : b.supports2m = true ↔ b.numPages = pages2m ∧ b.has2m = true := by
  have := b.fits
  simp only [supports2m, Bool.and_eq_true, decide_eq_true_eq]
  constructor <;> rintro ⟨h1, h2⟩ <;> exact ⟨by omega, h2⟩

theorem start_of_supports2m (h : b.supports2m = true) : b.start % pages2m = 0 := by
  have := b.fits
  have := (b.supports2m_iff.mp h).1
  omega

theorem index_of_supports2m (h : b.supports2m = true) (hp : p < b.numPages) :
    ∃ i < maxBigPages, b.bigPageIndex p = some i := by
  have hn := (b.supports2m_iff.mp h).1
  have hk := b.big_of_2m (b.supports2m_iff.mp h).2
  have hs := b.start_of_supports2m h
  obtain ⟨c, hc⟩ := Nat.dvd_of_mod_eq_zero hs
  have hlo : b.loBig = 32 * c := by
    simp only [loBig, hk, hc, pages2m]
    omega
  have hhi : b.hiBig = 32 * c + 32 := by
    simp only [hiBig, hk, hc, hn, pages2m]
    omega
  have hof : b.bigOf p = 32 * c + p / 16 := by
    simp only [bigOf, hk, hc, pages2m]
    omega
  refine ⟨p / 16, ?_, ?_⟩
  · simp only [maxBigPages]
    simp only [hn, pages2m] at hp
    omega
  · rw [bigPageIndex_eq_some, numBigPages_eq, hlo, hhi, hof]
    simp only [hn, pages2m] at hp
    omega

theorem numBigPages_of_supports2m (h : b.supports2m = true) : b.numBigPages = maxBigPages := by
  have hn := (b.supports2m_iff.mp h).1
  have hk := b.big_of_2m (b.supports2m_iff.mp h).2
  have hs := b.start_of_supports2m h
  obtain ⟨c, hc⟩ := Nat.dvd_of_mod_eq_zero hs
  rw [numBigPages_eq]
  simp only [loBig, hiBig, hk, hc, hn, pages2m, maxBigPages]
  omega

end GpuBlock

/-! ## What is in GPU memory -/

/-- `uvm_prot_t`, in ascending order. -/
inductive Prot where
  | none
  | readOnly
  | readWrite
  | readWriteAtomic
  deriving DecidableEq, Repr

/-- What a valid PTE says: whose memory is mapped, and with which permission. -/
structure Mapping where
  target : ProcessorId
  prot : Prot
  deriving DecidableEq, Repr

/-- The page sizes of a GPU. -/
inductive PteSize where
  | small
  | big
  | two
  deriving DecidableEq, Repr

/-- A 4k PTE. -/
inductive SmallPte where
  | invalid
  | valid (m : Mapping)
  deriving DecidableEq, Repr

/-- A big PTE.  Under an invalid one the MMU goes on to the 4k PTEs, at an unmapped one
(`unmapped_pte`) it stops. -/
inductive BigPte where
  | invalid
  | unmapped
  | valid (m : Mapping)
  deriving DecidableEq, Repr

/-- The 2M entry: a PTE, or a PDE that may point to a table of big PTEs and to one of 4k PTEs. -/
inductive TopEntry where
  | invalid
  | valid (m : Mapping)
  | pde (big small : Bool)
  deriving DecidableEq, Repr

/-- The entries for one block in GPU memory. -/
structure PteMemory where
  top : TopEntry
  big : ℕ → Option BigPte
  small : ℕ → Option SmallPte

/-- What the MMU finds for a page.  `garbage` is an entry that was never written. -/
inductive Walk where
  | fault
  | mapped (size : PteSize) (m : Mapping)
  | garbage
  deriving DecidableEq, Repr

namespace PteMemory

/-- The last level of the walk: the 4k PTE, if the PDE points to a table of them. -/
def walkSmall (mem : PteMemory) (linked : Bool) (p : ℕ) : Walk :=
  if linked then
    match mem.small p with
    | none => .garbage
    | some .invalid => .fault
    | some (.valid m) => .mapped .small m
  else .fault

/-- The MMU's walk for a page: the 2M entry first, then the big PTE, then the 4k PTE under an
invalid big PTE. -/
def walk (b : GpuBlock) (mem : PteMemory) (p : ℕ) : Walk :=
  match mem.top with
  | .invalid => .fault
  | .valid m => .mapped .two m
  | .pde big small =>
    match (if big then b.bigPageIndex p else none) with
    | none => mem.walkSmall small p
    | some i =>
      match mem.big i with
      | none => .garbage
      | some .invalid => mem.walkSmall small p
      | some .unmapped => .fault
      | some (.valid m) => .mapped .big m

end PteMemory

/-! ## Pushes -/

/-- One method of a push that changes page tables: a write of the 2M entry, of big PTEs or of
4k PTEs, or a TLB invalidate of some pages at some page sizes. -/
inductive PteCmd where
  | top (e : TopEntry)
  | big (mask : BigMask) (v : BigPte)
  | small (mask : PageMask) (v : SmallPte)
  | invalidate (pages : PageMask) (sizes : PteSize → Bool)

namespace PteMemory

def exec (mem : PteMemory) : PteCmd → PteMemory
  | .top e => { mem with top := e }
  | .big mask v => { mem with big := fun i => if mask i then some v else mem.big i }
  | .small mask v => { mem with small := fun p => if mask p then some v else mem.small p }
  | .invalidate _ _ => mem

def execAll (mem : PteMemory) (cmds : List PteCmd) : PteMemory := cmds.foldl exec mem

end PteMemory

/-- The last value a push writes to the 2M entry. -/
def lastTop : List PteCmd → Option TopEntry
  | [] => none
  | .top e :: cmds => (lastTop cmds).or (some e)
  | _ :: cmds => lastTop cmds

def lastBig (i : ℕ) : List PteCmd → Option BigPte
  | [] => none
  | .big mask v :: cmds => (lastBig i cmds).or (if mask i then some v else none)
  | _ :: cmds => lastBig i cmds

def lastSmall (p : ℕ) : List PteCmd → Option SmallPte
  | [] => none
  | .small mask v :: cmds => (lastSmall p cmds).or (if mask p then some v else none)
  | _ :: cmds => lastSmall p cmds

section LastWrite

variable (cmds cmds' : List PteCmd) (i p : ℕ)

attribute [simp] lastTop lastBig lastSmall

@[simp] theorem lastTop_append : lastTop (cmds ++ cmds') = (lastTop cmds').or (lastTop cmds) := by
  induction cmds with
  | nil => simp
  | cons c cmds ih =>
    cases c with
    | top e => simp [ih]
    | _ => simpa using ih

@[simp] theorem lastBig_append :
    lastBig i (cmds ++ cmds') = (lastBig i cmds').or (lastBig i cmds) := by
  induction cmds with
  | nil => simp
  | cons c cmds ih =>
    cases c with
    | big mask v => simp [ih, Option.or_assoc]
    | _ => simpa using ih

@[simp] theorem lastSmall_append :
    lastSmall p (cmds ++ cmds') = (lastSmall p cmds').or (lastSmall p cmds) := by
  induction cmds with
  | nil => simp
  | cons c cmds ih =>
    cases c with
    | small mask v => simp [ih, Option.or_assoc]
    | _ => simpa using ih

theorem execAll_top (mem : PteMemory) : (mem.execAll cmds).top = (lastTop cmds).getD mem.top := by
  induction cmds generalizing mem with
  | nil => rfl
  | cons c cmds ih =>
    rw [PteMemory.execAll, List.foldl_cons, ← PteMemory.execAll, ih]
    cases c <;> simp [PteMemory.exec]

theorem execAll_big (mem : PteMemory) :
    (mem.execAll cmds).big i = (lastBig i cmds).or (mem.big i) := by
  induction cmds generalizing mem with
  | nil => rfl
  | cons c cmds ih =>
    rw [PteMemory.execAll, List.foldl_cons, ← PteMemory.execAll, ih]
    cases c with
    | big mask v => by_cases h : mask i <;> simp [PteMemory.exec, h]
    | _ => simp [PteMemory.exec]

theorem execAll_small (mem : PteMemory) :
    (mem.execAll cmds).small p = (lastSmall p cmds).or (mem.small p) := by
  induction cmds generalizing mem with
  | nil => rfl
  | cons c cmds ih =>
    rw [PteMemory.execAll, List.foldl_cons, ← PteMemory.execAll, ih]
    cases c with
    | small mask v => by_cases h : mask p <;> simp [PteMemory.exec, h]
    | _ => simp [PteMemory.exec]

theorem lastSmall_flatMap (b : GpuBlock) {f : ℕ → List PteCmd} {v : ℕ → SmallPte} {l : List ℕ}
    (hl : ∀ i ∈ l, i < b.numBigPages)
    (hf : ∀ i, lastSmall p (f i) = if b.bigOf p = b.loBig + i then some (v i) else none) :
    lastSmall p (l.flatMap f) = match b.bigPageIndex p with
      | some i => if i ∈ l then some (v i) else none
      | none => none := by
  induction l with
  | nil => cases b.bigPageIndex p <;> rfl
  | cons j l ih =>
    rw [List.flatMap_cons, lastSmall_append, ih fun i hi => hl i (List.mem_cons_of_mem _ hi), hf]
    have hj := hl j (by simp)
    cases hidx : b.bigPageIndex p with
    | none =>
      have hne : b.bigOf p ≠ b.loBig + j := fun h => by
        rw [b.bigPageIndex_eq_some.mpr ⟨h, hj⟩] at hidx
        cases hidx
      simp [hne]
    | some i =>
      rw [(b.bigPageIndex_eq_some.mp hidx).1]
      by_cases hmem : i ∈ l
      · simp [hmem]
      · by_cases heq : i = j
        · subst heq
          simp [hmem]
        · simp [heq]

end LastWrite

/-! ## The state of a block on a GPU -/

/-- `uvm_pte_bits_gpu_t`. -/
inductive PteBit where
  | read
  | write
  | atomic
  deriving DecidableEq, Repr

/-- The fields of `uvm_va_block_gpu_state_t` about page tables, and the GPU's memory.
`range2m`, `rangeBig` and `range4k` say which page table ranges are allocated. -/
structure PteState where
  pteIs2m : Bool
  initializedBig : Bool
  activatedBig : Bool
  activated4k : Bool
  force4kPtes : Bool
  range2m : Bool
  rangeBig : Bool
  range4k : Bool
  bigPtes : BigMask
  pteBits : PteBit → PageMask
  mem : PteMemory

namespace PteState

/-- The state of a block the GPU has not used yet. -/
def fresh : PteState where
  pteIs2m := false
  initializedBig := false
  activatedBig := false
  activated4k := false
  force4kPtes := false
  range2m := false
  rangeBig := false
  range4k := false
  bigPtes := fun _ => false
  pteBits := fun _ _ => false
  mem := ⟨.pde false false, fun _ => none, fun _ => none⟩

/-- `block_page_prot_gpu`. -/
def pageProt (s : PteState) (p : ℕ) : Prot :=
  if s.pteBits .atomic p then .readWriteAtomic
  else if s.pteBits .write p then .readWrite
  else if s.pteBits .read p then .readOnly
  else .none

/-- `block_gpu_has_page_tables`. -/
def hasPageTables (s : PteState) : Bool := s.range4k || s.rangeBig || s.range2m

end PteState

/-- What is written for a page that is to have a permission on a processor's memory: the
`block_gpu_pte_write_*` functions write a valid PTE, and where the permission is
`UVM_PROT_NONE` their callers clear the PTE instead. -/
def smallPteFor (target : ProcessorId) (prot : Prot) : SmallPte :=
  if prot = .none then .invalid else .valid ⟨target, prot⟩

/-- The same for a big PTE, which is cleared to the unmapped pattern. -/
def bigPteFor (target : ProcessorId) (prot : Prot) : BigPte :=
  if prot = .none then .unmapped else .valid ⟨target, prot⟩

/-- All pages of the block, for invalidates of the 2M entry. -/
def allPages : PageMask := fun _ => true

def only (size : PteSize) : PteSize → Bool := fun s => decide (s = size)

end NvUvm
