import Mathlib.Data.Nat.Log
import Mathlib.Tactic.Ring
import NvUvm.PageMask

/-!
# Prefetch hints of a VA block

Model of `uvm8_perf_prefetch.c`: when faults move pages of a block to a processor, the pages around
them that should move with them are put in a mask.  They are found in a tree over the block's pages,
which starts with ghost leaves, so that its subregions are aligned as big pages are.

Addresses are counted in pages of 4k.  The two bitmaps of the structure lie behind each other in
memory; a bit past the end of the first is a bit of the second.
-/

namespace NvUvm

/-! ## The block and its tree -/

/-- A VA block: its first page and its size. -/
structure PrefetchBlock where
  start : ℕ
  numPages : ℕ
  pages_pos : 0 < numPages
  fits : start % pages2m + numPages ≤ pages2m

/-- The sizes of big pages. -/
inductive BigPageSize where
  | size64k
  | size128k
  deriving DecidableEq, Repr

def BigPageSize.pages : BigPageSize → ℕ
  | .size64k => 16
  | .size128k => 32

namespace PrefetchBlock

variable (b : PrefetchBlock) (size : BigPageSize)

def withBig : GpuBlock where
  start := b.start
  numPages := b.numPages
  bigPages := size.pages
  has2m := false
  swizzling := false
  pages_pos := b.pages_pos
  fits := b.fits
  minBig := by cases size <;> decide
  big_of_2m := by simp
  no_swizzle_2m := by simp

/-- `uvm_va_block_big_page_region_all`. -/
def bigPagesRegion : BlockRegion := (b.withBig size).bigPageRegionAll

/-- The ghost leaves in front of the block, which align the tree to big pages. -/
def ghostLeaves : ℕ :=
  if 0 < (b.bigPagesRegion size).first then size.pages - (b.bigPagesRegion size).first else 0

/-- The leaves of the tree: the pages of the block, and ghost leaves for the largest big pages that
fit into the block. -/
def numLeaves : ℕ :=
  let size := if (b.bigPagesRegion .size128k).outer = 0 then .size64k else .size128k
  b.numPages + b.ghostLeaves size

theorem bigPagesRegion_first : (b.bigPagesRegion size).first =
    if (b.start + b.numPages) / size.pages * size.pages ≤
        (b.start + size.pages - 1) / size.pages * size.pages then 0
    else (b.start + size.pages - 1) / size.pages * size.pages - b.start :=
  apply_ite BlockRegion.first ..

theorem bigPagesRegion_outer : (b.bigPagesRegion size).outer =
    if (b.start + b.numPages) / size.pages * size.pages ≤
        (b.start + size.pages - 1) / size.pages * size.pages then 0
    else (b.start + b.numPages) / size.pages * size.pages - b.start :=
  apply_ite BlockRegion.outer ..

theorem bigPagesRegion_first_le :
    (b.bigPagesRegion size).first ≤ (b.bigPagesRegion size).outer := by
  rw [bigPagesRegion_first, bigPagesRegion_outer]
  split
  · exact le_rfl
  · omega

theorem bigPagesRegion_outer_le : (b.bigPagesRegion size).outer ≤ b.numPages := by
  rw [bigPagesRegion_outer]
  have := Nat.div_mul_le_self (b.start + b.numPages) size.pages
  split
  · exact Nat.zero_le _
  · omega

def HasBig : Prop := (b.start + size.pages - 1) / size.pages * size.pages <
  (b.start + b.numPages) / size.pages * size.pages

instance : Decidable (b.HasBig size) := inferInstanceAs (Decidable (_ < _))

variable {b size}

theorem ghostLeaves_of_hasBig (h : b.HasBig size) : b.ghostLeaves size = b.start % size.pages := by
  have hfirst : (b.bigPagesRegion size).first =
      (b.start + size.pages - 1) / size.pages * size.pages - b.start := by
    rw [bigPagesRegion_first, if_neg (Nat.not_le.mpr h)]
  unfold ghostLeaves
  by_cases hpos : 0 < (b.bigPagesRegion size).first
  · rw [if_pos hpos]
    rw [hfirst] at hpos ⊢
    cases size <;> dsimp only [BigPageSize.pages] at hpos ⊢ <;> omega
  · rw [if_neg hpos]
    rw [hfirst] at hpos
    cases size <;> dsimp only [BigPageSize.pages] at hpos ⊢ <;> omega

theorem ghostLeaves_of_not (h : ¬ b.HasBig size) : b.ghostLeaves size = 0 := by
  have hfirst : (b.bigPagesRegion size).first = 0 := by
    rw [bigPagesRegion_first, if_pos (Nat.not_lt.mp h)]
  unfold ghostLeaves
  rw [if_neg (by omega)]

theorem bigPagesRegion_outer_eq_zero : (b.bigPagesRegion size).outer = 0 ↔ ¬ b.HasBig size := by
  rw [bigPagesRegion_outer]
  by_cases hbig : b.HasBig size
  · rw [if_neg (Nat.not_le.mpr hbig), iff_false_right (not_not.mpr hbig)]
    unfold HasBig at hbig
    cases size <;> dsimp only [BigPageSize.pages] at hbig ⊢ <;> omega
  · rw [if_pos (Nat.not_lt.mp hbig)]
    exact iff_of_true rfl hbig

theorem HasBig.small (h : b.HasBig .size128k) : b.HasBig .size64k := by
  unfold HasBig at h ⊢
  dsimp only [BigPageSize.pages] at h ⊢
  omega

theorem numLeaves_of_large (h : b.HasBig .size128k) : b.numLeaves = b.numPages + b.start % 32 := by
  unfold numLeaves
  dsimp only
  rw [if_neg (mt bigPagesRegion_outer_eq_zero.mp (not_not.mpr h)), ghostLeaves_of_hasBig h]
  rfl

theorem numLeaves_of_not_large (h : ¬ b.HasBig .size128k) :
    b.numLeaves = b.numPages + b.ghostLeaves .size64k := by
  unfold numLeaves
  rw [if_pos (bigPagesRegion_outer_eq_zero.mpr h)]

variable (b size)

theorem outer_le_numLeaves : b.ghostLeaves size + b.numPages ≤ b.numLeaves := by
  by_cases hlarge : b.HasBig .size128k
  · rw [numLeaves_of_large hlarge]
    cases size with
    | size64k =>
      -- the boundaries of the larger pages are among those of the smaller ones
      rw [ghostLeaves_of_hasBig hlarge.small]
      show b.start % 16 + b.numPages ≤ b.numPages + b.start % 32
      omega
    | size128k =>
      rw [ghostLeaves_of_hasBig hlarge, Nat.add_comm]
      exact le_rfl
  · rw [numLeaves_of_not_large hlarge]
    cases size with
    | size64k => exact (Nat.add_comm ..).le
    | size128k =>
      rw [ghostLeaves_of_not hlarge]
      omega

theorem numLeaves_le : b.numLeaves ≤ pages2m := by
  have hfits := b.fits
  unfold pages2m at hfits ⊢
  by_cases hlarge : b.HasBig .size128k
  · rw [numLeaves_of_large hlarge]
    omega
  · rw [numLeaves_of_not_large hlarge]
    by_cases hsmall : b.HasBig .size64k
    · rw [ghostLeaves_of_hasBig hsmall]
      show b.numPages + b.start % 16 ≤ 512
      omega
    · rw [ghostLeaves_of_not hsmall]
      omega

end PrefetchBlock

/-! ## The counter tree -/

/-- `uvm_va_block_bitmap_tree_t` of a block, as it is initialised for the block's leaves. -/
structure BitmapTree (b : PrefetchBlock) where
  pages : PageMask
  leafCount : ℕ
  levelCount : ℕ
  leafCount_eq : leafCount = b.numLeaves
  levelCount_eq : levelCount = Nat.clog 2 leafCount + 1

/-- `block_prefetch_info_t`. -/
structure PrefetchInfo (b : PrefetchBlock) where
  prefetchPages : PageMask
  migratePages : PageMask
  bitmapTree : BitmapTree b
  lastMigrationProcId : ProcessorId
  firstPage : ℕ
  outerPage : ℕ
  pendingPrefetchPages : ℕ
  faultMigrationsToLastProc : ℕ

/-- `uvm_va_block_bitmap_tree_iter_get_range`: the leaves below the node over a leaf, `level` levels
above it. -/
def treeRange (leafCount leaf level : ℕ) : BlockRegion :=
  ⟨leaf / 2 ^ level * 2 ^ level, min (leaf / 2 ^ level * 2 ^ level + 2 ^ level) leafCount⟩

/-- A subregion of the tree that a leaf of it makes worth prefetching: more than `threshold` percent
of its leaves are set, and not all of them. -/
def Dense (threshold : ℕ) (pages : PageMask) (region : BlockRegion) : Prop :=
  pages.regionWeight region < region.outer - region.first ∧
    (region.outer - region.first) * threshold < pages.regionWeight region * 100

instance (threshold : ℕ) (pages : PageMask) (region : BlockRegion) :
    Decidable (Dense threshold pages region) := inferInstanceAs (Decidable (_ ∧ _))

section

variable {b : PrefetchBlock} (threshold : ℕ)

/-- The region that `compute_prefetch_region` starts from, when no subregion is dense. -/
def noRegion (leafCount : ℕ) : BlockRegion := ⟨leafCount, leafCount + 1⟩

/-- The last dense subregion on the way from a leaf to the root. -/
def densestRegion (tree : BitmapTree b) (leaf : ℕ) : BlockRegion :=
  (List.range tree.levelCount).foldl (fun region level =>
    let subregion := treeRange tree.leafCount leaf level
    if Dense threshold tree.pages subregion then subregion else region) (noRegion tree.leafCount)

def computePrefetchRegion (leaf : ℕ) (info : PrefetchInfo b) : BlockRegion :=
  let region := densestRegion threshold info.bitmapTree leaf
  -- clamp the region to actual pages
  if region.first < info.bitmapTree.leafCount then
    ⟨max region.first info.firstPage, min region.outer info.outerPage⟩
  else region

/-! ## The migration mask -/

/-- `grow_fault_migrations_if_no_thrashing`. -/
def growFaultMigrations (faulted : PageMask) (thrashing : Option PageMask) (mask : PageMask)
    (region : BlockRegion) : PageMask :=
  if GpuBlock.anyIn region faulted ∧ ¬ thrashing.any (GpuBlock.anyIn region ·) then
    mask.regionFill region
  else mask

/-- The regions of `initialize_migration_mask`: what lies before the big pages, the big pages, and
what lies behind them. -/
def migrationRegions (b : PrefetchBlock) (size : BigPageSize) : List BlockRegion :=
  let all := b.bigPagesRegion size
  (if 0 < all.first then [⟨0, all.first⟩] else []) ++
    (List.range (b.withBig size).numBigPages).map (b.withBig size).bigPageRegion ++
      if all.outer < b.numPages then [⟨all.outer, b.numPages⟩] else []

def initializeMigrationMask (b : PrefetchBlock) (size : BigPageSize) (faulted : PageMask)
    (thrashing : Option PageMask) : PageMask :=
  (migrationRegions b size).foldl (growFaultMigrations faulted thrashing)
    (match thrashing with
      | some thrashing => faulted.andnot thrashing
      | none => faulted)

/-! ## The call -/

/-- What the call is given and what it reads: the processor that the pages go to, with the size of
its big pages and its resident mask, if it has one; the faulted pages, the region of the faults in
the block, and the thrashing pages, if there are any. -/
structure PrefetchCall (b : PrefetchBlock) where
  newResidency : ProcessorId
  bigPageSize : BigPageSize
  residentMask : Option PageMask
  faultedPages : PageMask
  region : BlockRegion
  thrashingPages : Option PageMask
  region_le : region.outer ≤ b.numPages

def prefetchInfoGetCreate (memory : Bool) (info : Option (PrefetchInfo b)) :
    Option (PrefetchInfo b) :=
  match info with
  | some info => some info
  | none =>
    if memory then
      some {
        prefetchPages := fun _ => false
        migratePages := fun _ => false
        bitmapTree := ⟨fun _ => false, b.numLeaves, Nat.clog 2 b.numLeaves + 1, rfl, rfl⟩
        lastMigrationProcId := 0
        firstPage := 0
        outerPage := 0
        pendingPrefetchPages := 0
        faultMigrationsToLastProc := 0 }
    else none

/-- The pages that are resident or will be, in the tree. -/
def PrefetchCall.treePages (c : PrefetchCall b) : PageMask :=
  let pages := match c.residentMask with
    | some resident => resident.or c.faultedPages
    | none => c.faultedPages
  pages.shiftLeft (b.ghostLeaves c.bigPageSize)

def PrefetchCall.migratePages (c : PrefetchCall b) : PageMask :=
  initializeMigrationMask b c.bigPageSize c.faultedPages c.thrashingPages

def PrefetchCall.pages (c : PrefetchCall b) : List ℕ :=
  List.range' c.region.first (c.region.outer - c.region.first)

def prepare (c : PrefetchCall b) (info : PrefetchInfo b) : PrefetchInfo b where
  prefetchPages := fun _ => false
  migratePages := c.migratePages
  bitmapTree := { info.bitmapTree with pages := c.treePages }
  lastMigrationProcId := c.newResidency
  firstPage := b.ghostLeaves c.bigPageSize
  outerPage := b.ghostLeaves c.bigPageSize + b.numPages
  pendingPrefetchPages := 0
  faultMigrationsToLastProc :=
    if info.lastMigrationProcId = c.newResidency then info.faultMigrationsToLastProc else 0

/-- `uvm_page_mask_region_fill` on the prefetch mask: bits past its end are those of the migration
mask, which lies behind it. -/
def PrefetchInfo.fillPrefetchPages (info : PrefetchInfo b) (region : BlockRegion) :
    PrefetchInfo b :=
  { info with
    prefetchPages := info.prefetchPages.regionFill region
    migratePages := info.migratePages.regionFill ⟨region.first - pages2m, region.outer - pages2m⟩ }

/-- The loop over the pages of the region in the migration mask, with the regions it has filled. -/
def prefetchLoop (threshold : ℕ) : List ℕ → PrefetchInfo b → PrefetchInfo b × List BlockRegion
  | [], info => (info, [])
  | page :: pages, info =>
    if info.migratePages page then
      let region := computePrefetchRegion threshold (page + info.firstPage) info
      let info := info.fillPrefetchPages region
      -- everything up to the end of the block is prefetched already
      if region.outer = info.outerPage then (info, [region])
      else
        let r := prefetchLoop threshold pages info
        (r.1, region :: r.2)
    else prefetchLoop threshold pages info

def finish (c : PrefetchCall b) (info : PrefetchInfo b) : PrefetchInfo b :=
  let mask := info.prefetchPages.andnot info.bitmapTree.pages
  let mask := if 0 < info.firstPage then mask.shiftRight info.firstPage else mask
  let mask := match c.thrashingPages with
    | some thrashing => mask.andnot thrashing
    | none => mask
  { info with
    prefetchPages := mask
    faultMigrationsToLastProc :=
      (info.faultMigrationsToLastProc + c.faultedPages.regionWeight c.region) % 2 ^ 16
    pendingPrefetchPages := mask.weight pages2m }

/-- `uvm_perf_prefetch_prenotify_fault_migrations`, with the regions filled in the prefetch mask;
`none` when it returns early. -/
def prenotifyFaultMigrations (enable : Bool) (threshold : ℕ) (memory : Bool)
    (info : Option (PrefetchInfo b)) (c : PrefetchCall b) :
    Option (PrefetchInfo b × List BlockRegion) :=
  if enable then
    (prefetchInfoGetCreate memory info).map fun info =>
      let r := prefetchLoop threshold c.pages (prepare c info)
      (finish c r.1, r.2)
  else none

end

/-! ## The regions of the tree -/

section

variable {b : PrefetchBlock} {threshold : ℕ}

theorem treeRange_first_le (leafCount leaf level : ℕ) :
    (treeRange leafCount leaf level).first ≤ leaf :=
  Nat.div_mul_le_self leaf (2 ^ level)

theorem treeRange_outer_mono (leafCount leaf : ℕ) {level above : ℕ} (h : level ≤ above) :
    (treeRange leafCount leaf level).outer ≤ (treeRange leafCount leaf above).outer := by
  obtain ⟨d, rfl⟩ := Nat.exists_eq_add_of_le h
  apply min_le_min_right
  -- the first multiple of the larger size behind the leaf is one of the smaller size
  have hdiv : leaf / 2 ^ (level + d) = leaf / 2 ^ level / 2 ^ d := by
    rw [Nat.pow_add, Nat.div_div_eq_div_mul]
  have hlt : leaf / 2 ^ level + 1 ≤ (leaf / 2 ^ level / 2 ^ d + 1) * 2 ^ d := by
    have := Nat.lt_div_mul_add (Nat.two_pow_pos d) (a := leaf / 2 ^ level)
    rw [Nat.add_mul]
    omega
  calc leaf / 2 ^ level * 2 ^ level + 2 ^ level = (leaf / 2 ^ level + 1) * 2 ^ level := by ring
    _ ≤ (leaf / 2 ^ level / 2 ^ d + 1) * 2 ^ d * 2 ^ level := Nat.mul_le_mul_right _ hlt
    _ = leaf / 2 ^ (level + d) * 2 ^ (level + d) + 2 ^ (level + d) := by
      rw [hdiv, Nat.pow_add]
      ring

def DenseAt (threshold : ℕ) (pages : PageMask) (leafCount levelCount leaf level : ℕ) : Prop :=
  level < levelCount ∧ Dense threshold pages (treeRange leafCount leaf level)

variable (threshold) in
private theorem densest_spec (pages : PageMask) (leafCount leaf levels : ℕ) :
    let r := (List.range levels).foldl (fun region level =>
      let subregion := treeRange leafCount leaf level
      if Dense threshold pages subregion then subregion else region) (noRegion leafCount)
    (r = noRegion leafCount ∧ ∀ level, ¬ DenseAt threshold pages leafCount levels leaf level) ∨
      ∃ level, DenseAt threshold pages leafCount levels leaf level ∧
        r = treeRange leafCount leaf level ∧
          ∀ other, DenseAt threshold pages leafCount levels leaf other → other ≤ level := by
  induction levels with
  | zero =>
    refine .inl ⟨rfl, fun level hdense => ?_⟩
    exact Nat.not_lt_zero level hdense.1
  | succ levels ih =>
    rw [List.range_succ, List.foldl_append]
    simp only [List.foldl_cons]
    by_cases htop : Dense threshold pages (treeRange leafCount leaf levels)
    · refine .inr ⟨levels, ⟨Nat.lt_succ_self levels, htop⟩, if_pos htop, fun other hother => ?_⟩
      exact Nat.le_of_lt_succ hother.1
    · rw [if_neg htop]
      -- the level above is not dense, so the dense ones are those of before
      have hbelow : ∀ {other}, DenseAt threshold pages leafCount (levels + 1) leaf other →
          DenseAt threshold pages leafCount levels leaf other := by
        intro other hother
        rcases Nat.lt_succ_iff_lt_or_eq.mp hother.1 with hlt | rfl
        · exact ⟨hlt, hother.2⟩
        · exact absurd hother.2 htop
      rcases ih with ⟨hnone, hall⟩ | ⟨level, hlevel, hregion, hmax⟩
      · exact .inl ⟨hnone, fun other hother => hall other (hbelow hother)⟩
      · refine .inr ⟨level, ⟨Nat.lt_succ_of_lt hlevel.1, hlevel.2⟩, hregion, fun other hother => ?_⟩
        exact hmax other (hbelow hother)

def HasDense (threshold : ℕ) (tree : BitmapTree b) (leaf : ℕ) : Prop :=
  ∃ level, DenseAt threshold tree.pages tree.leafCount tree.levelCount leaf level

/-- The leaf has a dense subregion that goes up to a given leaf. -/
def DenseUpTo (threshold : ℕ) (tree : BitmapTree b) (outer leaf : ℕ) : Prop :=
  ∃ level, DenseAt threshold tree.pages tree.leafCount tree.levelCount leaf level ∧
    outer ≤ (treeRange tree.leafCount leaf level).outer

variable (threshold) in
/-- What `compute_prefetch_region` returns: a region of pages of the block, up to its end if a dense
subregion goes that far, or the region behind the leaves. -/
theorem computePrefetchRegion_spec {info : PrefetchInfo b} {leaf : ℕ}
    (houter : leaf < info.outerPage)
    (hleaves : info.outerPage ≤ info.bitmapTree.leafCount) :
    (¬ HasDense threshold info.bitmapTree leaf ∧
      computePrefetchRegion threshold leaf info = noRegion info.bitmapTree.leafCount) ∨
    HasDense threshold info.bitmapTree leaf ∧
      (computePrefetchRegion threshold leaf info).outer ≤ info.outerPage ∧
        ((computePrefetchRegion threshold leaf info).outer = info.outerPage ↔
          DenseUpTo threshold info.bitmapTree info.outerPage leaf) := by
  have hleaf : leaf < info.bitmapTree.leafCount := houter.trans_le hleaves
  unfold computePrefetchRegion densestRegion
  rcases densest_spec threshold info.bitmapTree.pages info.bitmapTree.leafCount leaf
    info.bitmapTree.levelCount with ⟨hnone, hall⟩ | ⟨level, hdense, hregion, hmax⟩
  · refine .inl ⟨fun hdense => ?_, ?_⟩
    · obtain ⟨level, hlevel⟩ := hdense
      exact hall level hlevel
    · rw [hnone]
      exact if_neg (lt_irrefl info.bitmapTree.leafCount)
  · refine .inr ⟨⟨level, hdense⟩, ?_⟩
    rw [hregion, if_pos ((treeRange_first_le ..).trans_lt hleaf)]
    refine ⟨min_le_right .., ?_⟩
    show min _ info.outerPage = info.outerPage ↔ _
    rw [min_eq_right_iff]
    constructor
    · exact fun hup => ⟨level, hdense, hup⟩
    · rintro ⟨other, hother, hup⟩
      exact hup.trans (treeRange_outer_mono _ _ (hmax other hother))

end

/-! ## The loop -/

section

variable {b : PrefetchBlock} {threshold : ℕ}

/-- Leaves of the block from `firstPage` on, which the tree has. -/
def PrefetchInfo.Fits (info : PrefetchInfo b) : Prop :=
  info.outerPage = info.firstPage + b.numPages ∧ info.outerPage ≤ info.bitmapTree.leafCount

variable {info : PrefetchInfo b}

theorem PrefetchInfo.Fits.le (h : info.Fits) : info.outerPage ≤ pages2m :=
  h.2.trans (info.bitmapTree.leafCount_eq ▸ b.numLeaves_le)

/-- A region is found from every page of the migration mask, up to the first from which everything
to the end of the block is prefetched. -/
def AllDense (threshold : ℕ) (tree : BitmapTree b) (firstPage outerPage : ℕ) (migrate : PageMask)
    (pages : List ℕ) : Prop :=
  ∀ page ∈ pages, migrate page = true →
    (∀ earlier ∈ pages, earlier < page → migrate earlier = true →
      ¬ DenseUpTo threshold tree outerPage (earlier + firstPage)) →
    HasDense threshold tree (page + firstPage)

/-- What the loop keeps and what it adds to the prefetch mask. -/
structure LoopFills (info info' : PrefetchInfo b) (fills : List BlockRegion) : Prop where
  bitmapTree : info'.bitmapTree = info.bitmapTree
  firstPage : info'.firstPage = info.firstPage
  outerPage : info'.outerPage = info.outerPage
  prefetchPages : ∀ p, info'.prefetchPages p = true →
    info.prefetchPages p = true ∨ p < pages2m ∧ ∃ region ∈ fills, p < region.outer

private theorem LoopFills.fill {info' : PrefetchInfo b} {region : BlockRegion}
    {fills : List BlockRegion} (h : LoopFills (info.fillPrefetchPages region) info' fills) :
    LoopFills info info' (region :: fills) := by
  refine ⟨h.bitmapTree, h.firstPage, h.outerPage, fun p hp => ?_⟩
  rcases h.prefetchPages p hp with hp | ⟨hlt, r, hr, hpr⟩
  · have hfill : info.prefetchPages p = true ∨
        (region.first ≤ p ∧ p < region.outer) ∧ p < pages2m := by
      simpa [PrefetchInfo.fillPrefetchPages, PageMask.regionFill] using hp
    rcases hfill with hp | ⟨⟨-, hlt⟩, hpages⟩
    · exact .inl hp
    · exact .inr ⟨hpages, region, List.mem_cons_self, hlt⟩
  · exact .inr ⟨hlt, r, List.mem_cons_of_mem _ hr, hpr⟩

theorem prefetchLoop_fills (pages : List ℕ) (info : PrefetchInfo b) :
    LoopFills info (prefetchLoop threshold pages info).1 (prefetchLoop threshold pages info).2 := by
  induction pages generalizing info with
  | nil => exact ⟨rfl, rfl, rfl, fun p hp => .inl hp⟩
  | cons page pages ih =>
    unfold prefetchLoop
    split
    · dsimp only
      split
      · apply LoopFills.fill
        exact ⟨rfl, rfl, rfl, fun p hp => .inl hp⟩
      · exact (ih _).fill
    · exact ih info

private theorem fillPrefetchPages_migratePages (info : PrefetchInfo b) {region : BlockRegion}
    (h : region.outer ≤ pages2m) :
    (info.fillPrefetchPages region).migratePages = info.migratePages := by
  funext p
  have hnone : region.outer - pages2m = 0 := Nat.sub_eq_zero_of_le h
  simp [PrefetchInfo.fillPrefetchPages, PageMask.regionFill, hnone]

variable (threshold) in
theorem prefetchLoop_writes_iff (hfits : info.Fits) {pages : List ℕ}
    (hpages : ∀ page ∈ pages, page < b.numPages) (hsorted : pages.Pairwise (· < ·)) :
    (∀ region ∈ (prefetchLoop threshold pages info).2, region.outer ≤ info.outerPage) ↔
      AllDense threshold info.bitmapTree info.firstPage info.outerPage info.migratePages pages := by
  induction pages generalizing info with
  | nil => simp [prefetchLoop, AllDense]
  | cons page pages ih =>
    obtain ⟨hlater, hsorted⟩ := List.pairwise_cons.mp hsorted
    have hrest := fun page hpage => hpages page (List.mem_cons_of_mem _ hpage)
    unfold prefetchLoop
    split
    · next hmigrate =>
      have hpage := hpages page List.mem_cons_self
      have houter : page + info.firstPage < info.outerPage := by
        rw [hfits.1]
        omega
      dsimp only
      rcases computePrefetchRegion_spec threshold houter hfits.2 with
        ⟨hnone, hregion⟩ | ⟨hdense, hle, hup⟩
      · -- the region behind the leaves is filled
        rw [hregion]
        refine iff_of_false (fun hall => ?_) (fun hall => hnone ?_)
        · have hmem : info.bitmapTree.leafCount + 1 ≤ info.outerPage := by
            split at hall <;> exact hall _ List.mem_cons_self
          have := hfits.2
          omega
        · apply hall page List.mem_cons_self hmigrate
          intro earlier hearlier hlt
          rcases List.mem_cons.mp hearlier with rfl | hearlier
          · exact absurd hlt (lt_irrefl earlier)
          · exact absurd (hlater earlier hearlier) hlt.asymm
      · split
        · next hend =>
          -- the loop ends here, and later pages do not count
          refine iff_of_true (fun region hmem => ?_) (fun other hother hm hbefore => ?_)
          · rw [List.mem_singleton.mp hmem]
            exact hle
          · rcases List.mem_cons.mp hother with rfl | hother
            · exact hdense
            · exact absurd (hup.mp hend)
                (hbefore page List.mem_cons_self (hlater other hother) hmigrate)
        · next hend =>
          have hin : (info.fillPrefetchPages (computePrefetchRegion threshold
              (page + info.firstPage) info)).Fits := hfits
          have ih := ih hin hrest hsorted
          rw [fillPrefetchPages_migratePages info (hle.trans hfits.le)] at ih
          rw [List.forall_mem_cons]
          refine (and_iff_right hle).trans (ih.trans ?_)
          constructor
          · intro hall other hother hm hbefore
            rcases List.mem_cons.mp hother with rfl | hother
            · exact hdense
            · exact hall other hother hm fun earlier hearlier =>
                hbefore earlier (List.mem_cons_of_mem _ hearlier)
          · intro hall other hother hm hbefore
            apply hall other (List.mem_cons_of_mem _ hother) hm
            intro earlier hearlier hlt hme
            rcases List.mem_cons.mp hearlier with rfl | hearlier
            · exact fun hdenseUp => hend (hup.mpr hdenseUp)
            · exact hbefore earlier hearlier hlt hme
    · next hmigrate =>
      refine (ih hfits hrest hsorted).trans ⟨fun hall other hother hm hbefore => ?_,
        fun hall other hother hm hbefore => ?_⟩
      · rcases List.mem_cons.mp hother with rfl | hother
        · exact absurd hm hmigrate
        · exact hall other hother hm fun earlier hearlier =>
            hbefore earlier (List.mem_cons_of_mem _ hearlier)
      · apply hall other (List.mem_cons_of_mem _ hother) hm
        intro earlier hearlier hlt hme
        rcases List.mem_cons.mp hearlier with rfl | hearlier
        · exact absurd hme hmigrate
        · exact hbefore earlier hearlier hlt hme

end

/-! ## The mask after the call -/

section

variable {b : PrefetchBlock} {threshold : ℕ}

theorem migrationRegions_le (size : BigPageSize) :
    ∀ region ∈ migrationRegions b size, region.outer ≤ b.numPages := by
  have hle := b.bigPagesRegion_first_le size
  have hall := b.bigPagesRegion_outer_le size
  intro region hmem
  rcases List.mem_append.mp hmem with hmem | hmem
  · rcases List.mem_append.mp hmem with hmem | hmem
    · -- what lies before the big pages
      split at hmem
      · rw [List.mem_singleton.mp hmem]
        exact hle.trans hall
      · exact absurd hmem List.not_mem_nil
    · -- a big page
      obtain ⟨i, hi, rfl⟩ := List.mem_map.mp hmem
      have hroom : (i + 1) * size.pages ≤
          (b.bigPagesRegion size).outer - (b.bigPagesRegion size).first :=
        (Nat.mul_le_mul_right _ (List.mem_range.mp hi)).trans (Nat.div_mul_le_self ..)
      have hpos : 0 < size.pages := by cases size <;> decide
      have hfirst : (b.bigPagesRegion size).first = (b.withBig size).firstBig - b.start := by
        by_cases hbig : b.HasBig size
        · rw [b.bigPagesRegion_first, if_neg (Nat.not_le.mpr hbig)]
          rfl
        · rw [PrefetchBlock.bigPagesRegion_outer_eq_zero.mpr hbig, Nat.zero_sub, Nat.add_mul] at hroom
          omega
      rw [Nat.add_mul, Nat.one_mul] at hroom
      show (b.withBig size).firstBig + i * size.pages - b.start + size.pages ≤ b.numPages
      omega
  · split at hmem
    · rw [List.mem_singleton.mp hmem]
    · exact absurd hmem List.not_mem_nil

/-- **What the mask should be**: pages of the block that are neither there nor migrate nor thrash,
counted right; the bits that were set on the way are those of pages of the block, in the prefetch
mask by the leaves that stand for them, and in the migration mask. -/
structure PrefetchRight (c : PrefetchCall b) (info : PrefetchInfo b) (fills : List BlockRegion) :
    Prop where
  inBlock : ∀ p, info.prefetchPages p = true → p < b.numPages
  faulted : ∀ p, info.prefetchPages p = true → c.faultedPages p = false
  resident : ∀ p, info.prefetchPages p = true → ∀ mask ∈ c.residentMask, mask p = false
  thrashing : ∀ p, info.prefetchPages p = true → ∀ mask ∈ c.thrashingPages, mask p = false
  pending : info.pendingPrefetchPages = info.prefetchPages.weight pages2m
  prefetchWrites : ∀ region ∈ fills, region.outer ≤ b.ghostLeaves c.bigPageSize + b.numPages
  migrateWrites : ∀ region ∈ migrationRegions b c.bigPageSize, region.outer ≤ b.numPages

def PrefetchCall.tree (c : PrefetchCall b) : BitmapTree b :=
  ⟨c.treePages, b.numLeaves, Nat.clog 2 b.numLeaves + 1, rfl, rfl⟩

/-- **There is a region to prefetch** around every page of the region that migrates, up to the first
from which everything to the end of the block is prefetched. -/
def PrefetchCall.RegionsFound (threshold : ℕ) (c : PrefetchCall b) : Prop :=
  AllDense threshold c.tree (b.ghostLeaves c.bigPageSize)
    (b.ghostLeaves c.bigPageSize + b.numPages) c.migratePages c.pages

private theorem prepare_bitmapTree (c : PrefetchCall b) (info : PrefetchInfo b) :
    (prepare c info).bitmapTree = c.tree := by
  cases h : info.bitmapTree with
  | mk pages leafCount levelCount hleaf hlevel =>
    subst hleaf hlevel
    unfold prepare
    rw [h]
    rfl

private theorem prepare_fits (c : PrefetchCall b) (info : PrefetchInfo b) :
    (prepare c info).Fits := by
  refine ⟨rfl, ?_⟩
  rw [prepare_bitmapTree]
  exact b.outer_le_numLeaves c.bigPageSize

private theorem finish_prefetchPages {c : PrefetchCall b} {info : PrefetchInfo b} {p : ℕ}
    (h : (finish c info).prefetchPages p = true) :
    info.prefetchPages (p + info.firstPage) = true ∧
      info.bitmapTree.pages (p + info.firstPage) = false ∧
        ∀ mask ∈ c.thrashingPages, mask p = false := by
  have hshift : ∀ mask : PageMask, (if 0 < info.firstPage then mask.shiftRight info.firstPage
      else mask) p = true → mask (p + info.firstPage) = true := by
    intro mask hmask
    split at hmask
    · simp only [PageMask.shiftRight, Bool.and_eq_true] at hmask
      exact hmask.2
    · next hzero =>
      have hfirst : info.firstPage = 0 := by omega
      rw [hfirst]
      exact hmask
  unfold finish at h
  cases hthrash : c.thrashingPages with
  | none =>
    rw [hthrash] at h
    have hbit := hshift _ h
    simp only [PageMask.andnot, Bool.and_eq_true, Bool.not_eq_true'] at hbit
    refine ⟨hbit.1, hbit.2, fun mask hmask => ?_⟩
    cases hmask
  | some thrashing =>
    rw [hthrash] at h
    simp only [PageMask.andnot, Bool.and_eq_true, Bool.not_eq_true'] at h
    have hbit := hshift _ h.1
    simp only [PageMask.andnot, Bool.and_eq_true, Bool.not_eq_true'] at hbit
    refine ⟨hbit.1, hbit.2, fun mask hmask => ?_⟩
    cases hmask
    exact h.2

private theorem finish_right {c : PrefetchCall b} {start : PrefetchInfo b} :
    let r := prefetchLoop threshold c.pages (prepare c start)
    PrefetchRight c (finish c r.1) r.2 ↔
      ∀ region ∈ r.2, region.outer ≤ b.ghostLeaves c.bigPageSize + b.numPages := by
  intro r
  have hloop : LoopFills (prepare c start) r.1 r.2 := prefetchLoop_fills c.pages (prepare c start)
  have hfirst : r.1.firstPage = b.ghostLeaves c.bigPageSize := hloop.firstPage
  have hpages : r.1.bitmapTree.pages = c.treePages := by
    rw [hloop.bitmapTree, prepare_bitmapTree]
    rfl
  -- a page of the mask has a leaf that was filled
  have hfilled : ∀ p, (finish c r.1).prefetchPages p = true →
      p + b.ghostLeaves c.bigPageSize < pages2m ∧
        ∃ region ∈ r.2, p + b.ghostLeaves c.bigPageSize < region.outer := by
    intro p hp
    rw [← hfirst]
    rcases hloop.prefetchPages _ (finish_prefetchPages hp).1 with hbit | hfilled
    · exact absurd hbit Bool.false_ne_true
    · exact hfilled
  have hunset : ∀ p, (finish c r.1).prefetchPages p = true →
      c.faultedPages p = false ∧ ∀ mask ∈ c.residentMask, mask p = false := by
    intro p hp
    have hbit := (finish_prefetchPages hp).2.1
    rw [hpages, hfirst] at hbit
    unfold PrefetchCall.treePages PageMask.shiftLeft at hbit
    simp only [(hfilled p hp).1, decide_true, Nat.le_add_left, Nat.add_sub_cancel,
      Bool.true_and] at hbit
    cases hresident : c.residentMask with
    | none =>
      rw [hresident] at hbit
      refine ⟨hbit, fun mask hmask => ?_⟩
      cases hmask
    | some resident =>
      rw [hresident] at hbit
      simp only [PageMask.or, Bool.or_eq_false_iff] at hbit
      refine ⟨hbit.2, fun mask hmask => ?_⟩
      cases hmask
      exact hbit.1
  constructor
  · exact fun h => h.prefetchWrites
  · intro hwrites
    have hpend : (finish c r.1).pendingPrefetchPages =
        (finish c r.1).prefetchPages.weight pages2m := by
      unfold finish
      dsimp only
    refine ⟨fun p hp => ?_, fun p hp => (hunset p hp).1, fun p hp => (hunset p hp).2,
      fun p hp => (finish_prefetchPages hp).2.2, hpend, hwrites,
      migrationRegions_le c.bigPageSize⟩
    obtain ⟨-, region, hmem, hlt⟩ := hfilled p hp
    have := hwrites region hmem
    omega

/-- **The prefetch mask is right** exactly if the module is off, or there is no memory for the
structure, or there is a region to prefetch around every page that the loop visits. -/
theorem prefetchRight_iff (enable : Bool) (threshold : ℕ) (memory : Bool)
    (info : Option (PrefetchInfo b)) (c : PrefetchCall b) :
    (∀ r ∈ prenotifyFaultMigrations enable threshold memory info c, PrefetchRight c r.1 r.2) ↔
      (enable = true → info.isSome ∨ memory = true → c.RegionsFound threshold) := by
  have hsorted : c.pages.Pairwise (· < ·) := List.pairwise_lt_range'
  have hpages : ∀ page ∈ c.pages, page < b.numPages := by
    intro page hpage
    have := (List.mem_range'_1.mp hpage).2
    have := c.region_le
    have := (List.mem_range'_1.mp hpage).1
    omega
  -- for any structure that the call starts from
  have hcall : ∀ start : PrefetchInfo b,
      PrefetchRight c (finish c (prefetchLoop threshold c.pages (prepare c start)).1)
        (prefetchLoop threshold c.pages (prepare c start)).2 ↔ c.RegionsFound threshold := by
    intro start
    have hwrites := prefetchLoop_writes_iff threshold (prepare_fits c start) hpages
      hsorted
    rw [prepare_bitmapTree] at hwrites
    exact finish_right.trans hwrites
  unfold prenotifyFaultMigrations
  cases enable with
  | false => simp
  | true =>
    cases info with
    | some start => simpa [prefetchInfoGetCreate] using hcall start
    | none =>
      cases memory with
      | false => simp [prefetchInfoGetCreate]
      | true => simpa [prefetchInfoGetCreate] using hcall _

/-- A block of 64k at the start of its 2M, of which the first page faults. -/
def firstPageFaults : PrefetchCall ⟨0, 16, by decide, by decide⟩ where
  newResidency := cpuId
  bigPageSize := .size64k
  residentMask := some fun _ => false
  faultedPages := fun p => decide (p = 0)
  region := ⟨0, 1⟩
  thrashingPages := none
  region_le := by decide

/-- The mask has the page behind the block, which counts as one to prefetch. -/
theorem mask_has_page_behind_block :
    ∃ r ∈ prenotifyFaultMigrations true 51 true none firstPageFaults,
      r.1.prefetchPages 16 = true ∧ r.1.pendingPrefetchPages = 1 ∧
        ¬ PrefetchRight firstPageFaults r.1 r.2 := by
  have hany : (prenotifyFaultMigrations true 51 true none firstPageFaults).any (fun r =>
      r.1.prefetchPages 16 && decide (r.1.pendingPrefetchPages = 1)) = true := by decide +kernel
  obtain ⟨r, hr, hbits⟩ := (Option.any_eq_true ..).mp hany
  simp only [Bool.and_eq_true, decide_eq_true_eq] at hbits
  refine ⟨r, hr, hbits.1, hbits.2, fun hright => ?_⟩
  exact absurd (hright.inBlock 16 hbits.1) (by decide)

/-- In a full block the bit is one of the migration mask, which lies behind the prefetch mask. -/
example (info : PrefetchInfo ⟨0, 512, by decide, by decide⟩) :
    (info.fillPrefetchPages (noRegion 512)).migratePages 0 = true := by
  simp [PrefetchInfo.fillPrefetchPages, PageMask.regionFill, noRegion, pages2m]

end

end NvUvm
