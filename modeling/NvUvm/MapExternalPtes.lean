import NvUvm.MapExternal

/-!
# What a mapping of an RM allocation writes

The pages of the VA range are taken in order: through the page table ranges, and in each through the
chunks of one push.  `Done` says what has happened once some pages are mapped, and each chunk takes it
on.  The offsets asked of RM are right as long as the caller's offset and the size of the VA range
have a sum below `2 ^ 64`; the check of the two wraps around.
-/

namespace NvUvm.MapExternal

/-! ## Page sizes -/

variable {pageSize : ℕ}

theorem pageSize_cases {hal : MmuModeHal} (hpow : ∃ k, pageSize = 2 ^ k)
    (hsupported : pageSize &&& hal.pageSizes ≠ 0) :
    pageSize = 4096 ∨ (hal = .kepler64 ∧ pageSize = 65536) ∨
      (hal = .kepler128 ∧ pageSize = 131072) ∨
      (hal = .pascal ∧ (pageSize = 65536 ∨ pageSize = 2097152)) := by
  obtain ⟨k, rfl⟩ := hpow
  have hbit : hal.pageSizes.testBit k = true := by
    by_contra hbit
    rw [Nat.two_pow_and, Bool.eq_false_iff.mpr hbit] at hsupported
    exact hsupported rfl
  have hlt : k < 22 := by
    by_contra hge
    have hsmall : hal.pageSizes < 2 ^ k := by
      refine Nat.lt_of_lt_of_le ?_ (Nat.pow_le_pow_right (by decide) (Nat.le_of_not_lt hge))
      cases hal <;> decide
    rw [Nat.testBit_eq_false_of_lt hsmall] at hbit
    cases hbit
  cases hal
  · have hall : ∀ k < 22, MmuModeHal.kepler64.pageSizes.testBit k = true → k = 12 ∨ k = 16 := by
      decide
    rcases hall k hlt hbit with rfl | rfl <;> simp
  · have hall : ∀ k < 22, MmuModeHal.kepler128.pageSizes.testBit k = true → k = 12 ∨ k = 17 := by
      decide
    rcases hall k hlt hbit with rfl | rfl <;> simp
  · have hall : ∀ k < 22, MmuModeHal.pascal.pageSizes.testBit k = true →
        k = 12 ∨ k = 16 ∨ k = 21 := by
      decide
    rcases hall k hlt hbit with rfl | rfl | rfl <;> simp

/-- What the loops need of a page size. -/
structure PageTree.Fits (tree : PageTree) (pageSize : ℕ) : Prop where
  shift : 2 ^ addrBitShift tree.hal pageSize = pageSize
  two_le : 2 ≤ pageSize
  dvd : pageSize ∣ 2 ^ 64
  pteSize : tree.pteSize pageSize = 8 ∨ tree.pteSize pageSize = 16

theorem fits {tree : PageTree} (hpow : ∃ k, pageSize = 2 ^ k)
    (hsupported : pageSize &&& tree.hal.pageSizes ≠ 0) : tree.Fits pageSize := by
  obtain ⟨hal, tableAddress⟩ := tree
  have hpte : ∀ depth, hal.entrySize depth = 8 ∨ hal.entrySize depth = 16 := by
    intro depth
    cases hal
    · exact .inl rfl
    · exact .inl rfl
    · by_cases hdepth : depth = 3
      · exact .inr (if_pos hdepth)
      · exact .inl (if_neg hdepth)
  rcases pageSize_cases hpow hsupported with rfl | ⟨rfl, rfl⟩ | ⟨rfl, rfl⟩ | ⟨rfl, rfl | rfl⟩
  · cases hal <;> exact ⟨rfl, by decide, by decide, hpte _⟩
  all_goals exact ⟨rfl, by decide, by decide, hpte _⟩

/-! ## Page table ranges -/

section Ranges

variable {tree : PageTree} {pageSize : ℕ} (hfits : tree.Fits pageSize) {p n : ℕ}
include hfits

theorem getPtes_eq {count : ℕ} (hcnt : 0 < count)
    (hfit : p % tree.entries pageSize + count ≤ tree.entries pageSize) :
    getPtes tree pageSize (p * pageSize) (count * pageSize) =
      ⟨p / tree.entries pageSize, p % tree.entries pageSize, count, pageSize⟩ := by
  have hpos : 0 < pageSize := Nat.lt_of_lt_of_le Nat.zero_lt_two hfits.two_le
  have hshift := hfits.shift
  have hlast : (p * pageSize + count * pageSize - 1) / pageSize = p + count - 1 := by
    have hsum : p * pageSize + count * pageSize - 1 =
        (pageSize - 1) + pageSize * (p + count - 1) := by
      obtain ⟨m, hm⟩ : ∃ m, p + count = m + 1 := ⟨p + count - 1, by omega⟩
      rw [← Nat.add_mul, hm, Nat.add_sub_cancel, Nat.succ_mul, Nat.mul_comm m]
      omega
    rw [hsum, Nat.add_mul_div_left _ _ hpos, Nat.div_eq_of_lt (Nat.sub_one_lt_of_lt hpos),
      Nat.zero_add]
  have hidx : (p + count - 1) % tree.entries pageSize =
      p % tree.entries pageSize + (count - 1) := by
    have hdiv := Nat.div_add_mod p (tree.entries pageSize)
    have hsum : p + count - 1 = tree.entries pageSize * (p / tree.entries pageSize) +
        (p % tree.entries pageSize + (count - 1)) := by omega
    rw [hsum, Nat.mul_add_mod, Nat.mod_eq_of_lt (by omega)]
  have hents : 2 ^ tree.hal.indexBits (tree.hal.pageTableDepth pageSize) pageSize =
      tree.entries pageSize := rfl
  simp only [getPtes, entryIndexFromVaddr, hshift, hlast, Nat.mul_div_cancel _ hpos, Nat.pow_add,
    hents, hidx]
  rw [Nat.mul_comm pageSize, Nat.mul_div_mul_right _ _ hpos]
  have hentry : 1 + (p % tree.entries pageSize + (count - 1)) - p % tree.entries pageSize = count := by
    omega
  rw [hentry]

theorem pteAddress_eq {count j : ℕ}
    (hfit : p % tree.entries pageSize + count ≤ tree.entries pageSize) (hj : j < count) :
    tree.pteAddress pageSize ((p + j) * pageSize) = tree.tableAddress (p / tree.entries pageSize) +
      (p % tree.entries pageSize + j) * tree.pteSize pageSize := by
  have hpos : 0 < pageSize := Nat.lt_of_lt_of_le Nat.zero_lt_two hfits.two_le
  have hpage : p + j = tree.entries pageSize * (p / tree.entries pageSize) +
      (p % tree.entries pageSize + j) := by
    rw [← Nat.add_assoc, Nat.div_add_mod]
  have hlt : p % tree.entries pageSize + j < tree.entries pageSize := by omega
  have hents : 0 < tree.entries pageSize := Nat.two_pow_pos _
  rw [PageTree.pteAddress, PageTree.pdeCoverage, Nat.mul_div_mul_right _ _ hpos,
    Nat.mul_div_cancel _ hpos, hpage, Nat.mul_add_div hents, Nat.div_eq_of_lt hlt,
    Nat.add_zero, Nat.mul_add_mod, Nat.mod_eq_of_lt hlt]

end Ranges

/-- Page table ranges that take the pages up to some page in order, each in one page table. -/
inductive Chain (tree : PageTree) (pageSize : ℕ) : ℕ → ℕ → List PageTableRange → Prop
  | nil (p : ℕ) : Chain tree pageSize p p []
  | cons {p q count : ℕ} {ranges : List PageTableRange} (hcount : 0 < count)
      (hfit : p % tree.entries pageSize + count ≤ tree.entries pageSize)
      (hrest : Chain tree pageSize (p + count) q ranges) :
      Chain tree pageSize p q
        (⟨p / tree.entries pageSize, p % tree.entries pageSize, count, pageSize⟩ :: ranges)

theorem Chain.le {tree : PageTree} {p q : ℕ} {ranges : List PageTableRange}
    (h : Chain tree pageSize p q ranges) : p ≤ q := by
  induction h with
  | nil p => exact Nat.le_refl p
  | cons hcnt hfit hrest ih => exact Nat.le_trans (Nat.le_add_right _ _) ih

theorem lt_block {entries s i : ℕ} (hents : 0 < entries) (hi : 0 < i) :
    s < (s / entries + i) * entries :=
  calc s < s / entries * entries + entries := Nat.lt_div_mul_add hents
    _ = (s / entries + 1) * entries := (Nat.succ_mul _ _).symm
    _ ≤ (s / entries + i) * entries := Nat.mul_le_mul_right _ (Nat.add_le_add_left hi _)

/-- The page that a range of the vector starts with. -/
def rangePage (entries s n i : ℕ) : ℕ := min (s + n) (max s ((s / entries + i) * entries))

theorem rangePage_div {entries s n i : ℕ} (hents : 0 < entries)
    (hi : (s / entries + i) * entries < s + n) :
    rangePage entries s n i / entries = s / entries + i := by
  unfold rangePage
  rcases Nat.eq_zero_or_pos i with rfl | hi'
  · rw [Nat.add_zero, Nat.max_eq_left (Nat.div_mul_le_self _ _), Nat.min_eq_right (by omega)]
  · rw [Nat.max_eq_right (Nat.le_of_lt (lt_block hents hi')), Nat.min_eq_right (Nat.le_of_lt hi),
      Nat.mul_div_cancel _ hents]

section Vec

variable {tree : PageTree} {pageSize s n : ℕ} (hfits : tree.Fits pageSize) (hn : 0 < n)
include hfits hn

theorem rangeStart_eq {i : ℕ} (hi : (s / tree.entries pageSize + i) * tree.entries pageSize < s + n) :
    RangeVec.rangeStart ⟨tree, pageSize, s * pageSize, n * pageSize⟩ i =
      rangePage (tree.entries pageSize) s n i * pageSize := by
  have hpos : 0 < pageSize := Nat.lt_of_lt_of_le Nat.zero_lt_two hfits.two_le
  have hpage : rangePage (tree.entries pageSize) s n i =
      max s ((s / tree.entries pageSize + i) * tree.entries pageSize) := by
    unfold rangePage
    omega
  rw [hpage, ← Nat.mul_max_mul_right]
  simp only [RangeVec.rangeStart, alignDown, PageTree.pdeCoverage,
    Nat.mul_div_mul_right _ _ hpos]
  rw [← Nat.add_mul, Nat.mul_assoc]

theorem rangeEnd_eq {i : ℕ} (hi : (s / tree.entries pageSize + i) * tree.entries pageSize < s + n) :
    RangeVec.rangeEnd ⟨tree, pageSize, s * pageSize, n * pageSize⟩ i =
      rangePage (tree.entries pageSize) s n (i + 1) * pageSize := by
  have hpos : 0 < pageSize := Nat.lt_of_lt_of_le Nat.zero_lt_two hfits.two_le
  have hents : 0 < tree.entries pageSize := Nat.two_pow_pos _
  have hpage := rangePage_div hents hi
  have hnext : s < (s / tree.entries pageSize + (i + 1)) * tree.entries pageSize :=
    lt_block hents (Nat.succ_pos i)
  have halign : alignUp (rangePage (tree.entries pageSize) s n i * pageSize + 1)
      (tree.entries pageSize * pageSize) =
        (s / tree.entries pageSize + (i + 1)) * tree.entries pageSize * pageSize := by
    have hsum : rangePage (tree.entries pageSize) s n i * pageSize + 1 +
        tree.entries pageSize * pageSize - 1 =
          (rangePage (tree.entries pageSize) s n i + tree.entries pageSize) * pageSize := by
      rw [Nat.add_mul]
      omega
    rw [alignUp, hsum, Nat.mul_div_mul_right _ _ hpos, Nat.add_div_right _ hents, hpage,
      Nat.mul_assoc, Nat.add_assoc]
  rw [RangeVec.rangeEnd, rangeStart_eq hfits hn hi]
  simp only [PageTree.pdeCoverage]
  rw [halign, ← Nat.add_mul, Nat.mul_min_mul_right, rangePage, Nat.max_eq_right (Nat.le_of_lt hnext)]

theorem rangeCount_spec :
    let count := RangeVec.rangeCount ⟨tree, pageSize, s * pageSize, n * pageSize⟩
    (∀ i < count, (s / tree.entries pageSize + i) * tree.entries pageSize < s + n) ∧
      s + n ≤ (s / tree.entries pageSize + count) * tree.entries pageSize := by
  have hpos : 0 < pageSize := Nat.lt_of_lt_of_le Nat.zero_lt_two hfits.two_le
  have hents : 0 < tree.entries pageSize := Nat.two_pow_pos _
  -- the number of the page table after the last one
  have hcnt : RangeVec.rangeCount ⟨tree, pageSize, s * pageSize, n * pageSize⟩ =
      (s + n + tree.entries pageSize - 1) / tree.entries pageSize - s / tree.entries pageSize := by
    have hsum : s * pageSize + n * pageSize + tree.entries pageSize * pageSize - 1 =
        (pageSize - 1) + pageSize * (s + n + tree.entries pageSize - 1) := by
      obtain ⟨m, hm⟩ : ∃ m, s + n + tree.entries pageSize = m + 1 :=
        ⟨s + n + tree.entries pageSize - 1, by omega⟩
      rw [← Nat.add_mul, ← Nat.add_mul, hm, Nat.add_sub_cancel, Nat.succ_mul, Nat.mul_comm m]
      omega
    have hquot : (s * pageSize + n * pageSize + tree.entries pageSize * pageSize - 1) /
        (tree.entries pageSize * pageSize) =
          (s + n + tree.entries pageSize - 1) / tree.entries pageSize := by
      rw [hsum, Nat.mul_comm _ pageSize, ← Nat.div_div_eq_div_mul, Nat.add_mul_div_left _ _ hpos,
        Nat.div_eq_of_lt (Nat.sub_one_lt_of_lt hpos), Nat.zero_add]
    simp only [RangeVec.rangeCount, alignUp, alignDown, PageTree.pdeCoverage, hquot,
      Nat.mul_div_mul_right _ _ hpos]
    rw [← Nat.sub_mul, Nat.mul_div_cancel _ (Nat.mul_pos hents hpos)]
  have htop := Nat.div_mul_le_self (s + n + tree.entries pageSize - 1) (tree.entries pageSize)
  have hbottom := Nat.lt_div_mul_add (a := s + n + tree.entries pageSize - 1) hents
  have hle : s / tree.entries pageSize ≤
      (s + n + tree.entries pageSize - 1) / tree.entries pageSize :=
    Nat.div_le_div_right (by omega)
  rw [hcnt]
  refine ⟨fun i hi => ?_, ?_⟩
  · have hmul := Nat.mul_le_mul_right (tree.entries pageSize)
      (show s / tree.entries pageSize + i + 1 ≤
        (s + n + tree.entries pageSize - 1) / tree.entries pageSize by omega)
    rw [Nat.succ_mul] at hmul
    omega
  · rw [Nat.add_sub_cancel' hle]
    omega

theorem ranges_chain : Chain tree pageSize s (s + n)
      (RangeVec.ranges ⟨tree, pageSize, s * pageSize, n * pageSize⟩) := by
  have hents : 0 < tree.entries pageSize := Nat.two_pow_pos _
  obtain ⟨hbefore, hafter⟩ := rangeCount_spec hfits hn
  set v : RangeVec := ⟨tree, pageSize, s * pageSize, n * pageSize⟩ with hv
  have hchain : ∀ m i, i + m = v.rangeCount →
      Chain tree pageSize (rangePage (tree.entries pageSize) s n i) (s + n)
        ((List.range' i m).map fun i => getPtes tree pageSize (v.rangeStart i) (v.rangeSize i)) := by
    intro m
    induction m with
    | zero =>
      intro i hi
      obtain rfl : i = v.rangeCount := hi
      have hend : rangePage (tree.entries pageSize) s n v.rangeCount = s + n := by
        unfold rangePage
        omega
      rw [hend]
      exact .nil _
    | succ m ih =>
      intro i hi
      have hin := hbefore i (by omega)
      have hdiv := rangePage_div hents hin
      have hmod := Nat.div_add_mod (rangePage (tree.entries pageSize) s n i) (tree.entries pageSize)
      have hnext : s < (s / tree.entries pageSize + (i + 1)) * tree.entries pageSize :=
        lt_block hents (Nat.succ_pos i)
      have hmul : (s / tree.entries pageSize + (i + 1)) * tree.entries pageSize =
          (s / tree.entries pageSize + i) * tree.entries pageSize + tree.entries pageSize :=
        Nat.succ_mul _ _
      have hlt : rangePage (tree.entries pageSize) s n i <
          rangePage (tree.entries pageSize) s n (i + 1) := by
        unfold rangePage
        omega
      have hle : rangePage (tree.entries pageSize) s n (i + 1) ≤
          (s / tree.entries pageSize + i) * tree.entries pageSize + tree.entries pageSize := by
        unfold rangePage
        omega
      rw [List.range'_succ, List.map_cons, RangeVec.rangeSize, rangeStart_eq hfits hn hin,
        rangeEnd_eq hfits hn hin, ← Nat.sub_mul, getPtes_eq hfits (Nat.sub_pos_of_lt hlt)]
      · refine .cons (Nat.sub_pos_of_lt hlt) ?_ ?_
        · rw [hdiv, Nat.mul_comm] at hmod
          omega
        · rw [Nat.add_sub_cancel' (Nat.le_of_lt hlt)]
          exact ih (i + 1) (by omega)
      · rw [hdiv, Nat.mul_comm] at hmod
        omega
  have hfirst : rangePage (tree.entries pageSize) s n 0 = s := by
    rw [rangePage, Nat.add_zero, Nat.max_eq_left (Nat.div_mul_le_self _ _)]
    omega
  have hall := hchain v.rangeCount 0 (Nat.zero_add _)
  rw [hfirst, ← List.range_eq_range'] at hall
  exact hall

end Vec


/-! ## One push -/

theorem writePtesLoop_eq {Pte : Type*} {entrySize : ℕ} (hsize : 0 < maxInlineDataSize / entrySize) :
    ∀ (fuel firstPte : ℕ) (ptes : List Pte) (entryCount : ℕ), entryCount ≤ fuel →
      entryCount ≤ ptes.length →
      writePtesLoop entrySize fuel firstPte ptes entryCount =
        (ptes.take entryCount).mapIdx fun i pte => (firstPte + i * entrySize, pte) := by
  intro fuel
  induction fuel with
  | zero =>
    intro firstPte ptes entryCount hfuel _
    obtain rfl := Nat.le_zero.mp hfuel
    rfl
  | succ fuel ih =>
    intro firstPte ptes entryCount hfuel hlength
    simp only [writePtesLoop]
    split
    · next hzero =>
      rw [hzero, List.take_zero]
      rfl
    · next hzero =>
      set m := min (maxInlineDataSize / entrySize) entryCount with hm
      rw [ih _ _ _ (by omega) (by rw [List.length_drop]; omega)]
      have htake : ptes.take entryCount = ptes.take m ++ (ptes.drop m).take (entryCount - m) := by
        rw [← List.take_add, Nat.add_sub_cancel' (Nat.min_le_right _ _)]
      have hlen : (ptes.take m).length = m := by
        rw [List.length_take]
        omega
      rw [htake, List.mapIdx_append, hlen]
      congr 2
      funext i pte
      rw [Nat.add_mul, Nat.add_right_comm, Nat.add_assoc]

/-! ## The loops -/

namespace Call

variable {Pte : Type*} {c : Call Pte} {s n f : ℕ}

/-- The bounds of a call in pages: the first page of the range, the number of pages, and the first
page of the allocation. -/
structure Pages (c : Call Pte) (s n f : ℕ) : Prop where
  fits : c.tree.Fits c.memInfo.pageSize
  start : c.vaRange.start = s * c.memInfo.pageSize
  size : c.vaRange.size = n * c.memInfo.pageSize
  pos : 0 < n
  offset : c.mapOffset = f * c.memInfo.pageSize

def target (c : Call Pte) (k : ℕ) : ℕ × Pte :=
  (c.tree.pteAddress c.memInfo.pageSize (c.vaRange.start + k * c.memInfo.pageSize),
    c.pteOf (c.mapOffset + k * c.memInfo.pageSize))

/-- The PTE buffer, and what was asked of RM, once some pages of a call are mapped.  The offset of page
`k` is that of page `f + k` of the allocation. -/
structure Buffered (c : Call Pte) (n f k : ℕ) (b : PteBuffer Pte) (effects : List (Effect Pte)) :
    Prop where
  pageSize : b.pageSize = c.memInfo.pageSize
  pteSize : b.pteSize = c.tree.pteSize c.memInfo.pageSize
  bufferSize : b.bufferSize = c.pteBufferInit.bufferSize
  maxPteOffset : b.maxPteOffset = f + n
  /-- The buffer holds the PTEs of its window. -/
  window : ∀ j < b.numPtes, b.pteBuffer[j]? =
    some (c.pteOf ((b.pteOffset + j) * c.memInfo.pageSize))
  /-- The window was asked of RM. -/
  fetched : b.numPtes = 0 ∨ .getRmPtes (b.pteOffset * c.memInfo.pageSize)
    (b.numPtes * c.memInfo.pageSize) ∈ effects
  /-- RM was asked for every page whose offset does not wrap. -/
  covered : ∀ j < k, (f + j) * c.memInfo.pageSize < 2 ^ 64 → ∃ mapOffset mapSize,
    .getRmPtes mapOffset mapSize ∈ effects ∧
      (f + j + 1) * c.memInfo.pageSize ≤ mapOffset + mapSize
  asked : (f + n) * c.memInfo.pageSize < 2 ^ 64 → ∀ mapOffset mapSize,
    .getRmPtes mapOffset mapSize ∈ effects →
      mapOffset + mapSize ≤ (f + n) * c.memInfo.pageSize

/-- What is pushed once some pages of a call are mapped. -/
structure Written (c : Call Pte) (n f k : ℕ) (effects : List (Effect Pte)) : Prop where
  writes : (f + n) * c.memInfo.pageSize < 2 ^ 64 →
    effects.flatMap Effect.writes = (List.range k).map c.target
  quiet : k < n → ∀ e ∈ effects, e.invalidate = none
  invalidated : k = n → ∃ before writes, effects = before ++
    [.push writes (some (c.vaRange.start, c.vaRange.size))] ∧ ∀ e ∈ before, e.invalidate = none

variable {b : PteBuffer Pte} {effects : List (Effect Pte)} {k : ℕ}

theorem Buffered.push (h : c.Buffered n f k b effects) (writes : List (ℕ × Pte))
    (invalidate : Option (ℕ × ℕ)) :
    c.Buffered n f k b (effects ++ [.push writes invalidate]) where
  pageSize := h.pageSize
  pteSize := h.pteSize
  bufferSize := h.bufferSize
  maxPteOffset := h.maxPteOffset
  window := h.window
  fetched := h.fetched.imp_right (List.mem_append_left _)
  covered j hj hwrap := by
    obtain ⟨mapOffset, mapSize, hask, hle⟩ := h.covered j hj hwrap
    exact ⟨mapOffset, mapSize, List.mem_append_left _ hask, hle⟩
  asked hwrap mapOffset mapSize hask := by
    rcases List.mem_append.mp hask with hask | hask
    · exact h.asked hwrap mapOffset mapSize hask
    · cases List.mem_singleton.mp hask

theorem Buffered.get (hp : c.Pages s n f) {m : ℕ} {b' : PteBuffer Pte} {asked : List (Effect Pte)}
    {ptes : List Pte} (h : c.Buffered n f k b effects) (hm : 0 < m) (hkm : k + m ≤ n)
    (hfit : m ≤ c.pteBufferInit.bufferSize / c.tree.pteSize c.memInfo.pageSize) {mapOffset : ℕ}
    (hoff : mapOffset = (f + k) * c.memInfo.pageSize % 2 ^ 64)
    (hget : c.pteBufferGet b mapOffset (m * c.memInfo.pageSize) = (b', asked, some ptes)) :
    c.Buffered n f (k + m) b' (effects ++ asked) ∧
      (∀ e ∈ asked, e.writes = [] ∧ e.invalidate = none) ∧
      ((f + n) * c.memInfo.pageSize < 2 ^ 64 →
        ptes.take m = (List.range m).map fun j => c.pteOf ((f + k + j) * c.memInfo.pageSize)) := by
  have hpos : 0 < c.memInfo.pageSize := Nat.lt_of_lt_of_le Nat.zero_lt_two hp.fits.two_le
  -- the offset is a page of the allocation, after a wrap another one
  obtain ⟨q, hq, hnowrap⟩ : ∃ q, mapOffset = q * c.memInfo.pageSize ∧
      ((f + k) * c.memInfo.pageSize < 2 ^ 64 → q = f + k) := by
    obtain ⟨w, hw⟩ := hp.fits.dvd
    refine ⟨(f + k) % w, ?_, fun hlt => Nat.mod_eq_of_lt ?_⟩
    · rw [hoff, hw, Nat.mul_comm _ w, Nat.mul_mod_mul_right]
    · rw [hw, Nat.mul_comm] at hlt
      exact Nat.lt_of_mul_lt_mul_left hlt
  simp only [pteBufferGet, h.pageSize, hq, Nat.mul_div_cancel _ hpos] at hget
  split at hget
  · -- the chunk is in the window
    next hcached =>
    obtain ⟨rfl, rfl, rfl⟩ : b = b' ∧ [] = asked ∧ b.pteBuffer.drop (q - b.pteOffset) = ptes := by
      simpa using hget
    rw [List.append_nil]
    refine ⟨⟨h.pageSize, h.pteSize, h.bufferSize, h.maxPteOffset, h.window, h.fetched,
      fun j hj hwrap => ?_, h.asked⟩, nofun, fun hwrap => ?_⟩
    · by_cases hjk : j < k
      · exact h.covered j hjk hwrap
      · have hfirst := hnowrap (Nat.lt_of_le_of_lt (Nat.mul_le_mul_right _ (by omega)) hwrap)
        rcases h.fetched with hnone | hask
        · omega
        · refine ⟨_, _, hask, ?_⟩
          rw [← Nat.add_mul]
          exact Nat.mul_le_mul_right _ (by omega)
    · have hfirst := hnowrap (Nat.lt_of_le_of_lt (Nat.mul_le_mul_right _ (by omega)) hwrap)
      refine List.ext_getElem? fun j => ?_
      by_cases hj : j < m
      · rw [List.getElem?_take_of_lt hj, List.getElem?_drop, h.window _ (by omega),
          List.getElem?_map, List.getElem?_range hj, Option.map_some]
        congr 3
        omega
      · rw [List.getElem?_eq_none (by rw [List.length_take]; omega),
          List.getElem?_eq_none (by rw [List.length_map, List.length_range]; omega)]
  · -- RM is asked for as many PTEs as there are, or as fit
    next hcached =>
    rw [h.bufferSize, h.pteSize, h.maxPteOffset] at hget
    set count := min (c.pteBufferInit.bufferSize / c.tree.pteSize c.memInfo.pageSize) (f + n - q)
      with hcnt
    cases hrm : c.getRmPtes (q * c.memInfo.pageSize) count with
    | none =>
      rw [hrm] at hget
      cases hget
    | some fetched =>
      rw [hrm] at hget
      simp only [Prod.mk.injEq, Option.some.injEq] at hget
      obtain ⟨rfl, rfl, rfl⟩ := hget
      have hfetched : fetched = (List.range count).map fun j =>
          c.pteOf ((q + j) * c.memInfo.pageSize) := by
        unfold getRmPtes at hrm
        split at hrm
        · rw [← Option.some.inj hrm]
          refine List.map_congr_left fun j _ => ?_
          rw [Nat.add_mul]
        · cases hrm
      have hfetch : ∀ j < count, fetched[j]? = some (c.pteOf ((q + j) * c.memInfo.pageSize)) := by
        intro j hj
        rw [hfetched, List.getElem?_map, List.getElem?_range hj, Option.map_some]
      refine ⟨⟨rfl, rfl, rfl, rfl, hfetch,
        .inr (List.mem_append_right _ (List.mem_singleton.mpr rfl)), fun j hj hwrap => ?_,
        fun hwrap offset size hask => ?_⟩, fun e he => ?_, fun hwrap => ?_⟩
      · by_cases hjk : j < k
        · obtain ⟨offset, size, hask, hle⟩ := h.covered j hjk hwrap
          exact ⟨offset, size, List.mem_append_left _ hask, hle⟩
        · have hfirst := hnowrap (Nat.lt_of_le_of_lt (Nat.mul_le_mul_right _ (by omega)) hwrap)
          refine ⟨_, _, List.mem_append_right _ (List.mem_singleton.mpr rfl), ?_⟩
          rw [← Nat.add_mul]
          exact Nat.mul_le_mul_right _ (by omega)
      · have hfirst := hnowrap (Nat.lt_of_le_of_lt (Nat.mul_le_mul_right _ (by omega)) hwrap)
        rcases List.mem_append.mp hask with hask | hask
        · exact h.asked hwrap offset size hask
        · cases List.mem_singleton.mp hask
          rw [← Nat.add_mul]
          exact Nat.mul_le_mul_right _ (by omega)
      · obtain rfl := List.mem_singleton.mp he
        exact ⟨rfl, rfl⟩
      · have hfirst := hnowrap (Nat.lt_of_le_of_lt (Nat.mul_le_mul_right _ (by omega)) hwrap)
        refine List.ext_getElem? fun j => ?_
        by_cases hj : j < m
        · rw [List.getElem?_take_of_lt hj, hfetch j (by omega), List.getElem?_map,
            List.getElem?_range hj, Option.map_some, hfirst]
        · rw [List.getElem?_eq_none (by rw [List.length_take]; omega),
            List.getElem?_eq_none (by rw [List.length_map, List.length_range]; omega)]

theorem Written.push {m : ℕ} {asked : List (Effect Pte)} (h : c.Written n f k effects) (hkn : k < n)
    (hquiet : ∀ e ∈ asked, e.writes = [] ∧ e.invalidate = none) {writes : List (ℕ × Pte)}
    {invalidate : Option (ℕ × ℕ)} (hwrites : (f + n) * c.memInfo.pageSize < 2 ^ 64 →
      writes = (List.range m).map fun j => c.target (k + j))
    (hlast : k + m = n → invalidate = some (c.vaRange.start, c.vaRange.size))
    (hbefore : k + m < n → invalidate = none) :
    c.Written n f (k + m) (effects ++ asked ++ [.push writes invalidate]) := by
  have hnone : ∀ e ∈ effects ++ asked, e.invalidate = none := by
    intro e he
    rcases List.mem_append.mp he with he | he
    · exact h.quiet hkn e he
    · exact (hquiet e he).2
  refine ⟨fun hwrap => ?_, fun hlt e he => ?_, fun heq => ?_⟩
  · have hasked : asked.flatMap Effect.writes = [] :=
      List.flatMap_eq_nil_iff.mpr fun e he => (hquiet e he).1
    rw [List.flatMap_append, List.flatMap_append, h.writes hwrap, hasked, List.append_nil,
      List.range_add, List.map_append, List.map_map]
    refine congrArg _ ?_
    rw [List.flatMap_singleton]
    exact hwrites hwrap
  · rcases List.mem_append.mp he with he | he
    · exact hnone e he
    · obtain rfl := List.mem_singleton.mp he
      exact hbefore hlt
  · exact ⟨effects ++ asked, writes, by rw [hlast heq], hnone⟩

theorem Pages.last_eq (hp : c.Pages s n f) : c.vaRange.last = (s + n) * c.memInfo.pageSize - 1 := by
  have hsize := hp.size
  have hle := c.vaRange.le
  rw [VaRange.size, hp.start] at hsize
  rw [hp.start] at hle
  rw [Nat.add_mul]
  omega

theorem Pages.writePtes_eq (hp : c.Pages s n f) {m pteAddr : ℕ} {ptes : List Pte}
    (hpte : ∀ j < m, pteAddr + j * c.tree.pteSize c.memInfo.pageSize = (c.target (k + j)).1)
    (hptes : ptes.take m =
      (List.range m).map fun j => c.pteOf ((f + k + j) * c.memInfo.pageSize)) :
    writePtes pteAddr ptes (c.tree.pteSize c.memInfo.pageSize) m =
      (List.range m).map fun j => c.target (k + j) := by
  have hlength : m ≤ ptes.length := by
    have hlen := congrArg List.length hptes
    rw [List.length_take, List.length_map, List.length_range] at hlen
    omega
  have hinline : 0 < maxInlineDataSize / c.tree.pteSize c.memInfo.pageSize := by
    rcases hp.fits.pteSize with heq | heq <;> rw [heq] <;> decide
  rw [writePtes, writePtesLoop_eq hinline _ _ _ _ (Nat.le_refl m) hlength, hptes]
  refine List.ext_getElem? fun j => ?_
  rw [List.getElem?_mapIdx, List.getElem?_map, List.getElem?_map]
  by_cases hj : j < m
  · rw [List.getElem?_range hj, Option.map_some, Option.map_some, Option.map_some, hpte j hj]
    refine congrArg _ (Prod.ext rfl ?_)
    change _ = c.pteOf _
    rw [hp.offset, ← Nat.add_mul, Nat.add_assoc]
  · rw [List.getElem?_eq_none (by rw [List.length_range]; omega)]
    rfl

theorem mapLoop_spec (hp : c.Pages s n f) {maxPtes last : ℕ} (hmax : 0 < maxPtes)
    (hbuffer : maxPtes ≤ c.pteBufferInit.bufferSize / c.tree.pteSize c.memInfo.pageSize) :
    ∀ (fuel k r : ℕ) (cur cur' : Cursor Pte), c.Buffered n f k cur.buffer cur.effects →
      c.Written n f k cur.effects → r ≤ fuel → k + r ≤ n →
      cur.addr = (s + k) * c.memInfo.pageSize →
      cur.mapOffset = (f + k) * c.memInfo.pageSize % 2 ^ 64 → cur.ptesLeft = r →
      (∀ j < r, cur.pteAddr + j * c.tree.pteSize c.memInfo.pageSize = (c.target (k + j)).1) →
      last = (s + k + r) * c.memInfo.pageSize - 1 →
      c.mapLoop maxPtes last fuel cur = (cur', true) →
      c.Buffered n f (k + r) cur'.buffer cur'.effects ∧ c.Written n f (k + r) cur'.effects := by
  have htwo := hp.fits.two_le
  intro fuel
  induction fuel with
  | zero =>
    intro k r cur cur' hb hw hfuel _ _ _ _ _ _ hrun
    obtain rfl := Nat.le_zero.mp hfuel
    obtain rfl : cur = cur' := (Prod.mk.inj hrun).1
    exact ⟨hb, hw⟩
  | succ fuel ih =>
    intro k r cur cur' hb hw hfuel hkr haddr hoff hleft hpte hlast hrun
    rcases Nat.eq_zero_or_pos r with rfl | hr
    · have hdone : ¬cur.addr < last := by
        rw [haddr, hlast, Nat.add_zero]
        omega
      rw [mapLoop, if_neg hdone] at hrun
      obtain rfl : cur = cur' := (Prod.mk.inj hrun).1
      exact ⟨hb, hw⟩
    · have hmore : cur.addr < last := by
        have hmul : (s + k + 1) * c.memInfo.pageSize ≤ (s + k + r) * c.memInfo.pageSize :=
          Nat.mul_le_mul_right _ (by omega)
        rw [Nat.succ_mul] at hmul
        omega
      rw [mapLoop, if_pos hmore] at hrun
      have hm : 0 < min maxPtes cur.ptesLeft := by omega
      have hmr : min maxPtes cur.ptesLeft ≤ r := by omega
      have hfit := Nat.le_trans (Nat.min_le_left maxPtes cur.ptesLeft) hbuffer
      have hstep : k + r = k + min maxPtes cur.ptesLeft + (r - min maxPtes cur.ptesLeft) := by omega
      generalize hcnt : min maxPtes cur.ptesLeft = m at hrun hm hmr hfit hstep
      dsimp only at hrun
      obtain ⟨b', asked, got, hget⟩ : ∃ b' asked got, c.pteBufferGet cur.buffer cur.mapOffset
          (m * c.memInfo.pageSize) = (b', asked, got) := ⟨_, _, _, rfl⟩
      rw [hget] at hrun
      cases got with
      | none => cases (Prod.mk.inj hrun).2
      | some ptes =>
        obtain ⟨hb', hquiet, hptes⟩ := hb.get hp hm (by omega) hfit hoff hget
        dsimp only [copyPtes] at hrun
        cases hpush : c.outcomes.pushBegin cur.addr with
        | false =>
          rw [hpush] at hrun
          cases (Prod.mk.inj hrun).2
        | true =>
          rw [hpush, if_pos rfl] at hrun
          rw [hstep]
          refine ih (k + m) (r - m) _ cur' ?_ ?_ (by omega) (by omega) ?_ ?_ ?_ ?_ ?_ hrun
          · exact hb'.push _ _
          · refine hw.push (by omega) hquiet (fun hwrap => ?_) (fun heq => ?_) fun hlt => ?_
            · exact hp.writePtes_eq (fun j hj => hpte j (Nat.lt_of_lt_of_le hj hmr)) (hptes hwrap)
            · have hend : cur.addr + m * c.memInfo.pageSize - 1 = c.vaRange.last := by
                rw [haddr, ← Nat.add_mul, Nat.add_assoc, heq, hp.last_eq]
              rw [if_pos (decide_eq_true hend)]
              rfl
            · have hend : cur.addr + m * c.memInfo.pageSize - 1 ≠ c.vaRange.last := by
                have hmul : (s + k + m + 1) * c.memInfo.pageSize ≤ (s + n) * c.memInfo.pageSize :=
                  Nat.mul_le_mul_right _ (by omega)
                rw [Nat.succ_mul] at hmul
                rw [haddr, ← Nat.add_mul, hp.last_eq]
                omega
              rw [if_neg fun heq => hend (of_decide_eq_true heq)]
          · change cur.addr + m * c.memInfo.pageSize = _
            rw [haddr, ← Nat.add_mul, Nat.add_assoc]
          · change (cur.mapOffset + m * c.memInfo.pageSize) % 2 ^ 64 = _
            rw [hoff, Nat.mod_add_mod, ← Nat.add_mul, Nat.add_assoc]
          · change cur.ptesLeft - m = r - m
            rw [hleft]
          · intro j hj
            rw [Nat.add_assoc, ← Nat.add_mul, hpte (m + j) (by omega), Nat.add_assoc]
          · have hsum : s + k + r = s + (k + m) + (r - m) := by omega
            rw [hlast, hsum]

theorem Pages.target_fst (hp : c.Pages s n f) {count j : ℕ}
    (hfit : (s + k) % c.tree.entries c.memInfo.pageSize + count ≤
      c.tree.entries c.memInfo.pageSize) (hj : j < count) :
    (c.target (k + j)).1 =
      c.tree.tableAddress ((s + k) / c.tree.entries c.memInfo.pageSize) +
        ((s + k) % c.tree.entries c.memInfo.pageSize + j) * c.tree.pteSize c.memInfo.pageSize := by
  change c.tree.pteAddress _ _ = _
  rw [hp.start, ← Nat.add_mul, ← Nat.add_assoc, pteAddress_eq hp.fits hfit hj]

theorem Pages.bufferPtes_pos (hp : c.Pages s n f) :
    0 < c.pteBufferInit.bufferSize / c.tree.pteSize c.memInfo.pageSize := by
  have hpos : 0 < c.memInfo.pageSize := Nat.lt_of_lt_of_le Nat.zero_lt_two hp.fits.two_le
  have hn := hp.pos
  change 0 < min maxPteBufferSize (c.vaRange.size / c.memInfo.pageSize *
    c.tree.pteSize c.memInfo.pageSize) / c.tree.pteSize c.memInfo.pageSize
  rw [hp.size, Nat.mul_div_cancel _ hpos]
  rcases hp.fits.pteSize with heq | heq <;> rw [heq, maxPteBufferSize] <;> omega

theorem mapRmPtRange_spec (hp : c.Pages s n f) {count mapOffset : ℕ} {cur' : Cursor Pte}
    (hb : c.Buffered n f k b effects) (hw : c.Written n f k effects) (hkn : k + count ≤ n)
    (hfit : (s + k) % c.tree.entries c.memInfo.pageSize + count ≤
      c.tree.entries c.memInfo.pageSize) (hoff : mapOffset = (f + k) * c.memInfo.pageSize % 2 ^ 64)
    (hrun : c.mapRmPtRange ⟨(s + k) / c.tree.entries c.memInfo.pageSize,
      (s + k) % c.tree.entries c.memInfo.pageSize, count, c.memInfo.pageSize⟩ b effects
      ((s + k) * c.memInfo.pageSize) mapOffset = (cur', true)) :
    c.Buffered n f (k + count) cur'.buffer cur'.effects ∧
      c.Written n f (k + count) cur'.effects := by
  have hpos : 0 < c.memInfo.pageSize := Nat.lt_of_lt_of_le Nat.zero_lt_two hp.fits.two_le
  have hents : 0 < c.tree.entries c.memInfo.pageSize := Nat.two_pow_pos _
  have hcopy : 0 < maxCopySizePerPush / c.tree.pteSize c.memInfo.pageSize := by
    rcases hp.fits.pteSize with heq | heq <;> rw [heq] <;> decide
  have hbuffer := hp.bufferPtes_pos
  simp only [mapRmPtRange, PageTableRange.size, PageTree.pdeCoverage,
    Nat.mul_div_cancel _ hpos, hb.bufferSize] at hrun
  refine mapLoop_spec hp (by omega) (by omega) count k count _ cur' hb hw (Nat.le_refl _) hkn rfl
    hoff rfl (fun j hj => ?_) ?_ hrun
  · rw [hp.target_fst hfit hj]
    simp only [entryAddress]
    rw [Nat.add_assoc, ← Nat.add_mul, Nat.add_zero]
  · rw [← Nat.add_mul]

theorem mapRanges_spec (hp : c.Pages s n f) {p q : ℕ} {ranges : List PageTableRange}
    (hchain : Chain c.tree c.memInfo.pageSize p q ranges) :
    ∀ {k mapOffset : ℕ} {b : PteBuffer Pte} {effects effects' : List (Effect Pte)},
      p = s + k → q = s + n → k ≤ n → c.Buffered n f k b effects → c.Written n f k effects →
      mapOffset = (f + k) * c.memInfo.pageSize % 2 ^ 64 →
      c.mapRanges ranges b effects ((s + k) * c.memInfo.pageSize) mapOffset = (effects', true) →
      ∃ b', c.Buffered n f n b' effects' ∧ c.Written n f n effects' := by
  induction hchain with
  | nil p =>
    intro k mapOffset b effects effects' hpk hpn hkn hb hw hoff hrun
    obtain rfl : k = n := by omega
    obtain rfl : effects = effects' := (Prod.mk.inj hrun).1
    exact ⟨b, hb, hw⟩
  | @cons p q count ranges hcnt hfit hrest ih =>
    rintro k mapOffset b effects effects' rfl hpn hkn hb hw hoff hrun
    have hle : k + count ≤ n := by
      have hmono := hrest.le
      omega
    rw [mapRanges] at hrun
    obtain ⟨cur, done, hrange⟩ : ∃ cur done, c.mapRmPtRange
        ⟨(s + k) / c.tree.entries c.memInfo.pageSize, (s + k) % c.tree.entries c.memInfo.pageSize,
          count, c.memInfo.pageSize⟩ b effects ((s + k) * c.memInfo.pageSize) mapOffset =
        (cur, done) := ⟨_, _, rfl⟩
    rw [hrange] at hrun
    cases done with
    | false => cases (Prod.mk.inj hrun).2
    | true =>
      obtain ⟨hb', hw'⟩ := mapRmPtRange_spec hp hb hw hle hfit hoff hrange
      dsimp only [PageTableRange.size] at hrun
      rw [← Nat.add_mul, Nat.add_assoc] at hrun
      refine ih (Nat.add_assoc _ _ _) hpn hle hb' hw' ?_ hrun
      rw [hoff, Nat.mod_add_mod, ← Nat.add_mul, Nat.add_assoc]

/-! ## The call -/

theorem accepted (hok : c.uvmVaRangeMapRmAllocation = (.ok, effects)) :
    c.memInfo.pageSize &&& c.tree.hal.pageSizes ≠ 0 ∧
      c.vaRange.start % c.memInfo.pageSize = 0 ∧ c.vaRange.size % c.memInfo.pageSize = 0 ∧
      c.mapOffset % c.memInfo.pageSize = 0 ∧
      (c.mapOffset + c.vaRange.size) % 2 ^ 64 ≤ c.memInfo.size ∧
      c.mapRanges (RangeVec.ranges ⟨c.tree, c.memInfo.pageSize, c.vaRange.start, c.vaRange.size⟩)
        c.pteBufferInit [] c.vaRange.start c.mapOffset = (effects, true) := by
  unfold uvmVaRangeMapRmAllocation at hok
  dsimp only at hok
  split at hok
  · cases (Prod.mk.inj hok).1
  next hsupported =>
  split at hok
  · cases (Prod.mk.inj hok).1
  next halign =>
  split at hok
  · cases (Prod.mk.inj hok).1
  next hoff =>
  split at hok
  · cases (Prod.mk.inj hok).1
  split at hok
  · cases (Prod.mk.inj hok).1
  split at hok
  · cases (Prod.mk.inj hok).1
  rw [not_not] at halign
  rw [not_or, not_not, Nat.not_lt] at hoff
  refine ⟨hsupported, halign.1, halign.2, hoff.1, hoff.2, ?_⟩
  split at hok
  · next hrun =>
    split at hok
    · rw [hrun, (Prod.mk.inj hok).2]
    · cases (Prod.mk.inj hok).1
  · cases (Prod.mk.inj hok).1

/-- **A mapping that succeeds is right if and only if the offset and the size do not wrap.** -/
theorem mapsRight_iff {effects : List (Effect Pte)}
    (hok : c.uvmVaRangeMapRmAllocation = (.ok, effects)) :
    c.MapsRight effects ↔ c.mapOffset + c.vaRange.size < 2 ^ 64 := by
  obtain ⟨hsupported, hstart, hsize, hoff, hcheck, hrun⟩ := accepted hok
  have hfits : c.tree.Fits c.memInfo.pageSize := fits c.memInfo.isPow hsupported
  have hpos : 0 < c.memInfo.pageSize := Nat.lt_of_lt_of_le Nat.zero_lt_two hfits.two_le
  obtain ⟨s, hs⟩ := Nat.dvd_of_mod_eq_zero hstart
  obtain ⟨n, hn⟩ := Nat.dvd_of_mod_eq_zero hsize
  obtain ⟨f, hf⟩ := Nat.dvd_of_mod_eq_zero hoff
  rw [Nat.mul_comm] at hs hn hf
  have hpages : c.Pages s n f := by
    refine ⟨hfits, hs, hn, Nat.pos_of_ne_zero fun hzero => ?_, hf⟩
    rw [hzero, Nat.zero_mul] at hn
    exact Nat.succ_ne_zero _ hn
  have hinit : c.Buffered n f 0 c.pteBufferInit [] := by
    refine ⟨rfl, rfl, rfl, ?_, nofun, .inl rfl, nofun, nofun⟩
    change c.mapOffset / c.memInfo.pageSize + c.vaRange.size / c.memInfo.pageSize = f + n
    rw [hf, hn, Nat.mul_div_cancel _ hpos, Nat.mul_div_cancel _ hpos]
  have hnone : c.Written n f 0 [] :=
    ⟨fun _ => rfl, fun _ => nofun, fun heq => absurd heq (Nat.ne_of_lt hpages.pos)⟩
  rw [hs, hn] at hrun
  obtain ⟨b, hb, hw⟩ := mapRanges_spec hpages (ranges_chain hfits hpages.pos) rfl rfl
    (Nat.zero_le n) hinit hnone (by rw [Nat.add_zero, ← hf, Nat.mod_eq_of_lt c.mapOffset_lt]) hrun
  have hsum : c.mapOffset + c.vaRange.size = (f + n) * c.memInfo.pageSize := by
    rw [hf, hn, Nat.add_mul]
  rw [hsum] at hcheck ⊢
  constructor
  · intro hright
    by_contra hwrap
    -- the last page before the wrap was asked for
    obtain ⟨w, hw64⟩ := hfits.dvd
    rw [Nat.mul_comm] at hw64
    have hfw : f < w := by
      have hlt := c.mapOffset_lt
      rw [hf, hw64] at hlt
      exact Nat.lt_of_mul_lt_mul_right hlt
    have hwn : w ≤ f + n := by
      rw [hw64] at hwrap
      exact Nat.le_of_mul_le_mul_right (Nat.le_of_not_lt hwrap) hpos
    have hlast : (f + (w - 1 - f)) * c.memInfo.pageSize < 2 ^ 64 := by
      rw [hw64]
      exact Nat.mul_lt_mul_of_pos_right (by omega) hpos
    obtain ⟨mapOffset, mapSize, hask, hle⟩ := hb.covered (w - 1 - f) (by omega) hlast
    have hinside := hright.asked mapOffset mapSize hask
    have hend : (f + (w - 1 - f) + 1) * c.memInfo.pageSize = 2 ^ 64 := by
      rw [hw64]
      refine congrArg (· * c.memInfo.pageSize) ?_
      omega
    have hsize64 := c.memInfo.inNvU64
    omega
  · intro hwrap
    rw [Nat.mod_eq_of_lt hwrap] at hcheck
    refine ⟨?_, fun mapOffset mapSize hask => ?_, hw.invalidated rfl⟩
    · rw [hw.writes hwrap, hn, Nat.mul_div_cancel _ hpos]
      rfl
    · exact Nat.le_trans (hb.asked hwrap mapOffset mapSize hask) hcheck

/-- Two pages of 4K at an offset of an allocation of 1M, on a Pascal GPU where nothing fails. -/
def twoPages (mapOffset : ℕ) (hlt : mapOffset < 2 ^ 64) : Call ℕ where
  tree := ⟨.pascal, fun table => table * 4096⟩
  vaRange := ⟨2097152, 2105343, by decide, by decide⟩
  memInfo := ⟨4096, 1048576, ⟨12, rfl⟩, ⟨256, rfl⟩, by decide⟩
  mapOffset := mapOffset
  mapOffset_lt := hlt
  pteOf := id
  outcomes := ⟨true, true, fun _ => true, true, fun _ => true, fun _ => true, true, true⟩

theorem mapsRight_iff_twoPages :
    (twoPages 8192 (by decide)).MapsRight (twoPages 8192 (by decide)).uvmVaRangeMapRmAllocation.2 :=
  (mapsRight_iff (Prod.ext (by decide) rfl)).mpr (by decide)

/-- **An offset one page below `2 ^ 64` is accepted**, and asked of RM. -/
theorem wrapping_offset_accepted :
    ¬∀ (c : Call ℕ) effects, c.uvmVaRangeMapRmAllocation = (.ok, effects) → c.MapsRight effects := by
  intro h
  have hright := h (twoPages (2 ^ 64 - 4096) (by decide)) _ (Prod.ext (by decide) rfl)
  have hinside := hright.asked (2 ^ 64 - 4096) 8192 (List.mem_cons_self ..)
  exact absurd hinside (by decide)

end Call

end NvUvm.MapExternal
