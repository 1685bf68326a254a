import NvUvm.MapExternalPtes

/-!
# Writing and clearing the PTEs of a vector of ranges

`uvm_page_table_range_vec_write_ptes` (`uvm8_mmu.c`) asks a PTE maker for every page of a vector of
page table ranges.  A batch of `uvm8_pte_batch.c` collects the PTEs of a push, and the last push
invalidates the TLB.  `uvm_page_table_range_vec_clear_ptes` clears the ranges with as few pushes as
have space.
-/

namespace NvUvm.MapExternal

variable {Pte : Type*}

/-- `uvm_pte_batch_t`: the PTEs of the queue or of the inline data, and the writes that are pushed. -/
structure PteBatch (Pte : Type*) where
  pteFirstAddress : ℕ := 0
  pteEntrySize : ℕ := 0
  ptes : List Pte := []
  pushed : List (ℕ × Pte) := []

namespace PteBatch

variable (b : PteBatch Pte)

/-- `uvm_pte_batch_flush_ptes`. -/
def flushPtes : PteBatch Pte :=
  { b with
    ptes := []
    pushed := b.pushed ++ b.ptes.mapIdx fun i pte => (b.pteFirstAddress + i * b.pteEntrySize, pte) }

/-- `uvm_pte_batch_write_pte`. -/
def writePte (pte : ℕ) (pteBits : Pte) (pteSize : ℕ) : PteBatch Pte :=
  let b := if (b.ptes.length + 1) * b.pteEntrySize > maxInlineDataSize ∨
      pte ≠ b.pteFirstAddress + b.ptes.length * pteSize ∨ b.pteEntrySize ≠ pteSize then
    { b.flushPtes with pteFirstAddress := pte, pteEntrySize := pteSize } else b
  { b with ptes := b.ptes ++ [pteBits] }

theorem writePte_flushPtes (pte : ℕ) (pteBits : Pte) (pteSize : ℕ) :
    (b.writePte pte pteBits pteSize).flushPtes.pushed = b.flushPtes.pushed ++ [(pte, pteBits)] := by
  unfold writePte
  dsimp only
  split
  · simp [flushPtes]
  · next hfits =>
    rw [not_or, not_or, not_not, not_not] at hfits
    obtain ⟨-, haddr, hsize⟩ := hfits
    simp [flushPtes, List.mapIdx_append, haddr, hsize]

end PteBatch

/-! ## The loops -/

/-- The variables of `uvm_page_table_range_vec_write_ptes`, with its pushes and the offsets that it
called the PTE maker for. -/
structure Writer (Pte : Type*) where
  effects : List (Effect Pte)
  called : List ℕ
  offset : ℕ
  entryAddr : ℕ

namespace RangeVec

variable (v : RangeVec) (pteMaker : ℕ → Pte) (pushBegin : ℕ → Bool)

def entrySize : ℕ := v.tree.pteSize v.pageSize

def maxEntriesPerPush : ℕ := maxCopySizePerPush / v.entrySize

/-- The loop over the entries of a push. -/
def writeEntries : ℕ → PteBatch Pte → Writer Pte → PteBatch Pte × Writer Pte
  | 0, batch, w => (batch, w)
  | count + 1, batch, w =>
    writeEntries count (batch.writePte w.entryAddr (pteMaker w.offset) v.entrySize)
      { w with
        called := w.called ++ [w.offset]
        offset := w.offset + v.pageSize
        entryAddr := w.entryAddr + v.entrySize }

/-- The loop over the pushes of a range, from an entry on; `false` is an error. -/
def writeRange (r : PageTableRange) (lastRange : Bool) : ℕ → ℕ → Writer Pte → Writer Pte × Bool
  | 0, _, w => (w, true)
  | fuel + 1, entry, w =>
    if entry < r.entryCount then
      if pushBegin w.effects.length then
        let entryLimitThisPush := min r.entryCount (entry + v.maxEntriesPerPush)
        let (batch, w) := v.writeEntries pteMaker (entryLimitThisPush - entry) {} w
        let lastPush := lastRange && decide (entryLimitThisPush = r.entryCount)
        let push := .push batch.flushPtes.pushed (if lastPush then some (v.start, v.size) else none)
        writeRange r lastRange fuel entryLimitThisPush { w with effects := w.effects ++ [push] }
      else (w, false)
    else (w, true)

/-- The loop over the ranges. -/
def writeRanges : List PageTableRange → Writer Pte → Writer Pte × Bool
  | [], w => (w, true)
  | r :: ranges, w =>
    match v.writeRange pteMaker pushBegin r ranges.isEmpty r.entryCount 0
      { w with entryAddr := entryAddress v.tree r 0 } with
    | (w, true) => writeRanges ranges w
    | (w, false) => (w, false)

/-- `uvm_page_table_range_vec_write_ptes`: what it did, and whether it succeeded. -/
def writePtes (trackerWait : Bool) : Writer Pte × Bool :=
  let r := v.writeRanges pteMaker pushBegin v.ranges ⟨[], [], 0, 0⟩
  (r.1, r.2 && trackerWait)

/-! ## What should be written -/

/-- The page that an entry of a range maps. -/
def vaddr (r : PageTableRange) (entry : ℕ) : ℕ :=
  (r.table * v.tree.entries v.pageSize + r.startIndex + entry) * v.pageSize

/-- The ranges are not empty, each in one page table, and take the pages of the interval in order. -/
structure Partitioned : Prop where
  nonempty : ∀ r ∈ v.ranges, 0 < r.entryCount
  onePde : ∀ r ∈ v.ranges, r.startIndex + r.entryCount ≤ v.tree.entries v.pageSize
  pages : (v.ranges.flatMap fun r => (List.range r.entryCount).map (v.vaddr r)) =
    (List.range (v.size / v.pageSize)).map fun k => v.start + k * v.pageSize

def target (k : ℕ) : ℕ × Pte :=
  (v.tree.pteAddress v.pageSize (v.start + k * v.pageSize), pteMaker (k * v.pageSize))

/-- The first pages are written: the PTE maker was called once for each in order, and what it gave was
written to the entry of the page. -/
structure Written (k : ℕ) (w : Writer Pte) : Prop where
  called : w.called = (List.range k).map (· * v.pageSize)
  writes : w.effects.flatMap Effect.writes = (List.range k).map (v.target pteMaker)
  offset : w.offset = k * v.pageSize

/-- The last effect is the push with the only TLB invalidate, which is of the interval. -/
def Invalidated (effects : List (Effect Pte)) : Prop :=
  ∃ before writes, effects = before ++ [.push writes (some (v.start, v.size))] ∧
    ∀ e ∈ before, e.invalidate = none

/-- What `uvm_page_table_range_vec_init` asserts of its arguments, and a page size of the GPU. -/
structure InitArgs : Prop where
  isPow : ∃ k, v.pageSize = 2 ^ k
  supported : v.pageSize &&& v.tree.hal.pageSizes ≠ 0
  start : v.pageSize ∣ v.start
  size : v.pageSize ∣ v.size
  size_ne : v.size ≠ 0

/-! ## The ranges -/

variable {v} {pteMaker} {pushBegin} {s n : ℕ}

theorem chain_pages {p q : ℕ} {ranges : List PageTableRange}
    (h : Chain v.tree v.pageSize p q ranges) :
    (∀ r ∈ ranges, 0 < r.entryCount ∧ r.startIndex + r.entryCount ≤ v.tree.entries v.pageSize) ∧
      (ranges.flatMap fun r => (List.range r.entryCount).map (v.vaddr r)) =
        (List.range' p (q - p)).map (· * v.pageSize) := by
  induction h with
  | nil p => simp
  | @cons p q count ranges hcnt hfit hrest ih =>
    refine ⟨List.forall_mem_cons.mpr ⟨⟨hcnt, hfit⟩, ih.1⟩, ?_⟩
    have hlen : q - p = count + (q - (p + count)) := by
      have hle := hrest.le
      omega
    have hfirst : List.range' p count = (List.range count).map (p + ·) :=
      List.range'_eq_map_range ..
    rw [List.flatMap_cons, ih.2, hlen, ← List.range'_append_1, List.map_append, hfirst,
      List.map_map]
    refine congrArg (· ++ _) (List.map_congr_left fun e _ => ?_)
    simp only [vaddr, Nat.div_add_mod', Function.comp_apply]

theorem pteAddress_range (hfits : v.tree.Fits v.pageSize) {p count j : ℕ}
    (hfit : p % v.tree.entries v.pageSize + count ≤ v.tree.entries v.pageSize) (hj : j < count) :
    v.tree.pteAddress v.pageSize ((p + j) * v.pageSize) = entryAddress v.tree
      ⟨p / v.tree.entries v.pageSize, p % v.tree.entries v.pageSize, count, v.pageSize⟩ 0 +
        j * v.entrySize := by
  rw [pteAddress_eq hfits hfit hj, Nat.add_mul, ← Nat.add_assoc]
  rfl

/-! ## The pushes -/

theorem writeEntries_spec (count : ℕ) (batch : PteBatch Pte) (w : Writer Pte) :
    (v.writeEntries pteMaker count batch w).1.flushPtes.pushed = batch.flushPtes.pushed ++
        (List.range count).map (fun j =>
          (w.entryAddr + j * v.entrySize, pteMaker (w.offset + j * v.pageSize))) ∧
      (v.writeEntries pteMaker count batch w).2 =
        { w with
          called := w.called ++ (List.range count).map (w.offset + · * v.pageSize)
          offset := w.offset + count * v.pageSize
          entryAddr := w.entryAddr + count * v.entrySize } := by
  induction count generalizing batch w with
  | zero => simp [writeEntries]
  | succ count ih =>
    obtain ⟨hpushed, hw⟩ := ih (batch.writePte w.entryAddr (pteMaker w.offset) v.entrySize)
      { w with
        called := w.called ++ [w.offset]
        offset := w.offset + v.pageSize
        entryAddr := w.entryAddr + v.entrySize }
    rw [writeEntries, hpushed, hw, PteBatch.writePte_flushPtes, List.range_succ_eq_map]
    simp [Function.comp_def, Nat.succ_mul, Nat.add_assoc, Nat.add_comm, Nat.add_left_comm]

variable {w : Writer Pte}

theorem Written.push {k m : ℕ} (h : v.Written pteMaker k w)
    (haddr : ∀ j < m, (v.target pteMaker (k + j)).1 = w.entryAddr + j * v.entrySize)
    (invalidate : Option (ℕ × ℕ)) (entryAddr : ℕ) :
    v.Written pteMaker (k + m)
      ⟨w.effects ++ [.push (v.writeEntries pteMaker m {} w).1.flushPtes.pushed invalidate],
        w.called ++ (List.range m).map (w.offset + · * v.pageSize), w.offset + m * v.pageSize,
        entryAddr⟩ := by
  rw [(writeEntries_spec m {} w).1]
  refine ⟨?_, ?_, ?_⟩
  · simp [h.called, h.offset, List.range_add, Nat.add_mul, Function.comp_def]
  · rw [List.flatMap_append, h.writes, List.range_add, List.map_append, List.map_map]
    refine congrArg _ ?_
    simp only [List.flatMap_cons, List.flatMap_nil, List.append_nil, Effect.writes]
    refine List.map_congr_left fun j hj => ?_
    refine Prod.ext (haddr j (List.mem_range.mp hj)).symm ?_
    simp [target, h.offset, Nat.add_mul]
  · simp [h.offset, Nat.add_mul]

theorem writeRange_end {r : PageTableRange} {last : Bool} {fuel : ℕ} :
    v.writeRange pteMaker pushBegin r last fuel r.entryCount w = (w, true) := by
  cases fuel with
  | zero => rfl
  | succ fuel => rw [writeRange, if_neg (Nat.lt_irrefl _)]

theorem writeRange_spec {r : PageTableRange} {last : Bool} (hmax : 0 < v.maxEntriesPerPush)
    {fuel entry k : ℕ} {w' : Writer Pte} (hfuel : r.entryCount ≤ entry + fuel)
    (hentry : entry < r.entryCount) (h : v.Written pteMaker k w)
    (hquiet : ∀ e ∈ w.effects, e.invalidate = none) (haddr : ∀ j, entry + j < r.entryCount →
      (v.target pteMaker (k + j)).1 = w.entryAddr + j * v.entrySize)
    (hrun : v.writeRange pteMaker pushBegin r last fuel entry w = (w', true)) :
    v.Written pteMaker (k + (r.entryCount - entry)) w' ∧
      if last then v.Invalidated w'.effects else ∀ e ∈ w'.effects, e.invalidate = none := by
  induction fuel generalizing entry k w with
  | zero => omega
  | succ fuel ih =>
    rw [writeRange, if_pos hentry] at hrun
    split at hrun
    · dsimp only at hrun
      -- the entries of this push: at least one, so that the fuel lasts
      obtain ⟨m, hm, hlimit, hle⟩ : ∃ m, 0 < m ∧
          min r.entryCount (entry + v.maxEntriesPerPush) = entry + m ∧
          entry + m ≤ r.entryCount :=
        ⟨min r.entryCount (entry + v.maxEntriesPerPush) - entry, by omega, by omega, by omega⟩
      rw [hlimit, Nat.add_sub_cancel_left, (writeEntries_spec m {} w).2] at hrun
      have hwritten := h.push (m := m) fun j hj => haddr j (by omega)
      rcases Nat.eq_or_lt_of_le hle with heq | hlt
      · -- the last push of the range
        rw [heq, writeRange_end] at hrun
        obtain rfl := (Prod.mk.inj hrun).1
        refine ⟨?_, ?_⟩
        · rw [show r.entryCount - entry = m by omega]
          exact hwritten _ _
        · cases last with
          | true =>
            rw [decide_eq_true rfl]
            exact ⟨w.effects, _, rfl, hquiet⟩
          | false =>
            rintro e he
            rcases List.mem_append.mp he with he | he
            · exact hquiet e he
            · obtain rfl := List.mem_singleton.mp he
              rfl
      · rw [show k + (r.entryCount - entry) = k + m + (r.entryCount - (entry + m)) by omega]
        -- entries are left, and the push does not invalidate the TLB
        refine ih (by omega) hlt (hwritten _ _) (fun e he => ?_) (fun j hj => ?_) hrun
        · rcases List.mem_append.mp he with he | he
          · exact hquiet e he
          · obtain rfl := List.mem_singleton.mp he
            rw [decide_eq_false (Nat.ne_of_lt hlt), Bool.and_false]
            rfl
        · rw [Nat.add_assoc, haddr (m + j) (by omega), Nat.add_mul, Nat.add_assoc]
    · cases (Prod.mk.inj hrun).2

theorem writeRanges_spec (hfits : v.tree.Fits v.pageSize) (hstart : v.start = s * v.pageSize)
    {p q : ℕ} {ranges : List PageTableRange} (hchain : Chain v.tree v.pageSize p q ranges) {k : ℕ}
    {w' : Writer Pte} (hp : p = s + k) (hne : ranges ≠ []) (h : v.Written pteMaker k w)
    (hquiet : ∀ e ∈ w.effects, e.invalidate = none)
    (hrun : v.writeRanges pteMaker pushBegin ranges w = (w', true)) :
    v.Written pteMaker (q - s) w' ∧ v.Invalidated w'.effects := by
  induction hchain generalizing k w with
  | nil p => exact absurd rfl hne
  | @cons p q count ranges hcnt hfit hrest ih =>
    subst hp
    have hmax : 0 < v.maxEntriesPerPush := by
      unfold maxEntriesPerPush entrySize
      rcases hfits.pteSize with heq | heq <;> rw [heq] <;> decide
    -- only the last of the ranges is written with an invalidate
    rw [writeRanges] at hrun
    split at hrun
    · next w₁ hrange =>
      have hwritten : ∀ a, v.Written pteMaker k { w with entryAddr := a } :=
        fun a => ⟨h.called, h.writes, h.offset⟩
      have haddr : ∀ j, 0 + j < count → (v.target pteMaker (k + j)).1 = entryAddress v.tree
          ⟨(s + k) / v.tree.entries v.pageSize, (s + k) % v.tree.entries v.pageSize, count,
            v.pageSize⟩ 0 + j * v.entrySize := by
        intro j hj
        change v.tree.pteAddress _ _ = _
        rw [hstart, ← Nat.add_mul, ← Nat.add_assoc]
        exact pteAddress_range hfits hfit (Nat.zero_add j ▸ hj)
      obtain ⟨hdone, hlast⟩ := writeRange_spec hmax (Nat.le_of_eq (Nat.zero_add _).symm) hcnt
        (hwritten _) (by exact hquiet) haddr hrange
      cases ranges with
      | nil =>
        obtain rfl := (Prod.mk.inj hrun).1
        obtain rfl : s + k + count = q := by
          cases hrest
          rfl
        refine ⟨?_, hlast⟩
        rwa [Nat.add_assoc, Nat.add_sub_cancel_left]
      | cons => exact ih (Nat.add_assoc ..) (List.cons_ne_nil _ _) hdone hlast hrun
    · cases (Prod.mk.inj hrun).2

theorem InitArgs.chain (h : v.InitArgs) : ∃ s n, v.start = s * v.pageSize ∧
    v.size / v.pageSize = n ∧ Chain v.tree v.pageSize s (s + n) v.ranges ∧ v.ranges ≠ [] := by
  have hfits := fits h.isPow h.supported
  have hpos : 0 < v.pageSize := Nat.lt_of_lt_of_le Nat.zero_lt_two hfits.two_le
  obtain ⟨s, hs⟩ := h.start
  obtain ⟨n, hn⟩ := h.size
  rw [Nat.mul_comm] at hs hn
  have hne : 0 < n := Nat.pos_of_ne_zero fun hzero => h.size_ne (by rw [hn, hzero, Nat.zero_mul])
  have hchain : Chain v.tree v.pageSize s (s + n) v.ranges := by
    have hv : v = ⟨v.tree, v.pageSize, s * v.pageSize, n * v.pageSize⟩ := by rw [← hs, ← hn]
    rw [hv]
    exact ranges_chain hfits hne
  refine ⟨s, n, hs, by rw [hn, Nat.mul_div_cancel _ hpos], hchain, fun hnil => ?_⟩
  obtain ⟨-, hpages⟩ := chain_pages hchain
  rw [Nat.add_sub_cancel_left, hnil] at hpages
  cases n with
  | zero => exact Nat.lt_irrefl _ hne
  | succ n => cases hpages

/-- **The ranges partition the interval, and a call that succeeds writes its pages and invalidates it
last.** -/
theorem writePtes_right (h : v.InitArgs) : v.Partitioned ∧
      ∀ (pteMaker : ℕ → Pte) (pushBegin : ℕ → Bool) (trackerWait : Bool),
        (v.writePtes pteMaker pushBegin trackerWait).2 = true →
          v.Written pteMaker (v.size / v.pageSize) (v.writePtes pteMaker pushBegin trackerWait).1 ∧
            v.Invalidated (v.writePtes pteMaker pushBegin trackerWait).1.effects := by
  have hfits := fits h.isPow h.supported
  obtain ⟨s, n, hs, hdiv, hchain, hsome⟩ := h.chain
  obtain ⟨hranges, hpages⟩ := chain_pages hchain
  rw [Nat.add_sub_cancel_left] at hpages
  refine ⟨⟨fun r hr => (hranges r hr).1, fun r hr => (hranges r hr).2, ?_⟩,
    fun pteMaker pushBegin trackerWait hok => ?_⟩
  · rw [hpages, hdiv, List.range'_eq_map_range, List.map_map]
    refine List.map_congr_left fun k _ => ?_
    rw [hs, ← Nat.add_mul, Function.comp_apply]
  · have hrun := writeRanges_spec hfits hs hchain (Nat.add_zero s).symm hsome
      (w := ⟨[], [], 0, 0⟩) ⟨rfl, rfl, (Nat.zero_mul _).symm⟩ nofun
      (Prod.ext rfl (Bool.and_eq_true_iff.mp hok).1)
    rwa [Nat.add_sub_cancel_left, ← hdiv] at hrun

/-- Two pages of 4K in two page tables of a Pascal GPU. -/
def twoTables : RangeVec := ⟨⟨.pascal, fun table => table * 4096⟩, 4096, 2093056, 8192⟩

theorem writePtes_right_twoTables :
    twoTables.Written id 2 (twoTables.writePtes id (fun _ => true) true).1 :=
  ((writePtes_right ⟨⟨12, rfl⟩, by decide, ⟨511, rfl⟩, ⟨2, rfl⟩, by decide⟩).2 id _ true
    (by decide)).1

/-! ## Clearing the PTEs -/

/-- `uvm_push_has_space`. -/
def hasSpace (pushSize freeSpace : ℕ) : Bool := freeSpace ≤ 128 * 1024 - pushSize

/-- The methods of a semaphore acquire, and of `memset_8` at a physical address. -/
def acquireSize : ℕ := 5 * 4

def memsetSize : ℕ := 13 * 4

/-- `memset_8`. -/
def memset8 (addr value size : ℕ) : List (ℕ × ℕ) :=
  (List.range (size / 8)).map fun i => (addr + i * 8, value)

variable (v) in
/-- `uvm_pte_batch_clear_ptes`, with the invalid PTE. -/
def clearRange (r : PageTableRange) : List (ℕ × ℕ) :=
  memset8 (entryAddress v.tree r 0) 0 (v.entrySize * r.entryCount)

variable (v) in
/-- The loop over the ranges in a push: what is written, and the ranges from the index on. -/
def clearPush : ℕ → List (ℕ × ℕ) → List PageTableRange → List (ℕ × ℕ) × List PageTableRange
  | _, writes, [] => (writes, [])
  | pushSize, writes, r :: ranges =>
    let writes := writes ++ v.clearRange r
    if hasSpace (pushSize + memsetSize) 512 then clearPush (pushSize + memsetSize) writes ranges
    -- the loop is left before the index goes on
    else (writes, r :: ranges)

variable (v) in
/-- The loop over the pushes.  A push that begins may have to acquire the one before; `none` is a loop
that did not end. -/
def clearRanges (pushBegin : ℕ → Option Bool) :
    ℕ → List PageTableRange → List (Effect ℕ) → Option (List (Effect ℕ) × Bool)
  | 0, _, _ => none
  | fuel + 1, ranges, effects =>
    if ranges = [] then some (effects, true)
    else
      match pushBegin effects.length with
      | none => some (effects, false)
      | some acquires =>
        let (writes, rest) := v.clearPush (if acquires then acquireSize else 0) [] ranges
        let invalidate := if rest = [] then some (v.start, v.size) else none
        clearRanges pushBegin fuel rest (effects ++ [.push writes invalidate])

variable (v) in
/-- `uvm_page_table_range_vec_clear_ptes`. -/
def clearPtes (pushBegin : ℕ → Option Bool) (trackerWait : Bool) :
    Option (List (Effect ℕ) × Bool) :=
  (v.clearRanges pushBegin (v.ranges.length + 1) v.ranges []).map fun r => (r.1, r.2 && trackerWait)

end RangeVec

end NvUvm.MapExternal
