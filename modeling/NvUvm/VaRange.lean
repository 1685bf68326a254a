import NvUvm.Lib.Intervals
import NvUvm.Processor

/-!
# VA ranges

The part of `uvm_va_range_t` the policies and migrations read, the lookup of contiguous
ranges (`uvm8_va_range.h`) and the division of a managed range into blocks
(`uvm8_va_range.c`).
-/

namespace NvUvm

open Lib

/-- `uvm_va_range_type_t`. -/
inductive VaRangeType where
  | invalid
  | managed
  | external
  | channel
  | skedReflected
  | semaphorePool
  deriving DecidableEq, Repr

/-- The policy fields of a VA range.  `preferredLocation` is `none` for the source's
`UVM8_MAX_PROCESSORS`. -/
structure VaRangePolicy where
  type : VaRangeType
  preferredLocation : Option ProcessorId
  uvmLiteGpus : ProcessorMask

/-- `uvm_va_range_t`: the node of the range tree with its policy. -/
abbrev VaRange := Interval VaRangePolicy

/-- `va_range->type == UVM_VA_RANGE_TYPE_MANAGED`. -/
def VaRange.isManaged (vaRange : VaRange) : Bool :=
  vaRange.val.type = .managed

/-! ## Walking contiguous ranges -/

/-- The walk of `uvm_va_space_iter_next_contig` from a range on. -/
def contigFrom (last : ℕ) : VaRange → List VaRange → List VaRange
  | n, [] => [n]
  | n, m :: rest =>
    if m.start ≤ last ∧ m.start = n.last + 1 then n :: contigFrom last m rest else [n]

/-- `uvm_for_each_va_range_in_contig`: the range that contains `start`, and the ranges that
follow it without a gap and begin within `[start, last]`. -/
def uvmForEachVaRangeInContig (tree : List VaRange) (start last : ℕ) : List VaRange :=
  match seek tree start with
  | [] => []
  | n :: rest => if n.start ≤ start then contigFrom last n rest else []

private theorem contigFrom_cons (last : ℕ) (n : VaRange) (l : List VaRange) :
    ∃ tl, contigFrom last n l = n :: tl ∧ tl <+: l ∧ Chain n tl ∧
      ∀ m ∈ tl, m.start ≤ last := by
  induction l generalizing n with
  | nil => exact ⟨[], rfl, List.prefix_refl _, trivial, by simp⟩
  | cons m rest ih =>
    simp only [contigFrom]
    split
    · rename_i hnext
      obtain ⟨tl, htl, hpre, hchain, hle⟩ := ih m
      refine ⟨m :: tl, by rw [htl], List.prefix_cons_inj m |>.mpr hpre,
        ⟨hnext.2, hchain⟩, fun k hk => ?_⟩
      rcases List.mem_cons.mp hk with rfl | hk'
      · exact hnext.1
      · exact hle k hk'
    · exact ⟨[], rfl, List.nil_prefix, trivial, by simp⟩

/-- The ranges walked belong to the tree, begin before the end of the region and follow each
other without a gap from the range that contains its start. -/
theorem uvmForEachVaRangeInContig_spec (tree : List VaRange) (start last : ℕ) (hsl : start ≤ last) :
    uvmForEachVaRangeInContig tree start last = [] ∨
      ∃ n tl, uvmForEachVaRangeInContig tree start last = n :: tl ∧ n.start ≤ start ∧
        start ≤ n.last ∧ Chain n tl ∧ ∀ m ∈ n :: tl, m ∈ tree ∧ m.start ≤ last := by
  unfold uvmForEachVaRangeInContig
  split
  · exact Or.inl rfl
  · rename_i n rest hseek
    split
    · rename_i hle
      right
      obtain ⟨tl, htl, hpre, hchain, hlast⟩ := contigFrom_cons last n rest
      have hsub : ∀ m ∈ n :: rest, m ∈ tree := fun m hm =>
        (seek_suffix tree start).subset (hseek ▸ hm)
      refine ⟨n, tl, htl, hle, le_last_of_seek hseek, hchain, fun m hm => ?_⟩
      rcases List.mem_cons.mp hm with rfl | hm'
      · exact ⟨hsub m (by simp), by omega⟩
      · exact ⟨hsub m (List.mem_cons_of_mem _ (hpre.subset hm')), hlast m hm'⟩
    · exact Or.inl rfl

private theorem contigFrom_maximal {last : ℕ} {n : VaRange} {l : List VaRange}
    (hl : Ordered (n :: l)) {r : VaRange} (hr : (contigFrom last n l).getLast? = some r)
    {m : VaRange} (hm : m ∈ n :: l) (hc : m.Contains (r.last + 1)) : last < r.last + 1 := by
  induction l generalizing n with
  | nil =>
    simp only [contigFrom, List.getLast?_singleton, Option.some.injEq] at hr
    obtain rfl := List.mem_singleton.mp hm
    subst hr
    exact absurd hc.2 (by omega)
  | cons k rest ih =>
    simp only [contigFrom] at hr
    split at hr
    · obtain ⟨tl, htl, hpre, -, -⟩ := contigFrom_cons last k rest
      rw [htl, List.getLast?_cons_cons, ← htl] at hr
      refine ih hl.tail hr ?_
      rcases List.mem_cons.mp hm with rfl | hm'
      · -- the first range ends before the last one of the walk does
        have hrmem : r ∈ k :: rest := by
          have hrtl := List.mem_of_getLast? hr
          rw [htl] at hrtl
          rcases List.mem_cons.mp hrtl with rfl | h'
          · simp
          · exact List.mem_cons_of_mem _ (hpre.subset h')
        have h1 := hl.head_lt hrmem
        have h2 := hl.1 r (List.mem_cons_of_mem _ hrmem)
        exact absurd hc.2 (by omega)
      · exact hm'
    · rename_i hnext
      simp only [List.getLast?_singleton, Option.some.injEq] at hr
      subst hr
      rcases List.mem_cons.mp hm with rfl | hm'
      · exact absurd hc.2 (by omega)
      · have hk := hl.head_lt (m := k) (by simp)
        have hkne := hl.1 k (by simp)
        rcases List.mem_cons.mp hm' with rfl | hm''
        · have := hc.1
          omega
        · have h1 := hl.tail.head_lt hm''
          exact absurd hc.1 (by omega)

theorem uvmForEachVaRangeInContig_maximal {tree : List VaRange} (ht : Ordered tree)
    {start last : ℕ} {r m : VaRange}
    (hr : (uvmForEachVaRangeInContig tree start last).getLast? = some r)
    (hm : m ∈ tree) (hc : m.Contains (r.last + 1)) (hsr : start ≤ r.last) :
    last < r.last + 1 := by
  unfold uvmForEachVaRangeInContig at hr
  split at hr
  · simp at hr
  · rename_i n rest hseek
    split at hr
    · have hord : Ordered (n :: rest) := ht.of_suffix (hseek ▸ seek_suffix tree start)
      refine contigFrom_maximal hord hr ?_ hc
      -- a range that ends after `start` is not skipped by the search
      obtain ⟨pre, hpre⟩ := seek_suffix tree start
      rw [← hpre] at hm
      rcases List.mem_append.mp hm with hmpre | hm'
      · have hend := last_lt_of_skipped hpre hmpre
        exact absurd hc.2 (by omega)
      · rwa [hseek] at hm'
    · simp at hr

/-! ## Blocks of a managed range -/

/-- `UVM_VA_BLOCK_SIZE`. -/
def vaBlockSize : ℕ := 2097152

/-- `UVM_VA_BLOCK_ALIGN_DOWN`. -/
def vaBlockAlignDown (addr : ℕ) : ℕ := addr / vaBlockSize * vaBlockSize

/-- `UVM_VA_BLOCK_ALIGN_UP`. -/
def vaBlockAlignUp (addr : ℕ) : ℕ := (addr + (vaBlockSize - 1)) / vaBlockSize * vaBlockSize

def uvmVaRangeBlockIndex (vaRange : VaRange) (addr : ℕ) : ℕ :=
  addr / vaBlockSize - vaRange.start / vaBlockSize

def blockCalcStart (vaRange : VaRange) (index : ℕ) : ℕ :=
  max vaRange.start (vaBlockAlignDown vaRange.start + index * vaBlockSize)

/-- `block_calc_end`; the end is inclusive. -/
def blockCalcEnd (vaRange : VaRange) (index : ℕ) : ℕ :=
  min vaRange.last (vaBlockAlignUp (blockCalcStart vaRange index + 1) - 1)

theorem block_contains (vaRange : VaRange) {a : ℕ} (ha : vaRange.Contains a) :
    blockCalcStart vaRange (uvmVaRangeBlockIndex vaRange a) ≤ a ∧
      a ≤ blockCalcEnd vaRange (uvmVaRangeBlockIndex vaRange a) := by
  obtain ⟨hlo, hhi⟩ := ha
  simp only [blockCalcEnd, blockCalcStart, uvmVaRangeBlockIndex, vaBlockAlignDown,
    vaBlockAlignUp, vaBlockSize]
  omega

theorem index_of_block (vaRange : VaRange) {addr a : ℕ} (haddr : vaRange.Contains addr)
    (hlo : blockCalcStart vaRange (uvmVaRangeBlockIndex vaRange addr) ≤ a)
    (hhi : a ≤ blockCalcEnd vaRange (uvmVaRangeBlockIndex vaRange addr)) :
    vaRange.Contains a ∧ uvmVaRangeBlockIndex vaRange a = uvmVaRangeBlockIndex vaRange addr := by
  obtain ⟨hstart, hlast⟩ := haddr
  simp only [blockCalcEnd, blockCalcStart, uvmVaRangeBlockIndex, vaBlockAlignDown,
    vaBlockAlignUp, vaBlockSize] at hlo hhi ⊢
  refine ⟨⟨?_, ?_⟩, ?_⟩ <;> omega

theorem uvmVaRangeBlockIndex_mono (vaRange : VaRange) {a b : ℕ} (h : a ≤ b) :
    uvmVaRangeBlockIndex vaRange a ≤ uvmVaRangeBlockIndex vaRange b :=
  Nat.sub_le_sub_right (Nat.div_le_div_right h) _

end NvUvm
