import NvUvm.MapExternal
import Mathlib.Logic.Function.Basic

/-!
# Batches of TLB invalidates

`uvm8_tlb_batch.c`.  The total of a batch is an `NvU32` of its small pages, which can wrap around below
the limit of the targeted invalidates.  The PDB is left out, and so are the acknowledge types.
-/

namespace NvUvm.TlbBatches

open MapExternal
open Function (update update_of_ne)

/-- `uvm_membar_t`, in its order. -/
inductive Membar where
  | none | gpu | sys
  deriving DecidableEq

/-- `uvm_membar_max`. -/
def membarMax (m₁ m₂ : Membar) : Membar := if m₁.ctorIdx < m₂.ctorIdx then m₂ else m₁

def smallestPageSize (pageSizes : ℕ) : ℕ := 2 ^ (List.range 32).findIdx pageSizes.testBit

def biggestPageSize (pageSizes : ℕ) : ℕ := 2 ^ pageSizes.log2

/-- `gpu->tlb_batch`. -/
structure TlbLimits where
  vaInvalidateSupported : Bool
  maxPages : ℕ

/-- `uvm_tlb_batch_range_t`. -/
structure TlbRange where
  start : ℕ := 0
  size : ℕ := 0
  pageSizes : ℕ := 0

/-- A call of `uvm_tlb_batch_invalidate`, as the asserts want it. -/
structure Request (hal : MmuModeHal) extends TlbRange where
  membar : Membar
  sizes_ne : pageSizes ≠ 0
  supported : ∀ b, pageSizes.testBit b = true → hal.pageSizes.testBit b = true
  start_dvd : smallestPageSize pageSizes ∣ start
  size_dvd : smallestPageSize pageSizes ∣ size
  size_pos : 0 < size

/-- `uvm_tlb_batch_t`. -/
structure TlbBatch where
  totalPages : ℕ := 0
  ranges : ℕ → TlbRange := fun _ => {}
  count : ℕ := 0
  biggest : ℕ := 0
  membar : Membar := .none

/-- The methods pushed: `MMU_TLB_INVALIDATE`, `MMU_TLB_INVALIDATE_TARGETED` and `MEMBAR`. -/
inductive TlbOp where
  | all (depth : ℕ)
  | va (va depth : ℕ)
  | membar (m : Membar)

def halMembar (m : Membar) : List TlbOp := if m = .none then [] else [.membar m]

/-- `uvm_hal_pascal_host_tlb_invalidate_va`: the size is a multiple of the page size. -/
def tlbInvalidateVa (depth base size pageSize : ℕ) (m : Membar) : List TlbOp :=
  (List.range (size / pageSize)).map (fun i => .va (base + i * pageSize) depth) ++ halMembar m

variable (limits : TlbLimits) (hal : MmuModeHal)

/-- `tlb_batch_should_invalidate_all`. -/
def shouldInvalidateAll (b : TlbBatch) : Prop :=
  ¬ limits.vaInvalidateSupported ∨ 4 < b.count ∨ limits.maxPages < b.totalPages

instance (b : TlbBatch) : Decidable (shouldInvalidateAll limits b) :=
  inferInstanceAs (Decidable (_ ∨ _))

variable {hal} in
/-- `uvm_tlb_batch_invalidate`. -/
def invalidate (b : TlbBatch) (r : Request hal) : TlbBatch :=
  let b := { b with
    membar := membarMax r.membar b.membar
    count := (b.count + 1) % 2 ^ 32
    totalPages := (b.totalPages + r.size / smallestPageSize r.pageSizes) % 2 ^ 32
    biggest := max b.biggest (biggestPageSize r.pageSizes) }
  if shouldInvalidateAll limits b then b
  else { b with ranges := update b.ranges (b.count - 1) r.toTlbRange }

variable {hal}

/-- Every page of the range is invalidated, at a depth for its size. -/
def Covers (ops : List TlbOp) (r : Request hal) : Prop :=
  (∃ d, .all d ∈ ops ∧ ∀ b, r.pageSizes.testBit b = true → d ≤ hal.pageTableDepth (2 ^ b)) ∨
  ∀ b, r.pageSizes.testBit b = true → ∀ a, r.start ≤ a → a < r.start + r.size →
    ∃ v d, .va v d ∈ ops ∧ v / 2 ^ b = a / 2 ^ b ∧ d ≤ hal.pageTableDepth (2 ^ b)

def totalPages (requests : List (Request hal)) : ℕ :=
  (requests.map fun r => r.size / smallestPageSize r.pageSizes).sum

/-! ## Page sizes -/

theorem supported_spec {b : ℕ} (hb : hal.pageSizes.testBit b = true) : b < 32 ∧
    ∀ c, b ≤ c → hal.pageSizes.testBit c = true →
      hal.pageTableDepth (2 ^ c) ≤ hal.pageTableDepth (2 ^ b) := by
  have hlt : ∀ c, hal.pageSizes.testBit c = true → c < 22 := by
    intro c hc
    refine (Nat.pow_lt_pow_iff_right (a := 2) (by decide)).mp
      (Nat.lt_of_le_of_lt (Nat.ge_two_pow_of_testBit hc) ?_)
    cases hal <;> decide
  have hdepth : ∀ b < 22, hal.pageSizes.testBit b = true → ∀ c < 22, b ≤ c →
      hal.pageSizes.testBit c = true → hal.pageTableDepth (2 ^ c) ≤ hal.pageTableDepth (2 ^ b) := by
    cases hal <;> decide
  have hb22 := hlt b hb
  exact ⟨by omega, fun c hle hc => hdepth b hb22 hb c (hlt c hc) hle hc⟩

variable (r : Request hal)

theorem Request.smallest : ∃ k, smallestPageSize r.pageSizes = 2 ^ k ∧
    ∀ b, r.pageSizes.testBit b = true → k ≤ b := by
  refine ⟨_, rfl, fun b hb => ?_⟩
  by_contra hgt
  have hnot := List.not_of_lt_findIdx (Nat.lt_of_not_le hgt)
  rw [List.getElem_range, hb] at hnot
  cases hnot

theorem Request.le_log2 {b : ℕ} (hb : r.pageSizes.testBit b = true) : b ≤ r.pageSizes.log2 :=
  (Nat.le_log2 r.sizes_ne).mpr (Nat.ge_two_pow_of_testBit hb)

theorem Request.supported_log2 : hal.pageSizes.testBit r.pageSizes.log2 = true :=
  r.supported _ (Nat.testBit_log2 r.sizes_ne)

/-! ## Targeted invalidates -/

theorem Request.covers (m : Membar) {ops : List TlbOp}
    (hsub : tlbInvalidateVa (hal.pageTableDepth (biggestPageSize r.pageSizes)) r.start r.size
      (smallestPageSize r.pageSizes) m ⊆ ops) : Covers ops r := by
  refine .inr fun b hb a hge hlt => ?_
  obtain ⟨k, hk, hmin⟩ := r.smallest
  obtain ⟨s, hs⟩ := r.start_dvd
  obtain ⟨n, hn⟩ := r.size_dvd
  rw [hk] at hsub hs hn
  have hpos : 0 < 2 ^ k := Nat.two_pow_pos k
  refine ⟨r.start + (a - r.start) / 2 ^ k * 2 ^ k, _, hsub (List.mem_append_left _
      (List.mem_map.mpr ⟨_, List.mem_range.mpr ?_, rfl⟩)), ?_,
    (supported_spec (r.supported b hb)).2 _ (r.le_log2 hb) r.supported_log2⟩
  · rw [hn, Nat.mul_div_cancel_left _ hpos, Nat.div_lt_iff_lt_mul hpos, Nat.mul_comm]
    omega
  · have hsame : (r.start + (a - r.start) / 2 ^ k * 2 ^ k) / 2 ^ k = a / 2 ^ k := by
      conv_rhs => rw [show a = 2 ^ k * s + (a - r.start) by omega, Nat.mul_add_div hpos]
      rw [hs, Nat.mul_add_div hpos, Nat.mul_div_cancel _ hpos]
    rw [show (2 : ℕ) ^ b = 2 ^ k * 2 ^ (b - k) by rw [← Nat.pow_add, Nat.add_sub_cancel' (hmin b hb)],
      ← Nat.div_div_eq_div_mul, ← Nat.div_div_eq_div_mul, hsame]

/-! ## What is queued -/

/-- The state of a batch after some requests: a range that is not recorded has no page sizes. -/
structure Queued (requests : List (Request hal)) (b : TlbBatch) : Prop where
  count : b.count = requests.length
  total : b.totalPages = totalPages requests % 2 ^ 32
  covers : ∀ r ∈ requests, r.membar.ctorIdx ≤ b.membar.ctorIdx ∧
    biggestPageSize r.pageSizes ≤ b.biggest
  biggest : b.biggest = 0 ∨ ∃ c, b.biggest = 2 ^ c ∧ hal.pageSizes.testBit c = true
  ranges : ∀ i, requests[i]?.map (·.toTlbRange) = some (b.ranges i) ∨ (b.ranges i).pageSizes = 0
  recorded : limits.vaInvalidateSupported = true → requests.length ≤ 4 →
    totalPages requests ≤ limits.maxPages → ∀ i < requests.length, (b.ranges i).pageSizes ≠ 0

theorem le_membarMax (m₁ m₂ : Membar) :
    m₁.ctorIdx ≤ (membarMax m₁ m₂).ctorIdx ∧ m₂.ctorIdx ≤ (membarMax m₁ m₂).ctorIdx := by
  cases m₁ <;> cases m₂ <;> decide

theorem totalPages_append (requests : List (Request hal)) :
    totalPages (requests ++ [r]) =
      totalPages requests + r.size / smallestPageSize r.pageSizes := by
  simp [totalPages]

variable {limits r}

theorem Queued.invalidate {requests : List (Request hal)} {b : TlbBatch}
    (h : Queued limits requests b) (hlt : requests.length + 1 < 2 ^ 32) :
    Queued limits (requests ++ [r]) (invalidate limits b r) := by
  set b' := TlbBatches.invalidate limits b r with hb'
  have hfields : b'.count = requests.length + 1 ∧
      b'.totalPages = totalPages (requests ++ [r]) % 2 ^ 32 ∧
      b'.membar = membarMax r.membar b.membar ∧
      b'.biggest = max b.biggest (biggestPageSize r.pageSizes) ∧
      (b'.ranges = b.ranges ∧ shouldInvalidateAll limits b' ∨
        b'.ranges = update b.ranges requests.length r.toTlbRange) := by
    have hsum : (b.totalPages + r.size / smallestPageSize r.pageSizes) % 2 ^ 32 =
        totalPages (requests ++ [r]) % 2 ^ 32 := by
      rw [totalPages_append, h.total, Nat.mod_add_mod]
    have hnum : (b.count + 1) % 2 ^ 32 = requests.length + 1 := by
      rw [h.count, Nat.mod_eq_of_lt hlt]
    rw [hb', TlbBatches.invalidate, hsum, hnum]
    dsimp only
    split
    · next hall => exact ⟨rfl, rfl, rfl, rfl, .inl ⟨rfl, hall⟩⟩
    · exact ⟨rfl, rfl, rfl, rfl, .inr rfl⟩
  obtain ⟨hcount, htotal, hmembar, hbiggest, hranges⟩ := hfields
  have hold : ∀ i, (requests ++ [r])[i]?.map (·.toTlbRange) = some (b.ranges i) ∨
      (b.ranges i).pageSizes = 0 := by
    intro i
    rcases h.ranges i with hi | hi
    · by_cases hlen : i < requests.length
      · exact .inl (by rwa [List.getElem?_append_left hlen])
      · simp [List.getElem?_eq_none (Nat.le_of_not_lt hlen)] at hi
    · exact .inr hi
  refine ⟨by simpa using hcount, htotal, ?_, ?_, ?_, ?_⟩
  · simp only [List.forall_mem_append, List.forall_mem_singleton, hmembar, hbiggest]
    exact ⟨fun r' hr' => ⟨(h.covers r' hr').1.trans (le_membarMax _ _).2,
      (h.covers r' hr').2.trans (le_max_left _ _)⟩, (le_membarMax _ _).1, le_max_right _ _⟩
  · rcases Nat.le_total (biggestPageSize r.pageSizes) b.biggest with hle | hle
    · rw [hbiggest, Nat.max_eq_left hle]
      exact h.biggest
    · exact .inr ⟨_, hbiggest.trans (Nat.max_eq_right hle), r.supported_log2⟩
  · intro i
    rcases hranges with ⟨hr, -⟩ | hr
    · exact hr ▸ hold i
    · rw [hr]
      rcases eq_or_ne i requests.length with rfl | hi
      · simp
      · rw [update_of_ne hi]
        exact hold i
  · intro hsupported hlen hmax i hi
    rw [List.length_append, List.length_singleton] at hlen hi
    rcases hranges with ⟨-, hall⟩ | hr
    · rcases hall with hall | hall | hall
      · exact absurd hsupported hall
      · omega
      · exact absurd hall (Nat.not_lt.mpr (htotal ▸ (Nat.mod_le _ _).trans hmax))
    · rw [hr]
      rcases eq_or_ne i requests.length with rfl | hne
      · simpa using r.sizes_ne
      · rw [update_of_ne hne]
        rw [totalPages_append] at hmax
        exact h.recorded hsupported (by omega) ((Nat.le_add_right _ _).trans hmax) i (by omega)

variable (limits) in
theorem queued (requests : List (Request hal)) (hlt : requests.length < 2 ^ 32) :
    Queued limits requests (requests.foldl (invalidate limits) {}) := by
  induction requests using List.reverseRecOn with
  | nil => exact ⟨rfl, rfl, by simp, .inl rfl, fun _ => .inr rfl, by simp⟩
  | append_singleton requests r ih =>
    rw [List.length_append, List.length_singleton] at hlt
    rw [List.foldl_append]
    exact (ih (by omega)).invalidate hlt

/-! ## What is pushed -/

variable {requests : List (Request hal)} {b : TlbBatch} {m : Membar}

/-- Two small pages. -/
def twoPages : Request .pascal where
  size := 8192
  pageSizes := 4096
  membar := .sys
  sizes_ne := by decide
  supported := fun b hb => by
    rw [show 4096 = 2 ^ 12 from rfl, Nat.testBit_two_pow] at hb
    rw [← decide_eq_true_eq.mp hb]
    rfl
  start_dvd := Nat.dvd_zero _
  size_dvd := ⟨2, rfl⟩
  size_pos := by decide

end NvUvm.TlbBatches
