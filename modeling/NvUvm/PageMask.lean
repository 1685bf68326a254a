import NvUvm.GpuPtes

/-!
# Bitmaps over the pages of a VA block

The `uvm_page_mask_*` functions of `uvm8_va_block.h`.  A mask has a bit for each page of a full
block; what it says of pages from there on means nothing.
-/

namespace NvUvm

namespace PageMask

/-- `uvm_page_mask_region_fill`, of the bits that the mask has. -/
def regionFill (mask : PageMask) (region : BlockRegion) : PageMask := fun p =>
  mask p || (decide (region.first ≤ p) && decide (p < region.outer) && decide (p < pages2m))

/-- `uvm_page_mask_andnot`. -/
def andnot (mask other : PageMask) : PageMask := fun p => mask p && !other p

/-- `uvm_page_mask_or`. -/
def or (mask other : PageMask) : PageMask := fun p => mask p || other p

/-- `bitmap_shift_left`. -/
def shiftLeft (mask : PageMask) (shift : ℕ) : PageMask := fun p =>
  decide (p < pages2m) && decide (shift ≤ p) && mask (p - shift)

/-- `bitmap_shift_right`. -/
def shiftRight (mask : PageMask) (shift : ℕ) : PageMask := fun p =>
  decide (p + shift < pages2m) && mask (p + shift)

/-- `bitmap_weight`. -/
def weight (mask : PageMask) (bits : ℕ) : ℕ := (List.range bits).countP mask

/-- `uvm_page_mask_region_weight`. -/
def regionWeight (mask : PageMask) (region : BlockRegion) : ℕ :=
  mask.weight region.outer - mask.weight region.first

/-- `__set_bit` and `__clear_bit`. -/
def setBit (mask : PageMask) (page : ℕ) (value : Bool) : PageMask := Function.update mask page value

/-! ## The weight of a mask -/

variable {mask : PageMask} {page bits : ℕ}

theorem weight_succ (mask : PageMask) (bits : ℕ) :
    mask.weight (bits + 1) = mask.weight bits + (mask bits).toNat := by
  unfold weight
  rw [List.range_succ, List.countP_append]
  cases h : mask bits <;> simp [h]

theorem weight_le (mask : PageMask) (bits : ℕ) : mask.weight bits ≤ bits := by
  exact List.countP_le_length.trans List.length_range.le

theorem weight_eq_zero : mask.weight bits = 0 ↔ ∀ p < bits, mask p = false := by
  simp [weight]

theorem weight_setBit_of_le (h : bits ≤ page) (value : Bool) :
    (mask.setBit page value).weight bits = mask.weight bits := by
  apply List.countP_congr
  intro p hp
  have hne : p ≠ page := by
    have := List.mem_range.mp hp
    omega
  rw [setBit, Function.update_of_ne hne]

theorem weight_setBit (mask : PageMask) (h : page < bits) (value : Bool) :
    (mask.setBit page value).weight bits + (mask page).toNat = mask.weight bits + value.toNat := by
  induction bits with
  | zero => exact absurd h (Nat.not_lt_zero page)
  | succ bits ih =>
    rw [weight_succ, weight_succ]
    rcases Nat.lt_succ_iff_lt_or_eq.mp h with hlt | rfl
    · -- the bit is not the last one
      have hlast : (mask.setBit page value) bits = mask bits := Function.update_of_ne hlt.ne' ..
      rw [hlast]
      omega
    · have hlast : (mask.setBit page value) page = value := Function.update_self ..
      rw [hlast, weight_setBit_of_le le_rfl]
      omega

theorem weight_clear (h : page < bits) (hset : mask page = true) :
    (mask.setBit page false).weight bits + 1 = mask.weight bits := by
  have := weight_setBit mask h false
  rw [hset] at this
  exact this

end PageMask

end NvUvm
