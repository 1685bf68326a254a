import NvUvm.Processor
import Mathlib.Data.Fintype.Basic

/-!
# GPU ids and the index of the peer table

The ids of the GPUs, masks of them (`uvm8_processors.h`), and the entry that a pair of GPUs has in the
global peer table (`uvm8_gpu.c`), a triangle that is stored row by row.
-/

namespace NvUvm.GpuHolders

/-- `for_each_gpu_id`: the GPU ids, in ascending order. -/
def gpuIds : List ProcessorId := (List.finRange maxProcessors).filter (· ≠ cpuId)

theorem mem_gpuIds {id : ProcessorId} : id ∈ gpuIds ↔ id ≠ cpuId := by
  simp [gpuIds]

/-- `uvm_processor_mask_set`. -/
def maskSet (mask : ProcessorMask) (id : ProcessorId) : ProcessorMask :=
  Function.update mask id true

/-- `uvm_processor_mask_clear`. -/
def maskClear (mask : ProcessorMask) (id : ProcessorId) : ProcessorMask :=
  Function.update mask id false

/-- `for_each_gpu_id_in_mask`. -/
def gpusInMask (mask : ProcessorMask) : List ProcessorId := gpuIds.filter (mask ·)

theorem mem_gpusInMask {mask : ProcessorMask} {id : ProcessorId} :
    id ∈ gpusInMask mask ↔ id ≠ cpuId ∧ mask id = true := by
  unfold gpusInMask
  rw [List.mem_filter, mem_gpuIds]

/-! ## The peer table index -/

def sumFrom0ToN (n : ℕ) : ℕ := n * (n + 1) / 2

/-- `uvm_gpu_peer_table_index`. -/
def peerTableIndex (gpuId1 gpuId2 : ProcessorId) : ℕ :=
  let low := min gpuId1.val gpuId2.val
  let high := max gpuId1.val gpuId2.val
  (low - 1) * (maxProcessors - 1) + (high - 1) - sumFrom0ToN low

theorem peerTableIndex_comm (a b : ProcessorId) : peerTableIndex a b = peerTableIndex b a := by
  unfold peerTableIndex
  rw [min_comm, max_comm]

private theorem row_lt : ∀ m < 33, ∀ m' < 32, 1 ≤ m → m < m' →
    (m - 1) * 32 + 31 - sumFrom0ToN m < (m' - 1) * 32 + m' - sumFrom0ToN m' := by
  decide +kernel

private theorem row_start : ∀ m < 32, 1 ≤ m → sumFrom0ToN m ≤ (m - 1) * 32 + m := by
  decide

private theorem index_inj {m n m' n' : ℕ} (hm : 1 ≤ m) (hmn : m < n) (hn : n < 33)
    (hm' : 1 ≤ m') (hmn' : m' < n') (hn' : n' < 33)
    (h : (m - 1) * 32 + (n - 1) - sumFrom0ToN m = (m' - 1) * 32 + (n' - 1) - sumFrom0ToN m') :
    m = m' ∧ n = n' := by
  have hrow := row_start m (by omega) hm
  rcases Nat.lt_trichotomy m m' with hlt | rfl | hgt
  · have hends := row_lt m (by omega) m' (by omega) hm hlt
    omega
  · exact ⟨rfl, by omega⟩
  · have hends := row_lt m' (by omega) m (by omega) hm' hgt
    omega

private theorem one_le_val {a : ProcessorId} (ha : a ≠ cpuId) : 1 ≤ a.val := by
  rcases Nat.eq_zero_or_pos a.val with h | h
  · exact absurd (Fin.ext h) ha
  · exact h

/-- **Two pairs of GPUs share an entry of the peer table only if they are the same pair.** -/
theorem peerTableIndex_inj {a b c d : ProcessorId} (ha : a ≠ cpuId) (hb : b ≠ cpuId)
    (hc : c ≠ cpuId) (hd : d ≠ cpuId) (hab : a ≠ b) (hcd : c ≠ d)
    (h : peerTableIndex a b = peerTableIndex c d) : a = c ∧ b = d ∨ a = d ∧ b = c := by
  have ha := one_le_val ha
  have hb := one_le_val hb
  have hc := one_le_val hc
  have hd := one_le_val hd
  have hab : a.val ≠ b.val := fun heq => hab (Fin.ext heq)
  have hcd : c.val ≠ d.val := fun heq => hcd (Fin.ext heq)
  have hbound : ∀ x : ProcessorId, x.val < 33 := fun x => x.isLt
  have hbounds := And.intro (And.intro (hbound a) (hbound b)) (And.intro (hbound c) (hbound d))
  have hpairs := index_inj (show 1 ≤ min a.val b.val by omega)
    (show min a.val b.val < max a.val b.val by omega) (by omega)
    (show 1 ≤ min c.val d.val by omega) (show min c.val d.val < max c.val d.val by omega)
    (by omega) h
  simp only [Fin.ext_iff]
  omega

end NvUvm.GpuHolders
