import Mathlib.Algebra.Ring.Nat
import Mathlib.Data.Fin.Basic

/-!
# Status codes and processors

The vocabulary every part of the driver shares: `NV_STATUS`, processor ids and processor
masks (`nvstatuscodes.h`, `uvm8_processors.h`).

Only the status codes the modelled functions test for, or return themselves, have a
constructor of their own; every other code is `other`.
-/

namespace NvUvm

inductive NvStatus where
  | ok
  | errNoMemory
  | errInvalidAddress
  | errInvalidArgument
  | errInvalidChannel
  | errInvalidDevice
  | errInvalidState
  | errOutOfRange
  | errUvmAddressInUse
  | errMoreProcessingRequired
  | warnMoreProcessingRequired
  | other (code : ℕ)
  deriving DecidableEq, Repr

/-- The test `status == NV_OK` of the source's early returns. -/
def NvStatus.isOk : NvStatus → Bool
  | .ok => true
  | _ => false

variable {s : NvStatus}

@[simp] theorem NvStatus.isOk_eq_true : s.isOk = true ↔ s = .ok := by
  cases s <;> simp [NvStatus.isOk]

@[simp] theorem NvStatus.isOk_eq_false : s.isOk = false ↔ s ≠ .ok := by
  cases s <;> simp [NvStatus.isOk]

/-- `status == NV_OK ? next : status`: the first error of two wins. -/
def NvStatus.orElse (status next : NvStatus) : NvStatus :=
  if status = .ok then next else status

@[simp] theorem NvStatus.ok_orElse (s : NvStatus) : NvStatus.ok.orElse s = s := rfl

theorem NvStatus.orElse_eq_ok {t : NvStatus} : s.orElse t = .ok ↔ s = .ok ∧ t = .ok := by
  unfold NvStatus.orElse
  split <;> simp_all

/-- `UVM8_MAX_PROCESSORS`: the CPU and up to 32 GPUs. -/
def maxProcessors : ℕ := 33

instance : NeZero maxProcessors := ⟨by decide⟩

/-- `uvm_processor_id_t`. -/
abbrev ProcessorId := Fin maxProcessors

/-- `UVM_CPU_ID`. -/
def cpuId : ProcessorId := ⟨0, by decide⟩

/-- `uvm_processor_mask_t`: a bit for each processor. -/
abbrev ProcessorMask := ProcessorId → Bool

end NvUvm
