import Mathlib.Algebra.Order.Ring.Nat
import NvUvm.Processor

/-!
# Progress of a channel of UVM-Lite

Model of how `uvm_channel_mgmt.c` reads the progress of a channel.  The GPU releases a 32-bit
semaphore with the low half of the sequence number of each pushbuffer it completes; the driver
rebuilds the 64-bit number from the semaphore and the number it saw last.
-/

namespace NvUvm.LiteChannel

/-- The semaphore of a channel that has completed a number of pushbuffers. -/
def semaphore (completed : ℕ) : ℕ := completed % 2 ^ 32

/-- `uvm_update_channel_progress`: the new `seqNumDone`, which is also returned. -/
def updateProgress (seqNumDone hwSeqNum : ℕ) : ℕ :=
  if hwSeqNum = seqNumDone % 2 ^ 32 then seqNumDone
  else
    -- the wrap around of the semaphore counts in the upper half
    let swSeqNum :=
      if hwSeqNum < seqNumDone % 2 ^ 32 then (seqNumDone + 2 ^ 32) % 2 ^ 64 else seqNumDone
    swSeqNum / 2 ^ 32 * 2 ^ 32 + hwSeqNum

/-- `uvm_query_channel_seq_done`: the answer, and the new `seqNumDone`. -/
def querySeqDone (seqNumDone hwSeqNum seq : ℕ) : Bool × ℕ :=
  if seq ≤ seqNumDone then (true, seqNumDone)
  else
    let progress := updateProgress seqNumDone hwSeqNum
    (decide (seq ≤ progress), progress)

variable {seqNumDone completed seq : ℕ}

theorem updateProgress_le (h : seqNumDone ≤ completed) :
    updateProgress seqNumDone (semaphore completed) ≤ completed := by
  unfold updateProgress semaphore
  split
  · exact h
  · dsimp only
    split <;> omega

theorem updateProgress_eq (h : seqNumDone ≤ completed) (hmissed : completed < seqNumDone + 2 ^ 32)
    (hbound : completed < 2 ^ 64) :
    updateProgress seqNumDone (semaphore completed) = completed := by
  unfold updateProgress semaphore
  split
  · omega
  · dsimp only
    split <;> omega

theorem querySeqDone_le (h : seqNumDone ≤ completed) :
    (querySeqDone seqNumDone (semaphore completed) seq).2 ≤ completed := by
  unfold querySeqDone
  split
  · exact h
  · exact updateProgress_le h

theorem le_completed_of_querySeqDone (h : seqNumDone ≤ completed)
    (hdone : (querySeqDone seqNumDone (semaphore completed) seq).1 = true) : seq ≤ completed := by
  unfold querySeqDone at hdone
  split at hdone
  · next hle => exact le_trans hle h
  · exact le_trans (of_decide_eq_true hdone) (updateProgress_le h)

end NvUvm.LiteChannel
