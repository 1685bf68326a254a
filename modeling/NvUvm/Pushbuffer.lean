import Mathlib.Data.List.Basic

/-!
# The pushbuffer

Model of the allocator of space for pushes (`uvm8_pushbuffer.c`).  The pushbuffer is cut into
chunks; a chunk lists the GPFIFO entries of the pushes that use it and are pending, and has at most
one push that is being written.

All offsets are below the size of the pushbuffer, 16 MB, so the 32-bit arithmetic of the source
never wraps and is that of the natural numbers here.
-/

namespace NvUvm

open Function (update update_of_ne update_self)

def uvmMaxPushSize : ℕ := 128 * 1024

def uvmPushbufferChunkSize : ℕ := 8 * uvmMaxPushSize

def uvmPushbufferChunks : ℕ := 16

/-- The size of a push that has ended: its methods and the release of the tracking semaphore. -/
abbrev PushSize := { n : ℕ // 0 < n ∧ n ≤ uvmMaxPushSize }

/-- `uvm_gpfifo_entry_t`.  `push` stands for `push_info`, which tells the push it belongs to. -/
structure GpfifoEntry where
  trackingSemaphoreValue : ℕ
  pushbufferOffset : ℕ
  pushbufferSize : ℕ
  push : ℕ
  deriving DecidableEq, Repr

/-- An element of `gpfifo_entries`: the channel and the index. -/
abbrev GpfifoSlot := ℕ × ℕ

/-- `uvm_pushbuffer_chunk_t`, with the pushes numbered. -/
structure PushbufferChunk where
  nextPushStart : ℕ
  pendingGpfifos : List GpfifoSlot
  currentPush : Option ℕ

/-- `uvm_pushbuffer_t`. -/
structure Pushbuffer where
  chunks : ℕ → PushbufferChunk
  idleChunks : ℕ → Bool
  availableChunks : ℕ → Bool

namespace Pushbuffer

variable (entries : GpfifoSlot → GpfifoEntry) (pb : Pushbuffer)

/-- `uvm_pushbuffer_create_common`. -/
def init : Pushbuffer where
  chunks := fun _ => ⟨0, [], none⟩
  idleChunks := fun _ => true
  availableChunks := fun _ => true

def setChunk (c : ℕ) (chunk : PushbufferChunk) : Pushbuffer :=
  { pb with chunks := update pb.chunks c chunk }

@[simp] theorem setChunk_chunks (c : ℕ) (chunk : PushbufferChunk) :
    (pb.setChunk c chunk).chunks = update pb.chunks c chunk := rfl

@[simp] theorem setChunk_idleChunks (c : ℕ) (chunk : PushbufferChunk) :
    (pb.setChunk c chunk).idleChunks = pb.idleChunks := rfl

@[simp] theorem setChunk_availableChunks (c : ℕ) (chunk : PushbufferChunk) :
    (pb.setChunk c chunk).availableChunks = pb.availableChunks := rfl

def getChunkInMask (mask : ℕ → Bool) : Option ℕ := (List.range uvmPushbufferChunks).find? mask

/-- `pick_chunk`: an idle chunk, or else an available one. -/
def pickChunk : Option ℕ := (getChunkInMask pb.idleChunks).or (getChunkInMask pb.availableChunks)

def chunkGetOffset (c : ℕ) : ℕ := c * uvmPushbufferChunkSize

def offsetToChunk (offset : ℕ) : ℕ := offset / uvmPushbufferChunkSize

def gpfifoToChunk (gpfifo : GpfifoEntry) : ℕ := offsetToChunk gpfifo.pushbufferOffset

/-- `chunk_get_cpu_put`: where the last pending push ends. -/
def chunkGetCpuPut (c : ℕ) : ℕ :=
  match (pb.chunks c).pendingGpfifos.getLast? with
  | some gpfifo => (entries gpfifo).pushbufferOffset + (entries gpfifo).pushbufferSize -
      chunkGetOffset c
  | none => 0

/-- `chunk_get_gpu_get`: where the first pending push begins. -/
def chunkGetGpuGet (c : ℕ) : ℕ :=
  match (pb.chunks c).pendingGpfifos.head? with
  | some gpfifo => (entries gpfifo).pushbufferOffset - chunkGetOffset c
  | none => 0

/-- The chunk can be claimed, and its next push begins at `start`. -/
def setAvailable (c start : ℕ) : Pushbuffer :=
  { pb with
    chunks := update pb.chunks c { pb.chunks c with nextPushStart := start }
    availableChunks := update pb.availableChunks c true }

def updateChunk (c : ℕ) : Pushbuffer :=
  let gpuGet := chunkGetGpuGet entries pb c
  let cpuPut := chunkGetCpuPut entries pb c
  if gpuGet = cpuPut then
    -- full and empty chunks are told apart by the list
    if (pb.chunks c).pendingGpfifos ≠ [] then pb
    else { pb.setAvailable c 0 with idleChunks := update pb.idleChunks c true }
  else if cpuPut < gpuGet then
    if uvmMaxPushSize ≤ gpuGet - cpuPut then pb.setAvailable c cpuPut else pb
  else if cpuPut + uvmMaxPushSize ≤ uvmPushbufferChunkSize then pb.setAvailable c cpuPut
  else if uvmMaxPushSize ≤ gpuGet then pb.setAvailable c 0
  else pb

/-- `uvm_pushbuffer_mark_completed`.  `list_del` leaves the lists alone where the node is not
linked. -/
def uvmPushbufferMarkCompleted (gpfifo : GpfifoSlot) : Pushbuffer :=
  let c := gpfifoToChunk (entries gpfifo)
  let chunk := pb.chunks c
  let needToUpdateChunk := decide (chunk.pendingGpfifos.head? = some gpfifo) ||
    decide (chunk.pendingGpfifos.getLast? = some gpfifo)
  let pb := pb.setChunk c
    { chunk with pendingGpfifos := chunk.pendingGpfifos.erase gpfifo }
  -- with a current push the update is left to its end
  if needToUpdateChunk && chunk.currentPush.isNone then updateChunk entries pb c else pb

def uvmPushbufferEndPush (gpfifo : GpfifoSlot) : Pushbuffer :=
  let c := gpfifoToChunk (entries gpfifo)
  let chunk := pb.chunks c
  let pb := updateChunk entries (pb.setChunk c
    { chunk with pendingGpfifos := chunk.pendingGpfifos ++ [gpfifo] }) c
  pb.setChunk c { pb.chunks c with currentPush := none }

/-- `try_claim_chunk`: the chunk claimed for the push. -/
def tryClaimChunk (push : ℕ) : Option ℕ × Pushbuffer :=
  match pb.pickChunk with
  | none => (none, pb)
  | some c =>
    (some c,
      { pb.setChunk c { pb.chunks c with currentPush := some push } with
        idleChunks := update pb.idleChunks c false
        availableChunks := update pb.availableChunks c false })

/-- `chunk_get_next_push_start_addr`, as an offset in the pushbuffer. -/
def chunkGetNextPushStart (c : ℕ) : ℕ := chunkGetOffset c + (pb.chunks c).nextPushStart

/-! ## What the operations do -/

/-- What `update_chunk` can do to a chunk. -/
structure UpdateSpec (c : ℕ) (pb pb' : Pushbuffer) : Prop where
  others : ∀ c' ≠ c, pb'.chunks c' = pb.chunks c' ∧ pb'.idleChunks c' = pb.idleChunks c' ∧
    pb'.availableChunks c' = pb.availableChunks c'
  pendingGpfifos : (pb'.chunks c).pendingGpfifos = (pb.chunks c).pendingGpfifos
  currentPush : (pb'.chunks c).currentPush = (pb.chunks c).currentPush
  idle : pb'.idleChunks c = (pb.idleChunks c || (pb.chunks c).pendingGpfifos.isEmpty)
  nextPushStart : (pb.chunks c).nextPushStart + uvmMaxPushSize ≤ uvmPushbufferChunkSize →
    (pb'.chunks c).nextPushStart + uvmMaxPushSize ≤ uvmPushbufferChunkSize

private theorem updateSpec_refl (c : ℕ) (h : (pb.chunks c).pendingGpfifos ≠ []) :
    UpdateSpec c pb pb where
  others := fun _ _ => ⟨rfl, rfl, rfl⟩
  pendingGpfifos := rfl
  currentPush := rfl
  idle := by simp [h]
  nextPushStart := id

private theorem updateSpec_setAvailable (c : ℕ) {start : ℕ} (h : (pb.chunks c).pendingGpfifos ≠ [])
    (hstart : start + uvmMaxPushSize ≤ uvmPushbufferChunkSize) :
    UpdateSpec c pb (pb.setAvailable c start) where
  others := fun c' hc' => by simp [setAvailable, update_of_ne hc']
  pendingGpfifos := by simp [setAvailable]
  currentPush := by simp [setAvailable]
  idle := by simp [setAvailable, h]
  nextPushStart := fun _ => by simpa [setAvailable] using hstart

theorem updateChunk_spec (c : ℕ)
    (hin : ∀ gpfifo ∈ (pb.chunks c).pendingGpfifos, gpfifoToChunk (entries gpfifo) = c) :
    UpdateSpec c pb (updateChunk entries pb c) := by
  have hmax : uvmMaxPushSize ≤ uvmPushbufferChunkSize := by decide
  rcases hpend : (pb.chunks c).pendingGpfifos with _ | ⟨first, rest⟩
  · -- an empty list: both offsets are 0 and the chunk becomes idle
    have hupd : updateChunk entries pb c =
        { pb.setAvailable c 0 with idleChunks := update pb.idleChunks c true } := by
      simp [updateChunk, chunkGetGpuGet, chunkGetCpuPut, hpend]
    rw [hupd]
    exact { others := fun c' hc' => by simp [setAvailable, update_of_ne hc']
            pendingGpfifos := by simp [setAvailable]
            currentPush := by simp [setAvailable]
            idle := by simp [hpend]
            nextPushStart := fun _ => by simpa [setAvailable] using hmax }
  · have hne : (pb.chunks c).pendingGpfifos ≠ [] := by simp [hpend]
    have hget : chunkGetGpuGet entries pb c < uvmPushbufferChunkSize := by
      have hfirst := hin first (by simp [hpend])
      have hpos : 0 < uvmPushbufferChunkSize := by decide
      simp only [chunkGetGpuGet, hpend, List.head?_cons, chunkGetOffset]
      simp only [gpfifoToChunk, offsetToChunk] at hfirst
      have := Nat.div_add_mod' (entries first).pushbufferOffset uvmPushbufferChunkSize
      have := Nat.mod_lt (entries first).pushbufferOffset hpos
      rw [hfirst] at *
      omega
    unfold updateChunk
    dsimp only
    split
    · exact updateSpec_refl pb c hne
    · split
      · split
        · exact updateSpec_setAvailable pb c hne (by omega)
        · exact updateSpec_refl pb c hne
      · split
        · next hfits => exact updateSpec_setAvailable pb c hne hfits
        · split
          · exact updateSpec_setAvailable pb c hne (by omega)
          · exact updateSpec_refl pb c hne

/-- What `uvm_pushbuffer_mark_completed` does to the chunk of an entry on its list. -/
structure CompletedSpec (c : ℕ) (gpfifo : GpfifoSlot) (pb pb' : Pushbuffer) : Prop where
  others : ∀ c' ≠ c, pb'.chunks c' = pb.chunks c' ∧ pb'.idleChunks c' = pb.idleChunks c' ∧
    pb'.availableChunks c' = pb.availableChunks c'
  pendingGpfifos : (pb'.chunks c).pendingGpfifos = (pb.chunks c).pendingGpfifos.erase gpfifo
  currentPush : (pb'.chunks c).currentPush = (pb.chunks c).currentPush
  idle : pb'.idleChunks c = (pb.idleChunks c ||
    ((pb.chunks c).pendingGpfifos.erase gpfifo).isEmpty && (pb.chunks c).currentPush.isNone)
  available : pb'.availableChunks c = true →
    pb.availableChunks c = true ∨ (pb.chunks c).currentPush = none
  nextPushStart : (pb.chunks c).nextPushStart + uvmMaxPushSize ≤ uvmPushbufferChunkSize →
    (pb'.chunks c).nextPushStart + uvmMaxPushSize ≤ uvmPushbufferChunkSize

theorem markCompleted_spec {c : ℕ} {gpfifo : GpfifoSlot}
    (hmem : gpfifo ∈ (pb.chunks c).pendingGpfifos) (hc : gpfifoToChunk (entries gpfifo) = c)
    (hin : ∀ slot ∈ (pb.chunks c).pendingGpfifos, gpfifoToChunk (entries slot) = c) :
    CompletedSpec c gpfifo pb (uvmPushbufferMarkCompleted entries pb gpfifo) := by
  have hspec := updateChunk_spec entries (pb.setChunk c { pb.chunks c with
      pendingGpfifos := (pb.chunks c).pendingGpfifos.erase gpfifo }) c fun slot hslot =>
    hin slot (List.mem_of_mem_erase (by simpa using hslot))
  unfold uvmPushbufferMarkCompleted
  simp only [hc]
  split
  · next hupd =>
    simp only [Bool.and_eq_true, Option.isNone_iff_eq_none] at hupd
    obtain ⟨hothers, hpend, hcur, hidle, hstart⟩ := hspec
    simp only [setChunk_chunks, setChunk_idleChunks,
      update_self] at hothers hpend hcur hidle hstart
    exact { others := fun c' hc' => by simpa [update_of_ne hc'] using hothers c' hc'
            pendingGpfifos := hpend
            currentPush := hcur
            idle := hidle.trans (by simp [hupd.2])
            available := fun _ => .inr hupd.2
            nextPushStart := hstart }
  · next hupd =>
    refine { others := fun c' hc' => by simp [update_of_ne hc'], pendingGpfifos := by simp,
             currentPush := by simp, idle := ?_, available := fun h => .inl (by simpa using h),
             nextPushStart := fun h => by simpa using h }
    -- the last entry of a list is its first one, for which the chunk is updated
    rcases hnone : (pb.chunks c).currentPush with _ | push
    · have hne : (pb.chunks c).pendingGpfifos.erase gpfifo ≠ [] := fun hnil => by
        rw [List.erase_eq_nil_iff] at hnil
        rcases hnil with hnil | hsingle
        · simp [hnil] at hmem
        · simp [hsingle, hnone] at hupd
      simp [hne]
    · simp

theorem pickChunk_eq_some {c : ℕ} (h : pb.pickChunk = some c) :
    c < uvmPushbufferChunks ∧ (pb.idleChunks c = true ∨ pb.availableChunks c = true) := by
  rcases Option.or_eq_some_iff.mp h with hidle | ⟨-, havail⟩
  · exact ⟨by simpa using List.mem_of_find?_eq_some hidle, .inl (List.find?_some hidle)⟩
  · exact ⟨by simpa using List.mem_of_find?_eq_some havail, .inr (List.find?_some havail)⟩

end Pushbuffer

end NvUvm
