import Mathlib.Data.List.Nodup
import NvUvm.Lib.RingRanges
import NvUvm.Lib.Run
import NvUvm.Pushbuffer

/-!
# The space that pushes get

The calls of the pushbuffer one after another: pushes begin and end in any chunk, and entries
complete in any order.  Each call holds the pushbuffer lock while it changes a chunk, so a run of
calls is a run of the threads.
-/

namespace NvUvm

open Lib Pushbuffer
open Function (update update_of_ne update_self)

/-- The pushbuffer, its entries, and where the pushes in progress begin (`push->begin`). -/
structure PushbufferCalls where
  pushbuffer : Pushbuffer
  entries : GpfifoSlot → GpfifoEntry
  beginOffset : ℕ → Option ℕ

/-- A call of the pushbuffer. -/
inductive PushbufferCall where
  | beginPush (push : ℕ)
  | endPush (push : ℕ) (slot : GpfifoSlot) (size : PushSize)
  | markCompleted (slot : GpfifoSlot)

/-- The range of a pending entry in the pushbuffer. -/
def GpfifoEntry.span (entry : GpfifoEntry) : Span := ⟨entry.pushbufferOffset, entry.pushbufferSize⟩

namespace Pushbuffer

def chunkSpan (c : ℕ) : Span := ⟨chunkGetOffset c, uvmPushbufferChunkSize⟩

/-- The range that a push can use, which begins at an offset. -/
def pushSpan (offset : ℕ) : Span := ⟨offset, uvmMaxPushSize⟩

/-- The range that a chunk offers to its next push. -/
def nextSpan (pb : Pushbuffer) (c : ℕ) : Span := pushSpan (chunkGetNextPushStart pb c)

/-- The ranges of the pending entries of a chunk. -/
def spans (entries : GpfifoSlot → GpfifoEntry) (pb : Pushbuffer) (c : ℕ) : List Span :=
  (pb.chunks c).pendingGpfifos.map fun slot => (entries slot).span

end Pushbuffer

namespace PushbufferCalls

variable (s : PushbufferCalls)

/-- A slot that is on none of the lists, as `list_add_tail` needs it: of the chunks that there
are, an entry is on the list of the one it lies in. -/
def Unlinked (slot : GpfifoSlot) : Prop :=
  slot ∉ (s.pushbuffer.chunks (gpfifoToChunk (s.entries slot))).pendingGpfifos

instance (slot : GpfifoSlot) : Decidable (s.Unlinked slot) := inferInstanceAs (Decidable (¬ _))

/-- One call.  `uvm_pushbuffer_begin_push` tries to claim a chunk until it gets one, and other calls
come between its tries; the entry of a push that ends has been written by `uvm_channel_end_push`.
A push is begun once before it ends, and its entry is not pending. -/
def step (s : PushbufferCalls) : PushbufferCall → PushbufferCalls
  | .beginPush push =>
    if s.beginOffset push = none then
      match s.pushbuffer.tryClaimChunk push with
      | (none, _) => s
      | (some c, pb) =>
        { s with
          pushbuffer := pb
          beginOffset := update s.beginOffset push (some (chunkGetNextPushStart pb c)) }
    else s
  | .endPush push slot size =>
    match s.beginOffset push with
    | none => s
    | some offset =>
      if s.Unlinked slot then
        let entries := update s.entries slot
          { s.entries slot with
            pushbufferOffset := offset, pushbufferSize := size.1, push := push }
        { pushbuffer := uvmPushbufferEndPush entries s.pushbuffer slot
          entries := entries
          beginOffset := update s.beginOffset push none }
      else s
  | .markCompleted slot =>
    { s with pushbuffer := uvmPushbufferMarkCompleted s.entries s.pushbuffer slot }

def init (entries : GpfifoSlot → GpfifoEntry) : PushbufferCalls where
  pushbuffer := Pushbuffer.init
  entries := entries
  beginOffset := fun _ => none

/-- What a chunk offers to the next push is free. -/
structure ChunksSafe (s : PushbufferCalls) : Prop where
  /-- A chunk in one of the bitmaps offers a range of its own. -/
  within : ∀ c < uvmPushbufferChunks,
    s.pushbuffer.availableChunks c = true ∨ s.pushbuffer.idleChunks c = true →
      (s.pushbuffer.chunks c).nextPushStart + uvmMaxPushSize ≤ uvmPushbufferChunkSize
  /-- No pending entry lies in that range. -/
  pending : ∀ c < uvmPushbufferChunks,
    s.pushbuffer.availableChunks c = true ∨ s.pushbuffer.idleChunks c = true →
      ∀ c', ∀ slot ∈ (s.pushbuffer.chunks c').pendingGpfifos,
        (nextSpan s.pushbuffer c).Disjoint (s.entries slot).span
  /-- No push in progress can write to it. -/
  inProgress : ∀ c < uvmPushbufferChunks,
    s.pushbuffer.availableChunks c = true ∨ s.pushbuffer.idleChunks c = true →
      ∀ push offset, s.beginOffset push = some offset →
        (nextSpan s.pushbuffer c).Disjoint (pushSpan offset)
  /-- A chunk without pushes is idle and begins at its start. -/
  idle : ∀ c < uvmPushbufferChunks, (s.pushbuffer.chunks c).pendingGpfifos = [] →
    (s.pushbuffer.chunks c).currentPush = none →
      s.pushbuffer.idleChunks c = true ∧ (s.pushbuffer.chunks c).nextPushStart = 0

end PushbufferCalls

/-! ## The space in a chunk -/

namespace Pushbuffer

variable {entries : GpfifoSlot → GpfifoEntry} {pb : Pushbuffer} {c offset : ℕ}

/-- A push can be begun at the offset in a chunk whose pending entries have the given ranges. -/
def HasRoom (l : List Span) (c offset : ℕ) : Prop :=
  (pushSpan offset).Within (chunkSpan c) ∧ RingOrdered (l ++ [pushSpan offset])

def LiesIn (entry : GpfifoEntry) (c : ℕ) : Prop :=
  entry.span.Within (chunkSpan c) ∧ 0 < entry.pushbufferSize

theorem HasRoom.sublist {l l' : List Span} (h : HasRoom l c offset) (hl : l'.Sublist l) :
    HasRoom l' c offset :=
  ⟨h.1, h.2.sublist (hl.append_right _)⟩

theorem offsetToChunk_of_within {r : Span} (h : r.Within (chunkSpan c)) (hr : 0 < r.size) :
    offsetToChunk r.start = c := by
  obtain ⟨hstart, hstop⟩ := h
  simp only [chunkSpan, chunkGetOffset, Span.stop] at hstart hstop
  apply Nat.div_eq_of_lt_le hstart
  rw [Nat.succ_mul]
  omega

theorem chunkSpan_disjoint {c' : ℕ} (h : c ≠ c') : (chunkSpan c).Disjoint (chunkSpan c') := by
  have hbefore : ∀ {d d' : ℕ}, d < d' → (chunkSpan d).Before (chunkSpan d') := fun {d d'} hd => by
    have := Nat.mul_le_mul_right uvmPushbufferChunkSize (Nat.succ_le_of_lt hd)
    rw [Nat.succ_mul] at this
    exact this
  exact (Nat.lt_or_gt_of_ne h).imp hbefore hbefore

theorem updateChunk_room (hin : ∀ slot ∈ (pb.chunks c).pendingGpfifos, LiesIn (entries slot) c)
    (hord : RingOrdered (spans entries pb c)) :
    (updateChunk entries pb c = pb ∧ (pb.chunks c).pendingGpfifos ≠ []) ∨
      ∃ start, HasRoom (spans entries pb c) c (chunkGetOffset c + start) ∧
        ((updateChunk entries pb c).chunks c).nextPushStart = start ∧
          ((pb.chunks c).pendingGpfifos = [] → start = 0) := by
  rcases hpend : (pb.chunks c).pendingGpfifos with _ | ⟨first, rest⟩
  · -- the whole chunk
    have hmax : uvmMaxPushSize ≤ uvmPushbufferChunkSize := by decide
    refine .inr ⟨0, ?_, ?_, fun _ => rfl⟩
    · rw [Nat.add_zero]
      refine ⟨⟨le_rfl, Nat.add_le_add_left hmax (chunkGetOffset c)⟩, ?_⟩
      simpa [spans, hpend] using ringOrdered_singleton _
    · simp [updateChunk, chunkGetGpuGet, chunkGetCpuPut, hpend, setAvailable]
  have hne : (pb.chunks c).pendingGpfifos ≠ [] := by simp [hpend]
  obtain ⟨last, hlast⟩ : ∃ last, (pb.chunks c).pendingGpfifos.getLast? = some last :=
    ⟨_, List.getLast?_eq_some_getLast hne⟩
  have hfirst : (pb.chunks c).pendingGpfifos.head? = some first := by simp [hpend]
  have hget : chunkGetGpuGet entries pb c = (entries first).span.start - chunkGetOffset c := by
    simp [chunkGetGpuGet, hfirst, GpfifoEntry.span]
  have hput : chunkGetCpuPut entries pb c = (entries last).span.stop - chunkGetOffset c := by
    simp [chunkGetCpuPut, hlast, GpfifoEntry.span, Span.stop]
  have hfirstSpan : (spans entries pb c).head? = some (entries first).span := by
    simp [spans, hfirst]
  have hlastSpan : (spans entries pb c).getLast? = some (entries last).span := by
    simp [spans, hlast]
  obtain ⟨hfirstStart, hfirstStop⟩ := (hin first (List.mem_of_mem_head? hfirst)).1
  obtain ⟨hlastStart, hlastStop⟩ := (hin last (List.mem_of_getLast? hlast)).1
  have hlastPos := (entries last).span.start_le_stop
  have hfirstPos := (entries first).span.start_le_stop
  simp only [chunkSpan] at hfirstStart hlastStart
  change _ ≤ chunkGetOffset c + uvmPushbufferChunkSize at hfirstStop hlastStop
  -- room for a push behind the last entry, and room for one at the bottom
  have hend : (entries last).span.stop + uvmMaxPushSize ≤
        chunkGetOffset c + uvmPushbufferChunkSize →
      ((entries first).span.start < (entries last).span.stop ∨
        (entries last).span.stop + uvmMaxPushSize ≤ (entries first).span.start) →
      HasRoom (spans entries pb c) c (entries last).span.stop := fun hfits hfree =>
    ⟨⟨hlastStart.trans hlastPos, hfits⟩, hord.concat_end hfirstSpan hlastSpan le_rfl hfree⟩
  have hbottom : (entries first).span.start < (entries last).span.stop →
      chunkGetOffset c + uvmMaxPushSize ≤ (entries first).span.start →
      HasRoom (spans entries pb c) c (chunkGetOffset c) := fun hlt hfree =>
    ⟨⟨le_rfl, hfree.trans (hfirstPos.trans hfirstStop)⟩,
      hord.concat_bottom hfirstSpan hlastSpan hlt hfree⟩
  have hback : chunkGetOffset c + ((entries last).span.stop - chunkGetOffset c) =
      (entries last).span.stop := by omega
  have hcons : ¬ first :: rest = [] := by simp
  unfold updateChunk
  dsimp only
  rw [hget, hput]
  split
  · -- full
    exact .inl ⟨rfl, hcons⟩
  · split
    · split
      · refine .inr ⟨(entries last).span.stop - chunkGetOffset c, ?_, by simp [setAvailable],
          fun h => absurd h hcons⟩
        rw [hback]
        exact hend (by omega) (by omega)
      · exact .inl ⟨rfl, hcons⟩
    · split
      · refine .inr ⟨(entries last).span.stop - chunkGetOffset c, ?_, by simp [setAvailable],
          fun h => absurd h hcons⟩
        rw [hback]
        exact hend (by omega) (by omega)
      · split
        · refine .inr ⟨0, ?_, by simp [setAvailable], fun h => absurd h hcons⟩
          rw [Nat.add_zero]
          exact hbottom (by omega) (by omega)
        · exact .inl ⟨rfl, hcons⟩

/-- What a chunk in one of the bitmaps offers: room, and all of it if the chunk is idle. -/
structure Offers (entries : GpfifoSlot → GpfifoEntry) (pb : Pushbuffer) (c : ℕ) : Prop where
  room : pb.availableChunks c = true ∨ pb.idleChunks c = true →
    HasRoom (spans entries pb c) c (chunkGetNextPushStart pb c)
  start : pb.idleChunks c = true → (pb.chunks c).nextPushStart = 0

theorem updateChunk_offers (hin : ∀ slot ∈ (pb.chunks c).pendingGpfifos, LiesIn (entries slot) c)
    (hord : RingOrdered (spans entries pb c)) (hoffers : Offers entries pb c)
    (hidle : pb.idleChunks c = true → (pb.chunks c).pendingGpfifos = []) :
    Offers entries (updateChunk entries pb c) c := by
  have hspec := updateChunk_spec entries pb c fun slot hslot =>
    offsetToChunk_of_within (hin slot hslot).1 (hin slot hslot).2
  rcases updateChunk_room hin hord with ⟨hsame, -⟩ | ⟨start, hroom, hstart, hempty⟩
  · rw [hsame]
    exact hoffers
  · constructor
    · intro _
      simp only [spans, chunkGetNextPushStart, hspec.pendingGpfifos, hstart]
      exact hroom
    · intro h
      rw [hspec.idle, Bool.or_eq_true, List.isEmpty_iff] at h
      rw [hstart]
      exact hempty (h.elim hidle id)

theorem markCompleted_of_notMem {slot : GpfifoSlot}
    (h : slot ∉ (pb.chunks (gpfifoToChunk (entries slot))).pendingGpfifos) :
    uvmPushbufferMarkCompleted entries pb slot = pb := by
  have hhead : (pb.chunks (gpfifoToChunk (entries slot))).pendingGpfifos.head? ≠ some slot :=
    fun hhead => h (List.mem_of_mem_head? hhead)
  have hlast : (pb.chunks (gpfifoToChunk (entries slot))).pendingGpfifos.getLast? ≠ some slot :=
    fun hlast => h (List.mem_of_getLast? hlast)
  simp [uvmPushbufferMarkCompleted, hhead, hlast, List.erase_of_not_mem h, setChunk]

theorem markCompleted_offers {slot : GpfifoSlot} (hc : gpfifoToChunk (entries slot) = c)
    (hmem : slot ∈ (pb.chunks c).pendingGpfifos)
    (hin : ∀ slot ∈ (pb.chunks c).pendingGpfifos, LiesIn (entries slot) c)
    (hord : RingOrdered (spans entries pb c)) (hoffers : Offers entries pb c)
    (hidle : pb.idleChunks c = true → (pb.chunks c).pendingGpfifos = []) :
    Offers entries (uvmPushbufferMarkCompleted entries pb slot) c := by
  have hnotIdle : ¬ pb.idleChunks c = true := fun h => by simp [hidle h] at hmem
  have hsublist : ((pb.chunks c).pendingGpfifos.erase slot).Sublist (pb.chunks c).pendingGpfifos :=
    List.erase_sublist
  have herased : Offers entries (pb.setChunk c { pb.chunks c with
      pendingGpfifos := (pb.chunks c).pendingGpfifos.erase slot }) c := by
    constructor
    · intro h
      simp only [spans, chunkGetNextPushStart, setChunk_chunks, update_self]
      exact (hoffers.room h).sublist (hsublist.map _)
    · exact fun h => absurd h hnotIdle
  unfold uvmPushbufferMarkCompleted
  simp only [hc]
  split
  · apply updateChunk_offers
    · simp only [setChunk_chunks, update_self]
      exact fun slot' hslot' => hin slot' (List.mem_of_mem_erase hslot')
    · simp only [spans, setChunk_chunks, update_self]
      exact hord.sublist (hsublist.map _)
    · exact herased
    · exact fun h => absurd h hnotIdle
  · exact herased

/-- The pushbuffer with a chunk that a push has claimed. -/
def claim (pb : Pushbuffer) (c push : ℕ) : Pushbuffer :=
  { pb.setChunk c { pb.chunks c with currentPush := some push } with
    idleChunks := update pb.idleChunks c false
    availableChunks := update pb.availableChunks c false }

theorem tryClaimChunk_eq_some {push : ℕ} {pb' : Pushbuffer}
    (h : pb.tryClaimChunk push = (some c, pb')) : pb.pickChunk = some c ∧ pb' = pb.claim c push := by
  unfold tryClaimChunk at h
  cases hpick : pb.pickChunk with
  | none => simp [hpick] at h
  | some d =>
    simp only [hpick, Prod.mk.injEq, Option.some.injEq] at h
    obtain ⟨rfl, rfl⟩ := h
    exact ⟨rfl, rfl⟩

/-- What `uvm_pushbuffer_end_push` does to the chunk of the entry. -/
structure EndedSpec (c : ℕ) (slot : GpfifoSlot) (pb pb' : Pushbuffer) : Prop where
  others : ∀ c' ≠ c, pb'.chunks c' = pb.chunks c' ∧ pb'.idleChunks c' = pb.idleChunks c' ∧
    pb'.availableChunks c' = pb.availableChunks c'
  pendingGpfifos : (pb'.chunks c).pendingGpfifos = (pb.chunks c).pendingGpfifos ++ [slot]
  currentPush : (pb'.chunks c).currentPush = none
  idle : pb'.idleChunks c = pb.idleChunks c

/-- The chunk with the entry on its list, as `update_chunk` finds it. -/
def linkEntry (pb : Pushbuffer) (c : ℕ) (slot : GpfifoSlot) : Pushbuffer :=
  pb.setChunk c { pb.chunks c with pendingGpfifos := (pb.chunks c).pendingGpfifos ++ [slot] }

section EndPush

variable {slot : GpfifoSlot} (hc : gpfifoToChunk (entries slot) = c)
  (hin : ∀ slot' ∈ (pb.chunks c).pendingGpfifos ++ [slot], LiesIn (entries slot') c)

include hc hin

theorem endPush_spec : EndedSpec c slot pb (uvmPushbufferEndPush entries pb slot) := by
  have hspec := updateChunk_spec entries (pb.linkEntry c slot) c fun slot' hslot' => by
    simp only [linkEntry, setChunk_chunks, update_self] at hslot'
    exact offsetToChunk_of_within (hin slot' hslot').1 (hin slot' hslot').2
  obtain ⟨hothers, hpend, -, hidle, -⟩ := hspec
  have hne : ((pb.linkEntry c slot).chunks c).pendingGpfifos.isEmpty = false := by simp [linkEntry]
  rw [hne, Bool.or_false] at hidle
  unfold uvmPushbufferEndPush
  simp only [hc]
  constructor
  · intro c' hc'
    simpa [linkEntry, update_of_ne hc'] using hothers c' hc'
  · simpa [linkEntry] using hpend
  · simp
  · simpa [linkEntry] using hidle

theorem endPush_offers (hord : RingOrdered (spans entries (pb.linkEntry c slot) c))
    (hclosed : ¬ (pb.availableChunks c = true ∨ pb.idleChunks c = true)) :
    Offers entries (uvmPushbufferEndPush entries pb slot) c := by
  have hoffers : Offers entries (updateChunk entries (pb.linkEntry c slot) c) c := by
    apply updateChunk_offers
    · simpa [linkEntry] using hin
    · exact hord
    · exact ⟨fun h => absurd h hclosed, fun h => absurd (.inr h) hclosed⟩
    · exact fun h => absurd (.inr h) hclosed
  unfold uvmPushbufferEndPush
  simp only [hc, ← linkEntry.eq_1]
  constructor
  · intro h
    simpa [spans, chunkGetNextPushStart] using hoffers.room h
  · intro h
    simpa using hoffers.start h

end EndPush

end Pushbuffer

/-! ## The invariant -/

namespace PushbufferCalls

variable {s s' : PushbufferCalls}

/-- One chunk: its pending entries in the order of their ranges, and the range of its current
push. -/
structure ChunkInv (s : PushbufferCalls) (c : ℕ) : Prop where
  nodup : (s.pushbuffer.chunks c).pendingGpfifos.Nodup
  liesIn : ∀ slot ∈ (s.pushbuffer.chunks c).pendingGpfifos, LiesIn (s.entries slot) c
  ordered : RingOrdered (spans s.entries s.pushbuffer c)
  offers : Offers s.entries s.pushbuffer c
  vacant : s.pushbuffer.availableChunks c = true ∨ s.pushbuffer.idleChunks c = true →
    (s.pushbuffer.chunks c).currentPush = none
  current : ∀ push, (s.pushbuffer.chunks c).currentPush = some push →
    ∃ offset, s.beginOffset push = some offset ∧
      HasRoom (spans s.entries s.pushbuffer c) c offset
  idle : s.pushbuffer.idleChunks c = true ↔ (s.pushbuffer.chunks c).pendingGpfifos = [] ∧
    (s.pushbuffer.chunks c).currentPush = none

/-- The invariant of the calls. -/
structure CallsInv (s : PushbufferCalls) : Prop where
  chunk : ∀ c, s.ChunkInv c
  /-- A push in progress is the current push of the chunk that it writes to. -/
  inProgress : ∀ push offset, s.beginOffset push = some offset →
    (s.pushbuffer.chunks (offsetToChunk offset)).currentPush = some push

theorem ChunkInv.congr {c : ℕ} (h : s.ChunkInv c)
    (hchunk : s'.pushbuffer.chunks c = s.pushbuffer.chunks c)
    (hidle : s'.pushbuffer.idleChunks c = s.pushbuffer.idleChunks c)
    (havail : s'.pushbuffer.availableChunks c = s.pushbuffer.availableChunks c)
    (hents : ∀ slot ∈ (s.pushbuffer.chunks c).pendingGpfifos, s'.entries slot = s.entries slot)
    (hbegin : ∀ push, (s.pushbuffer.chunks c).currentPush = some push →
      s'.beginOffset push = s.beginOffset push) : s'.ChunkInv c := by
  have hspans : spans s'.entries s'.pushbuffer c = spans s.entries s.pushbuffer c := by
    simp only [spans, hchunk]
    exact List.map_congr_left fun slot hslot => by rw [hents slot hslot]
  refine { nodup := ?_, liesIn := ?_, ordered := ?_, offers := ⟨?_, ?_⟩, vacant := ?_,
           current := ?_, idle := ?_ }
  · rw [hchunk]
    exact h.nodup
  · intro slot hslot
    rw [hchunk] at hslot
    rw [hents slot hslot]
    exact h.liesIn slot hslot
  · rw [hspans]
    exact h.ordered
  · rw [hspans, havail, hidle, chunkGetNextPushStart, hchunk]
    exact h.offers.room
  · rw [hidle, hchunk]
    exact h.offers.start
  · rw [havail, hidle, hchunk]
    exact h.vacant
  · intro push hpush
    rw [hchunk] at hpush
    rw [hbegin push hpush, hspans]
    exact h.current push hpush
  · rw [hidle, hchunk]
    exact h.idle

theorem CallsInv.gpfifoToChunk_eq (h : s.CallsInv) {c : ℕ} {slot : GpfifoSlot}
    (hslot : slot ∈ (s.pushbuffer.chunks c).pendingGpfifos) :
    gpfifoToChunk (s.entries slot) = c :=
  have hin := (h.chunk c).liesIn slot hslot
  offsetToChunk_of_within hin.1 hin.2

theorem init_inv (entries : GpfifoSlot → GpfifoEntry) : (init entries).CallsInv where
  chunk := fun c => by
    have hmax : uvmMaxPushSize ≤ uvmPushbufferChunkSize := by decide
    refine { nodup := by simp [init, Pushbuffer.init], liesIn := by simp [init, Pushbuffer.init],
             ordered := ⟨[], [], by simp [spans, init, Pushbuffer.init]⟩, offers := ⟨?_, ?_⟩,
             vacant := by simp [init, Pushbuffer.init],
             current := by simp [init, Pushbuffer.init],
             idle := by simp [init, Pushbuffer.init] }
    · intro _
      simp only [chunkGetNextPushStart, init, Pushbuffer.init, spans, Nat.add_zero]
      exact ⟨⟨le_rfl, Nat.add_le_add_left hmax (chunkGetOffset c)⟩, ringOrdered_singleton _⟩
    · simp [init, Pushbuffer.init]
  inProgress := by simp [init]

/-! ## The calls -/

private theorem inv_beginPush (h : s.CallsInv) {push c : ℕ} (hpush : s.beginOffset push = none)
    {pb : Pushbuffer} (hclaim : s.pushbuffer.tryClaimChunk push = (some c, pb)) :
    CallsInv { s with
      pushbuffer := pb
      beginOffset := update s.beginOffset push (some (chunkGetNextPushStart pb c)) } := by
  obtain ⟨hpick, rfl⟩ := tryClaimChunk_eq_some hclaim
  have hstart : chunkGetNextPushStart (s.pushbuffer.claim c push) c =
      chunkGetNextPushStart s.pushbuffer c := by
    simp [chunkGetNextPushStart, claim]
  rw [hstart]
  have hbitmap := (s.pushbuffer.pickChunk_eq_some hpick).2.symm
  have hc := h.chunk c
  have hroom := hc.offers.room hbitmap
  have hvacant := hc.vacant hbitmap
  constructor
  · intro c'
    by_cases hc' : c' = c
    · subst hc'
      refine { nodup := ?_, liesIn := ?_, ordered := ?_, offers := ⟨?_, ?_⟩, vacant := ?_,
               current := ?_, idle := ?_ }
      · simpa [claim] using hc.nodup
      · simpa [claim] using hc.liesIn
      · simpa [claim, spans] using hc.ordered
      · simp [claim]
      · simp [claim]
      · simp [claim]
      · intro q hq
        obtain rfl : push = q := by simpa [claim] using hq
        exact ⟨_, update_self .., by simpa [claim, spans] using hroom⟩
      · simp [claim]
    · apply (h.chunk c').congr
      · exact update_of_ne hc' ..
      · exact update_of_ne hc' ..
      · exact update_of_ne hc' ..
      · exact fun _ _ => rfl
      · intro q hq
        -- the push is the current push of no chunk yet
        obtain ⟨offset, hoff, -⟩ := (h.chunk c').current q hq
        have hne : q ≠ push := by
          rintro rfl
          simp [hpush] at hoff
        exact update_of_ne hne ..
  · intro q offset hq
    dsimp only at hq ⊢
    by_cases hqp : q = push
    · subst hqp
      rw [update_self, Option.some.injEq] at hq
      subst hq
      have hchunk : offsetToChunk (chunkGetNextPushStart s.pushbuffer c) = c :=
        offsetToChunk_of_within hroom.1 (by decide : 0 < uvmMaxPushSize)
      rw [hchunk]
      simp [claim]
    · rw [update_of_ne hqp] at hq
      have hcur := h.inProgress q offset hq
      have hne : offsetToChunk offset ≠ c := by
        rintro heq
        rw [heq, hvacant] at hcur
        simp at hcur
      simpa [claim, update_of_ne hne] using hcur

private theorem inv_endPush (h : s.CallsInv) {push offset : ℕ} {slot : GpfifoSlot}
    (size : PushSize) (hpush : s.beginOffset push = some offset) (hunlinked : s.Unlinked slot)
    {entries : GpfifoSlot → GpfifoEntry}
    (hents : entries = update s.entries slot
      { s.entries slot with
        pushbufferOffset := offset, pushbufferSize := size.1, push := push }) :
    CallsInv ⟨uvmPushbufferEndPush entries s.pushbuffer slot, entries,
      update s.beginOffset push none⟩ := by
  have hnotMem : ∀ c, slot ∉ (s.pushbuffer.chunks c).pendingGpfifos := fun c hslot =>
    hunlinked (by rwa [h.gpfifoToChunk_eq hslot])
  have hother : ∀ c, ∀ slot' ∈ (s.pushbuffer.chunks c).pendingGpfifos,
      entries slot' = s.entries slot' := fun c slot' hslot' => by
    rw [hents]
    exact update_of_ne (ne_of_mem_of_not_mem hslot' (hnotMem c)) ..
  have hslot : (entries slot).span = ⟨offset, size.1⟩ := by simp [hents, GpfifoEntry.span]
  have hc : gpfifoToChunk (entries slot) = offsetToChunk offset := by
    simp [hents, gpfifoToChunk]
  have hcur := h.inProgress push offset hpush
  generalize offsetToChunk offset = c at hc hcur
  obtain ⟨_, hoff, hroom⟩ := (h.chunk c).current push hcur
  rw [hpush, Option.some.injEq] at hoff
  subst hoff
  have hwithin : Span.Within ⟨offset, size.1⟩ (pushSpan offset) := Span.within_of_size_le size.2.2
  have hspans : (s.pushbuffer.chunks c).pendingGpfifos.map (fun slot => (entries slot).span) ++
      [(entries slot).span] = spans s.entries s.pushbuffer c ++ [⟨offset, size.1⟩] := by
    rw [hslot, spans, List.map_congr_left fun slot' hslot' => by rw [hother c slot' hslot']]
  have hord : RingOrdered (spans s.entries s.pushbuffer c ++ [⟨offset, size.1⟩]) :=
    hroom.2.shrink_last hwithin
  have hin : ∀ slot' ∈ (s.pushbuffer.chunks c).pendingGpfifos ++ [slot],
      LiesIn (entries slot') c := by
    intro slot' hslot'
    rcases List.mem_append.mp hslot' with hslot' | hslot'
    · rw [hother c slot' hslot']
      exact (h.chunk c).liesIn slot' hslot'
    · rw [List.mem_singleton] at hslot'
      subst hslot'
      refine ⟨?_, ?_⟩
      · rw [hslot]
        exact hwithin.trans hroom.1
      · simpa [hents] using size.2.1
  have hclosed : ¬ (s.pushbuffer.availableChunks c = true ∨ s.pushbuffer.idleChunks c = true) :=
    fun hbitmap => by simp [(h.chunk c).vacant hbitmap] at hcur
  have hspec := endPush_spec hc hin
  have hoffers := endPush_offers hc hin (by simpa [spans, linkEntry, hspans] using hord) hclosed
  constructor
  · intro c'
    by_cases hc' : c' = c
    · subst hc'
      refine { nodup := ?_, liesIn := ?_, ordered := ?_, offers := hoffers, vacant := ?_,
               current := ?_, idle := ?_ }
      · rw [hspec.pendingGpfifos]
        simpa using List.Nodup.concat (hnotMem c') (h.chunk c').nodup
      · rw [hspec.pendingGpfifos]
        exact hin
      · simpa [spans, hspec.pendingGpfifos, hspans] using hord
      · exact fun _ => hspec.currentPush
      · simp [hspec.currentPush]
      · have hidle : s.pushbuffer.idleChunks c' ≠ true := fun h => hclosed (.inr h)
        simp [hspec.idle, hspec.pendingGpfifos, hidle]
    · obtain ⟨hchunk, hidle, havail⟩ := hspec.others c' hc'
      apply (h.chunk c').congr hchunk hidle havail (hother c')
      intro q hq
      -- the push that ends is the current push of its own chunk
      obtain ⟨offset', hoffset', hroom'⟩ := (h.chunk c').current q hq
      have hne : q ≠ push := by
        rintro rfl
        rw [hpush, Option.some.injEq] at hoffset'
        subst hoffset'
        apply hc'
        rw [← offsetToChunk_of_within hroom'.1 (by decide : 0 < uvmMaxPushSize),
          offsetToChunk_of_within hroom.1 (by decide : 0 < uvmMaxPushSize)]
      exact update_of_ne hne ..
  · intro q offset' hq
    have hne : q ≠ push := by
      rintro rfl
      simp at hq
    simp only [update_of_ne hne] at hq
    have hcurrent' := h.inProgress q offset' hq
    have hc' : offsetToChunk offset' ≠ c := fun heq => by
      rw [heq, hcur, Option.some.injEq] at hcurrent'
      exact hne hcurrent'.symm
    rw [(hspec.others _ hc').1]
    exact hcurrent'

private theorem inv_markCompleted (h : s.CallsInv) (slot : GpfifoSlot) :
    CallsInv { s with pushbuffer := uvmPushbufferMarkCompleted s.entries s.pushbuffer slot } := by
  by_cases hmem : slot ∈ (s.pushbuffer.chunks (gpfifoToChunk (s.entries slot))).pendingGpfifos
  · generalize hc : gpfifoToChunk (s.entries slot) = c at hmem
    have hchunk := h.chunk c
    have hspec := markCompleted_spec s.entries s.pushbuffer hmem hc fun slot' hslot' =>
      h.gpfifoToChunk_eq hslot'
    have hoffers := markCompleted_offers hc hmem hchunk.liesIn hchunk.ordered hchunk.offers
      fun hidle => (hchunk.idle.mp hidle).1
    have hsublist : ((s.pushbuffer.chunks c).pendingGpfifos.erase slot).Sublist
        (s.pushbuffer.chunks c).pendingGpfifos := List.erase_sublist
    have hspans : (spans s.entries (uvmPushbufferMarkCompleted s.entries s.pushbuffer slot)
        c).Sublist (spans s.entries s.pushbuffer c) := by
      rw [spans, hspec.pendingGpfifos]
      exact hsublist.map _
    have hidle : (uvmPushbufferMarkCompleted s.entries s.pushbuffer slot).idleChunks c = true ↔
        (s.pushbuffer.chunks c).pendingGpfifos.erase slot = [] ∧
          (s.pushbuffer.chunks c).currentPush = none := by
      have hbefore : s.pushbuffer.idleChunks c ≠ true := fun h => by
        simp [(hchunk.idle.mp h).1] at hmem
      simp [hspec.idle, hbefore]
    constructor
    · intro c'
      by_cases hc' : c' = c
      · subst hc'
        refine { nodup := ?_, liesIn := ?_, ordered := hchunk.ordered.sublist hspans,
                 offers := hoffers, vacant := ?_, current := ?_, idle := ?_ }
        · rw [hspec.pendingGpfifos]
          exact hchunk.nodup.erase slot
        · rw [hspec.pendingGpfifos]
          exact fun slot' hslot' => hchunk.liesIn slot' (hsublist.subset hslot')
        · rw [hspec.currentPush]
          rintro (havail | hidle')
          · exact (hspec.available havail).elim (fun h => hchunk.vacant (.inl h)) id
          · exact (hidle.mp hidle').2
        · intro push hpush
          rw [hspec.currentPush] at hpush
          obtain ⟨offset, hoff, hroom⟩ := hchunk.current push hpush
          exact ⟨offset, hoff, hroom.sublist hspans⟩
        · rw [hspec.currentPush, hspec.pendingGpfifos]
          exact hidle
      · obtain ⟨hsame, hidle', havail⟩ := hspec.others c' hc'
        exact (h.chunk c').congr hsame hidle' havail (fun _ _ => rfl) fun _ _ => rfl
    · intro push offset hpush
      have hcur := h.inProgress push offset hpush
      by_cases hc' : offsetToChunk offset = c
      · rw [hc'] at hcur ⊢
        rw [hspec.currentPush]
        exact hcur
      · rw [(hspec.others _ hc').1]
        exact hcur
  · rw [markCompleted_of_notMem hmem]
    exact h

theorem inv_step (s : PushbufferCalls) (call : PushbufferCall) (h : s.CallsInv) :
    (s.step call).CallsInv := by
  cases call with
  | beginPush push =>
    simp only [step]
    split
    · next hpush =>
      rcases hclaim : s.pushbuffer.tryClaimChunk push with ⟨_ | c, pb⟩
      · exact h
      · exact inv_beginPush h hpush hclaim
    · exact h
  | endPush push slot size =>
    simp only [step]
    split
    · exact h
    · next offset hpush =>
      split
      · next hunlinked => exact inv_endPush h size hpush hunlinked rfl
      · exact h
  | markCompleted slot => exact inv_markCompleted h slot

/-! ## The result -/

theorem CallsInv.hasRoom (h : s.CallsInv) {push offset : ℕ}
    (hpush : s.beginOffset push = some offset) :
    HasRoom (spans s.entries s.pushbuffer (offsetToChunk offset)) (offsetToChunk offset) offset := by
  obtain ⟨_, hoff, hroom⟩ := (h.chunk _).current push (h.inProgress push offset hpush)
  rw [hpush, Option.some.injEq] at hoff
  rwa [← hoff] at hroom

theorem CallsInv.chunksSafe (h : s.CallsInv) : s.ChunksSafe where
  within := fun c _ hbitmap => by
    have hstop := ((h.chunk c).offers.room hbitmap).1.2
    simp only [pushSpan, chunkSpan, chunkGetNextPushStart, Span.stop] at hstop
    omega
  pending := fun c _ hbitmap c' slot hslot => by
    have hroom := (h.chunk c).offers.room hbitmap
    by_cases hc' : c = c'
    · subst hc'
      exact hroom.2.disjoint_last (List.mem_map_of_mem hslot)
    · exact (chunkSpan_disjoint hc').mono hroom.1 ((h.chunk c').liesIn slot hslot).1
  inProgress := fun c _ hbitmap push offset hpush => by
    have hc' : c ≠ offsetToChunk offset := fun heq => by
      have hvacant := (h.chunk c).vacant hbitmap
      rw [heq, h.inProgress push offset hpush] at hvacant
      simp at hvacant
    exact (chunkSpan_disjoint hc').mono ((h.chunk c).offers.room hbitmap).1 (h.hasRoom hpush).1
  idle := fun c _ hpend hcur => by
    have hidle := (h.chunk c).idle.mpr ⟨hpend, hcur⟩
    exact ⟨hidle, (h.chunk c).offers.start hidle⟩

/-- **After every sequence of calls, what the chunks in the bitmaps offer is free**, whatever the
entries hold before they are used. -/
theorem chunksSafe_along (entries : GpfifoSlot → GpfifoEntry) (calls : List PushbufferCall) :
    HoldsAlong step ChunksSafe (init entries) calls := fun pre _ =>
  (run_inv step (init_inv entries) inv_step pre).chunksSafe

end PushbufferCalls

end NvUvm
