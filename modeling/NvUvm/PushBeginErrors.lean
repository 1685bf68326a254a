import NvUvm.PushBegin
import NvUvm.PushbufferRanges

/-!
# Push begins that fail

In which runs a push begin that fails leaves nothing claimed.
-/

namespace NvUvm

open Lib Lib.Ring Pushbuffer
open Function (update update_of_ne update_self)

/-! ## The bitmaps -/

namespace Pushbuffer

variable (entries : GpfifoSlot → GpfifoEntry) (pb : Pushbuffer)

/-- `update_chunk` changes no list and no current push, and sets the bits of an empty chunk. -/
structure UpdateKeeps (c : ℕ) (pb pb' : Pushbuffer) : Prop where
  pendingGpfifos : ∀ c', (pb'.chunks c').pendingGpfifos = (pb.chunks c').pendingGpfifos
  currentPush : ∀ c', (pb'.chunks c').currentPush = (pb.chunks c').currentPush
  idle : ∀ c', pb.idleChunks c' = true → pb'.idleChunks c' = true
  available : ∀ c', pb.availableChunks c' = true → pb'.availableChunks c' = true
  empty : (pb.chunks c).pendingGpfifos = [] →
    pb'.idleChunks c = true ∧ pb'.availableChunks c = true

variable {c : ℕ}

theorem updateKeeps_refl (h : (pb.chunks c).pendingGpfifos ≠ []) : UpdateKeeps c pb pb :=
  ⟨fun _ => rfl, fun _ => rfl, fun _ => id, fun _ => id, fun hempty => absurd hempty h⟩

theorem updateKeeps_setAvailable (start : ℕ) {idle : Bool}
    (hidle : pb.idleChunks c = true → idle = true)
    (hempty : (pb.chunks c).pendingGpfifos = [] → idle = true) :
    UpdateKeeps c pb { pb.setAvailable c start with
      idleChunks := update pb.idleChunks c idle } where
  pendingGpfifos := by
    intro c'
    by_cases hc : c' = c <;> simp [setAvailable, hc]
  currentPush := by
    intro c'
    by_cases hc : c' = c <;> simp [setAvailable, hc]
  idle := by
    intro c' h
    by_cases hc : c' = c
    · subst hc
      simpa using hidle h
    · simpa [hc] using h
  available := by
    intro c' h
    by_cases hc : c' = c
    · simp [setAvailable, hc]
    · simpa [setAvailable, hc] using h
  empty := fun h => by simpa [setAvailable] using hempty h

theorem updateChunk_keeps (c : ℕ) : UpdateKeeps c pb (updateChunk entries pb c) := by
  by_cases hempty : (pb.chunks c).pendingGpfifos = []
  · have hupd : updateChunk entries pb c =
        { pb.setAvailable c 0 with idleChunks := update pb.idleChunks c true } := by
      simp [updateChunk, chunkGetGpuGet, chunkGetCpuPut, hempty]
    rw [hupd]
    exact updateKeeps_setAvailable pb 0 (fun _ => rfl) fun _ => rfl
  · have havail : ∀ start, UpdateKeeps c pb (pb.setAvailable c start) := fun start => by
      have h := updateKeeps_setAvailable pb (c := c) start id fun h => absurd h hempty
      rwa [Function.update_eq_self] at h
    have hrefl := updateKeeps_refl pb hempty
    unfold updateChunk
    dsimp only
    split
    · simpa only [ne_eq, hempty, not_false_eq_true] using hrefl
    · split
      · split
        · exact havail _
        · exact hrefl
      · split
        · exact havail _
        · split
          · exact havail _
          · exact hrefl

def Vacant (pb : Pushbuffer) : Prop :=
  ∀ c, (pb.chunks c).currentPush = none → (pb.chunks c).pendingGpfifos = [] →
    pb.idleChunks c = true ∧ pb.availableChunks c = true

variable {entries pb}

theorem Vacant.claim (h : pb.Vacant) (c push : ℕ) : (pb.claim c push).Vacant := by
  intro c' hcur hpend
  have hc : c' ≠ c := by
    rintro rfl
    simp [Pushbuffer.claim] at hcur
  simp only [Pushbuffer.claim, setChunk_chunks, update_of_ne hc] at hcur hpend ⊢
  exact h c' hcur hpend

theorem vacant_updateChunk (h : ∀ c' ≠ c, (pb.chunks c').currentPush = none →
    (pb.chunks c').pendingGpfifos = [] → pb.idleChunks c' = true ∧ pb.availableChunks c' = true) :
    (updateChunk entries pb c).Vacant := by
  have hkeep := updateChunk_keeps entries pb c
  intro c' hcur hpend
  rw [hkeep.currentPush] at hcur
  rw [hkeep.pendingGpfifos] at hpend
  by_cases hc : c' = c
  · subst hc
    exact hkeep.empty hpend
  · obtain ⟨hidle, havail⟩ := h c' hc hcur hpend
    exact ⟨hkeep.idle c' hidle, hkeep.available c' havail⟩

theorem Vacant.endPush (h : pb.Vacant) (slot : GpfifoSlot) :
    (uvmPushbufferEndPush entries pb slot).Vacant := by
  unfold uvmPushbufferEndPush
  generalize gpfifoToChunk (entries slot) = c
  have hkeep := updateChunk_keeps entries (pb.linkEntry c slot) c
  have hvacant : (updateChunk entries (pb.linkEntry c slot) c).Vacant := by
    apply vacant_updateChunk
    intro c' hc hcur hpend
    simp only [linkEntry, setChunk_chunks, update_of_ne hc] at hcur hpend
    exact h c' hcur hpend
  intro c' hcur hpend
  by_cases hc : c' = c
  · -- the list holds the entry
    subst hc
    have hlist := hkeep.pendingGpfifos c'
    rw [setChunk_chunks, update_self] at hpend
    change ((updateChunk entries (pb.linkEntry c' slot) c').chunks c').pendingGpfifos = [] at hpend
    rw [hlist] at hpend
    simp [linkEntry] at hpend
  · rw [setChunk_chunks, update_of_ne hc] at hcur hpend
    exact hvacant c' hcur hpend

theorem Vacant.markCompleted (h : pb.Vacant) (slot : GpfifoSlot) :
    (uvmPushbufferMarkCompleted entries pb slot).Vacant := by
  unfold uvmPushbufferMarkCompleted
  dsimp only
  generalize gpfifoToChunk (entries slot) = c
  have hothers : ∀ c' ≠ c, ∀ chunk, ((pb.setChunk c chunk).chunks c').currentPush = none →
      ((pb.setChunk c chunk).chunks c').pendingGpfifos = [] →
        pb.idleChunks c' = true ∧ pb.availableChunks c' = true := by
    intro c' hc chunk hcur hpend
    rw [setChunk_chunks, update_of_ne hc] at hcur hpend
    exact h c' hcur hpend
  split
  · exact vacant_updateChunk fun c' hc => hothers c' hc _
  · next hupd =>
    intro c' hcur hpend
    by_cases hc : c' = c
    · subst hc
      simp only [setChunk_chunks, update_self] at hcur hpend
      rw [List.erase_eq_nil_iff] at hpend
      rcases hpend with hpend | hpend
      · exact h c' hcur hpend
      · -- the only entry of a list is its first one
        simp [hpend, hcur] at hupd
    · exact hothers c' hc _ hcur hpend

theorem currentPush_endPush {slot : GpfifoSlot} {push : ℕ}
    (h : ((uvmPushbufferEndPush entries pb slot).chunks c).currentPush = some push) :
    (pb.chunks c).currentPush = some push := by
  unfold uvmPushbufferEndPush at h
  generalize gpfifoToChunk (entries slot) = c' at h
  have hkeep := updateChunk_keeps entries (pb.linkEntry c' slot) c'
  by_cases hc : c = c'
  · simp [hc] at h
  · rw [setChunk_chunks, update_of_ne hc] at h
    have hsame := hkeep.currentPush c
    simp only [linkEntry, setChunk_chunks, update_of_ne hc] at hsame
    rw [← hsame]
    exact h

theorem currentPush_markCompleted (slot : GpfifoSlot) (c : ℕ) :
    ((uvmPushbufferMarkCompleted entries pb slot).chunks c).currentPush =
      (pb.chunks c).currentPush := by
  unfold uvmPushbufferMarkCompleted
  dsimp only
  generalize gpfifoToChunk (entries slot) = c'
  have hset : ∀ l, ((pb.setChunk c' { pb.chunks c' with pendingGpfifos := l }).chunks c).currentPush =
      (pb.chunks c).currentPush := by
    by_cases hc : c = c'
    · simp [hc]
    · simp [hc]
  split
  · exact ((updateChunk_keeps entries _ c').currentPush c).trans (hset _)
  · exact hset _

end Pushbuffer

def Push.HasBegun (p : Push) : Prop := p.phase = .begun ∨ p.phase = .submitted ∨ p.phase = .ended

namespace ChannelManager

variable (m : ChannelManager)

/-- The bits of the chunks that nobody uses, and the current pushes of the others. -/
structure BitmapsInv : Prop where
  vacant : m.pushbuffer.Vacant
  begun : ∀ c push, (m.pushbuffer.chunks c).currentPush = some push → (m.pushes push).HasBegun

theorem bitmapsInv_init (numGpFifoEntries : ℕ → { n : ℕ // 0 < n }) :
    (init numGpFifoEntries).BitmapsInv where
  vacant := by simp [Vacant, init, Pushbuffer.init]
  begun := by simp [init, Pushbuffer.init]

theorem BitmapsInv.completeEntries (mode : UpdateMode) (id completedValue left : ℕ) :
    ∀ (g : ℕ) (m : ChannelManager), m.BitmapsInv →
      (completeEntries mode id completedValue left (g, m)).2.BitmapsInv := by
  induction left with
  | zero => exact fun _ _ h => h
  | succ left ih =>
    intro g m h
    unfold ChannelManager.completeEntries
    dsimp only
    split
    · exact h
    · split
      · exact h
      · apply ih
        refine ⟨h.vacant.markCompleted _, fun c push hcur => ?_⟩
        have hbegun := h.begun c push ((currentPush_markCompleted _ c).symm.trans hcur)
        simpa only [Push.HasBegun, (markCompleted_push (m := m) (id, g) push).1] using hbegun

theorem BitmapsInv.step {m : ChannelManager} (h : m.BitmapsInv) (op : ManagerStep) : (m.step op).BitmapsInv := by
  cases op with
  | tryClaimChannel push id =>
    rcases m.step_tryClaimChannel push id with heq | ⟨hfree, -, heq⟩
    · rwa [heq]
    · rw [heq]
      refine ⟨h.vacant, fun c q hcur => ?_⟩
      have hbegun := h.begun c q hcur
      have hq : q ≠ push := by
        rintro rfl
        simp [Push.HasBegun, hfree] at hbegun
      simpa [hq] using hbegun
  | tryClaimChunk push =>
    rcases m.step_tryClaimChunk push with heq | ⟨c, pb, -, hclaim, heq⟩
    · rwa [heq]
    · rw [heq]
      obtain ⟨-, rfl⟩ := tryClaimChunk_eq_some hclaim
      refine ⟨h.vacant.claim c push, fun c' q hcur => ?_⟩
      by_cases hq : q = push
      · simp [hq, Push.HasBegun]
      · have hc : c' ≠ c := by
          rintro rfl
          simp [Pushbuffer.claim, Ne.symm hq] at hcur
        simp only [setPush_pushbuffer, Pushbuffer.claim, setChunk_chunks,
          update_of_ne hc] at hcur
        simpa [hq] using h.begun c' q hcur
  | endPush push size =>
    simp only [ChannelManager.step]
    split
    case isFalse => exact h
    case isTrue =>
      refine ⟨h.vacant, fun c q hcur => ?_⟩
      have hbegun := h.begun c q hcur
      by_cases hq : q = push
      · simp [hq, endPushSection, Push.HasBegun]
      · simpa [hq, endPushSection] using hbegun
  | pushbufferEndPush push =>
    simp only [ChannelManager.step]
    split
    case isFalse => exact h
    case isTrue =>
      refine ⟨h.vacant.endPush _, fun c q hcur => ?_⟩
      have hbegun := h.begun c q (currentPush_endPush hcur)
      by_cases hq : q = push
      · simp [hq, Push.HasBegun]
      · simpa [hq] using hbegun
  | complete id value =>
    simp only [ChannelManager.step]
    split
    · exact ⟨h.vacant, h.begun⟩
    · exact h
  | updateProgress id completedValue maxToComplete =>
    simp only [ChannelManager.step]
    split
    · have hloop := BitmapsInv.completeEntries .completed id completedValue maxToComplete
        (m.channels id).gpuGet m h
      exact ⟨hloop.vacant, hloop.begun⟩
    · exact h

/-! ## The pushes -/

variable {push : ℕ}

theorem step_pushes_of_ne (op : ManagerStep) {q : ℕ} (hop : op.push = some push) (hq : q ≠ push) :
    (m.step op).pushes q = m.pushes q := by
  cases op with
  | tryClaimChannel push' id =>
    obtain rfl : push' = push := by simpa [ManagerStep.push] using hop
    rcases m.step_tryClaimChannel push' id with heq | ⟨-, -, heq⟩
    · rw [heq]
    · simp [heq, hq]
  | tryClaimChunk push' =>
    obtain rfl : push' = push := by simpa [ManagerStep.push] using hop
    rcases m.step_tryClaimChunk push' with heq | ⟨c, pb, -, -, heq⟩
    · rw [heq]
    · simp [heq, hq]
  | endPush push' size =>
    obtain rfl : push' = push := by simpa [ManagerStep.push] using hop
    simp only [ChannelManager.step]
    split
    · simp [endPushSection, hq]
    · rfl
  | pushbufferEndPush push' =>
    obtain rfl : push' = push := by simpa [ManagerStep.push] using hop
    simp only [ChannelManager.step]
    split
    · simp [hq]
    · rfl
  | complete id value => simp [ManagerStep.push] at hop
  | updateProgress id completedValue maxToComplete => simp [ManagerStep.push] at hop

theorem step_pushes_of_none (op : ManagerStep) (hop : op.push = none) (q : ℕ) :
    ((m.step op).pushes q).phase = (m.pushes q).phase ∧
      ((m.step op).pushes q).channel = (m.pushes q).channel := by
  cases op with
  | complete id value =>
    simp only [ChannelManager.step]
    split <;> exact ⟨rfl, rfl⟩
  | updateProgress id completedValue maxToComplete =>
    simp only [ChannelManager.step]
    split
    · obtain ⟨-, hpush⟩ :=
        completeEntries_keeps .completed id completedValue maxToComplete (m.channels id).gpuGet m
      exact ⟨(hpush q).1, congrArg Prod.fst (hpush q).2⟩
    · exact ⟨rfl, rfl⟩
  | tryClaimChannel push id => simp [ManagerStep.push] at hop
  | tryClaimChunk push => simp [ManagerStep.push] at hop
  | endPush push size => simp [ManagerStep.push] at hop
  | pushbufferEndPush push => simp [ManagerStep.push] at hop

theorem pushes_tryClaimChannel (id : ℕ) (hfree : (m.pushes push).phase = .free) :
    (m.step (.tryClaimChannel push id)).pushes push =
      if (m.channels id).isChannelAvailable then
        { m.pushes push with phase := .reserved, channel := id }
      else m.pushes push := by
  simp only [ChannelManager.step, ChannelManager.tryClaimChannel]
  split <;> simp [hfree]

theorem pushes_tryClaimChunk (hresvd : (m.pushes push).phase = .reserved) :
    ((m.step (.tryClaimChunk push)).pushes push).phase =
        (if m.pushbuffer.pickChunk.isSome then .begun else .reserved) ∧
      ((m.step (.tryClaimChunk push)).pushes push).channel = (m.pushes push).channel := by
  simp only [ChannelManager.step, if_pos hresvd, Pushbuffer.tryClaimChunk]
  cases m.pushbuffer.pickChunk with
  | none => simp [hresvd]
  | some c => simp

theorem pushes_endPush {size : PushSize} (hbegun : (m.pushes push).phase = .begun) :
    ((m.step (.endPush push size)).pushes push).phase = .submitted := by
  simp [ChannelManager.step, hbegun, endPushSection]

theorem pushes_pushbufferEndPush (hsubm : (m.pushes push).phase = .submitted) :
    ((m.step (.pushbufferEndPush push)).pushes push).phase = .ended := by
  simp [ChannelManager.step, hsubm]

end ChannelManager

/-! ## The invariant of the calls -/

/-- How far the push of a call in this phase has come. -/
def BeginPhase.Describes (phase : BeginPhase) (p : Push) : Prop :=
  match phase with
  | .down channel | .claim channel | .claimLoop channel _ | .claimCheck channel =>
    p.phase = .reserved ∧ p.channel = channel
  | .claimFailed channel => p.Counted ∧ p.channel = channel
  | .begun channel => p.phase = .begun ∧ p.channel = channel
  | .submitted => p.phase = .submitted
  | .ended | .done => p.phase = .ended
  | _ => p.phase = .free

theorem BeginPhase.Describes.counted_iff {phase : BeginPhase} {p : Push} (h : phase.Describes p)
    (channel : ℕ) : p.Counted ∧ p.channel = channel ↔ phase.channel = some channel := by
  cases phase <;> simp_all [BeginPhase.Describes, BeginPhase.channel, Push.Counted]

theorem BeginPhase.Describes.congr {phase : BeginPhase} {p p' : Push} (h : phase.Describes p)
    (hphase : p'.phase = p.phase) (hchan : p'.channel = p.channel) : phase.Describes p' := by
  cases phase <;> simp_all [BeginPhase.Describes, Push.Counted]

namespace PushBegins

variable {s : PushBegins}

/-- The invariant of the calls. -/
structure BeginsInv (s : PushBegins) : Prop where
  ring : s.manager.RingInv
  bitmaps : s.manager.BitmapsInv
  describes : ∀ call, (s.calls call).Describes (s.manager.pushes call)
  sema : ∃ l : List ℕ, l.Nodup ∧ s.concurrentPushesSema + l.length = uvmPushbufferChunks ∧
    ∀ call, call ∈ l ↔ (s.calls call).holdsSema = true

theorem BeginsInv.nothingLeft (h : s.BeginsInv) : s.NothingLeft where
  count := fun channel => by
    obtain ⟨l, hnd, hlen, hmem⟩ := h.ring.counted channel
    exact ⟨l, hnd, hlen, fun call =>
      (hmem call).trans ((h.describes call).counted_iff channel)⟩
  currentPush := fun c call hcur hfailed => by
    have hdesc := h.describes call
    have hbegun := h.bitmaps.begun c call hcur
    rw [hfailed] at hdesc
    change (s.manager.pushes call).phase = .free at hdesc
    simp [Push.HasBegun, hdesc] at hbegun
  bitmaps := h.bitmaps.vacant
  sema := h.sema

theorem init_inv (numGpFifoEntries : ℕ → { n : ℕ // 0 < n }) :
    (init numGpFifoEntries).BeginsInv where
  ring := ChannelManager.ringInv_init numGpFifoEntries
  bitmaps := ChannelManager.bitmapsInv_init numGpFifoEntries
  describes := by simp [init, BeginPhase.Describes, ChannelManager.init]
  sema := ⟨[], by simp [init, BeginPhase.holdsSema]⟩

variable {call : ℕ} {phase : BeginPhase}

theorem BeginsInv.manage (h : s.BeginsInv) {op : ManagerStep} (hop : op.push = some call)
    (hdesc : phase.Describes ((s.manager.step op).pushes call))
    (hsema : phase.holdsSema = (s.calls call).holdsSema) :
    ((s.manage op).goto call phase).BeginsInv where
  ring := h.ring.step op
  bitmaps := h.bitmaps.step op
  describes := by
    intro q
    by_cases hq : q = call
    · subst hq
      simpa [goto, PushBegins.manage] using hdesc
    · have hother := h.describes q
      rw [← s.manager.step_pushes_of_ne op hop hq] at hother
      simpa [goto, PushBegins.manage, hq] using hother
  sema := by
    obtain ⟨l, hnd, hlen, hmem⟩ := h.sema
    refine ⟨l, hnd, hlen, fun q => ?_⟩
    by_cases hq : q = call
    · simp [goto, hq, hsema, hmem]
    · simp [goto, PushBegins.manage, hq, hmem]

theorem BeginsInv.manage_of_none (h : s.BeginsInv) {op : ManagerStep} (hop : op.push = none) :
    (s.manage op).BeginsInv where
  ring := h.ring.step op
  bitmaps := h.bitmaps.step op
  describes := by
    intro q
    obtain ⟨hphase, hchan⟩ := s.manager.step_pushes_of_none op hop q
    exact (h.describes q).congr hphase hchan
  sema := h.sema

theorem BeginsInv.describes_goto (h : s.BeginsInv)
    (hdesc : phase.Describes (s.manager.pushes call)) (q : ℕ) :
    ((s.goto call phase).calls q).Describes (s.manager.pushes q) := by
  by_cases hq : q = call
  · subst hq
    simpa [PushBegins.goto] using hdesc
  · simpa [PushBegins.goto, hq] using h.describes q

theorem BeginsInv.goto (h : s.BeginsInv) (hdesc : phase.Describes (s.manager.pushes call))
    (hsema : phase.holdsSema = (s.calls call).holdsSema) : (s.goto call phase).BeginsInv where
  ring := h.ring
  bitmaps := h.bitmaps
  describes := h.describes_goto hdesc
  sema := by
    obtain ⟨l, hnd, hlen, hmem⟩ := h.sema
    refine ⟨l, hnd, hlen, fun q => ?_⟩
    by_cases hq : q = call
    · simp [PushBegins.goto, hq, hsema, hmem]
    · simp [PushBegins.goto, hq, hmem]

theorem BeginsInv.tryClaimChannel (h : s.BeginsInv) {channel : ℕ} {claimed busy : BeginPhase}
    (hfree : (s.manager.pushes call).phase = .free)
    (hclaimed : (s.manager.channels channel).isChannelAvailable = true →
      claimed.Describes { s.manager.pushes call with phase := .reserved, channel := channel } ∧
        claimed.holdsSema = (s.calls call).holdsSema)
    (hbusy : (s.manager.channels channel).isChannelAvailable = false →
      busy.Describes (s.manager.pushes call) ∧ busy.holdsSema = (s.calls call).holdsSema) :
    (s.tryClaimChannel call channel claimed busy).BeginsInv := by
  unfold PushBegins.tryClaimChannel
  have hpush := s.manager.pushes_tryClaimChannel channel hfree
  cases havail : (s.manager.channels channel).isChannelAvailable with
  | true =>
    apply h.manage rfl
    · rw [hpush, havail]
      exact (hclaimed havail).1
    · exact (hclaimed havail).2
  | false =>
    apply h.manage rfl
    · rw [hpush, havail]
      exact (hbusy havail).1
    · exact (hbusy havail).2

theorem BeginsInv.tryClaimChunk (h : s.BeginsInv) {channel : ℕ} {claimed full : BeginPhase}
    (hresvd : (s.manager.pushes call).phase = .reserved)
    (hchan : (s.manager.pushes call).channel = channel)
    (hclaimed : ∀ p : Push, p.phase = .begun → p.channel = channel → claimed.Describes p)
    (hfull : ∀ p : Push, p.phase = .reserved → p.channel = channel → full.Describes p)
    (hsema : claimed.holdsSema = (s.calls call).holdsSema)
    (hsema' : full.holdsSema = (s.calls call).holdsSema) :
    (s.tryClaimChunk call claimed full).BeginsInv := by
  unfold PushBegins.tryClaimChunk
  obtain ⟨hphase, hsame⟩ := s.manager.pushes_tryClaimChunk hresvd
  rw [hchan] at hsame
  cases hpick : s.manager.pushbuffer.pickChunk.isSome with
  | true =>
    rw [hpick] at hphase
    exact h.manage rfl (hclaimed _ hphase hsame) hsema
  | false =>
    rw [hpick] at hphase
    exact h.manage rfl (hfull _ hphase hsame) hsema'

theorem BeginsInv.down (h : s.BeginsInv) (hpos : 0 < s.concurrentPushesSema)
    (hdesc : phase.Describes (s.manager.pushes call))
    (hbefore : (s.calls call).holdsSema = false) (hafter : phase.holdsSema = true) :
    ({ s with concurrentPushesSema := s.concurrentPushesSema - 1 }.goto call phase).BeginsInv where
  ring := h.ring
  bitmaps := h.bitmaps
  describes := h.describes_goto hdesc
  sema := by
    obtain ⟨l, hnd, hlen, hmem⟩ := h.sema
    have hcall : call ∉ l := by simp [hmem, hbefore]
    refine ⟨call :: l, List.nodup_cons.mpr ⟨hcall, hnd⟩, ?_, fun q => ?_⟩
    · simp only [PushBegins.goto, List.length_cons]
      omega
    · by_cases hq : q = call
      · simp [PushBegins.goto, hq, hafter]
      · simp [PushBegins.goto, hq, hmem]

theorem BeginsInv.up (h : s.BeginsInv) (hdesc : phase.Describes (s.manager.pushes call))
    (hbefore : (s.calls call).holdsSema = true) (hafter : phase.holdsSema = false) :
    ({ s with concurrentPushesSema := s.concurrentPushesSema + 1 }.goto call phase).BeginsInv where
  ring := h.ring
  bitmaps := h.bitmaps
  describes := h.describes_goto hdesc
  sema := by
    obtain ⟨l, hnd, hlen, hmem⟩ := h.sema
    have hcall : call ∈ l := (hmem call).mpr hbefore
    refine ⟨l.erase call, hnd.erase call, ?_, fun q => ?_⟩
    · have hpos := List.length_pos_of_mem hcall
      simp only [PushBegins.goto, List.length_erase_of_mem hcall]
      omega
    · rw [hnd.mem_erase_iff]
      by_cases hq : q = call
      · simp [PushBegins.goto, hq, hafter]
      · simp [PushBegins.goto, hq, hmem]

theorem inv_next (h : s.BeginsInv) {status : NvStatus}
    (hmeets : s.ReleasesOnError (.next call status)) : (s.next call status).BeginsInv := by
  have hpush := h.describes call
  simp only [ReleasesOnError] at hmeets
  unfold next
  generalize hphase : s.calls call = phase at hpush hmeets
  have hsema := (congrArg BeginPhase.holdsSema hphase).symm
  cases phase with
  | reserve channel =>
    exact h.tryClaimChannel hpush (fun _ => ⟨⟨rfl, rfl⟩, hsema⟩) fun _ => ⟨hpush, hsema⟩
  | reserveLoop channel last =>
    dsimp only
    split
    · exact h.tryClaimChannel hpush (fun _ => ⟨⟨rfl, rfl⟩, hsema⟩) fun _ => ⟨hpush, hsema⟩
    · next hlast =>
      -- the channel has to be busy
      have hbusy : (s.manager.channels channel).isChannelAvailable = false :=
        hmeets.resolve_left (by simpa using hlast)
      exact h.tryClaimChannel hpush (fun havail => by simp [hbusy] at havail)
        fun _ => ⟨hpush, hsema⟩
  | reserveCheck channel => exact h.goto hpush hsema
  | reserveType left channels =>
    cases left with
    | nil => exact h.goto hpush hsema
    | cons channel left =>
      exact h.tryClaimChannel hpush (fun _ => ⟨⟨rfl, rfl⟩, hsema⟩) fun _ => ⟨hpush, hsema⟩
  | reserveTypeLoop left channels =>
    cases left with
    | nil => exact h.goto hpush hsema
    | cons channel left =>
      exact h.tryClaimChannel hpush (fun _ => ⟨⟨rfl, rfl⟩, hsema⟩) fun _ => ⟨hpush, hsema⟩
  | reserveTypeCheck left channels =>
    dsimp only
    split
    · exact h.goto hpush hsema
    · exact h.goto hpush hsema
  | down channel =>
    dsimp only
    split
    · next hpos => exact h.down hpos hpush hsema.symm rfl
    · exact h
  | claim channel =>
    exact h.tryClaimChunk hpush.1 hpush.2 (fun _ hp hc => ⟨hp, hc⟩) (fun _ hp hc => ⟨hp, hc⟩)
      hsema hsema
  | claimLoop channel last =>
    dsimp only
    split
    · exact h.tryClaimChunk hpush.1 hpush.2 (fun _ hp hc => ⟨hp, hc⟩) (fun _ hp hc => ⟨hp, hc⟩)
        hsema hsema
    · exact h.tryClaimChunk hpush.1 hpush.2 (fun _ hp hc => ⟨.inr hp, hc⟩)
        (fun _ hp hc => ⟨.inl hp, hc⟩) hsema hsema
  | claimCheck channel => exact h.goto hpush hsema
  | claimFailed channel => exact hmeets.elim
  | ended => exact h.up hpush hsema.symm rfl
  | start | failed | begun channel | submitted | done => exact h

theorem inv_step (s : PushBegins) (op : BeginStep) (h : s.BeginsInv) (hmeets : s.ReleasesOnError op) :
    (s.step op).BeginsInv := by
  cases op with
  | begin call target =>
    have hpush := h.describes call
    simp only [step]
    split
    · next hphase =>
      rw [hphase] at hpush
      exact h.goto hpush (by rw [hphase]; rfl)
    · next hphase =>
      rw [hphase] at hpush
      exact h.goto hpush (by rw [hphase]; rfl)
    · exact h
  | next call status => exact inv_next h hmeets
  | endPush call size =>
    have hpush := h.describes call
    simp only [step]
    split
    · next hphase =>
      rw [hphase] at hpush
      exact h.manage rfl (s.manager.pushes_endPush hpush.1) (by rw [hphase]; rfl)
    · exact h
  | pushbufferEndPush call =>
    have hpush := h.describes call
    simp only [step]
    split
    · next hphase =>
      rw [hphase] at hpush
      exact h.manage rfl (s.manager.pushes_pushbufferEndPush hpush) (by rw [hphase]; rfl)
    · exact h
  | complete channel value => exact h.manage_of_none rfl
  | updateProgress channel completedValue maxToComplete => exact h.manage_of_none rfl

/-! ## What a call leaves behind -/

theorem not_nothingLeft (channel : ℕ) (hring : s.manager.RingInv)
    (hothers : ∀ q ≠ call, (s.calls q).Describes (s.manager.pushes q))
    (hfailed : s.calls call = .failed)
    (hcnt : (s.manager.pushes call).Counted ∧ (s.manager.pushes call).channel = channel) :
    ¬ s.NothingLeft := by
  intro hleft
  obtain ⟨l, hnd, hlen, hmem⟩ := hleft.count channel
  obtain ⟨l', hnodup', hlength', hmem'⟩ := hring.counted channel
  have hcall : call ∉ l := by simp [hmem, hfailed, BeginPhase.channel]
  -- the pushes that the channel counts are those of the other calls and this one
  have hperm : l'.Perm (call :: l) := by
    rw [List.perm_ext_iff_of_nodup hnodup' (List.nodup_cons.mpr ⟨hcall, hnd⟩)]
    intro q
    rw [hmem', List.mem_cons, hmem]
    by_cases hq : q = call
    · simp [hq, hcnt]
    · simp [hq, (hothers q hq).counted_iff]
  have := hperm.length_eq
  simp only [List.length_cons] at this
  omega

/-- **Step lemma**: after a step everything that is claimed belongs to a call that has not failed,
exactly if the step meets the condition. -/
theorem nothingLeft_step_iff (s : PushBegins) (op : BeginStep) (h : s.BeginsInv) :
    (s.step op).NothingLeft ↔ s.ReleasesOnError op := by
  constructor
  · intro hleft
    by_contra hmeets
    cases op with
    | next call status =>
      have hpush := h.describes call
      simp only [ReleasesOnError] at hmeets
      split at hmeets
      · next channel last hphase =>
        rw [hphase] at hpush
        simp only [not_or, Bool.not_eq_false] at hmeets
        obtain ⟨hlast, havail⟩ := hmeets
        have hstep : s.step (.next call status) =
            (s.manage (.tryClaimChannel call channel)).goto call .failed := by
          simp [step, next, hphase, hlast, PushBegins.tryClaimChannel]
        rw [hstep] at hleft
        refine not_nothingLeft (s := (s.manage (.tryClaimChannel call channel)).goto call .failed)
          channel (h.ring.step (.tryClaimChannel call channel)) (fun q hq => ?_) (update_self ..)
          ?_ hleft
        · have hother := h.describes q
          rw [← s.manager.step_pushes_of_ne (.tryClaimChannel call channel) rfl hq] at hother
          simpa [PushBegins.goto, PushBegins.manage, hq] using hother
        · have hclaimed := s.manager.pushes_tryClaimChannel channel hpush
          rw [if_pos havail] at hclaimed
          simp [PushBegins.goto, PushBegins.manage, hclaimed, Push.Counted]
      · next channel hphase =>
        rw [hphase] at hpush
        have hstep : s.step (.next call status) =
            { s with concurrentPushesSema := s.concurrentPushesSema + 1 }.goto call .failed := by
          simp [step, next, hphase]
        have hcnt : (s.manager.pushes call).Counted ∧
            (s.manager.pushes call).channel = channel := hpush
        rw [hstep] at hleft
        refine not_nothingLeft (s := { s with
            concurrentPushesSema := s.concurrentPushesSema + 1 }.goto call .failed)
          channel h.ring (fun q hq => ?_) (update_self ..) hcnt hleft
        simpa [PushBegins.goto, hq] using h.describes q
      · exact hmeets trivial
    | _ => exact hmeets trivial
  · exact fun hmeets => (inv_step s op h hmeets).nothingLeft

/-- **Push begins that fail leave nothing claimed, exactly in the runs whose steps meet the
condition.** -/
theorem nothingLeft_along_iff (numGpFifoEntries : ℕ → { n : ℕ // 0 < n }) (ops : List BeginStep) :
    HoldsAlong step NothingLeft (init numGpFifoEntries) ops ↔
      StepsMeet step ReleasesOnError (init numGpFifoEntries) ops :=
  holds_along_iff_of_guarded step (init_inv numGpFifoEntries) (fun _ h => h.nothingLeft)
    nothingLeft_step_iff inv_step ops

theorem step_calls_of_ne (s : PushBegins) {op : BeginStep} {q : ℕ} (hq : op.call ≠ some q) :
    (s.step op).calls q = s.calls q := by
  cases op with
  | begin call target =>
    have hne : q ≠ call := fun heq => hq (congrArg some heq.symm)
    simp only [step]
    split <;> simp [goto, hne]
  | next call status =>
    have hne : q ≠ call := fun heq => hq (congrArg some heq.symm)
    have hgoto : ∀ (t : PushBegins) (phase : BeginPhase), t.calls = s.calls →
        (t.goto call phase).calls q = s.calls q := fun t phase ht => by
      rw [← ht]
      exact update_of_ne hne ..
    simp only [step, next, PushBegins.tryClaimChannel]
    generalize s.calls call = phase
    cases phase with
    | reserve channel | reserveCheck channel | claim channel | claimCheck channel
    | claimFailed channel | ended => exact hgoto _ _ rfl
    | reserveTypeCheck left channels => exact hgoto _ _ rfl
    | reserveLoop channel last | claimLoop channel last =>
      dsimp only
      split <;> exact hgoto _ _ rfl
    | reserveType left channels | reserveTypeLoop left channels =>
      cases left <;> exact hgoto _ _ rfl
    | down channel =>
      dsimp only
      split
      · exact hgoto _ _ rfl
      · rfl
    | start | failed | begun channel | submitted | done => rfl
  | endPush call size =>
    have hne : q ≠ call := fun heq => hq (congrArg some heq.symm)
    simp only [step]
    split <;> simp [goto, PushBegins.manage, hne]
  | pushbufferEndPush call =>
    have hne : q ≠ call := fun heq => hq (congrArg some heq.symm)
    simp only [step]
    split <;> simp [goto, PushBegins.manage, hne]
  | complete channel value => rfl
  | updateProgress channel completedValue maxToComplete => rfl

theorem run_calls_of_ne {q : ℕ} (ops : List BeginStep) (hops : ∀ op ∈ ops, op.call ≠ some q)
    (s : PushBegins) : (run step s ops).calls q = s.calls q := by
  induction ops generalizing s with
  | nil => rfl
  | cons op ops ih =>
    have hrest := ih (fun op' hop' => hops op' (List.mem_cons_of_mem op hop')) (s.step op)
    exact hrest.trans (s.step_calls_of_ne (hops op List.mem_cons_self))

/-- A ring with room for one push.  The second call finds it busy and then a channel error; the
first push ends and completes, and the second call claims the channel and returns the error. -/
def errorAfterRoom : List BeginStep :=
  [.begin 0 (.onChannel 0), .next 0 .ok, .next 0 .ok, .next 0 .ok,
    .begin 1 (.onChannel 0), .next 1 .ok, .next 1 .ok, .next 1 .errInvalidChannel,
    .endPush 0 ⟨64, by decide⟩, .pushbufferEndPush 0, .next 0 .ok, .complete 0 1,
    .updateProgress 0 1 8, .next 1 .ok]

/-- The second call has failed, and the channel counts it for good. -/
theorem reserve_leaves_count : ¬ ∀ (numGpFifoEntries : ℕ → { n : ℕ // 0 < n })
    (ops : List BeginStep), HoldsAlong step NothingLeft (init numGpFifoEntries) ops := by
  intro h
  have hleft := h (fun _ => ⟨2, by decide⟩) errorAfterRoom errorAfterRoom (List.prefix_refl _)
  obtain ⟨l, -, hlen, hmem⟩ := hleft.count 0
  obtain ⟨q, rfl⟩ := List.length_eq_one_iff.mp hlen
  have hq := (hmem q).mp (List.mem_singleton_self q)
  -- neither the two calls nor any other one holds the channel
  rcases q with _ | _ | q
  · have hdone : ((run step (init fun _ => ⟨2, by decide⟩) errorAfterRoom).calls 0).channel =
        none := by decide +kernel
    exact absurd (hdone.symm.trans hq) (by simp)
  · have hfailed : ((run step (init fun _ => ⟨2, by decide⟩) errorAfterRoom).calls 1).channel =
        none := by decide +kernel
    exact absurd (hfailed.symm.trans hq) (by simp)
  · have hother := run_calls_of_ne errorAfterRoom (q := q + 2) (by simp [errorAfterRoom, BeginStep.call])
      (init fun _ => ⟨2, by decide⟩)
    rw [hother] at hq
    simp [init, BeginPhase.channel] at hq

end PushBegins

end NvUvm
