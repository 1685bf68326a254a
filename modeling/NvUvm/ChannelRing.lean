import NvUvm.ChannelPushLists

/-!
# The ring of a channel

What holds of the GPFIFO ring of a channel in every run, whatever the lists of the chunks are like:
there is room for the entry of every push that has claimed the channel, and the tracking values of
the pending entries grow by one from each to the next.
-/

namespace NvUvm

open Lib Lib.Ring Pushbuffer
open Function (update update_of_ne update_self)

namespace ChannelManager

/-- `uvm_channel_update_progress`: not too many entries at a time. -/
def uvmChannelUpdateProgress (m : ChannelManager) (id completedValue : ℕ) : ℕ × ChannelManager :=
  m.uvmChannelUpdateProgressWithMax id completedValue 8 .completed

def uvmChannelUpdateProgressAll (m : ChannelManager) (id completedValue : ℕ) : ℕ × ChannelManager :=
  m.uvmChannelUpdateProgressWithMax id completedValue (m.channels id).numGpFifoEntries .completed

end ChannelManager

/-! ## The progress loop -/

/-- What the progress loop, started at `g`, does to the ring of its channel: it passes `k` entries,
all of them completed, and stops at its limit, at the put index or at an entry not completed. -/
structure AdvanceSpec (channel : PushChannel) (completedValue left g g' k : ℕ) : Prop where
  get : g' < channel.numGpFifoEntries
  limit : k ≤ left
  passed : dist channel.numGpFifoEntries g' channel.cpuPut + k =
    dist channel.numGpFifoEntries g channel.cpuPut
  holds : ∀ i, InRing channel.numGpFifoEntries g' channel.cpuPut i ↔
    InRing channel.numGpFifoEntries g channel.cpuPut i ∧ k ≤ dist channel.numGpFifoEntries g i
  nearer : ∀ i, InRing channel.numGpFifoEntries g' channel.cpuPut i →
    dist channel.numGpFifoEntries g' i + k = dist channel.numGpFifoEntries g i
  completed : ∀ i, InRing channel.numGpFifoEntries g channel.cpuPut i →
    dist channel.numGpFifoEntries g i < k →
      (channel.gpfifoEntries i).trackingSemaphoreValue ≤ completedValue
  stopped : k = left ∨ g' = channel.cpuPut ∨
    completedValue < (channel.gpfifoEntries g').trackingSemaphoreValue

variable {channel : PushChannel} {completedValue left g g' k : ℕ}

private theorem AdvanceSpec.stop (hget : g < channel.numGpFifoEntries)
    (hstop : 0 = left ∨ g = channel.cpuPut ∨
      completedValue < (channel.gpfifoEntries g).trackingSemaphoreValue) :
    AdvanceSpec channel completedValue left g g 0 where
  get := hget
  limit := Nat.zero_le _
  passed := rfl
  holds := fun _ => ⟨fun h => ⟨h, Nat.zero_le _⟩, fun h => h.1⟩
  nearer := fun _ _ => rfl
  completed := fun _ _ h => absurd h (Nat.not_lt_zero _)
  stopped := hstop

private theorem AdvanceSpec.pass (hget : g < channel.numGpFifoEntries)
    (hput : channel.cpuPut < channel.numGpFifoEntries) (hne : g ≠ channel.cpuPut)
    (hvalue : (channel.gpfifoEntries g).trackingSemaphoreValue ≤ completedValue)
    (h : AdvanceSpec channel completedValue left (next channel.numGpFifoEntries g) g' k) :
    AdvanceSpec channel completedValue (left + 1) g g' (k + 1) := by
  have hring : ∀ i, InRing channel.numGpFifoEntries (next channel.numGpFifoEntries g)
      channel.cpuPut i ↔ InRing channel.numGpFifoEntries g channel.cpuPut i ∧ i ≠ g :=
    fun i => inRing_next_get hget hput hne
  have hnearer : ∀ i, i < channel.numGpFifoEntries → i ≠ g →
      dist channel.numGpFifoEntries (next channel.numGpFifoEntries g) i + 1 =
        dist channel.numGpFifoEntries g i := fun i => dist_next_get hget
  refine ⟨h.get, Nat.succ_le_succ h.limit, ?_, fun i => ?_, fun i hi => ?_, fun i hi hlt => ?_, ?_⟩
  · rw [← hnearer _ hput hne.symm, ← h.passed, Nat.add_assoc]
  · rw [h.holds i, hring i]
    constructor
    · rintro ⟨⟨hi, hig⟩, hk⟩
      refine ⟨hi, ?_⟩
      rw [← hnearer i hi.1 hig]
      exact Nat.succ_le_succ hk
    · rintro ⟨hi, hk⟩
      have hig : i ≠ g := by
        rintro rfl
        rw [dist_self] at hk
        exact Nat.not_succ_le_zero _ hk
      rw [← hnearer i hi.1 hig] at hk
      exact ⟨⟨hi, hig⟩, Nat.le_of_succ_le_succ hk⟩
  · obtain ⟨hin, hig⟩ := (hring i).mp ((h.holds i).mp hi).1
    rw [← hnearer i hin.1 hig, ← h.nearer i hi, Nat.add_assoc]
  · by_cases hig : i = g
    · rw [hig]
      exact hvalue
    · rw [← hnearer i hi.1 hig] at hlt
      exact h.completed i ((hring i).mpr ⟨hi, hig⟩) (Nat.lt_of_succ_lt_succ hlt)
  · exact h.stopped.imp_left (congrArg Nat.succ)

theorem AdvanceSpec.retires (h : AdvanceSpec channel completedValue left g g' k)
    (hgrow : ∀ i j, InRing channel.numGpFifoEntries g channel.cpuPut i →
      InRing channel.numGpFifoEntries g channel.cpuPut j →
        dist channel.numGpFifoEntries g i < dist channel.numGpFifoEntries g j →
          (channel.gpfifoEntries i).trackingSemaphoreValue <
            (channel.gpfifoEntries j).trackingSemaphoreValue) (i : ℕ) :
    InRing channel.numGpFifoEntries g' channel.cpuPut i ↔
      InRing channel.numGpFifoEntries g channel.cpuPut i ∧
        (completedValue < (channel.gpfifoEntries i).trackingSemaphoreValue ∨
          left ≤ dist channel.numGpFifoEntries g i) := by
  constructor
  · intro hi
    obtain ⟨hin, hk⟩ := (h.holds i).mp hi
    refine ⟨hin, ?_⟩
    rcases h.stopped with rfl | hempty | hpend
    · exact Or.inr hk
    · rw [hempty] at hi
      exact absurd hi.2 (by simp)
    · -- the entry that stopped the loop is not behind this one
      left
      by_cases hig : i = g'
      · rw [hig]
        exact hpend
      · have hne : g' ≠ channel.cpuPut := by
          intro hempty
          rw [hempty] at hi
          exact absurd hi.2 (by simp)
        have hfirst := inRing_get h.get hne
        have hfar := h.nearer i hi
        have hnear := h.nearer g' hfirst
        rw [dist_self] at hnear
        have hpos : dist channel.numGpFifoEntries g' i ≠ 0 := fun hzero =>
          hig ((dist_eq_zero_iff h.get).mp hzero)
        exact Nat.lt_trans hpend (hgrow g' i ((h.holds g').mp hfirst).1 hin (by omega))
  · rintro ⟨hin, hstay⟩
    refine (h.holds i).mpr ⟨hin, ?_⟩
    by_contra hlt
    rcases hstay with hpend | hfar
    · exact absurd (h.completed i hin (Nat.lt_of_not_le hlt)) (Nat.not_le.mpr hpend)
    · have hlimit := h.limit
      omega

namespace ChannelManager

variable {m m' : ChannelManager} {id : ℕ}

theorem completeEntries_keeps (mode : UpdateMode) (id completedValue left : ℕ) :
    ∀ (g : ℕ) (m : ChannelManager),
      (completeEntries mode id completedValue left (g, m)).2.channels = m.channels ∧
        ∀ q, ((completeEntries mode id completedValue left (g, m)).2.pushes q).phase =
            (m.pushes q).phase ∧
          ((completeEntries mode id completedValue left (g, m)).2.pushes q).slot =
            (m.pushes q).slot := by
  induction left with
  | zero => exact fun _ _ => ⟨rfl, fun _ => ⟨rfl, rfl⟩⟩
  | succ left ih =>
    intro g m
    unfold completeEntries
    dsimp only
    split
    · exact ⟨rfl, fun _ => ⟨rfl, rfl⟩⟩
    · split
      · exact ⟨rfl, fun _ => ⟨rfl, rfl⟩⟩
      · obtain ⟨hchans, hpush⟩ :=
          ih (next (m.channels id).numGpFifoEntries g) (m.markCompleted (id, g))
        refine ⟨hchans, fun q => ?_⟩
        have hmark := markCompleted_push (m := m) (id, g) q
        exact ⟨(hpush q).1.trans hmark.1, (hpush q).2.trans hmark.2⟩

theorem completeEntries_spec (id completedValue left : ℕ)
    (hput : channel.cpuPut < channel.numGpFifoEntries) :
    ∀ {g : ℕ} {m : ChannelManager}, m.channels id = channel → g < channel.numGpFifoEntries →
      ∃ k, AdvanceSpec channel completedValue left g
        (completeEntries .completed id completedValue left (g, m)).1 k := by
  induction left with
  | zero => exact fun _ hget => ⟨0, .stop hget (.inl rfl)⟩
  | succ left ih =>
    rintro g m rfl hget
    unfold completeEntries
    dsimp only
    split
    case isTrue hempty => exact ⟨0, .stop hget (.inr (.inl hempty))⟩
    case isFalse hne =>
      split
      case isTrue hpend => exact ⟨0, .stop hget (.inr (.inr hpend.2))⟩
      case isFalse hcompl =>
        have hvalue : (m.entry (id, g)).trackingSemaphoreValue ≤ completedValue := by
          by_contra hlt
          exact hcompl ⟨rfl, Nat.lt_of_not_le hlt⟩
        -- marking an entry completed leaves the channels alone
        obtain ⟨k, hk⟩ := ih (m := m.markCompleted (id, g)) rfl (next_lt hget)
        exact ⟨k + 1, hk.pass hget hput hne hvalue⟩

/-! ## The invariant -/

/-- The rings have room for the pushes that have claimed their channels, and the tracking values of
the pending entries are the last ones that were queued, in order. -/
structure RingInv (m : ChannelManager) : Prop where
  wf : ∀ id, (m.channels id).Wf
  counted : ∀ id, m.CountsPushes id
  values : ∀ id i, (m.channels id).Holds i →
    (m.entry (id, i)).trackingSemaphoreValue +
        dist (m.channels id).numGpFifoEntries (m.channels id).gpuGet (m.channels id).cpuPut =
      (m.channels id).queuedValue +
        dist (m.channels id).numGpFifoEntries (m.channels id).gpuGet i + 1

theorem ringInv_init (numGpFifoEntries : ℕ → { n : ℕ // 0 < n }) :
    (init numGpFifoEntries).RingInv where
  wf := (init_inv numGpFifoEntries).wf
  counted := (init_inv numGpFifoEntries).counted
  values := by
    intro id i hi
    exact absurd hi.2 (by simp [init])

theorem RingInv.grow (h : m.RingInv) (id i j : ℕ) (hi : (m.channels id).Holds i)
    (hj : (m.channels id).Holds j)
    (hlt : dist (m.channels id).numGpFifoEntries (m.channels id).gpuGet i <
      dist (m.channels id).numGpFifoEntries (m.channels id).gpuGet j) :
    (m.entry (id, i)).trackingSemaphoreValue < (m.entry (id, j)).trackingSemaphoreValue := by
  have hvi := h.values id i hi
  have hvj := h.values id j hj
  omega

theorem RingInv.congr (h : m.RingInv)
    (hchans : ∀ id, ∃ semaphore, m'.channels id = { m.channels id with semaphore := semaphore })
    (hcnt : ∀ id push, (m'.pushes push).Counted ∧ (m'.pushes push).channel = id ↔
      (m.pushes push).Counted ∧ (m.pushes push).channel = id) : m'.RingInv where
  wf := by
    intro id
    obtain ⟨semaphore, hid⟩ := hchans id
    rw [hid]
    exact ⟨(h.wf id).put, (h.wf id).get, (h.wf id).room⟩
  counted := by
    intro id
    obtain ⟨semaphore, hid⟩ := hchans id
    obtain ⟨l, hnd, hlen, hmem⟩ := h.counted id
    refine ⟨l, hnd, ?_, fun push => (hmem push).trans (hcnt id push).symm⟩
    rw [hlen, hid]
  values := by
    intro id i hi
    obtain ⟨semaphore, hid⟩ := hchans id
    have hentry : m'.entry (id, i) = m.entry (id, i) := by simp only [entry, hid]
    rw [PushChannel.Holds, hid] at hi
    rw [hentry, hid]
    exact h.values id i hi

variable {push : ℕ}

theorem RingInv.congr_push (h : m.RingInv) {p : Push} (hchans : m'.channels = m.channels)
    (hpush : m'.pushes = update m.pushes push p)
    (hcnt : p.Counted ↔ (m.pushes push).Counted)
    (hchan : p.channel = (m.pushes push).channel) : m'.RingInv := by
  refine h.congr (fun id => ⟨(m.channels id).semaphore, by rw [hchans]⟩) fun id q => ?_
  rw [hpush]
  by_cases hq : q = push
  · rw [hq, update_self, hcnt, hchan]
  · rw [update_of_ne hq]

theorem RingInv.tryClaimChannel (h : m.RingInv) (hfree : (m.pushes push).phase = .free)
    (havail : (m.channels id).isChannelAvailable) :
    ((m.setChannel id { m.channels id with
        currentPushesCount := (m.channels id).currentPushesCount + 1 }).setPush push
      { m.pushes push with phase := .reserved, channel := id }).RingInv where
  wf := by
    have hwf := h.wf id
    have hroom := room_of_ne hwf.get hwf.room
      (by simpa [PushChannel.isChannelAvailable] using havail)
    exact (Function.forall_update_iff m.channels fun _ ch => ch.Wf).mpr
      ⟨⟨hwf.put, hwf.get, hroom⟩, fun id' _ => h.wf id'⟩
  counted := fun id' => (h.counted id').tryClaimChannel hfree
  values := by
    intro id' i hi
    unfold entry
    rw [setPush_channels, setChannel_channels] at hi ⊢
    by_cases hid : id' = id
    · subst hid
      rw [update_self] at hi ⊢
      exact h.values id' i hi
    · rw [update_of_ne hid] at hi ⊢
      exact h.values id' i hi

theorem RingInv.endPushSection (h : m.RingInv) (size : PushSize)
    (hbegun : (m.pushes push).phase = .begun) : (m.endPushSection push size).RingInv := by
  have hwf := h.wf (m.pushes push).channel
  have hpos := (h.counted (m.pushes push).channel).pos (.inr hbegun) rfl
  refine ⟨endPushSection_wf size hwf hpos h.wf,
    fun id => (h.counted id).endPushSection size hbegun, fun id i hi => ?_⟩
  by_cases hid : id = (m.pushes push).channel
  · subst hid
    have hdist := dist_next_put hwf.get hwf.put (PushChannel.Wf.room_endPush hwf hpos)
    rcases (endPushSection_holds size hwf hpos _ i).mp hi with hin | hnew
    · have hvalue := h.values _ i hin
      rw [endPushSection_entry size hin]
      simp only [ChannelManager.endPushSection, setPush_channels, setChannel_channels,
        update_self]
      omega
    · obtain rfl : i = (m.channels (m.pushes push).channel).cpuPut := (Prod.mk.inj hnew).2
      simp only [ChannelManager.endPushSection, setPush_channels, entry, setChannel_channels,
        update_self]
      omega
  · have hin : (m.channels id).Holds i := by
      simpa [ChannelManager.endPushSection, hid] using hi
    rw [endPushSection_entry size hin]
    simpa [ChannelManager.endPushSection, hid] using h.values id i hin

theorem RingInv.advance (h : m.RingInv)
    (hspec : AdvanceSpec (m.channels id) completedValue left (m.channels id).gpuGet g' k)
    (hchans : m'.channels = update m.channels id { m.channels id with gpuGet := g' })
    (hpush : ∀ q, (m'.pushes q).phase = (m.pushes q).phase ∧
      (m'.pushes q).slot = (m.pushes q).slot) : m'.RingInv where
  wf := by
    have hroom := (h.wf id).room
    have hpassed := hspec.passed
    rw [hchans]
    exact (Function.forall_update_iff m.channels fun _ ch => ch.Wf).mpr
      ⟨⟨(h.wf id).put, hspec.get, by dsimp only; omega⟩, fun id' _ => h.wf id'⟩
  counted := by
    intro id'
    obtain ⟨l, hnd, hlen, hmem⟩ := h.counted id'
    refine ⟨l, hnd, ?_, fun q => (hmem q).trans ?_⟩
    · rw [hlen, hchans]
      by_cases hid : id' = id
      · rw [hid, update_self]
      · rw [update_of_ne hid]
    · obtain ⟨hphase, hslot⟩ := hpush q
      have hchan : (m'.pushes q).channel = (m.pushes q).channel := congrArg Prod.fst hslot
      rw [Push.Counted, Push.Counted, hphase, hchan]
  values := by
    intro id' i hi
    unfold entry
    rw [hchans] at hi ⊢
    by_cases hid : id' = id
    · subst hid
      rw [update_self] at hi ⊢
      have hvalue := h.values id' i ((hspec.holds i).mp hi).1
      have hpassed := hspec.passed
      have hnearer := hspec.nearer i hi
      unfold entry at hvalue
      dsimp only at hvalue ⊢
      omega
    · rw [update_of_ne hid] at hi ⊢
      exact h.values id' i hi

theorem updateProgress_spec (hwf : ∀ id, (m.channels id).Wf) (id completedValue left : ℕ) :
    ∃ g' k, AdvanceSpec (m.channels id) completedValue left (m.channels id).gpuGet g' k ∧
      (m.uvmChannelUpdateProgressWithMax id completedValue left .completed).2.channels =
        update m.channels id { m.channels id with gpuGet := g' } ∧
      ∀ q, ((m.uvmChannelUpdateProgressWithMax id completedValue left .completed).2.pushes q).phase =
          (m.pushes q).phase ∧
        ((m.uvmChannelUpdateProgressWithMax id completedValue left .completed).2.pushes q).slot =
          (m.pushes q).slot := by
  obtain ⟨k, hspec⟩ := completeEntries_spec id completedValue left (hwf id).put rfl (hwf id).get
  obtain ⟨hchans, hpush⟩ :=
    completeEntries_keeps .completed id completedValue left (m.channels id).gpuGet m
  refine ⟨_, k, hspec, ?_, hpush⟩
  unfold uvmChannelUpdateProgressWithMax setGpuGet
  rw [setChannel_channels, hchans]

theorem step_tryClaimChannel (push id : ℕ) : m.step (.tryClaimChannel push id) = m ∨
      (m.pushes push).phase = .free ∧ (m.channels id).isChannelAvailable = true ∧
        m.step (.tryClaimChannel push id) = (m.setChannel id { m.channels id with
          currentPushesCount := (m.channels id).currentPushesCount + 1 }).setPush push
            { m.pushes push with phase := .reserved, channel := id } := by
  simp only [ChannelManager.step]
  split
  case isFalse => exact Or.inl rfl
  case isTrue hfree =>
    have havail : (m.channels id).isChannelAvailable = true := by
      by_contra hfull
      simp [ChannelManager.tryClaimChannel, hfull] at hfree
    refine Or.inr ⟨hfree.1, havail, ?_⟩
    simp only [ChannelManager.tryClaimChannel, havail, if_true]

theorem step_tryClaimChunk (push : ℕ) : m.step (.tryClaimChunk push) = m ∨
      ∃ c pb, (m.pushes push).phase = .reserved ∧
        m.pushbuffer.tryClaimChunk push = (some c, pb) ∧
        m.step (.tryClaimChunk push) = { m with pushbuffer := pb }.setPush push
          { m.pushes push with phase := .begun, beginOffset := chunkGetNextPushStart pb c } := by
  simp only [ChannelManager.step]
  split
  case isFalse => exact Or.inl rfl
  case isTrue hresvd =>
    rcases hclaim : m.pushbuffer.tryClaimChunk push with ⟨_ | c, pb⟩
    · exact Or.inl rfl
    · exact Or.inr ⟨c, pb, hresvd, rfl, rfl⟩

theorem RingInv.step (h : m.RingInv) (op : ManagerStep) : (m.step op).RingInv := by
  cases op with
  | tryClaimChannel push id =>
    rcases m.step_tryClaimChannel push id with heq | ⟨hfree, havail, heq⟩
    · rwa [heq]
    · rw [heq]
      exact h.tryClaimChannel hfree havail
  | tryClaimChunk push =>
    rcases m.step_tryClaimChunk push with heq | ⟨c, pb, hresvd, -, heq⟩
    · rwa [heq]
    · rw [heq]
      refine h.congr_push rfl rfl ?_ rfl
      simp [Push.Counted, hresvd]
  | endPush push size =>
    simp only [ChannelManager.step]
    split
    case isTrue hbegun => exact h.endPushSection size hbegun
    case isFalse => exact h
  | pushbufferEndPush push =>
    simp only [ChannelManager.step]
    split
    case isFalse => exact h
    case isTrue hsubm =>
      refine h.congr_push rfl rfl ?_ rfl
      simp [Push.Counted, hsubm]
  | complete id value =>
    simp only [ChannelManager.step]
    split
    case isFalse => exact h
    case isTrue =>
      refine h.congr (fun id' => ?_) fun _ _ => Iff.rfl
      by_cases hid : id' = id
      · exact ⟨value, by simp [hid]⟩
      · exact ⟨(m.channels id').semaphore, by simp [hid]⟩
  | updateProgress id completedValue maxToComplete =>
    simp only [ChannelManager.step]
    split
    case isFalse => exact h
    case isTrue =>
      obtain ⟨g', k, hspec, hchans, hpush⟩ :=
        updateProgress_spec h.wf id completedValue maxToComplete
      exact h.advance hspec hchans hpush

/-! ## Runs -/

/-- The ring of every channel has room for the pushes that have claimed it, and its tracking values
grow. -/
structure RingSound (m : ChannelManager) : Prop where
  room : ∀ id, (m.channels id).pendingGpfifos (m.channels id).gpuGet +
    (m.channels id).currentPushesCount ≤ (m.channels id).numGpFifoEntries - 1
  grow : ∀ id i j, (m.channels id).Holds i → (m.channels id).Holds j →
    dist (m.channels id).numGpFifoEntries (m.channels id).gpuGet i <
        dist (m.channels id).numGpFifoEntries (m.channels id).gpuGet j →
      (m.entry (id, i)).trackingSemaphoreValue < (m.entry (id, j)).trackingSemaphoreValue

theorem RingInv.ringSound (h : m.RingInv) : m.RingSound where
  room := by
    intro id
    have hroom := (h.wf id).room
    change dist _ _ _ + _ ≤ _
    omega
  grow := h.grow

/-- What a step does to the entries that are pending: `uvm_channel_end_push` overwrites none, and
the progress loop retires exactly the completed ones within its limit. -/
def RingStep (m m' : ChannelManager) : ManagerStep → Prop
  | .endPush _ _ => ∀ id i, (m.channels id).Holds i →
      (m'.channels id).Holds i ∧ m'.entry (id, i) = m.entry (id, i)
  | .updateProgress id completedValue maxToComplete =>
    completedValue ≤ (m.channels id).semaphore → ∀ i, (m'.channels id).Holds i ↔
      (m.channels id).Holds i ∧
        (completedValue < (m.entry (id, i)).trackingSemaphoreValue ∨
          maxToComplete ≤ dist (m.channels id).numGpFifoEntries (m.channels id).gpuGet i)
  | _ => True

theorem RingInv.ringStep (h : m.RingInv) (op : ManagerStep) : m.RingStep (m.step op) op := by
  cases op with
  | endPush push size =>
    intro id i hi
    simp only [ChannelManager.step]
    split
    case isFalse => exact ⟨hi, rfl⟩
    case isTrue hbegun =>
      have hpos := (h.counted (m.pushes push).channel).pos (.inr hbegun) rfl
      exact ⟨(endPushSection_holds size (h.wf _) hpos id i).mpr (.inl hi),
        endPushSection_entry size hi⟩
  | updateProgress id completedValue maxToComplete =>
    intro hcompl i
    obtain ⟨g', k, hspec, hchans, -⟩ :=
      updateProgress_spec h.wf id completedValue maxToComplete
    simp only [ChannelManager.step, if_pos hcompl]
    rw [PushChannel.Holds, hchans, update_self]
    exact hspec.retires (h.grow id) i
  | _ => trivial

/-- **The ring of a channel** in every run of claims, begins, ends and progress loops, with the GPU
completing the pushes in order and rings of any size: the pending entries and the pushes that have
claimed the channel never exceed its size less one, the tracking values grow from the get index to
the put index, the end of a push overwrites no pending entry, and the progress loop retires exactly
the entries that are completed, among as many as it may complete. -/
theorem ringSound_along (numGpFifoEntries : ℕ → { n : ℕ // 0 < n }) (ops : List ManagerStep) :
    HoldsAlong step RingSound (init numGpFifoEntries) ops ∧
      ∀ pre op, pre ++ [op] <+: ops →
        RingStep (run ChannelManager.step (init numGpFifoEntries) pre)
          (run ChannelManager.step (init numGpFifoEntries) (pre ++ [op])) op := by
  have hinv : ∀ pre, (run ChannelManager.step (init numGpFifoEntries) pre).RingInv :=
    run_inv ChannelManager.step (ringInv_init numGpFifoEntries) fun _ op h => h.step op
  constructor
  · exact fun pre _ => (hinv pre).ringSound
  · intro pre op _
    rw [run_concat]
    exact (hinv pre).ringStep op

/-- Nine pushes on a channel that the GPU has completed. -/
def ninePushes : List ManagerStep :=
  (List.range 9).flatMap (fun push => [.tryClaimChannel push 0, .tryClaimChunk push,
    .endPush push ⟨4, by decide⟩, .pushbufferEndPush push]) ++ [.complete 0 9]

/-- `uvm_channel_update_progress` leaves the last of them pending, though it is completed. -/
theorem uvmChannelUpdateProgress_leaves_completed :
    let m := run ChannelManager.step (init fun _ => ⟨16, by decide⟩) ninePushes
    let m' := (m.uvmChannelUpdateProgress 0 9).2
    (m.channels 0).semaphore = 9 ∧ (m'.channels 0).gpuGet = 8 ∧ (m'.channels 0).cpuPut = 9 ∧
      (m'.entry (0, 8)).trackingSemaphoreValue = 9 := by
  decide +kernel

end ChannelManager

end NvUvm
