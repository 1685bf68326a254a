import NvUvm.ChannelRing
import NvUvm.Processor

/-!
# Waiting for the channels of a manager

`uvm_channel_manager_wait` updates the progress of all channels until it finds nothing pending.  The
other threads go on between any two of its sections, and the GPU with them.
-/

namespace NvUvm

open Lib Lib.Ring Pushbuffer
open Function (update update_of_ne update_self)

/-- What the ring holds covers the tracking values that the GPU has not released. -/
def PushChannel.Covered (channel : PushChannel) : Prop := channel.queuedValue ≤
  channel.semaphore + dist channel.numGpFifoEntries channel.gpuGet channel.cpuPut

namespace ChannelManager

variable {m m' : ChannelManager} {id completedValue left g' k : ℕ}

/-- A channel in a pass over the channels, after the steps that others take before it: they can
delay the loop behind its read of the semaphore, whose value is then older. -/
structure ProgressVisit where
  others : List ManagerStep
  channel : ℕ
  completedValue : ℕ

/-- `uvm_channel_manager_update_progress`. -/
def uvmChannelManagerUpdateProgress : List ProgressVisit → ChannelManager → ℕ × ChannelManager
  | [], m => (0, m)
  | v :: visits, m =>
    let m := run step m v.others
    let value := min v.completedValue (m.channels v.channel).semaphore
    let r := m.uvmChannelUpdateProgress v.channel value
    let rest := uvmChannelManagerUpdateProgress visits r.2
    (r.1 + rest.1, rest.2)

/-- The loop of `uvm_channel_manager_wait`, over its passes and what
`uvm_channel_manager_check_errors` finds after each; `none` if these are not all. -/
def waitLoop : List (List ProgressVisit × NvStatus) → NvStatus → ChannelManager →
    Option (NvStatus × ChannelManager)
  | [], _, _ => none
  | (visits, found) :: passes, status, m =>
    let r := m.uvmChannelManagerUpdateProgress visits
    if 0 < r.1 ∧ status = .ok then waitLoop passes found r.2 else some (status, r.2)

def uvmChannelManagerWait (m : ChannelManager) :
    List (List ProgressVisit × NvStatus) → Option (NvStatus × ChannelManager)
  | [] => none
  | (visits, found) :: passes =>
    let r := m.uvmChannelManagerUpdateProgress visits
    if r.1 = 0 then some (found, r.2) else waitLoop passes .ok r.2

/-! ## What the rings cover -/

theorem RingInv.covered_advance (h : m.RingInv) (hcov : (m.channels id).Covered)
    (hspec : AdvanceSpec (m.channels id) completedValue left (m.channels id).gpuGet g' k)
    (hle : completedValue ≤ (m.channels id).semaphore) :
    { m.channels id with gpuGet := g' }.Covered := by
  have hpassed := hspec.passed
  unfold PushChannel.Covered at hcov ⊢
  dsimp only
  rcases Nat.eq_zero_or_pos k with rfl | hpos
  · omega
  · -- the last entry that is passed was completed
    obtain ⟨i, hi, hdist⟩ := exists_inRing (d := k - 1) (h.wf id).get (h.wf id).put (by omega)
    have hvalue := h.values id i hi
    have hcompl := hspec.completed i hi (by omega)
    unfold entry at hvalue
    dsimp only at hvalue
    omega

theorem RingInv.step_grows (h : m.RingInv) (op : ManagerStep) (id : ℕ) :
    (m.channels id).queuedValue ≤ ((m.step op).channels id).queuedValue ∧
      (m.channels id).semaphore ≤ ((m.step op).channels id).semaphore ∧
        ((m.channels id).Covered → ((m.step op).channels id).Covered) := by
  have hsame : ∀ m' : ChannelManager, m'.channels id = m.channels id →
      (m.channels id).queuedValue ≤ (m'.channels id).queuedValue ∧
        (m.channels id).semaphore ≤ (m'.channels id).semaphore ∧
          ((m.channels id).Covered → (m'.channels id).Covered) := by
    intro m' heq
    rw [heq]
    exact ⟨le_refl _, le_refl _, fun hc => hc⟩
  cases op with
  | tryClaimChannel push id' =>
    rcases m.step_tryClaimChannel push id' with heq | ⟨-, -, heq⟩
    · exact hsame _ (by rw [heq])
    · rw [heq, setPush_channels, setChannel_channels]
      by_cases hid : id = id'
      · subst hid
        rw [update_self]
        exact ⟨le_refl _, le_refl _, fun hc => hc⟩
      · rw [update_of_ne hid]
        exact ⟨le_refl _, le_refl _, fun hc => hc⟩
  | tryClaimChunk push =>
    rcases m.step_tryClaimChunk push with heq | ⟨c, pb, -, -, heq⟩
    · exact hsame _ (by rw [heq])
    · exact hsame _ (by rw [heq]; rfl)
  | endPush push size =>
    simp only [ChannelManager.step]
    split
    case isFalse => exact hsame _ rfl
    case isTrue hbegun =>
      by_cases hid : id = (m.pushes push).channel
      · subst hid
        have hwf := h.wf (m.pushes push).channel
        have hroom := PushChannel.Wf.room_endPush hwf
          ((h.counted (m.pushes push).channel).pos (.inr hbegun) rfl)
        have hdist := dist_next_put hwf.get hwf.put hroom
        simp only [ChannelManager.endPushSection, setPush_channels, setChannel_channels, update_self,
          PushChannel.Covered]
        omega
      · exact hsame _ (by simp [ChannelManager.endPushSection, hid])
  | pushbufferEndPush push =>
    simp only [ChannelManager.step]
    split <;> exact hsame _ rfl
  | complete id' value =>
    simp only [ChannelManager.step]
    split
    case isFalse => exact hsame _ rfl
    case isTrue hvalue =>
      by_cases hid : id = id'
      · subst hid
        simp only [setChannel_channels, update_self, PushChannel.Covered]
        omega
      · exact hsame _ (by simp [hid])
  | updateProgress id' completedValue maxToComplete =>
    simp only [ChannelManager.step]
    split
    case isFalse => exact hsame _ rfl
    case isTrue hle =>
      obtain ⟨g', k, hspec, hchans, -⟩ :=
        updateProgress_spec h.wf id' completedValue maxToComplete
      by_cases hid : id = id'
      · subst hid
        rw [hchans, update_self]
        exact ⟨le_refl _, le_refl _, fun hc => h.covered_advance hc hspec hle⟩
      · exact hsame _ (by rw [hchans, update_of_ne hid])

/-- The invariant, with every channel covered. -/
def Owes (m : ChannelManager) : Prop := m.RingInv ∧ ∀ id, (m.channels id).Covered

theorem Owes.step (h : m.Owes) (op : ManagerStep) : (m.step op).Owes :=
  ⟨h.1.step op, fun id => (h.1.step_grows op id).2.2 (h.2 id)⟩

/-- What a state leads to: it still owes what its rings hold, and the values of `id` have grown. -/
def Leads (id : ℕ) (m m' : ChannelManager) : Prop := m'.Owes ∧
  (m.channels id).queuedValue ≤ (m'.channels id).queuedValue ∧
    (m.channels id).semaphore ≤ (m'.channels id).semaphore

theorem Leads.trans {m'' : ChannelManager} (h : Leads id m m') (h' : Leads id m' m'') :
    Leads id m m'' :=
  ⟨h'.1, h.2.1.trans h'.2.1, h.2.2.trans h'.2.2⟩

theorem Owes.leads (h : m.Owes) (id : ℕ) (ops : List ManagerStep) :
    Leads id m (run ChannelManager.step m ops) :=
  run_inv ChannelManager.step (I := Leads id m) ⟨h, le_refl _, le_refl _⟩
    (fun _ op hm => hm.trans ⟨hm.1.step op, (hm.1.1.step_grows op id).1,
      (hm.1.1.step_grows op id).2.1⟩) ops

theorem run_owes (numGpFifoEntries : ℕ → { n : ℕ // 0 < n }) (ops : List ManagerStep) :
    (run ChannelManager.step (init numGpFifoEntries) ops).Owes :=
  run_inv ChannelManager.step (I := Owes) ⟨ringInv_init numGpFifoEntries, fun _ => le_refl 0⟩
    (fun _ op h => h.step op) ops

/-! ## How far the progress goes -/

theorem Owes.pending_updateProgress (h : m.Owes) (id left : ℕ) :
    (m.uvmChannelUpdateProgressWithMax id (m.channels id).semaphore left .completed).1 =
      max ((m.channels id).pendingGpfifos (m.channels id).gpuGet - left)
        ((m.channels id).queuedValue - (m.channels id).semaphore) := by
  obtain ⟨k, hspec⟩ := completeEntries_spec id (m.channels id).semaphore left (h.1.wf id).put rfl
    (h.1.wf id).get
  have hcov := h.1.covered_advance (h.2 id) hspec (le_refl _)
  have hpassed := hspec.passed
  have hlimit := hspec.limit
  unfold uvmChannelUpdateProgressWithMax
  change dist _ _ _ = max (dist _ _ _ - left) _
  generalize (completeEntries .completed id (m.channels id).semaphore left
    ((m.channels id).gpuGet, m)).1 = g' at hspec hcov hpassed ⊢
  unfold PushChannel.Covered at hcov
  dsimp only at hcov
  rcases hspec.stopped with rfl | rfl | hpend
  · omega
  · rw [dist_self] at hpassed hcov ⊢
    omega
  · by_cases hempty : g' = (m.channels id).cpuPut
    · rw [hempty, dist_self] at hpassed hcov ⊢
      omega
    · -- the entry that stopped the loop is the first that is not completed
      have hfirst := inRing_get hspec.get hempty
      have hvalue := h.1.values id g' ((hspec.holds g').mp hfirst).1
      have hnear := hspec.nearer g' hfirst
      rw [dist_self] at hnear
      unfold entry at hvalue
      dsimp only at hvalue
      omega

theorem Owes.calls_pending (id calls : ℕ) : ∀ {m : ChannelManager}, m.Owes →
    let m' := (fun m => (m.uvmChannelUpdateProgress id (m.channels id).semaphore).2)^[calls] m
    (m'.channels id).pendingGpfifos (m'.channels id).gpuGet =
      max ((m.channels id).pendingGpfifos (m.channels id).gpuGet - 8 * calls)
        ((m.channels id).queuedValue - (m.channels id).semaphore) := by
  induction calls with
  | zero =>
    intro m h
    have hcov : _ ≤ _ + (m.channels id).pendingGpfifos (m.channels id).gpuGet := h.2 id
    simp only [Function.iterate_zero, id_eq]
    omega
  | succ calls ih =>
    intro m h
    have hleft := h.pending_updateProgress id 8
    have hnext := h.step (.updateProgress id (m.channels id).semaphore 8)
    simp only [ChannelManager.step, if_pos (le_refl _)] at hnext
    have hkeep := (completeEntries_keeps .completed id (m.channels id).semaphore 8
      (m.channels id).gpuGet m).1
    have hafter := ih hnext
    rw [Function.iterate_succ_apply]
    simp only [uvmChannelUpdateProgress, uvmChannelUpdateProgressWithMax, setGpuGet,
      setChannel_channels, update_self, hkeep] at hafter hleft ⊢
    rw [hafter]
    simp only [PushChannel.pendingGpfifos] at hleft ⊢
    omega

/-- **The progress of a channel** in every state that a run reaches: calls of
`uvm_channel_update_progress` take eight entries off the ring each, down to those that the GPU has
not completed, and one call of `uvm_channel_update_progress_all` leaves just these. -/
theorem updateProgress_pending (numGpFifoEntries : ℕ → { n : ℕ // 0 < n })
    (ops : List ManagerStep) (id calls : ℕ) :
    let m := run ChannelManager.step (init numGpFifoEntries) ops
    let pending := fun m : ChannelManager => (m.channels id).pendingGpfifos (m.channels id).gpuGet
    let owed := (m.channels id).queuedValue - (m.channels id).semaphore
    pending ((fun m => (m.uvmChannelUpdateProgress id (m.channels id).semaphore).2)^[calls] m) =
        max (pending m - 8 * calls) owed ∧
      (m.uvmChannelUpdateProgressAll id (m.channels id).semaphore).1 = owed := by
  have h := run_owes numGpFifoEntries ops
  intro m pending owed
  have hall := h.pending_updateProgress id (m.channels id).numGpFifoEntries
  have hlt : pending m < (m.channels id).numGpFifoEntries :=
    dist_lt (h.1.wf id).get (h.1.wf id).put
  refine ⟨h.calls_pending id calls, hall.trans ?_⟩
  rw [Nat.sub_eq_zero_of_le hlt.le, Nat.zero_max]

/-! ## The passes -/

theorem Owes.completed (h : m.Owes) {value : ℕ} (hle : value ≤ (m.channels id).semaphore)
    (hzero : (m.uvmChannelUpdateProgress id value).1 = 0) :
    (m.channels id).queuedValue ≤ (m.channels id).semaphore := by
  have hcov := (h.step (.updateProgress id value 8)).2 id
  have hkeep := (completeEntries_keeps .completed id value 8 (m.channels id).gpuGet m).1
  simp only [ChannelManager.step, if_pos hle, uvmChannelUpdateProgressWithMax, setGpuGet,
    setChannel_channels, update_self, hkeep] at hcov
  have hdist : dist (m.channels id).numGpFifoEntries
      (completeEntries .completed id value 8 ((m.channels id).gpuGet, m)).1
        (m.channels id).cpuPut = 0 := hzero
  exact hcov.trans_eq (by rw [hdist, Nat.add_zero])

theorem Owes.pass (id : ℕ) (visits : List ProgressVisit) : ∀ {m : ChannelManager}, m.Owes →
    Leads id m (m.uvmChannelManagerUpdateProgress visits).2 ∧
      ((m.uvmChannelManagerUpdateProgress visits).1 = 0 → (∃ v ∈ visits, v.channel = id) →
        (m.channels id).queuedValue ≤
          ((m.uvmChannelManagerUpdateProgress visits).2.channels id).semaphore) := by
  induction visits with
  | nil => exact fun h => ⟨⟨h, le_refl _, le_refl _⟩, by simp⟩
  | cons v visits ih =>
    intro m h
    have hothers := h.leads id v.others
    have hle := Nat.min_le_right v.completedValue
      ((run ChannelManager.step m v.others).channels v.channel).semaphore
    unfold uvmChannelManagerUpdateProgress
    dsimp only
    generalize run ChannelManager.step m v.others = m₁ at hothers hle ⊢
    generalize min v.completedValue (m₁.channels v.channel).semaphore = value at hle ⊢
    have hvisit : Leads id m₁ (m₁.uvmChannelUpdateProgress v.channel value).2 := by
      have hrun := hothers.1.leads id [.updateProgress v.channel value 8]
      rwa [run, List.foldl_cons, List.foldl_nil, ChannelManager.step, if_pos hle] at hrun
    obtain ⟨hrest, hzero⟩ := ih hvisit.1
    refine ⟨(hothers.trans hvisit).trans hrest, fun hsum hmem => ?_⟩
    obtain ⟨hfirst, hlast⟩ := Nat.add_eq_zero_iff.mp hsum
    obtain ⟨w, hw, hid⟩ := hmem
    rcases List.mem_cons.mp hw with rfl | hw
    · subst hid
      exact hothers.2.1.trans ((hothers.1.completed hle hfirst).trans
        (hvisit.2.2.trans hrest.2.2))
    · exact (hothers.2.1.trans hvisit.2.1).trans (hzero hlast ⟨w, hw, hid⟩)

theorem Owes.loop (id : ℕ) (passes : List (List ProgressVisit × NvStatus))
    (hpasses : ∀ p ∈ passes, ∃ v ∈ p.1, v.channel = id) :
    ∀ {status m m'}, m.Owes → waitLoop passes status m = some (.ok, m') →
      (m.channels id).queuedValue ≤ (m'.channels id).semaphore := by
  induction passes with
  | nil => exact fun _ hwait => absurd hwait (by simp [ChannelManager.waitLoop])
  | cons p passes ih =>
    intro status m m' h hwait
    obtain ⟨hfirst, hrest⟩ := List.forall_mem_cons.mp hpasses
    obtain ⟨hleads, hzero⟩ := h.pass id p.1
    unfold ChannelManager.waitLoop at hwait
    dsimp only at hwait
    split at hwait
    · exact hleads.2.1.trans (ih hrest hleads.1 hwait)
    · next hdone =>
      obtain ⟨rfl, rfl⟩ := Prod.mk.inj (Option.some.inj hwait)
      exact hzero (by simpa using hdone) hfirst

/-- **What `uvm_channel_manager_wait` waits for**: when it returns `NV_OK`, the GPU has completed
every push that had ended on the channels before the call, whatever the other threads do
meanwhile. -/
theorem uvmChannelManagerWait_completes (numGpFifoEntries : ℕ → { n : ℕ // 0 < n })
    (ops : List ManagerStep) (passes : List (List ProgressVisit × NvStatus)) (id : ℕ)
    {m' : ChannelManager} (hpasses : ∀ p ∈ passes, ∃ v ∈ p.1, v.channel = id)
    (hwait : (run ChannelManager.step (init numGpFifoEntries) ops).uvmChannelManagerWait passes =
      some (.ok, m')) :
    ((run ChannelManager.step (init numGpFifoEntries) ops).channels id).queuedValue ≤
      (m'.channels id).semaphore := by
  have h := run_owes numGpFifoEntries ops
  generalize run ChannelManager.step (init numGpFifoEntries) ops = m at h hwait ⊢
  cases passes with
  | nil => cases hwait
  | cons p passes =>
    obtain ⟨hfirst, hrest⟩ := List.forall_mem_cons.mp hpasses
    obtain ⟨hleads, hzero⟩ := h.pass id p.1
    unfold uvmChannelManagerWait at hwait
    dsimp only at hwait
    split at hwait
    · next hnone =>
      obtain ⟨-, rfl⟩ := Prod.mk.inj (Option.some.inj hwait)
      exact hzero hnone hfirst
    · exact hleads.2.1.trans (Owes.loop id passes hrest hleads.1 hwait)

theorem uvmChannelManagerWait_completes_onePush :
    ∃ m', (run ChannelManager.step (init fun _ => ⟨4, by decide⟩) [.tryClaimChannel 0 0,
      .tryClaimChunk 0, .endPush 0 ⟨4, by decide⟩]).uvmChannelManagerWait
        [([⟨[], 0, 0⟩], .ok), ([⟨[.complete 0 1], 0, 1⟩], .ok)] = some (.ok, m') ∧
      1 ≤ (m'.channels 0).semaphore := by
  have hok : ((run ChannelManager.step (init fun _ => ⟨4, by decide⟩) [.tryClaimChannel 0 0,
      .tryClaimChunk 0, .endPush 0 ⟨4, by decide⟩]).uvmChannelManagerWait
        [([⟨[], 0, 0⟩], .ok), ([⟨[.complete 0 1], 0, 1⟩], .ok)]).map (·.1) = some .ok := by
    decide +kernel
  obtain ⟨⟨_, m'⟩, hwait, rfl⟩ := Option.map_eq_some_iff.mp hok
  exact ⟨m', hwait, uvmChannelManagerWait_completes _ _ _ 0 (by simp) hwait⟩

end ChannelManager

end NvUvm
