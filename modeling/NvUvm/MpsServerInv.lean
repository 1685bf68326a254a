import NvUvm.Lib.Held
import NvUvm.Lib.Slots
import NvUvm.MpsServers

/-!
# Trackers and servers between the lock sections
-/

namespace NvUvm.Mps

open Lib
open Function (update update_of_ne update_self)

/-- The process has not dropped its reference to its server. -/
def Stage.holdsRef : Stage → Bool
  | .opened | .delisted | .dying => true
  | .released | .removed | .closed => false

def Stage.isGone : Stage → Bool
  | .removed | .closed => true
  | _ => false

namespace State

variable {s s' : State} {p q i m t : ℕ} {c : Call}

/-! ## The invariant -/

def Refers (s : State) (p m : ℕ) : Prop :=
  (s.process p).mpsServer = some m ∧ (s.process p).stage.holdsRef

instance (s : State) (p m : ℕ) : Decidable (s.Refers p m) := inferInstanceAs (Decidable (_ ∧ _))

/-- The number of references of a process to a server. -/
def refs (s : State) (p m : ℕ) : ℕ := if s.Refers p m then 1 else 0

/-- The entries of the processes that own their trackers. -/
def ownSlot (s : State) (x : ℕ × ℕ) : Option ℕ :=
  if (s.process x.1).mpsProcessType = .client then none else (s.process x.1).gpuMigs x.2

/-- Each tracker is in one entry of a process that is no client, until it is freed; the copy of a
client is of a tracker that its server has, or of a freed one. -/
structure TrackerInv (s : State) : Prop where
  slotted : Slotted s.trackers s.freed s.ownSlot
  attached : s.attached.length ≤ maxGpus
  index : ∀ p i, (s.process p).gpuMigs i ≠ none → i < s.attached.length
  gone : ∀ p i, (s.process p).stage.isGone → (s.process p).gpuMigs i = none
  copied : ∀ p m i t, (s.process p).mpsProcessType = .client →
    (s.process p).mpsServer = some m → (s.process p).gpuMigs i = some t →
      (s.process (s.server m).processRecord).gpuMigs i = some t ∨ s.freed t = 1

/-- Each server belongs to one process, and its count is the number of processes that refer to it. -/
structure ServerInv (s : State) : Prop where
  unopened : ∀ p, s.opened ≤ p → (s.process p).stage = .closed ∧
    (s.process p).mpsProcessType = .notActive ∧ (s.process p).mpsServer = none
  notActive : ∀ p, (s.process p).mpsProcessType = .notActive → (s.process p).mpsServer = none
  active : ∀ p, (s.process p).mpsProcessType ≠ .notActive →
    ∃ m, m < s.servers ∧ (s.process p).mpsServer = some m
  owner : ∀ m, m < s.servers →
    (s.process (s.server m).processRecord).mpsProcessType = .server ∧
      (s.process (s.server m).processRecord).mpsServer = some m
  own : ∀ p m, (s.process p).mpsProcessType = .server → (s.process p).mpsServer = some m →
    (s.server m).processRecord = p
  kref : ∀ m, m < s.servers → (s.server m).kref = held s.refs (List.range s.opened) m
  freed : ∀ m, m < s.servers → (s.server m).freed = if (s.server m).kref = 0 then 1 else 0
  dying : ∀ m, m < s.servers → (s.server m).dying = false →
    (s.process (s.server m).processRecord).stage = .opened ∨
      (s.process (s.server m).processRecord).stage = .delisted
  listed : ∀ m ∈ s.serversList, m < s.servers

/-- What a call has found when it holds `uvmPrivLock`. -/
def CallFits (s : State) (p : ℕ) : Call → Prop
  | .idle => True
  | .registerServer _ _ | .failServer _ => (s.process p).mpsProcessType = .notActive
  | .registerClient m => (s.process p).mpsProcessType = .notActive ∧ m < s.servers
  | .migrate i t => (s.process p).mpsProcessType = .client ∧ (s.process p).gpuMigs i = some t
  | .createOrCheckChannel _ | .fault _ _ => (s.process p).mpsProcessType = .client

/-- A call holds the `uvmPrivLock` of an open process, and what it has found still holds. -/
structure CallInv (s : State) : Prop where
  opened : ∀ p, (s.process p).call ≠ .idle → p < s.opened ∧ (s.process p).stage = .opened
  fits : ∀ p, s.CallFits p (s.process p).call

/-- The processes on the table are not gone. -/
structure TableInv (s : State) : Prop where
  nodup : s.table.Nodup
  present : ∀ p ∈ s.table, p < s.opened ∧ (s.process p).stage.isGone = false
  stopping : ∀ i rest, s.stopping = some (i, rest) → ∀ p ∈ rest, p ∈ s.table

/-- The invariant of the runs. -/
structure Inv (s : State) : Prop where
  calm : s.violated = false
  trackers : s.TrackerInv
  servers : s.ServerInv
  calls : s.CallInv
  table : s.TableInv

/-! ## Accesses -/

theorem touchTracker_eq (h : s.freed t = 0) : s.touchTracker t = s := by
  unfold touchTracker
  simp [h]

theorem touchServer_eq (h : (s.server m).freed = 0) : s.touchServer m = s := by
  unfold touchServer
  simp [h]

theorem touchProcess_eq (h : (s.process p).stage ≠ .closed) : s.touchProcess p = s := by
  unfold touchProcess
  simp [h]

/-! ## What a section leaves alone -/

theorem refs_congr (hmps : (s'.process p).mpsServer = (s.process p).mpsServer)
    (hstage : (s'.process p).stage.holdsRef = (s.process p).stage.holdsRef) :
    s'.refs p m = s.refs p m := by
  refine if_congr ?_ rfl rfl
  unfold Refers
  rw [hmps, hstage]

theorem refs_of_none (h : (s.process p).mpsServer = none) : s.refs p m = 0 := by
  unfold refs Refers
  simp [h]

theorem TrackerInv.congr (h : s.TrackerInv) (hatt : s'.attached.length = s.attached.length)
    (hmigs : ∀ p, (s'.process p).gpuMigs = (s.process p).gpuMigs)
    (htype : ∀ p, (s'.process p).mpsProcessType = (s.process p).mpsProcessType)
    (hserver : ∀ p, (s'.process p).mpsServer = (s.process p).mpsServer)
    (hgone : ∀ p, (s'.process p).stage.isGone → ∀ i, (s.process p).gpuMigs i = none)
    (hrec : ∀ m, (s'.server m).processRecord = (s.server m).processRecord)
    (htrackers : s'.trackers = s.trackers) (hfreed : s'.freed = s.freed) : s'.TrackerInv := by
  refine ⟨?_, ?_, fun p i => ?_, fun p i hp => ?_, fun p m i t => ?_⟩
  · rw [htrackers, hfreed]
    refine h.slotted.congr fun x => ?_
    unfold ownSlot
    rw [htype, hmigs]
  · rw [hatt]
    exact h.attached
  · rw [hmigs, hatt]
    exact h.index p i
  · rw [hmigs]
    exact hgone p hp i
  · rw [htype, hserver, hmigs, hrec, hmigs, hfreed]
    exact h.copied p m i t

theorem ServerInv.congr (h : s.ServerInv)
    (htype : ∀ p, (s'.process p).mpsProcessType = (s.process p).mpsProcessType)
    (hmps : ∀ p, (s'.process p).mpsServer = (s.process p).mpsServer)
    (hstage : ∀ p, (s'.process p).stage = (s.process p).stage)
    (hopened : s'.opened = s.opened) (hserver : s'.server = s.server)
    (hservers : s'.servers = s.servers) (hlist : s'.serversList = s.serversList) :
    s'.ServerInv := by
  have hrefs : s'.refs = s.refs := by
    funext p m
    exact refs_congr (hmps p) (congrArg Stage.holdsRef (hstage p))
  refine ⟨fun p => ?_, fun p => ?_, fun p => ?_, fun m => ?_, fun p m => ?_, fun m => ?_,
    fun m => ?_, fun m => ?_, ?_⟩
  · rw [hopened, hstage, htype, hmps]
    exact h.unopened p
  · rw [htype, hmps]
    exact h.notActive p
  · rw [htype, hmps, hservers]
    exact h.active p
  · rw [htype, hmps, hservers, hserver]
    exact h.owner m
  · rw [htype, hmps, hserver]
    exact h.own p m
  · rw [hservers, hserver, hopened, hrefs]
    exact h.kref m
  · rw [hservers, hserver]
    exact h.freed m
  · rw [hservers, hserver, hstage]
    exact h.dying m
  · rw [hlist, hservers]
    exact h.listed

theorem CallFits.congr (h : s.CallFits p c)
    (htype : (s'.process p).mpsProcessType = (s.process p).mpsProcessType)
    (hmigs : (s'.process p).gpuMigs = (s.process p).gpuMigs) (hservers : s.servers ≤ s'.servers) :
    s'.CallFits p c := by
  unfold CallFits at h ⊢
  rw [htype, hmigs]
  cases c with
  | registerClient m => exact ⟨h.1, Nat.lt_of_lt_of_le h.2 hservers⟩
  | _ => exact h

theorem TableInv.congr (h : s.TableInv) (htable : s'.table = s.table)
    (hstage : ∀ p, (s'.process p).stage = (s.process p).stage) (hopened : s'.opened = s.opened)
    (hstops : s'.stopping = s.stopping) : s'.TableInv := by
  refine ⟨?_, ?_, ?_⟩
  · rw [htable]
    exact h.nodup
  · rw [htable, hopened]
    intro p hp
    rw [hstage]
    exact h.present p hp
  · rw [hstops, htable]
    exact h.stopping

@[simp] theorem setProcess_self (pr : Process) : (s.setProcess p pr).process p = pr :=
  update_self ..

theorem setProcess_of_ne {pr : Process} (h : q ≠ p) : (s.setProcess p pr).process q = s.process q :=
  update_of_ne h ..

variable {α : Type*} {o : Option ℕ}

theorem setProcess_field (f : Process → α) (pr : Process) (h : f pr = f (s.process p)) (q : ℕ) :
    f ((s.setProcess p pr).process q) = f (s.process q) := by
  by_cases hq : q = p
  · subst hq
    rw [setProcess_self, h]
  · rw [setProcess_of_ne hq]

/-! ## Calls -/

theorem Inv.setCall (h : s.Inv) (hopen : c ≠ .idle → p < s.opened ∧ (s.process p).stage = .opened)
    (hfits : s.CallFits p c) : (s.setCall p c).Inv := by
  have htype := setProcess_field (s := s) (p := p) Process.mpsProcessType
    { s.process p with call := c } rfl
  have hmigs := setProcess_field (s := s) (p := p) Process.gpuMigs
    { s.process p with call := c } rfl
  have hmps := setProcess_field (s := s) (p := p) Process.mpsServer
    { s.process p with call := c } rfl
  have hstage := setProcess_field (s := s) (p := p) Process.stage
    { s.process p with call := c } rfl
  refine ⟨h.calm, ?_, ?_, ⟨fun q => ?_, fun q => ?_⟩, ?_⟩
  · exact h.trackers.congr rfl hmigs htype hmps (fun q hq i => h.trackers.gone q i (hstage q ▸ hq))
      (fun _ => rfl) rfl rfl
  · exact h.servers.congr htype hmps hstage rfl rfl rfl rfl
  · unfold State.setCall
    by_cases hq : q = p
    · subst hq
      rw [setProcess_self]
      exact hopen
    · rw [setProcess_of_ne hq]
      exact h.calls.opened q
  · have hcall : s.CallFits q ((s.setCall p c).process q).call := by
      unfold State.setCall
      by_cases hq : q = p
      · subst hq
        rw [setProcess_self]
        exact hfits
      · rw [setProcess_of_ne hq]
        exact h.calls.fits q
    exact hcall.congr (htype q) (hmigs q) (Nat.le_refl _)
  · exact h.table.congr rfl hstage rfl rfl

theorem Inv.setIdle (h : s.Inv) (p : ℕ) : (s.setCall p .idle).Inv :=
  h.setCall (fun hne => absurd rfl hne) trivial

/-! ## Trackers -/

@[simp] theorem setMig_gpuMigs (o : Option ℕ) : ((s.setMig p i o).process p).gpuMigs =
    update (s.process p).gpuMigs i o := by
  unfold setMig
  rw [setProcess_self]

theorem setMig_of_ne (h : q ≠ p) : (s.setMig p i o).process q = s.process q :=
  setProcess_of_ne h

theorem setMig_field (f : Process → α) (h : ∀ pr migs, f { pr with gpuMigs := migs } = f pr)
    (q : ℕ) : f ((s.setMig p i o).process q) = f (s.process q) :=
  setProcess_field f _ (h _ _) q

theorem setMig_type (o : Option ℕ) (q : ℕ) :
    ((s.setMig p i o).process q).mpsProcessType = (s.process q).mpsProcessType :=
  setMig_field _ (fun _ _ => rfl) q

theorem ownSlot_setMig (htype : (s.process p).mpsProcessType ≠ .client) (o : Option ℕ) :
    (s.setMig p i o).ownSlot = update s.ownSlot (p, i) o := by
  funext ⟨q, j⟩
  unfold ownSlot
  rw [setMig_type]
  by_cases hq : q = p
  · subst hq
    rw [if_neg htype, setMig_gpuMigs]
    by_cases hj : j = i
    · subst hj
      rw [update_self, update_self]
    · have hne : (q, j) ≠ (q, i) := fun heq => hj (Prod.mk.inj heq).2
      rw [update_of_ne hj, update_of_ne hne, if_neg htype]
  · have hne : (q, j) ≠ (p, i) := fun heq => hq (Prod.mk.inj heq).1
    rw [update_of_ne hne]
    rw [setMig_of_ne hq]

theorem ownSlot_setMig_client (htype : (s.process p).mpsProcessType = .client) (o : Option ℕ) :
    (s.setMig p i o).ownSlot = s.ownSlot := by
  funext ⟨q, j⟩
  unfold ownSlot
  rw [setMig_type]
  by_cases hq : q = p
  · subst hq
    rw [if_pos htype, if_pos htype]
  · dsimp only
    rw [setMig_of_ne hq]

theorem setMig_gpuMigs_cases {j : ℕ} (h : ((s.setMig p i o).process q).gpuMigs j = some t) :
    (q = p ∧ j = i ∧ o = some t) ∨ (¬ (q = p ∧ j = i) ∧ (s.process q).gpuMigs j = some t) := by
  by_cases hq : q = p
  · subst hq
    rw [setMig_gpuMigs] at h
    by_cases hj : j = i
    · subst hj
      rw [update_self] at h
      exact .inl ⟨rfl, rfl, h⟩
    · rw [update_of_ne hj] at h
      exact .inr ⟨fun heq => hj heq.2, h⟩
  · rw [setMig_of_ne hq] at h
    exact .inr ⟨fun heq => hq heq.1, h⟩

theorem setMig_gpuMigs_of_ne {j : ℕ} (h : ¬ (q = p ∧ j = i)) :
    ((s.setMig p i o).process q).gpuMigs j = (s.process q).gpuMigs j := by
  by_cases hq : q = p
  · subst hq
    have hj : j ≠ i := fun hj => h ⟨rfl, hj⟩
    rw [setMig_gpuMigs, update_of_ne hj]
  · rw [setMig_of_ne hq]

theorem Inv.writeMig (h : s.Inv) {n : ℕ} {f : ℕ → ℕ}
    (hcall : ∀ u, (s.process p).call ≠ .migrate i u)
    (ho : ∀ u, o = some u → i < s.attached.length ∧ (s.process p).stage.isGone = false)
    (hslotted : Slotted n f (s.setMig p i o).ownSlot)
    (hcopied : ∀ q m j u, (s.process q).mpsProcessType = .client →
      (s.process q).mpsServer = some m → ((s.setMig p i o).process q).gpuMigs j = some u →
        ((s.setMig p i o).process (s.server m).processRecord).gpuMigs j = some u ∨ f u = 1) :
    { s.setMig p i o with trackers := n, freed := f }.Inv := by
  have hstage : ∀ q, ((s.setMig p i o).process q).stage = (s.process q).stage :=
    setMig_field Process.stage fun _ _ => rfl
  have htype := setMig_type (s := s) (p := p) (i := i) o
  have hmps : ∀ q, ((s.setMig p i o).process q).mpsServer = (s.process q).mpsServer :=
    setMig_field Process.mpsServer fun _ _ => rfl
  have hcalls : ∀ q, ((s.setMig p i o).process q).call = (s.process q).call :=
    setMig_field Process.call fun _ _ => rfl
  refine ⟨h.calm, ⟨hslotted, h.trackers.attached, fun q j hj => ?_, fun q j hq => ?_,
      fun q m j u hq hm => hcopied q m j u ((htype q).symm.trans hq) ((hmps q).symm.trans hm)⟩,
    h.servers.congr htype hmps hstage rfl rfl rfl rfl, ⟨fun q hq => ?_, fun q => ?_⟩,
    h.table.congr rfl hstage rfl rfl⟩
  · obtain ⟨u, hu⟩ := Option.ne_none_iff_exists'.mp hj
    rcases setMig_gpuMigs_cases hu with ⟨-, rfl, hwritten⟩ | ⟨-, hold⟩
    · exact (ho u hwritten).1
    · exact h.trackers.index q j (by rw [hold]; exact Option.some_ne_none u)
  · have hgone : (s.process q).stage.isGone := hstage q ▸ hq
    by_contra hsome
    obtain ⟨u, hu⟩ := Option.ne_none_iff_exists'.mp hsome
    rcases setMig_gpuMigs_cases hu with ⟨rfl, -, hwritten⟩ | ⟨-, hold⟩
    · rw [(ho u hwritten).2] at hgone
      exact nomatch hgone
    · exact nomatch hold.symm.trans (h.trackers.gone q j hgone)
  · rw [hstage]
    exact h.calls.opened q (hcalls q ▸ hq)
  · have hfits := h.calls.fits q
    rw [hcalls]
    cases hc : (s.process q).call with
    | migrate j u =>
      rw [hc] at hfits
      refine ⟨(htype q).trans hfits.1, (setMig_gpuMigs_of_ne ?_).trans hfits.2⟩
      rintro ⟨rfl, rfl⟩
      exact hcall u hc
    | registerClient m =>
      rw [hc] at hfits
      exact ⟨(htype q).trans hfits.1, hfits.2⟩
    | idle => trivial
    | _ =>
      rw [hc] at hfits
      exact (htype q).trans hfits

theorem Inv.call_ne_migrate (h : s.Inv) (htype : (s.process p).mpsProcessType ≠ .client) (u : ℕ) :
    (s.process p).call ≠ .migrate i u := by
  intro hu
  have hfits := h.calls.fits p
  rw [hu] at hfits
  exact htype hfits.1

theorem Inv.server_of_client (h : s.Inv) (htype : (s.process p).mpsProcessType = .client)
    (hm : (s.process p).mpsServer = some m) :
    m < s.servers ∧ (s.process (s.server m).processRecord).mpsProcessType = .server ∧
      (s.server m).processRecord ≠ p := by
  obtain ⟨m', hlt, hm'⟩ := h.servers.active p (by rw [htype]; decide)
  obtain rfl : m = m' := Option.some.inj (hm.symm.trans hm')
  have howner := (h.servers.owner m hlt).1
  refine ⟨hlt, howner, ?_⟩
  rintro heq
  rw [heq, htype] at howner
  exact nomatch howner

theorem Inv.storeTracker (h : s.Inv) (htype : (s.process p).mpsProcessType ≠ .client)
    (hstage : (s.process p).stage = .opened) (hnone : (s.process p).gpuMigs i = none)
    (hi : i < s.attached.length) :
    { s.setMig p i (some s.trackers) with trackers := s.trackers + 1 }.Inv := by
  refine h.writeMig (h.call_ne_migrate htype) (fun _ _ => ⟨hi, by rw [hstage]; rfl⟩) ?_
    fun q m j u hq hm hj => ?_
  · rw [ownSlot_setMig htype]
    exact h.trackers.slotted.put (by unfold ownSlot; rw [if_neg htype, hnone])
  · have hqp : q ≠ p := fun heq => htype (heq ▸ hq)
    rw [setMig_of_ne hqp] at hj
    refine (h.trackers.copied q m j u hq hm hj).imp_left fun hserver => ?_
    -- the entry of the server is another one, since this one was empty
    have hne : ¬ ((s.server m).processRecord = p ∧ j = i) := by
      rintro ⟨heq, rfl⟩
      rw [heq, hnone] at hserver
      exact nomatch hserver
    exact (setMig_gpuMigs_of_ne hne).trans hserver

theorem Inv.discardTracker (h : s.Inv) :
    { s with trackers := s.trackers + 1, freed := update s.freed s.trackers 1 }.Inv := by
  refine ⟨h.calm, ⟨h.trackers.slotted.discard, h.trackers.attached, h.trackers.index,
    h.trackers.gone, fun q m j u hq hm hj => ?_⟩, ?_, ⟨h.calls.opened, fun q => ?_⟩, ?_⟩
  · refine (h.trackers.copied q m j u hq hm hj).imp_right fun hfreed => ?_
    have hne : u ≠ s.trackers := by
      rintro rfl
      rw [h.trackers.slotted.fresh _ le_rfl] at hfreed
      exact nomatch hfreed
    exact (update_of_ne hne ..).trans hfreed
  · exact h.servers.congr (fun _ => rfl) (fun _ => rfl) (fun _ => rfl) rfl rfl rfl rfl
  · exact (h.calls.fits q).congr rfl rfl le_rfl
  · exact h.table.congr rfl (fun _ => rfl) rfl rfl

theorem Inv.freeTracker (h : s.Inv) (htype : (s.process p).mpsProcessType ≠ .client)
    (ht : (s.process p).gpuMigs i = some t) :
    ((s.destroyTracker t).setMig p i none).Inv := by
  have hslot : s.ownSlot (p, i) = some t := by
    unfold ownSlot
    rw [if_neg htype, ht]
  have hzero := (h.trackers.slotted.held _ _ hslot).2
  unfold destroyTracker
  rw [touchTracker_eq hzero]
  refine h.writeMig (h.call_ne_migrate htype) nofun ?_ fun q m j u hq hm hj => ?_
  · rw [ownSlot_setMig htype]
    exact h.trackers.slotted.take hslot
  · have hqp : q ≠ p := fun heq => htype (heq ▸ hq)
    rw [setMig_of_ne hqp] at hj
    by_cases hut : u = t
    · subst hut
      exact .inr ((update_self ..).trans (by rw [hzero]))
    · refine (h.trackers.copied q m j u hq hm hj).imp (fun hserver => ?_)
        (update_of_ne hut ..).trans
      -- the entry of the server holds another tracker
      have hne : ¬ ((s.server m).processRecord = p ∧ j = i) := by
        rintro ⟨heq, rfl⟩
        rw [heq, ht] at hserver
        exact hut (Option.some.inj hserver).symm
      exact (setMig_gpuMigs_of_ne hne).trans hserver

theorem Inv.setCopy (h : s.Inv) (htype : (s.process p).mpsProcessType = .client)
    (hcall : ∀ u, (s.process p).call ≠ .migrate i u)
    (ho : ∀ u, o = some u → (s.process p).stage.isGone = false ∧
      ∃ m, (s.process p).mpsServer = some m ∧
        (s.process (s.server m).processRecord).gpuMigs i = some u) : (s.setMig p i o).Inv := by
  refine h.writeMig hcall (fun u hu => ?_) ?_ fun q m j u hq hm hj => ?_
  · obtain ⟨hgone, m, -, hserver⟩ := ho u hu
    exact ⟨h.trackers.index _ i (by rw [hserver]; exact Option.some_ne_none u), hgone⟩
  · rw [ownSlot_setMig_client htype]
    exact h.trackers.slotted
  · -- the entries of a server are not written
    obtain ⟨-, howner, -⟩ := h.server_of_client hq hm
    have hne : (s.server m).processRecord ≠ p := by
      rintro heq
      rw [heq, htype] at howner
      exact nomatch howner
    rw [setMig_of_ne hne]
    rcases setMig_gpuMigs_cases hj with ⟨rfl, rfl, hwritten⟩ | ⟨-, hold⟩
    · obtain ⟨-, m', hm', hserver⟩ := ho u hwritten
      obtain rfl : m' = m := Option.some.inj (hm'.symm.trans hm)
      exact .inl hserver
    · exact h.trackers.copied q m j u hq hm hold

theorem Inv.destroyMig (h : s.Inv) (hcall : (s.process p).call = .idle) (i : ℕ) :
    (s.destroyMig p i).Inv := by
  unfold State.destroyMig
  cases ht : (s.process p).gpuMigs i with
  | none => exact h
  | some t =>
    dsimp only
    by_cases htype : (s.process p).mpsProcessType = .client
    · rw [if_pos htype]
      exact h.setCopy htype (fun u hu => nomatch hcall.symm.trans hu) fun u hu => nomatch hu
    · rw [if_neg htype]
      exact h.freeTracker htype ht

/-- What the tracker operations leave of a process and of the table. -/
structure SameFile (s s' : State) (p : ℕ) : Prop where
  type : (s'.process p).mpsProcessType = (s.process p).mpsProcessType
  mpsServer : (s'.process p).mpsServer = (s.process p).mpsServer
  stage : (s'.process p).stage = (s.process p).stage
  call : (s'.process p).call = (s.process p).call
  opened : s'.opened = s.opened
  table : s'.table = s.table

theorem SameFile.trans {s₁ s₂ s₃ : State} (h₁ : SameFile s₁ s₂ p) (h₂ : SameFile s₂ s₃ p) :
    SameFile s₁ s₃ p where
  type := h₂.type.trans h₁.type
  mpsServer := h₂.mpsServer.trans h₁.mpsServer
  stage := h₂.stage.trans h₁.stage
  call := h₂.call.trans h₁.call
  opened := h₂.opened.trans h₁.opened
  table := h₂.table.trans h₁.table

theorem setMig_sameFile (s : State) (p i : ℕ) (o : Option ℕ) (q : ℕ) :
    SameFile s (s.setMig p i o) q where
  type := setMig_type o q
  mpsServer := setMig_field _ (fun _ _ => rfl) q
  stage := setMig_field _ (fun _ _ => rfl) q
  call := setMig_field _ (fun _ _ => rfl) q
  opened := rfl
  table := rfl

theorem destroyMig_sameFile (s : State) (p i q : ℕ) : SameFile s (s.destroyMig p i) q := by
  unfold State.destroyMig
  split
  · exact ⟨rfl, rfl, rfl, rfl, rfl, rfl⟩
  · next t _ =>
    split
    · exact setMig_sameFile s p i none q
    · obtain ⟨h₁, h₂, h₃, h₄, h₅, h₆⟩ := setMig_sameFile (s.destroyTracker t) p i none q
      exact ⟨h₁, h₂, h₃, h₄, h₅, h₆⟩

theorem destroyMig_gpuMigs (j : ℕ) : ((s.destroyMig p i).process p).gpuMigs j =
    if j = i then none else (s.process p).gpuMigs j := by
  unfold State.destroyMig
  split
  · next hnone =>
    by_cases hj : j = i
    · rw [if_pos hj, hj, hnone]
    · rw [if_neg hj]
  · rw [setMig_gpuMigs, Function.update_apply]
    split
    · rfl
    · exact congrFun (congrArg Process.gpuMigs (by split <;> rfl)) j

/-- The copies that a client has are of trackers that its server still has. -/
def CopyFresh (s : State) (p i : ℕ) : Prop :=
  (s.process p).mpsProcessType = .client → ∀ m ∈ (s.process p).mpsServer,
    (s.process p).gpuMigs i = none ∨
      (s.process (s.server m).processRecord).gpuMigs i = (s.process p).gpuMigs i

theorem Inv.unfreed_of_own (h : s.Inv) (htype : (s.process p).mpsProcessType ≠ .client)
    (ht : (s.process p).gpuMigs i = some t) : s.freed t = 0 := by
  refine (h.trackers.slotted.held (p, i) t ?_).2
  unfold ownSlot
  rw [if_neg htype, ht]

theorem Inv.unfreed_iff (h : s.Inv) (ht : (s.process p).gpuMigs i = some t) :
    s.freed t = 0 ↔ s.CopyFresh p i := by
  by_cases htype : (s.process p).mpsProcessType = .client
  · obtain ⟨m, -, hm⟩ := h.servers.active p (by rw [htype]; decide)
    obtain ⟨-, howner, -⟩ := h.server_of_client htype hm
    have hserver : (s.process (s.server m).processRecord).mpsProcessType ≠ .client := by
      rw [howner]
      decide
    constructor
    · intro hzero _ m' hm'
      obtain rfl : m' = m := Option.some.inj (hm'.symm.trans hm)
      rcases h.trackers.copied p m' i t htype hm ht with hsame | hfreed
      · exact .inr (hsame.trans ht.symm)
      · omega
    · intro hfresh
      rcases hfresh htype m hm with hnone | hsame
      · exact nomatch hnone.symm.trans ht
      · exact h.unfreed_of_own hserver (hsame.trans ht)
  · exact iff_of_true (h.unfreed_of_own htype ht) fun hclient => absurd hclient htype

theorem Inv.deleteMigs (h : s.Inv) {debugPrints : Bool} (hcall : (s.process p).call = .idle)
    (l : List ℕ) (hfresh : debugPrints = true → ∀ i ∈ l, s.CopyFresh p i) :
    (l.foldl (fun s i => s.deleteMig p debugPrints i) s).Inv ∧
      SameFile s (l.foldl (fun s i => s.deleteMig p debugPrints i) s) p ∧
      ∀ j, ((l.foldl (fun s i => s.deleteMig p debugPrints i) s).process p).gpuMigs j =
        if j ∈ l then none else (s.process p).gpuMigs j := by
  induction l generalizing s with
  | nil => exact ⟨h, ⟨rfl, rfl, rfl, rfl, rfl, rfl⟩, fun j => by simp⟩
  | cons i l ih =>
    -- the print reads a tracker that is not freed
    have hdelete : s.deleteMig p debugPrints i = s.destroyMig p i := by
      unfold State.deleteMig
      cases ht : (s.process p).gpuMigs i with
      | none =>
        unfold State.destroyMig
        rw [ht]
      | some t =>
        dsimp only
        split
        · next hprints =>
          rw [touchTracker_eq ((h.unfreed_iff ht).mpr (hfresh hprints i List.mem_cons_self))]
        · rfl
    have hsame := destroyMig_sameFile s p i p
    have hrest : debugPrints = true → ∀ j ∈ l, (s.destroyMig p i).CopyFresh p j := by
      intro hprints j hj htype m hm
      rw [hsame.type] at htype
      rw [hsame.mpsServer] at hm
      obtain ⟨-, -, hne⟩ := h.server_of_client htype hm
      have hserver : ∀ q, q ≠ p → (s.destroyMig p i).process q = s.process q := by
        intro q hq
        unfold State.destroyMig
        split
        · rfl
        · rw [if_pos htype, setMig_of_ne hq]
      have hrec : (s.destroyMig p i).server = s.server := by
        unfold State.destroyMig
        split
        · rfl
        · rw [if_pos htype]
          rfl
      rw [hrec, hserver _ hne, destroyMig_gpuMigs]
      split
      · exact .inl rfl
      · exact hfresh hprints j (List.mem_cons_of_mem _ hj) htype m hm
    rw [List.foldl_cons, hdelete]
    obtain ⟨hinv, hfile, hmigs⟩ := ih (h.destroyMig hcall i) (hsame.call.trans hcall) hrest
    refine ⟨hinv, hsame.trans hfile, fun j => ?_⟩
    rw [hmigs, destroyMig_gpuMigs]
    by_cases hj : j = i
    · simp [hj]
    · simp [hj]

theorem Inv.deleteAllMigrationResources (h : s.Inv) (debugPrints : Bool)
    (hcall : (s.process p).call = .idle)
    (hfresh : debugPrints = true → ∀ i < maxGpus, s.CopyFresh p i) :
    (s.deleteAllMigrationResources p debugPrints).Inv ∧
      SameFile s (s.deleteAllMigrationResources p debugPrints) p ∧
      ∀ j, ((s.deleteAllMigrationResources p debugPrints).process p).gpuMigs j = none := by
  obtain ⟨hinv, hfile, hmigs⟩ := h.deleteMigs hcall (List.range maxGpus)
    fun hprints i hi => hfresh hprints i (List.mem_range.mp hi)
  refine ⟨hinv, hfile, fun j => ?_⟩
  refine (hmigs j).trans ?_
  split
  · rfl
  · next hout =>
    by_contra hsome
    have hlt := h.trackers.index p j hsome
    have hle := h.trackers.attached
    exact hout (List.mem_range.mpr (by omega))

theorem Inv.createTracker (h : s.Inv) (htype : (s.process p).mpsProcessType ≠ .client)
    (hstage : (s.process p).stage = .opened) (hnone : (s.process p).gpuMigs i = none)
    (hi : i < s.attached.length) (allocOk createOk : Bool) :
    (s.createTracker p i allocOk createOk).2.Inv := by
  have hsame : s.setMig p i none = s := by
    unfold setMig setProcess
    have hmigs : update (s.process p).gpuMigs i none = (s.process p).gpuMigs := by
      rw [← hnone, Function.update_eq_self]
    rw [hmigs, Function.update_eq_self]
  unfold State.createTracker
  rw [hsame]
  split
  · exact h
  · split
    · exact h.discardTracker
    · exact h.storeTracker htype hstage hnone hi

theorem createTracker_sameFile (s : State) (p i : ℕ) (allocOk createOk : Bool) :
    SameFile s (s.createTracker p i allocOk createOk).2 p := by
  unfold State.createTracker
  split
  · exact setMig_sameFile s p i none p
  · split
    · obtain ⟨h₁, h₂, h₃, h₄, h₅, h₆⟩ := setMig_sameFile s p i none p
      exact ⟨h₁, h₂, h₃, h₄, h₅, h₆⟩
    · obtain ⟨h₁, h₂, h₃, h₄, h₅, h₆⟩ := setMig_sameFile s p i (some s.trackers) p
      exact ⟨h₁, h₂, h₃, h₄, h₅, h₆⟩

/-! ## Stages and references -/

theorem setStage_field (f : Process → α) (hf : ∀ pr stage, f { pr with stage := stage } = f pr)
    (stage : Stage) (q : ℕ) : f ((s.setStage p stage).process q) = f (s.process q) :=
  setProcess_field f _ (hf _ _) q

@[simp] theorem setStage_stage (stage : Stage) : ((s.setStage p stage).process p).stage = stage := by
  unfold setStage
  rw [setProcess_self]

theorem setStage_of_ne {stage : Stage} (h : q ≠ p) : (s.setStage p stage).process q = s.process q :=
  setProcess_of_ne h

theorem Inv.enterStage (h : s.Inv) (sv : ℕ → MpsServer) {stage : Stage}
    (hcall : (s.process p).call = .idle) (hlt : p < s.opened)
    (hgone : stage.isGone → (∀ i, (s.process p).gpuMigs i = none) ∧ p ∉ s.table)
    (hrec : ∀ m, (sv m).processRecord = (s.server m).processRecord)
    (hkref : ∀ m < s.servers,
      (sv m).kref = held (s.setStage p stage).refs (List.range s.opened) m)
    (hfreed : ∀ m < s.servers, (sv m).freed = if (sv m).kref = 0 then 1 else 0)
    (hdying : ∀ m < s.servers, (sv m).dying = false → (s.server m).dying = false ∧
      ((s.server m).processRecord = p → stage = .opened ∨ stage = .delisted)) :
    { s.setStage p stage with server := sv }.Inv := by
  have hservers := h.servers
  have htype := setStage_field (s := s) (p := p) Process.mpsProcessType (fun _ _ => rfl) stage
  have hmps := setStage_field (s := s) (p := p) Process.mpsServer (fun _ _ => rfl) stage
  have hmigs := setStage_field (s := s) (p := p) Process.gpuMigs (fun _ _ => rfl) stage
  have hcalls := setStage_field (s := s) (p := p) Process.call (fun _ _ => rfl) stage
  refine ⟨h.calm, h.trackers.congr rfl hmigs htype hmps (fun q hq => ?_) hrec rfl rfl,
    ⟨fun q hq => ?_, fun q hq => ?_, fun q hq => ?_, fun m hm => ?_, fun q m hq hm => ?_, hkref,
      hfreed, fun m hm hnot => ?_, hservers.listed⟩,
    ⟨fun q hq => ?_, fun q => ?_⟩, ⟨h.table.nodup, fun q hq => ?_, h.table.stopping⟩⟩
  · change ((s.setStage p stage).process q).stage.isGone = true at hq
    by_cases hqp : q = p
    · subst hqp
      rw [setStage_stage] at hq
      exact (hgone hq).1
    · rw [setStage_of_ne hqp] at hq
      exact fun i => h.trackers.gone q i hq
  · have hqp : q ≠ p := Nat.ne_of_gt (Nat.lt_of_lt_of_le hlt hq)
    change ((s.setStage p stage).process q).stage = _ ∧ _
    rw [setStage_of_ne hqp]
    exact hservers.unopened q hq
  · exact (hmps q).trans (hservers.notActive q ((htype q).symm.trans hq))
  · obtain ⟨m, hm, hm'⟩ := hservers.active q fun hq' => hq ((htype q).trans hq')
    exact ⟨m, hm, (hmps q).trans hm'⟩
  · change ((s.setStage p stage).process (sv m).processRecord).mpsProcessType = _ ∧
      ((s.setStage p stage).process (sv m).processRecord).mpsServer = _
    rw [htype, hmps, hrec]
    exact hservers.owner m hm
  · exact (hrec m).trans (hservers.own q m ((htype q).symm.trans hq) ((hmps q).symm.trans hm))
  · obtain ⟨hold, hstage⟩ := hdying m hm hnot
    change ((s.setStage p stage).process (sv m).processRecord).stage = _ ∨
      ((s.setStage p stage).process (sv m).processRecord).stage = _
    rw [hrec]
    by_cases hqp : (s.server m).processRecord = p
    · rw [hqp, setStage_stage]
      exact hstage hqp
    · rw [setStage_of_ne hqp]
      exact hservers.dying m hm hold
  · replace hq : (s.process q).call ≠ .idle := hcalls q ▸ hq
    have hqp : q ≠ p := fun heq => hq (heq ▸ hcall)
    change q < s.opened ∧ ((s.setStage p stage).process q).stage = _
    rw [setStage_of_ne hqp]
    exact h.calls.opened q hq
  · change CallFits _ q ((s.setStage p stage).process q).call
    rw [hcalls]
    exact (h.calls.fits q).congr (htype q) (hmigs q) le_rfl
  · obtain ⟨hlt, hpres⟩ := h.table.present q hq
    refine ⟨hlt, ?_⟩
    change ((s.setStage p stage).process q).stage.isGone = false
    by_cases hqp : q = p
    · subst hqp
      rw [setStage_stage]
      by_contra hstage
      exact (hgone (Bool.eq_true_of_not_eq_false hstage)).2 hq
    · rw [setStage_of_ne hqp]
      exact hpres

theorem Inv.setStage (h : s.Inv) {stage : Stage} (hcall : (s.process p).call = .idle)
    (hlt : p < s.opened)
    (hgone : stage.isGone → (∀ i, (s.process p).gpuMigs i = none) ∧ p ∉ s.table)
    (hrefs : (s.process p).mpsServer = none ∨ stage.holdsRef = (s.process p).stage.holdsRef)
    (hdying : ∀ m < s.servers, (s.server m).processRecord = p → (s.server m).dying = false →
      stage = .opened ∨ stage = .delisted) :
    (s.setStage p stage).Inv := by
  refine h.enterStage s.server hcall hlt hgone (fun _ => rfl) (fun m hm => ?_) h.servers.freed
    fun m hm hnot => ⟨hnot, fun hp => hdying m hm hp hnot⟩
  have hmps := setStage_field (s := s) (p := p) Process.mpsServer (fun _ _ => rfl) stage
  refine (h.servers.kref m hm).trans (held_congr _ fun q _ => ?_).symm
  by_cases hqp : q = p
  · subst hqp
    rcases hrefs with hnone | hsame
    · rw [refs_of_none hnone, refs_of_none ((hmps q).trans hnone)]
    · refine refs_congr (hmps q) ?_
      rw [setStage_stage, hsame]
  · exact refs_congr (hmps q) (by rw [setStage_of_ne hqp])

theorem Inv.unfreed_of_refers (h : s.Inv) (hrefers : s.Refers p m) :
    m < s.servers ∧ p < s.opened ∧ 0 < (s.server m).kref ∧ (s.server m).freed = 0 := by
  have htype : (s.process p).mpsProcessType ≠ .notActive := by
    intro htype
    exact nomatch (h.servers.notActive p htype).symm.trans hrefers.1
  obtain ⟨m', hm, hm'⟩ := h.servers.active p htype
  obtain rfl : m' = m := Option.some.inj (hm'.symm.trans hrefers.1)
  have hlt : p < s.opened := by
    by_contra hge
    exact htype (h.servers.unopened p (Nat.not_lt.mp hge)).2.1
  have hone : s.refs p m' = 1 := if_pos hrefers
  have hle := le_held s.refs (List.mem_range.mpr hlt) m'
  have hkref := h.servers.kref m' hm
  have hpos : 0 < (s.server m').kref := by omega
  refine ⟨hm, hlt, hpos, ?_⟩
  rw [h.servers.freed m' hm, if_neg hpos.ne']

theorem krefPut_of_ne {m' : ℕ} (h : m' ≠ m) : (s.krefPut m).server m' = s.server m' :=
  update_of_ne h ..

theorem krefPut_self : (s.krefPut m).server m =
    if (s.server m).kref = 1 then
      { s.server m with kref := 0, freed := (s.server m).freed + 1 }
    else { s.server m with kref := (s.server m).kref - 1 } :=
  update_self ..

theorem krefPut_field (f : MpsServer → α)
    (hf : ∀ server kref freed, f { server with kref := kref, freed := freed } = f server) (m' : ℕ) :
    f ((s.krefPut m).server m') = f (s.server m') := by
  by_cases hm : m' = m
  · subst hm
    rw [krefPut_self]
    split
    · exact hf _ _ _
    · exact hf (s.server m') _ (s.server m').freed
  · rw [krefPut_of_ne hm]

theorem Inv.release (h : s.Inv) (hcall : (s.process p).call = .idle) (hrefers : s.Refers p m)
    (hdying : (s.server m).processRecord = p → (s.server m).dying = true) :
    ((s.krefPut m).setStage p .released).Inv := by
  obtain ⟨hm, hlt, hpos, hfreed⟩ := h.unfreed_of_refers hrefers
  have hservers := h.servers
  have hput : s.krefPut m = { s with server := (s.krefPut m).server } := by
    unfold krefPut
    rw [touchServer_eq hfreed]
    rfl
  rw [hput]
  refine h.enterStage (s.krefPut m).server hcall hlt nofun
    (krefPut_field MpsServer.processRecord fun _ _ _ => rfl) (fun m' hm' => ?_)
    (fun m' hm' => ?_) fun m' hm' hnot => ?_
  · -- the process referred to this server only
    have hmps := setStage_field (s := s) (p := p) Process.mpsServer (fun _ _ => rfl) .released
    have hchange := held_change s.refs (s.setStage p .released).refs
      List.nodup_range (List.mem_range.mpr hlt) (k := m') fun q _ hqp =>
        refs_congr (hmps q) (by rw [setStage_of_ne hqp])
    have hafter : (s.setStage p .released).refs p m' = 0 := by
      refine if_neg fun hrefers' => ?_
      have hhold := hrefers'.2
      rw [setStage_stage] at hhold
      exact nomatch hhold
    have hold := hservers.kref m' hm'
    by_cases hmm : m' = m
    · subst hmm
      have hone : s.refs p m' = 1 := if_pos hrefers
      rw [krefPut_self]
      split <;> dsimp only <;> omega
    · have hzero : s.refs p m' = 0 :=
        if_neg fun hrefers' => hmm (Option.some.inj (hrefers'.1.symm.trans hrefers.1))
      rw [krefPut_of_ne hmm]
      omega
  · by_cases hmm : m' = m
    · subst hmm
      rw [krefPut_self]
      split
      · dsimp only
        rw [hfreed, if_pos rfl]
      · dsimp only
        rw [hfreed, if_neg (by omega)]
    · rw [krefPut_of_ne hmm]
      exact hservers.freed m' hm'
  · have hdead := krefPut_field (s := s) (m := m) MpsServer.dying (fun _ _ _ => rfl) m'
    replace hnot : (s.server m').dying = false := hdead.symm.trans hnot
    refine ⟨hnot, fun hqp => ?_⟩
    -- its own server is dying
    have hown := (hservers.owner m' hm').2
    rw [hqp, hrefers.1] at hown
    obtain rfl : m = m' := Option.some.inj hown
    rw [hdying hqp] at hnot
    exact nomatch hnot

theorem ServerInv.bound (h : s.ServerInv) (hm : (s.process p).mpsServer = some m) :
    m < s.servers := by
  have hp : (s.process p).mpsProcessType ≠ .notActive := fun hp =>
    nomatch (h.notActive p hp).symm.trans hm
  obtain ⟨k, hlt, hk⟩ := h.active p hp
  exact Option.some.inj (hk.symm.trans hm) ▸ hlt

theorem Inv.join (h : s.Inv) (sv : ℕ → MpsServer) {type : MpsProcessType} {n : ℕ} {list : List ℕ}
    (hlt : p < s.opened) (hstage : (s.process p).stage = .opened)
    (htype : (s.process p).mpsProcessType = .notActive) (hactive : type ≠ .notActive)
    (hempty : type = .client → ∀ i, (s.process p).gpuMigs i = none)
    (hm : m < n) (hle : s.servers ≤ n)
    (hrec : ∀ k < s.servers, (sv k).processRecord = (s.server k).processRecord)
    (hown : type = .server → (sv m).processRecord = p)
    (hnew : ∀ k < n, k < s.servers ∨ type = .server ∧ k = m)
    (hkref : ∀ k < n, (sv k).kref =
      held s.refs (List.range s.opened) k + if k = m then 1 else 0)
    (hfreed : ∀ k < n, (sv k).freed = if (sv k).kref = 0 then 1 else 0)
    (hdying : ∀ k < s.servers, (sv k).dying = (s.server k).dying) (hlist : ∀ k ∈ list, k < n) :
    { s.setProcess p { s.process p with
        mpsProcessType := type, mpsServer := some m, call := .idle } with
      server := sv, servers := n, serversList := list }.Inv := by
  let pr : Process := { s.process p with mpsProcessType := type, mpsServer := some m, call := .idle }
  let s' : State := { s.setProcess p pr with server := sv, servers := n, serversList := list }
  show s'.Inv
  have hservers := h.servers
  have hself : s'.process p = pr := update_self ..
  have hother : ∀ q, q ≠ p → s'.process q = s.process q := fun q hq => update_of_ne hq ..
  have hnone := hservers.notActive p htype
  have hstages : ∀ q, (s'.process q).stage = (s.process q).stage := by
    intro q
    by_cases hq : q = p
    · rw [hq, hself]
    · rw [hother q hq]
  have hmigs : ∀ q, (s'.process q).gpuMigs = (s.process q).gpuMigs := by
    intro q
    by_cases hq : q = p
    · rw [hq, hself]
    · rw [hother q hq]
  -- the process of an old server is another one
  have hrecord : ∀ k, k < s.servers → (s.server k).processRecord ≠ p := by
    intro k hk heq
    have howner := (hservers.owner k hk).1
    rw [heq, htype] at howner
    exact nomatch howner
  have hoff : ∀ {q}, (s'.process q).mpsProcessType = .notActive → q ≠ p := by
    rintro q hq rfl
    rw [hself] at hq
    exact hactive hq
  refine ⟨h.calm, ⟨?_, h.trackers.attached, fun q i => ?_, fun q i hq => ?_,
    fun q k i t hq hk ht => ?_⟩, ⟨fun q hq => ?_, fun q hq => ?_, fun q hq => ?_, fun k hk => ?_,
    fun q k hq hk => ?_, fun k hk => ?_, hfreed, fun k hk hnot => ?_, hlist⟩,
    ⟨fun q hq => ?_, fun q => ?_⟩, h.table.congr rfl hstages rfl rfl⟩
  · refine h.trackers.slotted.congr fun ⟨q, i⟩ => ?_
    unfold ownSlot
    by_cases hq : q = p
    · rw [hq, hself, htype]
      by_cases hclient : type = .client
      · simp [pr, hclient, hempty hclient]
      · simp [pr, hclient]
    · rw [hother q hq]
  · rw [hmigs]
    exact h.trackers.index q i
  · rw [hstages] at hq
    rw [hmigs]
    exact h.trackers.gone q i hq
  · have hqp : q ≠ p := by
      rintro rfl
      rw [hself] at hq
      rw [hmigs, hempty hq] at ht
      exact nomatch ht
    rw [hmigs] at ht
    rw [hother q hqp] at hq hk
    rw [hmigs]
    show (s.process (sv k).processRecord).gpuMigs i = some t ∨ _
    rw [hrec k (hservers.bound hk)]
    exact h.trackers.copied q k i t hq hk ht
  · rw [hother q (Nat.ne_of_gt (Nat.lt_of_lt_of_le hlt hq))]
    exact hservers.unopened q hq
  · have hqp := hoff hq
    rw [hother q hqp] at hq ⊢
    exact hservers.notActive q hq
  · by_cases hqp : q = p
    · rw [hqp, hself]
      exact ⟨m, hm, rfl⟩
    · rw [hother q hqp] at hq ⊢
      obtain ⟨k, hk, hk'⟩ := hservers.active q hq
      exact ⟨k, Nat.lt_of_lt_of_le hk hle, hk'⟩
  · show (s'.process (sv k).processRecord).mpsProcessType = _ ∧
      (s'.process (sv k).processRecord).mpsServer = _
    rcases hnew k hk with hk | ⟨hserver, rfl⟩
    · rw [hrec k hk, hother _ (hrecord k hk)]
      exact hservers.owner k hk
    · rw [hown hserver, hself]
      exact ⟨hserver, rfl⟩
  · show (sv k).processRecord = q
    by_cases hqp : q = p
    · rw [hqp, hself] at hq hk
      rw [← Option.some.inj hk, hown hq, hqp]
    · rw [hother q hqp] at hq hk
      rw [hrec k (hservers.bound hk)]
      exact hservers.own q k hq hk
  · have hchange := held_change s.refs s'.refs List.nodup_range
      (List.mem_range.mpr hlt) (k := k) fun q _ hqp =>
        refs_congr (by rw [hother q hqp]) (by rw [hother q hqp])
    have hbefore : s.refs p k = 0 := refs_of_none hnone
    have hafter : s'.refs p k = if k = m then 1 else 0 := by
      refine if_congr ⟨fun hrefers => ?_, fun hkm => ⟨by rw [hself, hkm], ?_⟩⟩ rfl rfl
      · have hmps := hrefers.1
        rw [hself] at hmps
        exact (Option.some.inj hmps).symm
      · rw [hstages, hstage]
        rfl
    refine (hkref k hk).trans ?_
    show _ = held s'.refs (List.range s.opened) k
    omega
  · show (s'.process (sv k).processRecord).stage = _ ∨ (s'.process (sv k).processRecord).stage = _
    rw [hstages]
    rcases hnew k hk with hk | ⟨hserver, rfl⟩
    · rw [hrec k hk]
      exact hservers.dying k hk ((hdying k hk).symm.trans hnot)
    · rw [hown hserver]
      exact .inl hstage
  · have hqp : q ≠ p := by
      rintro rfl
      rw [hself] at hq
      exact hq rfl
    rw [hother q hqp] at hq ⊢
    exact h.calls.opened q hq
  · by_cases hqp : q = p
    · rw [hqp, hself]
      trivial
    · rw [hother q hqp]
      exact (h.calls.fits q).congr (by rw [hother q hqp]) (by rw [hother q hqp]) hle

theorem Inv.addServer (h : s.Inv) (hlt : p < s.opened) (hstage : (s.process p).stage = .opened)
    (htype : (s.process p).mpsProcessType = .notActive) (handle : ℕ) :
    { (s.setServer s.servers ⟨handle, p, 1, false, 0⟩).setProcess p
        { s.process p with
          mpsProcessType := .server
          mpsServer := some s.servers
          call := .idle } with
      servers := s.servers + 1
      serversList := s.servers :: s.serversList }.Inv := by
  let sv := update s.server s.servers ⟨handle, p, 1, false, 0⟩
  have hself : sv s.servers = ⟨handle, p, 1, false, 0⟩ := update_self ..
  have hold : ∀ k < s.servers, sv k = s.server k := fun k hk => update_of_ne (Nat.ne_of_lt hk) ..
  have hnew : ∀ k < s.servers + 1, k < s.servers ∨ MpsProcessType.server = .server ∧ k = s.servers :=
    fun k hk => (Nat.lt_succ_iff_lt_or_eq.mp hk).imp_right fun hk => ⟨rfl, hk⟩
  refine h.join sv hlt hstage htype (by decide) nofun (Nat.lt_succ_self _) (Nat.le_succ _)
    (fun k hk => congrArg MpsServer.processRecord (hold k hk)) (fun _ => ?_) hnew
    (fun k hk => ?_) (fun k hk => ?_) (fun k hk => congrArg MpsServer.dying (hold k hk))
    fun k hk => ?_
  · rw [hself]
  · rcases hnew k hk with hk | ⟨-, rfl⟩
    · rw [hold k hk, if_neg (Nat.ne_of_lt hk)]
      exact h.servers.kref k hk
    · have hzero : held s.refs (List.range s.opened) s.servers = 0 :=
        held_eq_zero _ fun q _ => if_neg fun hrefers =>
          absurd (h.servers.bound hrefers.1) (Nat.lt_irrefl _)
      rw [hself, if_pos rfl, hzero]
  · rcases hnew k hk with hk | ⟨-, rfl⟩
    · rw [hold k hk]
      exact h.servers.freed k hk
    · rw [hself]
      rfl
  · rcases List.mem_cons.mp hk with rfl | hk
    · exact Nat.lt_succ_self _
    · exact Nat.lt_succ_of_lt (h.servers.listed k hk)

theorem Inv.addClient (h : s.Inv) (hlt : p < s.opened) (hstage : (s.process p).stage = .opened)
    (htype : (s.process p).mpsProcessType = .notActive) (hm : m < s.servers)
    (hfreed : (s.server m).freed = 0) (hempty : ∀ i, (s.process p).gpuMigs i = none) :
    ((s.setProcess p { s.process p with
      mpsProcessType := .client
      mpsServer := some m
      call := .idle }).krefGet m).Inv := by
  let sv := update s.server m { s.server m with kref := (s.server m).kref + 1 }
  have hself : sv m = { s.server m with kref := (s.server m).kref + 1 } := update_self ..
  have hother : ∀ k, k ≠ m → sv k = s.server k := fun k hk => update_of_ne hk ..
  have hserver : ∀ {α : Type} (f : MpsServer → α),
      (∀ server kref, f { server with kref := kref } = f server) → ∀ k,
      f (sv k) = f (s.server k) := by
    intro α f hf k
    by_cases hk : k = m
    · rw [hk, hself]
      exact hf _ _
    · rw [hother k hk]
  unfold krefGet
  rw [touchServer_eq (s := s.setProcess p _) hfreed]
  refine h.join sv hlt hstage htype (by decide) (fun _ => hempty) hm le_rfl
    (fun k _ => hserver MpsServer.processRecord (fun _ _ => rfl) k) nofun (fun k hk => .inl hk)
    (fun k hk => ?_) (fun k hk => ?_) (fun k _ => hserver MpsServer.dying (fun _ _ => rfl) k)
    h.servers.listed
  · have hkref := h.servers.kref k hk
    by_cases hkm : k = m
    · subst hkm
      rw [hself, if_pos rfl, ← hkref]
    · rw [hother k hkm, if_neg hkm]
      exact hkref
  · by_cases hkm : k = m
    · subst hkm
      rw [hself]
      dsimp only
      rw [hfreed, if_neg (Nat.succ_ne_zero _)]
    · rw [hother k hkm]
      exact h.servers.freed k hk

/-! ## Files, devices and lists -/

theorem Inv.openFile (h : s.Inv) (euid : ℕ) (hstops : s.stopping = none) :
    (s.openFile euid).Inv := by
  have hservers := h.servers
  obtain ⟨hclosed, htype, hnone⟩ := hservers.unopened s.opened le_rfl
  have hempty : ∀ i, (s.process s.opened).gpuMigs i = none :=
    fun i => h.trackers.gone s.opened i (by rw [hclosed]; rfl)
  have hself : (s.openFile euid).process s.opened =
      ⟨euid, fun _ => none, .notActive, none, .opened, .idle⟩ := update_self ..
  have hother : ∀ q, q ≠ s.opened → (s.openFile euid).process q = s.process q :=
    fun q hq => update_of_ne hq ..
  have htypes : ∀ q, ((s.openFile euid).process q).mpsProcessType =
      (s.process q).mpsProcessType := by
    intro q
    by_cases hq : q = s.opened
    · rw [hq, hself, htype]
    · rw [hother q hq]
  have hmps : ∀ q, ((s.openFile euid).process q).mpsServer = (s.process q).mpsServer := by
    intro q
    by_cases hq : q = s.opened
    · rw [hq, hself, hnone]
    · rw [hother q hq]
  have hmigs : ∀ q, ((s.openFile euid).process q).gpuMigs = (s.process q).gpuMigs := by
    intro q
    by_cases hq : q = s.opened
    · rw [hq, hself]
      exact funext fun i => (hempty i).symm
    · rw [hother q hq]
  refine ⟨h.calm, h.trackers.congr rfl hmigs htypes hmps (fun q hq => ?_) (fun _ => rfl) rfl rfl,
    ⟨fun q hq => ?_, fun q => ?_, fun q => ?_, fun m => ?_, fun q m => ?_, fun m hm => ?_,
    hservers.freed, fun m hm hnot => ?_, hservers.listed⟩, ⟨fun q hq => ?_, fun q => ?_⟩,
    ⟨?_, fun q hq => ?_, ?_⟩⟩
  · have hqp : q ≠ s.opened := by
      rintro rfl
      rw [hself] at hq
      exact nomatch hq
    rw [hother q hqp] at hq
    exact fun i => h.trackers.gone q i hq
  · have hlt : s.opened < q := hq
    rw [hother q (Nat.ne_of_gt hlt)]
    exact hservers.unopened q (Nat.le_of_lt hlt)
  · rw [htypes, hmps]
    exact hservers.notActive q
  · rw [htypes, hmps]
    exact hservers.active q
  · rw [htypes, hmps]
    exact hservers.owner m
  · rw [htypes, hmps]
    exact hservers.own q m
  · -- the new process refers to no server
    have hsum : held (s.openFile euid).refs (List.range s.opened) m =
        held s.refs (List.range s.opened) m :=
      held_congr _ fun q hq => by
        have hqp : q ≠ s.opened := Nat.ne_of_lt (List.mem_range.mp hq)
        exact refs_congr (hmps q) (by rw [hother q hqp])
    have hzero : (s.openFile euid).refs s.opened m = 0 := refs_of_none ((hmps _).trans hnone)
    refine (hservers.kref m hm).trans ?_
    show _ = held (s.openFile euid).refs (List.range (s.opened + 1)) m
    rw [List.range_succ, held_concat, hsum, hzero, Nat.add_zero]
  · have hqp : (s.server m).processRecord ≠ s.opened := by
      intro heq
      have howner := (hservers.owner m hm).1
      rw [heq, htype] at howner
      exact nomatch howner
    show ((s.openFile euid).process (s.server m).processRecord).stage = .opened ∨
      ((s.openFile euid).process (s.server m).processRecord).stage = .delisted
    rw [hother _ hqp]
    exact hservers.dying m hm hnot
  · have hqp : q ≠ s.opened := by
      rintro rfl
      rw [hself] at hq
      exact hq rfl
    rw [hother q hqp] at hq ⊢
    obtain ⟨hlt, hopen⟩ := h.calls.opened q hq
    exact ⟨Nat.lt_succ_of_lt hlt, hopen⟩
  · by_cases hqp : q = s.opened
    · rw [hqp, hself]
      trivial
    · rw [hother q hqp]
      exact (h.calls.fits q).congr (htypes q) (hmigs q) le_rfl
  · refine List.nodup_cons.mpr ⟨fun hmem => ?_, h.table.nodup⟩
    exact absurd (h.table.present _ hmem).1 (Nat.lt_irrefl _)
  · rcases List.mem_cons.mp hq with rfl | hq
    · rw [hself]
      exact ⟨Nat.lt_succ_self _, rfl⟩
    · obtain ⟨hlt, hpres⟩ := h.table.present q hq
      rw [hother q (Nat.ne_of_lt hlt)]
      exact ⟨Nat.lt_succ_of_lt hlt, hpres⟩
  · intro i rest hrest
    exact nomatch hstops.symm.trans hrest

theorem Inv.setEnabled (h : s.Inv) (uuid : ℕ) (infoOk isEnabled : Bool) :
    (s.setEnabled uuid infoOk isEnabled).Inv := by
  unfold State.setEnabled
  cases hfind : s.findOrAddGpuIndex uuid infoOk with
  | none => exact h
  | some r =>
    obtain ⟨i, attached⟩ := r
    have hlen : s.attached.length ≤ attached.length ∧ attached.length ≤ maxGpus := by
      have hmax := h.trackers.attached
      unfold findOrAddGpuIndex at hfind
      split at hfind
      · rw [← (Prod.mk.inj (Option.some.inj hfind)).2]
        exact ⟨le_rfl, hmax⟩
      · split at hfind
        · exact nomatch hfind
        · next hroom =>
          split at hfind
          · rw [← (Prod.mk.inj (Option.some.inj hfind)).2, List.length_append]
            simp only [List.length_cons, List.length_nil]
            omega
          · exact nomatch hfind
    refine ⟨h.calm, ⟨h.trackers.slotted, ?_, fun p j hj => ?_, h.trackers.gone,
      h.trackers.copied⟩, h.servers.congr (fun _ => rfl) (fun _ => rfl) (fun _ => rfl) rfl rfl rfl
      rfl, ⟨h.calls.opened, fun q => (h.calls.fits q).congr rfl rfl le_rfl⟩,
      h.table.congr rfl (fun _ => rfl) rfl rfl⟩
    · exact (List.length_modify ..).trans_le hlen.2
    · have hlt := h.trackers.index p j hj
      exact lt_of_lt_of_le hlt (hlen.1.trans (List.length_modify ..).ge)

theorem lt_attached_of_find {uuid : ℕ} (hfind : s.findEnabledGpuIndex uuid = some i) :
    i < s.attached.length := by
  have hidx := (Option.filter_eq_some_iff.mp hfind).1
  exact (List.findIdx?_eq_some_iff_getElem.mp hidx).1

theorem Inv.setDying (h : s.Inv) (m : ℕ) :
    (s.setServer m { s.server m with dying := true }).Inv := by
  have hfield : ∀ {α : Type} (f : MpsServer → α),
      (∀ server dying, f { server with dying := dying } = f server) →
      ∀ m', f ((s.setServer m { s.server m with dying := true }).server m') =
        f (s.server m') := by
    intro α f hf m'
    by_cases hm : m' = m
    · subst hm
      exact (congrArg f (update_self ..)).trans (hf _ _)
    · exact congrArg f (update_of_ne hm ..)
  have hrec := hfield MpsServer.processRecord fun _ _ => rfl
  have hkref := hfield MpsServer.kref fun _ _ => rfl
  have hservers := h.servers
  refine ⟨h.calm, h.trackers.congr rfl (fun _ => rfl) (fun _ => rfl) (fun _ => rfl)
    (fun p hp i => h.trackers.gone p i hp) hrec rfl rfl,
    ⟨hservers.unopened, hservers.notActive, hservers.active, fun m' hm' => ?_,
    fun p m' hp hm' => ?_, fun m' hm' => ?_, fun m' hm' => ?_, fun m' hm' hnot => ?_,
    hservers.listed⟩, ⟨h.calls.opened, fun q => (h.calls.fits q).congr rfl rfl le_rfl⟩,
    h.table.congr rfl (fun _ => rfl) rfl rfl⟩
  · rw [hrec]
    exact hservers.owner m' hm'
  · exact (hrec m').trans (hservers.own p m' hp hm')
  · exact (hkref m').trans (hservers.kref m' hm')
  · rw [hkref]
    exact (hfield MpsServer.freed (fun _ _ => rfl) m').trans (hservers.freed m' hm')
  · rw [hrec]
    have hmm : m' ≠ m := by
      rintro rfl
      rw [show (s.setServer m' { s.server m' with dying := true }).server m' =
        { s.server m' with dying := true } from update_self ..] at hnot
      exact nomatch hnot
    refine hservers.dying m' hm' ?_
    rw [← hnot]
    exact congrArg MpsServer.dying (update_of_ne hmm ..).symm

theorem Inv.delist (h : s.Inv) (m : ℕ) : { s with serversList := s.serversList.erase m }.Inv :=
  ⟨h.calm, h.trackers.congr rfl (fun _ => rfl) (fun _ => rfl) (fun _ => rfl)
    (fun p hp i => h.trackers.gone p i hp) (fun _ => rfl) rfl rfl,
    { h.servers with listed := fun m' hm' => h.servers.listed m' (List.mem_of_mem_erase hm') },
    ⟨h.calls.opened, fun q => (h.calls.fits q).congr rfl rfl le_rfl⟩,
    h.table.congr rfl (fun _ => rfl) rfl rfl⟩

theorem Inv.setTable (h : s.Inv) {table : List ℕ} {stopping : Option (ℕ × List ℕ)}
    (hnd : table.Nodup) (hsub : ∀ p ∈ table, p ∈ s.table)
    (hstops : ∀ i rest, stopping = some (i, rest) → ∀ p ∈ rest, p ∈ table) :
    { s with table := table, stopping := stopping }.Inv :=
  ⟨h.calm, h.trackers.congr rfl (fun _ => rfl) (fun _ => rfl) (fun _ => rfl)
    (fun p hp i => h.trackers.gone p i hp) (fun _ => rfl) rfl rfl,
    h.servers.congr (fun _ => rfl) (fun _ => rfl) (fun _ => rfl) rfl rfl rfl rfl,
    ⟨h.calls.opened, fun q => (h.calls.fits q).congr rfl rfl le_rfl⟩,
    ⟨hnd, fun p hp => h.table.present p (hsub p hp), hstops⟩⟩

end State

end NvUvm.Mps
