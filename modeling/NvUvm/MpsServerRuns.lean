import NvUvm.MpsServerInv

/-!
# Runs of MPS servers and clients
-/

namespace NvUvm.Mps

open Lib

namespace State

variable {s : State} {p m i t : ℕ}

/-! ## What the driver promises -/

/-- A process that is no client, and whose migration resources were not deleted yet, has the
tracker. -/
def Owned (s : State) (t : ℕ) : Prop :=
  ∃ p i, (s.process p).mpsProcessType ≠ .client ∧ (s.process p).stage.isGone = false ∧
    (s.process p).gpuMigs i = some t

/-- **No freed memory was accessed; each tracker is freed once**, when the process that created it gives
it up, **and each server is freed once**, when it and all its clients are closed. -/
structure Right (s : State) : Prop where
  calm : s.violated = false
  trackers : ∀ t < s.trackers, s.freed t ≤ 1 ∧ (s.freed t = 1 ↔ ¬ s.Owned t)
  servers : ∀ m < s.servers, (s.server m).freed ≤ 1 ∧
    ((s.server m).freed = 1 ↔ ∀ p, ¬ s.Refers p m)

/-- Some process still refers to the server, and its own process is not freed. -/
def StillOpen (s : State) (m : ℕ) : Prop :=
  (∃ p, p < s.opened ∧ s.Refers p m) ∧ (s.process (s.server m).processRecord).stage ≠ .closed

instance (s : State) (m : ℕ) : Decidable (s.StillOpen m) :=
  have : Decidable (∃ p, p < s.opened ∧ s.Refers p m) :=
    decidable_of_iff (∃ p ∈ List.range s.opened, s.Refers p m) (by simp)
  inferInstanceAs (Decidable (_ ∧ _))

/-- The server of a client is not dying, and no call holds its `uvmPrivLock`. -/
def GetsServer (s : State) (p : ℕ) : Prop :=
  ∀ m ∈ (s.process p).mpsServer, (s.server m).dying = false ∧
    (s.process (s.server m).processRecord).call = .idle

/-- A call may go on: a server gets trackers for empty entries only; the server that a client has found
is still open, and the client has no tracker of its own; and a client that copies pages has a
tracker that its server still has. -/
def CallAllowed (s : State) (p : ℕ) : Call → Prop
  | .registerServer _ (uuid :: _) =>
    ∀ i ∈ s.findEnabledGpuIndex uuid, (s.process p).gpuMigs i = none
  | .registerClient m =>
    s.StillOpen m ∧ ((s.process (s.server m).processRecord).euid = (s.process p).euid →
      ∀ i < maxGpus, (s.process p).gpuMigs i = none)
  | .fault i hasPage => s.GetsServer p → hasPage = false → s.CopyFresh p i
  | .migrate i _ => s.GetsServer p → s.CopyFresh p i
  | _ => True

/-- A step is allowed: its call may go on, and a client whose trackers are printed when it is closed has
trackers that its server still has. -/
def Allowed (s : State) : Op → Prop
  | .next p _ _ _ => s.CallAllowed p (s.process p).call
  | .closeNext p debugPrints => (s.process p).stage = .released → s.stopping = none →
      debugPrints = true → ∀ i < maxGpus, s.CopyFresh p i
  | _ => True

theorem Inv.right (h : s.Inv) : s.Right := by
  refine ⟨h.calm, fun t ht => ⟨h.trackers.slotted.freed_le t, ?_⟩, fun m hm => ?_⟩
  · rw [h.trackers.slotted.freed_iff ht]
    constructor
    · rintro hnone ⟨p, i, htype, -, hmig⟩
      refine hnone (p, i) ?_
      unfold ownSlot
      rw [if_neg htype, hmig]
    · intro hnone ⟨p, i⟩ hslot
      unfold ownSlot at hslot
      split at hslot
      · exact nomatch hslot
      · next htype =>
        refine hnone ⟨p, i, htype, ?_, hslot⟩
        by_contra hgone
        exact nomatch (h.trackers.gone p i (Bool.eq_true_of_not_eq_false hgone)).symm.trans hslot
  · have hfreed := h.servers.freed m hm
    have hkref := h.servers.kref m hm
    refine ⟨?_, ?_⟩
    · rw [hfreed]
      split <;> decide
    · constructor
      · intro hone p hrefers
        have hzero := (h.unfreed_of_refers hrefers).2.2.2
        omega
      · intro hnone
        have hzero : held s.refs (List.range s.opened) m = 0 :=
          held_eq_zero _ fun p _ => if_neg (hnone p)
        rw [hfreed, if_pos (hkref.trans hzero)]

/-! ## The steps of registration -/

theorem Inv.registerMpsServer (h : s.Inv) (hready : s.Ready p) (gpuUuidArray : List ℕ) :
    (s.registerMpsServer p gpuUuidArray).Inv := by
  unfold State.registerMpsServer
  split
  · exact h
  · split
    · exact h
    · next htype =>
      split
      · exact h
      · exact h.setCall (fun _ => ⟨hready.1, hready.2.1⟩) (not_not.mp htype)

variable {gpuUuidArray : List ℕ}

theorem Inv.registerMpsServerNext (h : s.Inv) {done : List ℕ}
    (hcall : (s.process p).call = .registerServer done gpuUuidArray)
    (hallowed : s.CallAllowed p (s.process p).call) (allocOk createOk : Bool) (handle : ℕ) :
    (s.registerMpsServerNext p done allocOk createOk handle gpuUuidArray).Inv := by
  have hopen := h.calls.opened p (by rw [hcall]; exact fun heq => nomatch heq)
  have htype : (s.process p).mpsProcessType = .notActive := by
    have hfits := h.calls.fits p
    rw [hcall] at hfits
    exact hfits
  rw [hcall] at hallowed
  cases gpuUuidArray with
  | nil =>
    unfold State.registerMpsServerNext
    dsimp only
    split
    · exact h.setCall (fun _ => hopen) htype
    · split
      · exact h
      · exact h.addServer hopen.1 hopen.2 htype handle
  | cons uuid gpuUuidArray =>
    unfold State.registerMpsServerNext
    dsimp only
    cases hfind : s.findEnabledGpuIndex uuid with
    | none => exact h.setCall (fun _ => hopen) htype
    | some i =>
      have hcreate := h.createTracker (by rw [htype]; decide) hopen.2 (hallowed i hfind)
        (lt_attached_of_find hfind) allocOk createOk
      have hsame := createTracker_sameFile s p i allocOk createOk
      have hopen' : p < (s.createTracker p i allocOk createOk).2.opened ∧
          ((s.createTracker p i allocOk createOk).2.process p).stage = .opened := by
        rw [hsame.opened, hsame.stage]
        exact hopen
      dsimp only
      split
      · exact hcreate.setCall (fun _ => hopen') (hsame.type.trans htype)
      · exact hcreate.setCall (fun _ => hopen') (hsame.type.trans htype)

theorem Inv.failMpsServerNext (h : s.Inv) (hcall : (s.process p).call = .failServer gpuUuidArray) :
    (s.failMpsServerNext p gpuUuidArray).Inv := by
  have hopen := h.calls.opened p (by rw [hcall]; exact fun heq => nomatch heq)
  have htype : (s.process p).mpsProcessType = .notActive := by
    have hfits := h.calls.fits p
    rw [hcall] at hfits
    exact hfits
  cases gpuUuidArray with
  | nil => exact h.setIdle p
  | cons uuid gpuUuidArray =>
    unfold State.failMpsServerNext
    dsimp only
    split
    · exact h.setCall (fun _ => hopen) htype
    · next i _ =>
      split
      · exact h.setCall (fun _ => hopen) htype
      · next t ht =>
        have hfile := setMig_sameFile (s.destroyTracker t) p i none p
        exact (h.freeTracker (by rw [htype]; decide) ht).setCall
          (fun _ => ⟨hopen.1, hfile.stage.trans hopen.2⟩) (hfile.type.trans htype)

theorem Inv.registerMpsClient (h : s.Inv) (hready : s.Ready p) (serverId : ℕ) :
    (s.registerMpsClient p serverId).Inv := by
  unfold State.registerMpsClient
  split
  · exact h
  · next htype =>
    split
    · exact h
    · next m hfind =>
      exact h.setCall (fun _ => ⟨hready.1, hready.2.1⟩)
        ⟨Decidable.not_not.mp htype, h.servers.listed m (List.mem_of_find?_eq_some hfind)⟩

theorem Inv.touch_of_stillOpen (h : s.Inv) (hopen : s.StillOpen m) :
    (s.touchServer m).touchProcess (s.server m).processRecord = s := by
  obtain ⟨⟨q, -, hrefers⟩, hstage⟩ := hopen
  rw [touchServer_eq (h.unfreed_of_refers hrefers).2.2.2, touchProcess_eq hstage]

theorem Inv.registerMpsClientNext (h : s.Inv) (hcall : (s.process p).call = .registerClient m)
    (hallowed : s.CallAllowed p (s.process p).call) : (s.registerMpsClientNext p m).Inv := by
  have hopen := h.calls.opened p (by rw [hcall]; exact fun heq => nomatch heq)
  have hfits := h.calls.fits p
  rw [hcall] at hfits hallowed
  obtain ⟨hstill, hempty⟩ := hallowed
  unfold State.registerMpsClientNext
  dsimp only
  rw [h.touch_of_stillOpen hstill]
  split
  · exact h.setIdle p
  · next heuid =>
    obtain ⟨⟨q, -, hrefers⟩, -⟩ := hstill
    refine h.addClient hopen.1 hopen.2 hfits.1 hfits.2 (h.unfreed_of_refers hrefers).2.2.2 ?_
    intro i
    by_contra hsome
    have hlt := h.trackers.index p i hsome
    have hle := h.trackers.attached
    exact hsome (hempty (Decidable.not_not.mp heuid) i (by omega))

/-! ## The steps of commits, faults and migrations -/

theorem Inv.createOrCheckChannel (h : s.Inv) (hready : s.Ready p) (uuid : ℕ)
    (allocOk createOk : Bool) : (s.createOrCheckChannel p uuid allocOk createOk).Inv := by
  unfold State.createOrCheckChannel
  split
  · exact h
  · next i hfind =>
    split
    · exact h
    · next hnone =>
      split
      · next htype => exact h.setCall (fun _ => ⟨hready.1, hready.2.1⟩) htype
      · next htype =>
        exact h.createTracker htype hready.2.1 hnone (lt_attached_of_find hfind) allocOk createOk

theorem Inv.faultCommon (h : s.Inv) (hready : s.Ready p) (index : ℕ) (hasPage : Bool) :
    (s.faultCommon p index hasPage).Inv := by
  unfold State.faultCommon
  split
  · next htype => exact h.setCall (fun _ => ⟨hready.1, hready.2.1⟩) htype
  · next htype =>
    split
    · exact h
    · split
      · exact h
      · next t ht =>
        rw [touchTracker_eq (h.unfreed_of_own htype ht)]
        exact h

theorem Inv.migrateToGpu (h : s.Inv) (hready : s.Ready p) (index : ℕ) (isMapped : Bool) :
    (s.migrateToGpu p index isMapped).Inv := by
  unfold State.migrateToGpu
  split
  · exact h
  · next t ht =>
    split
    · exact h
    · split
      · next htype => exact h.setCall (fun _ => ⟨hready.1, hready.2.1⟩) ⟨htype, ht⟩
      · next htype =>
        rw [touchTracker_eq (h.unfreed_of_own htype ht)]
        exact h

theorem Inv.lockMpsServer_cases (h : s.Inv) {c : Call}
    (htype : (s.process p).mpsProcessType = .client) (hstage : (s.process p).stage = .opened) :
    (¬ s.GetsServer p ∧ (s.lockMpsServer p c).Inv) ∨
    ∃ m, (s.process p).mpsServer = some m ∧ m < s.servers ∧ s.GetsServer p ∧
      s.lockMpsServer p c =
        (s.underServerLock p (s.server m).processRecord c).setCall p .idle := by
  obtain ⟨m, hlt, hm⟩ := h.servers.active p (by rw [htype]; decide)
  have hrefers : s.Refers p m := ⟨hm, by rw [hstage]; rfl⟩
  have hgets : s.GetsServer p ↔ (s.server m).dying = false ∧
      (s.process (s.server m).processRecord).call = .idle := by
    unfold GetsServer
    rw [hm]
    simp
  have htouch := touchServer_eq (h.unfreed_of_refers hrefers).2.2.2
  unfold State.lockMpsServer
  rw [hm]
  dsimp only
  rw [htouch, hgets]
  by_cases hdying : (s.server m).dying = true
  · left
    rw [if_pos hdying]
    refine ⟨fun hboth => ?_, h.setIdle p⟩
    rw [hboth.1] at hdying
    exact nomatch hdying
  · rw [if_neg hdying]
    have hnot := Bool.eq_false_of_not_eq_true hdying
    by_cases hcall : (s.process (s.server m).processRecord).call = .idle
    · right
      have hopen : (s.process (s.server m).processRecord).stage ≠ .closed := by
        rcases h.servers.dying m hlt hnot with hopen | hopen
        · rw [hopen]
          decide
        · rw [hopen]
          decide
      rw [if_neg (Decidable.not_not.mpr hcall), touchProcess_eq hopen]
      exact ⟨m, rfl, hlt, ⟨hnot, hcall⟩, rfl⟩
    · left
      rw [if_pos hcall]
      exact ⟨fun hboth => hcall hboth.2, h⟩

theorem Inv.lockMpsServer (h : s.Inv) {c : Call} (hcall : (s.process p).call = c)
    (hidle : c ≠ .idle) (htype : (s.process p).mpsProcessType = .client)
    (hallowed : s.CallAllowed p c) : (s.lockMpsServer p c).Inv := by
  have hopen := h.calls.opened p (by rw [hcall]; exact hidle)
  rcases h.lockMpsServer_cases htype hopen.2 with ⟨-, hinv⟩ | ⟨m, hm, hlt, hgets, heq⟩
  · exact hinv
  · rw [heq]
    suffices hinv : (s.underServerLock p (s.server m).processRecord c).Inv from hinv.setIdle p
    unfold underServerLock
    split
    · next i =>
      split
      · exact h
      · next t ht =>
        refine h.setCopy htype (fun u hu => ?_) fun u hu => ⟨?_, m, hm, ?_⟩
        · rw [hcall] at hu
          exact nomatch hu
        · rw [hopen.2]
          rfl
        · rw [ht, hu]
    · next i hasPage =>
      cases hasPage with
      | true => exact h
      | false =>
        rw [if_neg Bool.false_ne_true]
        split
        · exact h
        · next t ht =>
          rw [touchTracker_eq ((h.unfreed_iff ht).mpr (hallowed hgets rfl))]
          exact h
    · next i t =>
      have hfits := h.calls.fits p
      rw [hcall] at hfits
      rw [touchTracker_eq ((h.unfreed_iff hfits.2).mpr (hallowed hgets))]
      exact h
    · exact h

theorem Inv.next (h : s.Inv) (hallowed : s.CallAllowed p (s.process p).call)
    (allocOk createOk : Bool) (handle : ℕ) : (s.next p allocOk createOk handle).Inv := by
  have hfits := h.calls.fits p
  unfold State.next
  cases hcall : (s.process p).call with
  | idle => exact h
  | registerServer done gpuUuidArray => exact h.registerMpsServerNext hcall hallowed _ _ _
  | failServer gpuUuidArray => exact h.failMpsServerNext hcall
  | registerClient m => exact h.registerMpsClientNext hcall hallowed
  | createOrCheckChannel i =>
    rw [hcall] at hfits hallowed
    exact h.lockMpsServer hcall (fun heq => nomatch heq) hfits hallowed
  | fault i hasPage =>
    rw [hcall] at hfits hallowed
    exact h.lockMpsServer hcall (fun heq => nomatch heq) hfits hallowed
  | migrate i t =>
    rw [hcall] at hfits hallowed
    exact h.lockMpsServer hcall (fun heq => nomatch heq) hfits.1 hallowed

/-! ## The steps of files and devices -/

theorem Inv.close (h : s.Inv) (hready : s.Ready p) : (s.close p).Inv := by
  obtain ⟨hlt, hstage, hcall⟩ := hready
  unfold State.close
  split
  · next m htype hm =>
    have hrefers : s.Refers p m := ⟨hm, by rw [hstage]; rfl⟩
    rw [touchServer_eq (h.unfreed_of_refers hrefers).2.2.2]
    have hdelisted : (s.setStage p .delisted).Inv := by
      refine h.setStage hcall hlt (fun hgone => nomatch hgone) (.inr ?_) fun _ _ _ _ => .inr rfl
      rw [hstage]
      rfl
    exact hdelisted.delist m
  · next m htype hm =>
    refine h.release hcall ⟨hm, by rw [hstage]; rfl⟩ fun hown => ?_
    exact absurd hown (h.server_of_client htype hm).2.2
  · next hserver hclient =>
    have htype : (s.process p).mpsProcessType = .notActive := by
      by_contra hactive
      obtain ⟨m, -, hm⟩ := h.servers.active p hactive
      cases htype : (s.process p).mpsProcessType with
      | notActive => exact hactive htype
      | server => exact hserver m htype hm
      | client => exact hclient m htype hm
    refine h.setStage hcall hlt (fun hgone => nomatch hgone)
      (.inl (h.servers.notActive p htype)) fun m hm hown => ?_
    have howner := (h.servers.owner m hm).1
    rw [hown, htype] at howner
    exact nomatch howner

theorem Inv.idle_of_stage (h : s.Inv) (hstage : (s.process p).stage ≠ .opened) :
    (s.process p).call = .idle := by
  by_contra hcall
  exact hstage (h.calls.opened p hcall).2

theorem Inv.lt_of_stage (h : s.Inv) (hstage : (s.process p).stage ≠ .closed) : p < s.opened := by
  by_contra hge
  exact hstage (h.servers.unopened p (Nat.not_lt.mp hge)).1

theorem Inv.dying_of_stage (h : s.Inv) (hm : m < s.servers) (hopen : (s.process p).stage ≠ .opened)
    (hlisted : (s.process p).stage ≠ .delisted) (hown : (s.server m).processRecord = p) :
    (s.server m).dying = true := by
  by_contra hnot
  have hstage := h.servers.dying m hm (Bool.eq_false_of_not_eq_true hnot)
  rw [hown] at hstage
  exact hstage.elim hopen hlisted

theorem Inv.closeNext (h : s.Inv) {debugPrints : Bool}
    (hallowed : s.Allowed (.closeNext p debugPrints)) : (s.closeNext p debugPrints).Inv := by
  unfold State.closeNext
  split
  · next m hstage hm =>
    have hrefers : s.Refers p m := ⟨hm, by rw [hstage]; rfl⟩
    obtain ⟨hlt, hopened, -, hfreed⟩ := h.unfreed_of_refers hrefers
    rw [touchServer_eq hfreed]
    have hcall := h.idle_of_stage (p := p) (by rw [hstage]; decide)
    refine (h.setDying m).setStage hcall hopened (fun hgone => nomatch hgone) (.inr ?_) ?_
    · show true = (s.process p).stage.holdsRef
      rw [hstage]
      rfl
    · -- the only server of the process is the one that is dying now
      intro m' hm' hown hnot
      by_cases hmm : m' = m
      · subst hmm
        exact nomatch (congrArg MpsServer.dying (Function.update_self ..)).symm.trans hnot
      · have hserver : (s.setServer m { s.server m with dying := true }).server m' = s.server m' :=
          Function.update_of_ne hmm ..
        rw [hserver] at hown
        have howner := (h.servers.owner m' hm').2
        rw [hown, hm] at howner
        exact absurd (Option.some.inj howner).symm hmm
  · next m hstage hm =>
    have hrefers : s.Refers p m := ⟨hm, by rw [hstage]; rfl⟩
    exact h.release (h.idle_of_stage (by rw [hstage]; decide)) hrefers
      (h.dying_of_stage (h.unfreed_of_refers hrefers).1 (by rw [hstage]; decide)
        (by rw [hstage]; decide))
  · next hstage =>
    split
    · exact h
    · next hstops =>
      have hnone : s.stopping = none := by simpa using hstops
      have hcall := h.idle_of_stage (p := p) (by rw [hstage]; decide)
      have hlt := h.lt_of_stage (p := p) (by rw [hstage]; decide)
      have herase : { s with table := s.table.erase p }.Inv := by
        refine h.setTable (h.table.nodup.erase p) (fun q hq => List.mem_of_mem_erase hq) ?_
        intro i rest hrest
        exact nomatch hnone.symm.trans hrest
      obtain ⟨hinv, hfile, hempty⟩ := herase.deleteAllMigrationResources (p := p)
        debugPrints hcall (hallowed hstage hnone)
      refine hinv.setStage (hfile.call.trans hcall) (hlt.trans_eq hfile.opened.symm) (fun _ => ⟨hempty, ?_⟩)
        (.inr ?_) fun m hm hown hnot => ?_
      · rw [hfile.table]
        exact h.table.nodup.not_mem_erase
      · rw [hfile.stage]
        show false = (s.process p).stage.holdsRef
        rw [hstage]
        rfl
      · have hdying := hinv.dying_of_stage hm (p := p)
          (by rw [hfile.stage]; show (s.process p).stage ≠ .opened; rw [hstage]; decide)
          (by rw [hfile.stage]; show (s.process p).stage ≠ .delisted; rw [hstage]; decide) hown
        exact nomatch hdying.symm.trans hnot
  · next hstage =>
    have hgone : (s.process p).stage.isGone := by
      rw [hstage]
      rfl
    refine h.setStage (h.idle_of_stage (by rw [hstage]; decide))
      (h.lt_of_stage (by rw [hstage]; decide)) (fun _ => ⟨fun i => h.trackers.gone p i hgone, ?_⟩)
      (.inr ?_) fun m hm hown hnot => ?_
    · intro hmem
      exact nomatch hgone.symm.trans (h.table.present p hmem).2
    · rw [hstage]
      rfl
    · have hdying := h.dying_of_stage hm (by rw [hstage]; decide) (by rw [hstage]; decide) hown
      exact nomatch hdying.symm.trans hnot
  · exact h

theorem Inv.stopNext (h : s.Inv) : s.stopNext.Inv := by
  unfold State.stopNext
  split
  · exact h
  · exact h.setTable h.table.nodup (fun _ hp => hp) fun _ _ hrest => nomatch hrest
  · next i p rest hstops =>
    split
    · exact h
    · next hcall =>
      have hsub := h.table.stopping i (p :: rest) hstops
      have hpres := (h.table.present p (hsub p List.mem_cons_self)).2
      have hopen : (s.process p).stage ≠ .closed := by
        intro hclosed
        rw [hclosed] at hpres
        exact nomatch hpres
      rw [touchProcess_eq hopen]
      have hinv := h.destroyMig (not_not.mp hcall) i
      have hfile := destroyMig_sameFile s p i p
      refine hinv.setTable hinv.table.nodup (fun _ hq => hq) fun j rest' hrest' q hq => ?_
      obtain ⟨rfl, rfl⟩ := Prod.mk.inj (Option.some.inj hrest')
      rw [hfile.table]
      exact hsub q (List.mem_cons_of_mem _ hq)

theorem Inv.step (h : s.Inv) {op : Op} (hallowed : s.Allowed op) : (step s op).Inv := by
  cases op with
  | enableGpu uuid infoOk => exact h.setEnabled uuid infoOk true
  | disableGpu uuid infoOk => exact h.setEnabled uuid infoOk false
  | stopDevice uuid =>
    unfold Mps.step
    dsimp only
    split
    · exact h
    · unfold State.stopDevice
      split
      · exact h
      · refine h.setTable h.table.nodup (fun _ hp => hp) fun _ _ hrest p hp => ?_
        exact (Prod.mk.inj (Option.some.inj hrest)).2 ▸ hp
  | stopNext => exact h.stopNext
  | openFile euid =>
    unfold Mps.step
    dsimp only
    split
    · exact h
    · next hstops => exact h.openFile euid (by simpa using hstops)
  | registerMpsServer p gpuUuidArray =>
    unfold Mps.step
    dsimp only
    split
    · next hready => exact h.registerMpsServer hready gpuUuidArray
    · exact h
  | registerMpsClient p serverId =>
    unfold Mps.step
    dsimp only
    split
    · next hready => exact h.registerMpsClient hready serverId
    · exact h
  | createOrCheckChannel p uuid allocOk createOk =>
    unfold Mps.step
    dsimp only
    split
    · next hready => exact h.createOrCheckChannel hready uuid allocOk createOk
    · exact h
  | faultCommon p index hasPage =>
    unfold Mps.step
    dsimp only
    split
    · next hready => exact h.faultCommon hready index hasPage
    · exact h
  | migrateToGpu p index isMapped =>
    unfold Mps.step
    dsimp only
    split
    · next hready => exact h.migrateToGpu hready index isMapped
    · exact h
  | next p allocOk createOk handle => exact h.next hallowed allocOk createOk handle
  | close p =>
    unfold Mps.step
    dsimp only
    split
    · next hready => exact h.close hready
    · exact h
  | closeNext p debugPrints => exact h.closeNext hallowed

theorem initial_inv : initial.Inv where
  calm := rfl
  trackers := by
    refine ⟨Slotted.init.congr fun _ => rfl, Nat.zero_le _, fun p i hi => absurd rfl hi,
      fun _ _ _ => rfl, (fun p m i t hclient => nomatch hclient)⟩
  servers := by
    refine ⟨fun _ _ => ⟨rfl, rfl, rfl⟩, fun _ _ => rfl, fun _ h => absurd rfl h,
      fun m hm => absurd hm (Nat.not_lt_zero m), (fun p m hserver => nomatch hserver),
      fun m hm => absurd hm (Nat.not_lt_zero m), fun m hm => absurd hm (Nat.not_lt_zero m),
      fun m hm => absurd hm (Nat.not_lt_zero m), (fun m hm => nomatch hm)⟩
  calls := ⟨fun p h => absurd rfl h, fun _ => trivial⟩
  table := ⟨List.nodup_nil, (fun p hp => nomatch hp), (fun i rest h => nomatch h)⟩

/-! ## The steps that are not allowed -/

theorem Inv.not_right_of_lost (h : s.Inv) {s' : State}
    (hheld : (s.process p).mpsProcessType ≠ .client ∧ (s.process p).gpuMigs i = some t)
    (htrackers : s.trackers ≤ s'.trackers) (hfreed : s'.freed t = s.freed t)
    (hslots : ∀ q j, (s'.process q).mpsProcessType ≠ .client → (s'.process q).gpuMigs j = some t →
      (s.process q).mpsProcessType ≠ .client ∧ (s.process q).gpuMigs j = some t ∧
        ¬ (q = p ∧ j = i)) : ¬ s'.Right := by
  intro hright
  have hslot : ∀ q j, (s.process q).mpsProcessType ≠ .client → (s.process q).gpuMigs j = some t →
      s.ownSlot (q, j) = some t := by
    intro q j hq hj
    unfold ownSlot
    rw [if_neg hq, hj]
  obtain ⟨hlt, hzero⟩ := h.trackers.slotted.held _ _ (hslot p i hheld.1 hheld.2)
  have hnot : ¬ s'.Owned t := by
    rintro ⟨q, j, hq, -, hj⟩
    obtain ⟨hq, hj, hne⟩ := hslots q j hq hj
    have heq := h.trackers.slotted.inj _ _ t (hslot q j hq hj) (hslot p i hheld.1 hheld.2)
    exact hne (Prod.mk.inj heq)
  have hone := (hright.trackers t (hlt.trans_le htrackers)).2.mpr hnot
  omega

theorem Inv.not_right_registerServer (h : s.Inv) {uuid : ℕ} {done : List ℕ}
    (hcall : (s.process p).call = .registerServer done (uuid :: gpuUuidArray))
    (hfind : s.findEnabledGpuIndex uuid = some i) (ht : (s.process p).gpuMigs i = some t)
    (allocOk createOk : Bool) (handle : ℕ) :
    ¬ (s.registerMpsServerNext p done allocOk createOk handle (uuid :: gpuUuidArray)).Right := by
  have htype : (s.process p).mpsProcessType ≠ .client := by
    have hfits := h.calls.fits p
    rw [hcall] at hfits
    rw [show (s.process p).mpsProcessType = .notActive from hfits]
    decide
  have hslot : s.ownSlot (p, i) = some t := by
    unfold ownSlot
    rw [if_neg htype, ht]
  have hlt := (h.trackers.slotted.held _ _ hslot).1
  -- the entry is overwritten, whatever the outcome
  obtain ⟨o, ho, hprocess, htrackers, hfreed⟩ : ∃ o, o ≠ some t ∧
      (s.createTracker p i allocOk createOk).2.process = (s.setMig p i o).process ∧
      s.trackers ≤ (s.createTracker p i allocOk createOk).2.trackers ∧
      (s.createTracker p i allocOk createOk).2.freed t = s.freed t := by
    unfold State.createTracker
    split
    · exact ⟨none, (fun heq => nomatch heq), rfl, le_rfl, rfl⟩
    · split
      · exact ⟨none, (fun heq => nomatch heq), rfl, Nat.le_succ _,
          Function.update_of_ne (Nat.ne_of_lt hlt) ..⟩
      · exact ⟨some s.trackers, fun heq => Nat.ne_of_gt hlt (Option.some.inj heq), rfl,
          Nat.le_succ _, rfl⟩
  obtain ⟨c, heq⟩ : ∃ c, s.registerMpsServerNext p done allocOk createOk handle
      (uuid :: gpuUuidArray) = (s.createTracker p i allocOk createOk).2.setCall p c := by
    unfold State.registerMpsServerNext
    dsimp only
    rw [hfind]
    dsimp only
    split
    · exact ⟨_, rfl⟩
    · exact ⟨_, rfl⟩
  rw [heq]
  refine h.not_right_of_lost ⟨htype, ht⟩ htrackers hfreed fun q j hq hj => ?_
  have hcallfield : ∀ {α : Type} (f : Process → α), (∀ pr c, f { pr with call := c } = f pr) →
      f (((s.createTracker p i allocOk createOk).2.setCall p c).process q) =
        f ((s.setMig p i o).process q) := by
    intro α f hf
    rw [← hprocess]
    exact setProcess_field f _ (hf _ _) q
  rw [hcallfield Process.mpsProcessType fun _ _ => rfl, setMig_type] at hq
  rw [hcallfield Process.gpuMigs fun _ _ => rfl] at hj
  rcases setMig_gpuMigs_cases hj with ⟨-, -, hwritten⟩ | ⟨hne, hold⟩
  · exact absurd hwritten ho
  · exact ⟨hq, hold, hne⟩

theorem Inv.not_right_registerClient (h : s.Inv) (hcall : (s.process p).call = .registerClient m)
    (hnot : ¬ s.CallAllowed p (s.process p).call) : ¬ (s.registerMpsClientNext p m).Right := by
  have hfits := h.calls.fits p
  rw [hcall] at hfits hnot
  obtain ⟨htype, hm⟩ := hfits
  by_cases hstill : s.StillOpen m
  · have hlost : (s.process (s.server m).processRecord).euid = (s.process p).euid ∧
        ∃ i < maxGpus, (s.process p).gpuMigs i ≠ none := by
      by_contra hnone
      refine hnot ⟨hstill, fun heuid i hi => ?_⟩
      by_contra hsome
      exact hnone ⟨heuid, i, hi, hsome⟩
    obtain ⟨heuid, i, -, hsome⟩ := hlost
    obtain ⟨t, ht⟩ := Option.ne_none_iff_exists'.mp hsome
    unfold State.registerMpsClientNext
    dsimp only
    rw [h.touch_of_stillOpen hstill, if_neg (not_not.mpr heuid)]
    refine h.not_right_of_lost ⟨by rw [htype]; decide, ht⟩ le_rfl rfl fun q j hq hj => ?_
    have hqp : q ≠ p := by
      rintro rfl
      have hself : ((s.setProcess q { s.process q with
          mpsProcessType := .client
          mpsServer := some m
          call := .idle }).krefGet m).process q = { s.process q with
            mpsProcessType := .client
            mpsServer := some m
            call := .idle } := Function.update_self ..
      rw [hself] at hq
      exact hq rfl
    have hother : ((s.setProcess p { s.process p with
        mpsProcessType := .client
        mpsServer := some m
        call := .idle }).krefGet m).process q = s.process q := Function.update_of_ne hqp ..
    rw [hother] at hq hj
    exact ⟨hq, hj, fun heq => hqp heq.1⟩
  · -- the server, or its process record, is freed
    have hviolated : ((s.touchServer m).touchProcess (s.server m).processRecord).violated = true := by
      show (s.violated || decide ((s.server m).freed ≠ 0) ||
        decide ((s.process (s.server m).processRecord).stage = .closed)) = true
      by_cases hclosed : (s.process (s.server m).processRecord).stage = .closed
      · rw [hclosed]
        simp
      · have hnone : ∀ q ∈ List.range s.opened, s.refs q m = 0 := by
          intro q hq
          refine if_neg fun hrefers => ?_
          exact hstill ⟨⟨q, List.mem_range.mp hq, hrefers⟩, hclosed⟩
        have hkref := (h.servers.kref m hm).trans (held_eq_zero _ hnone)
        rw [h.servers.freed m hm, if_pos hkref]
        simp
    intro hright
    have hcalm := hright.calm
    unfold State.registerMpsClientNext at hcalm
    dsimp only at hcalm
    split at hcalm
    · exact nomatch hviolated.symm.trans hcalm
    · have hafter : (((s.touchServer m).touchProcess (s.server m).processRecord).violated ||
          decide ((s.server m).freed ≠ 0)) = false := hcalm
      rw [hviolated] at hafter
      exact nomatch hafter

theorem Inv.not_right_lockMpsServer (h : s.Inv) {c : Call} (hcall : (s.process p).call = c)
    (hcopies : c = .fault i false ∨ ∃ t, c = .migrate i t)
    (hgets : s.GetsServer p) (hstale : ¬ s.CopyFresh p i) : ¬ (s.lockMpsServer p c).Right := by
  have hfits := h.calls.fits p
  rw [hcall] at hfits
  have htype : (s.process p).mpsProcessType = .client := by
    rcases hcopies with rfl | ⟨t, rfl⟩
    · exact hfits
    · exact hfits.1
  have hopen := h.calls.opened p (by
    rw [hcall]
    rcases hcopies with rfl | ⟨t, rfl⟩ <;> exact fun heq => nomatch heq)
  have hsome : (s.process p).gpuMigs i ≠ none := fun hnone => hstale fun _ _ _ => .inl hnone
  obtain ⟨t, ht⟩ := Option.ne_none_iff_exists'.mp hsome
  have hfreed : s.freed t ≠ 0 := fun hzero => hstale ((h.unfreed_iff ht).mp hzero)
  rcases h.lockMpsServer_cases (c := c) htype hopen.2 with ⟨hnot, -⟩ | ⟨m, -, -, -, heq⟩
  · exact absurd hgets hnot
  · have hunder : s.underServerLock p (s.server m).processRecord c = s.touchTracker t := by
      rcases hcopies with rfl | ⟨u, rfl⟩
      · unfold underServerLock
        dsimp only
        rw [if_neg Bool.false_ne_true, ht]
      · obtain rfl : t = u := Option.some.inj (ht.symm.trans hfits.2)
        rfl
    rw [heq, hunder]
    intro hright
    have hcalm : (s.violated || decide (s.freed t ≠ 0)) = false := hright.calm
    rw [decide_eq_true hfreed, Bool.or_true] at hcalm
    exact nomatch hcalm

theorem destroyMig_violated (hviolated : s.violated = true) :
    (s.destroyMig p i).violated = true := by
  unfold State.destroyMig
  split
  · exact hviolated
  · next t _ =>
    split
    · exact hviolated
    · show (s.violated || decide (s.freed t ≠ 0)) = true
      rw [hviolated, Bool.true_or]

theorem deleteMig_violated {debugPrints : Bool} (hviolated : s.violated = true) :
    (s.deleteMig p debugPrints i).violated = true := by
  unfold State.deleteMig
  split
  · exact hviolated
  · next t _ =>
    apply destroyMig_violated
    split
    · show (s.violated || decide (s.freed t ≠ 0)) = true
      rw [hviolated, Bool.true_or]
    · exact hviolated

theorem deleteMigs_violated (l : List ℕ) (htype : (s.process p).mpsProcessType = .client)
    (hi : i ∈ l) (ht : (s.process p).gpuMigs i = some t) (hfreed : s.freed t ≠ 0) :
    (l.foldl (fun s i => s.deleteMig p true i) s).violated = true := by
  have hkeep : ∀ (l : List ℕ) (s : State), s.violated = true →
      (l.foldl (fun s i => s.deleteMig p true i) s).violated = true := by
    intro l
    induction l with
    | nil => exact fun s hs => hs
    | cons j l ih => exact fun s hs => ih _ (deleteMig_violated hs)
  induction l generalizing s with
  | nil => exact nomatch hi
  | cons j l ih =>
    rw [List.foldl_cons]
    by_cases hj : j = i
    · subst hj
      apply hkeep
      unfold State.deleteMig
      rw [ht]
      apply destroyMig_violated
      show (s.violated || decide (s.freed t ≠ 0)) = true
      rw [decide_eq_true hfreed, Bool.or_true]
    · -- a client frees nothing, and clears another entry
      have hdelete : (s.deleteMig p true j).freed = s.freed ∧
          ((s.deleteMig p true j).process p).mpsProcessType = .client ∧
          ((s.deleteMig p true j).process p).gpuMigs i = some t := by
        unfold State.deleteMig
        split
        · exact ⟨rfl, htype, ht⟩
        · next u hu =>
          rw [if_pos rfl]
          refine ⟨?_, (destroyMig_sameFile (s.touchTracker u) p j p).type.trans htype, ?_⟩
          · unfold State.destroyMig
            split
            · rfl
            · rw [if_pos (show ((s.touchTracker u).process p).mpsProcessType = .client from htype)]
              rfl
          · rw [destroyMig_gpuMigs, if_neg (Ne.symm hj)]
            exact ht
      have hrest : i ∈ l := (List.mem_cons.mp hi).resolve_left (Ne.symm hj)
      exact ih hdelete.2.1 hrest hdelete.2.2 (hdelete.1 ▸ hfreed)

theorem Inv.not_right_closeNext (h : s.Inv) (hstage : (s.process p).stage = .released)
    (hstops : s.stopping = none) (hstale : ¬ ∀ i < maxGpus, s.CopyFresh p i) :
    ¬ (s.closeNext p true).Right := by
  rw [not_forall] at hstale
  obtain ⟨i, hstale⟩ := hstale
  obtain ⟨hi, hstale⟩ := Classical.not_imp.mp hstale
  have htype : (s.process p).mpsProcessType = .client := by
    by_contra htype
    exact hstale fun hclient => absurd hclient htype
  have hsome : (s.process p).gpuMigs i ≠ none := fun hnone => hstale fun _ _ _ => .inl hnone
  obtain ⟨t, ht⟩ := Option.ne_none_iff_exists'.mp hsome
  have hfreed : s.freed t ≠ 0 := fun hzero => hstale ((h.unfreed_iff ht).mp hzero)
  have hviolated := deleteMigs_violated (s := { s with table := s.table.erase p })
    (List.range maxGpus) htype (List.mem_range.mpr hi) ht hfreed
  intro hright
  have hcalm := hright.calm
  unfold State.closeNext at hcalm
  rw [hstage] at hcalm
  rw [if_neg (by rw [hstops]; exact Bool.false_ne_true)] at hcalm
  exact nomatch hviolated.symm.trans hcalm

theorem Inv.not_right_of_not_allowed (h : s.Inv) {op : Op} (hnot : ¬ s.Allowed op) :
    ¬ (Mps.step s op).Right := by
  cases op with
  | next p allocOk createOk handle =>
    replace hnot : ¬ s.CallAllowed p (s.process p).call := hnot
    unfold Mps.step State.next
    dsimp only
    cases hcall : (s.process p).call with
    | idle =>
      rw [hcall] at hnot
      exact absurd trivial hnot
    | failServer l =>
      rw [hcall] at hnot
      exact absurd trivial hnot
    | createOrCheckChannel i =>
      rw [hcall] at hnot
      exact absurd trivial hnot
    | registerServer done gpuUuidArray =>
      rw [hcall] at hnot
      cases gpuUuidArray with
      | nil => exact absurd trivial hnot
      | cons uuid gpuUuidArray =>
        have hfound : ∃ i ∈ s.findEnabledGpuIndex uuid, (s.process p).gpuMigs i ≠ none := by
          by_contra hnone
          refine hnot fun i hi => ?_
          by_contra hsome
          exact hnone ⟨i, hi, hsome⟩
        obtain ⟨i, hi, hsome⟩ := hfound
        obtain ⟨t, ht⟩ := Option.ne_none_iff_exists'.mp hsome
        exact h.not_right_registerServer hcall hi ht allocOk createOk handle
    | registerClient m => exact h.not_right_registerClient hcall hnot
    | fault i hasPage =>
      rw [hcall] at hnot
      obtain ⟨hgets, hrest⟩ := Classical.not_imp.mp hnot
      obtain ⟨rfl, hstale⟩ := Classical.not_imp.mp hrest
      exact h.not_right_lockMpsServer hcall (.inl rfl) hgets hstale
    | migrate i t =>
      rw [hcall] at hnot
      obtain ⟨hgets, hstale⟩ := Classical.not_imp.mp hnot
      exact h.not_right_lockMpsServer hcall (.inr ⟨t, rfl⟩) hgets hstale
  | closeNext p debugPrints =>
    obtain ⟨hstage, hrest⟩ := Classical.not_imp.mp hnot
    obtain ⟨hstops, hrest⟩ := Classical.not_imp.mp hrest
    obtain ⟨rfl, hstale⟩ := Classical.not_imp.mp hrest
    exact h.not_right_closeNext hstage hstops hstale
  | _ => exact absurd trivial hnot

/-! ## Runs -/

/-- **In every run** no freed tracker, server or process record is accessed, and each tracker and each
server is freed once, exactly when all steps are allowed. -/
theorem right_along_iff (ops : List Op) :
    HoldsAlong step Right initial ops ↔ StepsMeet step Allowed initial ops := by
  refine holds_along_iff_of_guarded step (W := Inv) initial_inv (fun s h => h.right)
    (fun s op h => ⟨fun hright => ?_, fun hallowed => (h.step hallowed).right⟩)
    (fun s op h hallowed => h.step hallowed) ops
  by_contra hnot
  exact h.not_right_of_not_allowed hnot hright

/-- A process registers as a server with the same GPU twice: the first tracker is in no table, and is
never freed. -/
theorem duplicate_gpu_leaks : ¬ HoldsAlong step Right initial
      [.enableGpu 7 true, .openFile 0, .registerMpsServer 0 [7, 7], .next 0 true true 1,
        .next 0 true true 1] := by
  intro h
  let s₁ : State := step initial (.enableGpu 7 true)
  let s₂ : State := step s₁ (.openFile 0)
  let s₃ : State := step s₂ (.registerMpsServer 0 [7, 7])
  let s₄ : State := step s₃ (.next 0 true true 1)
  have hatt : (step initial (.enableGpu 7 true)).Inv := initial_inv.step trivial
  have hopened : (step s₁ (.openFile 0)).Inv := Inv.step hatt trivial
  have hbegun : (step s₂ (.registerMpsServer 0 [7, 7])).Inv := Inv.step hopened trivial
  have hfirst : s₃.Allowed (.next 0 true true 1) := by
    show ∀ i ∈ some 0, _ = none
    decide
  have hinv : (step s₃ (.next 0 true true 1)).Inv := Inv.step hbegun hfirst
  -- the second time, the entry has the first tracker
  have hsecond : ¬ s₄.Allowed (.next 0 true true 1) := by
    show ¬ ∀ i ∈ some 0, _ = none
    decide
  exact Inv.not_right_of_not_allowed hinv hsecond (h _ (List.prefix_refl _))

end State

end NvUvm.Mps
