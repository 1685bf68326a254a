import NvUvm.VmaRangeRuns
import Mathlib.Data.List.Sort

/-!
# Fault entries of destroyed ranges

A GPU writes a fault to its fault buffer, and the fault handler services it later.  When a managed
vma is closed, its ranges are destroyed and `needs_fault_buffer_flush` is set for every GPU of the VA
space, so that the handler drops what is in the buffer before it services a fault of this VA space
(`uvm_vm_close_managed`, `service_fault_batch`).  A failing split and the cleanup of zombies destroy
ranges too, without the flag.

The handler holds the VA space lock from the first to the last entry of a VA space in a batch, so
that the callbacks that change ranges wait.
-/

namespace NvUvm.StaleFaults

open Lib

/-! ## The state -/

/-- `uvm_fault_buffer_entry_t`.  Once a managed range over the address is destroyed, `staleSince` is
the first `mmap` that the entry does not belong to. -/
structure Entry where
  vaSpace : ℕ
  faultAddress : ℕ
  faultAccessType : ℕ
  staleSince : Option ℕ := none
  deriving DecidableEq, Repr

/-- The fault buffer of a GPU, the part of `ordered_fault_cache` that the handler has not come to,
and the VA space whose lock the handler holds. -/
structure Gpu where
  faultBuffer : List Entry := []
  orderedFaultCache : List Entry := []
  vaSpace : Option ℕ := none
  deriving DecidableEq, Repr

/-- The VA spaces with the flags of their GPU VA spaces, the GPUs, and what was serviced. -/
structure State where
  vaSpaces : ℕ → VmaRanges.State := fun _ => .initial
  registeredGpuVaSpaces : ℕ → ℕ → Bool
  needsFaultBufferFlush : ℕ → ℕ → Bool := fun _ _ => false
  gpus : List Gpu
  serviced : List (Entry × VmaRanges.VaRange) := []

def State.initial (registeredGpuVaSpaces : ℕ → ℕ → Bool) (gpus : ℕ) : State where
  registeredGpuVaSpaces := registeredGpuVaSpaces
  gpus := List.replicate gpus {}

/-! ## The callbacks -/

/-- Whether a step takes the VA space lock in write mode.  What happens to disabled vmas, and the
copies of a fork or a move, does not. -/
def takesLock (s : VmaRanges.State) : VmaRanges.Op → Bool
  | .mmap .. | .policySplit .. | .cleanUpZombieResources => true
  | .split id .. | .close id _ => (s.vmas id).any (·.managed)
  | .adjust _ | .fork .. | .move .. => false

/-- Whether a step is `uvm_vm_close_managed`. -/
def closesManaged (s : VmaRanges.State) : VmaRanges.Op → Bool
  | .close id _ => (s.vmas id).any fun v => v.managed && v.adjusted.isNone
  | _ => false

def covered (s : VmaRanges.State) (a : ℕ) : Bool := (lookup s.ranges a).isSome

def Entry.age (before after : VmaRanges.State) (space : ℕ) (e : Entry) : Entry :=
  if e.vaSpace = space ∧ e.staleSince = none ∧ covered before e.faultAddress = true ∧
      covered after e.faultAddress = false then
    { e with staleSince := some after.nextBirth }
  else e

def Gpu.age (before after : VmaRanges.State) (space : ℕ) (gpu : Gpu) : Gpu :=
  { gpu with
      faultBuffer := gpu.faultBuffer.map (Entry.age before after space)
      orderedFaultCache := gpu.orderedFaultCache.map (Entry.age before after space) }

/-- A step that would take the lock while a handler holds it waits. -/
def State.waits (s : State) (space : ℕ) (op : VmaRanges.Op) : Bool :=
  takesLock (s.vaSpaces space) op && s.gpus.any fun gpu => decide (gpu.vaSpace = some space)

/-- The flags once every GPU VA space of a VA space is told to flush. -/
def State.notified (s : State) (space sp gpu : ℕ) : Bool :=
  if sp = space ∧ s.registeredGpuVaSpaces sp gpu = true then true else s.needsFaultBufferFlush sp gpu

/-- A callback or a call that changes the ranges of a VA space. -/
def changeVmas (s : State) (space : ℕ) (op : VmaRanges.Op) : State :=
  if s.waits space op then s
  else
    let before := s.vaSpaces space
    let after := VmaRanges.step before op
    { s with
        vaSpaces := Function.update s.vaSpaces space after
        gpus := s.gpus.map (Gpu.age before after space)
        needsFaultBufferFlush :=
          if closesManaged before op then s.notified space else s.needsFaultBufferFlush }

/-! ## The fault handler -/

/-- `cmp_sort_fault_entry_by_va_space_address_access_type`, as an order. -/
def Entry.Le (a b : Entry) : Prop :=
  a.vaSpace < b.vaSpace ∨ (a.vaSpace = b.vaSpace ∧ (a.faultAddress < b.faultAddress ∨
    (a.faultAddress = b.faultAddress ∧ a.faultAccessType ≤ b.faultAccessType)))

instance (a b : Entry) : Decidable (a.Le b) := by
  unfold Entry.Le
  infer_instance

/-- What is done with an entry whose range is found: nothing (it is fatal, throttled, or needs no
service), pages are migrated or mapped, or the batch ends with an error. -/
inductive EntryOutcome where
  | skipped | serviced | failed
  deriving DecidableEq, Repr

def State.setGpu (s : State) (g : ℕ) (gpu : Gpu) : State := { s with gpus := s.gpus.set g gpu }

/-- `fetch_fault_buffer_entries` of some entries, and `preprocess_fault_batch`. -/
def fetchFaultBufferEntries (s : State) (g count : ℕ) : State :=
  match s.gpus[g]? with
  | none => s
  | some gpu =>
    if gpu.orderedFaultCache = [] ∧ gpu.vaSpace = none then
      s.setGpu g { gpu with
        faultBuffer := gpu.faultBuffer.drop count
        orderedFaultCache := (gpu.faultBuffer.take count).insertionSort Entry.Le }
    else s

/-- `fault_buffer_flush_locked` up to some PUT, outside of `service_fault_batch`.  A batch whose
instance pointers have no VA space is dropped with it. -/
def faultBufferFlush (s : State) (g count : ℕ) : State :=
  match s.gpus[g]? with
  | none => s
  | some gpu =>
    if gpu.vaSpace = none then
      s.setGpu g { gpu with faultBuffer := gpu.faultBuffer.drop count, orderedFaultCache := [] }
    else s

/-- The next entry of the loop of `service_fault_batch`. -/
def serviceFaultBatch (s : State) (g : ℕ) (o : EntryOutcome) : State :=
  match s.gpus[g]? with
  | none => s
  | some gpu =>
    match gpu.orderedFaultCache with
    | [] => s.setGpu g { gpu with vaSpace := none }
    | e :: rest =>
      let registered := s.registeredGpuVaSpaces e.vaSpace g
      if gpu.vaSpace ≠ some e.vaSpace then
        if registered && s.needsFaultBufferFlush e.vaSpace g then
          -- the buffer is flushed up to PUT, and the batch is dropped
          { s with
              needsFaultBufferFlush := fun sp gpu =>
                if sp = e.vaSpace ∧ gpu = g then false else s.needsFaultBufferFlush sp gpu }.setGpu g {}
        else s.setGpu g { gpu with vaSpace := some e.vaSpace }
      else
        match o, if registered then lookup (s.vaSpaces e.vaSpace).ranges e.faultAddress else none with
        | .failed, _ => s.setGpu g { gpu with orderedFaultCache := [], vaSpace := none }
        | .serviced, some n =>
          { s with serviced := s.serviced ++ [(e, n)] }.setGpu g
            { gpu with orderedFaultCache := rest }
        | _, _ => s.setGpu g { gpu with orderedFaultCache := rest }

/-! ## Runs -/

/-- A step of the kernel or of a call in a VA space, a fault of a GPU, or a step of the handler. -/
inductive Op where
  | changeVmas (space : ℕ) (op : VmaRanges.Op)
  | fault (g vaSpace faultAddress faultAccessType : ℕ)
  | fetchFaultBufferEntries (g count : ℕ)
  | faultBufferFlush (g count : ℕ)
  | serviceFaultBatch (g : ℕ) (o : EntryOutcome)
  deriving DecidableEq, Repr

def step (s : State) : Op → State
  | .changeVmas space op => changeVmas s space op
  | .fault g vaSpace faultAddress faultAccessType =>
    match s.gpus[g]? with
    | none => s
    | some gpu => s.setGpu g { gpu with
        faultBuffer := gpu.faultBuffer ++ [{ vaSpace, faultAddress, faultAccessType }] }
  | .fetchFaultBufferEntries g count => fetchFaultBufferEntries s g count
  | .faultBufferFlush g count => faultBufferFlush s g count
  | .serviceFaultBatch g o => serviceFaultBatch s g o

/-- No entry was serviced on a range that came after a range of the entry was destroyed. -/
def NoStale (s : State) : Prop :=
  ∀ p ∈ s.serviced, ∀ birth, p.1.staleSince = some birth → p.2.val.birth < birth

/-! ## What destroys ranges -/

/-- The addresses whose ranges are destroyed without the flag: those of a vma whose split fails, and
those of the zombies that are cleaned up. -/
def SilentlyDestroys (s : VmaRanges.State) (a : ℕ) : VmaRanges.Op → Prop
  | .split id addr _ o => ∃ v, s.vmas id = some v ∧ v.managed = true ∧ v.adjusted = none ∧
      v.vmStart < addr ∧ addr < v.vmEnd ∧ VmaRanges.OpenFails s addr o ∧ v.vmStart ≤ a ∧ a < v.vmEnd
  | .cleanUpZombieResources => ∃ n ∈ s.ranges, n.Contains a ∧ n.val.vmaWrapper = none
  | _ => False

section Destroy

variable {s : VmaRanges.State} {a : ℕ}

theorem covered_iff (h : VmaRanges.Inv s) : covered s a = true ↔ ∃ n ∈ s.ranges, n.Contains a := by
  rw [covered, Option.isSome_iff_exists]
  simp only [lookup_eq_some h.ordered]

theorem ranges_of_not_takesLock (h : VmaRanges.Inv s) {op : VmaRanges.Op}
    (htakes : takesLock s op = false) : (VmaRanges.step s op).ranges = s.ranges := by
  cases op with
  | mmap mm vmStart vmEnd wrapperAllocated rangeAllocated => cases htakes
  | policySplit addr rangeSplit => cases htakes
  | cleanUpZombieResources => cases htakes
  | adjust id =>
    simp only [VmaRanges.step]
    split <;> rfl
  | fork id mm =>
    simp only [VmaRanges.step]
    cases hv : s.vmas id with
    | none => rfl
    | some v =>
      dsimp only
      split
      · next hfork => exact h.copy_ranges hv rfl rfl (.inl hfork.2)
      · rfl
  | move id vmStart vmEnd =>
    simp only [VmaRanges.step]
    cases hv : s.vmas id with
    | none => rfl
    | some v =>
      dsimp only
      split
      · next hmove =>
        obtain ⟨hadj, hlt, hdisj⟩ := hmove
        have hlt' := (h.vma hv).2.1
        rw [VmaRanges.Vma.bounds_of_none hadj] at hlt'
        refine h.copy_ranges hv rfl rfl (.inr ⟨?_, ?_⟩) <;> dsimp only <;> omega
      · rfl
  | split id addr newBelow o =>
    simp only [VmaRanges.step]
    cases hv : s.vmas id with
    | none => rfl
    | some v =>
      rw [takesLock, hv] at htakes
      have hoff : (v.part addr newBelow).managed = false := by
        cases newBelow <;> exact htakes
      dsimp only
      split
      · simp only [VmaRanges.copyVma, hoff, Bool.false_eq_true]
        unfold VmaRanges.State.setAdjusted
        split <;> rfl
      · rfl
  | close id isUvmTeardown =>
    simp only [VmaRanges.step]
    cases hv : s.vmas id with
    | none => rfl
    | some v =>
      rw [takesLock, hv] at htakes
      have hoff : v.managed = false := htakes
      simp only [hoff, Bool.false_eq_true]
      split <;> rfl

theorem contains_flatMap {l : List VmaRanges.VaRange} {addr : ℕ} {n : VmaRanges.VaRange}
    (hn : n ∈ l) (hcont : n.Contains a) :
    ∃ m ∈ l.flatMap (VmaRanges.splitRange addr), m.Contains a := by
  obtain ⟨m, hm, hcontains'⟩ := VmaRanges.contains_splitRange hcont
  exact ⟨m, List.mem_flatMap.mpr ⟨n, hn, hm⟩, hcontains'⟩

theorem step_covers (h : VmaRanges.Inv s) (op : VmaRanges.Op) {n : VmaRanges.VaRange}
    (hn : n ∈ s.ranges) (hcont : n.Contains a) :
    (∃ m ∈ (VmaRanges.step s op).ranges, m.Contains a) ∨ SilentlyDestroys s a op ∨
      closesManaged s op = true := by
  cases htakes : takesLock s op with
  | false =>
    rw [ranges_of_not_takesLock h htakes]
    exact .inl ⟨n, hn, hcont⟩
  | true =>
    cases op with
    | adjust id => cases htakes
    | fork id mm => cases htakes
    | move id vmStart vmEnd => cases htakes
    | policySplit addr rangeSplit =>
      refine .inl ?_
      cases rangeSplit with
      | false => exact ⟨n, hn, hcont⟩
      | true => exact contains_flatMap hn hcont
    | cleanUpZombieResources =>
      cases hwrap : n.val.vmaWrapper with
      | none => exact .inr (.inl ⟨n, hn, hcont, hwrap⟩)
      | some w =>
        refine .inl ⟨n, List.mem_filter.mpr ⟨hn, ?_⟩, hcont⟩
        rw [hwrap]
        rfl
    | mmap mm vmStart vmEnd wrapperAllocated rangeAllocated =>
      refine .inl ⟨n, ?_, hcont⟩
      simp only [VmaRanges.step]
      split
      · exact VmaRanges.mem_uvmMmap _ _ hn
      · exact hn
    | close id isUvmTeardown =>
      cases hv : s.vmas id with
      | none =>
        rw [takesLock, hv] at htakes
        cases htakes
      | some v =>
        rw [takesLock, hv] at htakes
        cases hadj : v.adjusted with
        | none =>
          refine .inr (.inr ?_)
          have hman : v.managed = true := htakes
          simp only [closesManaged, hv, Option.any_some, hman, hadj, Option.isNone_none,
            Bool.and_self]
        | some bounds =>
          refine .inl ⟨n, ?_, hcont⟩
          simp only [VmaRanges.step, hv, hadj, reduceCtorEq]
          exact hn
    | split id addr newBelow o =>
      cases hv : s.vmas id with
      | none =>
        rw [takesLock, hv] at htakes
        cases htakes
      | some v =>
        rw [takesLock, hv] at htakes
        have hman : v.managed = true := htakes
        simp only [VmaRanges.step, hv]
        split
        · next hin =>
          obtain ⟨hadj, hlo, hhi⟩ := hin
          obtain ⟨w, -, hw⟩ := h.managed hv hman
          by_cases hfails : VmaRanges.OpenFails s addr o
          · obtain ⟨next, -, heq⟩ := VmaRanges.split_fails h hw hv hadj hlo hhi newBelow hfails
            rw [heq]
            by_cases hwrap : n.val.vmaWrapper = some w
            · -- the range was under the vma, and so is the address
              obtain ⟨hstart, hlast⟩ := h.inside_of hw hv hn hwrap
              rw [VmaRanges.Vma.bounds_of_none hadj] at hstart hlast
              exact .inr (.inl ⟨v, hv, hman, hadj, hlo, hhi, hfails,
                Nat.le_trans hstart hcont.1, Nat.lt_of_le_of_lt hcont.2 hlast⟩)
            · exact .inl ⟨n, (h.mem_filter hw hv hadj).mpr ⟨hn, hwrap⟩, hcont⟩
          · rw [VmaRanges.split_succeeds h hw hv hadj hlo hhi newBelow hfails]
            obtain ⟨m, hm, hstart, hlast⟩ := contains_flatMap hn hcont
            refine .inl ⟨_, List.mem_map.mpr ⟨m, hm, rfl⟩, ?_⟩
            split <;> exact ⟨hstart, hlast⟩
        · exact .inl ⟨n, hn, hcont⟩

end Destroy

/-! ## The invariant -/

/-- The entries that the handler has not come to. -/
def Gpu.entries (gpu : Gpu) : List Entry := gpu.faultBuffer ++ gpu.orderedFaultCache

/-- An entry of a destroyed range is under the flag, and the handler is past the flag when it holds
the lock. -/
structure Inv (s : State) : Prop where
  spaces : ∀ space, VmaRanges.Inv (s.vaSpaces space)
  locked : ∀ {g gpu sp}, s.gpus[g]? = some gpu → gpu.vaSpace = some sp →
    s.registeredGpuVaSpaces sp g = true → s.needsFaultBufferFlush sp g = false
  flagged : ∀ {g gpu e}, s.gpus[g]? = some gpu → e ∈ gpu.entries → e.staleSince ≠ none →
    s.registeredGpuVaSpaces e.vaSpace g = true → s.needsFaultBufferFlush e.vaSpace g = true
  served : ∀ p ∈ s.serviced, p.1.staleSince = none

/-- The condition on a step: what is destroyed silently has no entry of a registered GPU, unless the
flag is already set. -/
def Flagged (s : State) : Op → Prop
  | .changeVmas space op => s.waits space op = false → ∀ g gpu e, s.gpus[g]? = some gpu →
      e ∈ gpu.entries → e.vaSpace = space → s.registeredGpuVaSpaces space g = true →
      SilentlyDestroys (s.vaSpaces space) e.faultAddress op → s.needsFaultBufferFlush space g = true
  | _ => True

theorem initial_inv (registered : ℕ → ℕ → Bool) (gpus : ℕ) : Inv (State.initial registered gpus) where
  spaces _ := VmaRanges.initial_inv
  locked _ _ _ := rfl
  flagged hg he _ := by
    obtain rfl := List.eq_of_mem_replicate (List.mem_of_getElem? hg)
    cases he
  served := nofun

variable {s : State} {g : ℕ} {gpu gpu' : Gpu}

theorem Inv.setGpu (h : Inv s) (hg : s.gpus[g]? = some gpu)
    (hents : ∀ e ∈ gpu'.entries, e ∈ gpu.entries ∨ e.staleSince = none)
    (hlock : ∀ sp, gpu'.vaSpace = some sp → s.registeredGpuVaSpaces sp g = true →
      s.needsFaultBufferFlush sp g = false) : Inv (s.setGpu g gpu') := by
  have hgpus : ∀ {i u}, (s.gpus.set g gpu')[i]? = some u →
      (i = g ∧ u = gpu') ∨ s.gpus[i]? = some u := by
    intro i u hu
    by_cases heq : i = g
    · subst heq
      rw [List.getElem?_set_self (List.getElem?_eq_some_iff.mp hg).1] at hu
      exact .inl ⟨rfl, (Option.some.inj hu).symm⟩
    · rw [List.getElem?_set_ne (Ne.symm heq)] at hu
      exact .inr hu
  refine ⟨h.spaces, fun hu hsp hreg => ?_, fun hu he hstale hreg => ?_, h.served⟩
  · rcases hgpus hu with ⟨rfl, rfl⟩ | hu
    · exact hlock _ hsp hreg
    · exact h.locked hu hsp hreg
  · rcases hgpus hu with ⟨rfl, rfl⟩ | hu
    · rcases hents _ he with he | hfresh
      · exact h.flagged hg he hstale hreg
      · exact absurd hfresh hstale
    · exact h.flagged hu he hstale hreg

/-! ## The steps -/

theorem fetch_inv (h : Inv s) (g count : ℕ) : Inv (fetchFaultBufferEntries s g count) := by
  unfold fetchFaultBufferEntries
  split
  · exact h
  · next gpu hg =>
    split
    · refine h.setGpu hg (fun e he => .inl ?_) fun sp hsp => h.locked hg hsp
      rcases List.mem_append.mp he with he | he
      · exact List.mem_append_left _ (List.mem_of_mem_drop he)
      · exact List.mem_append_left _ (List.mem_of_mem_take ((List.mem_insertionSort _).mp he))
    · exact h

theorem flush_inv (h : Inv s) (g count : ℕ) : Inv (faultBufferFlush s g count) := by
  unfold faultBufferFlush
  split
  · exact h
  · next gpu hg =>
    split
    · refine h.setGpu hg (fun e he => .inl ?_) fun sp hsp => h.locked hg hsp
      rw [Gpu.entries, List.append_nil] at he
      exact List.mem_append_left _ (List.mem_of_mem_drop he)
    · exact h

variable {e : Entry} {after before : VmaRanges.State} {space : ℕ}

theorem mem_entries_rest {rest : List Entry} (hcache : gpu.orderedFaultCache = e :: rest)
    {e' : Entry} (he' : e' ∈ gpu.faultBuffer ++ rest) : e' ∈ gpu.entries := by
  rw [Gpu.entries, hcache]
  rcases List.mem_append.mp he' with he' | he'
  · exact List.mem_append_left _ he'
  · exact List.mem_append_right _ (List.mem_cons_of_mem _ he')

/-- **The handler** comes to an entry with the lock of its VA space only past the flag, so that the
entry is of no destroyed range. -/
theorem service_inv (h : Inv s) (g : ℕ) (o : EntryOutcome) : Inv (serviceFaultBatch s g o) := by
  unfold serviceFaultBatch
  cases hg : s.gpus[g]? with
  | none => exact h
  | some gpu =>
    cases hcache : gpu.orderedFaultCache with
    | nil =>
      simp only [hcache]
      refine h.setGpu hg (fun e he => .inl ?_) nofun
      rwa [Gpu.entries, hcache]
    | cons e rest =>
      simp only [hcache]
      have hmem : e ∈ gpu.entries := by
        rw [Gpu.entries, hcache]
        exact List.mem_append_right _ List.mem_cons_self
      by_cases hlock : gpu.vaSpace = some e.vaSpace
      · rw [if_neg (not_not.mpr hlock)]
        split
        · refine h.setGpu hg (fun e' he' => .inl ?_) nofun
          rw [Gpu.entries, List.append_nil] at he'
          exact List.mem_append_left _ he'
        · next n hfound =>
          cases hreg : s.registeredGpuVaSpaces e.vaSpace g with
          | false =>
            rw [hreg] at hfound
            cases hfound
          | true =>
            -- the flag is clear while the lock is held
            have hfresh : e.staleSince = none := by
              by_contra hstale
              have hset := h.flagged hg hmem hstale hreg
              rw [h.locked hg hlock hreg] at hset
              cases hset
            have hlogged : Inv { s with serviced := s.serviced ++ [(e, n)] } := by
              refine ⟨h.spaces, h.locked, h.flagged, fun p hp => ?_⟩
              rcases List.mem_append.mp hp with hp | hp
              · exact h.served p hp
              · obtain rfl := List.mem_singleton.mp hp
                exact hfresh
            exact hlogged.setGpu hg (fun e' he' => .inl (mem_entries_rest hcache he')) fun sp hsp =>
              h.locked hg hsp
        · exact h.setGpu hg (fun e' he' => .inl (mem_entries_rest hcache he')) fun sp hsp =>
            h.locked hg hsp
      · rw [if_pos hlock]
        cases hflag : s.registeredGpuVaSpaces e.vaSpace g && s.needsFaultBufferFlush e.vaSpace g with
        | false =>
          refine h.setGpu hg (fun e' he' => .inl ?_) fun sp hsp hreg => ?_
          · rw [Gpu.entries, hcache]
            exact he'
          · obtain rfl := Option.some.inj hsp
            rw [hreg, Bool.true_and] at hflag
            exact hflag
        | true =>
          rw [if_pos rfl]
          -- nothing is left for the flag to guard
          have hdropped : Inv (s.setGpu g {}) :=
            h.setGpu hg (fun e' he' => absurd he' List.not_mem_nil) nofun
          have hnone : ∀ {i u}, (s.gpus.set g {})[i]? = some u → i = g → u = ({} : Gpu) := by
            rintro i u hu rfl
            rw [List.getElem?_set_self (List.getElem?_eq_some_iff.mp hg).1] at hu
            exact (Option.some.inj hu).symm
          refine ⟨h.spaces, fun hu hsp hreg => ?_, fun hu he hstale hreg => ?_, h.served⟩
          · dsimp only [State.setGpu]
            split
            · rfl
            · exact hdropped.locked hu hsp hreg
          · dsimp only [State.setGpu]
            split
            · next hin =>
              rw [hnone hu hin.2] at he
              cases he
            · exact hdropped.flagged hu he hstale hreg

theorem takesLock_of_closesManaged {sp : VmaRanges.State} {op : VmaRanges.Op}
    (hcloses : closesManaged sp op = true) : takesLock sp op = true := by
  cases op with
  | close id isUvmTeardown =>
    rw [closesManaged] at hcloses
    rw [takesLock]
    cases hv : sp.vmas id with
    | none =>
      rw [hv] at hcloses
      cases hcloses
    | some v =>
      rw [hv, Option.any_some, Bool.and_eq_true] at hcloses
      exact hcloses.1
  | _ => cases hcloses

theorem mem_entries_age {e' : Entry} (he' : e' ∈ (gpu.age before after space).entries) :
    ∃ e ∈ gpu.entries, e.age before after space = e' := by
  rw [Gpu.entries, Gpu.age, ← List.map_append] at he'
  exact List.mem_map.mp he'

theorem vaSpace_age : (e.age before after space).vaSpace = e.vaSpace := by
  unfold Entry.age
  split <;> rfl

theorem destroyed_of_age (hold : e.staleSince = none)
    (hstale : (e.age before after space).staleSince ≠ none) :
    e.vaSpace = space ∧ covered before e.faultAddress = true ∧
      covered after e.faultAddress = false := by
  unfold Entry.age at hstale
  split at hstale
  · next hin => exact ⟨hin.1, hin.2.2⟩
  · exact absurd hold hstale

theorem notified_of_flag {sp i : ℕ} (hset : s.needsFaultBufferFlush sp i = true) :
    s.notified space sp i = true := by
  unfold State.notified
  split
  · rfl
  · exact hset

theorem notified_eq {sp i : ℕ} (hne : sp ≠ space) :
    s.notified space sp i = s.needsFaultBufferFlush sp i :=
  if_neg fun hin => hne hin.1

theorem getElem?_age {i : ℕ} {u : Gpu}
    (hu : (s.gpus.map (Gpu.age before after space))[i]? = some u) :
    ∃ u', s.gpus[i]? = some u' ∧ Gpu.age before after space u' = u := by
  rw [List.getElem?_map] at hu
  exact Option.map_eq_some_iff.mp hu

theorem changeVmas_inv (h : Inv s) {op : VmaRanges.Op}
    (hflagged : Flagged s (.changeVmas space op)) : Inv (changeVmas s space op) := by
  unfold changeVmas
  cases hwaits : s.waits space op with
  | true => exact h
  | false =>
    rw [if_neg Bool.false_ne_true]
    have hvmas := VmaRanges.step_inv (h.spaces space) op
    have hkeep : ∀ {sp i}, s.needsFaultBufferFlush sp i = true →
        (if closesManaged (s.vaSpaces space) op then s.notified space
          else s.needsFaultBufferFlush) sp i = true := by
      intro sp i hset
      split
      · exact notified_of_flag hset
      · exact hset
    refine ⟨fun sp => ?_, fun {i u sp} hu hsp hreg => ?_, fun {i u e'} hu he' hstale hreg => ?_,
      h.served⟩
    · by_cases heq : sp = space
      · subst heq
        dsimp only
        rw [Function.update_self]
        exact hvmas
      · dsimp only
        rw [Function.update_of_ne heq]
        exact h.spaces sp
    · obtain ⟨u', hu', rfl⟩ := getElem?_age hu
      have hclear := h.locked hu' hsp hreg
      dsimp only
      split
      · next hcloses =>
        rw [notified_eq, hclear]
        rintro rfl
        -- the close would have waited for the handler
        rw [State.waits, takesLock_of_closesManaged hcloses, Bool.true_and,
          List.any_eq_false] at hwaits
        exact hwaits u' (List.mem_of_getElem? hu') (decide_eq_true hsp)
      · exact hclear
    · obtain ⟨u', hu', rfl⟩ := getElem?_age hu
      obtain ⟨e, he, rfl⟩ := mem_entries_age he'
      rw [vaSpace_age] at hreg ⊢
      by_cases hold : e.staleSince = none
      · -- the entry is of a range that the step destroys
        obtain ⟨rfl, hbefore, hafter⟩ := destroyed_of_age hold hstale
        obtain ⟨n, hn, hcont⟩ := (covered_iff (h.spaces e.vaSpace)).mp hbefore
        rcases step_covers (h.spaces e.vaSpace) op hn hcont with hcov | hsilent | hcloses
        · rw [(covered_iff hvmas).mpr hcov] at hafter
          cases hafter
        · exact hkeep (hflagged hwaits i u' e hu' he rfl hreg hsilent)
        · dsimp only
          rw [if_pos hcloses]
          exact if_pos ⟨rfl, hreg⟩
      · exact hkeep (h.flagged hu' he hold hreg)

theorem stepInv (h : Inv s) (op : Op) (hflagged : Flagged s op) : Inv (step s op) := by
  cases op with
  | changeVmas space op => exact changeVmas_inv h hflagged
  | fault g vaSpace faultAddress faultAccessType =>
    simp only [step]
    cases hg : s.gpus[g]? with
    | none => exact h
    | some gpu =>
      refine h.setGpu hg (fun e he => ?_) fun sp hsp => h.locked hg hsp
      rw [Gpu.entries, List.append_assoc, List.mem_append, List.mem_append] at he
      rcases he with he | he | he
      · exact .inl (List.mem_append_left _ he)
      · obtain rfl := List.mem_singleton.mp he
        exact .inr rfl
      · exact .inl (List.mem_append_right _ he)
  | fetchFaultBufferEntries g count => exact fetch_inv h g count
  | faultBufferFlush g count => exact flush_inv h g count
  | serviceFaultBatch g o => exact service_inv h g o

/-- **No stale fault.**  In a run whose steps leave what they destroy silently without an entry of a
registered GPU, or under the flag, no entry is serviced on a range that came after a range of the
entry was destroyed. -/
theorem noStale_along {registered : ℕ → ℕ → Bool} {gpus : ℕ} {ops : List Op}
    (hmeets : StepsMeet step Flagged (State.initial registered gpus) ops) :
    HoldsAlong step NoStale (State.initial registered gpus) ops := by
  refine holds_along_of_meets step (initial_inv registered gpus) (fun s h p hp birth hbirth => ?_)
    (fun s op h hflagged => stepInv h op hflagged) hmeets
  rw [h.served p hp] at hbirth
  cases hbirth

/-- A vma with a fault in the buffer is closed, its addresses are mapped again, and the handler comes
to the fault. -/
def closedRun : List Op :=
  [.changeVmas 0 (.mmap 0 10 20 true true), .fault 0 0 12 1, .changeVmas 0 (.close 0 false),
    .changeVmas 0 (.mmap 0 10 20 true true), .fetchFaultBufferEntries 0 1,
    .serviceFaultBatch 0 .serviced, .serviceFaultBatch 0 .serviced]

/-- The flag makes the handler drop the fault. -/
theorem noStale_along_closed : HoldsAlong step NoStale (State.initial (fun _ _ => true) 1) closedRun :=
  noStale_along (by simp only [closedRun, stepsMeet_cons, stepsMeet_nil, Flagged, SilentlyDestroys,
    implies_true, and_self, false_implies])

/-- The same, with a split that finds no memory for a wrapper before the two parts are closed. -/
def failedSplitRun : List Op :=
  [.changeVmas 0 (.mmap 0 10 20 true true), .fault 0 0 12 1,
    .changeVmas 0 (.split 0 15 true ⟨false, true⟩), .changeVmas 0 (.adjust 0),
    .changeVmas 0 (.close 0 false), .changeVmas 0 (.close 1 false),
    .changeVmas 0 (.mmap 0 10 20 true true), .fetchFaultBufferEntries 0 1,
    .serviceFaultBatch 0 .serviced, .serviceFaultBatch 0 .serviced]

/-- **The split leaves the flag clear**, so that the fault is serviced on the new range. -/
theorem stale_fault_serviced :
    ¬∀ registered gpus ops, HoldsAlong step NoStale (State.initial registered gpus) ops := by
  intro h
  have hall := h (fun _ _ => true) 1 failedSplitRun failedSplitRun (List.prefix_refl _)
  have hserviced : (run step (State.initial (fun _ _ => true) 1) failedSplitRun).serviced =
      [(⟨0, 12, 1, some 1⟩, ⟨10, 19, some 1, 1⟩)] := by decide
  exact absurd (hall (⟨0, 12, 1, some 1⟩, ⟨10, 19, some 1, 1⟩)
    (by rw [hserviced]; exact List.mem_singleton.mpr rfl) 1 rfl) (by decide)

end NvUvm.StaleFaults
