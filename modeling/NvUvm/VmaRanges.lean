import NvUvm.Lib.IntervalEdit
import NvUvm.Lib.Run

/-!
# Managed vmas and their ranges

How the kernel's `open` and `close` callbacks keep the managed ranges in step with the vmas
(`uvm8.c`).  A managed vma has a wrapper, which points back to it, and the managed ranges under it
point to the wrapper.  When the kernel splits a vma it calls `open` for the new part before it
adjusts the old one; a fork or a move calls `open` for a copy that is to be disabled.

Addresses are natural numbers; a range is a closed interval, a vma a half-open one.  A range that is
destroyed by the teardown of its process stays as a zombie, without a wrapper, until it is cleaned
up.  Each range knows which `mmap` created its memory.
-/

namespace NvUvm.VmaRanges

open Lib
open Function (update update_of_ne update_self)

/-! ## The state -/

/-- What the managed ranges hold: the wrapper of their vma, if it still has one, and the `mmap` that
created them. -/
structure Managed where
  vmaWrapper : Option ℕ
  birth : ℕ
  deriving DecidableEq, Repr

/-- `uvm_va_range_t` of type `UVM_VA_RANGE_TYPE_MANAGED`. -/
abbrev VaRange := Interval Managed

/-- `struct vm_area_struct`: `managed` tells `uvm_vm_ops_managed` from `uvm_vm_ops_disabled`.  While
the kernel splits a vma, `adjusted` has the bounds it will give to it. -/
structure Vma where
  mm : ℕ
  vmStart : ℕ
  vmEnd : ℕ
  managed : Bool
  vmPrivateData : Option ℕ
  adjusted : Option (ℕ × ℕ) := none
  deriving DecidableEq, Repr

/-- The vmas of the processes that map the file, the wrappers with the vma each one points to, and
the managed ranges in `va_range_tree`. -/
structure State where
  vmas : ℕ → Option Vma := fun _ => none
  nextVma : ℕ := 0
  wrappers : ℕ → Option ℕ := fun _ => none
  nextWrapper : ℕ := 0
  ranges : List VaRange := []
  nextBirth : ℕ := 0

def State.initial : State := {}

/-- The bounds of a vma once the kernel has adjusted it. -/
def Vma.bounds (v : Vma) : ℕ × ℕ := v.adjusted.getD (v.vmStart, v.vmEnd)

def State.setVma (s : State) (id : ℕ) (v : Vma) : State :=
  { s with vmas := update s.vmas id (some v) }

/-- `uvm_vma_wrapper_destroy`. -/
def State.destroyWrapper (s : State) : Option ℕ → State
  | none => s
  | some w => { s with wrappers := update s.wrappers w none }

/-- `uvm_vma_wrapper_alloc`, when it finds memory. -/
def State.allocWrapper (s : State) (id : ℕ) : State :=
  { s with
      wrappers := update s.wrappers s.nextWrapper (some id)
      nextWrapper := s.nextWrapper + 1 }

/-! ## The callbacks -/

/-- A range that `uvm_for_each_va_range_in_vma` comes to. -/
def Vma.hasRange (v : Vma) (n : VaRange) : Bool := decide (n.start < v.vmEnd ∧ v.vmStart ≤ n.last)

/-- A write to `managed.vma_wrapper`. -/
def setWrapper (w : Option ℕ) (n : VaRange) : VaRange :=
  { n with val := { n.val with vmaWrapper := w } }

def uvmDestroyVmaManaged (s : State) (id : ℕ) (isUvmTeardown : Bool) : State :=
  match s.vmas id with
  | none => s
  | some v =>
    let ranges :=
      if isUvmTeardown then s.ranges.map fun n => if v.hasRange n then setWrapper none n else n
      else s.ranges.filter fun n => !v.hasRange n
    ({ s with ranges }.destroyWrapper v.vmPrivateData).setVma id { v with vmPrivateData := none }

def uvmDisableVma (s : State) (id : ℕ) : State :=
  match s.vmas id with
  | none => s
  | some v =>
    (s.destroyWrapper v.vmPrivateData).setVma id { v with managed := false, vmPrivateData := none }

def uvmVmOpenFailure (s : State) (original new : ℕ) : State :=
  uvmDisableVma (uvmDisableVma (uvmDestroyVmaManaged s original false) original) new

/-- What `uvm_vm_open_managed` meets: memory for a wrapper, and `uvm_va_range_split`. -/
structure OpenOutcome where
  wrapperAllocated : Bool
  rangeSplit : Bool
  deriving DecidableEq, Repr

/-- `uvm_va_range_split` of the range that spans an address. -/
def splitRange (addr : ℕ) (n : VaRange) : List VaRange :=
  if n.start < addr ∧ addr ≤ n.last then [{ n with last := addr - 1 }, { n with start := addr }]
  else [n]

/-- The ranges under a new vma point to its wrapper. -/
def pointRanges (s : State) (id : ℕ) : State :=
  match s.vmas id with
  | none => s
  | some v =>
    { s with
        ranges := s.ranges.map fun n => if v.hasRange n then setWrapper v.vmPrivateData n else n }

/-- `uvm_vm_open_managed` of a split, once the new vma is known to be one. -/
def openSplit (s : State) (original id newEnd : ℕ) (o : OpenOutcome) : State :=
  match s.vmas id with
  | none => s
  | some v =>
    if !o.wrapperAllocated then uvmVmOpenFailure s original id
    else
      let s' := (s.allocWrapper id).setVma id { v with vmPrivateData := some s.nextWrapper }
      match lookup s'.ranges newEnd with
      | none => s'
      | some n =>
        if n.last = newEnd then pointRanges s' id
        else if !o.rangeSplit then uvmVmOpenFailure s' original id
        else pointRanges { s' with ranges := s'.ranges.flatMap (splitRange (newEnd + 1)) } id

def uvmVmOpenManaged (s : State) (id : ℕ) (o : OpenOutcome) : State :=
  match s.vmas id with
  | none => s
  | some v =>
    match v.vmPrivateData.bind s.wrappers with
    | none => s
    | some original =>
      match s.vmas original with
      | none => s
      | some orig =>
        let s := s.setVma id { v with vmPrivateData := none }
        if v.mm ≠ orig.mm ∨ (v.vmStart ≠ orig.vmStart ∧ v.vmEnd ≠ orig.vmEnd) then
          uvmDisableVma s id
        else
          openSplit s original id (if v.vmStart = orig.vmStart then v.vmEnd - 1 else v.vmStart - 1) o

/-- `uvm_va_range_create_mmap`, when it finds memory. -/
def uvmVaRangeCreateMmap (s : State) (v : Vma) (w : ℕ) : Option State :=
  let n : VaRange := ⟨v.vmStart, v.vmEnd - 1, some w, s.nextBirth⟩
  if s.ranges.any fun m => decide (m.start ≤ n.last ∧ n.start ≤ m.last) then none
  else some { s with ranges := insertAt n s.ranges, nextBirth := s.nextBirth + 1 }

/-! ## What the kernel does -/

/-- A call of `mmap`, a step of the kernel that copies, adjusts or closes a vma, a policy call that
splits a range, or `uvm_api_clean_up_zombie_resources`. -/
inductive Op where
  /-- `uvm_mmap`, with the memory for the wrapper and for the range. -/
  | mmap (mm vmStart vmEnd : ℕ) (wrapperAllocated rangeAllocated : Bool)
  /-- The first half of a split at an address: the new vma is the lower part or the upper one. -/
  | split (id addr : ℕ) (newBelow : Bool) (o : OpenOutcome)
  /-- The second half: the old vma becomes the other part. -/
  | adjust (id : ℕ)
  | fork (id mm : ℕ)
  /-- The copy of a part of a vma to other addresses. -/
  | move (id vmStart vmEnd : ℕ)
  /-- `close`, by an unmap or by the exit of the process. -/
  | close (id : ℕ) (isUvmTeardown : Bool)
  | policySplit (addr : ℕ) (rangeSplit : Bool)
  | cleanUpZombieResources
  deriving DecidableEq, Repr

/-- The kernel makes a copy of a vma and calls `open` for it. -/
def copyVma (s : State) (new : Vma) (o : OpenOutcome) : State :=
  let s' := { s with nextVma := s.nextVma + 1 }.setVma s.nextVma new
  if new.managed then uvmVmOpenManaged s' s.nextVma o else s'

/-- The kernel will adjust a vma that it has split. -/
def State.setAdjusted (s : State) (id : ℕ) (bounds : ℕ × ℕ) : State :=
  match s.vmas id with
  | none => s
  | some v => s.setVma id { v with adjusted := some bounds }

def Vma.part (v : Vma) (addr : ℕ) (newBelow : Bool) : Vma :=
  if newBelow then { v with vmEnd := addr } else { v with vmStart := addr }

def Vma.rest (v : Vma) (addr : ℕ) (newBelow : Bool) : ℕ × ℕ :=
  if newBelow then (addr, v.vmEnd) else (v.vmStart, addr)

def uvmMmap (s : State) (v : Vma) (wrapperAllocated rangeAllocated : Bool) : State :=
  if !wrapperAllocated then s
  else
    let s' := s.allocWrapper s.nextVma
    match if rangeAllocated then uvmVaRangeCreateMmap s' v s.nextWrapper else none with
    | none => s'.destroyWrapper (some s.nextWrapper)
    | some s' =>
      { s' with nextVma := s.nextVma + 1 }.setVma s.nextVma
        { v with vmPrivateData := some s.nextWrapper }

/-- One step.  The kernel holds `mmap_sem` from the `open` of a split until it has adjusted the old
vma, so that it does nothing else with this vma in between, and a move goes to addresses that are
not mapped. -/
def step (s : State) : Op → State
  | .mmap mm vmStart vmEnd wrapperAllocated rangeAllocated =>
    if vmStart < vmEnd then
      uvmMmap s ⟨mm, vmStart, vmEnd, true, none, none⟩ wrapperAllocated rangeAllocated
    else s
  | .split id addr newBelow o =>
    match s.vmas id with
    | none => s
    | some v =>
      if v.adjusted = none ∧ v.vmStart < addr ∧ addr < v.vmEnd then
        (copyVma s (v.part addr newBelow) o).setAdjusted id (v.rest addr newBelow)
      else s
  | .adjust id =>
    match s.vmas id with
    | none => s
    | some v =>
      s.setVma id { v with vmStart := v.bounds.1, vmEnd := v.bounds.2, adjusted := none }
  | .fork id mm =>
    match s.vmas id with
    | none => s
    | some v =>
      if v.adjusted = none ∧ mm ≠ v.mm then copyVma s { v with mm } ⟨true, true⟩ else s
  | .move id vmStart vmEnd =>
    match s.vmas id with
    | none => s
    | some v =>
      if v.adjusted = none ∧ vmStart < vmEnd ∧ (vmEnd ≤ v.vmStart ∨ v.vmEnd ≤ vmStart) then
        copyVma s { v with vmStart, vmEnd } ⟨true, true⟩
      else s
  | .close id isUvmTeardown =>
    match s.vmas id with
    | none => s
    | some v =>
      if v.adjusted = none then
        let s := if v.managed then uvmDestroyVmaManaged s id isUvmTeardown else s
        { s with vmas := update s.vmas id none }
      else s
  | .policySplit addr rangeSplit =>
    if rangeSplit then { s with ranges := s.ranges.flatMap (splitRange addr) } else s
  | .cleanUpZombieResources =>
    { s with ranges := s.ranges.filter fun n => n.val.vmaWrapper.isSome }

/-! ## The invariant -/

/-- The vmas, the wrappers and the ranges fit together. -/
structure Inv (s : State) : Prop where
  ordered : Ordered s.ranges
  vma : ∀ {id v}, s.vmas id = some v → id < s.nextVma ∧ v.bounds.1 < v.bounds.2 ∧
    (v.managed = false → v.vmPrivateData = none)
  managed : ∀ {id v}, s.vmas id = some v → v.managed = true →
    ∃ w, v.vmPrivateData = some w ∧ s.wrappers w = some id
  wrapper : ∀ {w id}, s.wrappers w = some id → w < s.nextWrapper ∧
    ∃ v, s.vmas id = some v ∧ v.managed = true ∧ v.vmPrivateData = some w
  /-- Every address of a managed vma is in a range of the vma. -/
  covers : ∀ {w id v}, s.wrappers w = some id → s.vmas id = some v → ∀ a, v.bounds.1 ≤ a →
    a < v.bounds.2 → ∃ n ∈ s.ranges, n.Contains a ∧ n.val.vmaWrapper = some w
  /-- Every range with a wrapper is inside of the vma of the wrapper. -/
  inside : ∀ {n w}, n ∈ s.ranges → n.val.vmaWrapper = some w →
    ∃ id v, s.wrappers w = some id ∧ s.vmas id = some v ∧ v.bounds.1 ≤ n.start ∧
      n.last < v.bounds.2

theorem initial_inv : Inv State.initial where
  ordered := ⟨nofun, .nil⟩
  vma h := by cases h
  managed h := by cases h
  wrapper h := by cases h
  covers h := by cases h
  inside h := by cases h

variable {s : State} {id w addr : ℕ} {v : Vma} {n m : VaRange}

theorem Vma.bounds_of_none (h : v.adjusted = none) : v.bounds = (v.vmStart, v.vmEnd) := by
  simp [Vma.bounds, h]

theorem Inv.inside_of (h : Inv s) (hw : s.wrappers w = some id) (hv : s.vmas id = some v)
    (hn : n ∈ s.ranges) (hwrap : n.val.vmaWrapper = some w) :
    v.bounds.1 ≤ n.start ∧ n.last < v.bounds.2 := by
  obtain ⟨id', v', hw', hv', hinside⟩ := h.inside hn hwrap
  rw [hw] at hw'
  obtain rfl := Option.some.inj hw'
  rw [hv] at hv'
  obtain rfl := Option.some.inj hv'
  exact hinside

theorem Inv.hasRange_iff (h : Inv s) (hw : s.wrappers w = some id) (hv : s.vmas id = some v)
    (hadj : v.adjusted = none) (hn : n ∈ s.ranges) :
    v.hasRange n = true ↔ n.val.vmaWrapper = some w := by
  have hbounds := Vma.bounds_of_none hadj
  have hle := h.ordered.1 n hn
  have hcov := h.covers hw hv
  rw [hbounds] at hcov
  have hlt := (h.vma hv).2.1
  rw [hbounds] at hlt
  rw [Vma.hasRange, decide_eq_true_eq]
  constructor
  · rintro ⟨hstart, hlast⟩
    -- an address that the range and the vma share
    obtain ⟨m, hm, hcont, hwrap⟩ :=
      hcov (max n.start v.vmStart) (by omega) (by omega)
    have hshared : n.Contains (max n.start v.vmStart) := ⟨by omega, by omega⟩
    rw [h.ordered.unique hn hm hshared hcont, hwrap]
  · intro hwrap
    obtain ⟨hstart, hlast⟩ := h.inside_of hw hv hn hwrap
    rw [hbounds] at hstart hlast
    omega

theorem Inv.wrapper_unique (h : Inv s) {w' : ℕ} (hw : s.wrappers w = some id)
    (hw' : s.wrappers w' = some id) : w = w' := by
  obtain ⟨-, v₁, hv₁, -, hdata₁⟩ := h.wrapper hw
  obtain ⟨-, v₂, hv₂, -, hdata₂⟩ := h.wrapper hw'
  rw [hv₁] at hv₂
  obtain rfl := Option.some.inj hv₂
  rw [hdata₁] at hdata₂
  exact Option.some.inj hdata₂

/-! ## Splitting a range -/

theorem mem_splitRange (hle : n.start ≤ n.last) (hm : m ∈ splitRange addr n) :
    m.val = n.val ∧ n.start ≤ m.start ∧ m.last ≤ n.last ∧ m.start ≤ m.last ∧
      ¬(m.start < addr ∧ addr ≤ m.last) := by
  unfold splitRange at hm
  split at hm
  · rcases List.mem_cons.mp hm with rfl | hm
    · refine ⟨rfl, ?_, ?_, ?_, ?_⟩ <;> dsimp only <;> omega
    · obtain rfl := List.mem_singleton.mp hm
      refine ⟨rfl, ?_, ?_, ?_, ?_⟩ <;> dsimp only <;> omega
  · next hout =>
    obtain rfl := List.mem_singleton.mp hm
    exact ⟨rfl, le_refl _, le_refl _, hle, hout⟩

theorem contains_splitRange {a : ℕ} (h : n.Contains a) : ∃ m ∈ splitRange addr n, m.Contains a := by
  unfold splitRange
  obtain ⟨hstart, hlast⟩ := h
  split
  · by_cases ha : a < addr
    · exact ⟨_, List.mem_cons_self, hstart, by dsimp only; omega⟩
    · exact ⟨_, List.mem_cons_of_mem _ (List.mem_singleton.mpr rfl), by dsimp only; omega, hlast⟩
  · exact ⟨n, List.mem_singleton.mpr rfl, hstart, hlast⟩

theorem ordered_splitRange {l : List VaRange} (h : Ordered l) :
    Ordered (l.flatMap (splitRange addr)) := by
  refine ordered_flatMap h fun n hn => ⟨⟨fun m hm => ?_, ?_⟩, fun m hm => ?_⟩
  · exact (mem_splitRange (h.1 n hn) hm).2.2.2.1
  · unfold splitRange
    split
    · simp only [List.pairwise_cons, List.mem_singleton, forall_eq, List.not_mem_nil,
        false_implies, implies_true, List.Pairwise.nil, and_true]
      omega
    · exact List.pairwise_singleton _ _
  · obtain ⟨-, hstart, hlast, -⟩ := mem_splitRange (h.1 n hn) hm
    exact ⟨hstart, hlast⟩

theorem Inv.splitRange (h : Inv s) (addr : ℕ) :
    Inv { s with ranges := s.ranges.flatMap (splitRange addr) } where
  ordered := ordered_splitRange h.ordered
  vma := h.vma
  managed := h.managed
  wrapper := h.wrapper
  covers hw hv a hlo hhi := by
    obtain ⟨n, hn, hcont, hwrap⟩ := h.covers hw hv a hlo hhi
    obtain ⟨m, hm, hcontains'⟩ := contains_splitRange hcont
    have hval := (mem_splitRange (h.ordered.1 n hn) hm).1
    exact ⟨m, List.mem_flatMap.mpr ⟨n, hn, hm⟩, hcontains', by rw [hval, hwrap]⟩
  inside hm hwrap := by
    obtain ⟨n, hn, hm⟩ := List.mem_flatMap.mp hm
    obtain ⟨hval, hstart, hlast, -⟩ := mem_splitRange (h.ordered.1 n hn) hm
    rw [hval] at hwrap
    obtain ⟨id, v, hw, hv, hlo, hhi⟩ := h.inside hn hwrap
    exact ⟨id, v, hw, hv, by omega, by omega⟩

/-! ## Vmas that come and go -/

/-- A vma of no use to the ranges: none, or one that is disabled. -/
def Idle (r : Option Vma) : Prop :=
  ∀ v, r = some v → v.managed = false ∧ v.vmPrivateData = none ∧ v.bounds.1 < v.bounds.2

theorem idle_none : Idle none := nofun

theorem idle_disabled {v' : Vma} (hlt : v.bounds.1 < v.bounds.2) (hbounds : v'.bounds = v.bounds)
    (hman : v'.managed = false) (hdata : v'.vmPrivateData = none) : Idle (some v') := by
  intro v'' heq
  obtain rfl := Option.some.inj heq
  exact ⟨hman, hdata, by rw [hbounds]; exact hlt⟩

theorem Inv.release (h : Inv s) (hw : s.wrappers w = some id) (hv : s.vmas id = some v)
    {r : Option Vma} (hr : Idle r) {ranges : List VaRange} (hord : Ordered ranges)
    (hkeep : ∀ n ∈ s.ranges, n.val.vmaWrapper ≠ some w → n ∈ ranges)
    (hold : ∀ n ∈ ranges, ∀ w', n.val.vmaWrapper = some w' → n ∈ s.ranges ∧ w' ≠ w) :
    Inv { s with
      ranges
      wrappers := update s.wrappers w none
      vmas := update s.vmas id r } := by
  have hother : ∀ {w' id'}, update s.wrappers w none w' = some id' →
      w' ≠ w ∧ s.wrappers w' = some id' ∧ id' ≠ id := by
    intro w' id' hw'
    have hne : w' ≠ w := by
      rintro rfl
      rw [update_self] at hw'
      cases hw'
    rw [update_of_ne hne] at hw'
    refine ⟨hne, hw', ?_⟩
    rintro rfl
    exact hne (h.wrapper_unique hw' hw)
  refine ⟨hord, fun {id' v'} hv' => ?_, fun {id' v'} hv' hman => ?_,
    fun {w' id'} hw' => ?_, fun {w' id' v'} hw' hv' a hlo hhi => ?_, fun {n w'} hn hwrap => ?_⟩
  all_goals dsimp only at *
  · by_cases heq : id' = id
    · subst heq
      rw [update_self] at hv'
      obtain ⟨-, hdata, hlt⟩ := hr v' hv'
      exact ⟨(h.vma hv).1, hlt, fun _ => hdata⟩
    · rw [update_of_ne heq] at hv'
      exact h.vma hv'
  · by_cases heq : id' = id
    · subst heq
      rw [update_self] at hv'
      rw [(hr v' hv').1] at hman
      cases hman
    · rw [update_of_ne heq] at hv'
      obtain ⟨w', hdata, hw'⟩ := h.managed hv' hman
      have hne : w' ≠ w := by
        rintro rfl
        rw [hw] at hw'
        exact heq (Option.some.inj hw').symm
      exact ⟨w', hdata, by rw [update_of_ne hne, hw']⟩
  · obtain ⟨-, hw', hne⟩ := hother hw'
    obtain ⟨hlt, v', hv', hman, hdata⟩ := h.wrapper hw'
    exact ⟨hlt, v', by rw [update_of_ne hne, hv'], hman, hdata⟩
  · obtain ⟨hne, hw', hne'⟩ := hother hw'
    rw [update_of_ne hne'] at hv'
    obtain ⟨n, hn, hcont, hwrap⟩ := h.covers hw' hv' a hlo hhi
    refine ⟨n, hkeep n hn ?_, hcont, hwrap⟩
    rw [hwrap]
    exact fun heq => hne (Option.some.inj heq)
  · obtain ⟨hn, hne⟩ := hold n hn w' hwrap
    obtain ⟨id', v', hw', hv', hlo, hhi⟩ := h.inside hn hwrap
    have hne' : id' ≠ id := by
      rintro rfl
      exact (hother (by rw [update_of_ne hne, hw'])).2.2 rfl
    exact ⟨id', v', by rw [update_of_ne hne, hw'],
      by rw [update_of_ne hne', hv'], hlo, hhi⟩

theorem Inv.idle (h : Inv s) (hidle : Idle (s.vmas id)) {r : Option Vma} (hr : Idle r)
    {next : ℕ} (hnext : s.nextVma ≤ next) (hid : r ≠ none → id < next) :
    Inv { s with vmas := update s.vmas id r, nextVma := next } := by
  have hother : ∀ {w' id'}, s.wrappers w' = some id' → id' ≠ id := by
    rintro w' id' hw' rfl
    obtain ⟨-, v', hv', hman, -⟩ := h.wrapper hw'
    rw [(hidle v' hv').1] at hman
    cases hman
  refine ⟨h.ordered, fun {id' v'} hv' => ?_, fun {id' v'} hv' hman => ?_,
    fun {w' id'} hw' => ?_, fun {w' id' v'} hw' hv' a hlo hhi => ?_, fun {n w'} hn hwrap => ?_⟩
  all_goals dsimp only at *
  · by_cases heq : id' = id
    · subst heq
      rw [update_self] at hv'
      obtain ⟨-, hdata, hlt⟩ := hr v' hv'
      exact ⟨hid (by rw [hv']; simp), hlt, fun _ => hdata⟩
    · rw [update_of_ne heq] at hv'
      obtain ⟨hlt, hrest⟩ := h.vma hv'
      exact ⟨lt_of_lt_of_le hlt hnext, hrest⟩
  · by_cases heq : id' = id
    · subst heq
      rw [update_self] at hv'
      rw [(hr v' hv').1] at hman
      cases hman
    · rw [update_of_ne heq] at hv'
      exact h.managed hv' hman
  · obtain ⟨hlt, v', hv', hrest⟩ := h.wrapper hw'
    exact ⟨hlt, v', by rw [update_of_ne (hother hw'), hv'], hrest⟩
  · rw [update_of_ne (hother hw')] at hv'
    exact h.covers hw' hv' a hlo hhi
  · obtain ⟨id', v', hw', hv', hrest⟩ := h.inside hn hwrap
    exact ⟨id', v', hw', by rw [update_of_ne (hother hw'), hv'], hrest⟩

theorem Inv.adjust (h : Inv s) (hv : s.vmas id = some v) {v' : Vma} (hbounds : v'.bounds = v.bounds)
    (hman : v'.managed = v.managed) (hdata : v'.vmPrivateData = v.vmPrivateData) :
    Inv (s.setVma id v') := by
  have hvmas : ∀ {id' u}, (s.setVma id v').vmas id' = some u → ∃ u', s.vmas id' = some u' ∧
      u.bounds = u'.bounds ∧ u.managed = u'.managed ∧ u.vmPrivateData = u'.vmPrivateData := by
    intro id' u hu
    by_cases heq : id' = id
    · subst heq
      obtain rfl := Option.some.inj ((update_self id' _ _).symm.trans hu)
      exact ⟨v, hv, hbounds, hman, hdata⟩
    · exact ⟨u, (update_of_ne heq _ _).symm.trans hu, rfl, rfl, rfl⟩
  have hback : ∀ {id' u'}, s.vmas id' = some u' → ∃ u, (s.setVma id v').vmas id' = some u ∧
      u.bounds = u'.bounds ∧ u.managed = u'.managed ∧ u.vmPrivateData = u'.vmPrivateData := by
    intro id' u' hu'
    by_cases heq : id' = id
    · subst heq
      rw [hv] at hu'
      obtain rfl := Option.some.inj hu'
      exact ⟨v', update_self _ _ _, hbounds, hman, hdata⟩
    · exact ⟨u', (update_of_ne heq _ _).trans hu', rfl, rfl, rfl⟩
  refine ⟨h.ordered, fun hu => ?_, fun hu hon => ?_, fun hw' => ?_, fun hw' hu a ha ha' => ?_,
    fun hn hwrap => ?_⟩
  · obtain ⟨u', hu', hb, hm, hd⟩ := hvmas hu
    rw [hb, hm, hd]
    exact h.vma hu'
  · obtain ⟨u', hu', -, hm, hd⟩ := hvmas hu
    rw [hm] at hon
    rw [hd]
    exact h.managed hu' hon
  · obtain ⟨hlt, u', hu', hon, hd'⟩ := h.wrapper hw'
    obtain ⟨u, hu, -, hm, hd⟩ := hback hu'
    exact ⟨hlt, u, hu, hm.trans hon, hd.trans hd'⟩
  · obtain ⟨u', hu', hb, -, -⟩ := hvmas hu
    rw [hb] at ha ha'
    exact h.covers hw' hu' a ha ha'
  · obtain ⟨id', u', hw', hu', hlo, hhi⟩ := h.inside hn hwrap
    obtain ⟨u, hu, hb, -, -⟩ := hback hu'
    exact ⟨id', u, hw', hu, by rw [hb]; exact hlo, by rw [hb]; exact hhi⟩

theorem Inv.skipWrappers (h : Inv s) {next : ℕ} (hnext : s.nextWrapper ≤ next) :
    Inv { s with nextWrapper := next } where
  ordered := h.ordered
  vma := h.vma
  managed := h.managed
  wrapper hw := ⟨Nat.lt_of_lt_of_le (h.wrapper hw).1 hnext, (h.wrapper hw).2⟩
  covers := h.covers
  inside := h.inside

/-! ## A new vma -/

theorem Inv.vmas_next (h : Inv s) : s.vmas s.nextVma = none := by
  cases hv : s.vmas s.nextVma with
  | none => rfl
  | some v => exact absurd (h.vma hv).1 (lt_irrefl _)

theorem Inv.wrappers_next (h : Inv s) : s.wrappers s.nextWrapper = none := by
  cases hw : s.wrappers s.nextWrapper with
  | none => rfl
  | some id => exact absurd (h.wrapper hw).1 (lt_irrefl _)

theorem Inv.wrappers_new (h : Inv s) {w' id' : ℕ}
    (hw' : update s.wrappers s.nextWrapper (some s.nextVma) w' = some id') :
    (w' = s.nextWrapper ∧ id' = s.nextVma) ∨
      (w' ≠ s.nextWrapper ∧ s.wrappers w' = some id' ∧ id' ≠ s.nextVma) := by
  by_cases heq : w' = s.nextWrapper
  · subst heq
    rw [update_self] at hw'
    exact .inl ⟨rfl, (Option.some.inj hw').symm⟩
  · rw [update_of_ne heq] at hw'
    obtain ⟨-, v', hv', -⟩ := h.wrapper hw'
    exact .inr ⟨heq, hw', ne_of_lt (h.vma hv').1⟩

theorem Inv.mapped (h : Inv s) (hlt : v.vmStart < v.vmEnd) (hadj : v.adjusted = none)
    (hman : v.managed = true) (hdata : v.vmPrivateData = some s.nextWrapper)
    (hfree : ∀ m ∈ s.ranges, ¬(m.start ≤ v.vmEnd - 1 ∧ v.vmStart ≤ m.last)) (birth next : ℕ) :
    Inv { s with
      vmas := update s.vmas s.nextVma (some v)
      nextVma := s.nextVma + 1
      wrappers := update s.wrappers s.nextWrapper (some s.nextVma)
      nextWrapper := s.nextWrapper + 1
      ranges := insertAt ⟨v.vmStart, v.vmEnd - 1, some s.nextWrapper, birth⟩ s.ranges
      nextBirth := next } := by
  have hbounds := Vma.bounds_of_none hadj
  refine ⟨ordered_insertAt h.ordered (Nat.le_sub_one_of_lt hlt) fun m hm => ?_,
    fun {id' v'} hv' => ?_, fun {id' v'} hv' hon => ?_, fun {w' id'} hw' => ?_,
    fun {w' id' v'} hw' hv' a ha ha' => ?_, fun {n w'} hn hwrap => ?_⟩
  all_goals dsimp only at *
  · have hout := hfree m hm
    omega
  · by_cases heq : id' = s.nextVma
    · subst heq
      rw [update_self] at hv'
      obtain rfl := Option.some.inj hv'
      refine ⟨Nat.lt_succ_self _, by rw [hbounds]; exact hlt, fun hoff => ?_⟩
      rw [hman] at hoff
      cases hoff
    · rw [update_of_ne heq] at hv'
      obtain ⟨hid, hrest⟩ := h.vma hv'
      exact ⟨Nat.lt_succ_of_lt hid, hrest⟩
  · by_cases heq : id' = s.nextVma
    · subst heq
      rw [update_self] at hv'
      obtain rfl := Option.some.inj hv'
      exact ⟨s.nextWrapper, hdata, update_self _ _ _⟩
    · rw [update_of_ne heq] at hv'
      obtain ⟨w', hdata', hw'⟩ := h.managed hv' hon
      exact ⟨w', hdata', (update_of_ne (ne_of_lt (h.wrapper hw').1) _ _).trans hw'⟩
  · rcases h.wrappers_new hw' with ⟨rfl, rfl⟩ | ⟨-, hw', hne⟩
    · exact ⟨Nat.lt_succ_self _, v, update_self _ _ _, hman, hdata⟩
    · obtain ⟨hw'lt, v', hv', hrest⟩ := h.wrapper hw'
      exact ⟨Nat.lt_succ_of_lt hw'lt, v', (update_of_ne hne _ _).trans hv', hrest⟩
  · rcases h.wrappers_new hw' with ⟨rfl, rfl⟩ | ⟨-, hw', hne⟩
    · rw [update_self] at hv'
      obtain rfl := Option.some.inj hv'
      rw [hbounds] at ha ha'
      exact ⟨_, mem_insertAt.mpr (.inl rfl), ⟨ha, Nat.le_sub_one_of_lt ha'⟩, rfl⟩
    · rw [update_of_ne hne] at hv'
      obtain ⟨n, hn, hrest⟩ := h.covers hw' hv' a ha ha'
      exact ⟨n, mem_insertAt.mpr (.inr hn), hrest⟩
  · rcases mem_insertAt.mp hn with rfl | hn
    · obtain rfl := Option.some.inj hwrap
      refine ⟨s.nextVma, v, update_self _ _ _, update_self _ _ _, ?_⟩
      rw [hbounds]
      exact ⟨Nat.le_refl _, Nat.sub_one_lt_of_lt hlt⟩
    · obtain ⟨id', v', hw', hv', hrest⟩ := h.inside hn hwrap
      exact ⟨id', v', (update_of_ne (ne_of_lt (h.wrapper hw').1) _ _).trans hw',
        (update_of_ne (ne_of_lt (h.vma hv').1) _ _).trans hv', hrest⟩

/-! ## A split of a vma -/

/-- The state after the first half of a split that succeeds, once the ranges are split. -/
def splitState (s : State) (id : ℕ) (v : Vma) (addr : ℕ) (newBelow : Bool) : State :=
  { s with
      vmas := update
        (update s.vmas s.nextVma
          (some { v.part addr newBelow with vmPrivateData := some s.nextWrapper })) id
        (some { v with adjusted := some (v.rest addr newBelow) })
      nextVma := s.nextVma + 1
      wrappers := update s.wrappers s.nextWrapper (some s.nextVma)
      nextWrapper := s.nextWrapper + 1
      ranges := s.ranges.map fun n =>
        if (v.part addr newBelow).hasRange n then setWrapper (some s.nextWrapper) n else n }

theorem Inv.wrapper_of_part (h : Inv s) (hw : s.wrappers w = some id) (hv : s.vmas id = some v)
    (hadj : v.adjusted = none) (hlo : v.vmStart < addr) (hhi : addr < v.vmEnd) {newBelow : Bool}
    (hn : n ∈ s.ranges) (hhas : (v.part addr newBelow).hasRange n = true) :
    n.val.vmaWrapper = some w := by
  refine (h.hasRange_iff hw hv hadj hn).mp ?_
  rw [Vma.hasRange, decide_eq_true_eq] at hhas ⊢
  cases newBelow <;> simp only [Vma.part, if_true, Bool.false_eq_true, if_false] at hhas <;> omega

theorem Inv.sides (h : Inv s) (hw : s.wrappers w = some id) (hv : s.vmas id = some v)
    (hadj : v.adjusted = none) (newBelow : Bool) (hn : n ∈ s.ranges)
    (hout : ¬(n.start < addr ∧ addr ≤ n.last)) (hwrap : n.val.vmaWrapper = some w) :
    ((v.part addr newBelow).hasRange n = true ∧ (v.part addr newBelow).vmStart ≤ n.start ∧
      n.last < (v.part addr newBelow).vmEnd) ∨
    ((v.part addr newBelow).hasRange n = false ∧ (v.rest addr newBelow).1 ≤ n.start ∧
      n.last < (v.rest addr newBelow).2) := by
  have hle := h.ordered.1 n hn
  obtain ⟨hstart, hlast⟩ := h.inside_of hw hv hn hwrap
  rw [Vma.bounds_of_none hadj] at hstart hlast
  rw [Vma.hasRange, decide_eq_true_eq, decide_eq_false_iff_not]
  cases newBelow <;> simp only [Vma.part, Vma.rest, if_true, Bool.false_eq_true, if_false] <;> omega

theorem Inv.split (h : Inv s) (hw : s.wrappers w = some id) (hv : s.vmas id = some v)
    (hadj : v.adjusted = none) (hlo : v.vmStart < addr) (hhi : addr < v.vmEnd) (newBelow : Bool)
    (hcross : ∀ n ∈ s.ranges, ¬(n.start < addr ∧ addr ≤ n.last)) :
    Inv (splitState s id v addr newBelow) := by
  have hbounds := Vma.bounds_of_none hadj
  obtain ⟨-, v', hv', hman, hdata⟩ := h.wrapper hw
  rw [hv] at hv'
  obtain rfl := Option.some.inj hv'
  have hnew : id ≠ s.nextVma := ne_of_lt (h.vma hv).1
  have hwnew : w ≠ s.nextWrapper := ne_of_lt (h.wrapper hw).1
  have hpartAdj : (v.part addr newBelow).adjusted = none := by
    cases newBelow <;> exact hadj
  have hpart : ∀ n ∈ s.ranges, (v.part addr newBelow).hasRange n = true →
      n.val.vmaWrapper = some w :=
    fun n hn hhas => h.wrapper_of_part hw hv hadj hlo hhi hn hhas
  have hg : ∀ n : VaRange,
      (if (v.part addr newBelow).hasRange n then setWrapper (some s.nextWrapper) n else n).start =
        n.start ∧
      (if (v.part addr newBelow).hasRange n then setWrapper (some s.nextWrapper) n else n).last =
        n.last := by
    intro n
    split <;> exact ⟨rfl, rfl⟩
  have hsame : ∀ {w'}, s.wrappers w' = some id → w' = w := fun hw' => h.wrapper_unique hw' hw
  have hpartBounds : ∀ d, Vma.bounds { v.part addr newBelow with vmPrivateData := d } =
      ((v.part addr newBelow).vmStart, (v.part addr newBelow).vmEnd) := fun d =>
    Vma.bounds_of_none hpartAdj
  have hpartManaged : (v.part addr newBelow).managed = true := by
    cases newBelow <;> exact hman
  have hsides := fun n hn => h.sides hw hv hadj newBelow (n := n) hn (hcross n hn)
  have hvmas : ∀ {id' v'}, (splitState s id v addr newBelow).vmas id' = some v' →
      (id' = id ∧ v' = { v with adjusted := some (v.rest addr newBelow) }) ∨
      (id' = s.nextVma ∧
        v' = { v.part addr newBelow with vmPrivateData := some s.nextWrapper }) ∨
      (id' ≠ id ∧ id' ≠ s.nextVma ∧ s.vmas id' = some v') := by
    intro id' v' hv'
    dsimp only [splitState] at hv'
    by_cases hid : id' = id
    · subst hid
      rw [update_self] at hv'
      exact .inl ⟨rfl, (Option.some.inj hv').symm⟩
    · rw [update_of_ne hid] at hv'
      by_cases hid' : id' = s.nextVma
      · subst hid'
        rw [update_self] at hv'
        exact .inr (.inl ⟨rfl, (Option.some.inj hv').symm⟩)
      · rw [update_of_ne hid'] at hv'
        exact .inr (.inr ⟨hid, hid', hv'⟩)
  refine ⟨ordered_map hg h.ordered, fun {id' v'} hv' => ?_, fun {id' v'} hv' hmanaged' => ?_,
    fun {w' id'} hw' => ?_, fun {w' id' v'} hw' hv' a ha ha' => ?_, fun {n' w'} hn' hwrap => ?_⟩
  · rcases hvmas hv' with ⟨rfl, rfl⟩ | ⟨rfl, rfl⟩ | ⟨-, -, hv'⟩
    · refine ⟨Nat.lt_succ_of_lt (h.vma hv).1, ?_, fun hoff => ?_⟩
      · change (v.rest addr newBelow).1 < (v.rest addr newBelow).2
        cases newBelow
        · exact hlo
        · exact hhi
      · rw [hman] at hoff
        cases hoff
    · refine ⟨Nat.lt_succ_self _, ?_, fun hoff => ?_⟩
      · rw [hpartBounds]
        cases newBelow
        · exact hhi
        · exact hlo
      · rw [hpartManaged] at hoff
        cases hoff
    · obtain ⟨hlt, hrest⟩ := h.vma hv'
      exact ⟨Nat.lt_succ_of_lt hlt, hrest⟩
  · rcases hvmas hv' with ⟨rfl, rfl⟩ | ⟨rfl, rfl⟩ | ⟨-, -, hv'⟩
    · exact ⟨w, hdata, (update_of_ne hwnew _ _).trans hw⟩
    · exact ⟨s.nextWrapper, rfl, update_self _ _ _⟩
    · obtain ⟨w', hdata', hw'⟩ := h.managed hv' hmanaged'
      exact ⟨w', hdata', (update_of_ne (ne_of_lt (h.wrapper hw').1) _ _).trans hw'⟩
  · rcases h.wrappers_new hw' with ⟨rfl, rfl⟩ | ⟨-, hw', hne⟩
    · exact ⟨Nat.lt_succ_self _, _,
        (update_of_ne hnew.symm _ _).trans (update_self _ _ _), hpartManaged, rfl⟩
    · obtain ⟨hlt, v', hv', hrest⟩ := h.wrapper hw'
      by_cases hid : id' = id
      · subst hid
        rw [hv] at hv'
        obtain rfl := Option.some.inj hv'
        exact ⟨Nat.lt_succ_of_lt hlt, _, update_self _ _ _, hrest⟩
      · exact ⟨Nat.lt_succ_of_lt hlt, v',
          (update_of_ne hid _ _).trans ((update_of_ne hne _ _).trans hv'), hrest⟩
  · rcases h.wrappers_new hw' with ⟨rfl, rfl⟩ | ⟨-, hwold, hne⟩
    · -- an address of the new part was one of the old vma
      rcases hvmas hv' with ⟨hid, -⟩ | ⟨-, rfl⟩ | ⟨-, hid, -⟩
      · exact absurd hid.symm hnew
      · rw [hpartBounds] at ha ha'
        dsimp only at ha ha'
        obtain ⟨hva, hva'⟩ : v.bounds.1 ≤ a ∧ a < v.bounds.2 := by
          rw [hbounds]
          cases newBelow <;>
            simp only [Vma.part, if_true, Bool.false_eq_true, if_false] at ha ha' ⊢ <;> omega
        obtain ⟨n, hn, ⟨hstart, hlast⟩, -⟩ := h.covers hw hv a hva hva'
        have hhas : (v.part addr newBelow).hasRange n = true := by
          rw [Vma.hasRange, decide_eq_true_eq]
          omega
        refine ⟨_, List.mem_map.mpr ⟨n, hn, rfl⟩, ?_, ?_⟩ <;> rw [if_pos hhas]
        · exact ⟨hstart, hlast⟩
        · rfl
      · exact absurd rfl hid
    · have hkept : ∃ n ∈ s.ranges, n.Contains a ∧ n.val.vmaWrapper = some w' ∧
          (v.part addr newBelow).hasRange n = false := by
        rcases hvmas hv' with ⟨rfl, rfl⟩ | ⟨hid, -⟩ | ⟨hid, -, hv'⟩
        · -- what is left of the old vma
          obtain rfl := hsame hwold
          change (v.rest addr newBelow).1 ≤ a at ha
          change a < (v.rest addr newBelow).2 at ha'
          obtain ⟨hva, hva'⟩ : v.bounds.1 ≤ a ∧ a < v.bounds.2 := by
            rw [hbounds]
            cases newBelow <;>
              simp only [Vma.rest, if_true, Bool.false_eq_true, if_false] at ha ha' ⊢ <;> omega
          obtain ⟨n, hn, hcont, hwrap⟩ := h.covers hw hv a hva hva'
          refine ⟨n, hn, hcont, hwrap, ?_⟩
          rcases hsides n hn hwrap with ⟨-, hlow, hhigh⟩ | ⟨hhas, -, -⟩
          · obtain ⟨hstart, hlast⟩ := hcont
            cases newBelow <;> simp only [Vma.part, Vma.rest, if_true, Bool.false_eq_true,
              if_false] at ha ha' hlow hhigh <;> omega
          · exact hhas
        · exact absurd hid hne
        · obtain ⟨n, hn, hcont, hwrap⟩ := h.covers hwold hv' a ha ha'
          refine ⟨n, hn, hcont, hwrap, Bool.eq_false_iff.mpr fun hhas => ?_⟩
          have heq := hpart n hn hhas
          rw [hwrap] at heq
          obtain rfl := Option.some.inj heq
          rw [hw] at hwold
          exact hid (Option.some.inj hwold).symm
      obtain ⟨n, hn, hcont, hwrap, hhas⟩ := hkept
      refine ⟨n, List.mem_map.mpr ⟨n, hn, if_neg ?_⟩, hcont, hwrap⟩
      rw [hhas]
      exact Bool.false_ne_true
  · obtain ⟨n, hn, rfl⟩ := List.mem_map.mp hn'
    by_cases hhas : (v.part addr newBelow).hasRange n = true
    · rw [if_pos hhas] at hwrap ⊢
      obtain rfl := Option.some.inj hwrap
      have hside := hsides n hn (hpart n hn hhas)
      rw [hhas] at hside
      obtain ⟨-, hlow, hhigh⟩ | ⟨hfalse, -⟩ := hside
      · refine ⟨s.nextVma, _, update_self _ _ _,
          (update_of_ne hnew.symm _ _).trans (update_self _ _ _), ?_⟩
        rw [hpartBounds]
        exact ⟨hlow, hhigh⟩
      · cases hfalse
    · rw [if_neg hhas] at hwrap ⊢
      obtain ⟨id', v', hw', hv', hlow, hhigh⟩ := h.inside hn hwrap
      have hwkeep : update s.wrappers s.nextWrapper (some s.nextVma) w' = some id' :=
        (update_of_ne (ne_of_lt (h.wrapper hw').1) _ _).trans hw'
      by_cases hid : id' = id
      · subst hid
        obtain rfl := hsame hw'
        obtain ⟨htrue, -⟩ | ⟨-, hlow, hhigh⟩ := hsides n hn hwrap
        · exact absurd htrue hhas
        · exact ⟨id', _, hwkeep, update_self _ _ _, hlow, hhigh⟩
      · exact ⟨id', v', hwkeep, (update_of_ne hid _ _).trans
          ((update_of_ne (ne_of_lt (h.vma hv').1) _ _).trans hv'), hlow, hhigh⟩

end NvUvm.VmaRanges
