import NvUvm.RangePolicySafe

/-!
# The UVM-Lite GPUs of a range

The mask `uvm_lite_gpus` of a managed range is what `calc_uvm_lite_gpus_mask` makes of the policy of
the range.  Each call that changes a policy stores both on its own, between steps that can fail.
-/

namespace NvUvm

open Lib

/-- The UVM-Lite GPUs of the range are those of its policy. -/
def RangeLite (topo : Topology) (n : VaRangeNode) : Prop :=
  n.val.uvmLiteGpus = calcUvmLiteGpusMask topo n.val.preferredLocation n.val.accessedBy

def LiteRight (topo : Topology) (s : VaSpace) : Prop :=
  ∀ n ∈ s.vaRangeTree, n.val.type = .managed → RangeLite topo n

/-- A call on the managed range of an address. -/
inductive RangePolicyOp where
  | setPreferredLocation (io : PolicyInput) (addr : ℕ) (id : Option ProcessorId)
  | setAccessedBy (io : PolicyInput) (addr : ℕ) (id : ProcessorId)
  | unsetAccessedBy (addr : ℕ) (id : ProcessorId)
  | split (io : SplitInput) (newEnd : ℕ)

namespace VaSpace

variable (s : VaSpace)

def managedRange (addr : ℕ) : Option VaRangeNode :=
  (lookup s.vaRangeTree addr).filter fun n => decide (n.val.type = .managed)

/-- One call; its status leaves the policies alone. -/
def rangeStep (topo : Topology) : RangePolicyOp → VaSpace
  | .setPreferredLocation io addr id =>
    match s.managedRange addr with
    | none => s
    | some n => (s.uvmVaRangeSetPreferredLocation topo io n id).2
  | .setAccessedBy io addr id =>
    match s.managedRange addr with
    | none => s
    | some n => (s.uvmVaRangeSetAccessedBy topo io id n).2
  | .unsetAccessedBy addr id =>
    match s.managedRange addr with
    | none => s
    | some n => s.uvmVaRangeUnsetAccessedBy topo id n
  | .split io newEnd =>
    match s.managedRange newEnd with
    | none => s
    | some n => if newEnd < n.last then (s.uvmVaRangeSplit io n newEnd).2 else s

/-- The check at the top of `uvm_va_range_set_accessed_by` fails. -/
def rejectsAccessedBy (topo : Topology) (id : ProcessorId) (n : VaRangeNode) : Bool :=
  !s.allMigratable n.start n.last && decide (id ≠ cpuId) && !topo.faultableProcessors id &&
    !topo.accessible n.val.preferredLocation id

end VaSpace

/-- Accessed-by makes the processor a UVM-Lite GPU of the range. -/
def BecomesLite (topo : Topology) (id : ProcessorId) (n : VaRangeNode) : Prop :=
  n.val.uvmLiteGpus id = false ∧ calcUvmLiteGpusMask topo n.val.preferredLocation
    (Function.update n.val.accessedBy id true) id = true

/-- The condition on a call: where accessed-by, once it is accepted, makes a UVM-Lite GPU of the
processor, unmapping the range does not fail. -/
def UnmapsNewLite (topo : Topology) (s : VaSpace) : RangePolicyOp → Prop
  | .setAccessedBy io addr id => ∀ n, s.managedRange addr = some n →
    s.rejectsAccessedBy topo id n = false → BecomesLite topo id n → io.rangeUnmap n.start = .ok
  | _ => True

/-! ## The mask of a policy -/

theorem calcUvmLiteGpusMask_of_ne {topo : Topology} {preferredLocation : Option ProcessorId}
    {accessedBy : ProcessorMask} {id q : ProcessorId} (hne : q ≠ id) (value : Bool) :
    calcUvmLiteGpusMask topo preferredLocation (Function.update accessedBy id value) q =
      calcUvmLiteGpusMask topo preferredLocation accessedBy q := by
  unfold calcUvmLiteGpusMask
  cases preferredLocation with
  | none => rfl
  | some p =>
    dsimp only
    split
    · rfl
    · dsimp only
      rw [Function.update_of_ne hne]

theorem calcUvmLiteGpusMask_mono {topo : Topology} {preferredLocation : Option ProcessorId}
    {accessedBy : ProcessorMask} {id : ProcessorId}
    (h : calcUvmLiteGpusMask topo preferredLocation accessedBy id = true) :
    calcUvmLiteGpusMask topo preferredLocation (Function.update accessedBy id true) id = true := by
  cases preferredLocation with
  | none => cases h
  | some p =>
    rw [calcUvmLiteGpusMask_eq_true] at h ⊢
    obtain ⟨hp, hrest⟩ := h
    refine ⟨hp, hrest.imp_left ?_⟩
    rintro ⟨hcpu, -, hfault⟩
    exact ⟨hcpu, Function.update_self .., hfault⟩

theorem rangeLite_update_iff {topo : Topology} (id : ProcessorId) {n : VaRangeNode}
    (h : RangeLite topo n) :
    n.val.uvmLiteGpus = calcUvmLiteGpusMask topo n.val.preferredLocation
      (Function.update n.val.accessedBy id true) ↔ ¬ BecomesLite topo id n := by
  constructor
  · rintro heq ⟨hold, hnew⟩
    rw [heq] at hold
    rw [hold] at hnew
    cases hnew
  · intro hnot
    funext q
    by_cases hq : q = id
    · subst hq
      cases hold : n.val.uvmLiteGpus q with
      | true =>
        rw [h] at hold
        exact (calcUvmLiteGpusMask_mono hold).symm
      | false =>
        have hnew := fun hnew => hnot ⟨hold, hnew⟩
        exact (Bool.eq_false_iff.mpr hnew).symm
    · rw [calcUvmLiteGpusMask_of_ne hq, ← h]

/-! ## The calls -/

/-- The trees are ordered. -/
structure TreesOrdered (s : VaSpace) : Prop where
  ranges : Ordered s.vaRangeTree
  groups : Ordered s.rangeGroupRanges

variable {topo : Topology} {s s₁ : VaSpace} {n n' : VaRangeNode} {id : ProcessorId}

theorem managedRange_eq_some (ht : Ordered s.vaRangeTree) {addr : ℕ}
    (h : s.managedRange addr = some n) :
    n ∈ s.vaRangeTree ∧ n.Contains addr ∧ n.val.type = .managed := by
  obtain ⟨hfind, hman⟩ := Option.filter_eq_some_iff.mp h
  obtain ⟨hn, ha⟩ := (lookup_eq_some ht).mp hfind
  exact ⟨hn, ha, of_decide_eq_true hman⟩

theorem TreesOrdered.fewer (ht : TreesOrdered s) (hf : FewerPrevented s s₁) : TreesOrdered s₁ :=
  ⟨hf.ranges ▸ ht.ranges, hf.groups⟩

theorem TreesOrdered.setRange (ht : TreesOrdered s) (hn : n ∈ s.vaRangeTree)
    (hstart : n'.start = n.start) (hlast : n'.last = n.last) : TreesOrdered (s.setRange n') :=
  ⟨ordered_setRange ht.ranges hn hstart hlast, ht.groups⟩

theorem LiteRight.fewer (h : LiteRight topo s) (hf : FewerPrevented s s₁) : LiteRight topo s₁ := by
  intro n hn
  rw [hf.ranges] at hn
  exact h n hn

theorem liteRight_setRange_iff (h : LiteRight topo s) (hn : n ∈ s.vaRangeTree)
    (hstart : n'.start = n.start) (hman : n'.val.type = .managed) :
    LiteRight topo (s.setRange n') ↔ RangeLite topo n' := by
  constructor
  · intro hright
    exact hright n' (mem_setRange.mpr (.inl ⟨rfl, n, hn, hstart.symm⟩)) hman
  · intro hlite m hm hmanaged
    rcases mem_setRange.mp hm with ⟨rfl, -⟩ | ⟨hm, -⟩
    · exact hlite
    · exact h m hm hmanaged

theorem setPreferredLocation_cases (hg : Ordered s.rangeGroupRanges) (hle : n.start ≤ n.last)
    (topo : Topology) (io : PolicyInput) (preferredLocation : Option ProcessorId) :
    ∃ s₁, FewerPrevented s s₁ ∧
      ((s.uvmVaRangeSetPreferredLocation topo io n preferredLocation).2 = s₁ ∨
        (s.uvmVaRangeSetPreferredLocation topo io n preferredLocation).2 =
          s₁.setRange { n with val := { n.val with
            preferredLocation := preferredLocation
            uvmLiteGpus := calcUvmLiteGpusMask topo preferredLocation n.val.accessedBy } }) := by
  unfold VaSpace.uvmVaRangeSetPreferredLocation
  dsimp only
  split
  · exact ⟨s, .refl hg, .inl rfl⟩
  have hmark := markMigrated_fewer hg n.start n.last
  generalize s.markMigrated n.start n.last = s₁ at hmark ⊢
  split
  · exact ⟨s₁, hmark, .inl rfl⟩
  have hgroups : FewerPrevented s (if preferredLocation.isNone then
      s₁.unassignUnmigratable io n else (.ok, s₁)).2 := by
    split
    · exact hmark.trans (unassignUnmigratable_fewer hmark.groups hle).1
    · exact hmark
  generalize (if preferredLocation.isNone then s₁.unassignUnmigratable io n
    else (.ok, s₁)) = r at hgroups ⊢
  refine ⟨r.2, hgroups, ?_⟩
  split
  · exact .inl rfl
  -- from here on the new policy is stored
  split
  · exact .inl rfl
  · split
    · exact .inr rfl
    · exact .inr rfl

theorem setAccessedBy_liteRight_iff (h : LiteRight topo s) (hn : n ∈ s.vaRangeTree)
    (hman : n.val.type = .managed) (io : PolicyInput) :
    LiteRight topo (s.uvmVaRangeSetAccessedBy topo io id n).2 ↔
      (s.rejectsAccessedBy topo id n = false → BecomesLite topo id n →
        io.rangeUnmap n.start = .ok) := by
  unfold VaSpace.uvmVaRangeSetAccessedBy
  change LiteRight topo (if s.rejectsAccessedBy topo id n = true then _ else _ : NvStatus × _).2 ↔ _
  by_cases hreject : s.rejectsAccessedBy topo id n = true
  · rw [if_pos hreject]
    exact ⟨fun _ hfalse => absurd hfalse (by rw [hreject]; simp), fun _ => h⟩
  rw [if_neg hreject]
  have hnew : s.rejectsAccessedBy topo id n = false := Bool.eq_false_iff.mpr hreject
  have hstale := rangeLite_update_iff id (h n hn hman)
  have hset : ∀ n' : VaRangeNode, n'.start = n.start → n'.val.type = .managed →
      (LiteRight topo (s.setRange n') ↔ RangeLite topo n') :=
    fun _ hstart hman' => liteRight_setRange_iff h hn hstart hman'
  by_cases hlite : n.val.uvmLiteGpus id = true
  · -- a UVM-Lite GPU already
    rw [if_pos hlite]
    have hnot : ¬ BecomesLite topo id n := fun hb => absurd hlite (by rw [hb.1]; simp)
    refine Iff.trans (hset _ (by rfl) (by exact hman)) ?_
    exact ⟨fun _ _ hb => absurd hb hnot, fun _ => hstale.mpr hnot⟩
  rw [if_neg hlite]
  by_cases hfail : calcUvmLiteGpusMask topo n.val.preferredLocation
      (Function.update n.val.accessedBy id true) id = true ∧ io.rangeUnmap n.start ≠ .ok
  · -- the failure leaves the old mask beside the new accessed-by
    rw [if_pos hfail]
    have hbecomes : BecomesLite topo id n := ⟨Bool.eq_false_iff.mpr hlite, hfail.1⟩
    refine Iff.trans (hset _ (by rfl) (by exact hman)) ?_
    constructor
    · intro heq
      exact absurd hbecomes (hstale.mp heq)
    · intro hok
      exact absurd (hok hnew hbecomes) hfail.2
  · rw [if_neg hfail, setRange_setRange (by rfl)]
    refine Iff.trans (hset _ (by rfl) (by exact hman)) ⟨fun _ _ hb => ?_, fun _ => rfl⟩
    exact not_not.mp fun hne => hfail ⟨hb.2, hne⟩

theorem setAccessedBy_ordered (ht : TreesOrdered s) (hn : n ∈ s.vaRangeTree) (io : PolicyInput) :
    TreesOrdered (s.uvmVaRangeSetAccessedBy topo io id n).2 := by
  unfold VaSpace.uvmVaRangeSetAccessedBy
  dsimp only
  split
  · exact ht
  · split
    · exact ht.setRange hn rfl rfl
    · split
      · exact ht.setRange hn rfl rfl
      · rw [setRange_setRange (by rfl)]
        exact ht.setRange hn rfl rfl

theorem LiteRight.splitOf (h : LiteRight topo s) (hs : SplitOf s s₁) : LiteRight topo s₁ := by
  intro m hm hman
  obtain ⟨n, hn, hpart⟩ := hs.parts m hm
  unfold RangeLite
  rw [hpart.uvmLiteGpus, hpart.preferredLocation, hpart.accessedBy]
  exact h n hn (hpart.type ▸ hman)

/-! ## Runs -/

theorem rangeStep_ordered (ht : TreesOrdered s) (op : RangePolicyOp) :
    TreesOrdered (s.rangeStep topo op) := by
  unfold VaSpace.rangeStep
  cases op with
  | setPreferredLocation io addr id =>
    dsimp only
    split
    · exact ht
    · next n hfind =>
      obtain ⟨hn, -, -⟩ := managedRange_eq_some ht.ranges hfind
      obtain ⟨s₁, hf, heq | heq⟩ :=
        setPreferredLocation_cases ht.groups (ht.ranges.1 n hn) topo io id
      · rw [heq]
        exact ht.fewer hf
      · rw [heq]
        have hn₁ : n ∈ s₁.vaRangeTree := hf.ranges ▸ hn
        exact (ht.fewer hf).setRange hn₁ rfl rfl
  | setAccessedBy io addr id =>
    dsimp only
    split
    · exact ht
    · next n hfind => exact setAccessedBy_ordered ht (managedRange_eq_some ht.ranges hfind).1 io
  | unsetAccessedBy addr id =>
    dsimp only
    split
    · exact ht
    · next n hfind =>
      obtain ⟨hn, -, -⟩ := managedRange_eq_some ht.ranges hfind
      have hf := markMigrated_fewer ht.groups n.start n.last
      have hn₁ : n ∈ (s.markMigrated n.start n.last).vaRangeTree := hf.ranges ▸ hn
      exact (ht.fewer hf).setRange hn₁ rfl rfl
  | split io newEnd =>
    dsimp only
    split
    · exact ht
    · next n hfind =>
      obtain ⟨hn, ha, -⟩ := managedRange_eq_some ht.ranges hfind
      split
      · next hlt =>
        have hs : SplitOf s (s.uvmVaRangeSplit io n newEnd).2 :=
          split_splitOf ht.ranges ht.groups hn ha.1 hlt
        exact ⟨hs.ranges, hs.groups⟩
      · exact ht

theorem rangeStep_liteRight_iff (ht : TreesOrdered s) (h : LiteRight topo s) (op : RangePolicyOp) :
    LiteRight topo (s.rangeStep topo op) ↔ UnmapsNewLite topo s op := by
  unfold VaSpace.rangeStep UnmapsNewLite
  cases op with
  | setPreferredLocation io addr id =>
    apply iff_of_true ?_ trivial
    dsimp only
    split
    · exact h
    · next n hfind =>
      obtain ⟨hn, -, hman⟩ := managedRange_eq_some ht.ranges hfind
      obtain ⟨s₁, hf, heq | heq⟩ :=
        setPreferredLocation_cases ht.groups (ht.ranges.1 n hn) topo io id
      · rw [heq]
        exact h.fewer hf
      · rw [heq]
        have hn₁ : n ∈ s₁.vaRangeTree := hf.ranges ▸ hn
        exact (liteRight_setRange_iff (h.fewer hf) hn₁ (by rfl) (by exact hman)).mpr rfl
  | setAccessedBy io addr id =>
    dsimp only
    cases hfind : s.managedRange addr with
    | none => exact iff_of_true h fun n hn => nomatch hn
    | some n =>
      obtain ⟨hn, -, hman⟩ := managedRange_eq_some ht.ranges hfind
      rw [setAccessedBy_liteRight_iff h hn hman io]
      simp only [Option.some.injEq, forall_eq']
  | unsetAccessedBy addr id =>
    apply iff_of_true ?_ trivial
    dsimp only
    split
    · exact h
    · next n hfind =>
      obtain ⟨hn, -, hman⟩ := managedRange_eq_some ht.ranges hfind
      have hf := markMigrated_fewer ht.groups n.start n.last
      have hn₁ : n ∈ (s.markMigrated n.start n.last).vaRangeTree := hf.ranges ▸ hn
      exact (liteRight_setRange_iff (h.fewer hf) hn₁ (by rfl) (by exact hman)).mpr rfl
  | split io newEnd =>
    apply iff_of_true ?_ trivial
    dsimp only
    split
    · exact h
    · next n hfind =>
      obtain ⟨hn, ha, -⟩ := managedRange_eq_some ht.ranges hfind
      split
      · next hlt => exact h.splitOf (split_splitOf ht.ranges ht.groups hn ha.1 hlt)
      · exact h

/-- **The UVM-Lite GPUs are those of the policy** along a run of calls, failing or not, exactly if
each GPU that becomes a UVM-Lite GPU by accessed-by is unmapped. -/
theorem liteRight_along_iff (topo : Topology) {s : VaSpace} (ht : TreesOrdered s)
    (h : LiteRight topo s) (ops : List RangePolicyOp) :
    HoldsAlong (VaSpace.rangeStep · topo) (LiteRight topo) s ops ↔
      StepsMeet (VaSpace.rangeStep · topo) (UnmapsNewLite topo) s ops :=
  holds_along_iff _ ht h (fun _ op ht => rangeStep_ordered ht op)
    (fun _ op ht h => rangeStep_liteRight_iff ht h op) ops

theorem oneRangeSpace_ordered : TreesOrdered oneRangeSpace :=
  ⟨oneRangeSpace_initial.ranges, ⟨List.forall_mem_nil _, .nil⟩⟩

theorem oneRangeSpace_liteRight : LiteRight noPeerTopology oneRangeSpace := by
  intro n hn _
  obtain rfl := List.mem_singleton.mp hn
  rfl

/-- The CPU as preferred location, and then accessed-by for GPU 1. -/
def accessedByRun (status : NvStatus) : List RangePolicyOp :=
  [.setPreferredLocation policyInput 2097152 (some cpuId),
    .setAccessedBy { policyInput with rangeUnmap := fun _ => status } 2097152 1]

/-- Where the unmapping succeeds the masks are right. -/
theorem liteRight_along_unmapped :
    HoldsAlong (VaSpace.rangeStep · noPeerTopology) (LiteRight noPeerTopology) oneRangeSpace
      (accessedByRun .ok) := by
  rw [liteRight_along_iff noPeerTopology oneRangeSpace_ordered oneRangeSpace_liteRight]
  unfold accessedByRun
  rw [stepsMeet_cons, stepsMeet_cons]
  exact ⟨trivial, fun _ _ _ _ => rfl, stepsMeet_nil _ _ _⟩

/-- Where it fails, GPU 1 is in accessed-by and no UVM-Lite GPU. -/
theorem accessedBy_without_lite :
    ¬ HoldsAlong (VaSpace.rangeStep · noPeerTopology) (LiteRight noPeerTopology) oneRangeSpace
      (accessedByRun .errNoMemory) := by
  intro h
  have hright := h _ (List.prefix_refl _)
  have hrange : ((run (VaSpace.rangeStep · noPeerTopology) oneRangeSpace
      (accessedByRun .errNoMemory)).vaRangeTree.any fun n =>
        decide (n.val.type = .managed) && !n.val.uvmLiteGpus 1 &&
          calcUvmLiteGpusMask noPeerTopology n.val.preferredLocation n.val.accessedBy 1) =
        true := by
    decide +kernel
  obtain ⟨n, hn, hval⟩ := List.any_eq_true.mp hrange
  simp only [Bool.and_eq_true, decide_eq_true_eq, Bool.not_eq_true'] at hval
  have hlite : n.val.uvmLiteGpus = _ := hright n hn hval.1.1
  rw [← hlite, hval.1.2] at hval
  cases hval.2

end NvUvm
