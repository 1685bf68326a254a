import NvUvm.PmmRuns

/-!
# Frees while eviction starts

Threads free the chunks that they hold, and `uvm_pmm_gpu_pma_evict_range` marks root chunks for
eviction between their sections under the list lock.
-/

namespace NvUvm

open Lib TreePtr
open Function (update update_of_ne update_self)

namespace Pmm

variable (s : Pmm)

/-- `chunk_is_evictable`, for a root chunk. -/
def chunkIsEvictable (root : ℕ) : Bool :=
  decide (s.state ⟨root, []⟩ ≠ some .pmaOwned) && !s.chunkIsRootChunkPinned ⟨root, []⟩ &&
    !s.inEviction root

def chunkStartEviction (root : ℕ) : Pmm :=
  { s.listDelInit ⟨root, []⟩ with inEviction := update s.inEviction root true }

end Pmm

/-- Where a call of `uvm_pmm_gpu_free` is. -/
inductive FreePhase where
  /-- Before the section of `try_chunk_free`. -/
  | start (p : TreePtr)
  /-- The chunk has to be merged; the lock of the physical memory manager is needed. -/
  | waiting (p : TreePtr)
  /-- Before the section of `free_or_prepare_for_merge`. -/
  | holding (p : TreePtr)
  /-- Before the section of `merge_gpu_chunk`. -/
  | merging (parent : TreePtr)
  /-- Before the first section of `free_next_available_root_chunk`. -/
  | picking
  /-- Before that of `free_root_chunk`. -/
  | freeingRoot (p : TreePtr)
  | done
  deriving DecidableEq

/-- The chunks, the calls that free some of them, and the holder of `pmm->lock`. -/
structure PmmFrees where
  pmm : Pmm
  phase : ℕ → FreePhase
  lock : Option ℕ

/-- A call goes on to the end of its next section, or eviction of a root chunk starts. -/
inductive FreeStep where
  | go (t : ℕ)
  | startEviction (root : ℕ)

namespace PmmFrees

/-- Each chunk that is held is going to be freed, at any time. -/
def ofCalls (s : PmmCalls) : PmmFrees :=
  ⟨s.pmm, fun t => (s.held[t]?).elim .done .start, none⟩

variable (s : PmmFrees)

def setPhase (t : ℕ) (phase : FreePhase) : PmmFrees :=
  { s with phase := update s.phase t phase }

def step (s : PmmFrees) : FreeStep → PmmFrees
  | .go t =>
    match s.phase t with
    | .start p =>
      let r := s.pmm.tryChunkFree p
      { s with pmm := r.2 }.setPhase t
        (if r.1 then if s.pmm.chunkIsRootChunk p then .picking else .done else .waiting p)
    | .waiting p =>
      if s.lock = none then { s with lock := some t }.setPhase t (.holding p) else s
    | .holding p =>
      match s.pmm.freeOrPrepareForMerge p with
      | (none, pmm) => { s with pmm := pmm, lock := none }.setPhase t .picking
      | (some parent, pmm) => { s with pmm := pmm }.setPhase t (.merging parent)
    | .merging parent => { s with pmm := s.pmm.mergeGpuChunk parent }.setPhase t (.holding parent)
    | .picking =>
      match s.pmm.pickFreeRootChunk with
      | (none, pmm) => { s with pmm := pmm }.setPhase t .done
      | (some p, pmm) => { s with pmm := pmm }.setPhase t (.freeingRoot p)
    | .freeingRoot p => { s with pmm := s.pmm.freeRootChunk p }.setPhase t .done
    | .done => s
  | .startEviction root =>
    if s.pmm.type ⟨root, []⟩ = .user ∧ s.pmm.chunkIsEvictable root = true then
      { s with pmm := s.pmm.chunkStartEviction root }
    else s

/-- The step does not free the last allocated subchunk of a chunk whose root is in eviction. -/
def NotEvicted (s : PmmFrees) : FreeStep → Prop
  | .go t =>
    match s.phase t with
    | .holding p => s.pmm.chunkIsLastAllocatedChild p = true → s.pmm.inEviction p.root = false
    | _ => True
  | .startEviction _ => True

instance (op : FreeStep) : Decidable (s.NotEvicted op) := by
  unfold NotEvicted
  split
  · split <;> infer_instance
  · infer_instance

def CountersTrue (s : PmmFrees) : Prop := s.pmm.CountersTrue

end PmmFrees

def FreePhase.chunk : FreePhase → Option TreePtr
  | .start p => some p
  | .waiting p => some p
  | .holding p => some p
  | .freeingRoot p => some p
  | _ => none

/-- The call holds the lock of the physical memory manager. -/
def FreePhase.locked : FreePhase → Bool
  | .holding _ => true
  | .merging _ => true
  | _ => false

namespace Pmm

variable {s s' : Pmm} {p q : TreePtr}

/-! ## Lists -/

def FreeListed (s : Pmm) : Prop :=
  ∀ p type size, p ∈ s.lists (.free type size) → s.state p = some .free ∧ s.size p = size

theorem ListsInv.freeListed (h : s.ListsInv) : s.FreeListed := by
  intro p type size hp
  obtain ⟨hstate, -, hsize⟩ := (h.mem p type size).mp hp
  exact ⟨hstate, hsize⟩

private theorem mem_updateRootList {type : MemoryType} {size : ℕ}
    (h : q ∈ (s.updateRootList p).lists (.free type size)) : q ∈ s.lists (.free type size) := by
  unfold updateRootList at h
  split at h
  · split at h
    · exact List.mem_of_mem_filter h
    · split at h
      · simp only [listMoveTail] at h
        exact List.mem_of_mem_filter h
      · exact h
  · exact h

theorem mem_chunkUpdateListsLocked {type : MemoryType} {size : ℕ} (hp : s.state p = some .free)
    (h : q ∈ (s.chunkUpdateListsLocked p).lists (.free type size)) :
    q ∈ s.lists (.free type size) ∧ q ≠ p ∨ q = p ∧ s.size p = size := by
  unfold chunkUpdateListsLocked at h
  simp only [hp] at h
  have hsize : (s.updateRootList p).size = s.size := by
    unfold updateRootList
    split
    · split
      · rfl
      · split <;> rfl
    · rfl
  simp only [listMoveTail, listDelInit] at h
  by_cases hlist : ChunkList.free type size = (s.updateRootList p).findFreeListChunk p
  · rw [hlist, update_self, List.mem_append, List.mem_filter, List.mem_singleton] at h
    rcases h with ⟨hmem, hne⟩ | rfl
    · left
      rw [← hlist] at hmem
      exact ⟨mem_updateRootList hmem, of_decide_eq_true hne⟩
    · right
      simp only [findFreeListChunk, ChunkList.free.injEq, hsize] at hlist
      exact ⟨rfl, hlist.2.symm⟩
  · rw [update_of_ne hlist, List.mem_filter] at h
    exact .inl ⟨mem_updateRootList h.1, of_decide_eq_true h.2⟩

private theorem chunkFreeLocked_eq (hevict : s.inEviction p.root = false) : ∃ s₁ : Pmm,
    s.chunkFreeLocked p = s₁.chunkUpdateListsLocked p ∧ s₁.lists = s.lists ∧ s₁.size = s.size ∧
      s₁.state p = some .free := by
  unfold Pmm.chunkFreeLocked
  simp only [hevict, Bool.false_eq_true, if_false]
  split
  · refine ⟨_, rfl, ?_⟩
    rw [chunkUnpin_eq]
    exact ⟨rfl, rfl, update_self ..⟩
  · exact ⟨_, rfl, rfl, rfl, update_self ..⟩

theorem FreeListed.chunkFreeLocked (h : s.FreeListed) (hp : s.Held p) {old new : ChunkState}
    (hr : Relabelled p old new s (s.chunkFreeLocked p)) : (s.chunkFreeLocked p).FreeListed := by
  have hother : ∀ q type size, q ∈ s.lists (.free type size) →
      (s.chunkFreeLocked p).state q = some .free ∧ (s.chunkFreeLocked p).size q = size := by
    intro q type size hq
    obtain ⟨hstate, hsize⟩ := h q type size hq
    have hne : q ≠ p := by
      rintro rfl
      exact hp.ne_free hstate
    rw [hr.state_of_ne hne, hr.size]
    exact ⟨hstate, hsize⟩
  intro q type size hq
  by_cases hevict : s.inEviction p.root = true
  · have hlists : (s.chunkFreeLocked p).lists = s.lists := by
      unfold Pmm.chunkFreeLocked
      simp only [hevict]
      rw [chunkPin_eq]
      rfl
    rw [hlists] at hq
    exact hother q type size hq
  · rw [Bool.not_eq_true] at hevict
    obtain ⟨s₁, heq, hlists, hsizes, hfree⟩ := chunkFreeLocked_eq hevict
    have hself : (s.chunkFreeLocked p).state p = some .free := by
      obtain ⟨lists, hl⟩ := chunkUpdateListsLocked_eq (s := s₁) (p := p)
      rw [heq, hl]
      exact hfree
    rw [heq] at hq
    -- the chunk goes to the tail of its list
    rcases mem_chunkUpdateListsLocked hfree hq with ⟨hq, -⟩ | ⟨rfl, hsize⟩
    · rw [hlists] at hq
      exact hother q type size hq
    · rw [hsizes] at hsize
      exact ⟨hself, by rw [hr.size]; exact hsize⟩

theorem Held.chunkFreeLocked (hp : s.Held p) (htree : s.TreeInv) (hctrs : s.CountersTrue)
    (hevict : s.inEviction p.root = true → s.state p = some .allocated) :
    ∃ old new, (new = .free ∨ new = .tempPinned) ∧ old ≠ .isSplit ∧
      Relabelled p old new s (s.chunkFreeLocked p) := by
  by_cases hroot : s.inEviction p.root = true
  · exact ⟨.allocated, .tempPinned, .inr rfl, by simp,
      chunkFreeLocked_relabelled_evicting htree (hevict hroot) hroot⟩
  · rw [Bool.not_eq_true] at hroot
    rcases hp with hp | hp
    · exact ⟨.tempPinned, .free, .inl rfl, by simp,
        chunkFreeLocked_relabelled htree hctrs hp (.inl rfl) hroot⟩
    · exact ⟨.allocated, .free, .inl rfl, by simp,
        chunkFreeLocked_relabelled htree hctrs hp (.inr rfl) hroot⟩

theorem CountersTrue.not_pinned (h : s.CountersTrue) (htree : s.TreeInv)
    (hroot : s.chunkIsRootChunkPinned ⟨p.root, []⟩ = false) : s.state p ≠ some .tempPinned := by
  intro hp
  by_cases hself : p = p.rootPtr
  · rw [hself] at hp
    simp only [rootPtr] at hp
    simp [chunkIsRootChunkPinned, rootPtr, hp] at hroot
  · have hsplit := htree.split_of_exists (by simp [hp]) hself
    have hpos := h.pinned_pos htree hself hp
    simp only [rootPtr] at hsplit
    simp [chunkIsRootChunkPinned, rootPtr, hsplit] at hroot
    omega

end Pmm

namespace PmmFrees

open Pmm

variable {s : PmmFrees}

/-- What holds of the chunks of a call in its phase. -/
def PhaseInv (s : Pmm) : FreePhase → Prop
  | .start p => s.Held p ∧ (s.inEviction p.root = true → s.state p = some .allocated)
  | .waiting p => s.Held p ∧ (s.inEviction p.root = true → s.state p = some .allocated)
  | .holding p => s.Held p ∧ (s.inEviction p.root = true → s.state p = some .allocated)
  | .merging parent => s.state parent = some .isSplit ∧
    (∀ i < s.numSubchunks parent, s.state (parent.child i) = some .tempPinned) ∧
      s.inEviction parent.root = false
  | .picking => True
  | .freeingRoot p => s.state p = some .tempPinned ∧ p = p.rootPtr
  | .done => True

/-- The invariant: a chunk that is going to be freed belongs to one call, and the chunks that a call
is merging to none but that one. -/
structure FreesInv (s : PmmFrees) : Prop where
  tree : s.pmm.TreeInv
  counters : s.pmm.CountersTrue
  listed : s.pmm.FreeListed
  phases : ∀ t, PhaseInv s.pmm (s.phase t)
  distinct : ∀ t t' p, (s.phase t).chunk = some p → (s.phase t').chunk = some p → t = t'
  apart : ∀ t t' parent i, s.phase t = .merging parent →
    (s.phase t').chunk ≠ some (parent.child i)
  lock : ∀ t, (s.phase t).locked = true → s.lock = some t

theorem PhaseInv.held {s : Pmm} {phase : FreePhase} (h : PhaseInv s phase) {p : TreePtr}
    (hp : phase.chunk = some p) : s.Held p := by
  cases phase with
  | start q => obtain rfl := Option.some.inj hp; exact h.1
  | waiting q => obtain rfl := Option.some.inj hp; exact h.1
  | holding q => obtain rfl := Option.some.inj hp; exact h.1
  | freeingRoot q => obtain rfl := Option.some.inj hp; exact .inl h.1
  | merging _ => simp [FreePhase.chunk] at hp
  | picking => simp [FreePhase.chunk] at hp
  | done => simp [FreePhase.chunk] at hp

theorem PhaseInv.congr {s s' : Pmm} {phase : FreePhase} (h : PhaseInv s phase)
    (hsize : s'.size = s.size) (hevict : s'.inEviction = s.inEviction)
    (hchunk : ∀ p, phase.chunk = some p → s'.state p = s.state p)
    (hmerging : ∀ parent, phase = .merging parent → s'.state parent = s.state parent ∧
      ∀ i < s.numSubchunks parent, s'.state (parent.child i) = s.state (parent.child i)) :
    PhaseInv s' phase := by
  have hfrees : ∀ p, s'.state p = s.state p →
      (s.Held p ∧ (s.inEviction p.root = true → s.state p = some .allocated)) →
        s'.Held p ∧ (s'.inEviction p.root = true → s'.state p = some .allocated) := by
    intro p hstate hp
    rwa [Held, hstate, hevict]
  cases phase with
  | start p => exact hfrees p (hchunk p rfl) h
  | waiting p => exact hfrees p (hchunk p rfl) h
  | holding p => exact hfrees p (hchunk p rfl) h
  | merging parent =>
    obtain ⟨hsplit, hpin, hroot⟩ := h
    obtain ⟨hpar, hchildren⟩ := hmerging parent rfl
    have hnum : s'.numSubchunks parent = s.numSubchunks parent := by
      rw [numSubchunks, numSubchunks, hsize]
    refine ⟨hpar.trans hsplit, fun i hi => ?_, by rwa [hevict]⟩
    rw [hnum] at hi
    exact (hchildren i hi).trans (hpin i hi)
  | picking => trivial
  | freeingRoot p =>
    refine ⟨?_, h.2⟩
    rw [hchunk p rfl]
    exact h.1
  | done => trivial

namespace FreesInv

variable {p : TreePtr} {t : ℕ}

theorem phases_of_relabelled (h : s.FreesInv) {old new : ChunkState} {pmm : Pmm}
    (hr : Relabelled p old new s.pmm pmm) (hold : old ≠ .isSplit)
    (howner : ∀ t' ≠ t, (s.phase t').chunk ≠ some p)
    (hchild : ∀ t' ≠ t, ∀ parent, s.phase t' = .merging parent →
      ∀ i < s.pmm.numSubchunks parent, p ≠ parent.child i) (t' : ℕ) (ht : t' ≠ t) :
    PhaseInv pmm (s.phase t') := by
  refine (h.phases t').congr hr.size hr.inEviction (fun q hq => hr.state_of_ne ?_)
    fun parent hpar => ⟨hr.state_of_ne ?_, fun i hi => hr.state_of_ne ?_⟩
  · rintro rfl
    exact howner t' ht hq
  · rintro rfl
    have hphase := h.phases t'
    rw [hpar] at hphase
    have hsplit := hphase.1
    rw [hr.before, Option.some.injEq] at hsplit
    exact hold hsplit
  · exact (hchild t' ht parent hpar i hi).symm

theorem next (h : s.FreesInv) {phase : FreePhase} {pmm : Pmm} {lock : Option ℕ}
    (htree : pmm.TreeInv) (hctrs : pmm.CountersTrue) (hlisted : pmm.FreeListed)
    (hothers : ∀ t' ≠ t, PhaseInv pmm (s.phase t')) (hself : PhaseInv pmm phase)
    (hchunk : ∀ p, phase.chunk = some p → ∀ t' ≠ t, (s.phase t').chunk ≠ some p ∧
      ∀ parent i, s.phase t' = .merging parent → p ≠ parent.child i)
    (hmerging : ∀ parent i, phase = .merging parent →
      ∀ t' ≠ t, (s.phase t').chunk ≠ some (parent.child i))
    (hlock : phase.locked = true → lock = some t)
    (hlocks : ∀ t' ≠ t, (s.phase t').locked = true → lock = some t') :
    (setPhase ⟨pmm, s.phase, lock⟩ t phase).FreesInv := by
  have hphase : ∀ t', (setPhase ⟨pmm, s.phase, lock⟩ t phase).phase t' =
      if t' = t then phase else s.phase t' := fun t' => by
    simp only [setPhase, Function.update_apply]
  refine ⟨htree, hctrs, hlisted, fun t' => ?_, fun t₁ t₂ p h₁ h₂ => ?_,
    fun t₁ t₂ parent i h₁ h₂ => ?_, fun t' ht' => ?_⟩
  · rw [hphase]
    split
    · exact hself
    · next hne => exact hothers t' hne
  · rw [hphase] at h₁ h₂
    split at h₁ <;> split at h₂
    · next heq₁ heq₂ => rw [heq₁, heq₂]
    · next hne => exact absurd h₂ (hchunk p h₁ t₂ hne).1
    · next hne _ => exact absurd h₁ (hchunk p h₂ t₁ hne).1
    · exact h.distinct t₁ t₂ p h₁ h₂
  · rw [hphase] at h₁ h₂
    split at h₁ <;> split at h₂
    · rw [h₁] at h₂
      simp [FreePhase.chunk] at h₂
    · next hne => exact hmerging parent i h₁ t₂ hne h₂
    · next hne _ => exact (hchunk _ h₂ t₁ hne).2 parent i h₁ rfl
    · exact h.apart t₁ t₂ parent i h₁ h₂
  · rw [hphase] at ht'
    split at ht'
    · next heq =>
      rw [heq]
      exact hlock ht'
    · next hne => exact hlocks t' hne ht'

theorem free (h : s.FreesInv) (howner : (s.phase t).chunk = some p)
    (hp : s.pmm.Held p ∧ (s.pmm.inEviction p.root = true → s.pmm.state p = some .allocated))
    {phase : FreePhase} (hphase : phase = .picking ∨ phase = .done) {lock : Option ℕ}
    (hlocks : ∀ t' ≠ t, (s.phase t').locked = true → lock = some t') :
    (setPhase ⟨s.pmm.chunkFreeLocked p, s.phase, lock⟩ t phase).FreesInv := by
  obtain ⟨old, new, hnew, hold, hr⟩ := hp.1.chunkFreeLocked h.tree h.counters hp.2
  have hsplit : new ≠ .isSplit := by rcases hnew with rfl | rfl <;> simp
  have howned : new ≠ .pmaOwned := by rcases hnew with rfl | rfl <;> simp
  have hothers := h.phases_of_relabelled (t := t) hr hold
    (fun t' ht hother => ht (h.distinct t' t p hother howner))
    fun t' _ parent hpar i _ heq => h.apart t' t parent i hpar (heq ▸ howner)
  apply h.next (hr.treeInv h.tree hold hsplit fun heq => absurd heq howned)
    (hr.countersTrue h.tree h.counters hsplit) (h.listed.chunkFreeLocked hp.1 hr) hothers
  · rcases hphase with rfl | rfl <;> trivial
  · rcases hphase with rfl | rfl <;> simp [FreePhase.chunk]
  · rcases hphase with rfl | rfl <;> simp
  · rcases hphase with rfl | rfl <;> simp [FreePhase.locked]
  · exact hlocks

private theorem keep (h : s.FreesInv) (howner : (s.phase t).chunk = some p) :
    ∀ t' ≠ t, (s.phase t').chunk ≠ some p ∧
      ∀ parent i, s.phase t' = .merging parent → p ≠ parent.child i :=
  fun t' ht => ⟨fun hother => ht (h.distinct t' t p hother howner),
    fun parent i hpar heq => h.apart t' t parent i hpar (heq ▸ howner)⟩

theorem start (h : s.FreesInv) (ht : s.phase t = .start p) : (s.step (.go t)).FreesInv := by
  have howner : (s.phase t).chunk = some p := by rw [ht]; rfl
  have hp := h.phases t
  rw [ht] at hp
  simp only [step, ht, tryChunkFree]
  by_cases hlast : s.pmm.chunkIsLastAllocatedChild p = true
  · simp only [hlast, if_true, Bool.false_eq_true]
    have hnext : PhaseInv s.pmm (.waiting p) := hp
    apply h.next h.tree h.counters h.listed (fun t' _ => h.phases t') hnext _ (by simp)
      (by simp [FreePhase.locked]) fun t' _ ht' => h.lock t' ht'
    rintro _ ⟨⟩
    exact h.keep howner
  · rw [Bool.not_eq_true] at hlast
    simp only [hlast, Bool.false_eq_true, if_false, if_true]
    apply h.free howner hp _ fun t' _ ht' => h.lock t' ht'
    split
    · exact .inl rfl
    · exact .inr rfl

theorem waiting (h : s.FreesInv) (ht : s.phase t = .waiting p) : (s.step (.go t)).FreesInv := by
  have howner : (s.phase t).chunk = some p := by rw [ht]; rfl
  have hp := h.phases t
  rw [ht] at hp
  simp only [step, ht]
  split
  · next hlock =>
    have hnext : PhaseInv s.pmm (.holding p) := hp
    apply h.next h.tree h.counters h.listed (fun t' _ => h.phases t') hnext _ (by simp)
      (fun _ => rfl)
    · intro t' _ ht'
      have := h.lock t' ht'
      rw [hlock] at this
      simp at this
    · rintro _ ⟨⟩
      exact h.keep howner
  · exact h

end FreesInv

end PmmFrees

namespace Pmm

variable {s s' : Pmm} {p : TreePtr}

theorem freeOrPrepareForMerge_cases (s : Pmm) (p : TreePtr) :
    (∃ parent i, p = child parent i ∧ s.allocated parent = 1 ∧
      s.freeOrPrepareForMerge p = (some parent, (s.chunkFreeLocked p).pinSubchunks parent)) ∨
      s.chunkIsLastAllocatedChild p = false ∧
        s.freeOrPrepareForMerge p = (none, s.chunkFreeLocked p) := by
  by_cases hlast : s.chunkIsLastAllocatedChild p = true
  · cases hpar : p.parent with
    | none => simp [chunkIsLastAllocatedChild, hpar] at hlast
    | some parent =>
      obtain ⟨i, rfl⟩ := parent_eq_some.mp hpar
      left
      refine ⟨parent, i, rfl, chunkIsLastAllocatedChild_child.mp hlast, ?_⟩
      simp [freeOrPrepareForMerge, hlast]
  · rw [Bool.not_eq_true] at hlast
    right
    refine ⟨hlast, ?_⟩
    unfold freeOrPrepareForMerge
    cases hpar : p.parent with
    | none => simp [tryChunkFree, hlast]
    | some parent => simp [hlast]

theorem Relabelled.free_of_last {old : ChunkState} {i : ℕ}
    (hr : Relabelled (p.child i) old .free s s') (htree : s.TreeInv) (hctrs : s.CountersTrue)
    (hp : s.Held (p.child i)) (hlast : s.allocated p = 1) :
    ∀ j < s'.numSubchunks p, s'.state (p.child j) = some .free := by
  intro j hj
  have hnum : s'.numSubchunks p = s.numSubchunks p := by rw [numSubchunks, numSubchunks, hr.size]
  rw [hnum] at hj
  by_cases hji : j = i
  · rw [hji]
    exact hr.state_self
  · rw [hr.state_of_ne (by simpa using hji)]
    exact hctrs.free_of_last htree hp.ne_none hp.ne_free hlast hj hji

theorem FreeListed.pinSubchunks (h : s.FreeListed) : (s.pinSubchunks p).FreeListed := by
  intro q type size hq
  obtain ⟨hmem, hne⟩ := List.mem_filter.mp hq
  rw [pinSubchunks_state_of_ne (of_decide_eq_true hne)]
  exact h q type size hmem

theorem FreeListed.mergeGpuChunk (h : s.FreeListed) (hp : s.state p = some .isSplit)
    (hchildren : ∀ i < s.numSubchunks p, s.state (p.child i) = some .tempPinned) :
    (s.mergeGpuChunk p).FreeListed := by
  intro q type size hq
  obtain ⟨hfree, hsize⟩ := h q type size hq
  refine ⟨?_, hsize⟩
  rw [mergeGpuChunk_state_of_ne, hfree]
  · rintro rfl
    simp [hp] at hfree
  · intro hsub
    obtain ⟨i, hi, rfl⟩ := mem_subchunkSet.mp hsub
    simp [hchildren i hi] at hfree

theorem FreeListed.relabelled (h : s.FreeListed) {old new : ChunkState}
    (hr : Relabelled p old new s s')
    (hlists : ∀ q type size, q ∈ s'.lists (.free type size) →
      q ∈ s.lists (.free type size) ∧ q ≠ p) : s'.FreeListed := by
  intro q type size hq
  obtain ⟨hmem, hne⟩ := hlists q type size hq
  rw [hr.state_of_ne hne, hr.size]
  exact h q type size hmem

end Pmm

namespace PmmFrees

open Pmm

variable {s : PmmFrees}

namespace FreesInv

variable {t : ℕ}

private theorem not_locked (h : s.FreesInv) (ht : (s.phase t).locked = true) {t' : ℕ}
    (hne : t' ≠ t) : (s.phase t').locked ≠ true := by
  intro ht'
  have hlock := (h.lock t' ht').symm.trans (h.lock t ht)
  exact hne (Option.some.inj hlock)

theorem holding (h : s.FreesInv) {p : TreePtr} (ht : s.phase t = .holding p)
    (hevict : s.pmm.chunkIsLastAllocatedChild p = true → s.pmm.inEviction p.root = false) :
    (s.step (.go t)).FreesInv := by
  have howner : (s.phase t).chunk = some p := by rw [ht]; rfl
  have hlocked : (s.phase t).locked = true := by rw [ht]; rfl
  have hp := h.phases t
  rw [ht] at hp
  simp only [step, ht]
  rcases freeOrPrepareForMerge_cases s.pmm p with ⟨parent, i, rfl, hone, heq⟩ | ⟨-, heq⟩
  · rw [heq]
    have hroot := hevict (chunkIsLastAllocatedChild_child.mpr hone)
    obtain ⟨old, hold, hr⟩ : ∃ old, old ≠ .isSplit ∧
        Relabelled (parent.child i) old .free s.pmm (s.pmm.chunkFreeLocked (parent.child i)) := by
      rcases hp.1 with hheld | hheld
      · exact ⟨_, by simp, chunkFreeLocked_relabelled h.tree h.counters hheld (.inl rfl) hroot⟩
      · exact ⟨_, by simp, chunkFreeLocked_relabelled h.tree h.counters hheld (.inr rfl) hroot⟩
    have hfree := hr.free_of_last h.tree h.counters hp.1 hone
    have htree := hr.treeInv h.tree hold (by simp) (by simp)
    have hctrs := hr.countersTrue h.tree h.counters (by simp)
    have hlisted := h.listed.chunkFreeLocked hp.1 hr
    have hothers := h.phases_of_relabelled (t := t) hr hold
      (fun t' hne => (h.keep howner t' hne).1)
      fun t' hne parent' hparent' j _ => (h.keep howner t' hne).2 parent' j hparent'
    have hsplit : (s.pmm.chunkFreeLocked (parent.child i)).state parent = some .isSplit := by
      rw [hr.state_of_ne (self_ne_child i)]
      exact h.tree.parent parent i hp.1.ne_none
    have hinEviction := congrFun hr.inEviction parent.root
    rw [show s.pmm.inEviction parent.root = false from hroot] at hinEviction
    -- nobody else owns a subchunk
    have hnotOwned : ∀ t' ≠ t, ∀ j, (s.phase t').chunk ≠ some (parent.child j) := by
      intro t' hne j hj
      have hheld := (hothers t' hne).held hj
      exact hheld.ne_free (hfree j ((htree.child_exists_iff hsplit j).mp hheld.ne_none))
    apply h.next (htree.pinSubchunks fun j hj => ⟨by simp [hfree j hj], by simp [hfree j hj]⟩)
      (hctrs.pinSubchunks hfree) hlisted.pinSubchunks
    · intro t' hne
      refine (hothers t' hne).congr rfl rfl (fun q hq => pinSubchunks_state_of_ne ?_)
        fun parent' hparent' => ?_
      · rintro j - rfl
        exact hnotOwned t' hne j hq
      · have hnot := h.not_locked hlocked hne
        rw [hparent'] at hnot
        exact absurd rfl hnot
    · exact ⟨(pinSubchunks_state_of_ne fun j _ => self_ne_child j).trans hsplit,
        fun j hj => pinSubchunks_state_child hj, hinEviction⟩
    · simp [FreePhase.chunk]
    · rintro _ j ⟨⟩ t' hne
      exact hnotOwned t' hne j
    · exact fun _ => h.lock t hlocked
    · exact fun t' _ => h.lock t'
  · rw [heq]
    exact h.free howner hp (.inl rfl) fun t' hne ht' => absurd ht' (h.not_locked hlocked hne)

theorem merging (h : s.FreesInv) {parent : TreePtr} (ht : s.phase t = .merging parent) :
    (s.step (.go t)).FreesInv := by
  have hlocked : (s.phase t).locked = true := by rw [ht]; rfl
  have hp := h.phases t
  rw [ht] at hp
  obtain ⟨hsplit, hpin, hroot⟩ := hp
  have hone := h.tree.one_lt_numSubchunks hsplit
  have hself : (s.pmm.mergeGpuChunk parent).state parent = some .tempPinned :=
    mergeGpuChunk_state_self.trans (hpin 0 (by omega))
  simp only [step, ht]
  apply h.next (h.tree.mergeGpuChunk hsplit hpin (by simp))
    (h.counters.mergeGpuChunk h.tree hsplit hpin (by simp) (by simp))
    (h.listed.mergeGpuChunk hsplit hpin)
  · intro t' hne
    refine (h.phases t').congr rfl rfl (fun q hq => mergeGpuChunk_state_of_ne ?_ ?_)
      fun parent' hparent' => ?_
    · rintro rfl
      exact ((h.phases t').held hq).ne_split hsplit
    · intro hsub
      obtain ⟨i, -, rfl⟩ := mem_subchunkSet.mp hsub
      exact h.apart t t' parent i ht hq
    · have hnot := h.not_locked hlocked hne
      rw [hparent'] at hnot
      exact absurd rfl hnot
  · refine ⟨.inl hself, fun hevict => ?_⟩
    change s.pmm.inEviction parent.root = true at hevict
    rw [hroot] at hevict
    simp at hevict
  · rintro _ ⟨⟩ t' hne
    refine ⟨fun hq => ((h.phases t').held hq).ne_split hsplit, fun parent' i hparent' => ?_⟩
    have hnot := h.not_locked hlocked hne
    rw [hparent'] at hnot
    exact absurd rfl hnot
  · simp
  · exact fun _ => h.lock t hlocked
  · exact fun t' _ => h.lock t'

theorem picking (h : s.FreesInv) (ht : s.phase t = .picking) : (s.step (.go t)).FreesInv := by
  simp only [step, ht]
  cases hpick : s.pmm.pickFreeRootChunk with
  | mk found pmm =>
    cases found with
    | none =>
      rw [pickFreeRootChunk_eq_none hpick]
      exact h.next h.tree h.counters h.listed (fun t' _ => h.phases t') trivial
        (by simp [FreePhase.chunk]) (by simp) (by simp [FreePhase.locked]) fun t' _ => h.lock t'
    | some p =>
      obtain ⟨⟨type, hmem⟩, rfl⟩ := pickFreeRootChunk_eq_some hpick
      obtain ⟨hp, hsize⟩ := h.listed p type _ hmem
      have hroot := (h.tree.chunkIsRootChunk_iff (by simp [hp])).mp (decide_eq_true hsize)
      have hr := pickFreeRootChunk_relabelled h.tree hp hroot
      have hnotOwned : ∀ t' ≠ t, (s.phase t').chunk ≠ some p := fun t' _ hq =>
        ((h.phases t').held hq).ne_free hp
      have hnotChild : ∀ parent i, p ≠ child parent i := fun parent i heq => by
        rw [heq] at hroot
        simp at hroot
      apply h.next (hr.treeInv h.tree (by simp) (by simp) (by simp))
        (hr.countersTrue h.tree h.counters (by simp))
      · refine h.listed.relabelled hr fun q type size hq => ?_
        rw [chunkPin_eq] at hq
        obtain ⟨hq, hne⟩ := List.mem_filter.mp hq
        exact ⟨hq, of_decide_eq_true hne⟩
      · exact h.phases_of_relabelled hr (by simp) hnotOwned
          fun t' _ parent _ i _ => hnotChild parent i
      · exact ⟨hr.state_self, hroot⟩
      · rintro _ ⟨⟩ t' hne
        exact ⟨hnotOwned t' hne, fun parent i _ => hnotChild parent i⟩
      · simp
      · simp [FreePhase.locked]
      · exact fun t' _ => h.lock t'

theorem freeingRoot (h : s.FreesInv) {p : TreePtr} (ht : s.phase t = .freeingRoot p) :
    (s.step (.go t)).FreesInv := by
  have howner : (s.phase t).chunk = some p := by rw [ht]; rfl
  have hp := h.phases t
  rw [ht] at hp
  obtain ⟨hpin, hroot⟩ := hp
  have hr := chunkUnpin_relabelled h.tree h.counters hpin .pmaOwned (by simp) (by simp)
  simp only [step, ht]
  apply h.next (hr.treeInv h.tree (by simp) (by simp) fun _ => hroot)
    (hr.countersTrue h.tree h.counters (by simp))
  · refine h.listed.relabelled hr fun q type size hq => ?_
    rw [chunkUnpin_eq] at hq
    refine ⟨hq, ?_⟩
    rintro rfl
    have hfree := (h.listed q type size hq).1
    simp [hpin] at hfree
  · exact h.phases_of_relabelled hr (by simp) (fun t' hne => (h.keep howner t' hne).1)
      fun t' hne parent hpar i _ => (h.keep howner t' hne).2 parent i hpar
  · trivial
  · simp [FreePhase.chunk]
  · simp
  · simp [FreePhase.locked]
  · exact fun t' _ => h.lock t'

theorem startEviction (h : s.FreesInv) (root : ℕ) : (s.step (.startEviction root)).FreesInv := by
  simp only [step]
  split
  · next hevict =>
    simp only [chunkIsEvictable, Bool.and_eq_true, Bool.not_eq_true'] at hevict
    have hpin : ∀ p : TreePtr, p.root = root → s.pmm.state p ≠ some .tempPinned := by
      rintro p rfl
      exact h.counters.not_pinned h.tree hevict.2.1.2
    have hfrees : ∀ p : TreePtr,
        (s.pmm.Held p ∧ (s.pmm.inEviction p.root = true → s.pmm.state p = some .allocated)) →
          (s.pmm.chunkStartEviction root).Held p ∧
            ((s.pmm.chunkStartEviction root).inEviction p.root = true →
              (s.pmm.chunkStartEviction root).state p = some .allocated) := by
      rintro p ⟨hheld, hp⟩
      refine ⟨hheld, fun hflag => ?_⟩
      change update s.pmm.inEviction root true p.root = true at hflag
      by_cases hroot : p.root = root
      · exact hheld.resolve_left (hpin p hroot)
      · rw [update_of_ne hroot] at hflag
        exact hp hflag
    refine ⟨h.tree.congr rfl rfl rfl (fun _ => .inl rfl) (fun _ => Iff.rfl) (fun _ => Iff.rfl)
      h.tree.notOwned, ⟨h.counters.allocated, h.counters.pinned⟩,
      fun p type size hp => h.listed p type size (List.mem_of_mem_filter hp), fun t => ?_,
      h.distinct, h.apart, h.lock⟩
    have hphase := h.phases t
    cases hp : s.phase t with
    | start p => exact hfrees p (by rwa [hp] at hphase)
    | waiting p => exact hfrees p (by rwa [hp] at hphase)
    | holding p => exact hfrees p (by rwa [hp] at hphase)
    | merging parent =>
      rw [hp] at hphase
      obtain ⟨hsplit, hchildren, hroot⟩ := hphase
      have hone := h.tree.one_lt_numSubchunks hsplit
      have hne : parent.root ≠ root := fun heq =>
        hpin (parent.child 0) heq (hchildren 0 (by omega))
      exact ⟨hsplit, hchildren, (update_of_ne hne ..).trans hroot⟩
    | picking => trivial
    | freeingRoot p =>
      rw [hp] at hphase
      exact hphase
    | done => trivial
  · exact h

end FreesInv

theorem inv_step (s : PmmFrees) (op : FreeStep) (h : s.FreesInv) (hop : s.NotEvicted op) :
    (s.step op).FreesInv := by
  cases op with
  | startEviction root => exact h.startEviction root
  | go t =>
    cases ht : s.phase t with
    | start p => exact h.start ht
    | waiting p => exact h.waiting ht
    | holding p =>
      apply h.holding ht
      simpa only [NotEvicted, ht] using hop
    | merging parent => exact h.merging ht
    | picking => exact h.picking ht
    | freeingRoot p => exact h.freeingRoot ht
    | done =>
      simp only [step, ht]
      exact h

theorem FreesInv.not_countersTrue (h : s.FreesInv) {op : FreeStep} (hop : ¬ s.NotEvicted op) :
    ¬ (s.step op).CountersTrue := by
  cases op with
  | startEviction root => simp [NotEvicted] at hop
  | go t =>
    cases ht : s.phase t with
    | holding p =>
      simp only [NotEvicted, ht, Classical.not_imp, Bool.not_eq_false] at hop
      obtain ⟨hlast, hevict⟩ := hop
      have hp := h.phases t
      rw [ht] at hp
      obtain ⟨hheld, hallocated⟩ := hp
      rcases freeOrPrepareForMerge_cases s.pmm p with ⟨parent, i, rfl, hone, heq⟩ | ⟨hnot, -⟩
      · have hr := chunkFreeLocked_relabelled_evicting h.tree (hallocated hevict) hevict
        have htree := hr.treeInv h.tree (by simp) (by simp) (by simp)
        have hctrs := hr.countersTrue h.tree h.counters (by simp)
        have hnum : (s.pmm.chunkFreeLocked (parent.child i)).numSubchunks parent =
            s.pmm.numSubchunks parent := by rw [numSubchunks, numSubchunks, hr.size]
        -- of the subchunks, only the one that is freed is pinned before the loop
        have hk : ∃ old : Finset TreePtr, old.card = 1 ∧ ∀ q, q ∈ old ↔ q ∈ subchunkSet parent
              ((s.pmm.chunkFreeLocked (parent.child i)).numSubchunks parent) ∧
              (s.pmm.chunkFreeLocked (parent.child i)).state q = some .tempPinned := by
          refine ⟨{parent.child i}, Finset.card_singleton _, fun q => ?_⟩
          rw [Finset.mem_singleton, hnum]
          have hsplit := h.tree.parent parent i hheld.ne_none
          constructor
          · rintro rfl
            exact ⟨mem_subchunkSet.mpr ⟨i, (h.tree.child_exists_iff hsplit i).mp hheld.ne_none, rfl⟩,
              hr.state_self⟩
          · rintro ⟨hsub, hpin⟩
            obtain ⟨j, hj, rfl⟩ := mem_subchunkSet.mp hsub
            by_contra hne
            have hji : j ≠ i := fun heq => hne (by rw [heq])
            rw [hr.state_of_ne hne,
              h.counters.free_of_last h.tree hheld.ne_none hheld.ne_free hone hj hji] at hpin
            simp at hpin
        have hsplit : (s.pmm.chunkFreeLocked (parent.child i)).state ⟨parent.root, []⟩ =
            some .isSplit := htree.split_of_exists (p := parent.child i)
          (by simp [hr.state_self]) (child_ne_rootPtr i)
        have hpos := htree.one_lt_numSubchunks
          ((hr.state_of_ne (self_ne_child i)).trans (h.tree.parent parent i hheld.ne_none))
        have hcnt := pinSubchunks_countsPinned (p := parent) (hctrs.pinned _ hsplit) hk
        intro htrue
        simp only [step, ht, heq] at htrue
        have hroot : ((s.pmm.chunkFreeLocked (parent.child i)).pinSubchunks parent).state
            ⟨parent.root, []⟩ = some .isSplit :=
          (pinSubchunks_state_of_ne fun j _ => by simp [child]).trans hsplit
        have hwrong := hcnt.unique (htrue.pinned _ hroot)
        simp only [setPhase, pinSubchunks_pinnedLeafChunks, update_self, if_true] at hwrong
        omega
      · simp [hlast] at hnot
    | start p => simp [NotEvicted, ht] at hop
    | waiting p => simp [NotEvicted, ht] at hop
    | merging parent => simp [NotEvicted, ht] at hop
    | picking => simp [NotEvicted, ht] at hop
    | freeingRoot p => simp [NotEvicted, ht] at hop
    | done => simp [NotEvicted, ht] at hop

theorem ofCalls_inv {s : PmmCalls} (h : s.CallsInv) : (ofCalls s).FreesInv := by
  have hphase : ∀ t, (ofCalls s).phase t = .done ∨
      ∃ p, s.held[t]? = some p ∧ (ofCalls s).phase t = .start p := by
    intro t
    simp only [ofCalls]
    cases s.held[t]? with
    | none => exact .inl rfl
    | some p => exact .inr ⟨p, rfl, rfl⟩
  refine ⟨h.inv.tree, h.inv.counters, h.inv.lists.freeListed, fun t => ?_,
    fun t t' p ht ht' => ?_, fun t t' parent i ht => ?_, fun t ht => ?_⟩
  · rcases hphase t with hdone | ⟨p, hp, hstart⟩
    · rw [hdone]
      trivial
    · rw [hstart]
      refine ⟨h.owned.held p (List.mem_of_getElem? hp), fun hevict => ?_⟩
      rw [show (ofCalls s).pmm.inEviction p.root = false from h.inv.notEvicting p.root] at hevict
      simp at hevict
  · -- the callers hold different chunks
    rcases hphase t with hdone | ⟨q, hq, hstart⟩
    · simp [hdone, FreePhase.chunk] at ht
    · rcases hphase t' with hdone' | ⟨q', hq', hstart'⟩
      · simp [hdone', FreePhase.chunk] at ht'
      · rw [hstart] at ht
        rw [hstart'] at ht'
        obtain rfl := Option.some.inj ht
        obtain rfl := Option.some.inj ht'
        have hlt := (List.getElem?_eq_some_iff.mp hq).1
        exact (List.getElem?_inj hlt h.owned.nodup).mp (hq.trans hq'.symm)
  · rcases hphase t with hdone | ⟨p, -, hstart⟩
    · simp [hdone] at ht
    · simp [hstart] at ht
  · rcases hphase t with hdone | ⟨p, -, hstart⟩
    · simp [hdone, FreePhase.locked] at ht
    · simp [hstart, FreePhase.locked] at ht

/-- **The counters stay true exactly as long as no chunk that is the last allocated one of its parent
is freed under the locks while its root is in eviction.** -/
theorem countersTrue_along_iff (chunkSizes : MemoryType → ChunkSizes) (ops : List PmmOp)
    (steps : List FreeStep) :
    HoldsAlong step CountersTrue (ofCalls (run PmmCalls.step (PmmCalls.init chunkSizes) ops)) steps ↔
      StepsMeet step NotEvicted (ofCalls (run PmmCalls.step (PmmCalls.init chunkSizes) ops))
        steps := by
  have hcalls := run_inv PmmCalls.step (PmmCalls.init_inv chunkSizes) PmmCalls.inv_step ops
  apply holds_along_iff_of_guarded step (ofCalls_inv hcalls) (fun s h => h.counters)
  · intro s op h
    constructor
    · intro htrue
      by_contra hop
      exact h.not_countersTrue hop htrue
    · exact fun hop => (inv_step s op h hop).counters
  · exact inv_step

/-! ## A free that comes too late -/

def twoSizes : ChunkSizes where
  sizes := [2 ^ 20, 2 ^ 21]
  sorted := by decide
  pow := by
    intro size hsize
    simp only [List.mem_cons, List.not_mem_nil, or_false] at hsize
    rcases hsize with rfl | rfl
    · exact ⟨20, rfl⟩
    · exact ⟨21, rfl⟩
  max_mem := by decide
  le_max := by decide

/-- One chunk of 1 MB is allocated, from the first root chunk. -/
def oneHeld : PmmCalls :=
  run PmmCalls.step (PmmCalls.init fun _ => twoSizes)
    [.alloc .user (2 ^ 20) [⟨some 0, fun _ => false, false⟩] .ok, .unpinTemp ⟨0, [0]⟩ 1]

/-- The root chunk is marked for eviction after `try_chunk_free` and before
`free_or_prepare_for_merge`. -/
def lateSteps : List FreeStep := [.go 0, .startEviction 0, .go 0, .go 0]

/-- Then `pinned_leaf_chunks` is three, where there are two subchunks. -/
theorem late_free_counts_twice : ¬ HoldsAlong step CountersTrue (ofCalls oneHeld) lateSteps := by
  intro h
  have hcalls : oneHeld.CallsInv := run_inv PmmCalls.step (PmmCalls.init_inv _) PmmCalls.inv_step _
  have h₁ := inv_step (ofCalls oneHeld) (.go 0) (ofCalls_inv hcalls) (by decide +kernel)
  have h₂ := inv_step _ (.startEviction 0) h₁ trivial
  have h₃ := inv_step _ (.go 0) h₂ (by decide +kernel)
  have hlast : ¬ (run step (ofCalls oneHeld) (lateSteps.take 3)).NotEvicted (.go 0) := by decide +kernel
  exact h₃.not_countersTrue hlast (h lateSteps (List.prefix_refl _))

end PmmFrees

end NvUvm
