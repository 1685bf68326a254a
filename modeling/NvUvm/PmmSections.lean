import NvUvm.PmmCounters

/-!
# The sections under the list lock

What each section under the list lock does to the invariant of the chunks.
-/

namespace NvUvm

open Lib TreePtr
open Function (update update_of_ne update_self)

namespace Pmm

variable {s s' : Pmm} {p q : TreePtr}

/-! ## The lists -/

/-- The free lists hold the free chunks, each on the list of its type and size. -/
structure ListsInv (s : Pmm) : Prop where
  nodup : ∀ type size, (s.lists (.free type size)).Nodup
  mem : ∀ p type size, p ∈ s.lists (.free type size) ↔
    s.state p = some .free ∧ s.type p = type ∧ s.size p = size

/-- The same for every chunk but one, whose state has just changed. -/
structure ListsOff (s : Pmm) (p : TreePtr) : Prop where
  nodup : ∀ type size, (s.lists (.free type size)).Nodup
  mem : ∀ q ≠ p, ∀ type size, q ∈ s.lists (.free type size) ↔
    s.state q = some .free ∧ s.type q = type ∧ s.size q = size

theorem ListsInv.off (h : s.ListsInv) (hlists : s'.lists = s.lists)
    (hstate : ∀ q ≠ p, s'.state q = s.state q) (htype : s'.type = s.type)
    (hsize : s'.size = s.size) : s'.ListsOff p where
  nodup := by
    rw [hlists]
    exact h.nodup
  mem := by
    intro q hq type size
    rw [hlists, hstate q hq, htype, hsize]
    exact h.mem q type size

theorem listsInv_iff_off : s.ListsInv ↔ ∀ p, s.ListsOff p := by
  constructor
  · intro h p
    exact h.off rfl (fun _ _ => rfl) rfl rfl
  · intro h
    refine ⟨(h ⟨0, []⟩).nodup, fun p => ?_⟩
    -- another chunk can be the exception
    exact (h (p.child 0)).mem p (self_ne_child 0)

theorem ListsInv.congr (h : s.ListsInv) (hlists : s'.lists = s.lists)
    (hstate : ∀ q, s'.state q = some .free ↔ s.state q = some .free)
    (hsame : ∀ q, s.state q = some .free → s'.type q = s.type q ∧ s'.size q = s.size q) :
    s'.ListsInv where
  nodup := by
    rw [hlists]
    exact h.nodup
  mem := by
    intro q type size
    rw [hlists, h.mem, hstate]
    refine and_congr_right fun hq => ?_
    rw [(hsame q hq).1, (hsame q hq).2]

theorem ListsOff.listDelInit (h : s.ListsOff p) (hp : s.state p ≠ some .free) :
    (s.listDelInit p).ListsInv where
  nodup := fun type size => (h.nodup type size).filter _
  mem := by
    intro q type size
    simp only [Pmm.listDelInit, List.mem_filter]
    by_cases hq : q = p
    · simp [hq, hp]
    · simp [hq, h.mem q hq]

theorem ListsOff.listMoveTail (h : s.ListsOff p) (hp : s.state p = some .free) :
    (s.listMoveTail p (s.findFreeListChunk p)).ListsInv where
  nodup := by
    intro type size
    simp only [Pmm.listMoveTail, Pmm.listDelInit]
    by_cases hlist : ChunkList.free type size = s.findFreeListChunk p
    · rw [hlist, update_self]
      refine List.Nodup.append ((h.nodup _ _).filter _) (List.nodup_singleton p) ?_
      simp
    · rw [update_of_ne hlist]
      exact (h.nodup type size).filter _
  mem := by
    intro q type size
    simp only [Pmm.listMoveTail, Pmm.listDelInit]
    by_cases hlist : ChunkList.free type size = s.findFreeListChunk p
    · rw [hlist, update_self]
      obtain ⟨rfl, rfl⟩ := hlist
      by_cases hq : q = p
      · simp [hq, hp]
      · simp [hq, findFreeListChunk, h.mem q hq]
    · rw [update_of_ne hlist]
      by_cases hq : q = p
      · subst hq
        have hne : ¬ (s.type q = type ∧ s.size q = size) := by
          rintro ⟨rfl, rfl⟩
          exact hlist rfl
        simp [hne]
      · simp [hq, h.mem q hq]

theorem ListsOff.updateRootList {k : TreePtr} (h : s.ListsOff k) :
    (s.updateRootList p).ListsOff k := by
  have hdel : s.state p.rootPtr ≠ some .free →
      (∀ type size, ((s.lists (.free type size)).filter (· ≠ p.rootPtr)).Nodup) ∧
        ∀ q ≠ k, ∀ type size, q ∈ (s.lists (.free type size)).filter (· ≠ p.rootPtr) ↔
          s.state q = some .free ∧ s.type q = type ∧ s.size q = size := by
    intro hroot
    refine ⟨fun type size => (h.nodup type size).filter _, fun q hq type size => ?_⟩
    simp only [List.mem_filter, h.mem q hq]
    by_cases hqr : q = p.rootPtr
    · simp [hqr, hroot]
    · simp [hqr]
  unfold Pmm.updateRootList
  split
  · split
    · next hpin =>
      have hroot : s.state p.rootPtr ≠ some .free := by
        intro hfree
        simp [chunkIsRootChunkPinned, hfree] at hpin
      exact ⟨(hdel hroot).1, (hdel hroot).2⟩
    · split
      · next hroot =>
        refine ⟨fun type size => ?_, fun q hq type size => ?_⟩
        · simpa [Pmm.listMoveTail, Pmm.listDelInit] using (hdel hroot).1 type size
        · simpa [Pmm.listMoveTail, Pmm.listDelInit] using (hdel hroot).2 q hq type size
      · exact h
  · exact h

theorem chunkUpdateListsLocked_eq : ∃ lists,
    s.chunkUpdateListsLocked p = { s with lists := lists } := by
  have hroot : ∃ lists, s.updateRootList p = { s with lists := lists } := by
    unfold Pmm.updateRootList
    split
    · split
      · exact ⟨_, rfl⟩
      · split
        · exact ⟨_, rfl⟩
        · exact ⟨s.lists, rfl⟩
    · exact ⟨s.lists, rfl⟩
  obtain ⟨lists, hlists⟩ := hroot
  unfold Pmm.chunkUpdateListsLocked
  dsimp only
  rw [hlists]
  split
  · exact ⟨_, rfl⟩
  · exact ⟨_, rfl⟩
  · exact ⟨_, rfl⟩

theorem ListsOff.chunkUpdateListsLocked (h : s.ListsOff p)
    (hp : s.state p = some .free ∨ s.state p = some .tempPinned) :
    (s.chunkUpdateListsLocked p).ListsInv := by
  have hroot := h.updateRootList (p := p)
  have hstate : (s.updateRootList p).state = s.state := by
    unfold Pmm.updateRootList
    split
    · split
      · rfl
      · split <;> rfl
    · rfl
  unfold Pmm.chunkUpdateListsLocked
  rcases hp with hp | hp
  · rw [hp]
    exact hroot.listMoveTail (by rw [hstate, hp])
  · rw [hp]
    exact hroot.listDelInit (by simp [hstate, hp])

/-! ## One chunk gets another state -/

/-- One chunk has got another state, and the counters above it have changed with it. -/
structure Relabelled (p : TreePtr) (old new : ChunkState) (s s' : Pmm) : Prop where
  before : s.state p = some old
  state : s'.state = update s.state p (some new)
  chunkSizes : s'.chunkSizes = s.chunkSizes
  address : s'.address = s.address
  size : s'.size = s.size
  type : s'.type = s.type
  inEviction : s'.inEviction = s.inEviction
  parent : ∀ q i, p = q.child i → s'.allocated q + (if old ≠ .free then 1 else 0) =
    s.allocated q + if new ≠ .free then 1 else 0
  others : ∀ q, p.parent ≠ some q → s'.allocated q = s.allocated q
  pinned : p ≠ p.rootPtr → s'.pinnedLeafChunks p.root + (if old = .tempPinned then 1 else 0) =
    s.pinnedLeafChunks p.root + if new = .tempPinned then 1 else 0
  roots : ∀ r ≠ p.root, s'.pinnedLeafChunks r = s.pinnedLeafChunks r

namespace Relabelled

variable {old new : ChunkState}

theorem state_self (h : Relabelled p old new s s') : s'.state p = some new := by
  rw [h.state, update_self]

theorem state_of_ne (h : Relabelled p old new s s') (hq : q ≠ p) : s'.state q = s.state q := by
  rw [h.state, update_of_ne hq]

theorem treeInv (h : Relabelled p old new s s') (htree : s.TreeInv) (hold : old ≠ .isSplit)
    (hnew : new ≠ .isSplit) (howned : new = .pmaOwned → p = p.rootPtr) : s'.TreeInv := by
  refine htree.congr h.chunkSizes h.address h.size (fun q => .inl (by rw [h.type])) (fun q => ?_)
    (fun q => ?_) fun q i => ?_
  · by_cases hq : q = p
    · simp [hq, h.state_self, h.before]
    · rw [h.state_of_ne hq]
  · by_cases hq : q = p
    · simp [hq, h.state_self, h.before, hold, hnew]
    · rw [h.state_of_ne hq]
  · by_cases hq : q.child i = p
    · rw [hq, h.state_self]
      intro heq
      have hroot := howned (Option.some.inj heq)
      rw [← hq] at hroot
      simp at hroot
    · rw [h.state_of_ne hq]
      exact htree.notOwned q i

theorem countersTrue (h : Relabelled p old new s s') (htree : s.TreeInv)
    (hctrs : s.CountersTrue) (hnew : new ≠ .isSplit) : s'.CountersTrue :=
  hctrs.relabel htree h.before hnew h.state h.size h.parent h.others h.pinned h.roots

end Relabelled

theorem CountersTrue.allocated_pos (h : s.CountersTrue) (htree : s.TreeInv) {i : ℕ}
    (hp : s.state (p.child i) ≠ none) (hfree : s.state (p.child i) ≠ some .free) :
    0 < s.allocated p := by
  have hsplit := htree.parent p i hp
  rw [h.allocated p hsplit]
  apply Finset.card_pos.mpr
  exact ⟨i, by simpa [hfree] using (htree.child_exists_iff hsplit i).mp hp⟩

theorem CountersTrue.pinned_pos (h : s.CountersTrue) (htree : s.TreeInv) (hroot : p ≠ p.rootPtr)
    (hp : s.state p = some .tempPinned) : 0 < s.pinnedLeafChunks p.root := by
  have hsplit := htree.split_of_exists (by rw [hp]; simp) hroot
  obtain ⟨S, hcard, hmem⟩ := h.pinned p.root hsplit
  rw [← hcard]
  exact Finset.card_pos.mpr ⟨p, (hmem p).mpr ⟨rfl, hp⟩⟩

variable {f : ℕ → ℕ}

theorem parentAllocated_of_ne (h : p.parent ≠ some q) :
    s.parentAllocated p f q = s.allocated q := by
  cases hpar : p.parent with
  | none => simp [parentAllocated, hpar]
  | some parent =>
    rw [hpar] at h
    simp [parentAllocated, hpar, update_of_ne (fun heq => h (congrArg some heq.symm))]

@[simp] theorem parentAllocated_child {i : ℕ} :
    s.parentAllocated (p.child i) f p = f (s.allocated p) := by
  simp [parentAllocated]

theorem chunkPin_eq : s.chunkPin p = { s with
    state := update s.state p (some .tempPinned)
    pinnedLeafChunks := if s.chunkIsRootChunk p then s.pinnedLeafChunks
      else update s.pinnedLeafChunks p.root (s.pinnedLeafChunks p.root + 1) } := by
  by_cases h : s.chunkIsRootChunk p = true
  · have h' : (s.setState p .tempPinned).chunkIsRootChunk p = true := h
    simp only [chunkPin, h, h']
    rfl
  · have h' : ¬ (s.setState p .tempPinned).chunkIsRootChunk p = true := h
    simp only [chunkPin, h, h']
    rfl

theorem chunkUnpin_eq (new : ChunkState) : s.chunkUnpin p new = { s with
    state := update s.state p (some new)
    pinnedLeafChunks := if s.chunkIsRootChunk p then s.pinnedLeafChunks
      else update s.pinnedLeafChunks p.root (s.pinnedLeafChunks p.root - 1) } := by
  by_cases h : s.chunkIsRootChunk p = true
  · have h' : (s.setState p new).chunkIsRootChunk p = true := h
    simp only [chunkUnpin, h, h']
    rfl
  · have h' : ¬ (s.setState p new).chunkIsRootChunk p = true := h
    simp only [chunkUnpin, h, h']
    rfl

private theorem ite_update_self {c : Prop} [Decidable c] {r n : ℕ} (hc : ¬ c) :
    (if c then f else update f r n) r = n := by
  rw [if_neg hc, update_self]

private theorem ite_update_of_ne {c : Prop} [Decidable c] {r k n : ℕ} (hr : r ≠ k) :
    (if c then f else update f k n) r = f r := by
  split
  · rfl
  · exact update_of_ne hr ..

def Held (s : Pmm) (p : TreePtr) : Prop := s.state p = some .tempPinned ∨ s.state p = some .allocated

theorem Held.ne_none (h : s.Held p) : s.state p ≠ none := by
  rcases h with h | h <;> simp [h]

theorem Held.ne_free (h : s.Held p) : s.state p ≠ some .free := by
  rcases h with h | h <;> simp [h]

theorem Held.ne_split (h : s.Held p) : s.state p ≠ some .isSplit := by
  rcases h with h | h <;> simp [h]

private theorem setParentAllocated_spec :
    (∀ q i, p = q.child i → (s.setParentAllocated p f).allocated q = f (s.allocated q)) ∧
      ∀ q, p.parent ≠ some q → (s.setParentAllocated p f).allocated q = s.allocated q := by
  constructor
  · rintro q i rfl
    exact parentAllocated_child
  · intro q hq
    exact parentAllocated_of_ne hq

theorem chunkFreeLocked_relabelled (htree : s.TreeInv) (hctrs : s.CountersTrue) {old : ChunkState}
    (hp : s.state p = some old) (hold : old = .tempPinned ∨ old = .allocated)
    (hevict : s.inEviction p.root = false) :
    Relabelled p old .free s (s.chunkFreeLocked p) := by
  have hexists : s.state p ≠ none := by simp [hp]
  have hroot := htree.chunkIsRootChunk_iff hexists
  have hpos : ∀ q i, p = q.child i → s.allocated q - 1 + 1 = s.allocated q := by
    rintro q i rfl
    have := hctrs.allocated_pos htree hexists (by rcases hold with rfl | rfl <;> simp [hp])
    omega
  obtain ⟨hpar, hothers⟩ := setParentAllocated_spec (s := s) (p := p) (f := (· - 1))
  unfold Pmm.chunkFreeLocked
  simp only [hevict, Bool.false_eq_true, if_false]
  rcases hold with rfl | rfl
  · rw [if_pos hp]
    obtain ⟨lists, hlists⟩ := chunkUpdateListsLocked_eq
      (s := (s.setParentAllocated p (· - 1)).chunkUnpin p .free) (p := p)
    rw [hlists, chunkUnpin_eq]
    refine ⟨hp, rfl, rfl, rfl, rfl, rfl, rfl, fun q i hq => ?_, hothers, fun hne => ?_,
      fun r hr => ?_⟩
    · change (s.setParentAllocated p (· - 1)).allocated q + _ = _
      rw [hpar q i hq]
      simpa using hpos q i hq
    · have hpin := hctrs.pinned_pos htree hne hp
      refine (congrArg (· + 1) (ite_update_self (mt hroot.mp hne))).trans ?_
      simp only [setParentAllocated, reduceCtorEq, if_false]
      omega
    · exact ite_update_of_ne hr
  · rw [if_neg (by simp [hp])]
    obtain ⟨lists, hlists⟩ := chunkUpdateListsLocked_eq
      (s := ((s.setParentAllocated p (· - 1)).setState p .free).setVaBlock p none) (p := p)
    rw [hlists]
    refine ⟨hp, rfl, rfl, rfl, rfl, rfl, rfl, fun q i hq => ?_, hothers, fun _ => by
      simp [setVaBlock, setState, setParentAllocated], fun _ _ => rfl⟩
    change (s.setParentAllocated p (· - 1)).allocated q + _ = _
    rw [hpar q i hq]
    simpa using hpos q i hq

theorem chunkFreeLocked_relabelled_evicting (htree : s.TreeInv)
    (hp : s.state p = some .allocated) (hevict : s.inEviction p.root = true) :
    Relabelled p .allocated .tempPinned s (s.chunkFreeLocked p) := by
  have hroot := htree.chunkIsRootChunk_iff (p := p) (by simp [hp])
  unfold Pmm.chunkFreeLocked
  simp only [hevict]
  rw [chunkPin_eq]
  refine ⟨hp, rfl, rfl, rfl, rfl, rfl, rfl, fun _ _ _ => by simp [setVaBlock], fun _ _ => rfl,
    fun hne => ?_, fun r hr => ?_⟩
  · exact ite_update_self (mt hroot.mp hne)
  · exact ite_update_of_ne hr

theorem claimChunk_relabelled (htree : s.TreeInv) (hp : s.state p = some .free) :
    Relabelled p .free .tempPinned s (s.claimChunk p) := by
  have hroot := htree.chunkIsRootChunk_iff (p := p) (by simp [hp])
  obtain ⟨hpar, hothers⟩ := setParentAllocated_spec (s := s) (p := p) (f := (· + 1))
  unfold Pmm.claimChunk
  obtain ⟨lists, hlists⟩ := chunkUpdateListsLocked_eq
    (s := (s.setParentAllocated p (· + 1)).chunkPin p) (p := p)
  rw [hlists, chunkPin_eq]
  refine ⟨hp, rfl, rfl, rfl, rfl, rfl, rfl, fun q i hq => ?_, hothers, fun hne => ?_,
    fun r hr => ?_⟩
  · change (s.setParentAllocated p (· + 1)).allocated q + _ = _
    rw [hpar q i hq]
    simp
  · exact ite_update_self (mt hroot.mp hne)
  · exact ite_update_of_ne hr

theorem chunkUnpin_relabelled (htree : s.TreeInv) (hctrs : s.CountersTrue)
    (hp : s.state p = some .tempPinned) (new : ChunkState) (hfree : new ≠ .free)
    (hpin : new ≠ .tempPinned) : Relabelled p .tempPinned new s (s.chunkUnpin p new) := by
  have hroot := htree.chunkIsRootChunk_iff (p := p) (by simp [hp])
  rw [chunkUnpin_eq]
  refine ⟨hp, rfl, rfl, rfl, rfl, rfl, rfl, fun q i hq => by simp [hfree], fun _ _ => rfl,
    fun hne => ?_, fun r hr => ?_⟩
  · have hpos := hctrs.pinned_pos htree hne hp
    refine (congrArg (· + 1) (ite_update_self (mt hroot.mp hne))).trans ?_
    simp only [hpin, if_false]
    omega
  · exact ite_update_of_ne hr

end Pmm

end NvUvm
