import Mathlib.Data.Finset.Card
import NvUvm.Pmm

/-!
# The tree of chunks

The part of the chunks' invariant that says how the chunks lie, and the counters of the split
chunks.
-/

namespace NvUvm

open Lib TreePtr

/-! ## Chunk sizes -/

namespace ChunkSizes

variable {sizes : ChunkSizes} {size z : ℕ}

theorem findPrevSize_mem (h : sizes.findPrevSize size = some z) : z ∈ sizes.sizes ∧ z < size := by
  have hmem := List.mem_of_getLast? h
  simpa using hmem

theorem pos_of_mem (h : z ∈ sizes.sizes) : 0 < z := by
  obtain ⟨k, rfl⟩ := sizes.pow z h
  exact Nat.two_pow_pos k

theorem findPrevSize_dvd (hsize : size ∈ sizes.sizes) (h : sizes.findPrevSize size = some z) :
    size / z * z = size ∧ 1 < size / z := by
  obtain ⟨hz, hlt⟩ := findPrevSize_mem h
  obtain ⟨a, rfl⟩ := sizes.pow z hz
  obtain ⟨b, rfl⟩ := sizes.pow size hsize
  have hab : a < b := (Nat.pow_lt_pow_iff_right (by decide)).mp hlt
  have hdvd : 2 ^ a ∣ 2 ^ b := Nat.pow_dvd_pow 2 (Nat.le_of_lt hab)
  refine ⟨Nat.div_mul_cancel hdvd, ?_⟩
  rw [Nat.pow_div (Nat.le_of_lt hab) (by decide)]
  exact Nat.one_lt_two_pow (by omega)

end ChunkSizes

namespace Pmm

variable {s s' : Pmm} {p q : TreePtr}

/-! ## How the chunks lie -/

def range (s : Pmm) (p : TreePtr) : Span := ⟨s.address p, s.size p⟩

/-- The subchunks of a split chunk are there, and tile it with the next smaller size. -/
structure TreeInv (s : Pmm) : Prop where
  rootState : ∀ r, s.state ⟨r, []⟩ ≠ none
  rootAddress : ∀ r, s.address ⟨r, []⟩ = r * uvmChunkSizeMax
  rootSize : ∀ r, s.size ⟨r, []⟩ = uvmChunkSizeMax
  parent : ∀ (p : TreePtr) i, s.state (p.child i) ≠ none → s.state p = some .isSplit
  notOwned : ∀ (p : TreePtr) i, s.state (p.child i) ≠ some .pmaOwned
  subchunks : ∀ p, s.state p = some .isSplit → ∃ size,
    (s.chunkSizes (s.type p)).findPrevSize (s.size p) = some size ∧
      ∀ i, (s.state (p.child i) ≠ none ↔ i < s.size p / size) ∧
        (i < s.size p / size → s.size (p.child i) = size ∧ s.type (p.child i) = s.type p ∧
          s.address (p.child i) = s.address p + i * size)

namespace TreeInv

theorem split_of_exists (h : s.TreeInv) (hp : s.state p ≠ none) (hroot : p ≠ p.rootPtr) :
    s.state p.rootPtr = some .isSplit := by
  obtain ⟨root, path⟩ := p
  -- up to the root
  induction path with
  | nil => exact absurd rfl hroot
  | cons i path ih =>
    have hpar := h.parent ⟨root, path⟩ i hp
    by_cases hpath : path = []
    · rw [hpath] at hpar
      exact hpar
    · refine ih (by rw [hpar]; simp) fun heq => hpath ?_
      simpa [rootPtr] using heq

theorem size_mem (h : s.TreeInv) (hp : s.state p ≠ none) :
    s.size p ∈ (s.chunkSizes (s.type p)).sizes := by
  obtain ⟨root, path⟩ := p
  cases path with
  | nil =>
    rw [h.rootSize]
    exact (s.chunkSizes _).max_mem
  | cons i path =>
    have hpar := h.parent ⟨root, path⟩ i hp
    obtain ⟨size, hprev, hsub⟩ := h.subchunks _ hpar
    obtain ⟨hsize, htype, -⟩ := (hsub i).2 ((hsub i).1.mp hp)
    change s.size (child ⟨root, path⟩ i) ∈ (s.chunkSizes (s.type (child ⟨root, path⟩ i))).sizes
    rw [hsize, htype]
    exact (ChunkSizes.findPrevSize_mem hprev).1

theorem numSubchunks_eq (h : s.TreeInv) (hp : s.state p = some .isSplit) {size : ℕ}
    (hprev : (s.chunkSizes (s.type p)).findPrevSize (s.size p) = some size) :
    s.numSubchunks p = s.size p / size ∧ 1 < s.numSubchunks p := by
  obtain ⟨size', hprev', hsub⟩ := h.subchunks p hp
  obtain rfl : size = size' := Option.some.inj (hprev.symm.trans hprev')
  have hpos := (ChunkSizes.findPrevSize_dvd (h.size_mem (by rw [hp]; simp)) hprev).2
  have hzero : s.size (p.child 0) = size := ((hsub 0).2 (by omega)).1
  have hnum : s.numSubchunks p = s.size p / size := by rw [numSubchunks, hzero]
  exact ⟨hnum, by rw [hnum]; exact hpos⟩

theorem child_exists_iff (h : s.TreeInv) (hp : s.state p = some .isSplit) (i : ℕ) :
    s.state (p.child i) ≠ none ↔ i < s.numSubchunks p := by
  obtain ⟨size, hprev, hsub⟩ := h.subchunks p hp
  rw [(h.numSubchunks_eq hp hprev).1]
  exact (hsub i).1

theorem one_lt_numSubchunks (h : s.TreeInv) (hp : s.state p = some .isSplit) :
    1 < s.numSubchunks p := by
  obtain ⟨size, hprev, -⟩ := h.subchunks p hp
  exact (h.numSubchunks_eq hp hprev).2

theorem tiled (h : s.TreeInv) : Tiled (fun p => s.state p ≠ none) s.range where
  parent := fun p i hp => by
    rw [h.parent p i hp]
    simp
  within := fun p i hp => by
    have hsplit := h.parent p i hp
    obtain ⟨size, hprev, hsub⟩ := h.subchunks p hsplit
    have hi := (hsub i).1.mp hp
    obtain ⟨hsize, -, haddress⟩ := (hsub i).2 hi
    have hdvd := (ChunkSizes.findPrevSize_dvd (h.size_mem (by rw [hsplit]; simp)) hprev).1
    have hle := Nat.mul_le_mul_right size (Nat.succ_le_of_lt hi)
    rw [hdvd, Nat.succ_mul] at hle
    refine ⟨?_, ?_⟩
    · simp only [range]
      omega
    · simp only [range, Span.stop, haddress]
      omega
  siblings := fun p i j hij hi hj => by
    have hsplit := h.parent p i hi
    obtain ⟨size, hprev, hsub⟩ := h.subchunks p hsplit
    obtain ⟨hsizei, -, haddressi⟩ := (hsub i).2 ((hsub i).1.mp hi)
    obtain ⟨hsizej, -, haddressj⟩ := (hsub j).2 ((hsub j).1.mp hj)
    have hbefore : ∀ {k l : ℕ}, k < l → k * size + size ≤ l * size := fun {k l} hkl => by
      have := Nat.mul_le_mul_right size (Nat.succ_le_of_lt hkl)
      rwa [Nat.succ_mul] at this
    rcases Nat.lt_or_gt_of_ne hij with hlt | hlt
    · left
      have := hbefore hlt
      simp only [Span.Before, range, Span.stop, haddressi, haddressj]
      omega
    · right
      have := hbefore hlt
      simp only [Span.Before, range, Span.stop, haddressi, haddressj]
      omega
  roots := fun p q hpq => by
    have hbefore : ∀ {k l : ℕ}, k < l →
        (s.range ⟨k, []⟩).Before (s.range ⟨l, []⟩) := fun {k l} hkl => by
      have := Nat.mul_le_mul_right uvmChunkSizeMax (Nat.succ_le_of_lt hkl)
      rw [Nat.succ_mul] at this
      simpa only [Span.Before, range, Span.stop, h.rootAddress, h.rootSize] using this
    rcases Nat.lt_or_gt_of_ne hpq with hlt | hlt
    · exact .inl (hbefore hlt)
    · exact .inr (hbefore hlt)

theorem split_of_under (h : s.TreeInv) (hp : s.state p ≠ none) (hpq : p.Under q) (hne : p ≠ q) :
    s.state q = some .isSplit := by
  rcases hpq.eq_or_child with heq | ⟨i, hi⟩
  · exact absurd heq hne
  · exact h.parent q i (h.tiled.live_of_under hi hp)

theorem leaves_disjoint (h : s.TreeInv) (hp : s.state p ≠ none) (hq : s.state q ≠ none)
    (hpsplit : s.state p ≠ some .isSplit) (hqsplit : s.state q ≠ some .isSplit) (hne : p ≠ q) :
    (s.range p).Disjoint (s.range q) :=
  h.tiled.disjoint hp hq (fun hpq => hqsplit (h.split_of_under hp hpq hne))
    fun hqp => hpsplit (h.split_of_under hq hqp hne.symm)

theorem chunkIsRootChunk_iff (h : s.TreeInv) (hp : s.state p ≠ none) :
    s.chunkIsRootChunk p = true ↔ p = p.rootPtr := by
  rw [chunkIsRootChunk, decide_eq_true_iff]
  constructor
  · intro hsize
    by_contra hroot
    -- a subchunk is smaller than its parent
    obtain ⟨parent, hpar⟩ := Option.ne_none_iff_exists'.mp (mt parent_eq_none.mp hroot)
    obtain ⟨i, rfl⟩ := parent_eq_some.mp hpar
    have hsplit := h.parent parent i hp
    obtain ⟨size, hprev, hsub⟩ := h.subchunks parent hsplit
    have hlt := (ChunkSizes.findPrevSize_mem hprev).2
    have hle := (s.chunkSizes (s.type parent)).le_max _ (h.size_mem (by rw [hsplit]; simp))
    rw [((hsub i).2 ((hsub i).1.mp hp)).1] at hsize
    omega
  · intro hroot
    rw [hroot]
    exact h.rootSize p.root

theorem congr (h : s.TreeInv) (hsizes : s'.chunkSizes = s.chunkSizes)
    (haddress : s'.address = s.address) (hsize : s'.size = s.size)
    (htype : ∀ p, s'.type p = s.type p ∨ p.path = [] ∧ s.state p ≠ some .isSplit)
    (hnone : ∀ p, s'.state p = none ↔ s.state p = none)
    (hsplit : ∀ p, s'.state p = some .isSplit ↔ s.state p = some .isSplit)
    (howned : ∀ (p : TreePtr) i, s'.state (p.child i) ≠ some .pmaOwned) : s'.TreeInv where
  rootState := fun r => mt (hnone _).mp (h.rootState r)
  rootAddress := by
    rw [haddress]
    exact h.rootAddress
  rootSize := by
    rw [hsize]
    exact h.rootSize
  parent := fun p i hp => (hsplit p).mpr (h.parent p i (mt (hnone _).mpr hp))
  notOwned := howned
  subchunks := fun p hp => by
    have hp := (hsplit p).mp hp
    have hsame : s'.type p = s.type p := (htype p).resolve_right fun hroot => hroot.2 hp
    have hchild : ∀ i, s'.type (p.child i) = s.type (p.child i) := fun i =>
      (htype _).resolve_right (by simp [child])
    obtain ⟨size, hprev, hsub⟩ := h.subchunks p hp
    refine ⟨size, ?_, fun i => ?_⟩
    · rw [hsizes, hsame, hsize]
      exact hprev
    · rw [hsize, haddress, hsame, hchild i]
      exact ⟨(not_congr (hnone _)).trans (hsub i).1, (hsub i).2⟩

end TreeInv

end Pmm

end NvUvm
