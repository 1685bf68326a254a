import NvUvm.RangeTreeRuns

/-!
# The region tracker of UVM-Lite

Model of `uvm_lite_region_tracking.c`: a red-black tree of regions, half open, that are pairwise
disjoint or nested.  The comment in the source orders them: of two disjoint regions the one at lower
addresses comes first, and of two nested ones the inner one.

A search turns left at an entry that begins after its target.  After rebalancing, a region that
encloses this entry can be in its right subtree, and the search misses it.
-/

namespace NvUvm

open Lib

/-! ## Regions -/

/-- A region `[start, stop)` of addresses. -/
structure Region where
  start : ℕ
  stop : ℕ
  start_lt_stop : start < stop
  deriving DecidableEq, Repr

namespace Region

def Within (q r : Region) : Prop := r.start ≤ q.start ∧ q.stop ≤ r.stop

/-- The first region ends where the second one begins, or before. -/
def Below (q r : Region) : Prop := q.stop ≤ r.start

instance (q r : Region) : Decidable (q.Within r) := inferInstanceAs (Decidable (_ ∧ _))

instance (q r : Region) : Decidable (q.Below r) := inferInstanceAs (Decidable (_ ≤ _))

def ofAddress (address : ℕ) : Region := ⟨address, address + 1, Nat.lt_succ_self address⟩

theorem Within.refl (r : Region) : r.Within r := ⟨Nat.le_refl _, Nat.le_refl _⟩

variable {q r : Region}

theorem Within.trans {s : Region} (hqr : q.Within r) (hrs : r.Within s) : q.Within s :=
  ⟨Nat.le_trans hrs.1 hqr.1, Nat.le_trans hqr.2 hrs.2⟩

theorem Within.antisymm (hqr : q.Within r) (hrq : r.Within q) : q = r := by
  obtain ⟨a, b, hab⟩ := q
  obtain ⟨c, d, hcd⟩ := r
  obtain rfl : a = c := Nat.le_antisymm hrq.1 hqr.1
  obtain rfl : b = d := Nat.le_antisymm hqr.2 hrq.2
  rfl

theorem not_below_of_within {s : Region} (hr : q.Within r) (hs : q.Within s) : ¬ r.Below s := by
  have hlt := q.start_lt_stop
  unfold Within Below at *
  omega

end Region

/-! ## The tracker -/

/-- `struct _tree_node`, less its links in the tree. -/
structure TreeNode (D O : Type*) where
  region : Region
  data : D
  owner : O

/-- `struct s_UvmRegionTracker`.  The entries are numbered in the order they were allocated. -/
structure RegionTracker (D O : Type*) where
  node : ℕ → TreeNode D O
  allocated : ℕ
  rbRoot : SearchTree ℕ

namespace RegionTracker

variable {D O : Type*} (rb : RbPrimitives) (s : RegionTracker D O)

/-- `uvm_create_region_tracker`, with whatever the memory of the entries holds. -/
def create (node : ℕ → TreeNode D O) : RegionTracker D O := ⟨node, 0, .nil⟩

def region (n : ℕ) : Region := (s.node n).region

def tracked : List ℕ := s.rbRoot.inorder

/-- The loop of `_uvm_find_containing_region`, at a subtree. -/
def findContaining (q : Region) : SearchTree ℕ → Option ℕ → Option ℕ
  | .nil, parent => parent
  | .node l n r, parent =>
    if q.Within (s.region n) then findContaining q l (some n)
    else if q.start < (s.region n).start then findContaining q l parent
    else findContaining q r parent

/-- `_uvm_find_containing_region`. -/
def findContainingRegion (q : Region) : Option ℕ := s.findContaining q s.rbRoot none

/-- The turn of `_uvm_insert_region` at an entry. -/
def compareInsert (q : Region) (n : ℕ) : Ordering :=
  if q.Within (s.region n) then .lt
  else if q.start < (s.region n).start then .lt
  else .gt

/-- `_uvm_insert_region`, of an entry that is filled in. -/
def insertRegion (n : ℕ) : RegionTracker D O :=
  match s.rbRoot.find (s.compareInsert (s.region n)) none with
  | (_, none) => { s with rbRoot := rb.insertColor n (.node .nil n .nil) }
  | (_, some parent) =>
    if s.compareInsert (s.region n) parent = .lt then
      { s with rbRoot := rb.insertColor n (s.rbRoot.linkLeft parent n) }
    else { s with rbRoot := rb.insertColor n (s.rbRoot.linkRight parent n) }

/-- The entry that `kmem_cache_alloc` returns, filled in. -/
def allocNode (r : Region) (trackdata : D) (owner : O) : RegionTracker D O :=
  { s with
    node := Function.update s.node s.allocated ⟨r, trackdata, owner⟩
    allocated := s.allocated + 1 }

/-- `uvm_track_region`. -/
def trackRegion (r : Region) (trackdata : D) (owner : O) : RegionTracker D O :=
  (s.allocNode r trackdata owner).insertRegion rb s.allocated

/-- `rb_erase` and `kmem_cache_free` of an entry. -/
def eraseNode (n : ℕ) : RegionTracker D O := { s with rbRoot := rb.erase n s.rbRoot }

/-- `uvm_untrack_region`. -/
def untrackRegion (q : Region) : Option D × RegionTracker D O :=
  match s.findContainingRegion q with
  | some n => (some (s.node n).data, s.eraseNode rb n)
  | none => (none, s)

/-- `NV_ERR_OBJECT_NOT_FOUND`. -/
def objectNotFound : NvStatus := .other 0x57

/-- The loop of `uvm_get_info_from_address`, with the entry whose data and owner were written
last. -/
def addressLoop (address : ℕ) : SearchTree ℕ → Option ℕ → Option ℕ
  | .nil, found => found
  | .node l n r, found =>
    if (s.region n).stop ≤ address then addressLoop address r found
    else addressLoop address l (if (s.region n).start ≤ address then some n else found)

/-- The status of a lookup, and the entry whose data and owner are handed out. -/
def info (found : Option ℕ) : NvStatus × Option ℕ :=
  (if found.isSome then .ok else objectNotFound, found)

/-- `uvm_get_info_from_address`. -/
def getInfoFromAddress (address : ℕ) : NvStatus × Option ℕ :=
  info (s.addressLoop address s.rbRoot none)

/-- `uvm_get_info_from_region`. -/
def getInfoFromRegion (q : Region) : NvStatus × Option ℕ := info (s.findContainingRegion q)

/-! ## What a lookup asks for -/

/-- The innermost tracked region that contains a region; of equal regions, the one tracked last. -/
def Innermost (q : Region) (n : ℕ) : Prop :=
  n ∈ s.tracked ∧ q.Within (s.region n) ∧
    ∀ m ∈ s.tracked, q.Within (s.region m) →
      (s.region n).Within (s.region m) ∧ (s.region m = s.region n → m ≤ n)

instance (q : Region) (n : ℕ) : Decidable (s.Innermost q n) := by
  unfold Innermost; infer_instance

/-- The right outcome of a lookup: the innermost region, or nothing where no region contains the
target. -/
def LookupRight (q : Region) : Option ℕ → Prop
  | some n => s.Innermost q n
  | none => ∀ n ∈ s.tracked, ¬ q.Within (s.region n)

instance (q : Region) (found : Option ℕ) : Decidable (s.LookupRight q found) := by
  cases found <;> unfold LookupRight <;> infer_instance

/-- The order of the tree: disjoint regions by address, of nested ones the inner one first, of equal
ones the one tracked last first. -/
def Before (x y : ℕ) : Prop :=
  ((s.region x).Within (s.region y) ∧ (s.region x = s.region y → y < x)) ∨
    (s.region x).Below (s.region y)

/-- The entries are in their order, and new ones are not among them. -/
def Inv : Prop := s.tracked.Pairwise s.Before ∧ ∀ n ∈ s.tracked, n < s.allocated

variable {s} {q r : Region} {n m : ℕ}

theorem not_before_self : ¬ s.Before n n := by
  have hlt := (s.region n).start_lt_stop
  rintro (⟨-, h⟩ | h)
  · exact Nat.lt_irrefl n (h rfl)
  · unfold Region.Below at h
    omega

theorem nodup_of_pairwise {l : List ℕ} (h : l.Pairwise s.Before) : l.Nodup := by
  apply h.imp
  rintro x y hxy rfl
  exact not_before_self hxy

theorem Inv.nodup (h : s.Inv) : s.tracked.Nodup := nodup_of_pairwise h.1

theorem Before.within (h : s.Before n m) (hn : q.Within (s.region n)) (hm : q.Within (s.region m)) :
    (s.region n).Within (s.region m) ∧ (s.region m = s.region n → m ≤ n) := by
  rcases h with ⟨hwithin, hlt⟩ | hbelow
  · exact ⟨hwithin, fun heq => Nat.le_of_lt (hlt heq.symm)⟩
  · exact absurd hbelow (Region.not_below_of_within hn hm)

theorem Innermost.unique (hn : s.Innermost q n) (hm : s.Innermost q m) : n = m := by
  obtain ⟨hnm, hle⟩ := hn.2.2 m hm.1 hm.2.1
  obtain ⟨hmn, hle'⟩ := hm.2.2 n hn.1 hn.2.1
  have heq := hnm.antisymm hmn
  exact Nat.le_antisymm (hle' heq) (hle heq.symm)

theorem Inv.exists_innermost (h : s.Inv) (hn : n ∈ s.tracked) (hq : q.Within (s.region n)) :
    ∃ k, s.Innermost q k := by
  cases hfind : s.tracked.find? (fun m => decide (q.Within (s.region m))) with
  | none =>
    have hnone := List.find?_eq_none.mp hfind n hn
    exact absurd hq (by simpa using hnone)
  | some k =>
    obtain ⟨hk, pre, post, hord, hpre⟩ := List.find?_eq_some_iff_append.mp hfind
    have hkq : q.Within (s.region k) := by simpa using hk
    refine ⟨k, by simp [hord], hkq, fun m hm hmq => ?_⟩
    rw [hord, List.mem_append, List.mem_cons] at hm
    rcases hm with hm | rfl | hm
    · exact absurd hmq (by simpa using hpre m hm)
    · exact ⟨.refl _, fun _ => Nat.le_refl _⟩
    · have hpair := h.1
      rw [hord] at hpair
      have hbefore := (List.pairwise_cons.mp (List.pairwise_append.mp hpair).2.1).1 m hm
      exact hbefore.within hkq hmq

/-! ## Insertion -/

/-- The region is disjoint from or contained in every tracked one. -/
def Nests (s : RegionTracker D O) (r : Region) : Prop :=
  ∀ n ∈ s.tracked, r.Within (s.region n) ∨ r.Below (s.region n) ∨ (s.region n).Below r

instance (r : Region) : Decidable (s.Nests r) := by unfold Nests; infer_instance

theorem Nests.left (h : s.Nests r) (hn : n ∈ s.tracked) (hcmp : s.compareInsert r n = .lt) :
    r.Within (s.region n) ∨ r.Below (s.region n) := by
  rcases h n hn with hwithin | hbelow | habove
  · exact .inl hwithin
  · exact .inr hbelow
  · have hlt := (s.region n).start_lt_stop
    unfold compareInsert at hcmp
    split at hcmp
    · next hwithin => exact .inl hwithin
    · split at hcmp
      · next hstart =>
        unfold Region.Below at habove
        omega
      · cases hcmp

theorem Nests.right (h : s.Nests r) (hn : n ∈ s.tracked) (hcmp : s.compareInsert r n = .gt) :
    (s.region n).Below r := by
  unfold compareInsert at hcmp
  split at hcmp
  · cases hcmp
  · next hwithin =>
    split at hcmp
    · cases hcmp
    · next hstart =>
      have hlt := r.start_lt_stop
      rcases h n hn with hin | hbelow | habove
      · exact absurd hin hwithin
      · unfold Region.Below at hbelow
        omega
      · exact habove

theorem Inv.searchable (h : s.Inv) (hr : s.Nests r) : Searchable (s.compareInsert r) s.tracked := by
  apply List.Pairwise.imp_of_mem _ h.1
  intro x y hx hy hxy
  by_cases hcmp : s.compareInsert r x = .gt
  · exact .inl hcmp
  · -- the region comes before `x`, and so before `y`
    right
    have hleft : s.compareInsert r x = .lt := by
      unfold compareInsert at hcmp ⊢
      split <;> simp_all
    have hrx := hr.left hx hleft
    have hxlt := (s.region x).start_lt_stop
    have hylt := (s.region y).start_lt_stop
    unfold compareInsert
    by_cases hwithin : r.Within (s.region y)
    · rw [if_pos hwithin]
    · rw [if_neg hwithin, if_pos]
      unfold Before at hxy
      unfold Region.Within Region.Below at *
      omega

@[simp] theorem insertRegion_node : (s.insertRegion rb n).node = s.node := by
  unfold insertRegion
  split
  · rfl
  · split <;> rfl

@[simp] theorem insertRegion_allocated : (s.insertRegion rb n).allocated = s.allocated := by
  unfold insertRegion
  split
  · rfl
  · split <;> rfl

theorem compareInsert_ne_eq : s.compareInsert r n ≠ .eq := by
  unfold compareInsert
  split
  · simp
  · split <;> simp

theorem insertRegion_tracked (h : Searchable (s.compareInsert (s.region n)) s.tracked)
    (hnd : s.tracked.Nodup) :
    ∃ pre post, s.tracked = pre ++ post ∧ (s.insertRegion rb n).tracked = pre ++ n :: post ∧
      (∀ x ∈ pre, s.compareInsert (s.region n) x = .gt) ∧
      ∀ x ∈ post, s.compareInsert (s.region n) x = .lt := by
  have hspec := SearchTree.find_spec h hnd none
  unfold insertRegion
  cases hfind : s.rbRoot.find (s.compareInsert (s.region n)) none with
  | mk found last =>
    rw [hfind] at hspec
    cases found with
    | some k => exact absurd hspec.2 compareInsert_ne_eq
    | none =>
      rcases hspec.2 with ⟨hnil, rfl⟩ | ⟨parent, rfl, pre, post, hord, hplace⟩
      · refine ⟨[], [], by rw [tracked, hnil]; rfl, ?_, by simp, by simp⟩
        simp [tracked, rb.inorder_insertColor, SearchTree.inorder]
      · -- the entries on either side of the parent
        have hsides := h
        rw [tracked, hord] at hsides
        obtain ⟨-, hpost, hpre⟩ := List.pairwise_append.mp hsides
        have hpost := (List.pairwise_cons.mp hpost).1
        rcases hplace with ⟨hlt, hgt, hlink⟩ | ⟨hgt, hlt, hlink⟩
        · refine ⟨pre, parent :: post, hord, ?_, hgt, fun x hx => ?_⟩
          · dsimp only
            rw [if_pos hlt]
            simp only [tracked, rb.inorder_insertColor, hlink]
          · rcases List.mem_cons.mp hx with rfl | hx
            · exact hlt
            · simpa [hlt] using hpost x hx
        · refine ⟨pre ++ [parent], post, by simp [tracked, hord], ?_, fun x hx => ?_, hlt⟩
          · dsimp only
            rw [if_neg (by simp [hgt])]
            simp only [tracked, rb.inorder_insertColor, hlink]
            simp
          · rcases List.mem_append.mp hx with hx | hx
            · simpa [hgt] using hpre x hx parent List.mem_cons_self
            · obtain rfl := List.mem_singleton.mp hx
              exact hgt

theorem trackRegion_node {d : D} {o : O} :
    (s.trackRegion rb r d o).node = Function.update s.node s.allocated ⟨r, d, o⟩ :=
  insertRegion_node rb

theorem trackRegion_region_self {d : D} {o : O} :
    (s.trackRegion rb r d o).region s.allocated = r := by
  rw [region, trackRegion_node, Function.update_self]

theorem Inv.trackRegion_region (h : s.Inv) {d : D} {o : O} (hn : n ∈ s.tracked) :
    (s.trackRegion rb r d o).region n = s.region n := by
  have hne := Nat.ne_of_lt (h.2 n hn)
  rw [region, trackRegion_node, Function.update_of_ne hne]
  rfl

theorem Inv.trackRegion (h : s.Inv) (hr : s.Nests r) (d : D) (o : O) :
    (s.trackRegion rb r d o).Inv ∧
      ∀ m, m ∈ (s.trackRegion rb r d o).tracked ↔ m = s.allocated ∨ m ∈ s.tracked := by
  -- the new entry is none of the tree
  have hregion : ∀ n ∈ s.tracked, (s.allocNode r d o).region n = s.region n := by
    intro n hn
    simp [region, allocNode, Function.update_of_ne (Nat.ne_of_lt (h.2 n hn))]
  have hself : (s.allocNode r d o).region s.allocated = r := by simp [region, allocNode]
  have hcompare : ∀ n ∈ s.tracked, (s.allocNode r d o).compareInsert r n = s.compareInsert r n := by
    intro n hn
    unfold compareInsert
    rw [hregion n hn]
  have hsearch : Searchable ((s.allocNode r d o).compareInsert
      ((s.allocNode r d o).region s.allocated)) (s.allocNode r d o).tracked := by
    rw [hself]
    apply List.Pairwise.imp_of_mem _ (h.searchable hr)
    intro x y hx hy hxy
    rwa [hcompare x hx, hcompare y hy]
  obtain ⟨pre, post, hord, hnew, hpre, hpost⟩ :=
    insertRegion_tracked rb hsearch h.nodup
  rw [hself] at hpre hpost
  change s.tracked = pre ++ post at hord
  change (s.trackRegion rb r d o).tracked = _ at hnew
  have hmem : ∀ m, m ∈ (s.trackRegion rb r d o).tracked ↔ m = s.allocated ∨ m ∈ s.tracked := by
    intro m
    rw [hnew, hord, List.mem_append, List.mem_cons, List.mem_append]
    tauto
  have hinPre : ∀ x ∈ pre, x ∈ s.tracked := by simp [hord]; tauto
  have hinPost : ∀ x ∈ post, x ∈ s.tracked := by simp [hord]; tauto
  -- the order of two old entries is as before
  have hold : ∀ x y, x ∈ s.tracked → y ∈ s.tracked → s.Before x y →
      (s.trackRegion rb r d o).Before x y := by
    intro x y hx hy hxy
    unfold Before
    rwa [h.trackRegion_region rb hx, h.trackRegion_region rb hy]
  have hpairs := h.1
  rw [hord] at hpairs
  obtain ⟨hpairsPre, hpairsPost, hacross⟩ := List.pairwise_append.mp hpairs
  refine ⟨⟨?_, fun m hm => ?_⟩, hmem⟩
  · rw [hnew]
    refine List.pairwise_append.mpr ⟨?_, List.pairwise_cons.mpr ⟨fun y hy => ?_, ?_⟩, ?_⟩
    · exact hpairsPre.imp_of_mem fun hx hy => hold _ _ (hinPre _ hx) (hinPre _ hy)
    · -- the new entry and one behind it
      have hyt := hinPost y hy
      unfold Before
      rw [trackRegion_region_self, h.trackRegion_region rb hyt]
      have hleft := hr.left hyt (by rw [← hcompare y hyt]; exact hpost y hy)
      exact hleft.imp_left fun hwithin => ⟨hwithin, fun _ => h.2 y hyt⟩
    · exact hpairsPost.imp_of_mem fun hx hy => hold _ _ (hinPost _ hx) (hinPost _ hy)
    · intro x hx y hy
      have hxt := hinPre x hx
      rcases List.mem_cons.mp hy with rfl | hy
      · right
        rw [trackRegion_region_self, h.trackRegion_region rb hxt]
        exact hr.right hxt (by rw [← hcompare x hxt]; exact hpre x hx)
      · exact hold x y hxt (hinPost y hy) (hacross x hx y hy)
  · have hallocated : (s.trackRegion rb r d o).allocated = s.allocated + 1 :=
      insertRegion_allocated rb
    rw [hallocated]
    rcases (hmem m).mp hm with rfl | hm
    · exact Nat.lt_succ_self _
    · exact Nat.lt_succ_of_lt (h.2 m hm)

/-! ## Removal -/

theorem Inv.eraseNode (h : s.Inv) : (s.eraseNode rb n).Inv ∧
      ∀ m, m ∈ (s.eraseNode rb n).tracked ↔ m ∈ s.tracked ∧ m ≠ n := by
  have hord : (s.eraseNode rb n).tracked = s.tracked.erase n := rb.inorder_erase n _ h.nodup
  have hmem : ∀ m, m ∈ (s.eraseNode rb n).tracked ↔ m ∈ s.tracked ∧ m ≠ n := by
    intro m
    rw [hord, h.nodup.mem_erase_iff, and_comm]
  refine ⟨⟨?_, fun m hm => h.2 m ((hmem m).mp hm).1⟩, hmem⟩
  rw [hord]
  exact h.1.sublist List.erase_sublist

/-! ## The search -/

/-- Entry `n` is in the right subtree of entry `e`. -/
def RightOf (e n : ℕ) : SearchTree ℕ → Prop
  | .nil => False
  | .node l k r => (e = k ∧ n ∈ r.inorder) ∨ RightOf e n l ∨ RightOf e n r

/-- The entry is in the right subtree of an entry that begins after the target, where no search for
the target turns. -/
def HiddenIn (s : RegionTracker D O) (t : SearchTree ℕ) (q : Region) (n : ℕ) : Prop :=
  ∃ e, RightOf e n t ∧ q.start < (s.region e).start

theorem HiddenIn.left {l r : SearchTree ℕ} {k : ℕ} (h : s.HiddenIn l q n) :
    s.HiddenIn (.node l k r) q n := by
  obtain ⟨e, he, hstart⟩ := h
  exact ⟨e, .inr (.inl he), hstart⟩

theorem HiddenIn.right {l r : SearchTree ℕ} {k : ℕ} (h : s.HiddenIn r q n) :
    s.HiddenIn (.node l k r) q n := by
  obtain ⟨e, he, hstart⟩ := h
  exact ⟨e, .inr (.inr he), hstart⟩

variable {t : SearchTree ℕ}

theorem RightOf.mem {e n : ℕ} (h : RightOf e n t) : e ∈ t.inorder ∧ n ∈ t.inorder := by
  induction t with
  | nil => exact h.elim
  | node l k r ihl ihr =>
    simp only [SearchTree.inorder, List.mem_append, List.mem_cons]
    rcases h with ⟨rfl, hn⟩ | h | h
    · exact ⟨.inr (.inl rfl), .inr (.inr hn)⟩
    · exact ⟨.inl (ihl h).1, .inl (ihl h).2⟩
    · exact ⟨.inr (.inr (ihr h).1), .inr (.inr (ihr h).2)⟩

theorem findContaining_mem (parent : Option ℕ) : s.findContaining q t parent = parent ∨
      ∃ n ∈ t.inorder, q.Within (s.region n) ∧ s.findContaining q t parent = some n := by
  induction t generalizing parent with
  | nil => exact .inl rfl
  | node l k r ihl ihr =>
    simp only [SearchTree.inorder, List.mem_append, List.mem_cons]
    unfold findContaining
    split
    · next hk =>
      rcases ihl (some k) with hfind | ⟨n, hn, hq, hfind⟩
      · exact .inr ⟨k, .inr (.inl rfl), hk, hfind⟩
      · exact .inr ⟨n, .inl hn, hq, hfind⟩
    · split
      · rcases ihl parent with hfind | ⟨n, hn, hq, hfind⟩
        · exact .inl hfind
        · exact .inr ⟨n, .inl hn, hq, hfind⟩
      · rcases ihr parent with hfind | ⟨n, hn, hq, hfind⟩
        · exact .inl hfind
        · exact .inr ⟨n, .inr (.inr hn), hq, hfind⟩

theorem findContaining_of_not_hidden (parent : Option ℕ) (h : t.inorder.Pairwise s.Before)
    (hn : n ∈ t.inorder) (hq : q.Within (s.region n)) (hseen : ¬ s.HiddenIn t q n) :
    ∃ m ∈ t.inorder, s.findContaining q t parent = some m ∧ q.Within (s.region m) ∧
      (m = n ∨ s.Before m n) := by
  induction t generalizing parent with
  | nil => cases hn
  | node l k r ihl ihr =>
    obtain ⟨hl, hr, hacross⟩ := List.pairwise_append.mp h
    obtain ⟨hkr, hr⟩ := List.pairwise_cons.mp hr
    simp only [SearchTree.inorder, List.mem_append, List.mem_cons] at hn ⊢
    unfold findContaining
    by_cases hk : q.Within (s.region k)
    · -- the search records `k` and turns left
      rw [if_pos hk]
      have hfound : ∃ m, (m ∈ l.inorder ∨ m = k) ∧ q.Within (s.region m) ∧
          s.findContaining q l (some k) = some m := by
        rcases findContaining_mem (s := s) (q := q) (t := l) (some k) with
          hfind | ⟨m, hm, hmq, hfind⟩
        · exact ⟨k, .inr rfl, hk, hfind⟩
        · exact ⟨m, .inl hm, hmq, hfind⟩
      rcases hn with hn | rfl | hn
      · obtain ⟨m, hm, hfind, hmq, hmn⟩ := ihl (some k) hl hn fun hid => hseen hid.left
        exact ⟨m, .inl hm, hfind, hmq, hmn⟩
      · obtain ⟨m, hm | rfl, hmq, hfind⟩ := hfound
        · exact ⟨m, .inl hm, hfind, hmq, .inr (hacross m hm n List.mem_cons_self)⟩
        · exact ⟨m, .inr (.inl rfl), hfind, hmq, .inl rfl⟩
      · obtain ⟨m, hm | rfl, hmq, hfind⟩ := hfound
        · exact ⟨m, .inl hm, hfind, hmq, .inr (hacross m hm n (List.mem_cons_of_mem k hn))⟩
        · exact ⟨m, .inr (.inl rfl), hfind, hmq, .inr (hkr n hn)⟩
    · rw [if_neg hk]
      rcases hn with hn | rfl | hn
      · -- the entry lies below `k`, and with it the target
        have hstart : q.start < (s.region k).start := by
          rcases hacross n hn k List.mem_cons_self with ⟨hwithin, -⟩ | hbelow
          · exact absurd (hq.trans hwithin) hk
          · have hlt := q.start_lt_stop
            unfold Region.Within Region.Below at *
            omega
        rw [if_pos hstart]
        obtain ⟨m, hm, hfind, hmq, hmn⟩ := ihl parent hl hn fun hid => hseen hid.left
        exact ⟨m, .inl hm, hfind, hmq, hmn⟩
      · exact absurd hq hk
      · rw [if_neg fun hstart => hseen ⟨k, .inl ⟨rfl, hn⟩, hstart⟩]
        obtain ⟨m, hm, hfind, hmq, hmn⟩ := ihr parent hr hn fun hid => hseen hid.right
        exact ⟨m, .inr (.inr hm), hfind, hmq, hmn⟩

theorem not_hidden_of_findContaining {parent : Option ℕ} (hnd : t.inorder.Nodup)
    (hn : n ∈ t.inorder) (hpar : parent ≠ some n)
    (hfind : s.findContaining q t parent = some n) : ¬ s.HiddenIn t q n := by
  induction t generalizing parent with
  | nil => cases hn
  | node l k r ihl ihr =>
    obtain ⟨hl, hr, hdisj⟩ := List.nodup_append.mp hnd
    obtain ⟨hkr, hr⟩ := List.nodup_cons.mp hr
    have hnl : n ∈ l.inorder → n ∉ r.inorder := fun h h' =>
      hdisj n h n (List.mem_cons_of_mem k h') rfl
    -- what the search of the left subtree ends with is not in the right one
    have hleft : ∀ found : Option ℕ, (found = some n → n = k) →
        s.findContaining q l found = some n → ¬ s.HiddenIn (.node l k r) q n := by
      rintro found hfound hfindl ⟨e, he, hstart⟩
      rcases findContaining_mem (s := s) (q := q) (t := l) found with
        heq | ⟨m, hm, -, heq⟩
      · obtain rfl := hfound (heq.symm.trans hfindl)
        have hnl' : n ∉ l.inorder := fun h => hdisj n h n List.mem_cons_self rfl
        rcases he with ⟨-, hnr⟩ | he | he
        · exact hkr hnr
        · exact hnl' he.mem.2
        · exact hkr he.mem.2
      · obtain rfl : m = n := Option.some.inj (heq.symm.trans hfindl)
        have hmk : found ≠ some m := by
          intro h
          exact hdisj m hm m (hfound h ▸ List.mem_cons_self) rfl
        rcases he with ⟨-, hnr⟩ | he | he
        · exact hnl hm hnr
        · exact ihl hl hm hmk hfindl ⟨e, he, hstart⟩
        · exact hnl hm he.mem.2
    unfold findContaining at hfind
    split at hfind
    · exact hleft (some k) (fun h => (Option.some.inj h).symm) hfind
    · split at hfind
      · exact hleft parent (fun h => absurd h hpar) hfind
      · next hk hstart =>
        rcases findContaining_mem (s := s) (q := q) (t := r) parent with
          heq | ⟨m, hm, -, heq⟩
        · exact absurd (heq.symm.trans hfind) hpar
        · obtain rfl : m = n := Option.some.inj (heq.symm.trans hfind)
          rintro ⟨e, ⟨rfl, -⟩ | he | he, hlt⟩
          · exact hstart hlt
          · exact hnl he.mem.2 hm
          · exact ihr hr hm hpar hfind ⟨e, he, hlt⟩

/-- The entry is hidden from the searches of the tracker. -/
def Hidden (s : RegionTracker D O) (q : Region) (n : ℕ) : Prop := s.HiddenIn s.rbRoot q n

/-- The innermost region that contains the target, if there is one, is not hidden. -/
def Seen (s : RegionTracker D O) (q : Region) : Prop := ∀ n, s.Innermost q n → ¬ s.Hidden q n

theorem Inv.lookupRight_iff (h : s.Inv) :
    s.LookupRight q (s.findContainingRegion q) ↔ s.Seen q := by
  constructor
  · intro hright n hn
    cases hfind : s.findContainingRegion q with
    | none =>
      rw [hfind] at hright
      exact absurd hn.2.1 (hright n hn.1)
    | some m =>
      rw [hfind] at hright
      obtain rfl := Innermost.unique hright hn
      exact not_hidden_of_findContaining h.nodup hn.1 (by simp) hfind
  · intro hseen
    cases hfind : s.findContainingRegion q with
    | none =>
      intro n hn hq
      obtain ⟨k, hk⟩ := h.exists_innermost hn hq
      obtain ⟨m, -, hfind', -⟩ :=
        findContaining_of_not_hidden none h.1 hk.1 hk.2.1 (hseen k hk)
      simp [findContainingRegion, hfind'] at hfind
    | some n =>
      rcases findContaining_mem (s := s) (q := q) (t := s.rbRoot) none with
        heq | ⟨m, hm, hq, heq⟩
      · simp [findContainingRegion, heq] at hfind
      · obtain rfl : m = n := Option.some.inj (heq.symm.trans hfind)
        obtain ⟨k, hk⟩ := h.exists_innermost hm hq
        obtain ⟨m', -, hfind', hq', hbefore⟩ :=
          findContaining_of_not_hidden none h.1 hk.1 hk.2.1 (hseen k hk)
        obtain rfl : m' = m := Option.some.inj (hfind'.symm.trans heq)
        rcases hbefore with rfl | hbefore
        · exact hk
        · -- the entry found comes before the innermost one, and so is it
          obtain ⟨hwithin, hle⟩ := hbefore.within hq' hk.2.1
          obtain ⟨hwithin', hle'⟩ := hk.2.2 m' hm hq'
          have hregion := hwithin.antisymm hwithin'
          obtain rfl := Nat.le_antisymm (hle' hregion) (hle hregion.symm)
          exact hk

theorem addressLoop_eq {address : ℕ} {found : Option ℕ} :
    s.addressLoop address t found = s.findContaining (.ofAddress address) t found := by
  induction t generalizing found with
  | nil => rfl
  | node l n r ihl ihr =>
    have hwithin : (Region.ofAddress address).Within (s.region n) ↔
        (s.region n).start ≤ address ∧ address < (s.region n).stop := Iff.rfl
    have hbegins : (Region.ofAddress address).start = address := rfl
    have hlt := (s.region n).start_lt_stop
    unfold addressLoop findContaining
    by_cases hstop : (s.region n).stop ≤ address
    · rw [if_pos hstop, if_neg (by rw [hwithin]; omega), if_neg (by omega)]
      exact ihr
    · rw [if_neg hstop]
      by_cases hstart : (s.region n).start ≤ address
      · rw [if_pos hstart, if_pos (by rw [hwithin]; omega)]
        exact ihl
      · rw [if_neg hstart, if_neg (by rw [hwithin]; omega), if_pos (by omega)]
        exact ihl

theorem getInfoFromAddress_eq {address : ℕ} :
    s.getInfoFromAddress address = s.getInfoFromRegion (.ofAddress address) := by
  rw [getInfoFromAddress, addressLoop_eq]
  rfl

/-! ## Runs -/

/-- A call of the tracker. -/
inductive Op (D O : Type*) where
  | trackRegion (r : Region) (trackdata : D) (owner : O)
  | untrackRegion (q : Region)
  | getInfoFromAddress (address : ℕ)
  | getInfoFromRegion (q : Region)

def step (rb : RbPrimitives) (s : RegionTracker D O) : Op D O → RegionTracker D O
  | .trackRegion r trackdata owner => s.trackRegion rb r trackdata owner
  | .untrackRegion q => (s.untrackRegion rb q).2
  | .getInfoFromAddress _ | .getInfoFromRegion _ => s

/-- A region that is added is disjoint from or contained in every tracked one. -/
def Adds (s : RegionTracker D O) : Op D O → Prop
  | .trackRegion r _ _ => s.Nests r
  | _ => True

instance (op : Op D O) : Decidable (s.Adds op) := by
  cases op <;> unfold Adds <;> infer_instance

/-- The lookup of its own bounds gets the right answer for every tracked region. -/
def Findable (s : RegionTracker D O) : Prop :=
  ∀ m ∈ s.tracked, s.LookupRight (s.region m) (s.findContainingRegion (s.region m))

/-- What each call is for: a lookup gets the innermost region, and `uvm_untrack_region` removes
exactly this one and keeps every other one findable. -/
def CallRight (rb : RbPrimitives) (s : RegionTracker D O) : Op D O → Prop
  | .trackRegion r trackdata owner =>
    (s.trackRegion rb r trackdata owner).node s.allocated = ⟨r, trackdata, owner⟩ ∧
      ∀ m, m ∈ (s.trackRegion rb r trackdata owner).tracked ↔ m = s.allocated ∨ m ∈ s.tracked
  | .untrackRegion q =>
    ∃ found, s.LookupRight q found ∧
      (s.untrackRegion rb q).1 = found.map (fun n => (s.node n).data) ∧
      (∀ m, m ∈ (s.untrackRegion rb q).2.tracked ↔ m ∈ s.tracked ∧ found ≠ some m) ∧
      (found.isSome → (s.untrackRegion rb q).2.Findable)
  | .getInfoFromAddress address =>
    ∃ found, s.LookupRight (.ofAddress address) found ∧ s.getInfoFromAddress address = info found
  | .getInfoFromRegion q => ∃ found, s.LookupRight q found ∧ s.getInfoFromRegion q = info found

/-- The innermost region that the call asks for is not hidden, and no region that
`uvm_untrack_region` leaves becomes hidden from the lookup of its own bounds when `rb_erase`
rebalances the tree. -/
def CallSeen (rb : RbPrimitives) (s : RegionTracker D O) : Op D O → Prop
  | .trackRegion .. => True
  | .untrackRegion q =>
    s.Seen q ∧ ∀ n, s.Innermost q n →
      ∀ m ∈ (s.eraseNode rb n).tracked, (s.eraseNode rb n).Seen (s.region m)
  | .getInfoFromAddress address => s.Seen (.ofAddress address)
  | .getInfoFromRegion q => s.Seen q

theorem create_inv (node : ℕ → TreeNode D O) : (create node).Inv :=
  ⟨List.Pairwise.nil, fun _ hn => absurd hn List.not_mem_nil⟩

theorem Inv.untrackRegion (h : s.Inv) : (s.untrackRegion rb q).2.Inv := by
  unfold RegionTracker.untrackRegion
  split
  · exact (h.eraseNode rb).1
  · exact h

theorem Inv.step (h : s.Inv) {op : Op D O} (hop : s.Adds op) : (step rb s op).Inv := by
  cases op with
  | trackRegion r trackdata owner => exact (h.trackRegion rb hop trackdata owner).1
  | untrackRegion q => exact h.untrackRegion rb
  | getInfoFromAddress address => exact h
  | getInfoFromRegion q => exact h

theorem info_right_iff (h : s.Inv) :
    (∃ found, s.LookupRight q found ∧ s.getInfoFromRegion q = info found) ↔ s.Seen q := by
  rw [← h.lookupRight_iff]
  constructor
  · rintro ⟨found, hright, hinfo⟩
    obtain rfl : s.findContainingRegion q = found := congrArg Prod.snd hinfo
    exact hright
  · exact fun hright => ⟨_, hright, rfl⟩

theorem untrackRegion_of_some (h : s.findContainingRegion q = some n) :
    s.untrackRegion rb q = (some (s.node n).data, s.eraseNode rb n) := by
  unfold RegionTracker.untrackRegion
  rw [h]

theorem untrackRegion_of_none (h : s.findContainingRegion q = none) :
    s.untrackRegion rb q = (none, s) := by
  unfold RegionTracker.untrackRegion
  rw [h]

theorem mem_of_findContainingRegion (h : s.findContainingRegion q = some n) : n ∈ s.tracked := by
  rcases findContaining_mem (s := s) (q := q) (t := s.rbRoot) none with
    heq | ⟨m, hm, -, heq⟩
  · simp [findContainingRegion, heq] at h
  · obtain rfl : m = n := Option.some.inj (heq.symm.trans h)
    exact hm

theorem untrack_right_iff (h : s.Inv) :
    s.CallRight rb (.untrackRegion q) ↔ s.CallSeen rb (.untrackRegion q) := by
  constructor
  · rintro ⟨found, hright, -, htracked, hfindable⟩
    -- the entry that was taken out is the one that should have been
    have hfound : s.findContainingRegion q = found := by
      cases hfind : s.findContainingRegion q with
      | none =>
        rw [untrackRegion_of_none rb hfind] at htracked
        cases found with
        | none => rfl
        | some n => exact absurd rfl ((htracked n).mp hright.1).2
      | some k =>
        rw [untrackRegion_of_some rb hfind] at htracked
        have hk := mt ((htracked k).mpr) fun hk => (((h.eraseNode rb).2 k).mp hk).2 rfl
        simp only [mem_of_findContainingRegion hfind, true_and, not_not] at hk
        exact hk.symm
    subst hfound
    refine ⟨h.lookupRight_iff.mp hright, fun n hn m hm => ?_⟩
    have hfind : s.findContainingRegion q = some n := by
      cases hfind : s.findContainingRegion q with
      | none =>
        rw [hfind] at hright
        exact absurd hn.2.1 (hright n hn.1)
      | some k =>
        rw [hfind] at hright
        rw [Innermost.unique hright hn]
    rw [untrackRegion_of_some rb hfind] at hfindable
    exact (h.eraseNode rb).1.lookupRight_iff.mp (hfindable (by simp [hfind]) m hm)
  · rintro ⟨hseen, hrest⟩
    have hright := h.lookupRight_iff.mpr hseen
    refine ⟨_, hright, ?_⟩
    cases hfind : s.findContainingRegion q with
    | none =>
      rw [untrackRegion_of_none rb hfind]
      simp
    | some n =>
      rw [hfind] at hright
      rw [untrackRegion_of_some rb hfind]
      refine ⟨rfl, fun m => ?_, fun _ m hm => ?_⟩
      · rw [(h.eraseNode rb).2 m, ne_comm (a := m)]
        simp
      · exact (h.eraseNode rb).1.lookupRight_iff.mpr (hrest n hright m hm)

theorem Inv.callRight_iff (h : s.Inv) {op : Op D O} (hop : s.Adds op) :
    s.CallRight rb op ↔ s.CallSeen rb op := by
  cases op with
  | trackRegion r trackdata owner =>
    refine iff_of_true ⟨?_, (h.trackRegion rb hop trackdata owner).2⟩ trivial
    rw [trackRegion_node, Function.update_self]
  | untrackRegion q => exact untrack_right_iff rb h
  | getInfoFromAddress address =>
    have hright := info_right_iff (q := .ofAddress address) h
    rwa [← getInfoFromAddress_eq] at hright
  | getInfoFromRegion q => exact info_right_iff h

/-- **In every run whose added regions are disjoint from or contained in every tracked one, the
calls do what they are for exactly when none of them asks for a hidden region.** -/
theorem calls_right_iff (rb : RbPrimitives) (node : ℕ → TreeNode D O) (ops : List (Op D O))
    (hadds : StepsMeet (step rb) Adds (create node) ops) :
    StepsMeet (step rb) (CallRight rb) (create node) ops ↔
      StepsMeet (step rb) (CallSeen rb) (create node) ops := by
  have hinv : HoldsAlong (step rb) Inv (create node) ops :=
    holds_along_of_meets (step rb) (create_inv node) (fun _ h => h)
      (fun s op h hop => h.step rb hop) hadds
  have hcall : ∀ pre op, pre ++ [op] <+: ops → ((run (step rb) (create node) pre).CallRight rb op ↔
        (run (step rb) (create node) pre).CallSeen rb op) := by
    intro pre op hpre
    have hbefore := hinv pre ((List.prefix_append pre [op]).trans hpre)
    exact hbefore.callRight_iff rb (hadds pre op hpre)
  constructor
  · exact fun h pre op hpre => (hcall pre op hpre).mp (h pre op hpre)
  · exact fun h pre op hpre => (hcall pre op hpre).mpr (h pre op hpre)

/-- Primitives for trees of up to three nodes: a third node that is the right child of a left child
moves up to the root. -/
def rotates : RbPrimitives where
  insertColor _ t :=
    match t with
    | .node (.node .nil a (.node .nil b .nil)) c .nil =>
      .node (.node .nil a .nil) b (.node .nil c .nil)
    | t => t
  erase n t := RangeTree.smallTrees.erase n t
  inorder_insertColor n t := by split <;> rfl
  inorder_erase := RangeTree.smallTrees.inorder_erase

def nestedRegions : List (Op Unit Unit) :=
  [.trackRegion ⟨0x1000, 0x5000, by decide⟩ () (), .trackRegion ⟨0x2000, 0x3000, by decide⟩ () (),
    .trackRegion ⟨0x3000, 0x4000, by decide⟩ () ()]

def emptyTracker : RegionTracker Unit Unit :=
  create fun _ => ⟨⟨0, 1, by decide⟩, (), ()⟩

/-- The second inner region moves up to the root, and the outer region into its right subtree: an
address below both inner regions is not found. -/
theorem outer_region_missed :
    StepsMeet (step rotates) Adds emptyTracker (nestedRegions ++ [.getInfoFromAddress 0x1000]) ∧
      ¬ StepsMeet (step rotates) (CallRight rotates) emptyTracker
        (nestedRegions ++ [.getInfoFromAddress 0x1000]) := by
  constructor
  · simp only [nestedRegions, List.cons_append, List.nil_append, stepsMeet_cons, stepsMeet_nil]
    decide
  · intro h
    obtain ⟨found, hright, hinfo⟩ := h nestedRegions _ (List.prefix_refl _)
    obtain rfl : none = found := congrArg Prod.snd hinfo
    revert hright
    decide

/-- Without the second inner region, the tree needs no rotation and the address is found. -/
theorem calls_right_iff_two : StepsMeet (step rotates) (CallRight rotates) emptyTracker
        (nestedRegions.take 2 ++ [.getInfoFromAddress 0x1000]) ↔
      StepsMeet (step rotates) (CallSeen rotates) emptyTracker
        (nestedRegions.take 2 ++ [.getInfoFromAddress 0x1000]) := by
  apply calls_right_iff
  simp only [nestedRegions, List.take, List.cons_append, List.nil_append, stepsMeet_cons,
    stepsMeet_nil]
  decide

end RegionTracker

end NvUvm
