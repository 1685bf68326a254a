import NvUvm.Lib.Run
import NvUvm.RangeTreeOps

/-!
# The range tree refines a set of intervals

Every call of the range tree does to the interval set what the set's own operation says, and the
searches answer from the set.
-/

namespace NvUvm

open Lib

/-! ## The calls -/

/-- A call.  The caller of `add` sets the bounds of the node, and that of `split` the start of the
new one. -/
inductive RangeTreeOp where
  | add (n start last : ℕ)
  | remove (n : ℕ)
  | shrinkNode (n newStart newEnd : ℕ)
  | split (existing new start : ℕ)
  | mergePrev (n : ℕ)
  | mergeNext (n : ℕ)

/-- What a call returns: nothing, a status, or a node. -/
inductive RangeTreeResult where
  | done
  | status (status : NvStatus)
  | node (n : Option ℕ)
  deriving DecidableEq

namespace RangeTree

variable (rb : RbPrimitives) (s : RangeTree)

/-- A call with the writes its caller makes before it. -/
def call : RangeTreeOp → RangeTreeResult × RangeTree
  | .add n start last =>
    let r := (s.setBounds n start last).add rb n
    (.status r.1, r.2)
  | .remove n => (.done, s.remove rb n)
  | .shrinkNode n newStart newEnd => (.done, s.shrinkNode n newStart newEnd)
  | .split existing new start =>
    let r := (s.setBounds new start (s.last new)).split rb existing new
    (.status r.1, r.2)
  | .mergePrev n =>
    let r := s.mergePrev rb n
    (.node r.1, r.2)
  | .mergeNext n =>
    let r := s.mergeNext rb n
    (.node r.1, r.2)

def step (op : RangeTreeOp) : RangeTree := (s.call rb op).2

/-- The arguments are valid: those that the source asserts, of nodes that are in the tree or not. -/
def Valid : RangeTreeOp → Prop
  | .add n start last => n ∉ s.head ∧ start ≤ last ∧ last < 2 ^ 64
  | .remove n => n ∈ s.head
  | .shrinkNode n newStart newEnd =>
    n ∈ s.head ∧ newStart ≤ newEnd ∧ s.start n ≤ newStart ∧ newEnd ≤ s.last n
  | .split existing new start =>
    existing ∈ s.head ∧ new ∉ s.head ∧ s.start existing < start ∧ start ≤ s.last existing
  | .mergePrev n => n ∈ s.head
  | .mergeNext n => n ∈ s.head

instance (op : RangeTreeOp) : Decidable (s.Valid op) := by
  cases op <;> unfold Valid <;> infer_instance

end RangeTree

/-! ## The calls on interval sets -/

namespace IntervalSet

/-- The members other than the ones named `n` and `k`. -/
def without (A : IntervalSet) (n k : ℕ) : Finset (Lib.Interval ℕ) :=
  A.members.filter fun m => m.val ≠ n ∧ m.val ≠ k

/-- What a call does to an interval set, and what it returns. -/
def Spec (A : IntervalSet) : RangeTreeOp → RangeTreeResult → IntervalSet → Prop
  | .add n start last, r, B =>
    ((∀ m ∈ A.members, ¬ Meets m start last) ∧ r = .status .ok ∧
        B.members = insert ⟨start, last, n⟩ A.members) ∨
      ((∃ m ∈ A.members, Meets m start last) ∧ r = .status .errUvmAddressInUse ∧ B = A)
  | .remove n, r, B => r = .done ∧ B.members = A.without n n
  | .shrinkNode n newStart newEnd, r, B =>
    r = .done ∧ B.members = insert ⟨newStart, newEnd, n⟩ (A.without n n) ∧
      ∀ a, B.Covers a ↔
        A.Covers a ∧ ∀ m ∈ A.members, m.val = n → m.Contains a → newStart ≤ a ∧ a ≤ newEnd
  | .split existing new start, r, B =>
    r = .status .ok ∧ (∃ m ∈ A.members, m.val = existing ∧ B.members =
        insert ⟨m.start, start - 1, existing⟩
          (insert ⟨start, m.last, new⟩ (A.without existing existing))) ∧
      ∀ a, B.Covers a ↔ A.Covers a
  | .mergePrev n, r, B =>
    (∃ m ∈ A.members, m.val = n ∧
      ((∃ p ∈ A.members, p.last + 1 = m.start ∧ r = .node (some p.val) ∧
          B.members = insert ⟨p.start, m.last, n⟩ (A.without p.val n)) ∨
        (∀ p ∈ A.members, p.last + 1 ≠ m.start) ∧ r = .node none ∧ B = A)) ∧
      ∀ a, B.Covers a ↔ A.Covers a
  | .mergeNext n, r, B =>
    (∃ m ∈ A.members, m.val = n ∧
      ((∃ p ∈ A.members, m.last + 1 = p.start ∧ r = .node (some p.val) ∧
          B.members = insert ⟨m.start, p.last, n⟩ (A.without p.val n)) ∨
        (∀ p ∈ A.members, m.last + 1 ≠ p.start) ∧ r = .node none ∧ B = A)) ∧
      ∀ a, B.Covers a ↔ A.Covers a

theorem mem_without {A : IntervalSet} {n k : ℕ} {m : Lib.Interval ℕ} :
    m ∈ A.without n k ↔ m ∈ A.members ∧ m.val ≠ n ∧ m.val ≠ k := by
  simp [without]

end IntervalSet

namespace RangeTree

variable {rb : RbPrimitives} {s : RangeTree} {A : IntervalSet} {n : ℕ}

/-! ## Members and nodes -/

variable {m : Lib.Interval ℕ}

theorem Represents.mem_iff (h : s.Represents A) :
    m ∈ A.members ↔ m.val ∈ s.head ∧ m = s.interval m.val := by
  rw [h.members, List.mem_toFinset, mem_intervals]

theorem Represents.interval_mem (h : s.Represents A) (hn : n ∈ s.head) : s.interval n ∈ A.members :=
  h.mem_iff.mpr ⟨hn, rfl⟩

theorem Inv.mem_toIntervalSet (h : s.Inv) :
    m ∈ h.toIntervalSet.members ↔ m.val ∈ s.head ∧ m = s.interval m.val :=
  h.represents.mem_iff

theorem interval_setBounds_self {a b : ℕ} : (s.setBounds n a b).interval n = ⟨a, b, n⟩ := by
  simp [interval]

theorem interval_setBounds_of_ne {a b x : ℕ} (hx : x ≠ n) :
    (s.setBounds n a b).interval x = s.interval x := by
  simp [interval, hx]

theorem Represents.setBounds_of_notMem (h : s.Represents A) (hn : n ∉ s.head) (a b : ℕ) :
    (s.setBounds n a b).Represents A := by
  refine ⟨h.toInv.setBounds_of_notMem hn, ?_⟩
  rw [h.members]
  refine congrArg List.toFinset (List.map_congr_left fun x hx => ?_)
  refine (interval_setBounds_of_ne ?_).symm
  rintro rfl
  exact hn hx

theorem mem_setBounds (hn : n ∈ s.head) {a b : ℕ} :
    m.val ∈ (s.setBounds n a b).head ∧ m = (s.setBounds n a b).interval m.val ↔
      m = ⟨a, b, n⟩ ∨ (m.val ∈ s.head ∧ m = s.interval m.val) ∧ m.val ≠ n := by
  rcases eq_or_ne m.val n with heq | hne
  · rw [heq, interval_setBounds_self]
    simp [hn]
  · rw [interval_setBounds_of_ne hne]
    have hnot : m ≠ ⟨a, b, n⟩ := fun heq => hne (congrArg Interval.val heq)
    simp [hne, hnot]

/-! ## One call -/

section Calls

variable {pre post : List ℕ}

theorem Represents.insert (h : s.Represents A) {t : SearchTree ℕ} (hhead : s.head = pre ++ post)
    (hinv : ({ s with rbRoot := t, head := pre ++ n :: post } : RangeTree).Inv) :
    hinv.toIntervalSet.members = insert (s.interval n) A.members := by
  ext m
  rw [hinv.mem_toIntervalSet, Finset.mem_insert, h.mem_iff, hhead]
  simp only [List.mem_append, List.mem_cons]
  change (_ ∨ _ ∨ _) ∧ m = s.interval m.val ↔ _
  constructor
  · rintro ⟨hm | hm | hm, heq⟩
    · exact .inr ⟨.inl hm, heq⟩
    · left
      rw [heq, hm]
    · exact .inr ⟨.inr hm, heq⟩
  · rintro (rfl | ⟨hm | hm, heq⟩)
    · exact ⟨.inr (.inl rfl), rfl⟩
    · exact ⟨.inl hm, heq⟩
    · exact ⟨.inr (.inr hm), heq⟩

variable (rb) in
theorem Represents.add (h : s.Represents A) (hle : s.start n ≤ s.last n) (hlt : s.last n < 2 ^ 64) :
    (s.add rb n = (.errUvmAddressInUse, s) ∧
        ∃ m ∈ A.members, IntervalSet.Meets m (s.start n) (s.last n)) ∨
      ∃ B : IntervalSet, (s.add rb n).1 = .ok ∧ (s.add rb n).2.Represents B ∧
        (∀ m ∈ A.members, ¬ IntervalSet.Meets m (s.start n) (s.last n)) ∧
          B.members = Insert.insert (s.interval n) A.members := by
  rcases h.add_spec rb hle with
    ⟨heq, x, hx, hmeets⟩ | ⟨pre, post, t, hhead, hpre, hpost, ht, heq⟩
  · exact .inl ⟨heq, s.interval x, h.interval_mem hx, hmeets⟩
  · have hinv := h.toInv.insert hhead hpre hpost ht hle hlt
    refine .inr ⟨hinv.toIntervalSet, by rw [heq], ?_, fun m hm hmeets => ?_, h.insert hhead hinv⟩
    · rw [heq]
      exact hinv.represents
    · obtain ⟨hmem, heq'⟩ := h.mem_iff.mp hm
      rw [heq'] at hmeets
      obtain ⟨hstart, hlast⟩ := hmeets
      change s.start m.val ≤ s.last n at hstart
      change s.start n ≤ s.last m.val at hlast
      rw [hhead] at hmem
      rcases List.mem_append.mp hmem with hmem | hmem
      · have := hpre _ hmem
        omega
      · have := hpost _ hmem
        omega

variable (rb) in
theorem Represents.call_add (h : s.Represents A) {start last : ℕ}
    (hvalid : s.Valid (.add n start last)) :
    ∃ B, (s.call rb (.add n start last)).2.Represents B ∧
      A.Spec (.add n start last) (s.call rb (.add n start last)).1 B := by
  obtain ⟨hn, hle, hlt⟩ := hvalid
  have hadd := (h.setBounds_of_notMem hn start last).add rb (n := n) (by simpa using hle)
    (by simpa using hlt)
  rw [setBounds_start_self, setBounds_last_self, interval_setBounds_self] at hadd
  unfold call
  dsimp only
  rcases hadd with ⟨heq, hmeets⟩ | ⟨B, hok, hrep, hapart, hmems⟩
  · refine ⟨A, ?_, .inr ⟨hmeets, ?_, rfl⟩⟩
    · rw [heq]
      exact h.setBounds_of_notMem hn start last
    · rw [heq]
  · exact ⟨B, hrep, .inl ⟨hapart, by rw [hok], hmems⟩⟩

variable (rb) in
theorem Represents.call_remove (h : s.Represents A) : ∃ B, (s.call rb (.remove n)).2.Represents B ∧
      A.Spec (.remove n) (s.call rb (.remove n)).1 B := by
  have hinv : (s.remove rb n).Inv := h.toInv.remove rb n
  refine ⟨hinv.toIntervalSet, hinv.represents, rfl, ?_⟩
  ext m
  rw [hinv.mem_toIntervalSet, h.toInv.mem_remove, IntervalSet.mem_without, h.mem_iff]
  tauto

variable {a b p : ℕ}

theorem Represents.setBounds (h : s.Represents A) (hn : n ∈ s.head)
    (hinv : (s.setBounds n a b).Inv) :
    hinv.toIntervalSet.members = Insert.insert ⟨a, b, n⟩ (A.without n n) := by
  ext m
  rw [hinv.mem_toIntervalSet, mem_setBounds hn, Finset.mem_insert, IntervalSet.mem_without,
    h.mem_iff]
  tauto

theorem Inv.shrink (h : s.Inv) (hn : n ∈ s.head) (hle : a ≤ b) (hstart : s.start n ≤ a)
    (hlast : b ≤ s.last n) : (s.setBounds n a b).Inv := by
  obtain ⟨pre, post, hhead⟩ := List.append_of_mem hn
  obtain ⟨hpre, hpost, -, -⟩ := h.around hhead
  have hbounded := h.bounded n hn
  refine h.setBounds hhead (fun x hx => ?_) (fun y hy => ?_) hle (by omega)
  · have := hpre x hx
    omega
  · have := hpost y hy
    omega

variable (rb) in
theorem Represents.call_shrinkNode (h : s.Represents A) (hvalid : s.Valid (.shrinkNode n a b)) :
    ∃ B, (s.call rb (.shrinkNode n a b)).2.Represents B ∧
      A.Spec (.shrinkNode n a b) (s.call rb (.shrinkNode n a b)).1 B := by
  obtain ⟨hn, hle, hstart, hlast⟩ := hvalid
  have hinv : (s.setBounds n a b).Inv := h.toInv.shrink hn hle hstart hlast
  have hmems := h.setBounds hn hinv
  refine ⟨hinv.toIntervalSet, hinv.represents, rfl, hmems, fun x => ?_⟩
  have hself := h.interval_mem hn
  unfold IntervalSet.Covers
  rw [hmems]
  simp only [Finset.mem_insert, IntervalSet.mem_without]
  constructor
  · rintro ⟨m, rfl | ⟨hm, hne, -⟩, hx⟩
    · refine ⟨⟨s.interval n, hself, hstart.trans hx.1, hx.2.trans hlast⟩, fun _ _ _ _ => hx⟩
    · refine ⟨⟨m, hm, hx⟩, fun m' hm' hn' hx' => ?_⟩
      -- the address lies in one member only
      rw [A.disjoint m' hm' m hm x hx' hx] at hn'
      exact absurd hn' hne
  · rintro ⟨⟨m, hm, hx⟩, hwithin⟩
    by_cases hval : m.val = n
    · exact ⟨_, .inl rfl, hwithin m hm hval hx⟩
    · exact ⟨m, .inr ⟨hm, hval, hval⟩, hx⟩

theorem succ64_eq {x : ℕ} (h : x + 1 < 2 ^ 64) : succ64 x = x + 1 := Nat.mod_eq_of_lt h

theorem pred64_eq {x : ℕ} (hpos : 0 < x) (h : x < 2 ^ 64) : pred64 x = x - 1 := by
  unfold pred64
  omega

variable (rb) in
theorem Represents.call_split (h : s.Represents A) {existing new : ℕ}
    (hvalid : s.Valid (.split existing new a)) :
    ∃ B, (s.call rb (.split existing new a)).2.Represents B ∧
      A.Spec (.split existing new a) (s.call rb (.split existing new a)).1 B := by
  obtain ⟨he, hn, hlt, hle⟩ := hvalid
  have hne : existing ≠ new := by
    rintro rfl
    exact hn he
  have hbounded := h.toInv.bounded existing he
  -- the existing node is shrunk, and the new one gets the rest
  have hsplit : (s.setBounds new a (s.last new)).split rb existing new = RangeTree.add rb
      (((s.setBounds new a (s.last new)).setBounds new a (s.last existing)).setBounds existing
        (s.start existing) (a - 1)) new := by
    unfold split
    simp [hne, pred64_eq (x := a) (by omega) (by omega)]
  have h₂ := (h.setBounds_of_notMem hn a (s.last new)).setBounds_of_notMem hn a (s.last existing)
  have hinv := h₂.toInv.shrink (n := existing) (a := s.start existing) (b := a - 1) he (by omega)
    (by simp [hne]) (by simp [hne]; omega)
  have hmems := h₂.setBounds he hinv
  have hadd := hinv.represents.add rb (n := new) (by simp [hne.symm, hle])
    (by simpa [hne.symm] using hbounded)
  rw [interval_setBounds_of_ne hne.symm, interval_setBounds_self] at hadd
  simp only [setBounds_start_of_ne hne.symm, setBounds_last_of_ne hne.symm, setBounds_start_self,
    setBounds_last_self] at hadd
  have hself := h.interval_mem he
  rcases hadd with ⟨-, m, hm, hstart, hlast⟩ | ⟨B, hok, hrep, -, hB⟩
  · -- what remains of the members lies outside of the new node
    rw [hmems, Finset.mem_insert, IntervalSet.mem_without] at hm
    rcases hm with rfl | ⟨hm, hval, -⟩
    · change a ≤ a - 1 at hlast
      omega
    · have heq : m = s.interval existing := by
        refine A.disjoint m hm _ hself (max m.start a) ⟨le_max_left .., ?_⟩ ⟨?_, ?_⟩
        · exact max_le (A.nonempty m hm) hlast
        · exact hlt.le.trans (le_max_right ..)
        · exact max_le hstart hle
      exact absurd (congrArg Interval.val heq) hval
  · unfold call
    dsimp only
    rw [hsplit]
    have hB' : B.members = Insert.insert ⟨s.start existing, a - 1, existing⟩
        (Insert.insert ⟨a, s.last existing, new⟩ (A.without existing existing)) := by
      rw [hB, hmems, Finset.insert_comm]
    refine ⟨B, hrep, by rw [hok], ⟨s.interval existing, hself, rfl, hB'⟩, fun x => ?_⟩
    unfold IntervalSet.Covers
    rw [hB']
    simp only [Finset.mem_insert, IntervalSet.mem_without]
    constructor
    · rintro ⟨m, rfl | rfl | ⟨hm, -⟩, hstart, hlast⟩
      · exact ⟨_, hself, hstart, hlast.trans (by change a - 1 ≤ s.last existing; omega)⟩
      · exact ⟨_, hself, hlt.le.trans hstart, hlast⟩
      · exact ⟨m, hm, hstart, hlast⟩
    · rintro ⟨m, hm, hstart, hlast⟩
      by_cases hval : m.val = existing
      · obtain rfl := A.named m hm _ hself hval
        rcases Nat.lt_or_ge x a with hx | hx
        · exact ⟨_, .inl rfl, hstart, by change x ≤ a - 1; omega⟩
        · exact ⟨_, .inr (.inl rfl), hx, hlast⟩
      · exact ⟨m, .inr (.inr ⟨hm, hval, hval⟩), hstart, hlast⟩

theorem covers_merge {B : IntervalSet} {m p : Lib.Interval ℕ} (hm : m ∈ A.members)
    (hp : p ∈ A.members) (hB : B.members = Insert.insert ⟨a, b, n⟩ (A.without p.val m.val))
    (hunion : ∀ x, a ≤ x ∧ x ≤ b ↔ p.Contains x ∨ m.Contains x) (x : ℕ) :
    B.Covers x ↔ A.Covers x := by
  unfold IntervalSet.Covers
  rw [hB]
  simp only [Finset.mem_insert, IntervalSet.mem_without]
  constructor
  · rintro ⟨q, rfl | ⟨hq, -⟩, hx⟩
    · rcases (hunion x).mp hx with hx | hx
      · exact ⟨p, hp, hx⟩
      · exact ⟨m, hm, hx⟩
    · exact ⟨q, hq, hx⟩
  · rintro ⟨q, hq, hx⟩
    by_cases hqp : q.val = p.val
    · obtain rfl := A.named q hq p hp hqp
      exact ⟨_, .inl rfl, (hunion x).mpr (.inl hx)⟩
    · by_cases hqm : q.val = m.val
      · obtain rfl := A.named q hq m hm hqm
        exact ⟨_, .inl rfl, (hunion x).mpr (.inr hx)⟩
      · exact ⟨q, .inr ⟨hq, hqp, hqm⟩, hx⟩

theorem Represents.merge (h : s.Represents A) (hn : n ∈ s.head) (hne : n ≠ p)
    (hinv : ((s.remove rb p).setBounds n a b).Inv) :
    hinv.toIntervalSet.members = Insert.insert ⟨a, b, n⟩ (A.without p n) := by
  have hn' : n ∈ (s.remove rb p).head := h.toInv.mem_remove.mpr ⟨hn, hne⟩
  ext m
  rw [hinv.mem_toIntervalSet, mem_setBounds hn', Finset.mem_insert, IntervalSet.mem_without,
    h.mem_iff, h.toInv.mem_remove]
  tauto

theorem Inv.prev_eq_some (h : s.Inv) (hn : n ∈ s.head) (hp : s.prev n = some p) :
    ∃ pre post, s.head = pre ++ p :: n :: post := by
  obtain ⟨pre, post, hhead⟩ := List.append_of_mem hn
  rw [h.prev_eq hhead] at hp
  obtain ⟨pre', rfl⟩ := List.getLast?_eq_some_iff.mp hp
  exact ⟨pre', post, by simp [hhead]⟩

theorem Inv.next_eq_some (h : s.Inv) (hn : n ∈ s.head) (hp : s.next n = some p) :
    ∃ pre post, s.head = pre ++ n :: p :: post := by
  obtain ⟨pre, post, hhead⟩ := List.append_of_mem hn
  rw [h.next_eq hhead] at hp
  obtain ⟨post', rfl⟩ := List.head?_eq_some_iff.mp hp
  exact ⟨pre, post', hhead⟩

theorem Inv.prev_of_adjacent (h : s.Inv) (hn : n ∈ s.head) (hp : p ∈ s.head)
    (hadjacent : s.last p + 1 = s.start n) : s.prev n = some p := by
  obtain ⟨pre, post, hhead⟩ := List.append_of_mem hn
  obtain ⟨hpre, hpost, -, -⟩ := h.around hhead
  have hnle := h.start_le_last hn
  have hple := h.start_le_last hp
  rw [hhead] at hp
  rw [h.prev_eq hhead]
  simp only [List.mem_append, List.mem_cons] at hp
  rcases hp with hp | rfl | hp
  · obtain ⟨before, after, rfl⟩ := List.append_of_mem hp
    cases after with
    | nil => simp
    | cons y after =>
      -- a node between the two would have no room
      have hy : y ∈ s.head := by simp [hhead]
      have hyle := h.start_le_last hy
      have hp : s.head = before ++ p :: (y :: after ++ n :: post) := by simp [hhead]
      have hpy := (h.around hp).2.1 y (by simp)
      have hyn := hpre y (by simp)
      omega
  · omega
  · have := hpost p hp
    omega

theorem Inv.next_of_adjacent (h : s.Inv) (hn : n ∈ s.head) (hp : p ∈ s.head)
    (hadjacent : s.last n + 1 = s.start p) : s.next n = some p := by
  have hprev := h.prev_of_adjacent hp hn hadjacent
  obtain ⟨pre, post, hhead⟩ := h.prev_eq_some hp hprev
  rw [h.next_eq hhead]
  rfl

private theorem call_mergePrev_eq :
    s.call rb (.mergePrev n) = (.node (s.mergePrev rb n).1, (s.mergePrev rb n).2) := rfl

private theorem call_mergeNext_eq :
    s.call rb (.mergeNext n) = (.node (s.mergeNext rb n).1, (s.mergeNext rb n).2) := rfl

variable (rb) in
theorem Represents.call_mergePrev (h : s.Represents A) (hn : n ∈ s.head) :
    ∃ B, (s.call rb (.mergePrev n)).2.Represents B ∧
      A.Spec (.mergePrev n) (s.call rb (.mergePrev n)).1 B := by
  have hself := h.interval_mem hn
  have hnle := h.toInv.start_le_last hn
  have hbounded := h.toInv.bounded n hn
  by_cases hadjacent : ∃ p ∈ s.head, s.last p + 1 = s.start n
  · obtain ⟨p, hp, hlast⟩ := hadjacent
    have hprev := h.toInv.prev_of_adjacent hn hp hlast
    obtain ⟨pre, post, hhead⟩ := h.toInv.prev_eq_some hn hprev
    obtain ⟨hpre, hpost, hnotPre, -⟩ := h.toInv.around hhead
    have hheadN : s.head = (pre ++ [p]) ++ n :: post := by simpa using hhead
    obtain ⟨-, hpostN, -, -⟩ := h.toInv.around hheadN
    have hple := h.toInv.start_le_last hp
    have hne : n ≠ p := by
      rintro rfl
      omega
    have hmerge : s.mergePrev rb n =
        (some p, (s.remove rb p).setBounds n (s.start p) (s.last n)) := by
      unfold mergePrev
      rw [hprev]
      have hpred : s.last p = pred64 (s.start n) := by
        rw [pred64_eq (by omega) (by omega)]
        omega
      simp [hpred]
    have hremoved : (s.remove rb p).head = pre ++ n :: post := by
      rw [remove_head, hhead, List.erase_append_right _ hnotPre]
      simp
    have hinv : ((s.remove rb p).setBounds n (s.start p) (s.last n)).Inv :=
      (h.toInv.remove rb p).setBounds hremoved hpre hpostN (by omega) hbounded
    have hmems := h.merge hn hne hinv
    rw [call_mergePrev_eq, hmerge]
    refine ⟨hinv.toIntervalSet, hinv.represents,
      ⟨s.interval n, hself, rfl, .inl ⟨s.interval p, h.interval_mem hp, hlast, rfl, hmems⟩⟩, ?_⟩
    refine covers_merge hself (h.interval_mem hp) hmems fun x => ?_
    change _ ↔ (s.start p ≤ x ∧ x ≤ s.last p) ∨ (s.start n ≤ x ∧ x ≤ s.last n)
    omega
  · -- the entry before, if there is one, is not adjacent
    have hmerge : s.mergePrev rb n = (none, s) := by
      unfold mergePrev
      cases hprev : s.prev n with
      | none => rfl
      | some p =>
        obtain ⟨pre, post, hhead⟩ := h.toInv.prev_eq_some hn hprev
        have hp : p ∈ s.head := by simp [hhead]
        have hlt := (h.toInv.around hhead).2.1 n List.mem_cons_self
        have hnot : s.last p + 1 ≠ s.start n := fun heq => hadjacent ⟨p, hp, heq⟩
        dsimp only
        rw [pred64_eq (x := s.start n) (by omega) (by omega), if_pos (by omega)]
    rw [call_mergePrev_eq, hmerge]
    refine ⟨A, h, ⟨s.interval n, hself, rfl, .inr ⟨fun p hp heq => ?_, rfl, rfl⟩⟩, fun _ => Iff.rfl⟩
    obtain ⟨hmem, hp'⟩ := h.mem_iff.mp hp
    rw [hp'] at heq
    exact hadjacent ⟨p.val, hmem, heq⟩

variable (rb) in
theorem Represents.call_mergeNext (h : s.Represents A) (hn : n ∈ s.head) :
    ∃ B, (s.call rb (.mergeNext n)).2.Represents B ∧
      A.Spec (.mergeNext n) (s.call rb (.mergeNext n)).1 B := by
  have hself := h.interval_mem hn
  have hnle := h.toInv.start_le_last hn
  by_cases hadjacent : ∃ p ∈ s.head, s.last n + 1 = s.start p
  · obtain ⟨p, hp, hstart⟩ := hadjacent
    have hnext := h.toInv.next_of_adjacent hn hp hstart
    obtain ⟨pre, post, hhead⟩ := h.toInv.next_eq_some hn hnext
    obtain ⟨hpre, -, -, -⟩ := h.toInv.around hhead
    have hheadP : s.head = (pre ++ [n]) ++ p :: post := by simpa using hhead
    obtain ⟨-, hpostP, hnotPre, -⟩ := h.toInv.around hheadP
    have hple := h.toInv.start_le_last hp
    have hbounded := h.toInv.bounded p hp
    have hne : n ≠ p := by
      rintro rfl
      omega
    have hmerge : s.mergeNext rb n =
        (some p, (s.remove rb p).setBounds n (s.start n) (s.last p)) := by
      unfold mergeNext
      rw [hnext]
      have hsucc : s.start p = succ64 (s.last n) := by rw [succ64_eq (by omega), hstart]
      simp [hsucc]
    have hremoved : (s.remove rb p).head = pre ++ n :: post := by
      rw [remove_head, hheadP, List.erase_append_right _ hnotPre]
      simp
    have hinv : ((s.remove rb p).setBounds n (s.start n) (s.last p)).Inv :=
      (h.toInv.remove rb p).setBounds hremoved hpre hpostP (by omega) hbounded
    have hmems := h.merge hn hne hinv
    rw [call_mergeNext_eq, hmerge]
    refine ⟨hinv.toIntervalSet, hinv.represents,
      ⟨s.interval n, hself, rfl, .inl ⟨s.interval p, h.interval_mem hp, hstart, rfl, hmems⟩⟩, ?_⟩
    refine covers_merge hself (h.interval_mem hp) hmems fun x => ?_
    change _ ↔ (s.start p ≤ x ∧ x ≤ s.last p) ∨ (s.start n ≤ x ∧ x ≤ s.last n)
    omega
  · -- the entry behind, if there is one, is not adjacent
    have hmerge : s.mergeNext rb n = (none, s) := by
      unfold mergeNext
      cases hnext : s.next n with
      | none => rfl
      | some p =>
        obtain ⟨pre, post, hhead⟩ := h.toInv.next_eq_some hn hnext
        have hp : p ∈ s.head := by simp [hhead]
        have hlt := (h.toInv.around hhead).2.1 p List.mem_cons_self
        have hple := h.toInv.start_le_last hp
        have hbounded := h.toInv.bounded p hp
        have hnot : s.last n + 1 ≠ s.start p := fun heq => hadjacent ⟨p, hp, heq⟩
        dsimp only
        rw [succ64_eq (x := s.last n) (by omega), if_pos (Ne.symm hnot)]
    rw [call_mergeNext_eq, hmerge]
    refine ⟨A, h, ⟨s.interval n, hself, rfl, .inr ⟨fun p hp heq => ?_, rfl, rfl⟩⟩, fun _ => Iff.rfl⟩
    obtain ⟨hmem, hp'⟩ := h.mem_iff.mp hp
    rw [hp'] at heq
    exact hadjacent ⟨p.val, hmem, heq⟩

variable (rb) in
theorem Represents.call_spec (h : s.Represents A) {op : RangeTreeOp} (hvalid : s.Valid op) :
    ∃ B, (s.call rb op).2.Represents B ∧ A.Spec op (s.call rb op).1 B := by
  cases op with
  | add n start last => exact h.call_add rb hvalid
  | remove n => exact h.call_remove rb
  | shrinkNode n newStart newEnd => exact h.call_shrinkNode rb hvalid
  | split existing new start => exact h.call_split rb hvalid
  | mergePrev n => exact h.call_mergePrev rb hvalid
  | mergeNext n => exact h.call_mergeNext rb hvalid

end Calls

/-! ## Runs -/

/-- What a caller sees of a tree that stands for the set: the list and the red-black tree hold the
members in the same ascending order, and the searches answer from the set. -/
structure Shows (s : RangeTree) (A : IntervalSet) : Prop where
  inStep : s.rbRoot.inorder = s.head
  ordered : Ordered s.intervals
  members : ∀ m, m ∈ s.intervals ↔ m ∈ A.members
  find : ∀ addr n, s.find addr = some n ↔ ∃ m ∈ A.members, m.val = n ∧ m.Contains addr
  visits : ∀ start last, start ≤ last → ∃ l : List (Lib.Interval ℕ),
    s.Visits last (l.map Interval.val) (s.iterFirst start last) ∧ Ordered l ∧
      ∀ m, m ∈ l ↔ m ∈ A.members ∧ IntervalSet.Meets m start last

theorem Represents.shows (h : s.Represents A) : s.Shows A := by
  refine ⟨h.inStep, h.ordered, fun m => by rw [h.members, List.mem_toFinset], ?_, ?_⟩
  · intro addr n
    rw [h.toInv.find_eq_some]
    constructor
    · rintro ⟨hn, hc⟩
      exact ⟨s.interval n, h.interval_mem hn, rfl, hc⟩
    · rintro ⟨m, hm, rfl, hc⟩
      obtain ⟨hmem, heq⟩ := h.mem_iff.mp hm
      exact ⟨hmem, heq ▸ hc⟩
  · intro start last hle
    obtain ⟨l, hvisits, hord, hmem⟩ := h.toInv.visits hle
    refine ⟨l.map s.interval, ?_, ⟨?_, List.pairwise_map.mpr hord⟩, fun m => ?_⟩
    · have hnames : (l.map s.interval).map Interval.val = l := by
        rw [List.map_map]
        exact List.map_id l
      rw [hnames]
      exact hvisits
    · intro m hm
      obtain ⟨n, hn, rfl⟩ := List.mem_map.mp hm
      exact h.toInv.start_le_last ((hmem n).mp hn).1
    · rw [List.mem_map, h.mem_iff]
      constructor
      · rintro ⟨n, hn, rfl⟩
        obtain ⟨hhead, hmeets⟩ := (hmem n).mp hn
        exact ⟨⟨hhead, rfl⟩, hmeets⟩
      · rintro ⟨⟨hhead, heq⟩, hmeets⟩
        rw [heq] at hmeets
        exact ⟨m.val, (hmem m.val).mpr ⟨hhead, hmeets⟩, heq.symm⟩

theorem init_represents (start last : ℕ → ℕ) :
    (init start last).Represents ⟨∅, by simp, by simp, by simp, by simp⟩ :=
  ⟨⟨rfl, ⟨by simp [init, intervals], by simp [init, intervals]⟩, by simp [init]⟩, rfl⟩

theorem Represents.add_fails (h : s.Represents A) {start last : ℕ}
    (hvalid : s.Valid (.add n start last))
    (hfails : (s.call rb (.add n start last)).1 ≠ .status .ok) :
    (s.call rb (.add n start last)).2 = s.setBounds n start last := by
  obtain ⟨hn, hle, hlt⟩ := hvalid
  have hadd := (h.setBounds_of_notMem hn start last).add rb (n := n) (by simpa using hle)
    (by simpa using hlt)
  rcases hadd with ⟨heq, -⟩ | ⟨B, hok, -⟩
  · exact congrArg Prod.snd heq
  · exact absurd (congrArg RangeTreeResult.status hok) hfails

/-- A call is right: it does to every interval set that the tree stands for what the call on sets
says, and an insertion that fails leaves the tree as it is. -/
def CallRight (rb : RbPrimitives) (s : RangeTree) (op : RangeTreeOp) : Prop :=
  (∀ A, s.Represents A → ∃ B, (s.step rb op).Represents B ∧ A.Spec op (s.call rb op).1 B) ∧
    ∀ n start last, op = .add n start last → (s.call rb op).1 ≠ .status .ok →
      s.step rb op = s.setBounds n start last

/-- **The range tree refines a finite set of disjoint closed intervals**, in every run of calls
with valid arguments: every state stands for an interval set and answers from it, and every call
does what the call on the set does. -/
theorem refinesIntervals_along (rb : RbPrimitives) (start last : ℕ → ℕ) (ops : List RangeTreeOp)
    (h : StepsMeet (step rb) Valid (init start last) ops) :
    HoldsAlong (step rb) (fun s => ∃ A, s.Represents A ∧ s.Shows A) (init start last) ops ∧
      StepsMeet (step rb) (CallRight rb) (init start last) ops := by
  have hstands : HoldsAlong (step rb) (fun s => ∃ A, s.Represents A) (init start last) ops :=
    holds_along_of_meets (step rb) ⟨_, init_represents start last⟩ (fun _ hs => hs)
      (fun s op ⟨A, hA⟩ hop => (hA.call_spec rb hop).imp fun B hB => hB.1) h
  refine ⟨fun pre hpre => ?_, fun pre op hpre => ⟨fun A hA => hA.call_spec rb (h pre op hpre), ?_⟩⟩
  · obtain ⟨A, hA⟩ := hstands pre hpre
    exact ⟨A, hA, hA.shows⟩
  · rintro n a b rfl hfails
    obtain ⟨A, hA⟩ := hstands pre ((List.prefix_append pre _).trans hpre)
    exact hA.add_fails (h pre _ hpre) hfails

private def chain : List ℕ → SearchTree ℕ
  | [] => .nil
  | n :: l => .node .nil n (chain l)

private theorem inorder_chain (l : List ℕ) : (chain l).inorder = l := by
  induction l with
  | nil => rfl
  | cons n l ih => rw [chain, SearchTree.inorder, ih]; rfl

/-- Primitives for trees of one or two nodes, which need no rebalancing. -/
def smallTrees : RbPrimitives where
  insertColor _ t := t
  erase n t := chain (t.inorder.erase n)
  inorder_insertColor _ _ := rfl
  inorder_erase n t _ := inorder_chain (t.inorder.erase n)

/-- A node that ends at the last address of all is added, split in two and merged again. -/
theorem refinesIntervals_along_split :
    let ops : List RangeTreeOp := [.add 0 16 (2 ^ 64 - 1), .split 0 1 4096, .mergePrev 1]
    HoldsAlong (step smallTrees) (fun s => ∃ A, s.Represents A ∧ s.Shows A)
        (init (fun _ => 0) fun _ => 0) ops ∧
      StepsMeet (step smallTrees) (CallRight smallTrees) (init (fun _ => 0) fun _ => 0) ops := by
  apply refinesIntervals_along
  simp only [stepsMeet_cons, stepsMeet_nil]
  decide +kernel

end RangeTree

end NvUvm
