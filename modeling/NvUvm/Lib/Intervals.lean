import Mathlib.Data.List.TakeWhile

/-!
# Sorted lists of disjoint intervals

Closed intervals of natural numbers, each with a value, kept in increasing order and
pairwise disjoint: the abstract content of an interval tree.
-/

namespace NvUvm.Lib

variable {β : Type*}

/-- The interval `[start, last]`, both ends included, with a value. -/
structure Interval (β : Type*) where
  start : ℕ
  last : ℕ
  val : β
  deriving DecidableEq, Repr

def Interval.Contains (n : Interval β) (a : ℕ) : Prop :=
  n.start ≤ a ∧ a ≤ n.last

instance (n : Interval β) (a : ℕ) : Decidable (n.Contains a) :=
  inferInstanceAs (Decidable (_ ∧ _))

/-- Every interval is non-empty, and each lies entirely before those that follow it. -/
def Ordered (l : List (Interval β)) : Prop :=
  (∀ n ∈ l, n.start ≤ n.last) ∧ l.Pairwise (fun n m => n.last < m.start)

instance (l : List (Interval β)) : Decidable (Ordered l) :=
  inferInstanceAs (Decidable (_ ∧ _))

/-! ## Seeking -/

/-- The intervals from the first one that does not end before `a`. -/
def seek (l : List (Interval β)) (a : ℕ) : List (Interval β) :=
  l.dropWhile (fun n => decide (n.last < a))

/-- The interval that contains `a`, if there is one. -/
def lookup (l : List (Interval β)) (a : ℕ) : Option (Interval β) :=
  match seek l a with
  | [] => none
  | n :: _ => if n.start ≤ a then some n else none

variable {l pre : List (Interval β)} {n m : Interval β} {a : ℕ}

theorem Ordered.tail (h : Ordered (n :: l)) : Ordered l :=
  ⟨fun m hm => h.1 m (by simp [hm]), (List.pairwise_cons.mp h.2).2⟩

theorem Ordered.head_lt (h : Ordered (n :: l)) (hm : m ∈ l) : n.last < m.start :=
  (List.pairwise_cons.mp h.2).1 m hm

theorem Ordered.of_suffix {k : List (Interval β)} (h : Ordered l) (hk : k <:+ l) : Ordered k :=
  ⟨fun n hn => h.1 n (hk.subset hn), h.2.sublist hk.sublist⟩

theorem seek_suffix (l : List (Interval β)) (a : ℕ) : seek l a <:+ l :=
  List.dropWhile_suffix _

theorem le_last_of_seek {rest : List (Interval β)} (h : seek l a = n :: rest) : a ≤ n.last := by
  induction l with
  | nil => simp [seek] at h
  | cons m l ih =>
    by_cases hm : m.last < a
    · exact ih (by simpa [seek, hm] using h)
    · simp only [seek, List.dropWhile_cons, hm] at h
      obtain ⟨rfl, -⟩ := List.cons.inj h
      exact Nat.not_lt.mp hm

theorem seek_of_contains (hl : Ordered l) (hm : m ∈ l) (ha : m.Contains a) :
    ∃ rest, seek l a = m :: rest := by
  induction l with
  | nil => simp at hm
  | cons n rest ih =>
    rcases List.mem_cons.mp hm with rfl | hm'
    · exact ⟨rest, by simp [seek, Nat.not_lt.mpr ha.2]⟩
    · -- the head ends before `m` starts, so the search passes it
      have hlt := hl.head_lt hm'
      have hskip : n.last < a := Nat.lt_of_lt_of_le hlt ha.1
      obtain ⟨tl, htl⟩ := ih hl.tail hm'
      exact ⟨tl, by simpa [seek, hskip] using htl⟩

theorem Ordered.unique (hl : Ordered l) (hn : n ∈ l) (hm : m ∈ l) (hna : n.Contains a)
    (hma : m.Contains a) : n = m := by
  obtain ⟨r₁, h₁⟩ := seek_of_contains hl hn hna
  obtain ⟨r₂, h₂⟩ := seek_of_contains hl hm hma
  rw [h₁] at h₂
  exact (List.cons.inj h₂).1

theorem lookup_eq_some (hl : Ordered l) : lookup l a = some m ↔ m ∈ l ∧ m.Contains a := by
  constructor
  · intro h
    unfold lookup at h
    split at h
    · cases h
    · rename_i n rest hseek
      split at h
      · rename_i hle
        cases h
        exact ⟨(seek_suffix l a).subset (by simp [hseek]), hle, le_last_of_seek hseek⟩
      · cases h
  · rintro ⟨hm, ha⟩
    obtain ⟨rest, hrest⟩ := seek_of_contains hl hm ha
    simp [lookup, hrest, ha.1]

theorem lookup_eq_none (hl : Ordered l) : lookup l a = none ↔ ∀ m ∈ l, ¬ m.Contains a := by
  constructor
  · intro h m hm ha
    rw [(lookup_eq_some hl).mpr ⟨hm, ha⟩] at h
    cases h
  · intro h
    cases hfind : lookup l a with
    | none => rfl
    | some m =>
      obtain ⟨hm, ha⟩ := (lookup_eq_some hl).mp hfind
      exact absurd ha (h m hm)

theorem seek_start {post : List (Interval β)} (hl : Ordered l) (h : l = pre ++ n :: post) :
    seek l n.start = n :: post := by
  induction pre generalizing l with
  | nil =>
    have hle := hl.1 n (by simp [h])
    simp [h, seek, Nat.not_lt.mpr hle]
  | cons p pre ih =>
    subst h
    have hlt := hl.head_lt (m := n) (by simp)
    have := ih (l := pre ++ n :: post) hl.tail rfl
    simpa [seek, hlt] using this

theorem seek_succ_last {post : List (Interval β)} (hl : Ordered l) (h : l = pre ++ n :: post) :
    seek l (n.last + 1) = post := by
  induction pre generalizing l with
  | nil =>
    subst h
    cases post with
    | nil => simp [seek]
    | cons m rest =>
      have hlt := hl.head_lt (m := m) (by simp)
      have hle := hl.1 m (by simp)
      have hm : ¬ m.last < n.last + 1 := by omega
      have hn : n.last < n.last + 1 := by omega
      simp only [seek, List.nil_append, List.dropWhile_cons, hn, hm, decide_true, decide_false,
        if_true, Bool.false_eq_true, if_false]
  | cons p pre ih =>
    subst h
    have hlt : p.last < n.start := hl.head_lt (by simp)
    have hle : n.start ≤ n.last := hl.1 n (by simp)
    have hskip : p.last < n.last + 1 := by omega
    have := ih (l := pre ++ n :: post) hl.tail rfl
    simpa only [seek, List.cons_append, List.dropWhile_cons, hskip, decide_true, if_true] using this

theorem lookup_of_seek_nil (hl : Ordered l) {s : ℕ} (h : seek l s = []) (ha : s ≤ a) :
    lookup l a = none := by
  refine (lookup_eq_none hl).mpr fun m hm hc => ?_
  have hlast : m.last < s := by
    simpa using List.dropWhile_eq_nil_iff.mp h m hm
  exact absurd hc.2 (by omega)

theorem last_lt_of_skipped {s : ℕ} (h : pre ++ seek l s = l) (hm : m ∈ pre) : m.last < s := by
  have htake : pre = l.takeWhile (fun k => decide (k.last < s)) := by
    have hsplit := List.takeWhile_append_dropWhile
      (p := fun k : Interval β => decide (k.last < s)) (l := l)
    exact List.append_cancel_right (h.trans hsplit.symm)
  rw [htake] at hm
  simpa using List.mem_takeWhile_imp hm

theorem lookup_of_gap (hl : Ordered l) {s : ℕ} {rest : List (Interval β)} (h : seek l s = n :: rest)
    (hs : s ≤ a) (ha : a < n.start) : lookup l a = none := by
  refine (lookup_eq_none hl).mpr fun m hm hc => ?_
  -- an interval that contains `a` is not skipped by the search, and `n` comes no later than it
  have hmem : m ∈ seek l s := by
    obtain ⟨pre, hpre⟩ := seek_suffix l s
    rw [← hpre] at hm
    rcases List.mem_append.mp hm with hmpre | hm'
    · exact absurd hc.2 (by have := last_lt_of_skipped hpre hmpre; omega)
    · exact hm'
  rw [h] at hmem
  have hord : Ordered (n :: rest) := hl.of_suffix (h ▸ seek_suffix l s)
  rcases List.mem_cons.mp hmem with rfl | hm'
  · exact absurd hc.1 (by omega)
  · have h1 := hord.head_lt hm'
    have h2 := hord.1 n (by simp)
    exact absurd hc.1 (by omega)

/-! ## Chains without a gap -/

/-- The intervals follow each other without a gap, from the given first one on. -/
def Chain : Interval β → List (Interval β) → Prop
  | _, [] => True
  | n, m :: rest => m.start = n.last + 1 ∧ Chain m rest

def chainLast (n : Interval β) (l : List (Interval β)) : Interval β :=
  (n :: l).getLast (by simp)

@[simp] theorem chainLast_nil (n : Interval β) : chainLast n [] = n := rfl

@[simp] theorem chainLast_cons (n m : Interval β) (l : List (Interval β)) :
    chainLast n (m :: l) = chainLast m l := by
  simp [chainLast]

theorem Chain.covers (h : Chain n l) (hlo : n.start ≤ a) (hhi : a ≤ (chainLast n l).last) :
    ∃ m ∈ n :: l, m.Contains a := by
  induction l generalizing n with
  | nil => exact ⟨n, by simp, hlo, by simpa using hhi⟩
  | cons m rest ih =>
    by_cases ha : a ≤ n.last
    · exact ⟨n, by simp, hlo, ha⟩
    · obtain ⟨k, hk, hka⟩ := ih h.2 (by have := h.1; omega) (by simpa using hhi)
      exact ⟨k, List.mem_cons_of_mem _ hk, hka⟩

theorem Chain.last_lt (h : Chain n l) (hm : m ∈ l) (hne : ∀ k ∈ l, k.start ≤ k.last) :
    n.last < m.last := by
  induction l generalizing n with
  | nil => simp at hm
  | cons k rest ih =>
    have hk := hne k (by simp)
    have hstart := h.1
    rcases List.mem_cons.mp hm with rfl | hm'
    · omega
    · have := ih h.2 hm' (fun j hj => hne j (by simp [hj]))
      omega

end NvUvm.Lib
