import NvUvm.Lib.Intervals

/-!
# Edits of sorted lists of disjoint intervals
-/

namespace NvUvm.Lib

variable {β γ : Type*} (f : β → γ)

/-- An interval of the list contains `a`, and `f` of its value is `v`. -/
def Marks (l : List (Interval β)) (a : ℕ) (v : γ) : Prop :=
  ∃ n ∈ l, n.Contains a ∧ f n.val = v

/-- What `f` says about the interval that contains `a`. -/
def valueAt (l : List (Interval β)) (a : ℕ) : Option γ := (lookup l a).map fun n => f n.val

variable {f}
variable {a last start : ℕ} {l after before : List (Interval β)} {m n : Interval β}
  {alike : β → β → Bool}

theorem valueAt_eq_some (hl : Ordered l) {v : γ} : valueAt f l a = some v ↔ Marks f l a v := by
  unfold valueAt Marks
  rw [Option.map_eq_some_iff]
  constructor
  · rintro ⟨n, hn, rfl⟩
    obtain ⟨hmem, ha⟩ := (lookup_eq_some hl).mp hn
    exact ⟨n, hmem, ha, rfl⟩
  · rintro ⟨n, hmem, ha, rfl⟩
    exact ⟨n, (lookup_eq_some hl).mpr ⟨hmem, ha⟩, rfl⟩

/-! ## Rewriting the values -/

section Map

variable {δ : Type*} {g : Interval β → Interval δ} {l : List (Interval β)}

theorem ordered_map (hg : ∀ n, (g n).start = n.start ∧ (g n).last = n.last) (hl : Ordered l) :
    Ordered (l.map g) := by
  refine ⟨fun m hm => ?_, List.pairwise_map.mpr (hl.2.imp fun {n m} hlt => ?_)⟩
  · obtain ⟨n, hn, rfl⟩ := List.mem_map.mp hm
    rw [(hg n).1, (hg n).2]
    exact hl.1 n hn
  · rw [(hg n).2, (hg m).1]
    exact hlt

theorem marks_map (hg : ∀ n, (g n).start = n.start ∧ (g n).last = n.last) {f : β → γ} {f' : δ → γ}
    (hf : ∀ n, f' (g n).val = f n.val) {a : ℕ} {v : γ} :
    Marks f' (l.map g) a v ↔ Marks f l a v := by
  have hcont : ∀ n, (g n).Contains a ↔ n.Contains a := fun n => by
    unfold Interval.Contains
    rw [(hg n).1, (hg n).2]
  simp only [Marks, List.mem_map, exists_exists_and_eq_and, hcont, hf]

theorem valueAt_map (hg : ∀ n, (g n).start = n.start ∧ (g n).last = n.last) {f : β → γ} {f' : δ → γ}
    (hf : ∀ n, f' (g n).val = f n.val) (hl : Ordered l) (a : ℕ) :
    valueAt f' (l.map g) a = valueAt f l a := by
  apply Option.ext
  intro v
  rw [valueAt_eq_some (ordered_map hg hl), valueAt_eq_some hl]
  exact marks_map hg hf

theorem ordered_flatMap (hl : Ordered l) {g : Interval β → List (Interval δ)}
    (hg : ∀ n ∈ l, Ordered (g n) ∧ ∀ m ∈ g n, n.start ≤ m.start ∧ m.last ≤ n.last) :
    Ordered (l.flatMap g) := by
  induction l with
  | nil => exact ⟨by simp, .nil⟩
  | cons n rest ih =>
    have hrest := ih hl.tail fun m hm => hg m (by simp [hm])
    obtain ⟨hn, hin⟩ := hg n (by simp)
    refine ⟨fun m hm => ?_, List.pairwise_append.mpr ⟨hn.2, hrest.2, fun m hm k hk => ?_⟩⟩
    · rcases List.mem_append.mp hm with hm | hm
      · exact hn.1 m hm
      · exact hrest.1 m hm
    · -- the parts of the later intervals start after `n` ends
      obtain ⟨q, hq, hkq⟩ := List.mem_flatMap.mp hk
      have h1 := (hin m hm).2
      have h2 := hl.head_lt hq
      have h3 := ((hg q (by simp [hq])).2 k hkq).1
      omega

end Map

/-! ## Cutting a region out -/

/-- What is left of an interval outside of `[start, last]`. -/
def cutInterval (start last : ℕ) (n : Interval β) : List (Interval β) :=
  if n.last < start ∨ last < n.start then [n]
  else (if n.start < start then [{ n with last := start - 1 }] else []) ++
    if last < n.last then [{ n with start := last + 1 }] else []

/-- The intervals without the addresses of `[start, last]`. -/
def cut (start last : ℕ) (l : List (Interval β)) : List (Interval β) :=
  l.flatMap (cutInterval start last)

theorem mem_cutInterval (hn : n.start ≤ n.last) (hm : m ∈ cutInterval start last n) :
    m.val = n.val ∧ n.start ≤ m.start ∧ m.last ≤ n.last ∧ m.start ≤ m.last ∧
      (m.last < start ∨ last < m.start) := by
  unfold cutInterval at hm
  split at hm
  · next hout =>
    obtain rfl := List.mem_singleton.mp hm
    exact ⟨rfl, le_refl _, le_refl _, hn, hout⟩
  · rcases List.mem_append.mp hm with hm | hm
    · split at hm
      · obtain rfl := List.mem_singleton.mp hm
        refine ⟨rfl, le_refl _, ?_, ?_, .inl ?_⟩ <;> dsimp only <;> omega
      · simp at hm
    · split at hm
      · obtain rfl := List.mem_singleton.mp hm
        refine ⟨rfl, ?_, le_refl _, ?_, .inr ?_⟩ <;> dsimp only <;> omega
      · simp at hm

theorem contains_cutInterval : (∃ m ∈ cutInterval start last n, m.Contains a) ↔
      n.Contains a ∧ ¬ (start ≤ a ∧ a ≤ last) := by
  unfold cutInterval Interval.Contains
  split
  · simp only [List.mem_singleton, exists_eq_left]
    omega
  · constructor
    · rintro ⟨m, hm, hlo, hhi⟩
      rcases List.mem_append.mp hm with hm | hm
      · split at hm
        · obtain rfl := List.mem_singleton.mp hm
          dsimp only at hlo hhi
          omega
        · simp at hm
      · split at hm
        · obtain rfl := List.mem_singleton.mp hm
          dsimp only at hlo hhi
          omega
        · simp at hm
    · rintro ⟨⟨hlo, hhi⟩, hout⟩
      -- the address lies below the region or above it
      by_cases ha : a < start
      · exact ⟨{ n with last := start - 1 }, by simp [show n.start < start by omega], hlo,
          by dsimp only; omega⟩
      · exact ⟨{ n with start := last + 1 }, by simp [show last < n.last by omega],
          by dsimp only; omega, hhi⟩

/-- **Cutting** takes exactly the region's addresses out. -/
theorem marks_cut (hl : Ordered l) {v : γ} :
    Marks f (cut start last l) a v ↔ Marks f l a v ∧ ¬ (start ≤ a ∧ a ≤ last) := by
  constructor
  · rintro ⟨m, hm, ha, rfl⟩
    obtain ⟨n, hn, hmn⟩ := List.mem_flatMap.mp hm
    obtain ⟨hcont, hout⟩ := contains_cutInterval.mp ⟨m, hmn, ha⟩
    exact ⟨⟨n, hn, hcont, by rw [(mem_cutInterval (hl.1 n hn) hmn).1]⟩, hout⟩
  · rintro ⟨⟨n, hn, ha, rfl⟩, hout⟩
    obtain ⟨m, hm, hma⟩ := contains_cutInterval.mpr ⟨ha, hout⟩
    exact ⟨m, List.mem_flatMap.mpr ⟨n, hn, hm⟩, hma, by rw [(mem_cutInterval (hl.1 n hn) hm).1]⟩

theorem mem_cut_outside (hl : Ordered l) (hm : m ∈ cut start last l) :
    m.last < start ∨ last < m.start := by
  obtain ⟨n, hn, hmn⟩ := List.mem_flatMap.mp hm
  exact (mem_cutInterval (hl.1 n hn) hmn).2.2.2.2

theorem ordered_cut (hl : Ordered l) (hsl : start ≤ last) : Ordered (cut start last l) := by
  refine ordered_flatMap hl fun n hn => ⟨⟨fun m hm => ?_, ?_⟩, fun m hm => ?_⟩
  · exact (mem_cutInterval (hl.1 n hn) hm).2.2.2.1
  · unfold cutInterval
    split
    · simp
    · split <;> split <;> simp
      omega
  · have hpiece := mem_cutInterval (hl.1 n hn) hm
    exact ⟨hpiece.2.1, hpiece.2.2.1⟩

theorem valueAt_cut (hl : Ordered l) (hsl : start ≤ last) (a : ℕ) : valueAt f (cut start last l) a =
      if start ≤ a ∧ a ≤ last then none else valueAt f l a := by
  apply Option.ext
  intro v
  rw [valueAt_eq_some (ordered_cut hl hsl), marks_cut hl]
  split
  · next ha => simp [ha]
  · next ha =>
    rw [valueAt_eq_some hl]
    exact and_iff_left ha

/-! ## Inserting an interval -/

/-- The interval put before the first one that does not end before it starts. -/
def insertAt (n : Interval β) (l : List (Interval β)) : List (Interval β) :=
  l.takeWhile (fun m => decide (m.last < n.start)) ++ n :: seek l n.start

theorem mem_insertAt : m ∈ insertAt n l ↔ m = n ∨ m ∈ l := by
  have hsplit : m ∈ l ↔ m ∈ l.takeWhile (fun m => decide (m.last < n.start)) ∨
      m ∈ seek l n.start := by
    rw [← List.mem_append, seek, List.takeWhile_append_dropWhile]
  unfold insertAt
  rw [hsplit, List.mem_append, List.mem_cons]
  exact or_left_comm

theorem marks_insertAt {v : γ} :
    Marks f (insertAt n l) a v ↔ (n.Contains a ∧ f n.val = v) ∨ Marks f l a v := by
  simp only [Marks, mem_insertAt, or_and_right, exists_or, exists_eq_left]

theorem ordered_insertAt (hl : Ordered l) (hn : n.start ≤ n.last)
    (hout : ∀ m ∈ l, m.last < n.start ∨ n.last < m.start) : Ordered (insertAt n l) := by
  have hseek := hl.of_suffix (seek_suffix l n.start)
  have hbefore : ∀ m ∈ l.takeWhile (fun m => decide (m.last < n.start)), m.last < n.start :=
    fun m hm => by simpa using List.mem_takeWhile_imp hm
  -- everything from the place of `n` on starts after it
  have hafter : ∀ m ∈ seek l n.start, n.last < m.start := by
    intro m hm
    rcases hout m ((seek_suffix l n.start).subset hm) with hlt | hlt
    · rcases hrest : seek l n.start with _ | ⟨k, rest⟩
      · simp [hrest] at hm
      · have hk := le_last_of_seek hrest
        rw [hrest] at hm hseek
        rcases List.mem_cons.mp hm with rfl | hm'
        · omega
        · have := hseek.head_lt hm'
          have := hseek.1 m hm
          omega
    · exact hlt
  refine ⟨fun m hm => ?_, List.pairwise_append.mpr ⟨?_, List.pairwise_cons.mpr ⟨hafter, hseek.2⟩,
    fun m hm k hk => ?_⟩⟩
  · rcases mem_insertAt.mp hm with rfl | hm
    · exact hn
    · exact hl.1 m hm
  · exact hl.2.sublist (List.takeWhile_prefix _).sublist
  · have := hbefore m hm
    rcases List.mem_cons.mp hk with rfl | hk
    · exact this
    · have := hafter k hk
      omega

/-! ## Joining adjacent intervals -/

/-- The last interval of the list joined with the one after it, where they are adjacent and
alike. -/
def mergePrev (alike : β → β → Bool) (before : List (Interval β)) (n : Interval β) :
    List (Interval β) × Interval β :=
  match before.getLast? with
  | some p => if p.last + 1 = n.start ∧ alike p.val n.val then
      (before.dropLast, { n with start := p.start }) else (before, n)
  | none => (before, n)

/-- The first interval of the list joined with the one before it, where they are adjacent and
alike. -/
def mergeNext (alike : β → β → Bool) (n : Interval β) :
    List (Interval β) → Interval β × List (Interval β)
  | p :: rest => if p.start - 1 = n.last ∧ alike p.val n.val then
      ({ n with last := p.last }, rest) else (n, p :: rest)
  | [] => (n, [])

/-- The interval put in its place and joined with its neighbours. -/
def insertMerged (alike : β → β → Bool) (n : Interval β) (l : List (Interval β)) :
    List (Interval β) :=
  let before := mergePrev alike (l.takeWhile fun m => decide (m.last < n.start)) n
  let after := mergeNext alike before.2 (seek l n.start)
  before.1 ++ after.1 :: after.2

private theorem merge_pair {pre post : List (Interval β)} {p : Interval β}
    (hl : Ordered (pre ++ p :: n :: post)) (hadj : p.last + 1 = n.start) (joined : Interval β)
    (hstart : joined.start = p.start) (hlast : joined.last = n.last) (hval : f joined.val = f p.val)
    (hsame : f p.val = f n.val) :
    Ordered (pre ++ joined :: post) ∧
      ∀ a v, Marks f (pre ++ joined :: post) a v ↔ Marks f (pre ++ p :: n :: post) a v := by
  have hp := hl.1 p (by simp)
  have hn := hl.1 n (by simp)
  refine ⟨⟨fun m hm => ?_, ?_⟩, fun a v => ?_⟩
  · rcases List.mem_append.mp hm with hm | hm
    · exact hl.1 m (by simp [hm])
    · rcases List.mem_cons.mp hm with rfl | hm
      · omega
      · exact hl.1 m (by simp [hm])
  · have h := hl.2
    simp only [List.pairwise_append, List.pairwise_cons, List.mem_cons, forall_eq_or_imp] at h ⊢
    obtain ⟨hpre, ⟨⟨-, -⟩, hpost, hpost'⟩, hcross⟩ := h
    refine ⟨hpre, ⟨fun m hm => hlast ▸ hpost m hm, hpost'⟩, fun m hm => ⟨?_, (hcross m hm).2.2⟩⟩
    exact hstart ▸ (hcross m hm).1
  · have hcont : joined.Contains a ↔ p.Contains a ∨ n.Contains a := by
      unfold Interval.Contains
      omega
    simp only [Marks, List.mem_append, List.mem_cons, or_and_right, exists_or, exists_eq_left,
      hcont, hval, ← hsame, or_assoc]

private theorem mergePrev_spec (halike : ∀ u v, alike u v = true → f u = f v)
    (h : Ordered (before ++ n :: after)) :
    Ordered ((mergePrev alike before n).1 ++ (mergePrev alike before n).2 :: after) ∧
      ∀ a v, Marks f ((mergePrev alike before n).1 ++ (mergePrev alike before n).2 :: after) a v ↔
        Marks f (before ++ n :: after) a v := by
  unfold mergePrev
  rcases hlast : before.getLast? with _ | p
  · exact ⟨h, fun _ _ => Iff.rfl⟩
  · dsimp only
    split
    · next hmerge =>
      obtain ⟨pre, rfl⟩ := List.getLast?_eq_some_iff.mp hlast
      have hsame := halike _ _ hmerge.2
      rw [List.append_assoc] at h ⊢
      rw [List.dropLast_concat]
      exact merge_pair h hmerge.1 { n with start := p.start } rfl rfl hsame.symm hsame
    · exact ⟨h, fun _ _ => Iff.rfl⟩

private theorem mergeNext_spec (halike : ∀ u v, alike u v = true → f u = f v)
    (h : Ordered (before ++ n :: after)) :
    Ordered (before ++ (mergeNext alike n after).1 :: (mergeNext alike n after).2) ∧
      ∀ a v, Marks f (before ++ (mergeNext alike n after).1 :: (mergeNext alike n after).2) a v ↔
        Marks f (before ++ n :: after) a v := by
  unfold mergeNext
  split
  · next p rest =>
    split
    · next hmerge =>
      have hlt : n.last < p.start := by
        have := h.2
        simp only [List.pairwise_append, List.pairwise_cons, List.mem_cons,
          forall_eq_or_imp] at this
        exact this.2.1.1.1
      have hsame := halike _ _ hmerge.2
      exact merge_pair h (by omega) { n with last := p.last } rfl rfl rfl hsame.symm
    · exact ⟨h, fun _ _ => Iff.rfl⟩
  · exact ⟨h, fun _ _ => Iff.rfl⟩

/-- **Inserting with merges** marks the same addresses as inserting does. -/
theorem insertMerged_spec (halike : ∀ u v, alike u v = true → f u = f v)
    (h : Ordered (insertAt n l)) :
    Ordered (insertMerged alike n l) ∧
      ∀ a v, Marks f (insertMerged alike n l) a v ↔ Marks f (insertAt n l) a v := by
  have hprev := mergePrev_spec halike h
  have hnext := mergeNext_spec halike hprev.1
  exact ⟨hnext.1, fun a v => (hnext.2 a v).trans (hprev.2 a v)⟩

theorem val_of_mem_insertMerged (hm : m ∈ insertMerged alike n l) : m.val = n.val ∨ m ∈ l := by
  have hbefore : ∀ k ∈ l.takeWhile (fun m => decide (m.last < n.start)), k ∈ l := fun k hk =>
    (List.takeWhile_prefix _).subset hk
  have hprev : (∀ k ∈ (mergePrev alike (l.takeWhile fun m => decide (m.last < n.start)) n).1, k ∈ l) ∧
      (mergePrev alike (l.takeWhile fun m => decide (m.last < n.start)) n).2.val = n.val := by
    unfold mergePrev
    split
    · split
      · exact ⟨fun k hk => hbefore k ((List.dropLast_sublist _).subset hk), rfl⟩
      · exact ⟨hbefore, rfl⟩
    · exact ⟨hbefore, rfl⟩
  have hnext : ∀ q : Interval β, (mergeNext alike q (seek l n.start)).1.val = q.val ∧
      ∀ k ∈ (mergeNext alike q (seek l n.start)).2, k ∈ l := by
    intro q
    have hafter : ∀ k ∈ seek l n.start, k ∈ l := fun k hk => (seek_suffix l n.start).subset hk
    unfold mergeNext
    split
    · next p rest heq =>
      split
      · exact ⟨rfl, fun k hk => hafter k (by rw [heq]; exact List.mem_cons_of_mem p hk)⟩
      · exact ⟨rfl, fun k hk => hafter k (by rw [heq]; exact hk)⟩
    · exact ⟨rfl, by simp⟩
  rcases List.mem_append.mp hm with hm | hm
  · exact .inr (hprev.1 m hm)
  · rcases List.mem_cons.mp hm with rfl | hm
    · exact .inl ((hnext _).1.trans hprev.2)
    · exact .inr ((hnext _).2 m hm)

/-! ## Adjacent intervals differ -/

def Separated (f : β → γ) (l : List (Interval β)) : Prop :=
  ∀ m ∈ l, ∀ k ∈ l, m.last + 1 = k.start → f m.val ≠ f k.val

theorem Ordered.lt_or_lt (hl : Ordered l) {k : Interval β} (hm : m ∈ l) (hk : k ∈ l) (hne : m ≠ k) :
    m.last < k.start ∨ k.last < m.start := by
  by_contra hnot
  refine hne (hl.unique hm hk (a := max m.start k.start) ⟨le_max_left .., ?_⟩ ⟨le_max_right .., ?_⟩)
  · exact max_le (hl.1 m hm) (by omega)
  · exact max_le (by omega) (hl.1 k hk)

theorem separated_cut (hl : Ordered l) (h : Separated f l) (hsl : start ≤ last) :
    Separated f (cut start last l) := by
  intro m hm k hk hadjacent
  obtain ⟨x, hx, hmx⟩ := List.mem_flatMap.mp hm
  obtain ⟨y, hy, hky⟩ := List.mem_flatMap.mp hk
  obtain ⟨hmval, hmstart, hmlast, hmle, -⟩ := mem_cutInterval (hl.1 x hx) hmx
  obtain ⟨hkval, hkstart, hklast, hkle, -⟩ := mem_cutInterval (hl.1 y hy) hky
  rw [hmval, hkval]
  rcases eq_or_ne x y with rfl | hne
  · -- two pieces of one interval have the region between them
    unfold cutInterval at hmx hky
    split at hmx
    · next hout =>
      rw [if_pos hout] at hky
      rw [List.mem_singleton.mp hmx, List.mem_singleton.mp hky] at hadjacent
      omega
    · next hin =>
      rw [if_neg hin] at hky
      have hlow : ∀ q ∈ (if x.start < start then [{ x with last := start - 1 }] else []) ++
          (if last < x.last then [{ x with start := last + 1 }] else []),
          q.last = start - 1 ∧ x.start < start ∨ q.start = last + 1 ∧ q.last = x.last := by
        intro q hq
        rcases List.mem_append.mp hq with hq | hq
        · split at hq
          · next hlt =>
            rw [List.mem_singleton.mp hq]
            exact .inl ⟨rfl, hlt⟩
          · simp at hq
        · split at hq
          · rw [List.mem_singleton.mp hq]
            exact .inr ⟨rfl, rfl⟩
          · simp at hq
      have := hlow m hmx
      have := hlow k hky
      omega
  · rcases hl.lt_or_lt hx hy hne with hlt | hlt
    · exact h x hx y hy (by omega)
    · omega

private theorem separated_merged (halike : ∀ u v, alike u v = true ↔ f u = f v)
    (hl : Ordered (before ++ n :: after)) (h : Separated f (before ++ after)) :
    Separated f ((mergePrev alike before n).1 ++
      (mergeNext alike (mergePrev alike before n).2 after).1 ::
        (mergeNext alike (mergePrev alike before n).2 after).2) := by
  have hpw := hl.2
  simp only [List.pairwise_append, List.pairwise_cons, List.mem_cons, forall_eq_or_imp] at hpw
  obtain ⟨hbefore, ⟨hafterN, hafter⟩, hcross⟩ := hpw
  have hle : ∀ m ∈ before ++ n :: after, m.start ≤ m.last := hl.1
  -- what is left in front differs from the joined interval
  have hprev : (mergePrev alike before n).2.last = n.last ∧ (mergePrev alike before n).2.val = n.val ∧
      (∀ m ∈ (mergePrev alike before n).1, m ∈ before) ∧
        (mergePrev alike before n).2.start ≤ n.start ∧
        ∀ m ∈ (mergePrev alike before n).1, m.last + 1 = (mergePrev alike before n).2.start →
          f m.val ≠ f n.val := by
    unfold mergePrev
    cases hlast : before.getLast? with
    | none =>
      rw [List.getLast?_eq_none_iff] at hlast
      subst hlast
      simp
    | some p =>
      obtain ⟨pre, rfl⟩ := List.getLast?_eq_some_iff.mp hlast
      dsimp only
      split
      · next hmerge =>
        rw [List.dropLast_concat]
        have hpstart := hle p (by simp)
        have hpn := (hcross p (by simp)).1
        refine ⟨rfl, rfl, fun m hm => List.mem_append_left _ hm, by dsimp only; omega,
          fun m hm hadj => ?_⟩
        rw [← (halike p.val n.val).mp hmerge.2]
        exact h m (by simp [hm]) p (by simp) hadj
      · next hnot =>
        refine ⟨rfl, rfl, fun m hm => hm, le_refl _, fun m hm hadj heq => ?_⟩
        change m.last + 1 = n.start at hadj
        rcases List.mem_append.mp hm with hm | hm
        · -- the last one in front lies between
          have hmp := (List.pairwise_append.mp hbefore).2.2 m hm p List.mem_cons_self
          have hpn := (hcross p (by simp)).1
          have hple := hle p (by simp)
          omega
        · obtain rfl := List.mem_singleton.mp hm
          exact hnot ⟨hadj, (halike m.val n.val).mpr heq⟩
  generalize mergePrev alike before n = r at hprev
  obtain ⟨hqlast, hqval, hsub, hqstart, hfront⟩ := hprev
  have hnext : (mergeNext alike r.2 after).1.start = r.2.start ∧
      (mergeNext alike r.2 after).1.val = r.2.val ∧
      (∀ m ∈ (mergeNext alike r.2 after).2, m ∈ after) ∧
        n.last ≤ (mergeNext alike r.2 after).1.last ∧
        ∀ m ∈ (mergeNext alike r.2 after).2, (mergeNext alike r.2 after).1.last + 1 = m.start →
          f n.val ≠ f m.val := by
    unfold mergeNext
    cases after with
    | nil => simp [hqlast]
    | cons p rest =>
      have hnp := hafterN p List.mem_cons_self
      have hple := hle p (by simp)
      dsimp only
      split
      · next hmerge =>
        refine ⟨rfl, rfl, fun m hm => List.mem_cons_of_mem p hm, by dsimp only; omega,
          fun m hm hadj => ?_⟩
        rw [← hqval, ← (halike p.val r.2.val).mp hmerge.2]
        exact h p (by simp) m (by simp [hm]) hadj
      · next hnot =>
        refine ⟨rfl, rfl, fun m hm => hm, hqlast.ge, fun m hm hadj heq => ?_⟩
        change r.2.last + 1 = m.start at hadj
        rcases List.mem_cons.mp hm with rfl | hm
        · exact hnot ⟨by omega, (halike m.val r.2.val).mpr (by rw [hqval, heq])⟩
        · have := (List.pairwise_cons.mp hafter).1 m hm
          omega
  obtain ⟨htstart, htval, htsub, htlast, hback⟩ := hnext
  have hnle := hle n (by simp)
  intro m hm k hk hadj
  simp only [List.mem_append, List.mem_cons] at hm hk
  have hmle : ∀ {q}, q ∈ before ∨ q ∈ after → q.start ≤ q.last := fun hq => hle _ (by
    rcases hq with hq | hq <;> simp [hq])
  rcases hm with hm | rfl | hm
  · rcases hk with hk | rfl | hk
    · exact h m (by simp [hsub m hm]) k (by simp [hsub k hk]) hadj
    · rw [htval, hqval]
      exact hfront m hm (by rw [hadj, htstart])
    · exact h m (by simp [hsub m hm]) k (by simp [htsub k hk]) hadj
  · rcases hk with hk | rfl | hk
    · have := (hcross k (hsub k hk)).1
      have := hmle (.inl (hsub k hk))
      omega
    · omega
    · rw [htval, hqval]
      exact hback k hk hadj
  · rcases hk with hk | rfl | hk
    · exact h m (by simp [htsub m hm]) k (by simp [hsub k hk]) hadj
    · have := hafterN m (htsub m hm)
      have := hmle (.inr (htsub m hm))
      omega
    · exact h m (by simp [htsub m hm]) k (by simp [htsub k hk]) hadj

/-- **Inserting with merges** leaves no alike neighbours. -/
theorem separated_insertMerged (halike : ∀ u v, alike u v = true ↔ f u = f v)
    (hl : Ordered (insertAt n l)) (h : Separated f l) : Separated f (insertMerged alike n l) := by
  have hsplit : l.takeWhile (fun m => decide (m.last < n.start)) ++ seek l n.start = l := by
    rw [seek, List.takeWhile_append_dropWhile]
  exact separated_merged halike hl (by rw [hsplit]; exact h)

/-! ## Walking without a gap -/

/-- The intervals that follow `n` without a gap, up to the last one that begins in
`[.., last]`. -/
def contigAfter (last : ℕ) : Interval β → List (Interval β) → List (Interval β)
  | _, [] => []
  | n, m :: rest => if m.start ≤ last ∧ m.start = n.last + 1 then m :: contigAfter last m rest
    else []

/-- The interval that contains `start`, and those that follow it without a gap and begin within
`[start, last]`. -/
def contigFromTo (l : List (Interval β)) (start last : ℕ) : List (Interval β) :=
  match seek l start with
  | [] => []
  | n :: rest => if n.start ≤ start then n :: contigAfter last n rest else []

theorem contigAfter_isPrefix (last : ℕ) (n : Interval β) (l : List (Interval β)) :
    contigAfter last n l <+: l := by
  induction l generalizing n with
  | nil => exact List.prefix_refl _
  | cons m rest ih =>
    unfold contigAfter
    split
    · exact (List.prefix_cons_inj m).mpr (ih m)
    · exact List.nil_prefix

theorem contigAfter_start_le (hm : m ∈ contigAfter last n l) : m.start ≤ last := by
  induction l generalizing n with
  | nil => cases hm
  | cons k rest ih =>
    unfold contigAfter at hm
    split at hm
    · next hadj =>
      rcases List.mem_cons.mp hm with rfl | hm
      · exact hadj.1
      · exact ih hm
    · cases hm

theorem contigAfter_chain (last : ℕ) (n : Interval β) (l : List (Interval β)) :
    Chain n (contigAfter last n l) := by
  induction l generalizing n with
  | nil => trivial
  | cons m rest ih =>
    unfold contigAfter
    split
    · next hadj => exact ⟨hadj.2, ih m⟩
    · trivial

theorem contigFromTo_isInfix (l : List (Interval β)) (start last : ℕ) :
    contigFromTo l start last <:+: l := by
  unfold contigFromTo
  split
  · exact List.nil_infix
  · next n rest hseek =>
    split
    · refine List.IsInfix.trans ?_ (seek_suffix l start).isInfix
      rw [hseek]
      exact ((List.prefix_cons_inj n).mpr (contigAfter_isPrefix last n rest)).isInfix
    · exact List.nil_infix

theorem Chain.of_isPrefix {k : List (Interval β)} (h : Chain n l) (hk : k <+: l) : Chain n k := by
  induction k generalizing n l with
  | nil => trivial
  | cons m rest ih =>
    obtain ⟨post, rfl⟩ := hk
    exact ⟨h.1, ih h.2 (List.prefix_append _ _)⟩

/-- **Cover**: a prefix of the walk from `start` whose last interval ends at or after `last` has
every address of `[start, last]` in it. -/
theorem covers_of_isPrefix {k : List (Interval β)} (hk : k <+: contigFromTo l start last)
    (hn : k.getLast? = some n) (hlast : last ≤ n.last) (hlo : start ≤ a) (hhi : a ≤ last) :
    ∃ m ∈ k, m.Contains a := by
  unfold contigFromTo at hk
  split at hk
  · rw [List.prefix_nil.mp hk] at hn
    simp at hn
  · next m rest hseek =>
    split at hk
    · next hstart =>
      cases k with
      | nil => simp at hn
      | cons m' k =>
        obtain ⟨rfl, hk⟩ := List.cons_prefix_cons.mp hk
        have hchain := (contigAfter_chain last m' rest).of_isPrefix hk
        apply hchain.covers (by omega)
        have hend : chainLast m' k = n := by
          exact Option.some.inj hn
        rw [hend]
        omega
    · rw [List.prefix_nil.mp hk] at hn
      simp at hn

end NvUvm.Lib
