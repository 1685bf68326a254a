import Mathlib.Data.List.Nodup

/-!
# A list of entries that count

Entries with a key and a count, of which those that count something are on a list.  What an entry
counts is what is pending for its key, and the holders of the entry itself.
-/

namespace NvUvm.Lib

open Function (update update_of_ne update_self)

variable {ι κ : Type*} {α : Type*}

theorem countP_set_add {l : List α} {i : ℕ} {a : α} (hi : l[i]? = some a) (a' : α) (p : α → Bool) :
    (l.set i a').countP p + (if p a then 1 else 0) = l.countP p + if p a' then 1 else 0 := by
  obtain ⟨hlt, rfl⟩ := List.getElem?_eq_some_iff.mp hi
  rw [List.countP_set hlt]
  have hle : (if p l[i] then 1 else 0) ≤ l.countP p := by
    split
    · next hp => exact List.countP_pos_iff.mpr ⟨_, List.getElem_mem hlt, hp⟩
    · exact Nat.zero_le _
  omega

theorem countP_erase_of_not [DecidableEq α] {l : List α} {x : α} {p : α → Bool} (hx : p x = false) :
    (l.erase x).countP p = l.countP p := by
  by_cases hmem : x ∈ l
  · have hperm := (List.perm_cons_erase hmem).countP_eq p
    rw [List.countP_cons, hx, if_neg Bool.false_ne_true] at hperm
    exact hperm.symm
  · rw [List.erase_of_not_mem hmem]

theorem countP_change [DecidableEq α] {l : List α} {x : α} {p q : α → Bool} (hnd : l.Nodup)
    (hx : x ∈ l) (hother : ∀ y ∈ l, y ≠ x → q y = p y) :
    l.countP q + (if p x then 1 else 0) = l.countP p + if q x then 1 else 0 := by
  have hrest : (l.erase x).countP q = (l.erase x).countP p := by
    refine List.countP_congr fun y hy => ?_
    obtain ⟨hne, hmem⟩ := hnd.mem_erase_iff.mp hy
    rw [hother y hmem hne]
  have hp := (List.perm_cons_erase hx).countP_eq p
  have hq := (List.perm_cons_erase hx).countP_eq q
  rw [List.countP_cons] at hp hq
  omega

/-- The entries on the list, and what they count. -/
structure CountedList (list : List ι) (entry : ι → Option (κ × ℕ)) (pending : κ → ℕ)
    (held : ι → ℕ) : Prop where
  nodup : list.Nodup
  counted : ∀ e ∈ list, ∃ k, entry e = some (k, pending k + held e) ∧ 0 < pending k + held e
  key_inj : ∀ e ∈ list, ∀ e' ∈ list, ∀ k n n',
    entry e = some (k, n) → entry e' = some (k, n') → e = e'
  offList : ∀ e, e ∉ list → ∀ k n, entry e = some (k, n) → n = 0
  listed : ∀ k, 0 < pending k → ∃ e ∈ list, ∃ n, entry e = some (k, n)

namespace CountedList

variable {list : List ι} {entry : ι → Option (κ × ℕ)} {pending pending' : κ → ℕ}
  {held held' : ι → ℕ} {e : ι} {k : κ} {n n' : ℕ}

theorem congr (h : CountedList list entry pending held) (hpend : ∀ k, pending' k = pending k)
    (hheld : ∀ e ∈ list, held' e = held e) : CountedList list entry pending' held' := by
  obtain rfl : pending' = pending := funext hpend
  refine ⟨h.nodup, fun e he => ?_, h.key_inj, h.offList, h.listed⟩
  rw [hheld e he]
  exact h.counted e he

theorem count_eq (h : CountedList list entry pending held) (he : e ∈ list)
    (hentry : entry e = some (k, n)) : n = pending k + held e ∧ 0 < n := by
  obtain ⟨k', hk', hpos⟩ := h.counted e he
  rw [hk'] at hentry
  obtain ⟨rfl, rfl⟩ := Prod.mk.inj (Option.some.inj hentry)
  exact ⟨rfl, hpos⟩

theorem isSome (h : CountedList list entry pending held) (he : e ∈ list) :
    ∃ k n, entry e = some (k, n) := by
  obtain ⟨k, hk, -⟩ := h.counted e he
  exact ⟨k, _, hk⟩

variable [DecidableEq ι]

private theorem key_of_update (hentry : entry e = some (k, n)) {e' : ι} {k' : κ} {m : ℕ}
    (h : update entry e (some (k, n')) e' = some (k', m)) :
    ∃ m', entry e' = some (k', m') := by
  by_cases heq : e' = e
  · subst heq
    rw [update_self] at h
    obtain ⟨rfl, -⟩ := Prod.mk.inj (Option.some.inj h)
    exact ⟨n, hentry⟩
  · rw [update_of_ne heq] at h
    exact ⟨m, h⟩

/-- **The count of one entry changes**, with what is pending for its key or with its holders. -/
theorem recount (h : CountedList list entry pending held) (he : e ∈ list)
    (hentry : entry e = some (k, n)) (hpend : ∀ k', k' ≠ k → pending' k' = pending k')
    (hheld : ∀ e' ∈ list, e' ≠ e → held' e' = held e') (hcnt : n' = pending' k + held' e)
    (hpos : 0 < n') : CountedList list (update entry e (some (k, n'))) pending' held' := by
  refine ⟨h.nodup, fun e' he' => ?_, fun e₁ he₁ e₂ he₂ k' m₁ m₂ h₁ h₂ => ?_,
    fun e' he' k' m hm => ?_, fun k' hk' => ?_⟩
  · by_cases heq : e' = e
    · subst heq
      refine ⟨k, ?_, hcnt ▸ hpos⟩
      rw [update_self, hcnt]
    · obtain ⟨k', hk', hpos'⟩ := h.counted e' he'
      -- another entry on the list has another key
      have hne : k' ≠ k := by
        rintro rfl
        exact heq (h.key_inj e' he' e he _ _ _ hk' hentry)
      rw [update_of_ne heq]
      refine ⟨k', ?_, ?_⟩
      · rw [hpend k' hne, hheld e' he' heq]
        exact hk'
      · rw [hpend k' hne, hheld e' he' heq]
        exact hpos'
  · obtain ⟨_, h₁'⟩ := key_of_update hentry h₁
    obtain ⟨_, h₂'⟩ := key_of_update hentry h₂
    exact h.key_inj e₁ he₁ e₂ he₂ k' _ _ h₁' h₂'
  · have hne : e' ≠ e := fun heq => he' (heq ▸ he)
    rw [update_of_ne hne] at hm
    exact h.offList e' he' k' m hm
  · by_cases heq : k' = k
    · subst heq
      exact ⟨e, he, n', update_self ..⟩
    · rw [hpend k' heq] at hk'
      obtain ⟨e', he', m, hm⟩ := h.listed k' hk'
      have hne : e' ≠ e := by
        rintro rfl
        rw [hentry] at hm
        exact heq (Prod.mk.inj (Option.some.inj hm)).1.symm
      refine ⟨e', he', m, ?_⟩
      rw [update_of_ne hne]
      exact hm

/-- **An entry that counts nothing any more** goes off the list. -/
theorem remove (h : CountedList list entry pending held) (he : e ∈ list)
    (hentry : entry e = some (k, n)) (hpend : ∀ k', k' ≠ k → pending' k' = pending k')
    (hheld : ∀ e' ∈ list, e' ≠ e → held' e' = held e') (hzero : pending' k + held' e = 0) :
    CountedList (list.erase e) (update entry e (some (k, 0))) pending' held' := by
  have hmem : ∀ {e'}, e' ∈ list.erase e ↔ e' ≠ e ∧ e' ∈ list := h.nodup.mem_erase_iff
  refine ⟨h.nodup.erase e, fun e' he' => ?_, fun e₁ he₁ e₂ he₂ k' m₁ m₂ h₁ h₂ => ?_,
    fun e' he' k' m hm => ?_, fun k' hk' => ?_⟩
  · obtain ⟨hne, he'⟩ := hmem.mp he'
    obtain ⟨k', hk', hpos⟩ := h.counted e' he'
    have hkey : k' ≠ k := by
      rintro rfl
      exact hne (h.key_inj e' he' e he _ _ _ hk' hentry)
    refine ⟨k', ?_, ?_⟩
    · rw [update_of_ne hne, hpend k' hkey, hheld e' he' hne]
      exact hk'
    · rw [hpend k' hkey, hheld e' he' hne]
      exact hpos
  · obtain ⟨hne₁, he₁⟩ := hmem.mp he₁
    obtain ⟨hne₂, he₂⟩ := hmem.mp he₂
    rw [update_of_ne hne₁] at h₁
    rw [update_of_ne hne₂] at h₂
    exact h.key_inj e₁ he₁ e₂ he₂ k' _ _ h₁ h₂
  · by_cases heq : e' = e
    · subst heq
      rw [update_self] at hm
      exact (Prod.mk.inj (Option.some.inj hm)).2.symm
    · rw [update_of_ne heq] at hm
      exact h.offList e' (fun hin => he' (hmem.mpr ⟨heq, hin⟩)) k' m hm
  · have hkey : k' ≠ k := by
      rintro rfl
      omega
    rw [hpend k' hkey] at hk'
    obtain ⟨e', he', m, hm⟩ := h.listed k' hk'
    have hne : e' ≠ e := by
      rintro rfl
      rw [hentry] at hm
      exact hkey (Prod.mk.inj (Option.some.inj hm)).1.symm
    refine ⟨e', hmem.mpr ⟨hne, he'⟩, m, ?_⟩
    rw [update_of_ne hne]
    exact hm

/-- **The first entry** of a key. -/
theorem insert (h : CountedList list entry pending held) (he : e ∉ list)
    (hfirst : ∀ e' ∈ list, ∀ n, entry e' ≠ some (k, n))
    (hpend : ∀ k', k' ≠ k → pending' k' = pending k') (hone : pending' k + held e = 1) :
    CountedList (list ++ [e]) (update entry e (some (k, 1))) pending' held := by
  have hne : ∀ e' ∈ list, e' ≠ e := fun e' he' heq => he (heq ▸ he')
  have hold : ∀ e' ∈ list, update entry e (some (k, 1)) e' = entry e' :=
    fun e' he' => update_of_ne (hne e' he') ..
  refine ⟨?_, fun e' he' => ?_, fun e₁ he₁ e₂ he₂ k' m₁ m₂ h₁ h₂ => ?_,
    fun e' he' k' m hm => ?_, fun k' hk' => ?_⟩
  · rw [List.nodup_append]
    refine ⟨h.nodup, List.nodup_singleton e, fun e' he' e'' he'' => ?_⟩
    rw [List.mem_singleton.mp he'']
    exact hne e' he'
  · rcases List.mem_append.mp he' with he' | he'
    · obtain ⟨k', hk', hpos⟩ := h.counted e' he'
      have hkey : k' ≠ k := by
        rintro rfl
        exact hfirst e' he' _ hk'
      refine ⟨k', ?_, ?_⟩
      · rw [hold e' he', hpend k' hkey]
        exact hk'
      · rw [hpend k' hkey]
        exact hpos
    · obtain rfl := List.mem_singleton.mp he'
      refine ⟨k, ?_, by omega⟩
      rw [update_self, hone]
  · rcases List.mem_append.mp he₁ with he₁ | he₁
    · rcases List.mem_append.mp he₂ with he₂ | he₂
      · rw [hold e₁ he₁] at h₁
        rw [hold e₂ he₂] at h₂
        exact h.key_inj e₁ he₁ e₂ he₂ k' _ _ h₁ h₂
      · -- only the new entry has this key
        rw [List.mem_singleton.mp he₂, update_self] at h₂
        rw [hold e₁ he₁, ← (Prod.mk.inj (Option.some.inj h₂)).1] at h₁
        exact absurd h₁ (hfirst e₁ he₁ _)
    · rcases List.mem_append.mp he₂ with he₂ | he₂
      · rw [List.mem_singleton.mp he₁, update_self] at h₁
        rw [hold e₂ he₂, ← (Prod.mk.inj (Option.some.inj h₁)).1] at h₂
        exact absurd h₂ (hfirst e₂ he₂ _)
      · exact (List.mem_singleton.mp he₁).trans (List.mem_singleton.mp he₂).symm
  · rw [List.mem_append, List.mem_singleton, not_or] at he'
    obtain ⟨hnot, hne'⟩ := he'
    rw [update_of_ne hne'] at hm
    exact h.offList e' hnot k' m hm
  · by_cases hkey : k' = k
    · subst hkey
      exact ⟨e, List.mem_append_right list (List.mem_singleton_self e), 1, update_self ..⟩
    · rw [hpend k' hkey] at hk'
      obtain ⟨e', he', m, hm⟩ := h.listed k' hk'
      exact ⟨e', List.mem_append_left [e] he', m, (hold e' he').trans hm⟩

/-- **What an entry counts** goes from its holders to what is pending for its key, or back. -/
theorem shift (h : CountedList list entry pending held) (he : e ∈ list)
    (hentry : entry e = some (k, n)) (hpend : ∀ k', k' ≠ k → pending' k' = pending k')
    (hheld : ∀ e' ∈ list, e' ≠ e → held' e' = held e')
    (hsum : pending' k + held' e = pending k + held e) :
    CountedList list entry pending' held' := by
  obtain ⟨hcnt, hpos⟩ := h.count_eq he hentry
  have hsame := h.recount he hentry hpend hheld (hcnt.trans hsum.symm) hpos
  rwa [← hentry, Function.update_eq_self] at hsame

/-- **An entry off the list** goes away, or appears without a count. -/
theorem forget (h : CountedList list entry pending held) (he : e ∉ list) {value : Option (κ × ℕ)}
    (hvalue : ∀ k n, value = some (k, n) → n = 0) :
    CountedList list (update entry e value) pending held := by
  have hold : ∀ e' ∈ list, update entry e value e' = entry e' := by
    intro e' he'
    apply update_of_ne
    rintro rfl
    exact he he'
  refine ⟨h.nodup, fun e' he' => ?_, fun e₁ he₁ e₂ he₂ k' m₁ m₂ h₁ h₂ => ?_,
    fun e' he' k' m hm => ?_, fun k' hk' => ?_⟩
  · rw [hold e' he']
    exact h.counted e' he'
  · rw [hold e₁ he₁] at h₁
    rw [hold e₂ he₂] at h₂
    exact h.key_inj e₁ he₁ e₂ he₂ k' _ _ h₁ h₂
  · by_cases heq : e' = e
    · subst heq
      rw [update_self] at hm
      exact hvalue k' m hm
    · rw [update_of_ne heq] at hm
      exact h.offList e' he' k' m hm
  · obtain ⟨e', he', m, hm⟩ := h.listed k' hk'
    exact ⟨e', he', m, (hold e' he').trans hm⟩

end CountedList

end NvUvm.Lib
