import NvUvm.ChannelRangeRefs
import NvUvm.Lib.Align

/-!
# Where the resources of a channel are placed

`create_va_ranges` (`uvm8_user_channel.c`) places the resources of a channel one after the other in the
addresses that the caller has set aside.  They come by descending alignment, which
`get_rm_channel_resources` expects to make them fit.
-/

namespace NvUvm.ChannelLife

open Space Lib

/-- The addresses of the caller, which `uvm_api_range_invalid` has checked. -/
structure Window (base last : ℕ) : Prop where
  pos : 0 < base
  le : base ≤ last
  lt : last + 1 < 2 ^ 64

/-- The fields of a resource as RM may report them. -/
structure ResourceInfo.FromRm (resource : ResourceInfo) : Prop where
  alignment : ∃ k < 64, resource.alignment = 2 ^ k
  size : resource.size < 2 ^ 64

/-! ## One resource -/

section Resource

variable {resource : ResourceInfo} {base last : ℕ}

theorem ResourceInfo.FromRm.pos (h : resource.FromRm) : 0 < resource.alignment := by
  obtain ⟨k, -, hk⟩ := h.alignment
  rw [hk]
  exact Nat.two_pow_pos k

theorem ResourceInfo.FromRm.dvd (h : resource.FromRm) : resource.alignment ∣ 2 ^ 64 := by
  obtain ⟨k, hlt, hk⟩ := h.alignment
  rw [hk]
  exact Nat.pow_dvd_pow 2 hlt.le

theorem placeResource_eq (h : resource.FromRm) (hwindow : Window base last) :
    placeResource resource base last =
      if 0 < resource.size ∧ ceilTo resource.alignment base + resource.size ≤ last + 1 then
        some (ceilTo resource.alignment base, ceilTo resource.alignment base + resource.size - 1)
      else none := by
  obtain ⟨hpos, hle, hlt⟩ := hwindow
  have ha := h.pos
  have hsize := h.size
  have hbase := le_ceilTo ha base
  unfold placeResource
  dsimp only
  by_cases hwrap : base + resource.alignment - 1 < 2 ^ 64
  · have hup : alignUp base resource.alignment = ceilTo resource.alignment base := by
      unfold alignUp ceilTo u64
      rw [Nat.mod_eq_of_lt hwrap]
    have hfits : ceilTo resource.alignment base < 2 ^ 64 :=
      Nat.lt_of_le_of_lt (Nat.div_mul_le_self _ _) hwrap
    rw [hup]
    generalize ceilTo resource.alignment base = a at hbase hfits ⊢
    unfold u64
    by_cases hgood : 0 < resource.size ∧ a + resource.size ≤ last + 1
    · have hend : (a + resource.size + (2 ^ 64 - 1)) % 2 ^ 64 = a + resource.size - 1 := by omega
      rw [hend, if_pos hgood, if_neg (by omega)]
    · rw [if_neg hgood, if_pos]
      omega
  · -- the alignment wraps to address 0
    have hzero : alignUp base resource.alignment = 0 := by
      unfold alignUp u64
      rw [Nat.div_eq_of_lt (by omega), Nat.zero_mul]
    have hfar : 2 ^ 64 ≤ ceilTo resource.alignment base := by
      obtain ⟨k, hk⟩ := h.dvd
      rw [hk, Nat.mul_comm resource.alignment k]
      apply Nat.mul_le_mul_right
      rw [Nat.le_div_iff_mul_le ha, Nat.mul_comm, ← hk]
      omega
    rw [hzero, if_pos (Or.inl hpos), if_neg (by omega)]

end Resource

/-! ## Where the sorted resources end -/

/-- The resource has a range already, when the local ranges have the descriptors that are known. -/
def reuses (known : ℕ → Bool) (resource : ResourceInfo) : Bool :=
  !resource.globalResource && known resource.resourceDescriptor

/-- The descriptors that are known behind a resource. -/
def learn (known : ℕ → Bool) (resource : ResourceInfo) : ℕ → Bool :=
  if resource.globalResource then known
  else Function.update known resource.resourceDescriptor true

/-- The resources that need a range of their own. -/
def needed : (ℕ → Bool) → List ResourceInfo → List ResourceInfo
  | _, [] => []
  | known, resource :: rest =>
    if reuses known resource then needed (learn known resource) rest
    else resource :: needed (learn known resource) rest

/-- The last of the resources has a range already. -/
def endsReusing : (ℕ → Bool) → List ResourceInfo → Bool
  | _, [] => false
  | known, [resource] => reuses known resource
  | known, resource :: rest => endsReusing (learn known resource) rest

/-- Each size, rounded up to the alignment of the next resource. -/
def roundedSizes : List ResourceInfo → ℕ
  | [] => 0
  | [resource] => resource.size
  | resource :: next :: rest => ceilTo next.alignment resource.size + roundedSizes (next :: rest)

/-- The first address behind the resources, when they come by descending alignment. -/
def spaceEnd (base : ℕ) : List ResourceInfo → ℕ
  | [] => base
  | resource :: rest => ceilTo resource.alignment base + roundedSizes (resource :: rest)

/-- From the highest to the lowest alignment, as `resource_align_high_cmp` sorts them. -/
def Sorted (resources : List ResourceInfo) : Prop :=
  resources.Pairwise fun a b => b.alignment ≤ a.alignment

/-- There is room for the sorted resources.  A resource that has a range already is refused when the room
is used up. -/
def Room (known : ℕ → Bool) (base last : ℕ) (resources : List ResourceInfo) : Prop :=
  (∀ resource ∈ needed known resources, 0 < resource.size) ∧
    spaceEnd base (needed known resources) ≤ last + 1 ∧
    (endsReusing known resources = true → spaceEnd base (needed known resources) ≤ last)

def FitsFrom (last : ℕ) : (ℕ → Bool) → ℕ → List ResourceInfo → Prop
  | _, _, [] => True
  | known, base, resource :: rest =>
    base ≤ last ∧
      if reuses known resource then FitsFrom last (learn known resource) base rest
      else 0 < resource.size ∧ ceilTo resource.alignment base + resource.size ≤ last + 1 ∧
        FitsFrom last (learn known resource) (ceilTo resource.alignment base + resource.size) rest

theorem ResourceInfo.FromRm.dvd_of_le {a b : ResourceInfo} (ha : a.FromRm) (hb : b.FromRm)
    (hle : b.alignment ≤ a.alignment) : b.alignment ∣ a.alignment := by
  obtain ⟨k, -, hk⟩ := ha.alignment
  obtain ⟨j, -, hj⟩ := hb.alignment
  rw [hk, hj] at hle ⊢
  exact Nat.pow_dvd_pow 2 ((Nat.pow_le_pow_iff_right (by decide)).mp hle)

variable {base last g running : ℕ} {resource : ResourceInfo}
  {rest resources done : List ResourceInfo} {o : CreateOutcome} {s s' s₀ : Space} {made : List ℕ}
  {uses : ℕ → ℕ}

theorem spaceEnd_cons (hfrom : ∀ r ∈ resource :: rest, r.FromRm)
    (hsorted : ∀ r ∈ rest, r.alignment ≤ resource.alignment) :
    spaceEnd base (resource :: rest) =
      spaceEnd (ceilTo resource.alignment base + resource.size) rest := by
  cases rest with
  | nil => rfl
  | cons next rest =>
    have hnext := hfrom next (by simp)
    have hdvd := (hfrom resource (by simp)).dvd_of_le hnext (hsorted next (by simp))
    show ceilTo resource.alignment base + (ceilTo next.alignment resource.size +
      roundedSizes (next :: rest)) = ceilTo next.alignment (ceilTo resource.alignment base +
        resource.size) + roundedSizes (next :: rest)
    rw [ceilTo_add hnext.pos (hdvd.trans (dvd_ceilTo _ _)), Nat.add_assoc]

theorem le_spaceEnd (hfrom : ∀ r ∈ resources, r.FromRm) (hsorted : Sorted resources) :
    base ≤ spaceEnd base resources := by
  induction resources generalizing base with
  | nil => exact le_rfl
  | cons resource rest ih =>
    rw [spaceEnd_cons hfrom (List.pairwise_cons.mp hsorted).1]
    have hrest : ceilTo resource.alignment base + resource.size ≤
        spaceEnd (ceilTo resource.alignment base + resource.size) rest :=
      ih (fun r hr => hfrom r (List.mem_cons_of_mem _ hr)) (List.pairwise_cons.mp hsorted).2
    have := le_ceilTo (hfrom resource (by simp)).pos base
    omega

theorem lt_spaceEnd (hfrom : ∀ r ∈ resources, r.FromRm) (hsorted : Sorted resources)
    (hsizes : ∀ r ∈ resources, 0 < r.size) (hne : resources ≠ []) :
    base < spaceEnd base resources := by
  cases resources with
  | nil => exact absurd rfl hne
  | cons resource rest =>
    rw [spaceEnd_cons hfrom (List.pairwise_cons.mp hsorted).1]
    have hrest : ceilTo resource.alignment base + resource.size ≤
        spaceEnd (ceilTo resource.alignment base + resource.size) rest :=
      le_spaceEnd (fun r hr => hfrom r (List.mem_cons_of_mem _ hr)) (List.pairwise_cons.mp hsorted).2
    have := le_ceilTo (hfrom resource (by simp)).pos base
    have := hsizes resource (by simp)
    omega

theorem needed_sublist (known : ℕ → Bool) (resources : List ResourceInfo) :
    (needed known resources).Sublist resources := by
  induction resources generalizing known with
  | nil => exact List.Sublist.slnil
  | cons resource rest ih =>
    unfold needed
    split
    · exact (ih _).cons _
    · exact (ih _).cons_cons _

theorem needed_ne_nil {known : ℕ → Bool} (h : endsReusing known (resource :: rest) = false) :
    needed known (resource :: rest) ≠ [] := by
  induction rest generalizing known resource with
  | nil =>
    unfold endsReusing at h
    unfold needed
    simp [h]
  | cons next rest ih =>
    unfold needed
    split
    · exact ih h
    · simp

theorem fitsFrom_iff {known : ℕ → Bool} (hfrom : ∀ r ∈ resources, r.FromRm)
    (hsorted : Sorted resources) (hbase : base ≤ last + 1) :
    FitsFrom last known base resources ↔ Room known base last resources := by
  induction resources generalizing base known with
  | nil => exact iff_of_true trivial ⟨by simp [needed], hbase, by simp [endsReusing]⟩
  | cons resource rest ih =>
    have hfrom' : ∀ r ∈ rest, r.FromRm := fun r hr => hfrom r (List.mem_cons_of_mem _ hr)
    obtain ⟨hle, hsorted'⟩ := List.pairwise_cons.mp hsorted
    have hstart := le_ceilTo (hfrom resource (by simp)).pos base
    -- the last resource is that of the rest, if there is one
    unfold FitsFrom Room needed
    by_cases hreuse : reuses known resource = true
    · rw [if_pos hreuse, if_pos hreuse, ih hfrom' hsorted' hbase]
      cases rest with
      | nil => simp [needed, endsReusing, Room, hreuse, spaceEnd]; omega
      | cons next rest =>
        constructor
        · rintro ⟨-, hsizes, hend, hlast⟩
          exact ⟨hsizes, hend, hlast⟩
        · rintro ⟨hsizes, hend, hlast⟩
          refine ⟨?_, hsizes, hend, hlast⟩
          by_cases hlastReuse : endsReusing (learn known resource) (next :: rest) = true
          · exact (le_spaceEnd (fun r hr => hfrom' r ((needed_sublist _ _).mem hr))
              (hsorted'.sublist (needed_sublist _ _))).trans (hlast hlastReuse)
          · -- one of the others needs a range
            have hne := needed_ne_nil (by simpa using hlastReuse)
            have := @lt_spaceEnd base _ (fun r hr => hfrom' r ((needed_sublist _ _).mem hr))
              (hsorted'.sublist (needed_sublist _ _)) hsizes hne
            omega
    · rw [if_neg hreuse, if_neg hreuse]
      have hend : spaceEnd base (resource :: needed (learn known resource) rest) =
          spaceEnd (ceilTo resource.alignment base + resource.size) (needed (learn known resource) rest) :=
        spaceEnd_cons
        (fun r hr => by
          rcases List.mem_cons.mp hr with rfl | hr
          · exact hfrom _ List.mem_cons_self
          · exact hfrom' r ((needed_sublist _ _).mem hr))
        (fun r hr => hle r ((needed_sublist _ _).mem hr))
      rw [hend]
      have hfloor : ceilTo resource.alignment base + resource.size ≤ spaceEnd
          (ceilTo resource.alignment base + resource.size) (needed (learn known resource) rest) :=
        le_spaceEnd (fun r hr => hfrom' r ((needed_sublist _ _).mem hr)) (hsorted'.sublist (needed_sublist _ _))
      have hlastEq : endsReusing known (resource :: rest) = endsReusing (learn known resource) rest := by
        cases rest with
        | nil => simpa [endsReusing] using hreuse
        | cons next rest => rfl
      rw [hlastEq]
      constructor
      · rintro ⟨-, hsize, hfit, hrest⟩
        obtain ⟨hsizes, hroom⟩ := (ih hfrom' hsorted' hfit).mp hrest
        exact ⟨List.forall_mem_cons.mpr ⟨hsize, hsizes⟩, hroom⟩
      · rintro ⟨hsizes, hroom⟩
        obtain ⟨hsize, hsizes⟩ := List.forall_mem_cons.mp hsizes
        have hfit : ceilTo resource.alignment base + resource.size ≤ last + 1 := by omega
        exact ⟨by omega, hsize, hfit, (ih hfrom' hsorted' hfit).mpr ⟨hsizes, hroom⟩⟩

/-! ## What the loop makes -/

/-- The new range of a resource is within the addresses, aligned and of the size asked for. -/
structure PlacedRange (s : Space) (g base stop : ℕ) (resource : ResourceInfo) (r : ℕ) : Prop where
  made : MadeFor s g resource r
  base_le : base ≤ (s.ranges r).start
  lt_stop : (s.ranges r).last < stop
  aligned : resource.alignment ∣ (s.ranges r).start
  pos : 0 < resource.size
  size : (s.ranges r).last + 1 = (s.ranges r).start + resource.size

def Apart (a b : ChannelRange) : Prop := a.last < b.start ∨ b.last < a.start

/-- The ranges that the loop has made since `s₀`, for the resources that are done, up to the running
base. -/
structure LoopPlaced (s₀ s : Space) (uses : ℕ → ℕ) (g base running : ℕ) (done : List ResourceInfo)
    (made : List ℕ) : Prop where
  only : RangesOnly s₀ s
  refs : RefsRight s fun r => uses r + made.count r
  made : List.Forall₂ (MadeFor s g) done made
  old : ∀ r ∈ s.vaRangeTree, r < s₀.rangeCount → r ∈ s₀.vaRangeTree
  each : ∀ r ∈ s.vaRangeTree, s₀.rangeCount ≤ r →
    ∃ resource ∈ done, PlacedRange s g base running resource r
  apart : ∀ r ∈ s.vaRangeTree, ∀ q ∈ s.vaRangeTree, s₀.rangeCount ≤ r → s₀.rangeCount ≤ q → r ≠ q →
    Apart (s.ranges r) (s.ranges q)
  base_le : base ≤ running

theorem createVaRange_addrs {made : Option (ℕ × ℕ)}
    (hcreate : s.createVaRange g resource base last o = (s', made)) :
    (s'.vaRangeTree = s.vaRangeTree ∧ ∀ m, made = some m → m.2 = base) ∨
    ∃ addrs, placeResource resource base last = some addrs ∧ made = some (s.rangeCount, u64 (addrs.2 + 1)) ∧
      s'.vaRangeTree = s.rangeCount :: s.vaRangeTree ∧
      s'.ranges = Function.update s.ranges s.rangeCount (newRange g resource addrs) := by
  unfold createVaRange at hcreate
  cases hfind : (if resource.globalResource then none
      else s.findLocalRange g resource.resourceDescriptor) with
  | some r =>
    rw [hfind] at hcreate
    obtain ⟨rfl, rfl⟩ := Prod.mk.inj hcreate
    exact Or.inl ⟨rfl, fun m hm => by cases hm; rfl⟩
  | none =>
    rw [hfind] at hcreate
    cases hplace : placeResource resource base last with
    | none =>
      rw [hplace] at hcreate
      obtain ⟨rfl, rfl⟩ := Prod.mk.inj hcreate
      exact Or.inl ⟨rfl, fun m hm => nomatch hm⟩
    | some addrs =>
      rw [hplace] at hcreate
      cases o with
      | allocFailed =>
        obtain ⟨rfl, rfl⟩ := Prod.mk.inj hcreate
        exact Or.inl ⟨rfl, fun m hm => nomatch hm⟩
      | addFailed =>
        obtain ⟨rfl, rfl⟩ := Prod.mk.inj hcreate
        exact Or.inl ⟨rfl, fun m hm => nomatch hm⟩
      | created =>
        obtain ⟨rfl, rfl⟩ := Prod.mk.inj hcreate
        refine Or.inr ⟨addrs, rfl, rfl, ?_, ?_⟩ <;> split <;> rfl

theorem RangesOnly.addrs (h : RangesOnly s s') {r : ℕ} (hr : r < s.rangeCount) :
    (s'.ranges r).start = (s.ranges r).start ∧ (s'.ranges r).last = (s.ranges r).last :=
  ⟨(congrArg ChannelRange.start (h.ranges r hr) :), (congrArg ChannelRange.last (h.ranges r hr) :)⟩

theorem PlacedRange.of_rangesOnly {stop stop' r : ℕ} (h : PlacedRange s g base stop resource r)
    (honly : RangesOnly s s') (hstop : stop ≤ stop') : PlacedRange s' g base stop' resource r := by
  obtain ⟨hstart, hlast⟩ := honly.addrs h.made.created
  refine ⟨h.made.of_rangesOnly honly, hstart ▸ h.base_le, ?_, hstart ▸ h.aligned, h.pos, ?_⟩
  · rw [hlast]
    exact Nat.lt_of_lt_of_le h.lt_stop hstop
  · rw [hlast, hstart]
    exact h.size

theorem LoopPlaced.apart_of_only (h : LoopPlaced s₀ s uses g base running done made)
    (honly : RangesOnly s s') :
    ∀ q ∈ s.vaRangeTree, ∀ p ∈ s.vaRangeTree, s₀.rangeCount ≤ q → s₀.rangeCount ≤ p → q ≠ p →
      Apart (s'.ranges q) (s'.ranges p) := by
  intro q hq p hp hqnew hpnew hne
  obtain ⟨hqs, hql⟩ := honly.addrs (h.refs.created q hq)
  obtain ⟨hps, hpl⟩ := honly.addrs (h.refs.created p hp)
  have := h.apart q hq p hp hqnew hpnew hne
  unfold Apart at this ⊢
  rwa [hqs, hql, hps, hpl]

theorem LoopPlaced.keep {done' : List ResourceInfo} {made' : List ℕ}
    (h : LoopPlaced s₀ s uses g base running done made) (honly : RangesOnly s s')
    (htree : s'.vaRangeTree = s.vaRangeTree) (hrefs : RefsRight s' fun r => uses r + made'.count r)
    (hmade : List.Forall₂ (MadeFor s' g) done' made') (hdone : done ⊆ done') :
    LoopPlaced s₀ s' uses g base running done' made' where
  only := h.only.trans honly
  refs := hrefs
  made := hmade
  old := htree ▸ h.old
  each q hq hnew := by
    obtain ⟨res, hres, hplaced⟩ := h.each q (htree ▸ hq) hnew
    exact ⟨res, hdone hres, hplaced.of_rangesOnly honly le_rfl⟩
  apart := htree ▸ h.apart_of_only honly
  base_le := h.base_le

theorem LoopPlaced.step {running' r : ℕ} (h : LoopPlaced s₀ s uses g base running done made)
    (hfrom : resource.FromRm) (hwindow : Window running last)
    (hcreate : s.createVaRange g resource running last o = (s', some (r, running'))) :
    LoopPlaced s₀ s' uses g base running' (done ++ [resource]) (made ++ [r]) ∧
      running ≤ running' ∧ running' ≤ last + 1 := by
  obtain ⟨honly, hrefs, hfor, -⟩ := createVaRange_spec h.refs hcreate
  have hcnt := h.only.rangeCount
  have hmade : List.Forall₂ (MadeFor s' g) (done ++ [resource]) (made ++ [r]) :=
    List.rel_append (h.made.imp fun _ _ hm => hm.of_rangesOnly honly) (List.Forall₂.cons hfor .nil)
  have hrefs' : RefsRight s' fun q => uses q + (made ++ [r]).count q := by
    refine hrefs.congr rfl rfl rfl (fun _ => rfl) (fun _ => rfl) fun q => ?_
    rw [List.count_append, List.count_singleton, ← Nat.add_assoc]
    by_cases heq : q = r
    · rw [heq, beq_self_eq_true, if_pos rfl, if_pos rfl]
    · rw [beq_eq_false_iff_ne.mpr (Ne.symm heq), if_neg heq]
      rfl
  rcases createVaRange_addrs hcreate with ⟨htree, hbase⟩ | ⟨addrs, hplace, hsome, htree, hranges⟩
  · obtain rfl : running' = running := hbase _ rfl
    exact ⟨h.keep honly htree hrefs' hmade (List.subset_append_left ..), le_rfl, Nat.le_succ_of_le hwindow.le⟩
  · rw [placeResource_eq hfrom hwindow] at hplace
    by_cases hfits : 0 < resource.size ∧
        ceilTo resource.alignment running + resource.size ≤ last + 1
    · rw [if_pos hfits] at hplace
      cases hplace
      obtain ⟨rfl, rfl⟩ := Prod.mk.inj (Option.some.inj hsome)
      obtain ⟨hpos, hend⟩ := hfits
      have hstart := le_ceilTo hfrom.pos running
      have hlt := hwindow.lt
      have hnext : u64 (ceilTo resource.alignment running + resource.size - 1 + 1) =
          ceilTo resource.alignment running + resource.size := by
        unfold u64
        omega
      have hrange : s'.ranges s.rangeCount = newRange g resource
          (ceilTo resource.alignment running, ceilTo resource.alignment running + resource.size - 1) := by
        rw [hranges]
        exact Function.update_self ..
      rw [hnext]
      have hnew : PlacedRange s' g base (ceilTo resource.alignment running + resource.size) resource
          s.rangeCount := by
        refine ⟨hfor, ?_, ?_, ?_, hpos, ?_⟩ <;> rw [hrange]
        · exact h.base_le.trans hstart
        · show ceilTo resource.alignment running + resource.size - 1 < _
          omega
        · exact dvd_ceilTo _ _
        · show ceilTo resource.alignment running + resource.size - 1 + 1 = _ + _
          rw [Nat.sub_add_cancel (by omega)]
          rfl
      -- the other new ranges lie below the running base
      have hbelow : ∀ q ∈ s.vaRangeTree, s₀.rangeCount ≤ q →
          (s'.ranges q).last < (s'.ranges s.rangeCount).start := by
        intro q hq hqnew
        obtain ⟨res, -, hplaced⟩ := h.each q hq hqnew
        rw [(honly.addrs (h.refs.created q hq)).2, hrange]
        exact Nat.lt_of_lt_of_le hplaced.lt_stop hstart
      refine ⟨⟨h.only.trans honly, hrefs', hmade, ?_, ?_, ?_, by have := h.base_le; omega⟩, by omega, hend⟩
      · intro q hq hold
        rw [htree] at hq
        rcases List.mem_cons.mp hq with rfl | hq
        · omega
        · exact h.old q hq hold
      · intro q hq hqnew
        rw [htree] at hq
        rcases List.mem_cons.mp hq with rfl | hq
        · exact ⟨resource, by simp, hnew⟩
        · obtain ⟨res, hres, hplaced⟩ := h.each q hq hqnew
          exact ⟨res, List.mem_append_left _ hres, hplaced.of_rangesOnly honly (by omega)⟩
      · intro q hq p hp hqnew hpnew hne
        rw [htree] at hq hp
        rcases List.mem_cons.mp hq with rfl | hq <;> rcases List.mem_cons.mp hp with rfl | hp
        · exact absurd rfl hne
        · exact Or.inr (hbelow p hp hpnew)
        · exact Or.inl (hbelow q hq hqnew)
        · exact h.apart_of_only honly q hq p hp hqnew hpnew hne
    · rw [if_neg hfits] at hplace
      cases hplace

theorem createLoop_placed {o : ℕ → CreateOutcome} {i : ℕ}
    (h : LoopPlaced s₀ s uses g base running done made) (hfrom : ∀ r ∈ rest, r.FromRm)
    (hwindow : Window base last) (hlast : running ≤ last + 1) :
    ∃ running' done', LoopPlaced s₀ (createLoop g last o i rest running s made).1 uses g base running' done'
        (createLoop g last o i rest running s made).2.1 ∧ running' ≤ last + 1 ∧
      ((createLoop g last o i rest running s made).2.2 = true → done' = done ++ rest) := by
  induction rest generalizing i running s made done with
  | nil => exact ⟨running, done, h, hlast, fun _ => (List.append_nil done).symm⟩
  | cons resource rest ih =>
    unfold createLoop
    by_cases hspace : last < running
    · rw [if_pos hspace]
      exact ⟨running, done, h, hlast, (absurd · Bool.false_ne_true)⟩
    rw [if_neg hspace]
    have hhere : Window running last :=
      ⟨Nat.lt_of_lt_of_le hwindow.pos h.base_le, by omega, hwindow.lt⟩
    rcases hcreate : s.createVaRange g resource running last (o i) with ⟨s', _ | ⟨r, running'⟩⟩
    · -- nothing was made for this resource
      obtain ⟨honly, hrefs⟩ := createVaRange_spec h.refs hcreate
      rcases createVaRange_addrs hcreate with ⟨htree, -⟩ | ⟨_, -, hsome, -⟩
      · exact ⟨running, done, h.keep honly htree hrefs
          (h.made.imp fun _ _ hm => hm.of_rangesOnly honly) (List.Subset.refl _), hlast,
          (absurd · Bool.false_ne_true)⟩
      · cases hsome
    · obtain ⟨hstep, -, hend⟩ := h.step (hfrom resource (by simp)) hhere hcreate
      obtain ⟨running'', done', hrest, hend', hdone⟩ :=
        ih (i := i + 1) hstep (fun r hr => hfrom r (List.mem_cons_of_mem _ hr)) hend
      refine ⟨running'', done', hrest, hend', fun hok => ?_⟩
      rw [hdone hok, List.append_assoc]
      rfl

/-! ## When the loop succeeds -/

/-- The descriptors of the local ranges of a GPU VA space. -/
def knownLocals (s : Space) (g : ℕ) (rmDescriptor : ℕ) : Bool := (s.findLocalRange g rmDescriptor).isSome

theorem knownLocals_iff (hrefs : RefsRight s uses) {rmDescriptor : ℕ} :
    knownLocals s g rmDescriptor = true ↔ ∃ r ∈ s.vaRangeTree, (s.ranges r).isLocal = true ∧
      (s.ranges r).gpuVaSpace = g ∧ (s.ranges r).rmDescriptor = rmDescriptor := by
  unfold knownLocals Space.findLocalRange
  rw [List.find?_isSome]
  simp only [decide_eq_true_eq, hrefs.localRange, and_assoc]

theorem createVaRange_known (hrefs : RefsRight s uses) {m : ℕ × ℕ}
    (hcreate : s.createVaRange g resource base last o = (s', some m)) :
    knownLocals s' g = learn (knownLocals s g) resource := by
  obtain ⟨honly, hrefs', hfor, -⟩ := createVaRange_spec hrefs hcreate
  have hmem : m.1 ∈ s'.vaRangeTree := (hrefs'.used m.1).mpr (by simp)
  have hold : ∀ r ∈ s.vaRangeTree, r ∈ s'.vaRangeTree := by
    rcases createVaRange_addrs hcreate with ⟨htree, -⟩ | ⟨_, -, -, htree, -⟩ <;> rw [htree]
    · exact fun r hr => hr
    · exact fun r hr => List.mem_cons_of_mem _ hr
  have hnew : ∀ r ∈ s'.vaRangeTree, r = m.1 ∨ r ∈ s.vaRangeTree := by
    rcases createVaRange_addrs hcreate with ⟨htree, -⟩ | ⟨_, -, hsome, htree, -⟩ <;> rw [htree]
    · exact fun r hr => Or.inr hr
    · intro r hr
      rw [Option.some.inj hsome]
      exact List.mem_cons.mp hr
  -- the range of the resource is the only one that may be new
  have hknown : ∀ d, knownLocals s' g d = true ↔
      knownLocals s g d = true ∨ resource.globalResource = false ∧ d = resource.resourceDescriptor := by
    intro d
    rw [knownLocals_iff hrefs', knownLocals_iff hrefs]
    constructor
    · rintro ⟨r, hr, hlocal, hg, hd⟩
      rcases hnew r hr with rfl | hr
      · rw [hfor.isLocal] at hlocal
        exact Or.inr ⟨by simpa using hlocal, hd.symm.trans hfor.rmDescriptor⟩
      · have hlt := hrefs.created r hr
        rw [honly.rangeIsLocal hlt] at hlocal
        rw [honly.rangeGpuVaSpace hlt] at hg
        rw [honly.rangeRmDescriptor hlt] at hd
        exact Or.inl ⟨r, hr, hlocal, hg, hd⟩
    · rintro (⟨r, hr, hlocal, hg, hd⟩ | ⟨hlocal, rfl⟩)
      · have hlt := hrefs.created r hr
        exact ⟨r, hold r hr, (honly.rangeIsLocal hlt).trans hlocal, (honly.rangeGpuVaSpace hlt).trans hg,
          (honly.rangeRmDescriptor hlt).trans hd⟩
      · exact ⟨m.1, hmem, by rw [hfor.isLocal, hlocal]; rfl, hfor.gpuVaSpace, hfor.rmDescriptor⟩
  funext d
  rw [Bool.eq_iff_iff, hknown]
  unfold learn
  by_cases hglobal : resource.globalResource = true
  · rw [if_pos hglobal]
    simp [hglobal]
  · rw [if_neg hglobal]
    by_cases hd : d = resource.resourceDescriptor
    · subst hd
      simp [hglobal]
    · simp [hd]

theorem createLoop_fits {i : ℕ} (hrefs : RefsRight s uses) (hfrom : ∀ r ∈ rest, r.FromRm)
    (hpos : 0 < running) (hlast : last + 1 < 2 ^ 64) :
    (createLoop g last (fun _ => .created) i rest running s made).2.2 = true ↔
      FitsFrom last (knownLocals s g) running rest := by
  induction rest generalizing i running s made uses with
  | nil => exact iff_of_true rfl trivial
  | cons resource rest ih =>
    unfold createLoop FitsFrom
    by_cases hspace : last < running
    · rw [if_pos hspace]
      exact iff_of_false Bool.false_ne_true fun hc => by omega
    rw [if_neg hspace]
    have hle : running ≤ last := by omega
    have hhere : Window running last := ⟨hpos, hle, hlast⟩
    rw [and_iff_right hle]
    have hreuses : reuses (knownLocals s g) resource = (if resource.globalResource then none
        else s.findLocalRange g resource.resourceDescriptor).isSome := by
      unfold reuses knownLocals
      cases resource.globalResource <;> rfl
    have hplace := placeResource_eq (hfrom resource (by simp)) hhere
    rcases hcreate : s.createVaRange g resource running last .created with ⟨s', made'⟩
    have hrest : ∀ m, made' = some m → 0 < m.2 →
        ((createLoop g last (fun _ => .created) (i + 1) rest m.2 s' (made ++ [m.1])).2.2 = true ↔
          FitsFrom last (learn (knownLocals s g) resource) m.2 rest) := by
      rintro m rfl hpos'
      rw [← createVaRange_known hrefs hcreate]
      exact ih (createVaRange_spec hrefs hcreate).2.1 (fun r hr => hfrom r (List.mem_cons_of_mem _ hr))
        hpos'
    unfold createVaRange at hcreate
    cases hfind : (if resource.globalResource then none
        else s.findLocalRange g resource.resourceDescriptor) with
    | some q =>
      rw [hfind] at hcreate hreuses
      obtain ⟨-, rfl⟩ := Prod.mk.inj hcreate
      rw [hreuses, Option.isSome_some, if_pos rfl]
      exact hrest _ rfl hpos
    | none =>
      rw [hfind] at hcreate hreuses
      rw [hreuses, Option.isSome_none, if_neg (by simp)]
      rw [hplace] at hcreate
      by_cases hfits : 0 < resource.size ∧
          ceilTo resource.alignment running + resource.size ≤ last + 1
      · rw [if_pos hfits] at hcreate
        obtain ⟨-, rfl⟩ := Prod.mk.inj hcreate
        have hnext : u64 (ceilTo resource.alignment running + resource.size - 1 + 1) =
            ceilTo resource.alignment running + resource.size := by
          unfold u64
          omega
        have hgo := hrest _ rfl (by rw [hnext]; omega)
        rw [hnext] at hgo
        rw [and_iff_right hfits.1, and_iff_right hfits.2, ← hgo, hnext]
      · rw [if_neg hfits] at hcreate
        obtain ⟨-, rfl⟩ := Prod.mk.inj hcreate
        exact iff_of_false Bool.false_ne_true fun hc => hfits ⟨hc.1, hc.2.1⟩

/-! ## The function -/

def Space.withResources (s : Space) (ch : ℕ) (resources : List ResourceInfo) : Space :=
  s.setChannel ch { s.channels ch with resources := resources }

/-- A success: each resource has its range, and the new ranges are placed as asked and apart from all
ranges of the VA space. -/
structure PlacedAll (s s' : Space) (ch g base last : ℕ) (resources : List ResourceInfo) : Prop where
  made : ∃ made, (s'.channels ch).vaRanges = some made ∧ List.Forall₂ (MadeFor s' g) resources made
  each : ∀ r ∈ s'.vaRangeTree, s.rangeCount ≤ r →
    ∃ resource ∈ resources, PlacedRange s' g base (last + 1) resource r
  apart : ∀ r ∈ s'.vaRangeTree, ∀ q ∈ s'.vaRangeTree, s.rangeCount ≤ r → r ≠ q →
    Apart (s'.ranges r) (s'.ranges q)

/-- A failure: the ranges of the VA space are those from before with the references from before, and the
ranges that were made are destroyed once each. -/
structure Undone (s s' : Space) : Prop where
  tree : ∀ r, r ∈ s'.vaRangeTree ↔ r ∈ s.vaRangeTree
  ranges : ∀ r ∈ s.vaRangeTree, s'.ranges r = s.ranges r
  locals : ∀ g r, r ∈ (s'.gpuVaSpaces g).localChannelRanges ↔ r ∈ (s.gpuVaSpaces g).localChannelRanges
  destroyed : ∀ r, s'.log.count (.rangeDestroyed r) =
    s.log.count (.rangeDestroyed r) + if s.rangeCount ≤ r ∧ r < s'.rangeCount then 1 else 0

theorem Undone.of_refsRight (h : RefsRight s uses) (h' : RefsRight s' uses)
    (hcnt : s.rangeCount ≤ s'.rangeCount) (hranges : ∀ r, r < s.rangeCount →
      { s'.ranges r with refCount := 0 } = { s.ranges r with refCount := 0 }) : Undone s s' := by
  have htree : ∀ r, r ∈ s'.vaRangeTree ↔ r ∈ s.vaRangeTree := fun r => (h'.used r).trans (h.used r).symm
  have hsame : ∀ r ∈ s.vaRangeTree, s'.ranges r = s.ranges r := by
    intro r hr
    have hrefs := (h'.counted r ((htree r).mpr hr)).trans (h.counted r hr).symm
    have hrest := hranges r (h.created r hr)
    rcases hr₂ : s'.ranges r with ⟨⟩
    simp_all
  refine ⟨htree, hsame, fun g r => ?_, fun r => ?_⟩
  · rw [h'.localRange, h.localRange, htree]
    refine and_congr_right fun hr => ?_
    rw [hsame r hr]
  · rw [h'.destroyed, h.destroyed, if_congr (and_congr_right' (not_congr (htree r))) rfl rfl]
    by_cases hr : r ∈ s.vaRangeTree
    · have := h.created r hr
      simp [hr]
      omega
    · simp only [hr, not_false_iff, and_true]
      split_ifs <;> omega

theorem createVaRanges_effect (hrefs : RefsRight s uses) {ch : ℕ} (hwindow : Window base last)
    (hempty : ∀ r ∈ s.vaRangeTree,
      (s.ranges r).last < base ∨ last < (s.ranges r).start)
    (hfrom : ∀ r ∈ (s.channels ch).resources, r.FromRm) (arrayAlloc : Bool)
    (o : ℕ → CreateOutcome) :
    if (s.createVaRanges ch g base last arrayAlloc o).2 then
      PlacedAll s (s.createVaRanges ch g base last arrayAlloc o).1 ch g base last (s.channels ch).resources
    else Undone s (s.createVaRanges ch g base last arrayAlloc o).1 := by
  unfold Space.createVaRanges
  cases arrayAlloc with
  | false =>
    exact Undone.of_refsRight hrefs hrefs le_rfl fun _ _ => rfl
  | true =>
    have hstart : LoopPlaced s s uses g base base [] [] :=
      ⟨RangesOnly.refl s, hrefs.congr rfl rfl rfl (fun _ => rfl) (fun _ => rfl) fun _ => rfl, .nil,
        fun _ hr _ => hr, fun r hr hnew => absurd (hrefs.created r hr) (by omega),
        fun r hr _ _ hnew => absurd (hrefs.created r hr) (by omega), le_rfl⟩
    obtain ⟨running, done, h, hend, hdone⟩ := createLoop_placed (o := o) (i := 0) hstart hfrom hwindow
      (Nat.le_succ_of_le hwindow.le)
    generalize createLoop g last o 0 (s.channels ch).resources base s [] = r at h hdone ⊢
    obtain ⟨s', made, ok⟩ := r
    dsimp only at h hdone ⊢
    cases ok with
    | true =>
      obtain rfl := hdone rfl
      have hfor : ∀ res r, MadeFor s' g res r →
          MadeFor (s'.setChannel ch { s'.channels ch with vaRanges := some made }) g res r :=
        fun _ _ hm => ⟨hm.created, hm.gpuVaSpace, hm.rmDescriptor, hm.isLocal⟩
      refine ⟨⟨made, by simp [Space.setChannel], h.made.imp hfor⟩, fun r hr hnew => ?_, ?_⟩
      · obtain ⟨res, hres, hplaced⟩ := h.each r hr hnew
        exact ⟨res, hres, hfor res r hplaced.made, hplaced.base_le,
          Nat.lt_of_lt_of_le hplaced.lt_stop hend, hplaced.aligned, hplaced.pos, hplaced.size⟩
      · intro r hr q hq hnew hne
        rcases Nat.lt_or_ge q s.rangeCount with hqold | hqnew
        · -- the caller has checked that nothing is in the addresses
          obtain ⟨res, -, hplaced⟩ := h.each r hr hnew
          obtain ⟨hstart, hlast⟩ := h.only.addrs hqold
          have hout := hempty q (h.old q hq hqold)
          have := hplaced.base_le
          have := hplaced.lt_stop
          show (s'.ranges r).last < (s'.ranges q).start ∨ (s'.ranges q).last < (s'.ranges r).start
          omega
        · exact h.apart r hr q hq hnew hqnew hne
    | false =>
      have hself : (s'.setChannel ch { s'.channels ch with vaRanges := some made }).channels ch =
          { s'.channels ch with vaRanges := some made } := Function.update_self ..
      unfold Space.destroyVaRanges
      rw [hself]
      have hset : RefsRight (s'.setChannel ch { s'.channels ch with vaRanges := some made })
          fun r => uses r + made.count r :=
        h.refs.congr rfl rfl rfl (fun _ => rfl) (fun _ => rfl) fun _ => rfl
      have hdropped := hset.dropRanges (l := made) fun r => Nat.le_add_left ..
      have honly := dropRanges_only made (s'.setChannel ch { s'.channels ch with vaRanges := some made })
      refine Undone.of_refsRight hrefs ?_ (h.only.rangeCount.trans honly.rangeCount) ?_
      · exact hdropped.congr rfl rfl rfl (fun _ => rfl) (fun _ => rfl)
          fun r => (Nat.add_sub_cancel ..).symm
      · intro r hr
        exact (honly.ranges r (Nat.lt_of_lt_of_le hr h.only.rangeCount)).trans (h.only.ranges r hr)

/-- The resources in this order get their ranges, when nothing but the addresses can fail. -/
def Succeeds (s : Space) (ch g base last : ℕ) (resources : List ResourceInfo) : Prop :=
  ((s.withResources ch resources).createVaRanges ch g base last true fun _ => .created).2 = true

theorem createVaRanges_sorted_iff (hrefs : RefsRight s uses) {ch : ℕ} (hwindow : Window base last)
    (hfrom : ∀ r ∈ resources, r.FromRm) (hsorted : Sorted resources) :
    Succeeds s ch g base last resources ↔ Room (knownLocals s g) base last resources := by
  have hrefs' : RefsRight (s.withResources ch resources) uses :=
    hrefs.congr rfl rfl rfl (fun _ => rfl) (fun _ => rfl) fun _ => rfl
  have hresources : ((s.withResources ch resources).channels ch).resources = resources := by
    simp [Space.withResources, Space.setChannel]
  have hfits : (createLoop g last (fun _ => .created) 0 resources base (s.withResources ch resources)
      []).2.2 = true ↔ _ := createLoop_fits hrefs' hfrom hwindow.pos hwindow.lt
  rw [fitsFrom_iff hfrom hsorted (Nat.le_succ_of_le hwindow.le)] at hfits
  refine Iff.trans ?_ hfits
  unfold Succeeds Space.createVaRanges
  rw [if_pos rfl, hresources]
  dsimp only
  generalize (createLoop g last (fun _ => .created) 0 resources base (s.withResources ch resources) []) = r
  cases hok : r.2.2 <;> simp

/-- A call does what it should in any case, and the order of the sort is no worse than any other. -/
structure PlacementRight (s : Space) (ch g base last : ℕ) (resources : List ResourceInfo) : Prop where
  effect : ∀ arrayAlloc o,
    if ((s.withResources ch resources).createVaRanges ch g base last arrayAlloc o).2 then
      PlacedAll s ((s.withResources ch resources).createVaRanges ch g base last arrayAlloc o).1 ch g base last
        resources
    else Undone s ((s.withResources ch resources).createVaRanges ch g base last arrayAlloc o).1
  sorting : ∀ order, order.Perm resources → Succeeds s ch g base last order →
    Succeeds s ch g base last resources

/-- **Sorting the resources is right if there is room for each of them, rounded up to the alignment of the
next, or if there is not enough for any order.** -/
theorem createVaRanges_right_iff (s : Space) (uses : ℕ → ℕ) (hrefs : RefsRight s uses)
    (ch g base last : ℕ) (hwindow : Window base last)
    (hempty : ∀ r ∈ s.vaRangeTree, (s.ranges r).last < base ∨ last < (s.ranges r).start)
    (resources : List ResourceInfo) (hfrom : ∀ r ∈ resources, r.FromRm) (hsorted : Sorted resources) :
    PlacementRight s ch g base last resources ↔
      Room (knownLocals s g) base last resources ∨
        ∀ order, order.Perm resources → ¬ Succeeds s ch g base last order := by
  have hroom : Succeeds s ch g base last resources ↔ _ :=
    createVaRanges_sorted_iff hrefs hwindow hfrom hsorted
  constructor
  · intro h
    by_cases hsome : ∃ order, order.Perm resources ∧ Succeeds s ch g base last order
    · obtain ⟨order, hperm, hok⟩ := hsome
      exact Or.inl (hroom.mp (h.sorting order hperm hok))
    · exact Or.inr fun order hperm hok => hsome ⟨order, hperm, hok⟩
  · intro h
    refine ⟨fun arrayAlloc o => ?_, fun order hperm hok => ?_⟩
    · have hresources : ((s.withResources ch resources).channels ch).resources = resources := by
        simp [Space.withResources, Space.setChannel]
      have heffect := @createVaRanges_effect _ _ g (s.withResources ch resources) _
        (hrefs.congr rfl rfl rfl (fun _ => rfl) (fun _ => rfl) fun _ => rfl) ch hwindow hempty
        (by rwa [hresources]) arrayAlloc o
      rw [hresources] at heffect
      split at heffect
      · next hok =>
        rw [if_pos hok]
        exact ⟨heffect.made, heffect.each, heffect.apart⟩
      · next hfail =>
        rw [if_neg hfail]
        exact ⟨heffect.tree, heffect.ranges, heffect.locals, heffect.destroyed⟩
    · rcases h with h | h
      · exact hroom.mpr h
      · exact absurd hok (h order hperm)

theorem new_refsRight : RefsRight Space.new fun _ => 0 := by
  refine ⟨List.nodup_nil, by simp [Space.new], by simp [Space.new], by simp [Space.new],
    fun _ => List.nodup_nil, by simp [Space.new, GpuVaSpace.zero], by simp [Space.new]⟩

/-- A resource of 64K, and one of 60K that can be at any page. -/
def twoResources : List ResourceInfo :=
  [⟨1, true, 0x10000, 0x10000, false⟩, ⟨2, true, 0x1000, 0xF000, false⟩]

theorem twoResources_fromRm : ∀ r ∈ twoResources, r.FromRm := by
  intro r hr
  simp only [twoResources, List.mem_cons, List.not_mem_nil, or_false] at hr
  rcases hr with rfl | rfl
  · exact ⟨⟨16, by decide, rfl⟩, by decide⟩
  · exact ⟨⟨12, by decide, rfl⟩, by decide⟩

theorem twoResources_sorted : Sorted twoResources := by
  unfold Sorted twoResources
  simp

/-- From a multiple of 64K on they fit. -/
theorem createVaRanges_right_twoResources :
    PlacementRight Space.new 0 0 0x10000 0x2FFFF twoResources :=
  (createVaRanges_right_iff Space.new (fun _ => 0) new_refsRight 0 0 0x10000 0x2FFFF
    ⟨by decide, by decide, by decide⟩ (by simp [Space.new]) twoResources twoResources_fromRm
    twoResources_sorted).mpr (Or.inl ⟨by decide, by decide, by decide⟩)

/-- From the page at 4K up to 128K there is room for the smaller alignment first, and not for the larger
one. -/
theorem sorted_resources_do_not_fit :
    ¬ ∀ (s : Space) (uses : ℕ → ℕ) (ch g base last : ℕ) (resources : List ResourceInfo),
      RefsRight s uses → Window base last →
      (∀ r ∈ s.vaRangeTree, (s.ranges r).last < base ∨ last < (s.ranges r).start) →
      (∀ r ∈ resources, r.FromRm) → Sorted resources →
      PlacementRight s ch g base last resources := by
  intro h
  have hright := h Space.new (fun _ => 0) 0 0 0x1000 0x1FFFF twoResources new_refsRight
    ⟨by decide, by decide, by decide⟩ (by simp [Space.new]) twoResources_fromRm twoResources_sorted
  have hfits := hright.sorting twoResources.reverse (List.reverse_perm _) (by unfold Succeeds; decide +kernel)
  unfold Succeeds at hfits
  revert hfits
  decide +kernel

end NvUvm.ChannelLife
