import Mathlib.Data.Nat.SuccPred
import NvUvm.UserChannel

/-!
# Mapping the caller's pages into the kernel

`map_user_pages` (`uvm8_tools.c`): the queue and the counters that a tool shares with the driver are pages
of the tool, which the driver pins and maps.

All failures leave by one exit, which takes from `*pages` and from the return value of `get_user_pages`
what there is to undo.  It returns the status that the failing step has set, and a failing `vmap` sets
none.
-/

namespace NvUvm.UserPages

/-- The kernel's side: the reference counts of the page frames, what is allocated, and the frames behind
the mappings. -/
structure Kernel where
  pageCount : ℕ → ℕ
  allocations : List ℕ
  mappings : ℕ → Option (List ℕ)

/-- A page of the caller: its frame, and whether its VMA belongs to a file of this driver. -/
structure UserPage where
  frame : ℕ
  nvidiaUvm : Bool
  deriving DecidableEq

/-- What `get_user_pages` returns: the pages it has pinned, or a negative error. -/
inductive Pinned where
  | pages (l : List UserPage)
  | failed (errno : ℕ) (pos : 0 < errno)

/-- What the calls meet: the addresses that the allocations and `vmap` return, and the pages behind a
range of the caller's memory. -/
structure Env where
  pagesArray : Option ℕ
  vmasArray : Option ℕ
  getUserPages : ℕ → ℕ → Pinned
  vmap : Option ℕ

/-- What the caller gets: the status, `*addr`, and `*pages` with the frames in it. -/
structure Result where
  status : NvStatus
  addr : Option ℕ
  pages : Option (ℕ × List ℕ)

/-- The cases of `errno_to_nv_status`. -/
def errnoTable : List (ℕ × NvStatus) :=
  [(0, .ok), (7, .errInvalidArgument), (22, .errInvalidArgument), (13, .other 0x1D),
    (98, .errUvmAddressInUse), (99, .errUvmAddressInUse), (14, .errInvalidAddress), (4, .other 0x03),
    (16, .other 0x03), (6, .other 0x4B), (19, .other 0x4B), (12, .errNoMemory), (1, .other 0x1B),
    (3, .other 0x5E), (110, .other 0x65), (17, .other 0x17), (38, .other 0x56), (2, .other 0x53),
    (5, .other 0x60)]

/-- `errno_to_nv_status`, of a positive value. -/
def errnoToNvStatus (errno : ℕ) : NvStatus :=
  match errnoTable.find? (fun e => decide (e.1 = errno)) with
  | some e => e.2
  | none => .other 0xFFFF

def maxPageCount : ℕ := 2 ^ 20

/-- `DIV_ROUND_UP(size, PAGE_SIZE)`, of a 64-bit size. -/
def numPages (size : ℕ) : ℕ := (size + 4095) % 2 ^ 64 / 4096

namespace Kernel

variable (k : Kernel)

/-- `uvm_kvmalloc`. -/
def kvmalloc (a : ℕ) : Kernel := { k with allocations := a :: k.allocations }

/-- `uvm_kvfree`. -/
def kvfree (a : ℕ) : Kernel := { k with allocations := k.allocations.erase a }

def pinPages (l : List ℕ) : Kernel :=
  { k with pageCount := l.foldl (fun c p => Function.update c p (c p + 1)) k.pageCount }

def putUserPages (l : List ℕ) : Kernel :=
  { k with pageCount := l.foldl (fun c p => Function.update c p (c p - 1)) k.pageCount }

end Kernel

/-! ## The function -/

/-- The exit of the failures, where `*pages` was allocated at `pages`, and `vmas` if it was. -/
def failMap (k : Kernel) (status : NvStatus) (pages : ℕ) (vmas : Option ℕ) (ret : Pinned) :
    Result × Kernel :=
  let k := match vmas with
    | none => k
    | some a => k.kvfree a
  match ret with
  | .pages l => (⟨status, none, none⟩, (k.putUserPages (l.map (·.frame))).kvfree pages)
  | .failed errno _ => (⟨errnoToNvStatus errno, none, none⟩, k.kvfree pages)

def rejects (k : Kernel) (p : UserPage) : Bool :=
  decide (maxPageCount < k.pageCount p.frame) || p.nvidiaUvm

/-- `map_user_pages`.  `get_user_pages` pins as many pages as it was asked for at most. -/
def mapUserPages (env : Env) (userVa size : ℕ) (k : Kernel) : Result × Kernel :=
  let n := numPages size
  if uvmApiRangeInvalid userVa (n * 4096) then (⟨.errInvalidAddress, none, none⟩, k)
  else match env.pagesArray with
    | none => (⟨.errNoMemory, none, none⟩, k)
    | some pages =>
      let k := k.kvmalloc pages
      match env.vmasArray with
      | none => failMap k .errNoMemory pages none (.pages [])
      | some vmas =>
        let k := k.kvmalloc vmas
        match env.getUserPages userVa n with
        | .failed errno pos =>
          failMap k .errInvalidArgument pages (some vmas) (.failed errno pos)
        | .pages l =>
          let l := l.take n
          let k := k.pinPages (l.map (·.frame))
          if l.length ≠ n ∨ l.any (rejects k) then
            failMap k .errInvalidArgument pages (some vmas) (.pages l)
          else match env.vmap with
            | none => failMap k .ok pages (some vmas) (.pages l)
            | some addr =>
              let frames := l.map (·.frame)
              (⟨.ok, some addr, some (pages, frames)⟩,
                { k.kvfree vmas with mappings := Function.update k.mappings addr (some frames) })

/-! ## When it is right -/

/-- The whole range is mapped at `*addr`, each of its pages pinned once more, and `*pages` holds them. -/
def Mapped (env : Env) (userVa size : ℕ) (k k' : Kernel) (r : Result) : Prop :=
  ∃ l addr pages, env.getUserPages userVa (numPages size) = .pages l ∧ numPages size ≤ l.length ∧
    r.addr = some addr ∧
    r.pages = some (pages, (l.take (numPages size)).map (·.frame)) ∧
    k'.mappings = Function.update k.mappings addr (some ((l.take (numPages size)).map (·.frame))) ∧
    (∀ p, k'.pageCount p = k.pageCount p + ((l.take (numPages size)).map (·.frame)).count p) ∧
    k'.allocations = pages :: k.allocations

/-- What a call should leave. -/
structure Right (env : Env) (userVa size : ℕ) (k k' : Kernel) (r : Result) : Prop where
  ok_iff : r.status = .ok ↔ Mapped env userVa size k k' r
  undone : r.status ≠ .ok → r.addr = none ∧ r.pages = none ∧ k' = k

/-- All steps before `vmap` succeed, and `vmap` does not. -/
def OnlyVmapFails (env : Env) (userVa size : ℕ) (k : Kernel) : Prop :=
  uvmApiRangeInvalid userVa (numPages size * 4096) = false ∧
    env.pagesArray.isSome = true ∧ env.vmasArray.isSome = true ∧
    (∃ l, env.getUserPages userVa (numPages size) = .pages l ∧ numPages size ≤ l.length ∧
      (l.take (numPages size)).any
        (rejects (k.pinPages ((l.take (numPages size)).map (·.frame)))) = false) ∧
    env.vmap = none

private theorem foldl_iterate (f : ℕ → ℕ) (l : List ℕ) (c : ℕ → ℕ) (p : ℕ) :
    l.foldl (fun c q => Function.update c q (f (c q))) c p = f^[l.count p] (c p) := by
  induction l generalizing c with
  | nil => rfl
  | cons q l ih =>
    rw [List.foldl_cons, ih, List.count_cons]
    by_cases hq : p = q
    · rw [hq, Function.update_self, beq_self_eq_true, if_pos rfl, Function.iterate_succ_apply]
    · rw [Function.update_of_ne hq, if_neg (by simpa using Ne.symm hq), Nat.add_zero]

theorem pinPages_pageCount (k : Kernel) (l : List ℕ) (p : ℕ) :
    (k.pinPages l).pageCount p = k.pageCount p + l.count p :=
  (foldl_iterate Nat.succ l k.pageCount p).trans (Nat.succ_iterate ..)

theorem putUserPages_pageCount (k : Kernel) (l : List ℕ) (p : ℕ) :
    (k.putUserPages l).pageCount p = k.pageCount p - l.count p :=
  (foldl_iterate Nat.pred l k.pageCount p).trans (Nat.pred_iterate ..)

theorem putUserPages_pinPages (k : Kernel) (l : List ℕ) :
    ((k.pinPages l).putUserPages l).pageCount = k.pageCount := by
  funext p
  rw [putUserPages_pageCount, pinPages_pageCount, Nat.add_sub_cancel]

theorem failMap_undone (k : Kernel) (status : NvStatus) (pages vmas : ℕ) (l : List UserPage) :
    (failMap ((((k.kvmalloc pages).kvmalloc vmas)).pinPages (l.map (·.frame))) status pages (some vmas)
      (.pages l)).2 = k := by
  have hcnt : (((k.kvmalloc pages).kvmalloc vmas).pinPages (l.map (·.frame))).putUserPages
      (l.map (·.frame)) = (k.kvmalloc pages).kvmalloc vmas := by
    have hback := putUserPages_pinPages ((k.kvmalloc pages).kvmalloc vmas) (l.map (·.frame))
    unfold Kernel.putUserPages Kernel.pinPages Kernel.kvmalloc at hback ⊢
    dsimp only at hback ⊢
    rw [hback]
  have hfree : (((k.kvmalloc pages).kvmalloc vmas).kvfree vmas).kvfree pages = k := by
    unfold Kernel.kvfree Kernel.kvmalloc
    rw [List.erase_cons_head, List.erase_cons_head]
  -- the order of the frees and the puts does not matter
  show (((((k.kvmalloc pages).kvmalloc vmas).pinPages (l.map (·.frame))).putUserPages
    (l.map (·.frame))).kvfree vmas).kvfree pages = k
  rw [hcnt, hfree]

theorem errnoToNvStatus_ne_ok {errno : ℕ} (pos : 0 < errno) : errnoToNvStatus errno ≠ .ok := by
  have htable : ∀ e ∈ errnoTable, e.2 = .ok → e.1 = 0 := by decide
  unfold errnoToNvStatus
  split
  · next e hfind =>
    intro hok
    have hkey : e.1 = errno := by simpa using List.find?_some hfind
    have hzero := htable e (List.mem_of_find?_eq_some hfind) hok
    omega
  · simp

section Right

variable {env : Env} {userVa size : ℕ} {k : Kernel}

theorem Right.of_failed {r : Result × Kernel} (hstat : r.1.status ≠ .ok) (haddr : r.1.addr = none)
    (hpages : r.1.pages = none) (hkernel : r.2 = k) : Right env userVa size k r.2 r.1 where
  ok_iff := by
    refine ⟨fun hok => absurd hok hstat, ?_⟩
    rintro ⟨l, addr, pages, -, -, hmap, -⟩
    rw [haddr] at hmap
    cases hmap
  undone _ := ⟨haddr, hpages, hkernel⟩

variable (env userVa size k) in
/-- **The call is right unless `vmap` is what fails**: then it returns success, and nothing is
mapped. -/
theorem mapUserPages_right_iff :
    Right env userVa size k (mapUserPages env userVa size k).2 (mapUserPages env userVa size k).1 ↔
      ¬ OnlyVmapFails env userVa size k := by
  have hfails : ∀ P : Prop, ¬ P → (OnlyVmapFails env userVa size k → P) →
      ¬ OnlyVmapFails env userVa size k := fun P hP h hvmap => hP (h hvmap)
  unfold mapUserPages
  dsimp only
  by_cases hrange : uvmApiRangeInvalid userVa (numPages size * 4096) = true
  · rw [if_pos hrange]
    refine iff_of_true (Right.of_failed (by simp) rfl rfl rfl) (hfails _ ?_ fun h => h.1)
    simp [hrange]
  rw [if_neg hrange]
  cases hpages : env.pagesArray with
  | none =>
    refine iff_of_true (Right.of_failed (by simp) rfl rfl rfl) (hfails _ ?_ fun h => h.2.1)
    simp [hpages]
  | some pages =>
    dsimp only
    cases hvmas : env.vmasArray with
    | none =>
      refine iff_of_true (Right.of_failed (by simp [failMap]) rfl rfl ?_)
        (hfails _ ?_ fun h => h.2.2.1)
      · show ((k.kvmalloc pages).putUserPages []).kvfree pages = k
        unfold Kernel.kvfree Kernel.putUserPages Kernel.kvmalloc
        dsimp only
        rw [List.erase_cons_head]
        rfl
      · simp [hvmas]
    | some vmas =>
      dsimp only
      cases hpin : env.getUserPages userVa (numPages size) with
      | failed errno pos =>
        refine iff_of_true (Right.of_failed (errnoToNvStatus_ne_ok pos) rfl rfl ?_) ?_
        · show ((((k.kvmalloc pages).kvmalloc vmas)).kvfree vmas).kvfree pages = k
          unfold Kernel.kvfree Kernel.kvmalloc
          dsimp only
          rw [List.erase_cons_head, List.erase_cons_head]
        · rintro ⟨-, -, -, ⟨l, hl, -⟩, -⟩
          rw [hpin] at hl
          cases hl
      | pages l =>
        dsimp only
        -- the check reads the reference counts only
        have hreject : rejects (((k.kvmalloc pages).kvmalloc vmas).pinPages
            ((l.take (numPages size)).map (·.frame))) =
            rejects (k.pinPages ((l.take (numPages size)).map (·.frame))) := rfl
        by_cases hbad : (l.take (numPages size)).length ≠ numPages size ∨
            (l.take (numPages size)).any (rejects (((k.kvmalloc pages).kvmalloc vmas).pinPages
              ((l.take (numPages size)).map (·.frame)))) = true
        · rw [if_pos hbad]
          refine iff_of_true (Right.of_failed (by simp [failMap]) rfl rfl
            (failMap_undone k _ pages vmas _)) ?_
          rintro ⟨-, -, -, ⟨l', hl', hlen, hany⟩, -⟩
          rw [hpin] at hl'
          cases hl'
          rw [List.length_take_of_le hlen, hreject, hany] at hbad
          simp at hbad
        rw [if_neg hbad]
        obtain ⟨hlen, hany⟩ := not_or.mp hbad
        have hle : numPages size ≤ l.length := by
          rw [not_not, List.length_take] at hlen
          omega
        cases hvmap : env.vmap with
        | none =>
          -- the status is still that of the steps before
          refine iff_of_false (fun h => ?_) (not_not.mpr ⟨by simpa using hrange, by simp [hpages],
            by simp [hvmas], ⟨l, hpin, hle, Bool.not_eq_true _ ▸ hany⟩, hvmap⟩)
          obtain ⟨_, addr, _, -, -, haddr, -⟩ := h.ok_iff.mp rfl
          cases haddr
        | some addr =>
          refine iff_of_true ⟨?_, fun hne => absurd rfl hne⟩ fun h => ?_
          · refine iff_of_true rfl ⟨l, addr, pages, hpin, hle, rfl, rfl, rfl, fun p => ?_, ?_⟩
            · exact pinPages_pageCount _ _ p
            · show List.erase (vmas :: pages :: k.allocations) vmas = _
              rw [List.erase_cons_head]
          · have hnone := h.2.2.2.2
            rw [hvmap] at hnone
            cases hnone

/-- The caller's page is pinned, accepted and not mapped, and the call succeeds. -/
theorem unmapped_page_succeeds : ¬ ∀ (env : Env) (userVa size : ℕ) (k : Kernel),
      Right env userVa size k (mapUserPages env userVa size k).2 (mapUserPages env userVa size k).1 := by
  intro h
  have hok := (h ⟨some 1, some 2, fun _ _ => .pages [⟨7, false⟩], none⟩ 0x1000 64
    ⟨fun _ => 1, [], fun _ => none⟩).ok_iff.mp (by decide)
  obtain ⟨l, addr, pages, -, -, haddr, -⟩ := hok
  cases haddr

end Right

end NvUvm.UserPages
