import Mathlib.Algebra.Ring.Nat
import Mathlib.Data.List.TakeWhile
import NvUvm.Lib.Ledger

/-!
# Pinned GPU pages for other devices

`nvidia_p2p_get_pages` and `nvidia_p2p_dma_map_pages` (`nv-p2p.c`): what they allocate, what a failure frees,
and the error they return.
-/

namespace NvUvm.P2p

open Lib

/-! ## Errors -/

/-- The statuses of `nvidia_status_mappings`, and the others. -/
inductive Status where
  | ok
  | generic
  | insufficientResources
  | noMemory
  | invalidArgument
  | invalidObjectHandle
  | invalidState
  | notSupported
  | objectNotFound
  | stateInUse
  | other (code : ℕ)
  deriving DecidableEq

/-- `nvidia_p2p_map_status`: `-EIO`, `-ENOMEM`, `-EINVAL`, `-ENOTSUPP`, `-EBUSY` or 0. -/
def mapStatus : Status → ℤ
  | .ok => 0
  | .generic | .invalidState | .other _ => -5
  | .insufficientResources | .noMemory => -12
  | .invalidArgument | .invalidObjectHandle | .objectNotFound => -22
  | .notSupported => -524
  | .stateInUse => -16

/-! ## Getting pages -/

/-- What the functions hold: allocations, the pages that RM has pinned, and (never) memory of the caller. -/
inductive Resource where
  | stack
  | pageTable
  | physicalAddresses
  | wreqmbH
  | rreqmbH
  | rmPages
  | pages
  | page (i : ℕ)
  | dmaMapping
  | dmaAddresses
  | peerNvl
  | callerPointer
  deriving DecidableEq

/-- What the calls of `nvidia_p2p_get_pages` answer: which allocations succeed, and RM with the number of
entries it has filled, or its error. -/
structure GetInput where
  stack : Bool
  pageTable : Bool
  physicalAddresses : Bool
  wreqmbH : Bool
  rreqmbH : Bool
  rm : Except { status : Status // status ≠ .ok } ℕ
  pages : Bool
  page : ℕ → Bool

/-- `page_count`: the pages of 64k of a length, in 32 bits. -/
def pageCount (length : ℕ) : ℕ :=
  if length % 65536 ≠ 0 then (length / 65536 % 2 ^ 32 + 1) % 2 ^ 32 else length / 65536 % 2 ^ 32

def nothing : Ledger Resource := ⟨0, false⟩

/-- The label `failed`, with what the variables hold: the arrays that are not null, the number of pages made,
whether RM has pinned pages, and the pointers to the array of pages and to the table. -/
def failGet (status : Status) (arrays : List Resource) (i : ℕ) (bGetPages pages pageTable : List Resource)
    (l : Ledger Resource) : ℤ × Ledger Resource :=
  (mapStatus status,
    l.releaseAll (arrays ++ ((List.range i).map .page ++ (bGetPages ++ (pages ++ (pageTable ++ [.stack]))))))

/-- The pages that the loop makes before one cannot be allocated. -/
def pagesMade (page : ℕ → Bool) (entries : ℕ) : ℕ := ((List.range entries).takeWhile page).length

def arrays : List Resource := [.physicalAddresses, .wreqmbH, .rreqmbH]

/-- `nvidia_p2p_get_pages` from the call of RM on: what it returns, and what is held then. -/
def getFromRm (io : GetInput) (length : ℕ) (l : Ledger Resource) : ℤ × Ledger Resource :=
  match io.rm with
  | .error status => failGet status arrays 0 [] [] [.pageTable] l
  | .ok entries =>
    -- RM writes an element of each array for each entry
    let l := (l.require (entries ≤ pageCount length)).acquire .rmPages
    if !io.pages then failGet .noMemory arrays 0 [.rmPages] [] [.pageTable] l
    else
      let made := pagesMade io.page entries
      let l := (l.acquire .pages).acquireAll ((List.range made).map .page)
      -- the status is still that of the last allocation
      if made < entries then failGet .ok arrays made [.rmPages] [.pages] [.pageTable] l
      else (0, l.releaseAll (arrays ++ [.stack]))

/-- `nvidia_p2p_get_pages`. -/
def getPages (io : GetInput) (length : ℕ) : ℤ × Ledger Resource :=
  if !io.stack then (-12, nothing)
  else
    let l := nothing.acquire .stack
    if !io.pageTable then failGet .noMemory [] 0 [] [] [] l
    else
      let l := l.acquire .pageTable
      if !io.physicalAddresses then failGet .noMemory [] 0 [] [] [.pageTable] l
      else
        let l := l.acquire .physicalAddresses
        if !io.wreqmbH then failGet .noMemory [.physicalAddresses] 0 [] [] [.pageTable] l
        else
          let l := l.acquire .wreqmbH
          if !io.rreqmbH then failGet .noMemory [.physicalAddresses, .wreqmbH] 0 [] [] [.pageTable] l
          else getFromRm io length (l.acquire .rreqmbH)

/-- A table of some entries: `nvidia_p2p_put_pages` gives it back. -/
def liveTable (entries : ℕ) : List Resource :=
  [.pageTable, .rmPages, .pages] ++ (List.range entries).map .page

/-- The call returns 0 with a complete table of all entries, or an error and holds nothing. -/
def GetRight (io : GetInput) (length : ℕ) : Prop :=
  ((getPages io length).1 = 0 ∧ ∃ entries, io.rm = .ok entries ∧
      (getPages io length).2 = nothing.acquireAll (liveTable entries)) ∨
    (getPages io length).1 < 0 ∧ (getPages io length).2 = nothing

/-- RM is not reached or fails; or its entries fit the arrays, and so does memory for each page unless there
is none for the array of pages. -/
def GetFits (io : GetInput) (length : ℕ) : Prop :=
  io.stack = true → io.pageTable = true → io.physicalAddresses = true → io.wreqmbH = true → io.rreqmbH = true →
    ∀ entries, io.rm = .ok entries →
      entries ≤ pageCount length ∧ (io.pages = true → ∀ i < entries, io.page i = true)

/-! ## Mapping pages -/

/-- What the calls of `nvidia_p2p_dma_map_pages` answer; `arguments` are what it checks first. -/
structure MapInput where
  arguments : Bool
  stack : Bool
  dmaMapping : Bool
  dmaAddresses : Bool
  peerNvl : Bool
  rm : Status

/-- The end of the function, for success and failure: `dma_mapping` itself is freed, not what it points to. -/
def endMap (status : Status) (dmaAddresses peerNvl : List Resource) (l : Ledger Resource) :
    ℤ × Ledger Resource :=
  let l := l.releaseAll (.stack :: peerNvl)
  (mapStatus status, if status ≠ .ok then l.releaseAll (dmaAddresses ++ [.callerPointer]) else l)

/-- `nvidia_p2p_dma_map_pages`. -/
def dmaMapPages (io : MapInput) : ℤ × Ledger Resource :=
  if !io.arguments then (-22, nothing)
  else if !io.stack then (-12, nothing)
  else
    let l := nothing.acquire .stack
    if !io.dmaMapping then endMap .noMemory [] [] l
    else
      let l := l.acquire .dmaMapping
      if !io.dmaAddresses then endMap .noMemory [] [] l
      else
        let l := l.acquire .dmaAddresses
        if !io.peerNvl then endMap .noMemory [.dmaAddresses] [] l
        else endMap io.rm [.dmaAddresses] [.peerNvl] (l.acquire .peerNvl)

/-- The call returns 0 with a complete mapping, or an error and holds nothing. -/
def MapRight (io : MapInput) : Prop :=
  ((dmaMapPages io).1 = 0 ∧ (dmaMapPages io).2 = nothing.acquireAll [.dmaMapping, .dmaAddresses]) ∨
    (dmaMapPages io).1 < 0 ∧ (dmaMapPages io).2 = nothing

def MapFits (io : MapInput) : Prop :=
  io.arguments = true → io.stack = true →
    io.dmaMapping = true ∧ io.dmaAddresses = true ∧ io.peerNvl = true ∧ io.rm = .ok

/-! ## What is right -/

theorem mapStatus_neg {status : Status} (h : status ≠ .ok) : mapStatus status < 0 := by
  cases status with
  | ok => exact absurd rfl h
  | _ => exact Int.negSucc_lt_zero _

variable {length entries : ℕ} {io : GetInput}

theorem pagesMade_le (page : ℕ → Bool) (entries : ℕ) : pagesMade page entries ≤ entries :=
  (List.takeWhile_sublist page).length_le.trans_eq List.length_range

theorem pagesMade_eq_iff {page : ℕ → Bool} :
    pagesMade page entries = entries ↔ ∀ i < entries, page i = true := by
  have hall := List.takeWhile_eq_self_iff (p := page) (l := List.range entries)
  simp only [List.mem_range] at hall
  rw [← hall]
  constructor
  · intro hlen
    exact (List.takeWhile_sublist page).eq_of_length (hlen.trans List.length_range.symm)
  · intro heq
    rw [pagesMade, heq, List.length_range]

theorem failGet_right {status : Status} {a bGetPages pages pageTable : List Resource} {i : ℕ}
    {l : Ledger Resource} (held : List Resource) (hl : l = nothing.acquireAll held)
    (hheld : held.Perm (a ++ ((List.range i).map .page ++ (bGetPages ++ (pages ++ (pageTable ++ [.stack])))))) :
    failGet status a i bGetPages pages pageTable l = (mapStatus status, nothing) := by
  rw [failGet, hl, Ledger.releaseAll_acquireAll _ hheld]

def Reaches (io : GetInput) : Prop :=
  io.stack = true ∧ io.pageTable = true ∧ io.physicalAddresses = true ∧ io.wreqmbH = true ∧ io.rreqmbH = true

def beforeRm : List Resource := [.stack, .pageTable, .physicalAddresses, .wreqmbH, .rreqmbH]

theorem getPages_early (length : ℕ) (h : ¬ Reaches io) : getPages io length = (-12, nothing) := by
  unfold getPages
  cases hstack : io.stack with
  | false => rfl
  | true =>
    cases htable : io.pageTable with
    | false => exact failGet_right [.stack] rfl (by decide)
    | true =>
      cases hphysical : io.physicalAddresses with
      | false => exact failGet_right [.stack, .pageTable] rfl (by decide)
      | true =>
        cases hwreq : io.wreqmbH with
        | false => exact failGet_right [.stack, .pageTable, .physicalAddresses] rfl (by decide)
        | true =>
          cases hrreq : io.rreqmbH with
          | false => exact failGet_right [.stack, .pageTable, .physicalAddresses, .wreqmbH] rfl (by decide)
          | true => exact absurd ⟨hstack, htable, hphysical, hwreq, hrreq⟩ h

theorem getPages_rm (length : ℕ) (h : Reaches io) :
    getPages io length = getFromRm io length (nothing.acquireAll beforeRm) := by
  obtain ⟨hstack, htable, hphysical, hwreq, hrreq⟩ := h
  simp only [getPages, hstack, htable, hphysical, hwreq, hrreq, Bool.not_true, Bool.false_eq_true]
  rfl

theorem getFromRm_overflow (l : Ledger Resource) (hrm : io.rm = .ok entries)
    (hlt : pageCount length < entries) : (getFromRm io length l).2.bad = true := by
  have hbad : ((l.require (entries ≤ pageCount length)).acquire .rmPages).bad = true := by
    simp [Ledger.require, Ledger.acquire, hlt]
  unfold getFromRm
  rw [hrm]
  dsimp only
  generalize (l.require (entries ≤ pageCount length)).acquire .rmPages = l' at hbad
  have hpages : ∀ rs, ((l'.acquire .pages).acquireAll rs).bad = true := by
    intro rs
    rw [Ledger.acquireAll_eq]
    exact hbad
  split
  · exact Ledger.releaseAll_bad hbad _
  split
  · exact Ledger.releaseAll_bad (hpages _) _
  · exact Ledger.releaseAll_bad (hpages _) _

theorem getFromRm_fits (hrm : io.rm = .ok entries) (hle : entries ≤ pageCount length) :
    getFromRm io length (nothing.acquireAll beforeRm) =
      if !io.pages then (-12, nothing)
      else if pagesMade io.page entries < entries then (0, nothing)
      else (0, nothing.acquireAll (liveTable entries)) := by
  have hheld : ∀ rs, (((nothing.acquireAll beforeRm).acquire .rmPages).acquire .pages).acquireAll rs =
      nothing.acquireAll (beforeRm ++ [.rmPages, .pages] ++ rs) := by
    intro rs
    rfl
  unfold getFromRm
  rw [hrm]
  simp only [hle, decide_true, Ledger.require_true, hheld]
  split
  · exact failGet_right (beforeRm ++ [.rmPages]) rfl (by decide)
  split
  · -- all that was made is freed, and the status is that of the allocation before
    refine failGet_right _ rfl (List.perm_append_comm.trans ?_)
    have hrest : (beforeRm ++ [Resource.rmPages, .pages]).Perm
        (arrays ++ ([Resource.rmPages] ++ ([Resource.pages] ++ ([Resource.pageTable] ++ [.stack])))) := by decide
    exact (hrest.append_left _).trans (List.perm_append_comm_assoc _ _ _)
  · next hall =>
    have hmade := Nat.le_antisymm (pagesMade_le io.page entries) (Nat.not_lt.mp hall)
    rw [hmade, Ledger.releaseAll_part nothing (p := liveTable entries)]
    rw [liveTable, ← List.append_assoc]
    exact List.Perm.append_right _ (by decide)

theorem getRight_iff (io : GetInput) (length : ℕ) : GetRight io length ↔ GetFits io length := by
  unfold GetRight GetFits
  by_cases h : Reaches io
  · rw [getPages_rm length h]
    obtain ⟨hstack, htable, hphysical, hwreq, hrreq⟩ := h
    simp only [hstack, htable, hphysical, hwreq, hrreq, forall_const]
    cases hrm : io.rm with
    | error status =>
      have hfail : getFromRm io length (nothing.acquireAll beforeRm) = (mapStatus status, nothing) := by
        unfold getFromRm
        rw [hrm]
        exact failGet_right beforeRm rfl (by decide)
      rw [hfail]
      exact iff_of_true (.inr ⟨mapStatus_neg status.2, rfl⟩) nofun
    | ok entries =>
      simp only [Except.ok.injEq, forall_eq', exists_eq_left']
      by_cases hle : entries ≤ pageCount length
      · rw [getFromRm_fits hrm hle, ← pagesMade_eq_iff]
        have hmade := pagesMade_le io.page entries
        cases hpages : io.pages with
        | false => exact iff_of_true (.inr ⟨Int.negSucc_lt_zero 11, rfl⟩) ⟨hle, nofun⟩
        | true =>
          simp only [Bool.not_true, Bool.false_eq_true, if_false, forall_const]
          split
          · next hlt =>
            -- 0 is returned without a table
            refine iff_of_false ?_ fun hfits => absurd hfits.2 (Nat.ne_of_lt hlt)
            rintro (⟨-, hlive⟩ | ⟨hneg, -⟩)
            · have hmem := congrArg (Resource.pageTable ∈ Ledger.live ·) hlive
              simp [Ledger.acquireAll_eq, nothing, liveTable] at hmem
            · exact absurd hneg (by decide)
          · next hall => exact iff_of_true (.inl ⟨rfl, rfl⟩) ⟨hle, Nat.le_antisymm hmade (Nat.not_lt.mp hall)⟩
      · refine iff_of_false ?_ fun hfits => hle hfits.1
        have hbad := getFromRm_overflow (nothing.acquireAll beforeRm) hrm (Nat.lt_of_not_le hle)
        rintro (⟨-, hlive⟩ | ⟨-, hlive⟩)
        · rw [hlive, Ledger.acquireAll_eq] at hbad
          exact nomatch hbad
        · rw [hlive] at hbad
          exact nomatch hbad
  · rw [getPages_early length h]
    refine iff_of_true (.inr ⟨by decide, rfl⟩) ?_
    exact fun hstack htable hphysical hwreq hrreq => absurd ⟨hstack, htable, hphysical, hwreq, hrreq⟩ h

theorem not_mapRight {io : MapInput} (h : (dmaMapPages io).2.bad = true) : ¬ MapRight io := by
  rintro (⟨-, hlive⟩ | ⟨-, hlive⟩)
  · rw [hlive] at h
    exact absurd h (by decide)
  · rw [hlive] at h
    exact nomatch h

theorem mapRight_iff (io : MapInput) : MapRight io ↔ MapFits io := by
  obtain ⟨arguments, stack, dmaMapping, dmaAddresses, peerNvl, rm⟩ := io
  cases arguments with
  | false => exact iff_of_true (.inr ⟨Int.negSucc_lt_zero 21, rfl⟩) nofun
  | true =>
    cases stack with
    | false => exact iff_of_true (.inr ⟨Int.negSucc_lt_zero 11, rfl⟩) fun _ => nofun
    | true =>
      -- behind the checks a failure frees memory of the caller
      by_cases hfits : dmaMapping = true ∧ dmaAddresses = true ∧ peerNvl = true ∧ rm = .ok
      · obtain ⟨rfl, rfl, rfl, rfl⟩ := hfits
        exact iff_of_true (.inl ⟨rfl, by decide⟩) fun _ _ => ⟨rfl, rfl, rfl, rfl⟩
      · refine iff_of_false (not_mapRight ?_) fun h => hfits (h rfl rfl)
        cases dmaMapping with
        | false => rfl
        | true =>
          cases dmaAddresses with
          | false => rfl
          | true =>
            cases peerNvl with
            | false => rfl
            | true =>
              have hrm : rm ≠ .ok := fun heq => hfits ⟨rfl, rfl, rfl, heq⟩
              simp only [dmaMapPages, endMap, Bool.not_true, Bool.false_eq_true, if_false, if_pos hrm]
              decide

/-- **Pages and mappings are got right** if and only if no page of the table is missing, RM's entries fit, and
a mapping does not fail behind its checks. -/
theorem pages_right_iff (io : GetInput) (length : ℕ) (mapIo : MapInput) :
    (GetRight io length ↔ GetFits io length) ∧ (MapRight mapIo ↔ MapFits mapIo) :=
  ⟨getRight_iff io length, mapRight_iff mapIo⟩

/-- One page of 64k, for which there is no memory. -/
def noPage : GetInput := ⟨true, true, true, true, true, .ok 1, true, fun _ => false⟩

/-- Zero is returned, and nothing is there. -/
theorem missing_page_succeeds : getPages noPage 65536 = (0, nothing) ∧ ¬ GetRight noPage 65536 := by
  refine ⟨by decide, fun hright => ?_⟩
  have hfits := (getRight_iff noPage 65536).mp hright rfl rfl rfl rfl rfl 1 rfl
  exact absurd (hfits.2 rfl 0 Nat.zero_lt_one) (by decide)

end NvUvm.P2p
