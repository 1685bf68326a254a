import Mathlib.Algebra.Order.Ring.Nat
import Mathlib.Data.List.Basic
import NvUvm.Processor

/-!
# The UVM-Lite copies

`migrate_cpu_to_gpu` and `migrate_gpu_to_cpu` of `uvm_lite.c`: copies are put in the push buffer until it
is full, and a batch is waited for by `_wait_for_migration_completion`.
-/

namespace NvUvm.LiteMigrations

/-! ## The functions -/

/-- A side of a copy: a virtual address of the GPU or a physical one of the CPU. -/
inductive Location where
  | gpu (virtualAddr : ℕ)
  | cpu (physAddr : ℕ)
  deriving DecidableEq

structure Copy where
  src : Location
  dst : Location
  deriving DecidableEq

/-- A page that is resident on the CPU. -/
structure UvmPage where
  physAddr : ℕ
  dirty : Bool
  outdated : Bool

structure CommitRecord where
  baseAddress : ℕ
  commitRecordPages : ℕ → Option UvmPage

/-- `NvUPtr pageVirtualAddr` of the page. -/
def CommitRecord.pageVirtualAddr (r : CommitRecord) (page : ℕ) : ℕ := r.baseAddress + page * 4096

/-- What the functions do not decide: the sizes of the methods and of the push buffer, whether each wait
succeeds, the notifiers before the first copy, and the migration event. -/
structure Env where
  copyBytes : ℕ
  releaseBytes : ℕ
  pushBufferSize : ℕ
  wait : ℕ → NvStatus
  preexistingError : NvStatus
  eventEnabled : Bool
  recordEvent : NvStatus

/-- The local variables, and what became of the copies: `submitted` to the GPU, and `completed` when a
wait said so. -/
structure Push where
  used : ℕ
  pushed : List Copy
  numMethods : ℕ
  migratedPages : ℕ
  status : NvStatus
  waits : ℕ
  submitted : List Copy
  completed : List Copy

def Push.start : Push := ⟨0, [], 0, 0, .ok, 0, [], []⟩

variable (env : Env)

/-- `_wait_for_migration_completion`: the release goes behind the copies, and the whole buffer to the
GPU. -/
def waitForMigrationCompletion (s : Push) : Push :=
  let released := if s.used + env.releaseBytes ≤ env.pushBufferSize then env.releaseBytes else 0
  { s with
    used := s.used + released
    numMethods := s.numMethods + released
    status := env.wait s.waits
    waits := s.waits + 1
    submitted := s.submitted ++ s.pushed
    completed := if env.wait s.waits = .ok then s.completed ++ s.pushed else s.completed }

/-- The inner loop: the first value is the turns that it may take. -/
def pushCopy (copy : Copy) : ℕ → Push → Option Push
  | 0, _ => none
  | turns + 1, s =>
    if s.used + env.copyBytes ≤ env.pushBufferSize - env.releaseBytes then
      some { s with
        used := s.used + env.copyBytes
        pushed := s.pushed ++ [copy]
        numMethods := s.numMethods + env.copyBytes }
    else
      let s := waitForMigrationCompletion env s
      -- the break leaves the inner loop only
      if s.status ≠ .ok then some s
      else pushCopy copy turns { s with used := 0, pushed := [], numMethods := 0 }

/-- The loop over the pages, of which `copyOf` selects. -/
def copyLoop (copyOf : ℕ → Option Copy) (turns : ℕ) : List ℕ → Push → Option Push
  | [], s => some s
  | page :: pages, s =>
    match copyOf page with
    | none => copyLoop copyOf turns pages s
    | some copy =>
      match pushCopy env copy turns s with
      | none => none
      | some s => copyLoop copyOf turns pages { s with migratedPages := s.migratedPages + 1 }

/-- Behind the loop: the last batch, and the event. -/
def finish (s : Push) : Push :=
  let s := if s.numMethods ≠ 0 ∧ s.status = .ok then waitForMigrationCompletion env s else s
  if env.eventEnabled ∧ 0 < s.migratedPages then { s with status := env.recordEvent } else s

def cpuToGpuCopy (r : CommitRecord) (page : ℕ) : Option Copy :=
  match r.commitRecordPages page with
  | none => none
  | some p => if p.dirty then some ⟨.cpu p.physAddr, .gpu (r.pageVirtualAddr page)⟩ else none

/-- The copy of a present page, which is to be outdated when asked. -/
def gpuToCpuCopy (r : CommitRecord) (outdatedOnly : Bool) (page : ℕ) : Option Copy :=
  match r.commitRecordPages page with
  | none => none
  | some p =>
    if outdatedOnly && !p.outdated then none else some ⟨.gpu (r.pageVirtualAddr page), .cpu p.physAddr⟩

def migrateCpuToGpu (r : CommitRecord) (startPage numPages turns : ℕ) : Option Push :=
  (copyLoop env (cpuToGpuCopy r) turns (List.range' startPage numPages) .start).map (finish env)

def migrateGpuToCpu (r : CommitRecord) (startPage numPages : ℕ) (outdatedOnly : Bool) (turns : ℕ) :
    Option Push :=
  if env.preexistingError ≠ .ok then some { Push.start with status := env.preexistingError }
  else
    (copyLoop env (gpuToCpuCopy r outdatedOnly) turns (List.range' startPage numPages) .start).map
      (finish env)

/-! ## When they are right -/

/-- Success means that exactly the selected pages were copied, once and completely, and counted; and a
failed wait is no success. -/
structure MigrationRight (copies : List Copy) (s : Push) : Prop where
  copied : s.status = .ok → s.submitted = copies ∧ s.completed = copies
  counted : s.status = .ok → s.migratedPages = copies.length
  reported : (∃ k < s.waits, env.wait k ≠ .ok) → s.status ≠ .ok

/-- How many copies the push buffer holds beside a release. -/
def Env.room : ℕ := (env.pushBufferSize - env.releaseBytes) / env.copyBytes

/-- The number of waits for `n` more copies, behind `k` waits and with `pushed` copies in the buffer.
After a failed wait the buffer stays full, and the next page waits again. -/
def waitsFrom : ℕ → ℕ → ℕ → ℕ
  | 0, pushed, k => if pushed ≠ 0 ∧ (k = 0 ∨ env.wait (k - 1) = .ok) then k + 1 else k
  | n + 1, pushed, k =>
    if pushed < env.room then waitsFrom n (pushed + 1) k
    else if env.wait k = .ok then waitsFrom n 1 (k + 1)
    else waitsFrom n pushed (k + 1)

/-- Of the waits for `n` copies none fails; or one does, and what overwrites its status is an error too:
the migration event's where events are enabled, else the last wait's. -/
def FailuresLast (n : ℕ) : Prop :=
  (∀ k < waitsFrom env n 0 0, env.wait k = .ok) ∨
    if env.eventEnabled then env.recordEvent ≠ .ok else env.wait (waitsFrom env n 0 0 - 1) ≠ .ok

/-! ## The waits -/

/-- The buffer holds at least one copy. -/
structure HoldsCopy : Prop where
  copyBytes : 0 < env.copyBytes
  holds : env.copyBytes + env.releaseBytes ≤ env.pushBufferSize

/-- The state after `k` waits with `pushed` copies in the buffer. -/
structure Tracks (s : Push) (pushed k : ℕ) : Prop where
  waits : s.waits = k
  length : s.pushed.length = pushed
  status : s.status = if k = 0 then .ok else env.wait (k - 1)
  le : pushed ≤ env.room
  used : s.status = .ok → s.used = pushed * env.copyBytes
  numMethods : s.status = .ok → s.numMethods = pushed * env.copyBytes
  full : s.status ≠ .ok → pushed = env.room ∧ pushed * env.copyBytes ≤ s.used

/-- No wait failed: the copies so far are completed or in the buffer. -/
structure Clean (s : Push) (copies : List Copy) : Prop where
  copied : s.completed ++ s.pushed = copies
  submitted : s.submitted = s.completed

variable {env}

theorem HoldsCopy.room_pos (h : HoldsCopy env) : 0 < env.room := by
  apply Nat.div_pos _ h.copyBytes
  have := h.holds
  omega

theorem HoldsCopy.fits_iff (h : HoldsCopy env) (pushed : ℕ) :
    pushed * env.copyBytes + env.copyBytes ≤ env.pushBufferSize - env.releaseBytes ↔ pushed < env.room := by
  unfold Env.room
  rw [← Nat.succ_le_iff, Nat.le_div_iff_mul_le h.copyBytes, Nat.succ_mul]

variable {k pushed : ℕ} {s : Push}

theorem Tracks.fits_iff (h : HoldsCopy env) (ht : Tracks env s pushed k) :
    s.used + env.copyBytes ≤ env.pushBufferSize - env.releaseBytes ↔ pushed < env.room := by
  by_cases hok : s.status = .ok
  · rw [ht.used hok]
    exact h.fits_iff pushed
  · obtain ⟨hfull, hused⟩ := ht.full hok
    have := h.fits_iff pushed
    omega

theorem Tracks.start : Tracks env .start 0 0 :=
  ⟨rfl, rfl, rfl, Nat.zero_le _, fun _ => (Nat.zero_mul _).symm, fun _ => (Nat.zero_mul _).symm,
    fun hne => absurd rfl hne⟩

theorem Tracks.wait_fails (ht : Tracks env s pushed k) (hfull : ¬ pushed < env.room)
    (hfails : env.wait k ≠ .ok) : Tracks env (waitForMigrationCompletion env s) pushed (k + 1) where
  waits := congrArg (· + 1) ht.waits
  length := ht.length
  status := congrArg env.wait ht.waits
  le := ht.le
  used hok := absurd ((congrArg env.wait ht.waits).symm.trans hok) hfails
  numMethods hok := absurd ((congrArg env.wait ht.waits).symm.trans hok) hfails
  full _ := by
    refine ⟨Nat.le_antisymm ht.le (Nat.le_of_not_lt hfull), ?_⟩
    have hused : pushed * env.copyBytes ≤ s.used := by
      by_cases hok : s.status = .ok
      · exact (ht.used hok).ge
      · exact (ht.full hok).2
    exact Nat.le_trans hused (Nat.le_add_right _ _)

theorem Tracks.push (ht : Tracks env s pushed k) (hroom : pushed < env.room) (copy : Copy) :
    Tracks env { s with
      used := s.used + env.copyBytes
      pushed := s.pushed ++ [copy]
      numMethods := s.numMethods + env.copyBytes } (pushed + 1) k where
  waits := ht.waits
  length := by rw [List.length_append, ht.length, List.length_singleton]
  status := ht.status
  le := hroom
  used hok := by rw [Nat.succ_mul, ← ht.used hok]
  numMethods hok := by rw [Nat.succ_mul, ← ht.numMethods hok]
  full hne := absurd (ht.full hne).1 (Nat.ne_of_lt hroom)

variable (env) in
/-- What the loop over the pages of `copies` makes of a state after `k` waits with `pushed` copies in the
buffer. -/
structure Pushes (s : Push) (k pushed : ℕ) (copies : List Copy) (s' : Push) (pushed' k' : ℕ) : Prop where
  tracks : Tracks env s' pushed' k'
  waits : ∀ n, waitsFrom env (copies.length + n) pushed k = waitsFrom env n pushed' k'
  le : k ≤ k'
  clean : ∀ done, (∀ j < k', env.wait j = .ok) → Clean s done → Clean s' (done ++ copies)

theorem pushCopy_pushes (h : HoldsCopy env) (ht : Tracks env s pushed k) (copy : Copy) (turns : ℕ) :
    ∃ s' pushed' k', pushCopy env copy (turns + 2) s = some s' ∧
      s'.migratedPages = s.migratedPages ∧ Pushes env s k pushed [copy] s' pushed' k' := by
  have hwaits : ∀ n, waitsFrom env ([copy].length + n) pushed k = if pushed < env.room then
      waitsFrom env n (pushed + 1) k else if env.wait k = .ok then waitsFrom env n 1 (k + 1)
      else waitsFrom env n pushed (k + 1) := by
    intro n
    rw [List.length_singleton, Nat.add_comm 1 n]
    rfl
  unfold pushCopy
  by_cases hroom : pushed < env.room
  · -- there is room
    rw [if_pos ((ht.fits_iff h).mpr hroom)]
    refine ⟨_, _, _, rfl, rfl, ht.push hroom copy, fun n => ?_, le_rfl, fun done _ hclean => ?_⟩
    · rw [hwaits, if_pos hroom]
    · exact ⟨by rw [← hclean.copied, List.append_assoc], hclean.submitted⟩
  rw [if_neg fun hc => hroom ((ht.fits_iff h).mp hc)]
  have hstat : (waitForMigrationCompletion env s).status = env.wait k := congrArg env.wait ht.waits
  by_cases hok : env.wait k = .ok
  · -- the batch is completed, and the copy the first of the next
    have hempty : Tracks env { waitForMigrationCompletion env s with used := 0, pushed := [], numMethods := 0 }
        0 (k + 1) :=
      ⟨congrArg (· + 1) ht.waits, rfl, hstat, Nat.zero_le _, fun _ => (Nat.zero_mul _).symm,
        fun _ => (Nat.zero_mul _).symm, fun hne => absurd (hstat.trans hok) hne⟩
    rw [if_neg fun hc => hc (hstat.trans hok)]
    unfold pushCopy
    rw [if_pos ((hempty.fits_iff h).mpr h.room_pos)]
    refine ⟨_, _, _, rfl, rfl, hempty.push h.room_pos copy, fun n => ?_, Nat.le_succ k,
      fun done _ hclean => ?_⟩
    · rw [hwaits, if_neg hroom, if_pos hok]
    · have hcompl : (waitForMigrationCompletion env s).completed = done := by
        refine Eq.trans ?_ hclean.copied
        exact if_pos (ht.waits ▸ hok)
      refine ⟨congrArg (· ++ [copy]) hcompl, ?_⟩
      show s.submitted ++ s.pushed = _
      rw [hclean.submitted, hclean.copied]
      exact hcompl.symm
  · dsimp only
    rw [if_pos fun hc => hok (hstat.symm.trans hc)]
    refine ⟨_, _, _, rfl, rfl, ht.wait_fails hroom hok, fun n => ?_, Nat.le_succ k, fun done hall _ => ?_⟩
    · rw [hwaits, if_neg hroom, if_neg hok]
    · exact absurd (hall k (Nat.lt_succ_self k)) hok

theorem copyLoop_pushes (h : HoldsCopy env) (copyOf : ℕ → Option Copy) (turns : ℕ) (pages : List ℕ)
    (ht : Tracks env s pushed k) :
    ∃ s' pushed' k', copyLoop env copyOf (turns + 2) pages s = some s' ∧
      s'.migratedPages = s.migratedPages + (pages.filterMap copyOf).length ∧
      Pushes env s k pushed (pages.filterMap copyOf) s' pushed' k' := by
  induction pages generalizing s pushed k with
  | nil =>
    refine ⟨s, pushed, k, rfl, rfl, ht, fun n => ?_, le_rfl, fun done _ hclean => ?_⟩
    · rw [List.filterMap_nil, List.length_nil, Nat.zero_add]
    · rwa [List.filterMap_nil, List.append_nil]
  | cons page pages ih =>
    unfold copyLoop
    cases hcopy : copyOf page with
    | none =>
      rw [List.filterMap_cons_none hcopy]
      exact ih ht
    | some copy =>
      rw [List.filterMap_cons_some hcopy]
      obtain ⟨s₁, pushed₁, k₁, hpush, hmigrated₁, hfirst⟩ := pushCopy_pushes h ht copy turns
      dsimp only
      rw [hpush]
      dsimp only
      have hcnt : Tracks env { s₁ with migratedPages := s₁.migratedPages + 1 } pushed₁ k₁ :=
        ⟨hfirst.tracks.waits, hfirst.tracks.length, hfirst.tracks.status, hfirst.tracks.le, hfirst.tracks.used,
          hfirst.tracks.numMethods, hfirst.tracks.full⟩
      obtain ⟨s₂, pushed₂, k₂, hloop, hmigrated₂, hrest⟩ := ih hcnt
      refine ⟨s₂, pushed₂, k₂, hloop, ?_, hrest.tracks, fun n => ?_, hfirst.le.trans hrest.le,
        fun done hall hclean => ?_⟩
      · rw [hmigrated₂, List.length_cons]
        show s₁.migratedPages + 1 + _ = s.migratedPages + (_ + 1)
        omega
      · rw [← hrest.waits, ← hfirst.waits, List.length_cons, List.length_singleton]
        congr 1
        omega
      · have hclean₁ := hfirst.clean done (fun j hj => hall j (Nat.lt_of_lt_of_le hj hrest.le)) hclean
        have := hrest.clean _ hall ⟨hclean₁.copied, hclean₁.submitted⟩
        rwa [List.append_assoc] at this

/-! ## The result -/

variable (env) in
/-- What the functions return and leave behind. -/
structure Finished (copies : List Copy) (s : Push) : Prop where
  waits : s.waits = waitsFrom env copies.length 0 0
  migratedPages : s.migratedPages = copies.length
  copied : (∀ k < s.waits, env.wait k = .ok) → s.submitted = copies ∧ s.completed = copies
  status : s.status = if env.eventEnabled ∧ 0 < copies.length then env.recordEvent
    else if s.waits = 0 then .ok else env.wait (s.waits - 1)

theorem Tracks.lastBatch_iff (h : HoldsCopy env) (ht : Tracks env s pushed k) :
    s.numMethods ≠ 0 ∧ s.status = .ok ↔ pushed ≠ 0 ∧ (k = 0 ∨ env.wait (k - 1) = .ok) := by
  have hstat : s.status = .ok ↔ k = 0 ∨ env.wait (k - 1) = .ok := by
    rw [ht.status]
    by_cases hk : k = 0
    · simp [hk]
    · simp [hk]
  rw [← hstat]
  refine and_congr_left fun hok => ?_
  rw [ht.numMethods hok]
  simp [h.copyBytes.ne']

theorem finish_finished (h : HoldsCopy env) {copies : List Copy}
    (hmig : s.migratedPages = copies.length)
    (hpush : Pushes env .start 0 0 copies s pushed k) : Finished env copies (finish env s) := by
  have ht := hpush.tracks
  have hwaits : waitsFrom env copies.length 0 0 = waitsFrom env 0 pushed k := hpush.waits 0
  have hclean : (∀ j < k, env.wait j = .ok) → Clean s copies := fun hall =>
    hpush.clean [] hall ⟨rfl, rfl⟩
  -- the state before the event
  obtain ⟨r, hr, hrwaits, hrmigrated, hrcopied, hrstatus⟩ : ∃ r,
      (if s.numMethods ≠ 0 ∧ s.status = .ok then waitForMigrationCompletion env s else s) = r ∧
      r.waits = waitsFrom env copies.length 0 0 ∧ r.migratedPages = copies.length ∧
      ((∀ j < r.waits, env.wait j = .ok) → r.submitted = copies ∧ r.completed = copies) ∧
      r.status = if r.waits = 0 then .ok else env.wait (r.waits - 1) := by
    rw [hwaits]
    unfold waitsFrom
    by_cases hlast : pushed ≠ 0 ∧ (k = 0 ∨ env.wait (k - 1) = .ok)
    · rw [if_pos ((ht.lastBatch_iff h).mpr hlast), if_pos hlast]
      refine ⟨_, rfl, congrArg (· + 1) ht.waits, hmig, fun hall => ?_, congrArg env.wait rfl⟩
      have hok : ∀ j < k + 1, env.wait j = .ok := fun j hj => hall j (hj.trans_eq (congrArg (· + 1) ht.waits.symm))
      obtain ⟨hcopied, hsubm⟩ := hclean fun j hj => hok j (Nat.lt_succ_of_lt hj)
      constructor
      · show s.submitted ++ s.pushed = copies
        rw [hsubm, hcopied]
      · show (if env.wait s.waits = .ok then s.completed ++ s.pushed else s.completed) = copies
        rw [if_pos (ht.waits ▸ hok k (Nat.lt_succ_self k)), hcopied]
    · rw [if_neg fun hc => hlast ((ht.lastBatch_iff h).mp hc), if_neg hlast]
      refine ⟨s, rfl, ht.waits, hmig, fun hall => ?_, ht.waits ▸ ht.status⟩
      have hok : ∀ j < k, env.wait j = .ok := fun j hj => hall j (ht.waits.symm ▸ hj)
      obtain ⟨hcopied, hsubm⟩ := hclean hok
      -- no wait failed, so nothing is in the buffer
      have hpushed : pushed = 0 := by
        by_contra hne
        refine hlast ⟨hne, ?_⟩
        rcases Nat.eq_zero_or_pos k with hk | hk
        · exact Or.inl hk
        · exact Or.inr (hok (k - 1) (by omega))
      have hempty : s.pushed = [] := List.eq_nil_of_length_eq_zero (ht.length.trans hpushed)
      rw [hempty, List.append_nil] at hcopied
      exact ⟨hsubm.trans hcopied, hcopied⟩
  unfold finish
  rw [hr]
  by_cases hev : env.eventEnabled = true ∧ 0 < copies.length
  · rw [if_pos (hrmigrated ▸ hev)]
    exact ⟨hrwaits, hrmigrated, hrcopied, (if_pos hev).symm⟩
  · rw [if_neg (hrmigrated ▸ hev)]
    exact ⟨hrwaits, hrmigrated, hrcopied, hrstatus.trans (if_neg hev).symm⟩

theorem Finished.right_iff {copies : List Copy} (h : Finished env copies s) :
    MigrationRight env copies s ↔ FailuresLast env copies.length := by
  unfold FailuresLast
  rw [← h.waits]
  by_cases hall : ∀ k < s.waits, env.wait k = .ok
  · refine iff_of_true ⟨fun _ => h.copied hall, fun _ => h.migratedPages, ?_⟩ (Or.inl hall)
    rintro ⟨k, hk, hne⟩
    exact absurd (hall k hk) hne
  -- a wait failed: what counts is that the status is an error
  have hfailed : ∃ k < s.waits, env.wait k ≠ .ok := by
    push Not at hall
    exact hall
  have hright : MigrationRight env copies s ↔ s.status ≠ .ok :=
    ⟨fun hr => hr.reported hfailed, fun hne => ⟨fun hok => absurd hok hne, fun hok => absurd hok hne, fun _ => hne⟩⟩
  rw [hright, or_iff_right hall, h.status]
  obtain ⟨k, hk, -⟩ := hfailed
  have hpos : 0 < copies.length := by
    rcases Nat.eq_zero_or_pos copies.length with hzero | hpos
    · rw [h.waits, hzero] at hk
      exact absurd hk (Nat.not_lt_zero k)
    · exact hpos
  rw [if_neg (Nat.ne_of_gt (Nat.zero_lt_of_lt hk))]
  by_cases hev : env.eventEnabled = true
  · rw [if_pos ⟨hev, hpos⟩, if_pos hev]
  · rw [if_neg fun hc => hev hc.1, if_neg hev]

/-- Both directions copy as they report exactly when no wait fails, or the status of a failed one is
overwritten by an error only. -/
theorem migrations_right_iff (h : HoldsCopy env) (r : CommitRecord) (startPage numPages turns : ℕ) :
    (∃ s, migrateCpuToGpu env r startPage numPages (turns + 2) = some s ∧
      (MigrationRight env ((List.range' startPage numPages).filterMap (cpuToGpuCopy r)) s ↔
        FailuresLast env ((List.range' startPage numPages).filterMap (cpuToGpuCopy r)).length)) ∧
    ∀ outdatedOnly, ∃ s, migrateGpuToCpu env r startPage numPages outdatedOnly (turns + 2) = some s ∧
      (MigrationRight env ((List.range' startPage numPages).filterMap (gpuToCpuCopy r outdatedOnly)) s ↔
        env.preexistingError ≠ .ok ∨
          FailuresLast env
            ((List.range' startPage numPages).filterMap (gpuToCpuCopy r outdatedOnly)).length) := by
  have hloop : ∀ copyOf, ∃ s, (copyLoop env copyOf (turns + 2) (List.range' startPage numPages) .start).map
      (finish env) = some s ∧ Finished env ((List.range' startPage numPages).filterMap copyOf) s := by
    intro copyOf
    obtain ⟨s, pushed, k, hrun, hmig, hpush⟩ := copyLoop_pushes h copyOf turns
      (List.range' startPage numPages) Tracks.start
    rw [hrun]
    exact ⟨_, rfl, finish_finished h (hmig.trans (Nat.zero_add _)) hpush⟩
  constructor
  · obtain ⟨s, hrun, hfin⟩ := hloop (cpuToGpuCopy r)
    exact ⟨s, hrun, hfin.right_iff⟩
  · intro outdatedOnly
    unfold migrateGpuToCpu
    by_cases hpre : env.preexistingError ≠ .ok
    · rw [if_pos hpre]
      refine ⟨_, rfl, iff_of_true ⟨fun hok => absurd hok hpre, fun hok => absurd hok hpre, ?_⟩ (Or.inl hpre)⟩
      exact fun _ => hpre
    · rw [if_neg hpre]
      obtain ⟨s, hrun, hfin⟩ := hloop (gpuToCpuCopy r outdatedOnly)
      exact ⟨s, hrun, hfin.right_iff.trans (or_iff_right hpre).symm⟩

def oneDirtyPage : CommitRecord := ⟨0x10000, fun page => if page = 0 then some ⟨0x5000, true, false⟩ else none⟩

/-- Migration events are enabled, and every wait ends as given. -/
def eventEnv (waits : NvStatus) : Env := ⟨80, 24, 0x4000, fun _ => waits, .ok, true, .ok⟩

theorem migrations_right_iff_oneDirtyPage :
    ∃ s, migrateCpuToGpu (eventEnv .ok) oneDirtyPage 0 1 2 = some s ∧
      (MigrationRight (eventEnv .ok) ((List.range' 0 1).filterMap (cpuToGpuCopy oneDirtyPage)) s ↔
        FailuresLast (eventEnv .ok) ((List.range' 0 1).filterMap (cpuToGpuCopy oneDirtyPage)).length) :=
  (@migrations_right_iff (eventEnv .ok) ⟨by decide, by decide⟩ oneDirtyPage 0 1 0).1

/-- The wait fails, and recording the event is what is reported. -/
theorem failed_wait_is_lost : ¬ ∀ (env : Env) (r : CommitRecord) (startPage numPages turns : ℕ) (s : Push),
    HoldsCopy env → migrateCpuToGpu env r startPage numPages turns = some s →
      MigrationRight env ((List.range' startPage numPages).filterMap (cpuToGpuCopy r)) s := by
  intro h
  have hright := h (eventEnv (.other 0x61)) oneDirtyPage 0 1 2 _ ⟨by decide, by decide⟩ rfl
  exact hright.reported ⟨0, by decide, by decide⟩ rfl

end NvUvm.LiteMigrations
