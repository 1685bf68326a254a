import NvUvm.GpuPteUnmap
import NvUvm.Lib.BitRuns
import NvUvm.PageMask

/-!
# Revocation notifications

`uvm_va_block_revoke_prot` (`uvm8_va_block.c`) takes a permission from a processor on some pages of a
block, and notifies the thrashing detection of it.

On a GPU the pages are revoked per processor where they are resident, and the notifications are made for
each run of pages with the same PTE bits.  The bits are nested, so a page with atomic permission has the
write bit as well.  On the CPU each page has its own notification, made before the page is touched.
-/

namespace NvUvm.Revocations

open GpuBlock Lib
open Function (update update_of_ne update_self)

variable (b : GpuBlock)

/-- The part of `uvm_perf_event_data_t` for `UVM_PERF_EVENT_REVOCATION`. -/
structure Revocation where
  procId : ProcessorId
  address : ℕ
  bytes : ℕ
  oldProt : Prot
  newProt : Prot
  deriving DecidableEq

def Revocation.covers (e : Revocation) (page : ℕ) : Bool :=
  decide (e.address ≤ (b.start + page) * 4096) && decide ((b.start + page) * 4096 < e.address + e.bytes)

/-- What the events say of a page, in their order. -/
def heard (events : List Revocation) (page : ℕ) : List (ProcessorId × Prot × Prot) :=
  (events.filter fun e => e.covers b page).map fun e => (e.procId, e.oldProt, e.newProt)

/-! ## The block -/

/-- The mappings of a block that a revocation changes: `block->mapped`, those of the CPU, and those of the
GPU in question. -/
structure BlockMappings where
  mapped : ProcessorMask
  cpuRead : PageMask
  cpuWrite : PageMask
  gpu : PteState

/-- `block_page_prot`. -/
def BlockMappings.prot (m : BlockMappings) (id : ProcessorId) (page : ℕ) : Prot :=
  if id = cpuId then
    if m.cpuWrite page then .readWriteAtomic else if m.cpuRead page then .readOnly else .none
  else m.gpu.pageProt page

/-- A mapping of the CPU that allows writes allows reads, and the block counts as mapped. -/
structure BlockMappings.CpuInv (m : BlockMappings) : Prop where
  writeReads : ∀ page, m.cpuWrite page = true → m.cpuRead page = true
  mapped : ∀ page, m.cpuRead page = true → m.mapped cpuId = true
  inBlock : ∀ page, m.cpuRead page = true → page < b.numPages

/-- A block with where its pages are resident.  `residentOrder` are the processors of `block->resident` in
the order of `for_each_closest_id`. -/
structure RevokeBlock extends BlockMappings where
  resident : ProcessorId → PageMask
  residentOrder : List ProcessorId
  cpuInv : toBlockMappings.CpuInv b
  gpuInv : gpu.MapsInv b

/-- What the call meets: whether the VMA is that of the current process, the outcomes of mapping a page on
the CPU again, and those of the pushes to the GPU for a place of residency. -/
structure RevokeEnv where
  vmaCurrent : Bool
  insertPage : ℕ → NvStatus
  io : ProcessorId → PteInput

/-! ## The GPU -/

variable (id : ProcessorId)

def runRevocation (oldProt newProt : Prot) (r : ℕ × ℕ) : Revocation where
  procId := id
  address := (b.start + r.1) * 4096
  bytes := (r.2 - r.1) * 4096
  oldProt := oldProt
  newProt := newProt

def blockRevokeProtGpuPerfNotify (pteBits : PteBit → PageMask) (protRevoked : Prot)
    (pagesRevoked : PageMask) : List Revocation :=
  ([.atomic, .write, .read].filter fun bit : PteBit =>
      decide (protRevoked.bit.index ≤ bit.index)).flatMap fun bit =>
    let scratch : PageMask := fun p => pteBits bit p && pagesRevoked p
    if !anyIn ⟨0, b.numPages⟩ scratch then []
    else
      (runsFrom scratch b.numPages 0).map
        (runRevocation b id (if bit = .atomic then .readWriteAtomic else .readWrite) protRevoked.pred)

/-- The loop over the places of residency: the state of the GPU, `running_page_mask`, and the events so
far. -/
structure RevokeScan where
  gpu : PteState
  running : PageMask
  events : List Revocation

def searchPteType (protToRevoke : Prot) : PteBit :=
  if protToRevoke = .readWriteAtomic then .atomic else .write

/-- `uvm_va_block_revoke_prot_gpu_to`, with its notifications. -/
def revokeProtGpuTo (io : PteInput) (residentId : ProcessorId) (protToRevoke : Prot)
    (s : RevokeScan) : NvStatus × RevokeScan :=
  let bit := searchPteType protToRevoke
  let pagesToRevoke : PageMask := fun p => s.running p && s.gpu.pteBits bit p && io.resident p
  let rest : PageMask := fun p => s.running p && !io.resident p
  if !anyIn ⟨0, b.numPages⟩ pagesToRevoke then (.ok, { s with running := rest })
  else
    let after : PageMask := fun p =>
      s.gpu.pteBits bit.below p && !(s.gpu.pteBits bit p && !pagesToRevoke p) && io.resident p
    let r := remap b io residentId protToRevoke.pred pagesToRevoke after s.gpu
    if r.1 ≠ .ok then (r.1, { s with gpu := r.2 })
    else
      (io.addPush,
        { gpu := { r.2 with
            pteBits := fun c p =>
              r.2.pteBits c p && !(decide (bit.index ≤ c.index) && pagesToRevoke p) }
          running := rest
          events := s.events ++
            blockRevokeProtGpuPerfNotify b id r.2.pteBits protToRevoke pagesToRevoke })

/-- The loop of `uvm_va_block_revoke_prot` over the places of residency. -/
def revokeLoop (io : ProcessorId → PteInput) (region : BlockRegion) (protToRevoke : Prot) :
    List ProcessorId → RevokeScan → NvStatus × RevokeScan
  | [], s => (.ok, s)
  | residentId :: rest, s =>
    let r := revokeProtGpuTo b id (io residentId) residentId protToRevoke s
    if r.1 ≠ .ok then r
    -- all the pages are done
    else if !anyIn region r.2.running then (.ok, r.2)
    else revokeLoop io region protToRevoke rest r.2

/-! ## The CPU -/

/-- `uvm_va_block_unmap_cpu`, of a single page. -/
def unmapCpuPage (page : ℕ) (m : BlockMappings) : BlockMappings :=
  if !(m.mapped cpuId && m.cpuRead page) then m
  else
    let read := m.cpuRead.setBit page false
    { m with
      cpuRead := read
      cpuWrite := m.cpuWrite.setBit page false
      mapped := if anyIn ⟨0, b.numPages⟩ read then m.mapped else update m.mapped cpuId false }

/-- `block_revoke_cpu_write_page`.  The page is mapped again where that is allowed. -/
def blockRevokeCpuWritePage (env : RevokeEnv) (page : ℕ) (m : BlockMappings) :
    NvStatus × BlockMappings :=
  if m.prot cpuId page ≠ .readWriteAtomic then (.ok, m)
  else if env.vmaCurrent then
    match env.insertPage page with
    | .ok => (.ok, { m with cpuWrite := m.cpuWrite.setBit page false })
    | status => (status, m)
  else (.ok, unmapCpuPage b page m)

/-- The loop of `uvm_va_block_revoke_cpu_write`: the mask is one of the time before the loop, or the bits
themselves. -/
def revokeCpuWriteLoop (env : RevokeEnv) (finalPageMask : Option PageMask) :
    List ℕ → BlockMappings × List Revocation → NvStatus × BlockMappings × List Revocation
  | [], s => (.ok, s)
  | page :: pages, s =>
    if !(finalPageMask.getD s.1.cpuWrite) page then revokeCpuWriteLoop env finalPageMask pages s
    else
      let event : Revocation :=
        { procId := cpuId
          address := (b.start + page) * 4096
          bytes := 4096
          oldProt := .readWriteAtomic
          newProt := .readOnly }
      let r := blockRevokeCpuWritePage b env page s.1
      if r.1 ≠ .ok then (r.1, r.2, s.2 ++ [event])
      else revokeCpuWriteLoop env finalPageMask pages (r.2, s.2 ++ [event])

def uvmVaBlockRevokeCpuWrite (env : RevokeEnv) (region : BlockRegion)
    (revokePageMask : Option PageMask) (m : BlockMappings) :
    NvStatus × BlockMappings × List Revocation :=
  if !m.mapped cpuId then (.ok, m, [])
  else
    revokeCpuWriteLoop b env (revokePageMask.map fun mask p => m.cpuWrite p && mask p)
      (region.pages none) (m, [])

/-! ## The function -/

/-- What the call returns, and what it leaves. -/
structure Outcome where
  status : NvStatus
  mappings : BlockMappings
  events : List Revocation

def uvmVaBlockRevokeProt (env : RevokeEnv) (s : RevokeBlock b) (region : BlockRegion)
    (revokePageMask : Option PageMask) (protToRevoke : Prot) : Outcome :=
  if id = cpuId then
    if protToRevoke = .readWriteAtomic then ⟨.ok, s.toBlockMappings, []⟩
    else
      let r := uvmVaBlockRevokeCpuWrite b env region revokePageMask s.toBlockMappings
      ⟨r.1, r.2.1, r.2.2⟩
  else if !s.mapped id then ⟨.ok, s.toBlockMappings, []⟩
  else
    let running : PageMask := fun p => decide (region.first ≤ p) && decide (p < region.outer) &&
      revokePageMask.all (· p)
    let r := revokeLoop b id (fun r => { env.io r with resident := s.resident r }) region protToRevoke
      s.residentOrder ⟨s.gpu, running, []⟩
    ⟨r.1, { s.toBlockMappings with gpu := r.2.gpu }, r.2.events⟩

/-! ## What the events say of a page -/

variable {b id} {page : ℕ} {s s' : RevokeScan}

theorem covers_pages {e : Revocation} {first outer : ℕ}
    (haddress : e.address = (b.start + first) * 4096) (hbytes : e.bytes = (outer - first) * 4096) :
    e.covers b page = (decide (first ≤ page) && decide (page < outer)) := by
  unfold Revocation.covers
  rw [haddress, hbytes]
  have hfirst : ((b.start + first) * 4096 ≤ (b.start + page) * 4096) ↔ first ≤ page := by omega
  by_cases hle : first ≤ page
  · have hlast : ((b.start + page) * 4096 < (b.start + first) * 4096 + (outer - first) * 4096) ↔
        page < outer := by omega
    simp only [hfirst, hlast]
  · simp [hle]

theorem heard_append (l₁ l₂ : List Revocation) (page : ℕ) :
    heard b (l₁ ++ l₂) page = heard b l₁ page ++ heard b l₂ page := by
  unfold heard
  rw [List.filter_append, List.map_append]

theorem heard_runs (mask : PageMask) (oldProt newProt : Prot) (hpage : page < b.numPages) :
    heard b ((runsFrom mask b.numPages 0).map (runRevocation b id oldProt newProt)) page =
      if mask page then [(id, oldProt, newProt)] else [] := by
  have hcnt := runsFrom_countP mask hpage 0
  rw [decide_eq_true (Nat.zero_le page), Bool.true_and, List.countP_eq_length_filter] at hcnt
  have hcov : (fun e : Revocation => e.covers b page) ∘ runRevocation b id oldProt newProt =
      fun r => decide (r.1 ≤ page) && decide (page < r.2) := by
    funext r
    exact covers_pages rfl rfl
  have hconst : (fun e : Revocation => (e.procId, e.oldProt, e.newProt)) ∘
      runRevocation b id oldProt newProt = fun _ => (id, oldProt, newProt) := rfl
  unfold heard
  rw [List.filter_map, List.map_map, hcov, hconst, List.map_const', hcnt]
  cases mask page <;> rfl

/-- What is heard of a page when the pages are revoked: the walk goes over the bits one by one. -/
def notices (id : ProcessorId) (protRevoked : Prot) (pteBits : PteBit → PageMask) (page : ℕ) :
    List (ProcessorId × Prot × Prot) :=
  (if pteBits .atomic page then [(id, .readWriteAtomic, protRevoked.pred)] else []) ++
    if protRevoked = .readWrite ∧ pteBits .write page = true then
      [(id, .readWrite, protRevoked.pred)] else []

theorem heard_perfNotify (pteBits : PteBit → PageMask) {protRevoked : Prot}
    (hprot : protRevoked = .readWrite ∨ protRevoked = .readWriteAtomic) (pages : PageMask)
    (hpage : page < b.numPages) :
    heard b (blockRevokeProtGpuPerfNotify b id pteBits protRevoked pages) page =
      if pages page then notices id protRevoked pteBits page else [] := by
  -- the events for one of the bits
  have hbit : ∀ bit : PteBit, heard b (if !anyIn ⟨0, b.numPages⟩ (fun p => pteBits bit p && pages p)
      then [] else (runsFrom (fun p => pteBits bit p && pages p) b.numPages 0).map (runRevocation b id
        (if bit = .atomic then .readWriteAtomic else .readWrite) protRevoked.pred)) page =
      if (pteBits bit page && pages page) = true then
        [(id, if bit = .atomic then .readWriteAtomic else .readWrite, protRevoked.pred)] else [] := by
    intro bit
    split
    · next hnone =>
      have hclear : (pteBits bit page && pages page) = false := by
        by_contra hc
        have : anyIn ⟨0, b.numPages⟩ (fun p => pteBits bit p && pages p) = true :=
          anyIn_eq_true.mpr ⟨page, Nat.zero_le _, hpage, by simpa using hc⟩
        simp [this] at hnone
      rw [hclear]
      rfl
    · exact heard_runs _ _ _ hpage
  unfold blockRevokeProtGpuPerfNotify notices
  rcases hprot with rfl | rfl
  · rw [show ([.atomic, .write, .read].filter fun bit : PteBit =>
        decide (Prot.readWrite.bit.index ≤ bit.index)) = [.atomic, .write] from rfl]
    rw [List.flatMap_cons, List.flatMap_singleton, heard_append, hbit, hbit]
    cases pages page <;> simp
  · rw [show ([.atomic, .write, .read].filter fun bit : PteBit =>
        decide (Prot.readWriteAtomic.bit.index ≤ bit.index)) = [.atomic] from rfl]
    rw [List.flatMap_singleton, hbit]
    cases pages page <;> simp

/-! ## The GPU's pages -/

theorem revokeProtGpuTo_agrees (io : PteInput) (residentId : ProcessorId) (protToRevoke : Prot)
    (s : RevokeScan) :
    ((revokeProtGpuTo b id io residentId protToRevoke s).1,
      (revokeProtGpuTo b id io residentId protToRevoke s).2.gpu) =
      uvmVaBlockRevokeProtGpuTo b io residentId s.running protToRevoke s.gpu := by
  unfold revokeProtGpuTo uvmVaBlockRevokeProtGpuTo searchPteType
  dsimp only
  generalize (if protToRevoke = .readWriteAtomic then PteBit.atomic else .write) = bit
  split
  · rfl
  · split <;> rfl

/-- What a revocation that succeeds does to a page, when it hits the pages where `hit` is true. -/
structure PageRevoked (b : GpuBlock) (id : ProcessorId) (protToRevoke : Prot) (s s' : RevokeScan)
    (page : ℕ) (hit : Bool) : Prop where
  pteBits : ∀ bit, s'.gpu.pteBits bit page =
    (s.gpu.pteBits bit page && !(decide ((searchPteType protToRevoke).index ≤ bit.index) && hit))
  notified : heard b s'.events page = heard b s.events page ++
    if hit then notices id protToRevoke s.gpu.pteBits page else []

variable {protToRevoke : Prot}

theorem PageRevoked.of_same (hgpu : s'.gpu = s.gpu) (hevs : s'.events = s.events) (page : ℕ) :
    PageRevoked b id protToRevoke s s' page false where
  pteBits bit := by simp [hgpu]
  notified := by simp [hevs]

theorem PageRevoked.trans {s'' : RevokeScan} {hit hit' : Bool}
    (h : PageRevoked b id protToRevoke s s' page hit)
    (h' : PageRevoked b id protToRevoke s' s'' page hit') (honce : hit = true → hit' = false) :
    PageRevoked b id protToRevoke s s'' page (hit || hit') := by
  cases hit with
  | false =>
    have hbits : ∀ bit, s'.gpu.pteBits bit page = s.gpu.pteBits bit page := fun bit => by
      simpa using h.pteBits bit
    refine ⟨fun bit => ?_, ?_⟩
    · rw [h'.pteBits bit, hbits, Bool.false_or]
    · have hnotices : notices id protToRevoke s'.gpu.pteBits page =
          notices id protToRevoke s.gpu.pteBits page := by
        unfold notices
        rw [hbits, hbits]
      have hsame : heard b s'.events page = heard b s.events page := by simpa using h.notified
      rw [h'.notified, hnotices, hsame, Bool.false_or]
  | true =>
    have hnone := honce rfl
    subst hnone
    refine ⟨fun bit => ?_, ?_⟩
    · have := h'.pteBits bit
      rw [this, h.pteBits bit]
      simp
    · rw [h'.notified, h.notified]
      simp

theorem revokeProtGpuTo_page {io : PteInput} {residentId : ProcessorId} (hinv : s.gpu.MapsInv b)
    (hprot : protToRevoke = .readWrite ∨ protToRevoke = .readWriteAtomic)
    (hok : (revokeProtGpuTo b id io residentId protToRevoke s).1 = .ok) :
    (revokeProtGpuTo b id io residentId protToRevoke s).2.gpu.MapsInv b ∧
    (∀ page, (revokeProtGpuTo b id io residentId protToRevoke s).2.running page =
      (s.running page && !io.resident page)) ∧
    ∀ page < b.numPages,
      PageRevoked b id protToRevoke s (revokeProtGpuTo b id io residentId protToRevoke s).2 page
        (s.running page && s.gpu.pteBits (searchPteType protToRevoke) page && io.resident page) := by
  refine ⟨?_, ?_⟩
  · have hagrees := @revokeProtGpuTo_agrees b id io residentId protToRevoke s
    have hmaps := revokeProtGpuTo_mapsInv hinv io residentId s.running protToRevoke
    rw [← hagrees] at hmaps
    exact hmaps
  · unfold revokeProtGpuTo at hok ⊢
    obtain ⟨pages, hpages⟩ : ∃ pages : PageMask, ∀ p, (s.running p &&
        s.gpu.pteBits (searchPteType protToRevoke) p && io.resident p) = pages p := ⟨_, fun _ => rfl⟩
    simp only [hpages] at hok ⊢
    split at hok
    · next hnone =>
      rw [if_pos hnone]
      refine ⟨fun page => rfl, fun page hpage => ?_⟩
      -- no page is revoked here
      have hclear : pages page = false := by
        by_contra hc
        have : anyIn ⟨0, b.numPages⟩ pages = true :=
          anyIn_eq_true.mpr ⟨page, Nat.zero_le _, hpage, by simpa using hc⟩
        simp [this] at hnone
      rw [hclear]
      exact PageRevoked.of_same (by rfl) (by rfl) page
    · next hsome =>
      rw [if_neg hsome]
      have hbits := remap_pteBits hinv io residentId protToRevoke.pred pages (fun p =>
        s.gpu.pteBits (searchPteType protToRevoke).below p &&
          !(s.gpu.pteBits (searchPteType protToRevoke) p && !pages p) && io.resident p)
      split at hok
      · next hfail => exact absurd hok hfail
      · next hdone =>
        rw [if_neg hdone]
        refine ⟨fun page => rfl, fun page hpage => ⟨fun bit => ?_, ?_⟩⟩
        · rw [hbits]
        · rw [heard_append, heard_perfNotify _ hprot _ hpage, hbits]

theorem revokeLoop_page {io : ProcessorId → PteInput} {region : BlockRegion} {order : List ProcessorId}
    (hprot : protToRevoke = .readWrite ∨ protToRevoke = .readWriteAtomic) (s : RevokeScan)
    (hinv : s.gpu.MapsInv b)
    (hregion : ∀ page, s.running page = true → region.first ≤ page ∧ page < region.outer)
    (hok : (revokeLoop b id io region protToRevoke order s).1 = .ok) :
    ∀ page < b.numPages,
      PageRevoked b id protToRevoke s (revokeLoop b id io region protToRevoke order s).2 page
        (s.running page && s.gpu.pteBits (searchPteType protToRevoke) page &&
          order.any fun residentId => (io residentId).resident page) := by
  set t := searchPteType protToRevoke
  induction order generalizing s with
  | nil =>
    intro page _
    rw [List.any_nil, Bool.and_false]
    exact PageRevoked.of_same (by rfl) (by rfl) page
  | cons residentId order ih =>
    intro page hpage
    unfold revokeLoop at hok ⊢
    dsimp only at hok ⊢
    split at hok
    · next hfail => exact absurd hok hfail
    next hstep =>
    rw [if_neg hstep]
    obtain ⟨hinv', hrunning, hpages⟩ := revokeProtGpuTo_page hinv hprot (not_not.mp hstep)
    have hhere := hpages page hpage
    generalize revokeProtGpuTo b id (io residentId) residentId protToRevoke s = r
      at hinv' hrunning hhere hok ⊢
    rw [List.any_cons, Bool.and_or_distrib_left]
    by_cases hempty : (!anyIn region r.2.running) = true
    · rw [if_pos hempty]
      -- what is still resident elsewhere was not to be revoked
      have hleft : (s.running page && !(io residentId).resident page) = false := by
        rw [← hrunning]
        by_contra hc
        have hset : r.2.running page = true := by simpa using hc
        have hin := hregion page (by
          rw [hrunning, Bool.and_eq_true] at hset
          exact hset.1)
        have : anyIn region r.2.running = true := anyIn_eq_true.mpr ⟨page, hin.1, hin.2, hset⟩
        simp [this] at hempty
      have hsame : (s.running page && s.gpu.pteBits t page && (io residentId).resident page ||
          s.running page && s.gpu.pteBits t page &&
            order.any fun residentId => (io residentId).resident page) =
          (s.running page && s.gpu.pteBits t page &&
            (io residentId).resident page) := by
        cases hrun : s.running page with
        | false => rfl
        | true =>
          rw [hrun, Bool.true_and, Bool.not_eq_false'] at hleft
          rw [hleft]
          cases s.gpu.pteBits t page <;> simp
      rw [hsame]
      exact hhere
    · rw [if_neg hempty] at hok ⊢
      have hrest := ih r.2 hinv' (fun p hp => hregion p (by
        rw [hrunning, Bool.and_eq_true] at hp
        exact hp.1)) hok page hpage
      rw [hrunning] at hrest
      have hbit := hhere.pteBits t
      have hjoin := hhere.trans hrest fun hhit => by
        simp only [Bool.and_eq_true] at hhit
        rw [hhit.2]
        simp
      refine (congrArg (PageRevoked b id protToRevoke s _ page) ?_).mp hjoin
      rw [hbit]
      cases s.running page <;> cases s.gpu.pteBits t page <;>
        cases (io residentId).resident page <;> simp

/-! ## The CPU's pages -/

variable {env : RevokeEnv} {m : BlockMappings}

theorem blockRevokeCpuWritePage_spec (hinv : m.CpuInv b) (hwrite : m.cpuWrite page = true)
    (hok : (blockRevokeCpuWritePage b env page m).1 = .ok) :
    (blockRevokeCpuWritePage b env page m).2.cpuWrite = update m.cpuWrite page false ∧
    (blockRevokeCpuWritePage b env page m).2.cpuRead = update m.cpuRead page env.vmaCurrent ∧
    (blockRevokeCpuWritePage b env page m).2.CpuInv b := by
  have hread := hinv.writeReads page hwrite
  have hprot : m.prot cpuId page = .readWriteAtomic := by simp [BlockMappings.prot, hwrite]
  have hupd : ∀ {mask : PageMask} {v : Bool} (p : ℕ), update mask page v p = true →
      v = false → p ≠ page ∧ mask p = true := by
    intro mask v p hp hv
    by_cases hne : p = page
    · rw [hne, update_self, hv] at hp
      cases hp
    · exact ⟨hne, by rwa [update_of_ne hne] at hp⟩
  unfold blockRevokeCpuWritePage at hok ⊢
  rw [if_neg (not_not.mpr hprot)] at hok ⊢
  cases hvma : env.vmaCurrent with
  | true =>
    rw [hvma, if_pos rfl] at hok
    split at hok
    · have hsame : update m.cpuRead page true = m.cpuRead := by
        rw [← hread]
        exact Function.update_eq_self ..
      refine ⟨rfl, hsame.symm, ?_⟩
      exact ⟨fun p hp => hinv.writeReads p (hupd p hp rfl).2, hinv.mapped, hinv.inBlock⟩
    · next hfail => exact absurd hok hfail
  | false =>
    unfold unmapCpuPage
    rw [hinv.mapped page hread, hread, if_neg (by simp)]
    refine ⟨rfl, rfl, ?_, ?_, ?_⟩
    · intro p hp
      obtain ⟨hne, hp⟩ := hupd p hp rfl
      show update m.cpuRead page false p = true
      rw [update_of_ne hne]
      exact hinv.writeReads p hp
    · intro p hp
      have hany : anyIn ⟨0, b.numPages⟩ (m.cpuRead.setBit page false) = true :=
        anyIn_eq_true.mpr ⟨p, Nat.zero_le p, hinv.inBlock p (hupd p hp rfl).2, hp⟩
      show (if anyIn ⟨0, b.numPages⟩ (m.cpuRead.setBit page false) then m.mapped else _) cpuId = true
      rw [if_pos hany]
      exact hinv.mapped p (hupd p hp rfl).2
    · exact fun p hp => hinv.inBlock p (hupd p hp rfl).2

theorem heard_cpuEvent (q page : ℕ) :
    heard b [⟨cpuId, (b.start + q) * 4096, 4096, .readWriteAtomic, .readOnly⟩] page =
      if page = q then [(cpuId, .readWriteAtomic, .readOnly)] else [] := by
  have hcov : (⟨cpuId, (b.start + q) * 4096, 4096, .readWriteAtomic, .readOnly⟩ : Revocation).covers
      b page = (decide (q ≤ page) && decide (page < q + 1)) := covers_pages rfl (by simp)
  unfold heard
  by_cases hpage : page = q
  · subst hpage
    rw [List.filter_cons_of_pos (by simp [hcov]), if_pos rfl]
    rfl
  · rw [List.filter_cons_of_neg (by
      rw [hcov]
      simp only [Bool.and_eq_true, decide_eq_true_eq]
      omega), if_neg hpage]
    rfl

theorem revokeCpuWriteLoop_page {mask : Option PageMask} {pages : List ℕ} (hnd : pages.Nodup)
    (events : List Revocation) (hinv : m.CpuInv b)
    (hmask : ∀ f, mask = some f → ∀ page ∈ pages, f page = true → m.cpuWrite page = true)
    (hok : (revokeCpuWriteLoop b env mask pages (m, events)).1 = .ok) (page : ℕ) :
    let hit := decide (page ∈ pages) && (mask.getD m.cpuWrite) page
    let r := (revokeCpuWriteLoop b env mask pages (m, events)).2
    r.1.cpuWrite page = (m.cpuWrite page && !hit) ∧
      r.1.cpuRead page = (m.cpuRead page && !(hit && !env.vmaCurrent)) ∧
      heard b r.2 page = heard b events page ++
        if hit then [(cpuId, .readWriteAtomic, .readOnly)] else [] := by
  induction pages generalizing m events with
  | nil => simp [revokeCpuWriteLoop]
  | cons q pages ih =>
    obtain ⟨hnew, hnd⟩ := List.nodup_cons.mp hnd
    unfold revokeCpuWriteLoop at hok ⊢
    dsimp only at hok ⊢
    have hmaskRest : ∀ f, mask = some f → ∀ p ∈ pages, f p = true → m.cpuWrite p = true :=
      fun f hf p hp => hmask f hf p (List.mem_cons_of_mem q hp)
    by_cases hbit : (mask.getD m.cpuWrite) q = true
    · rw [hbit, if_neg (by simp)] at hok ⊢
      have hwrite : m.cpuWrite q = true := by
        cases hm : mask with
        | none => rwa [hm] at hbit
        | some f =>
          rw [hm] at hbit
          exact hmask f hm q (List.mem_cons_self ..) hbit
      split at hok
      · next hfail => exact absurd hok hfail
      next hdone =>
      rw [if_neg hdone]
      obtain ⟨hwrites, hreads, hinv'⟩ := blockRevokeCpuWritePage_spec hinv hwrite (not_not.mp hdone)
      have hrest := ih hnd _ hinv' (fun f hf p hp hfp => by
        have hne : p ≠ q := fun hpq => hnew (hpq ▸ hp)
        rw [hwrites, update_of_ne hne]
        exact hmaskRest f hf p hp hfp) hok
      rw [hwrites, hreads, heard_append, heard_cpuEvent] at hrest
      by_cases hpage : page = q
      · -- it does not come again
        subst hpage
        rw [update_self, update_self, decide_eq_false hnew] at hrest
        rw [decide_eq_true (List.mem_cons_self ..), hbit, hinv.writeReads page hwrite]
        simpa using hrest
      · have hmem : decide (page ∈ q :: pages) = decide (page ∈ pages) := by simp [hpage]
        have hget : (mask.getD (update m.cpuWrite q false)) page = (mask.getD m.cpuWrite) page := by
          cases mask with
          | none => exact update_of_ne hpage ..
          | some f => rfl
        rw [update_of_ne hpage, update_of_ne hpage, if_neg hpage,
          List.append_nil, hget] at hrest
        rw [hmem]
        exact hrest
    · have hclear : (mask.getD m.cpuWrite) q = false := by simpa using hbit
      rw [hclear, if_pos (by simp)] at hok ⊢
      have hrest := ih hnd events hinv hmaskRest hok
      have hhit : (decide (page ∈ q :: pages) && (mask.getD m.cpuWrite) page) =
          (decide (page ∈ pages) && (mask.getD m.cpuWrite) page) := by
        by_cases hpage : page = q
        · rw [hpage, hclear, Bool.and_false, Bool.and_false]
        · simp [hpage]
      rw [hhit]
      exact hrest

/-! ## When the notifications are right -/

/-- `uvm_prot_t` in its order. -/
def rank : Prot → ℕ
  | .none => 0
  | .readOnly => 1
  | .readWrite => 2
  | .readWriteAtomic => 3

/-- A page whose permission was lowered is covered by one event, which says from what to what, and one
whose permission is the same by none. -/
structure Notified (b : GpuBlock) (id : ProcessorId) (before after : ℕ → Prot)
    (events : List Revocation) : Prop where
  lowered : ∀ page < b.numPages, rank (after page) < rank (before page) →
    heard b events page = [(id, before page, after page)]
  same : ∀ page < b.numPages, after page = before page → heard b events page = []

/-- On the CPU a page that is to lose its write permission must still be mappable.  On a GPU write
permission must not be revoked from a page with atomic permission. -/
def RevokesOneLevel (env : RevokeEnv) (id : ProcessorId) (s : RevokeBlock b) (region : BlockRegion)
    (mask : Option PageMask) (protToRevoke : Prot) : Prop :=
  ¬ (s.mapped id = true ∧ protToRevoke = .readWrite ∧ ∃ page, region.first ≤ page ∧ page < region.outer ∧
    mask.all (· page) = true ∧
    if id = cpuId then s.cpuWrite page = true ∧ env.vmaCurrent = false
    else s.gpu.pteBits .atomic page = true ∧
      ∃ residentId ∈ s.residentOrder, s.resident residentId page = true)

theorem Notified.of_same {before : ℕ → Prot} : Notified b id before before [] where
  lowered _ _ h := absurd h (lt_irrefl _)
  same _ _ _ := rfl

/-- What `Notified` says of one page. -/
def PageNotified (id : ProcessorId) (before after : Prot) (notices : List (ProcessorId × Prot × Prot)) :
    Prop :=
  (rank after < rank before → notices = [(id, before, after)]) ∧ (after = before → notices = [])

theorem notified_iff {before after : ℕ → Prot} {events : List Revocation} {bad : ℕ → Prop}
    (h : ∀ page < b.numPages,
      PageNotified id (before page) (after page) (heard b events page) ↔ ¬ bad page) :
    Notified b id before after events ↔ ¬ ∃ page < b.numPages, bad page := by
  constructor
  · rintro hright ⟨page, hpage, hbad⟩
    exact (h page hpage).mp ⟨hright.lowered page hpage, hright.same page hpage⟩ hbad
  · intro hgood
    have hpages : ∀ page < b.numPages,
        PageNotified id (before page) (after page) (heard b events page) :=
      fun page hpage => (h page hpage).mpr fun hbad => hgood ⟨page, hpage, hbad⟩
    exact ⟨fun page hpage => (hpages page hpage).1, fun page hpage => (hpages page hpage).2⟩

theorem PageRevoked.notified_iff {hit : Bool} (h : PageRevoked b id protToRevoke s s' page hit)
    (hprot : protToRevoke = .readWrite ∨ protToRevoke = .readWriteAtomic) (hinv : s.gpu.MapsInv b)
    (hhit : hit = true → s.gpu.pteBits (searchPteType protToRevoke) page = true)
    (hnone : s.events = []) :
    PageNotified id (s.gpu.pageProt page) (s'.gpu.pageProt page) (Revocations.heard b s'.events page) ↔
      ¬ (hit = true ∧ protToRevoke = .readWrite ∧ s.gpu.pteBits .atomic page = true) := by
  have hnotified := h.notified
  rw [hnone] at hnotified
  have hbits := h.pteBits
  unfold PageNotified PteState.pageProt
  rw [hnotified, hbits .atomic, hbits .write, hbits .read]
  cases hit with
  | false =>
    simp only [Bool.and_false, Bool.not_false, Bool.and_true]
    exact iff_of_true ⟨fun h => absurd h (lt_irrefl _), fun _ => rfl⟩ (by simp)
  | true =>
    have hbit := hhit rfl
    rcases hprot with rfl | rfl
    · -- read permission stays
      have hwrite : s.gpu.pteBits .write page = true := hbit
      have hread := hinv.write page hwrite
      cases hatomic : s.gpu.pteBits .atomic page <;>
        simp [notices, rank, searchPteType, PteBit.index, Prot.pred, Revocations.heard, hwrite, hread,
          hatomic]
    · have hatomic : s.gpu.pteBits .atomic page = true := hbit
      have hwrite := hinv.atomic page hatomic
      simp [notices, searchPteType, PteBit.index, Prot.pred, Revocations.heard, hwrite, hatomic]

theorem revokeLoop_notified_iff {io : ProcessorId → PteInput} {region : BlockRegion}
    {order : List ProcessorId} (hprot : protToRevoke = .readWrite ∨ protToRevoke = .readWriteAtomic)
    (s : RevokeScan) (hinv : s.gpu.MapsInv b) (hevs : s.events = [])
    (hregion : ∀ page, s.running page = true → region.first ≤ page ∧ page < region.outer)
    (hok : (revokeLoop b id io region protToRevoke order s).1 = .ok) :
    Notified b id s.gpu.pageProt (revokeLoop b id io region protToRevoke order s).2.gpu.pageProt
        (revokeLoop b id io region protToRevoke order s).2.events ↔
      ¬ ∃ page < b.numPages, (s.running page && s.gpu.pteBits (searchPteType protToRevoke) page &&
        order.any fun residentId => (io residentId).resident page) = true ∧
        protToRevoke = .readWrite ∧ s.gpu.pteBits .atomic page = true := by
  apply notified_iff
  intro page hpage
  apply (revokeLoop_page hprot s hinv hregion hok page hpage).notified_iff hprot hinv ?_ hevs
  intro hhit
  simp only [Bool.and_eq_true] at hhit
  exact hhit.1.2

theorem revokeCpuWriteLoop_notified_iff {mask : Option PageMask} {pages : List ℕ}
    (hnd : pages.Nodup) (hinv : m.CpuInv b)
    (hmask : ∀ f, mask = some f → ∀ page ∈ pages, f page = true → m.cpuWrite page = true)
    (hok : (revokeCpuWriteLoop b env mask pages (m, [])).1 = .ok) :
    Notified b cpuId (m.prot cpuId) ((revokeCpuWriteLoop b env mask pages (m, [])).2.1.prot cpuId)
        (revokeCpuWriteLoop b env mask pages (m, [])).2.2 ↔
      ¬ ∃ page < b.numPages, (page ∈ pages ∧ (mask.getD m.cpuWrite) page = true) ∧
        env.vmaCurrent = false := by
  apply notified_iff
  intro page hpage
  obtain ⟨hwrite, hread, hheard⟩ := revokeCpuWriteLoop_page hnd [] hinv hmask hok page
  unfold PageNotified BlockMappings.prot
  rw [hheard, if_pos rfl, if_pos rfl, hwrite, hread]
  by_cases hhit : page ∈ pages ∧ (mask.getD m.cpuWrite) page = true
  · have hset : m.cpuWrite page = true := by
      cases hm : mask with
      | none =>
        rw [hm] at hhit
        exact hhit.2
      | some f =>
        rw [hm] at hhit
        exact hmask f hm page hhit.1 hhit.2
    rw [decide_eq_true hhit.1, hhit.2, hset, hinv.writeReads page hset]
    cases env.vmaCurrent <;> simp [rank, heard, hhit.1]
  · have hmiss : (decide (page ∈ pages) && (mask.getD m.cpuWrite) page) = false := by
      simpa using hhit
    rw [hmiss]
    simp only [Bool.false_and, Bool.not_false, Bool.and_true]
    exact iff_of_true ⟨fun h => absurd h (lt_irrefl _), fun _ => rfl⟩ fun h => hhit h.1

variable (b) in
/-- **The notifications of a call that succeeds are right unless it takes more than one level of
permission from a page.** -/
theorem revokeProt_notified_iff (env : RevokeEnv) (id : ProcessorId) (s : RevokeBlock b)
    (region : BlockRegion) (hregion : region.outer ≤ b.numPages) (mask : Option PageMask)
    (protToRevoke : Prot) (hprot : protToRevoke = .readWrite ∨ protToRevoke = .readWriteAtomic)
    (hok : (uvmVaBlockRevokeProt b id env s region mask protToRevoke).status = .ok) :
    Notified b id (s.prot id)
        ((uvmVaBlockRevokeProt b id env s region mask protToRevoke).mappings.prot id)
        (uvmVaBlockRevokeProt b id env s region mask protToRevoke).events ↔
      RevokesOneLevel env id s region mask protToRevoke := by
  unfold uvmVaBlockRevokeProt at hok ⊢
  unfold RevokesOneLevel
  by_cases hid : id = cpuId
  · subst hid
    rw [if_pos rfl] at hok ⊢
    rcases hprot with rfl | rfl
    · rw [if_neg (by simp)] at hok ⊢
      unfold uvmVaBlockRevokeCpuWrite at hok ⊢
      cases hmap : s.mapped cpuId with
      | false =>
        rw [if_pos (by simp)]
        exact iff_of_true Notified.of_same fun h => by simp at h
      | true =>
        rw [hmap, if_neg (by simp)] at hok
        have hnotified := revokeCpuWriteLoop_notified_iff
          (List.Nodup.filter _ (List.nodup_range' ..)) s.cpuInv (by
            intro f hf p _ hfp
            cases mask with
            | none => cases hf
            | some g =>
              cases hf
              exact (Bool.and_eq_true_iff.mp hfp).1) hok
        refine hnotified.trans (not_congr ?_)
        simp only [↓reduceIte]
        constructor
        · rintro ⟨page, -, ⟨hpage, hset⟩, hvma⟩
          have hrange := List.mem_range'_1.mp (List.mem_of_mem_filter hpage)
          refine ⟨trivial, trivial, page, hrange.1, by omega, ?_⟩
          cases mask with
          | none => exact ⟨rfl, hset, hvma⟩
          | some f => exact ⟨(Bool.and_eq_true_iff.mp hset).2, (Bool.and_eq_true_iff.mp hset).1, hvma⟩
        · rintro ⟨-, -, page, hfirst, houter, hin, hset, hvma⟩
          have hpage : page ∈ region.pages none :=
            List.mem_filter.mpr ⟨List.mem_range'_1.mpr ⟨hfirst, by omega⟩, rfl⟩
          refine ⟨page, by omega, ⟨hpage, ?_⟩, hvma⟩
          cases mask with
          | none => exact hset
          | some f => exact Bool.and_eq_true_iff.mpr ⟨hset, hin⟩
    · rw [if_pos rfl]
      exact iff_of_true Notified.of_same fun h => by simp at h
  · rw [if_neg hid] at hok ⊢
    cases hmap : s.mapped id with
    | false =>
      exact iff_of_true Notified.of_same fun h => by simp at h
    | true =>
      rw [hmap, if_neg (by simp)] at hok
      have hprots : ∀ m : BlockMappings, m.prot id = m.gpu.pageProt := fun m => by
        funext page
        exact if_neg hid
      rw [hprots, hprots]
      refine (revokeLoop_notified_iff hprot _ s.gpuInv rfl (fun p hp => ?_) hok).trans (not_congr ?_)
      · simp only [Bool.and_eq_true, decide_eq_true_eq] at hp
        exact hp.1
      · simp only [if_neg hid]
        constructor
        · rintro ⟨page, -, hhit, hlevel, hatomic⟩
          simp only [Bool.and_eq_true, decide_eq_true_eq, List.any_eq_true] at hhit
          obtain ⟨⟨⟨⟨hfirst, houter⟩, hin⟩, -⟩, hresident⟩ := hhit
          exact ⟨trivial, hlevel, page, hfirst, houter, hin, hatomic, hresident⟩
        · rintro ⟨-, rfl, page, hfirst, houter, hin, hatomic, hresident⟩
          refine ⟨page, by omega, ?_, rfl, hatomic⟩
          simp only [Bool.and_eq_true, decide_eq_true_eq, List.any_eq_true]
          exact ⟨⟨⟨⟨hfirst, houter⟩, hin⟩, s.gpuInv.atomic page hatomic⟩, hresident⟩

private theorem onePage_minBig : 16 ≤ 16 := le_rfl

private theorem onePage_noSwizzle : false = true → false = false := fun _ => rfl

def onePage : GpuBlock where
  start := 0
  numPages := 1
  bigPages := 16
  has2m := false
  swizzling := false
  pages_pos := Nat.one_pos
  fits := by decide
  minBig := onePage_minBig
  big_of_2m := by simp
  no_swizzle_2m := onePage_noSwizzle

/-- The GPU maps the page with all permissions by a 4k PTE. -/
def atomicBlock : RevokeBlock onePage where
  mapped := fun _ => true
  cpuRead := fun _ => false
  cpuWrite := fun _ => false
  gpu := { PteState.fresh with range4k := true, pteBits := fun _ page => decide (page = 0) }
  resident := fun id page => decide (id = 1) && decide (page = 0)
  residentOrder := [1]
  cpuInv := ⟨by simp, by simp, by simp⟩
  gpuInv := by
    constructor
    · simp [PteState.fresh]
    · simp [GpuBlock.supports2m, onePage]
    · simp [PteState.fresh]
    · exact fun _ h => h
    · exact fun _ h => h
    · simp [PteState.fresh]
    · exact fun _ _ _ _ => Or.inr rfl

def allOk : RevokeEnv where
  vmaCurrent := true
  insertPage := fun _ => .ok
  io := fun _ =>
    { resident := fun _ => false, toMap := fun _ => 1, canMapBig := fun _ => false,
      swizzled := fun _ => false, alloc := fun _ => .ok, beginPush := .ok, addPush := .ok,
      beforeSwizzle := fun _ => .ok, afterSwizzle := fun _ => .ok }

/-- When atomic permission is revoked from the page, it is covered once. -/
theorem revokeProt_notified_atomic : Notified onePage 1 (atomicBlock.prot 1)
      ((uvmVaBlockRevokeProt onePage 1 allOk atomicBlock ⟨0, 1⟩ none .readWriteAtomic).mappings.prot 1)
      (uvmVaBlockRevokeProt onePage 1 allOk atomicBlock ⟨0, 1⟩ none .readWriteAtomic).events :=
  (revokeProt_notified_iff onePage allOk 1 atomicBlock ⟨0, 1⟩ le_rfl none .readWriteAtomic (Or.inr rfl)
    (by decide +kernel)).mpr (by simp [RevokesOneLevel])

/-- When write permission is revoked from the page, it is covered twice. -/
theorem write_revocation_notified_twice :
    ¬ ∀ (b : GpuBlock) (env : RevokeEnv) (id : ProcessorId) (s : RevokeBlock b) (region : BlockRegion)
      (mask : Option PageMask) (protToRevoke : Prot),
      region.outer ≤ b.numPages → protToRevoke = .readWrite ∨ protToRevoke = .readWriteAtomic →
      (uvmVaBlockRevokeProt b id env s region mask protToRevoke).status = .ok →
      Notified b id (s.prot id)
        ((uvmVaBlockRevokeProt b id env s region mask protToRevoke).mappings.prot id)
        (uvmVaBlockRevokeProt b id env s region mask protToRevoke).events := by
  intro h
  have hok : (uvmVaBlockRevokeProt onePage 1 allOk atomicBlock ⟨0, 1⟩ none .readWrite).status = .ok := by
    decide +kernel
  have hright := h onePage allOk 1 atomicBlock ⟨0, 1⟩ none .readWrite le_rfl (Or.inl rfl) hok
  have honce := hright.lowered 0 (by decide) (by decide +kernel)
  have hpage := (revokeLoop_page (b := onePage) (Or.inl rfl) _ atomicBlock.gpuInv (by
    intro p hp
    simp only [Bool.and_eq_true, decide_eq_true_eq] at hp
    exact hp.1) hok 0 (by decide)).notified
  have htwice := congrArg List.length (hpage.symm.trans honce)
  revert htwice
  decide +kernel

end NvUvm.Revocations
