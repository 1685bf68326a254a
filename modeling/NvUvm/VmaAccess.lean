import Mathlib.Algebra.Order.Group.Nat
import Mathlib.Data.List.Range

/-!
# Mappings of the nvidia driver, and accesses through them

`nvidia_mmap_helper` maps pages of an allocation (control node) or of a BAR (GPU node) into a vma, and
`nvidia_vma_access` reads or writes for a debugger what a vma maps (`nv-mmap.c`).  The kernel may split the
vma in between: the upper part gets a later start and page offset.
-/

namespace NvUvm.NvMmap

/-! ## Nodes and vmas -/

/-- `nvidia_pte_t`. -/
structure Pte where
  physAddr : ℕ
  virtAddr : ℕ

/-- `nv_alloc_t`, as `nv-vm.c` fills it in: the pages are different ones, and the kernel sees each one at its
`virt_addr`. -/
structure NvAlloc (virtToPhys : ℕ → ℕ) where
  numPages : ℕ
  pageTable : ℕ → Pte
  numPages_lt : numPages < 2 ^ 32
  virt : ∀ i < numPages, ∀ offset < 4096,
    virtToPhys ((pageTable i).virtAddr + offset) = (pageTable i).physAddr + offset
  distinct : ∀ i < numPages, ∀ j < numPages, (pageTable i).physAddr = (pageTable j).physAddr → i = j

/-- The file of a mapping: the control node, with the allocation and the first page that RM returns for the
request, or the node of a GPU with the address and size of its frame buffer. -/
inductive Node (virtToPhys : ℕ → ℕ) where
  | control (at' : NvAlloc virtToPhys) (pageIndex : ℕ)
  | gpu (fbAddress fbSize : ℕ)

/-- `struct vm_area_struct`: page-aligned bounds and an offset in pages. -/
structure Vma where
  vmStart : ℕ
  vmEnd : ℕ
  vmPgoff : ℕ
  start_lt_end : vmStart < vmEnd
  start_aligned : 4096 ∣ vmStart
  end_aligned : 4096 ∣ vmEnd

inductive Errno where
  | einval
  | enomem
  | eagain
  | enxio

/-- What the calls of `nvidia_mmap_helper` answer: RM's lock, the check of the request, the caching, and the
kernel's mapping of each page or of the range. -/
structure MmapInput where
  acquireApiLock : Bool
  validateMmapRequest : Bool
  encodeCaching : Bool
  insertPage : ℕ → Bool
  remapPageRange : Bool

variable {virtToPhys : ℕ → ℕ}

/-- The physical pages behind the pages of user addresses. -/
abbrev UserPages := ℕ → Option ℕ

/-- The loop over the pages of the allocation, with the pages that are mapped so far. -/
def insertPages (insertPage : ℕ → Bool) (at' : NvAlloc virtToPhys) :
    ℕ → List ℕ → UserPages → Except Errno UserPages
  | _, [], pages => .ok pages
  | start, j :: rest, pages =>
    if insertPage j then
      insertPages insertPage at' (start + 4096) rest
        (Function.update pages (start / 4096) (some (at'.pageTable j).physAddr))
    else .error .eagain

/-- `nv_io_remap_page_range`, of a range as long as the vma. -/
def ioRemapPageRange (vma : Vma) (physAddr : ℕ) : UserPages := fun page =>
  if vma.vmStart / 4096 ≤ page ∧ page < vma.vmEnd / 4096 then
    some (physAddr + (page - vma.vmStart / 4096) * 4096)
  else none

/-- `nvidia_mmap_helper`. -/
def nvidiaMmapHelper (io : MmapInput) (node : Node virtToPhys) (vma : Vma) : Except Errno UserPages :=
  match node with
  | .gpu _ _ =>
    if !io.validateMmapRequest then .error .einval
    else if !io.encodeCaching then .error .enxio
    else if !io.remapPageRange then .error .eagain
    else .ok (ioRemapPageRange vma (vma.vmPgoff * 4096))
  | .control at' pageIndex =>
    if !io.acquireApiLock then .error .eagain
    else if !io.validateMmapRequest then .error .einval
    else if !io.encodeCaching then .error .enxio
    else insertPages io.insertPage at' vma.vmStart
      (List.range' pageIndex ((vma.vmEnd - vma.vmStart) / 4096 % 2 ^ 32)) fun _ => none

/-- Physical memory and the buffer of the caller. -/
structure Bytes where
  memory : ℕ → UInt8
  buffer : ℕ → UInt8

/-- The `memcpy` between the buffer and a kernel mapping, one way or the other. -/
def memcpy (write : Bool) (phys n : ℕ) (s : Bytes) : Bytes :=
  if write then
    { s with memory := fun a => if phys ≤ a ∧ a < phys + n then s.buffer (a - phys) else s.memory a }
  else { s with buffer := fun i => if i < n then s.memory (phys + i) else s.buffer i }

/-- `pageIndex` of `nvidia_vma_access`, an `NvU32`. -/
def accessIndex (vma : Vma) (addr : ℕ) : ℕ := (addr - vma.vmStart) / 4096 % 2 ^ 32

/-- The element of `page_table` that `nvidia_vma_access` reads. -/
def tableIndex (node : Node virtToPhys) (vma : Vma) (addr : ℕ) : Option ℕ :=
  match node with
  | .control at' _ => if at'.numPages ≤ accessIndex vma addr then none else some (accessIndex vma addr)
  | .gpu _ _ => none

/-- RM checks that the pages of a request are there. -/
def Validated (node : Node virtToPhys) (vma : Vma) : Prop :=
  match node with
  | .control at' pageIndex => pageIndex + (vma.vmEnd - vma.vmStart) / 4096 ≤ at'.numPages
  | .gpu _ _ => True

/-! ## Mapped pages -/

variable {osMap : ℕ → Bool} {node : Node virtToPhys} {pages : UserPages} {vma w : Vma} {addr length : ℕ}
  {write : Bool}

theorem insertPages_spec {insertPage : ℕ → Bool} {at' : NvAlloc virtToPhys} {start : ℕ} {l : List ℕ}
    {before : UserPages} (h : insertPages insertPage at' start l before = .ok pages) :
    (∀ page < start / 4096, pages page = before page) ∧
      ∀ k, ∀ hk : k < l.length, pages (start / 4096 + k) = some (at'.pageTable l[k]).physAddr := by
  induction l generalizing start before with
  | nil =>
    cases h
    exact ⟨fun _ _ => rfl, nofun⟩
  | cons j l ih =>
    rw [insertPages] at h
    split at h
    · obtain ⟨hbelow, hfrom⟩ := ih h
      rw [Nat.add_div_right start (by decide)] at hbelow hfrom
      constructor
      · intro page hpage
        rw [hbelow page (by omega), Function.update_of_ne (by omega)]
      · intro k hk
        cases k with
        | zero =>
          rw [Nat.add_zero, hbelow _ (Nat.lt_succ_self _), Function.update_self]
          rfl
        | succ k =>
          have hnext := hfrom k (Nat.lt_of_succ_lt_succ hk)
          rwa [Nat.succ_add_eq_add_succ] at hnext
    · cases h

/-- The physical page that a mapping shows at an address of the vma. -/
def mappedPage (node : Node virtToPhys) (vma : Vma) (addr : ℕ) : ℕ :=
  match node with
  | .control at' pageIndex => (at'.pageTable (pageIndex + (addr / 4096 - vma.vmStart / 4096))).physAddr
  | .gpu _ _ => (vma.vmPgoff + (addr / 4096 - vma.vmStart / 4096)) * 4096

theorem mapped {io : MmapInput} (h : nvidiaMmapHelper io node vma = .ok pages) (hvalid : Validated node vma)
    (hlo : vma.vmStart ≤ addr) (hhi : addr < vma.vmEnd) : pages (addr / 4096) = some (mappedPage node vma addr) := by
  have hstart := vma.start_aligned
  have hend := vma.end_aligned
  unfold nvidiaMmapHelper at h
  cases node with
  | gpu fbAddress fbSize =>
    dsimp only at h
    split_ifs at h
    cases h
    have hin : vma.vmStart / 4096 ≤ addr / 4096 ∧ addr / 4096 < vma.vmEnd / 4096 := by omega
    rw [ioRemapPageRange, if_pos hin, mappedPage, Nat.add_mul]
  | control at' pageIndex =>
    dsimp only at h
    split_ifs at h
    obtain ⟨-, hfrom⟩ := insertPages_spec h
    have hlt := at'.numPages_lt
    have hfits : pageIndex + (vma.vmEnd - vma.vmStart) / 4096 ≤ at'.numPages := hvalid
    have hpage := hfrom (addr / 4096 - vma.vmStart / 4096) (by rw [List.length_range']; omega)
    rw [List.getElem_range', Nat.one_mul] at hpage
    rwa [Nat.add_sub_cancel' (Nat.div_le_div_right hlo)] at hpage

/-! ## Accesses -/

def allOk : MmapInput := ⟨true, true, true, fun _ => true, true⟩

def twoPages : Vma := ⟨0x1000, 0x3000, 0x100, by decide, by decide, by decide⟩

end NvUvm.NvMmap
