import NvUvm.GpuPtes
import NvUvm.Lib.BitFields

/-!
# The page-table entries of Pascal and Kepler

`make_pte`, `make_pde` and `unmapped_pte` of `uvm8_pascal_mmu.c` and `uvm8_kepler_mmu.c`, and what the
MMU reads in them by the layouts of `hwref/pascal/gp100/dev_mmu.h` and `hwref/kepler/gk104/dev_mmu.h`.
-/

namespace NvUvm.Mmu

open NvUvm.Lib NvUvm.Lib.BitField

/-! ## Layouts -/

/-- `uvm_aperture_t`, the values that name a memory. -/
inductive Aperture where
  | peer (id : Fin 8)
  | sys
  | vid
  deriving DecidableEq

/-- The bits `high:low` of a header, as `DRF_SHIFT64` and `DRF_MASK64` read them. -/
def drf (high low : ℕ) : BitField := ⟨low % 64, high % 64 + 1 - low % 64⟩

/-- `HWCONST64` of `TRUE` and `FALSE`. -/
def flag (b : Bool) : ℕ := if b then 1 else 0

/-- `NV_MMU_VER2_PTE_ADDRESS_SHIFT` and `NV_MMU_PTE_ADDRESS_SHIFT`. -/
def pteAddressShift : ℕ := 12

/-- The fields that the PTEs of both formats have. -/
structure PteLayout where
  valid : BitField
  aperture : BitField
  vol : BitField
  encrypted : BitField
  privilege : BitField
  readOnly : BitField
  addressSys : BitField
  addressVid : BitField
  addressVidPeer : BitField
  comptagline : BitField
  kind : BitField

/-- `NV_MMU_VER2_PTE_*`. -/
def ptePascal : PteLayout where
  valid := drf 0 0
  aperture := drf 2 1
  vol := drf 3 3
  encrypted := drf 4 4
  privilege := drf 5 5
  readOnly := drf 6 6
  addressSys := drf 53 8
  addressVid := drf (35 - 3) 8
  addressVidPeer := drf 35 (36 - 3)
  comptagline := drf (18 + 35) 36
  kind := drf 63 56

/-- `NV_MMU_VER2_PTE_ATOMIC_DISABLE`. -/
def atomicDisablePascal : BitField := drf 7 7

/-- `NV_MMU_PTE_*`. -/
def pteKepler : PteLayout where
  valid := drf (0 * 32 + 0) (0 * 32 + 0)
  aperture := drf (1 * 32 + 2) (1 * 32 + 1)
  vol := drf (1 * 32 + 0) (1 * 32 + 0)
  encrypted := drf (0 * 32 + 3) (0 * 32 + 3)
  privilege := drf (0 * 32 + 1) (0 * 32 + 1)
  readOnly := drf (0 * 32 + 2) (0 * 32 + 2)
  addressSys := drf (0 * 32 + 31) (0 * 32 + 4)
  addressVid := drf (0 * 32 + 31 - 3) (0 * 32 + 4)
  addressVidPeer := drf (0 * 32 + 31) (0 * 32 + 32 - 3)
  comptagline := drf (1 * 32 + 28) (1 * 32 + 12)
  kind := drf (1 * 32 + 11) (1 * 32 + 4)

/-- `NV_MMU_PTE_LOCK`. -/
def lockKepler : BitField := drf (1 * 32 + 3) (1 * 32 + 3)

/-- `NV_MMU_PTE_READ_DISABLE`. -/
def readDisableKepler : BitField := drf (1 * 32 + 30) (1 * 32 + 30)

/-- `NV_MMU_PTE_WRITE_DISABLE`. -/
def writeDisableKepler : BitField := drf (1 * 32 + 31) (1 * 32 + 31)

/-- The fields of a PDE, or of one half of a dual PDE, and the shift of its addresses. -/
structure PdeLayout where
  aperture : BitField
  vol : BitField
  addressSys : BitField
  addressVid : BitField
  shift : ℕ

/-- `NV_MMU_VER2_PDE_*`. -/
def singlePascal : PdeLayout where
  aperture := drf 2 1
  vol := drf 3 3
  addressSys := drf 53 8
  addressVid := drf (35 - 3) 8
  shift := 12

/-- `NV_MMU_VER2_DUAL_PDE_*_BIG`. -/
def bigPascal : PdeLayout where
  aperture := drf 2 1
  vol := drf 3 3
  addressSys := drf 53 (8 - 4)
  addressVid := drf (35 - 3) (8 - 4)
  shift := 8

/-- `NV_MMU_VER2_DUAL_PDE_*_SMALL`. -/
def smallPascal : PdeLayout where
  aperture := drf 66 65
  vol := drf 67 67
  addressSys := drf 117 72
  addressVid := drf (99 - 3) 72
  shift := 12

/-- `NV_MMU_VER2_PDE_IS_PDE` and `NV_MMU_VER2_DUAL_PDE_IS_PDE`, where `TRUE` is 0. -/
def isPdePascal : BitField := drf 0 0

/-- `NV_MMU_PDE_*_BIG`. -/
def bigKepler : PdeLayout where
  aperture := drf (0 * 32 + 1) (0 * 32 + 0)
  vol := drf (1 * 32 + 3) (1 * 32 + 3)
  addressSys := drf (0 * 32 + 31) (0 * 32 + 4)
  addressVid := drf (0 * 32 + 31 - 3) (0 * 32 + 4)
  shift := 12

/-- `NV_MMU_PDE_*_SMALL`. -/
def smallKepler : PdeLayout where
  aperture := drf (1 * 32 + 1) (1 * 32 + 0)
  vol := drf (1 * 32 + 2) (1 * 32 + 2)
  addressSys := drf (1 * 32 + 31) (1 * 32 + 4)
  addressVid := drf (1 * 32 + 31 - 3) (1 * 32 + 4)
  shift := 12

/-- `NV_MMU_PDE_SIZE`, where `FULL` is 0. -/
def sizeKepler : BitField := drf (0 * 32 + 3) (0 * 32 + 2)

/-! ## The entries that the driver writes -/

def pageSize4K : ℕ := 4 * 1024

def pageSize64K : ℕ := 64 * 1024

/-- `NV_MMU_VER2_PTE_APERTURE_*` and `NV_MMU_PTE_APERTURE_*`. -/
def Aperture.pteBits : Aperture → ℕ
  | .vid => 0
  | .peer _ => 1
  | .sys => 2

def makePtePascal (aperture : Aperture) (address : ℕ) (prot : Prot) (vol : Bool) (_pageSize : ℕ) : ℕ :=
  pack ([(ptePascal.valid, flag true), (ptePascal.aperture, aperture.pteBits), (ptePascal.vol, flag vol),
      (ptePascal.encrypted, flag false), (ptePascal.privilege, flag false),
      (ptePascal.readOnly, flag (prot == .readOnly)),
      (atomicDisablePascal, flag (prot != .readWriteAtomic))] ++
    let address := address >>> pteAddressShift
    match aperture with
    | .sys => [(ptePascal.addressSys, address)]
    | .vid => [(ptePascal.addressVid, address), (ptePascal.comptagline, 0)]
    | .peer id => [(ptePascal.addressVid, address), (ptePascal.addressVidPeer, id), (ptePascal.comptagline, 0)])

def unmappedPtePascal (pageSize : ℕ) : ℕ :=
  if pageSize ≠ pageSize64K then 0
  else pack [(ptePascal.valid, flag false), (ptePascal.vol, flag false), (ptePascal.privilege, flag true)]

def makePteKepler (aperture : Aperture) (address : ℕ) (prot : Prot) (vol : Bool) (_pageSize : ℕ) : ℕ :=
  pack ([(pteKepler.valid, flag true), (pteKepler.privilege, flag false),
      (pteKepler.readOnly, flag (prot == .readOnly)), (pteKepler.encrypted, flag false)] ++
    (let address := address >>> pteAddressShift
    match aperture with
    | .sys => [(pteKepler.addressSys, address)]
    | .vid => [(pteKepler.addressVid, address)]
    | .peer id => [(pteKepler.addressVid, address), (pteKepler.addressVidPeer, id)]) ++
    [(pteKepler.vol, flag vol), (pteKepler.aperture, aperture.pteBits), (lockKepler, flag false),
      (pteKepler.kind, 0), (pteKepler.comptagline, 0), (readDisableKepler, flag false),
      (writeDisableKepler, flag (prot == .readOnly))])

def unmappedPteKepler (pageSize : ℕ) : ℕ :=
  if pageSize = pageSize4K then 0
  else pack [(pteKepler.valid, flag false), (pteKepler.privilege, flag true), (pteKepler.vol, flag false)]

/-- `uvm_mmu_page_table_alloc_t`: where a page table is. -/
structure PageTableAlloc where
  aperture : Aperture
  address : ℕ

/-- The bits of a PDE or of one of its halves: none without a table. -/
def pdeBits (l : PdeLayout) : Option PageTableAlloc → ℕ
  | none => 0
  | some alloc =>
    let address := alloc.address >>> l.shift
    pack ((l.vol, flag true) ::
      match alloc.aperture with
      | .sys => [(l.aperture, 2), (l.addressSys, address)]
      | .vid => [(l.aperture, 1), (l.addressVid, address)]
      | .peer _ => []) -- asserted not to happen

def singlePdePascal (physAlloc : Option PageTableAlloc) : ℕ :=
  isPdePascal.num 0 ||| pdeBits singlePascal physAlloc

def bigHalfPdePascal : Option PageTableAlloc → ℕ := pdeBits bigPascal

def smallHalfPdePascal : Option PageTableAlloc → ℕ := pdeBits smallPascal

def bigHalfPdeKepler : Option PageTableAlloc → ℕ := pdeBits bigKepler

def smallHalfPdeKepler : Option PageTableAlloc → ℕ := pdeBits smallKepler

/-- `MMU_BIG` and `MMU_SMALL`: the tables of a dual PDE. -/
structure PhysAllocs where
  big : Option PageTableAlloc
  small : Option PageTableAlloc

def entriesPerIndexPascal (depth : ℕ) : ℕ := if depth = 3 then 2 else 1

/-- `make_pde_pascal`: the words of the entry.  A single PDE has its table first. -/
def makePdePascal (physAllocs : PhysAllocs) (depth : ℕ) : List ℕ :=
  if entriesPerIndexPascal depth = 1 then [singlePdePascal physAllocs.big]
  else [bigHalfPdePascal physAllocs.big ||| isPdePascal.num 0, smallHalfPdePascal physAllocs.small]

def makePdeKepler (physAllocs : PhysAllocs) (_depth : ℕ) : List ℕ :=
  [sizeKepler.num 0 ||| (bigHalfPdeKepler physAllocs.big ||| smallHalfPdeKepler physAllocs.small)]

/-! ## What the MMU reads -/

/-- A PTE by its fields. -/
structure Pte where
  valid : Bool
  aperture : Option Aperture
  address : ℕ
  vol : Bool
  encrypted : Bool
  privilege : Bool
  readOnly : Bool
  kind : ℕ

/-- The aperture of a PTE.  Non-coherent system memory is none of the driver's. -/
def decodeAperture (code peer : ℕ) : Option Aperture :=
  if code = 0 then some .vid
  else if code = 1 then some (.peer (Fin.ofNat 8 peer))
  else if code = 2 then some .sys
  else none

namespace PteLayout

/-- The aperture decides which bits are the address. -/
def decode (l : PteLayout) (x : ℕ) : Pte where
  valid := l.valid.get x == 1
  aperture := decodeAperture (l.aperture.get x) (l.addressVidPeer.get x)
  address := (if l.aperture.get x = 2 then l.addressSys.get x else l.addressVid.get x) <<< pteAddressShift
  vol := l.vol.get x == 1
  encrypted := l.encrypted.get x == 1
  privilege := l.privilege.get x == 1
  readOnly := l.readOnly.get x == 1
  kind := l.kind.get x

/-- A page-aligned address that fits the field of the aperture. -/
def Fits (l : PteLayout) (aperture : Aperture) (address : ℕ) : Prop :=
  address % 2 ^ pteAddressShift = 0 ∧
    address < 2 ^ ((if aperture = .sys then l.addressSys.width else l.addressVid.width) + pteAddressShift)

end PteLayout

/-- A PDE, or half of one, by its fields.  Without an aperture it is invalid. -/
structure Pde where
  aperture : Option Aperture
  vol : Bool
  address : ℕ

namespace PdeLayout

def decode (l : PdeLayout) (x : ℕ) : Pde where
  aperture := if l.aperture.get x = 1 then some .vid else if l.aperture.get x = 2 then some .sys else none
  vol := l.vol.get x == 1
  address := (if l.aperture.get x = 2 then l.addressSys.get x else l.addressVid.get x) <<< l.shift

/-- A table in video or system memory, aligned for the shift, at an address that fits the field. -/
def Fits (l : PdeLayout) (alloc : PageTableAlloc) : Prop :=
  alloc.address % 2 ^ l.shift = 0 ∧
    (alloc.aperture = .sys ∧ alloc.address < 2 ^ (l.addressSys.width + l.shift) ∨
      alloc.aperture = .vid ∧ alloc.address < 2 ^ (l.addressVid.width + l.shift))

end PdeLayout

def PageTableAlloc.pde : Option PageTableAlloc → Pde
  | none => ⟨none, false, 0⟩
  | some alloc => ⟨some alloc.aperture, true, alloc.address⟩

/-! ## Reading back -/

variable {width : ℕ} {l : PdeLayout}

theorem flag_mod (hwidth : 0 < width) (b : Bool) : flag b % 2 ^ width = flag b := by
  apply Nat.mod_eq_of_lt
  have hpow : 2 ^ 1 ≤ 2 ^ width := Nat.pow_le_pow_right (by decide) hwidth
  cases b with
  | false => exact Nat.two_pow_pos width
  | true => exact hpow

theorem flag_beq_one (b : Bool) : (flag b == 1) = b := by
  cases b <;> rfl

theorem Aperture.pteBits_mod (hwidth : 1 < width) (aperture : Aperture) :
    aperture.pteBits % 2 ^ width = aperture.pteBits := by
  apply Nat.mod_eq_of_lt
  have hpow : 2 ^ 2 ≤ 2 ^ width := Nat.pow_le_pow_right (by decide) hwidth
  have hbits : aperture.pteBits < 2 ^ 2 := by cases aperture <;> simp [pteBits]
  exact lt_of_lt_of_le hbits hpow

theorem peerId_mod (hwidth : 2 < width) (id : Fin 8) : id.val % 2 ^ width = id.val := by
  apply Nat.mod_eq_of_lt
  have hpow : 2 ^ 3 ≤ 2 ^ width := Nat.pow_le_pow_right (by decide) hwidth
  exact lt_of_lt_of_le id.isLt hpow

theorem address_read {address shift : ℕ} (halign : address % 2 ^ shift = 0)
    (hfits : address < 2 ^ (width + shift)) :
    ((address >>> shift) % 2 ^ width) <<< shift = address := by
  have hsmall : address / 2 ^ shift < 2 ^ width := by
    apply Nat.div_lt_of_lt_mul
    rwa [← Nat.pow_add, Nat.add_comm]
  rw [Nat.shiftRight_eq_div_pow, Nat.mod_eq_of_lt hsmall, Nat.shiftLeft_eq]
  exact Nat.div_mul_cancel (Nat.dvd_of_mod_eq_zero halign)

/-- The fields of a PTE for the mapping, of which those of the address depend on the aperture. -/
structure Reads (l : PteLayout) (memory : Aperture) (address : ℕ) (prot : Prot) (isVol : Bool) (x : ℕ) :
    Prop where
  valid : l.valid.get x = flag true
  aperture : l.aperture.get x = memory.pteBits
  vol : l.vol.get x = flag isVol
  encrypted : l.encrypted.get x = flag false
  privilege : l.privilege.get x = flag false
  readOnly : l.readOnly.get x = flag (prot == .readOnly)
  kind : l.kind.get x = 0
  sys : memory = .sys → l.addressSys.get x = (address >>> pteAddressShift) % 2 ^ l.addressSys.width
  vid : memory ≠ .sys → l.addressVid.get x = (address >>> pteAddressShift) % 2 ^ l.addressVid.width
  peer : ∀ id, memory = .peer id → l.addressVidPeer.get x = id.val

def pteOf (aperture : Aperture) (address : ℕ) (prot : Prot) (vol : Bool) : Pte where
  valid := true
  aperture := some aperture
  address := address
  vol := vol
  encrypted := false
  privilege := false
  readOnly := prot == .readOnly
  kind := 0

theorem Reads.decode {l : PteLayout} {aperture : Aperture} {address x : ℕ} {prot : Prot} {vol : Bool}
    (h : Reads l aperture address prot vol x) (hfits : l.Fits aperture address) :
    l.decode x = pteOf aperture address prot vol := by
  obtain ⟨halign, hlt⟩ := hfits
  unfold PteLayout.decode pteOf
  rw [h.valid, h.vol, h.encrypted, h.privilege, h.readOnly, h.kind, h.aperture]
  simp only [flag_beq_one]
  congr 1
  · cases aperture with
    | peer id =>
      rw [h.peer id rfl]
      show some (Aperture.peer (Fin.ofNat 8 id.val)) = _
      rw [Fin.ofNat_val_eq_self]
    | sys => rfl
    | vid => rfl
  · cases aperture with
    | sys =>
      rw [if_pos (by rfl), h.sys rfl]
      exact address_read halign hlt
    | peer id =>
      rw [if_neg (by simp [Aperture.pteBits]), h.vid nofun]
      exact address_read halign hlt
    | vid =>
      rw [if_neg (by decide), h.vid nofun]
      exact address_read halign hlt

/-! ## PTEs -/

section Ptes

variable (aperture : Aperture) (address : ℕ) (prot : Prot) (vol : Bool) (pageSize : ℕ)

theorem makePtePascal_reads :
    Reads ptePascal aperture address prot vol (makePtePascal aperture address prot vol pageSize) := by
  unfold makePtePascal
  cases aperture <;> constructor <;>
    simp (disch := decide) [pack, get_num_of_disjoint, flag_mod, Aperture.pteBits_mod, peerId_mod]

theorem makePteKepler_reads :
    Reads pteKepler aperture address prot vol (makePteKepler aperture address prot vol pageSize) := by
  unfold makePteKepler
  cases aperture <;> constructor <;>
    simp (disch := decide) [pack, get_num_of_disjoint, flag_mod, Aperture.pteBits_mod, peerId_mod]

/-- The fields of a PTE that the formats do not share, and its size. -/
structure PtePascalRest (memory : Aperture) (prot : Prot) (x : ℕ) : Prop where
  atomicDisable : (atomicDisablePascal.get x == 1) = (prot != .readWriteAtomic)
  comptagline : memory ≠ .sys → ptePascal.comptagline.get x = 0
  word : x < 2 ^ 64

theorem makePtePascal_rest :
    PtePascalRest aperture prot (makePtePascal aperture address prot vol pageSize) := by
  constructor
  · unfold makePtePascal
    cases aperture <;> simp (disch := decide) [pack, get_num_of_disjoint, flag_mod, flag_beq_one]
  · unfold makePtePascal
    cases aperture <;> simp (disch := decide) [pack, get_num_of_disjoint]
  · apply pack_lt
    cases aperture <;> simp only [List.forall_mem_append, List.forall_mem_cons] <;> decide

structure PteKeplerRest (prot : Prot) (x : ℕ) : Prop where
  lock : lockKepler.get x = 0
  comptagline : pteKepler.comptagline.get x = 0
  readDisable : readDisableKepler.get x = 0
  writeDisable : (writeDisableKepler.get x == 1) = (prot == .readOnly)
  word : x < 2 ^ 64

theorem makePteKepler_rest : PteKeplerRest prot (makePteKepler aperture address prot vol pageSize) := by
  constructor
  · unfold makePteKepler
    cases aperture <;> simp (disch := decide) [pack, get_num_of_disjoint, flag]
  · unfold makePteKepler
    cases aperture <;> simp (disch := decide) [pack, get_num_of_disjoint]
  · unfold makePteKepler
    cases aperture <;> simp (disch := decide) [pack, get_num_of_disjoint, flag]
  · unfold makePteKepler
    cases aperture <;> simp (disch := decide) [pack, get_num_of_disjoint, flag_mod, flag_beq_one]
  · apply pack_lt
    cases aperture <;> simp only [List.forall_mem_append, List.forall_mem_cons] <;> decide

end Ptes

/-- Neither valid nor sparse. -/
structure Unmapped (l : PteLayout) (x : ℕ) : Prop where
  valid : (l.decode x).valid = false
  vol : (l.decode x).vol = false

theorem unmappedPtePascal_unmapped (pageSize : ℕ) : Unmapped ptePascal (unmappedPtePascal pageSize) := by
  unfold unmappedPtePascal
  split <;> constructor <;> decide

theorem unmappedPteKepler_unmapped (pageSize : ℕ) : Unmapped pteKepler (unmappedPteKepler pageSize) := by
  unfold unmappedPteKepler
  split <;> constructor <;> decide

/-! ## PDEs -/

namespace PdeLayout

def fields (l : PdeLayout) : List BitField := [l.aperture, l.vol, l.addressSys, l.addressVid]

/-- The aperture and the volatile bit have their own bits. -/
structure WellFormed (l : PdeLayout) : Prop where
  aperture : l.aperture.width = 2
  vol : l.vol.width = 1
  apertureVol : l.aperture.Disjoint l.vol
  apertureSys : l.aperture.Disjoint l.addressSys
  apertureVid : l.aperture.Disjoint l.addressVid
  volAperture : l.vol.Disjoint l.aperture
  volSys : l.vol.Disjoint l.addressSys
  volVid : l.vol.Disjoint l.addressVid
  sysVol : l.addressSys.Disjoint l.vol
  sysAperture : l.addressSys.Disjoint l.aperture
  vidVol : l.addressVid.Disjoint l.vol
  vidAperture : l.addressVid.Disjoint l.aperture

end PdeLayout

theorem pdeBits_decode {physAlloc : Option PageTableAlloc} {x : ℕ} (hl : l.WellFormed)
    (hfits : ∀ alloc ∈ physAlloc, l.Fits alloc)
    (hx : ∀ f ∈ l.fields, f.get x = f.get (pdeBits l physAlloc)) :
    l.decode x = PageTableAlloc.pde physAlloc := by
  simp only [PdeLayout.fields, List.forall_mem_cons] at hx
  obtain ⟨haperture, hvol, hsys, hvid, -⟩ := hx
  unfold PdeLayout.decode PageTableAlloc.pde
  rw [haperture, hvol, hsys, hvid]
  cases physAlloc with
  | none => simp [pdeBits]
  | some alloc =>
    obtain ⟨halign, ⟨hmemory, hlt⟩ | ⟨hmemory, hlt⟩⟩ := hfits alloc rfl
    · have haddress := address_read halign hlt
      simp [pdeBits, hmemory, pack, get_num_of_disjoint hl.apertureVol, get_num_of_disjoint hl.apertureSys,
        get_num_of_disjoint hl.volAperture, get_num_of_disjoint hl.volSys, get_num_of_disjoint hl.sysVol,
        get_num_of_disjoint hl.sysAperture, hl.aperture, hl.vol, haddress, flag]
    · have haddress := address_read halign hlt
      simp [pdeBits, hmemory, pack, get_num_of_disjoint hl.apertureVol, get_num_of_disjoint hl.apertureVid,
        get_num_of_disjoint hl.volAperture, get_num_of_disjoint hl.volVid, get_num_of_disjoint hl.vidVol,
        get_num_of_disjoint hl.vidAperture, hl.aperture, hl.vol, haddress, flag]

theorem get_pdeBits_of_disjoint {f : BitField} (h : ∀ g ∈ l.fields, f.Disjoint g)
    (physAlloc : Option PageTableAlloc) : f.get (pdeBits l physAlloc) = 0 := by
  simp only [PdeLayout.fields, List.forall_mem_cons] at h
  obtain ⟨haperture, hvol, hsys, hvid, -⟩ := h
  cases physAlloc with
  | none => exact get_zero f
  | some alloc =>
    rcases alloc with ⟨_ | _ | _, address⟩ <;>
      simp [pdeBits, pack, get_num_of_disjoint haperture, get_num_of_disjoint hvol,
        get_num_of_disjoint hsys, get_num_of_disjoint hvid]

theorem pdeBits_lt (h : ∀ g ∈ l.fields, g.low + g.width ≤ 64) (physAlloc : Option PageTableAlloc) :
    pdeBits l physAlloc < 2 ^ 64 := by
  simp only [PdeLayout.fields, List.forall_mem_cons] at h
  obtain ⟨haperture, hvol, hsys, hvid, -⟩ := h
  cases physAlloc with
  | none => exact Nat.two_pow_pos 64
  | some alloc =>
    apply pack_lt
    rcases alloc with ⟨_ | _ | _, address⟩ <;> simp [haperture, hvol, hsys, hvid]

theorem singlePascal_wellFormed : singlePascal.WellFormed := by
  constructor <;> decide

theorem bigPascal_wellFormed : bigPascal.WellFormed := by
  constructor <;> decide

theorem smallPascal_wellFormed : smallPascal.WellFormed := by
  constructor <;> decide

theorem bigKepler_wellFormed : bigKepler.WellFormed := by
  constructor <;> decide

theorem smallKepler_wellFormed : smallKepler.WellFormed := by
  constructor <;> decide

/-! ## All the entries -/

/-- The word says where the table is, if the table may be there. -/
def PdeLayout.Reads (l : PdeLayout) (physAlloc : Option PageTableAlloc) (x : ℕ) : Prop :=
  (∀ alloc ∈ physAlloc, l.Fits alloc) → l.decode x = PageTableAlloc.pde physAlloc

def SingleRight (physAllocs : PhysAllocs) (words : List ℕ) : Prop :=
  ∃ x < 2 ^ 64, words = [x] ∧ isPdePascal.get x = 0 ∧ singlePascal.Reads physAllocs.big x

/-- The entry is a dual PDE in two words.  Each half is read whatever the other table is. -/
def DualRight (physAllocs : PhysAllocs) (words : List ℕ) : Prop :=
  ∃ big < 2 ^ 64, ∃ small < 2 ^ 64, words = [big, small] ∧ isPdePascal.get big = 0 ∧
    bigPascal.Reads physAllocs.big big ∧ smallPascal.Reads physAllocs.small small

def KeplerRight (physAllocs : PhysAllocs) (words : List ℕ) : Prop :=
  ∃ x < 2 ^ 64, words = [x] ∧ sizeKepler.get x = 0 ∧
    bigKepler.Reads physAllocs.big x ∧ smallKepler.Reads physAllocs.small x

/-- What the formats keep of what went into their entries. -/
structure FormatsRight : Prop where
  ptesPascal : ∀ aperture address prot vol pageSize, ptePascal.Fits aperture address →
    ptePascal.decode (makePtePascal aperture address prot vol pageSize) = pteOf aperture address prot vol ∧
      PtePascalRest aperture prot (makePtePascal aperture address prot vol pageSize)
  ptesKepler : ∀ aperture address prot vol pageSize, pteKepler.Fits aperture address →
    pteKepler.decode (makePteKepler aperture address prot vol pageSize) = pteOf aperture address prot vol ∧
      PteKeplerRest prot (makePteKepler aperture address prot vol pageSize)
  singlePdes : ∀ physAllocs depth, depth ≠ 3 → SingleRight physAllocs (makePdePascal physAllocs depth)
  dualPdes : ∀ physAllocs, DualRight physAllocs (makePdePascal physAllocs 3)
  keplerPdes : ∀ physAllocs depth, KeplerRight physAllocs (makePdeKepler physAllocs depth)
  unmappedPascal : ∀ pageSize, Unmapped ptePascal (unmappedPtePascal pageSize)
  unmappedKepler : ∀ pageSize, Unmapped pteKepler (unmappedPteKepler pageSize)
  bigUnmappedPascal : unmappedPtePascal pageSize64K ≠ 0
  bigUnmappedKepler : ∀ pageSize, pageSize ≠ pageSize4K → unmappedPteKepler pageSize ≠ 0

theorem makePdePascal_single (physAllocs : PhysAllocs) (depth : ℕ) (hdepth : depth ≠ 3) :
    SingleRight physAllocs (makePdePascal physAllocs depth) := by
  have hbits : singlePdePascal physAllocs.big = pdeBits singlePascal physAllocs.big := by
    simp [singlePdePascal]
  refine ⟨pdeBits singlePascal physAllocs.big, pdeBits_lt (by decide) _, ?_, ?_, fun hfits => ?_⟩
  · unfold makePdePascal entriesPerIndexPascal
    rw [if_neg hdepth, if_pos rfl, hbits]
  · exact get_pdeBits_of_disjoint (by decide) _
  · exact pdeBits_decode singlePascal_wellFormed hfits fun _ _ => rfl

theorem makePdePascal_dual (physAllocs : PhysAllocs) : DualRight physAllocs (makePdePascal physAllocs 3) := by
  have hbits : bigHalfPdePascal physAllocs.big ||| isPdePascal.num 0 = pdeBits bigPascal physAllocs.big := by
    simp [bigHalfPdePascal]
  refine ⟨pdeBits bigPascal physAllocs.big, pdeBits_lt (by decide) _,
    pdeBits smallPascal physAllocs.small, pdeBits_lt (by decide) _, ?_, ?_, fun hfits => ?_, fun hfits => ?_⟩
  · unfold makePdePascal
    rw [if_neg (by decide), hbits]
    rfl
  · exact get_pdeBits_of_disjoint (by decide) _
  · exact pdeBits_decode bigPascal_wellFormed hfits fun _ _ => rfl
  · exact pdeBits_decode smallPascal_wellFormed hfits fun _ _ => rfl

theorem makePdeKepler_right (physAllocs : PhysAllocs) (depth : ℕ) :
    KeplerRight physAllocs (makePdeKepler physAllocs depth) := by
  refine ⟨pdeBits bigKepler physAllocs.big ||| pdeBits smallKepler physAllocs.small, ?_, ?_, ?_,
    fun hfits => ?_, fun hfits => ?_⟩
  · exact Nat.or_lt_two_pow (pdeBits_lt (by decide) _) (pdeBits_lt (by decide) _)
  · simp [makePdeKepler, bigHalfPdeKepler, smallHalfPdeKepler]
  · rw [get_or, get_pdeBits_of_disjoint (by decide), get_pdeBits_of_disjoint (by decide)]
    rfl
  · -- the small half has no bit in the fields of the big one
    apply pdeBits_decode bigKepler_wellFormed hfits
    intro f hf
    have hother : ∀ f ∈ bigKepler.fields, ∀ g ∈ smallKepler.fields, f.Disjoint g := by decide
    rw [get_or, get_pdeBits_of_disjoint (hother f hf), Nat.or_zero]
  · apply pdeBits_decode smallKepler_wellFormed hfits
    intro f hf
    have hother : ∀ f ∈ smallKepler.fields, ∀ g ∈ bigKepler.fields, f.Disjoint g := by decide
    rw [get_or, get_pdeBits_of_disjoint (hother f hf), Nat.zero_or]

/-- Every entry reads back as what it was made from, and an unmapped entry is neither valid nor sparse. -/
theorem entries_decode : FormatsRight where
  ptesPascal aperture address prot vol pageSize hfits :=
    ⟨(makePtePascal_reads aperture address prot vol pageSize).decode hfits,
      makePtePascal_rest aperture address prot vol pageSize⟩
  ptesKepler aperture address prot vol pageSize hfits :=
    ⟨(makePteKepler_reads aperture address prot vol pageSize).decode hfits,
      makePteKepler_rest aperture address prot vol pageSize⟩
  singlePdes := makePdePascal_single
  dualPdes := makePdePascal_dual
  keplerPdes := makePdeKepler_right
  unmappedPascal := unmappedPtePascal_unmapped
  unmappedKepler := unmappedPteKepler_unmapped
  bigUnmappedPascal := by decide
  bigUnmappedKepler pageSize hbig := by
    unfold unmappedPteKepler
    rw [if_neg hbig]
    decide

end NvUvm.Mmu
