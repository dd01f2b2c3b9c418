import RiscvGpgpu.Golden.MemoryHierarchy
import RiscvGpgpu.Lib.Regions

/-!
# ELF32 headers

The header structures that both ELF loaders copy out of the image, little-endian. A field outside
the image reads as zero; both loaders check the size of the image first.
-/

namespace RiscvGpgpu.Host

open Golden (Byte)

/-- The little-endian number in `n` bytes of the image. -/
def readLe (image : List Byte) (offset n : ℕ) : ℕ :=
  ((image.drop offset).take n).foldr (fun b acc => b.toNat + 256 * acc) 0

/-- The fields of the ELF header that are read. -/
structure Elf32Header where
  eIdent : List Byte
  eMachine : ℕ
  eEntry : BitVec 32
  ePhoff : ℕ
  eShoff : ℕ
  ePhentsize : ℕ
  ePhnum : ℕ
  eShentsize : ℕ
  eShnum : ℕ

/-- The fields of a program header that are read. -/
structure Elf32ProgramHeader where
  pType : ℕ
  pOffset : ℕ
  pVaddr : BitVec 32
  pFilesz : BitVec 32
  pMemsz : BitVec 32
  pFlags : ℕ

/-- `sizeof(Elf32Header)`. -/
def elfHeaderSize : ℕ := 52

/-- `sizeof(Elf32ProgramHeader)`. -/
def programHeaderSize : ℕ := 32

/-- `PT_LOAD`. -/
def ptLoad : ℕ := 1

def readElfHeader (image : List Byte) : Elf32Header where
  eIdent := image.take 16
  eMachine := readLe image 18 2
  eEntry := BitVec.ofNat 32 (readLe image 24 4)
  ePhoff := readLe image 28 4
  eShoff := readLe image 32 4
  ePhentsize := readLe image 42 2
  ePhnum := readLe image 44 2
  eShentsize := readLe image 46 2
  eShnum := readLe image 48 2

def readProgramHeader (image : List Byte) (offset : ℕ) : Elf32ProgramHeader where
  pType := readLe image offset 4
  pOffset := readLe image (offset + 4) 4
  pVaddr := BitVec.ofNat 32 (readLe image (offset + 8) 4)
  pFilesz := BitVec.ofNat 32 (readLe image (offset + 16) 4)
  pMemsz := BitVec.ofNat 32 (readLe image (offset + 20) 4)
  pFlags := readLe image (offset + 24) 4

/-- `0x7F 'E' 'L' 'F'`. -/
def elfMagic : List Byte := [0x7F, 0x45, 0x4C, 0x46]

/-- `ELFCLASS32`. -/
def elfClass32 : Byte := 1

/-- Where program header `i` starts in the image. -/
def Elf32Header.programHeaderOffset (hdr : Elf32Header) (i : ℕ) : ℕ :=
  hdr.ePhoff + i * hdr.ePhentsize

/-! ## Segments -/

/-- The loadable segments with memory, by the offsets of the program headers. -/
def loadableSegments (image : List Byte) (offset : ℕ → ℕ) : List Elf32ProgramHeader :=
  ((List.range (readElfHeader image).ePhnum).map fun i => readProgramHeader image (offset i)).filter
    fun ph => ph.pType = ptLoad ∧ ph.pMemsz ≠ 0

/-- The addresses of the file bytes of a segment and of the zeros behind them. -/
def Elf32ProgramHeader.region (ph : Elf32ProgramHeader) : ℕ × ℕ :=
  (ph.pVaddr.toNat, max ph.pFilesz.toNat ph.pMemsz.toNat)

theorem contains_region {ph : Elf32ProgramHeader} {a : ℕ} :
    Regions.Contains ph.region a ↔
      ph.pVaddr.toNat ≤ a ∧ a < ph.pVaddr.toNat + max ph.pFilesz.toNat ph.pMemsz.toNat := Iff.rfl

/-- Byte `j` of a segment. -/
def segmentByte (image : List Byte) (ph : Elf32ProgramHeader) (j : ℕ) : Byte :=
  if j < ph.pFilesz.toNat then image.getD (ph.pOffset + j) 0 else 0

/-- No address belongs to two segments. -/
def DisjointSegments (phs : List Elf32ProgramHeader) : Prop :=
  phs.Pairwise fun ph ph' => Regions.Apart ph.region ph'.region

theorem mem_loadableSegments {image : List Byte} {offset : ℕ → ℕ} {ph : Elf32ProgramHeader} :
    ph ∈ loadableSegments image offset ↔
      (∃ i < (readElfHeader image).ePhnum, readProgramHeader image (offset i) = ph) ∧
        ph.pType = ptLoad ∧ ph.pMemsz ≠ 0 := by
  unfold loadableSegments
  rw [List.mem_filter, List.mem_map, decide_eq_true_iff]
  simp only [List.mem_range]

theorem DisjointSegments.apart {phs : List Elf32ProgramHeader} (h : DisjointSegments phs)
    {ph ph' : Elf32ProgramHeader} (hph : ph ∈ phs) (hph' : ph' ∈ phs) (hne : ph ≠ ph') :
    Regions.Apart ph.region ph'.region :=
  haveI : Std.Symm fun ph ph' : Elf32ProgramHeader => Regions.Apart ph.region ph'.region :=
    ⟨fun _ _ happart => happart.symm⟩
  List.Pairwise.forall h hph hph' hne

/-! ## Checked reads -/

/-- `n` bytes of the image, unless one of them is outside of it. -/
def fetchBytes (image : List Byte) (offset n : ℕ) : Option (List Byte) :=
  if offset + n ≤ image.length then some ((image.drop offset).take n) else none

theorem fetchBytes_of_le {image : List Byte} {offset n : ℕ} (h : offset + n ≤ image.length) :
    fetchBytes image offset n = some ((image.drop offset).take n) := if_pos h

theorem fetchBytes_of_lt {image : List Byte} {offset n : ℕ} (h : image.length < offset + n) :
    fetchBytes image offset n = none := if_neg (Nat.not_le.2 h)

theorem readLe_fetched (image : List Byte) {offset n o k : ℕ} (h : o + k ≤ n) :
    readLe ((image.drop offset).take n) o k = readLe image (offset + o) k := by
  unfold readLe
  rw [List.drop_take, List.take_take, List.drop_drop, Nat.min_eq_left (by omega)]

theorem readProgramHeader_fetched (image : List Byte) (offset : ℕ) :
    readProgramHeader ((image.drop offset).take programHeaderSize) 0 =
      readProgramHeader image offset := by
  unfold readProgramHeader programHeaderSize
  simp (disch := omega) only [readLe_fetched]
  rfl

theorem readElfHeader_fetched (image : List Byte) :
    readElfHeader ((image.drop 0).take elfHeaderSize) = readElfHeader image := by
  have hident : ((image.drop 0).take elfHeaderSize).take 16 = image.take 16 := by
    rw [List.take_take]
    rfl
  unfold readElfHeader
  rw [hident]
  unfold elfHeaderSize
  simp (disch := omega) only [readLe_fetched, Nat.zero_add]

end RiscvGpgpu.Host
