import RiscvGpgpu.Host.Elf32
import RiscvGpgpu.Lib.Calls

/-!
# The FPGA driver's device memory

`FpgaDriver` after `open`, and `loadElfToFpga`: a bump allocator over the mapped aperture, copies by
buffer address, and raw writes for the ELF loader. Sums of addresses and sizes are 64 bits wide. A
`memcpy` that leaves the mapping is undefined behaviour: the call has no result then.
-/

namespace RiscvGpgpu.Host

open Golden (Address Byte)

/-- What `mmap` has mapped: not empty, and inside the address range. -/
structure Aperture where
  memBase : Address
  memSize : BitVec 64
  memSize_pos : 0 < memSize.toNat
  fits : memBase.toNat + memSize.toNat < 2 ^ 64

structure FpgaDriver where
  /-- The mapped bytes. -/
  mem : ℕ → Byte
  nextAlloc : Address
  buffers : Address → Option (BitVec 64)
  /-- `REG_PC_INIT`. -/
  pcInit : BitVec 32

/-- `kDataHeapOffset`. -/
def dataHeapOffset : BitVec 64 := 16 * 1024 * 1024

/-- What a call returns, with what it leaves in its reference and pointer arguments. -/
structure FpgaResult where
  ok : Bool
  devAddr : Option Address
  data : List Byte
  deriving DecidableEq

namespace FpgaDriver

variable (K : Aperture)

/-- The driver after `open`, over memory with any content. -/
def opened (mem : ℕ → Byte) : FpgaDriver where
  mem := mem
  nextAlloc :=
    K.memBase + if dataHeapOffset < K.memSize / 2 then dataHeapOffset else K.memSize / 2
  buffers := fun _ => none
  pcInit := 0

/-- The place of an address in the mapping, unless the call reports it outside the aperture. -/
def memAt (devAddr size : BitVec 64) : Option ℕ :=
  if devAddr < K.memBase ∨ K.memBase + K.memSize < devAddr + size then none
  else some (devAddr - K.memBase).toNat

def failed : FpgaResult := ⟨false, none, []⟩
def succeeded : FpgaResult := ⟨true, none, []⟩

variable (d : FpgaDriver)

/-! ## Buffers -/

def allocateBuffer (size : BitVec 64) : FpgaResult × FpgaDriver :=
  if size = 0 then (failed, d)
  else
    let aligned := (size + 16 - 1) / 16 * 16
    if K.memBase + K.memSize < d.nextAlloc + aligned then (failed, d)
    else
      (⟨true, some d.nextAlloc, []⟩, { d with
        nextAlloc := d.nextAlloc + aligned
        buffers := Function.update d.buffers d.nextAlloc (some size) })

def freeBuffer (devAddr : Address) : FpgaResult × FpgaDriver :=
  match d.buffers devAddr with
  | none => (failed, d)
  | some _ => (succeeded, { d with buffers := Function.update d.buffers devAddr none })

/-! ## Raw access -/

/-- `memcpy` of `src` to a place of the mapping. -/
def memcpyTo (offset : ℕ) (src : ℕ → Byte) (size : ℕ) : FpgaDriver :=
  { d with mem := fun o => if offset ≤ o ∧ o < offset + size then src (o - offset) else d.mem o }

def memcpyFrom (offset size : ℕ) : List Byte := (List.range size).map fun i => d.mem (offset + i)

/-- `src` is the memory from `src_host` on. -/
def writeMem (devAddr : Address) (src : ℕ → Byte) (size : BitVec 64) : Option Bool × FpgaDriver :=
  match memAt K devAddr size with
  | none => (some false, d)
  | some offset =>
    if offset + size.toNat ≤ K.memSize.toNat then (some true, d.memcpyTo offset src size.toNat)
    else (none, d)

/-- The bytes read, or nothing where the call reports failure. -/
def readMem (devAddr : Address) (size : BitVec 64) : Option (Option (List Byte)) :=
  match memAt K devAddr size with
  | none => some none
  | some offset =>
    if offset + size.toNat ≤ K.memSize.toNat then some (some (d.memcpyFrom offset size.toNat))
    else none

/-! ## Copies -/

def copyToDevice (dst : Address) (src : ℕ → Byte) (size : BitVec 64) :
    Option FpgaResult × FpgaDriver :=
  match d.buffers dst with
  | none => (some failed, d)
  | some bufferSize =>
    if bufferSize < size then (some failed, d)
    else
      let (r, d') := d.writeMem K dst src size
      (r.map fun ok => ⟨ok, none, []⟩, d')

def copyFromDevice (src : Address) (size : BitVec 64) : Option FpgaResult × FpgaDriver :=
  match d.buffers src with
  | none => (some failed, d)
  | some bufferSize =>
    if bufferSize < size then (some failed, d)
    else
      ((d.readMem K src size).map fun
        | some data => ⟨true, none, data⟩
        | none => failed, d)

/-! ## Loading an ELF image -/

/-- `EM_RISCV`. -/
def emRiscv : ℕ := 243

/-- `kVerifyBytes`. -/
def verifyBytes : BitVec 32 := 16

/-- The checks of the image before the first segment. -/
def acceptsHeader (image : List Byte) : Bool :=
  let hdr := readElfHeader image
  elfHeaderSize ≤ image.length && hdr.eIdent.take 4 = elfMagic &&
    hdr.eIdent[4]? = some elfClass32 && hdr.eMachine = emRiscv && hdr.ePhoff ≠ 0 &&
    hdr.ePhnum ≠ 0

/-- A byte of the image. -/
def imageByte (image : List Byte) (i : ℕ) : Byte := image.getD i 0

/-- Go on unless a step has failed. -/
def andThen (r : Option Bool × FpgaDriver) (f : FpgaDriver → Option Bool × FpgaDriver) :
    Option Bool × FpgaDriver :=
  match r with
  | (some true, d) => f d
  | r => r

/-- The bytes of a segment that are in the file. -/
def writeFileBytes (image : List Byte) (ph : Elf32ProgramHeader) : Option Bool × FpgaDriver :=
  if ph.pFilesz = 0 then (some true, d)
  else d.writeMem K (ph.pVaddr.setWidth 64) (fun i => imageByte image (ph.pOffset + i))
    (ph.pFilesz.setWidth 64)

/-- The zeros behind them. The address is a 32-bit sum. -/
def writeZeros (ph : Elf32ProgramHeader) : Option Bool × FpgaDriver :=
  if ph.pMemsz ≤ ph.pFilesz then (some true, d)
  else d.writeMem K ((ph.pVaddr + ph.pFilesz).setWidth 64) (fun _ => 0)
    ((ph.pMemsz - ph.pFilesz).setWidth 64)

/-- The read-back of the first bytes. -/
def verifySegment (image : List Byte) (ph : Elf32ProgramHeader) : Option Bool :=
  let verify := if verifyBytes < ph.pFilesz then verifyBytes else ph.pFilesz
  if verify = 0 then some true
  else (d.readMem K (ph.pVaddr.setWidth 64) (verify.setWidth 64)).map fun
    | some readback =>
      readback = (List.range verify.toNat).map fun i => imageByte image (ph.pOffset + i)
    | none => false

/-- The transfer of one segment. -/
def loadSegment (image : List Byte) (ph : Elf32ProgramHeader) : Option Bool × FpgaDriver :=
  andThen (d.writeFileBytes K image ph) fun d =>
    andThen (d.writeZeros K ph) fun d => (d.verifySegment K image ph, d)

/-- The loop over the program headers, from a list of their numbers on. -/
def loadSegments (image : List Byte) : List ℕ → FpgaDriver → Option Bool × FpgaDriver
  | [], d => (some true, d)
  | i :: is, d =>
    let phOff := (readElfHeader image).programHeaderOffset i
    if image.length < phOff + programHeaderSize then (some false, d)
    else
      let ph := readProgramHeader image phOff
      if ph.pType ≠ ptLoad ∨ ph.pMemsz = 0 then loadSegments image is d
      else if image.length < ph.pOffset + ph.pFilesz.toNat then (some false, d)
      else andThen (d.loadSegment K image ph) (loadSegments image is)

def loadElfToFpga (image : List Byte) : Option FpgaResult × FpgaDriver :=
  if !acceptsHeader image then (some failed, d)
  else match loadSegments K image (List.range (readElfHeader image).ePhnum) d with
    | (some true, d) => (some succeeded, { d with pcInit := (readElfHeader image).eEntry })
    | (r, d) => (r.map fun _ => failed, d)

end FpgaDriver

/-! ## Sequences of calls -/

inductive FpgaCall where
  | allocateBuffer (size : BitVec 64)
  | freeBuffer (devAddr : Address)
  | copyToDevice (dst : Address) (src : ℕ → Byte) (size : BitVec 64)
  | copyFromDevice (src : Address) (size : BitVec 64)
  | loadElfToFpga (image : List Byte)

/-- A call without a result is undefined behaviour. -/
def FpgaCall.step (K : Aperture) : FpgaCall → FpgaDriver → Option FpgaResult × FpgaDriver
  | .allocateBuffer size, d => let (r, d) := d.allocateBuffer K size; (some r, d)
  | .freeBuffer devAddr, d => let (r, d) := d.freeBuffer devAddr; (some r, d)
  | .copyToDevice dst src size, d => d.copyToDevice K dst src size
  | .copyFromDevice src size, d => d.copyFromDevice K src size
  | .loadElfToFpga image, d => d.loadElfToFpga K image

end RiscvGpgpu.Host
