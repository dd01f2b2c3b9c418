import RiscvGpgpu.Host.Elf32

/-!
# The simulator's ELF loader

`elf_loader.cpp`: the loadable segments are written to the simulated memory, and the symbol table is
kept by name. A result of `none` is undefined behaviour: a product of header fields that does not
fit an `int`, or a read outside the image.
-/

namespace RiscvGpgpu.Bridge

open Golden (Byte MemoryHierarchy)
open Host

structure SymbolEntry where
  name : List Byte
  address : BitVec 32
  size : BitVec 32
deriving DecidableEq

/-- The fields of a section header that are read. -/
structure Elf32SectionHeader where
  shType : ℕ
  shOffset : BitVec 32
  shSize : BitVec 32
  shLink : ℕ
  shEntsize : BitVec 32

/-- The fields of a symbol that are read. -/
structure Elf32Symbol where
  stName : BitVec 32
  stValue : BitVec 32
  stSize : BitVec 32
  stInfo : ℕ

/-- `sizeof(Elf32_Shdr)`. -/
def sectionHeaderSize : ℕ := 40

/-- `sizeof(Elf32_Sym)`. -/
def symbolSize : ℕ := 16

/-- `SHT_SYMTAB`. -/
def shtSymtab : ℕ := 2

/-- `STT_FUNC`. -/
def sttFunc : ℕ := 2

/-- `STT_OBJECT`. -/
def sttObject : ℕ := 1

/-- `STB_GLOBAL`. -/
def stbGlobal : ℕ := 1

/-- `INT_MAX`. -/
def intMax : ℕ := 2 ^ 31 - 1

namespace ElfLoader

/-- The checks before anything is loaded. -/
def acceptsImage (image : List Byte) : Bool :=
  elfHeaderSize ≤ image.length && image.take 4 = elfMagic && image[4]? = some elfClass32

/-! ## Segments -/

/-- The bytes of a segment that are in the file, if they are, and the zeros behind them one by one.
Addresses are 32 bits wide. -/
def loadSegment (image : List Byte) (ph : Elf32ProgramHeader) (mem : MemoryHierarchy) :
    MemoryHierarchy :=
  let mem :=
    if ph.pFilesz ≠ 0 ∧ ph.pOffset + ph.pFilesz.toNat ≤ image.length then
      mem.writeBytes (ph.pVaddr.setWidth 64) ((image.drop ph.pOffset).take ph.pFilesz.toNat) 0
    else mem
  (List.range (ph.pMemsz.toNat - ph.pFilesz.toNat)).foldl (fun mem b =>
    mem.writeBytes ((ph.pVaddr + (ph.pFilesz + BitVec.ofNat 32 b)).setWidth 64) [0] 0) mem

/-- The loop over the program headers, from a list of their numbers on. -/
def loadSegments (image : List Byte) : List ℕ → MemoryHierarchy → Option MemoryHierarchy
  | [], mem => some mem
  | i :: is, mem =>
    let hdr := readElfHeader image
    if intMax < i * hdr.ePhentsize then none
    else
      -- the sum is 32 bits wide
      let off := (hdr.ePhoff + i * hdr.ePhentsize) % 2 ^ 32
      if image.length < off + programHeaderSize then some mem
      else
        let ph := readProgramHeader image off
        if ph.pType ≠ ptLoad ∨ ph.pMemsz = 0 then loadSegments image is mem
        else loadSegments image is (loadSegment image ph mem)

/-! ## Symbols -/

def readSectionHeader (image : List Byte) (offset : ℕ) : Elf32SectionHeader where
  shType := readLe image (offset + 4) 4
  shOffset := BitVec.ofNat 32 (readLe image (offset + 16) 4)
  shSize := BitVec.ofNat 32 (readLe image (offset + 20) 4)
  shLink := readLe image (offset + 24) 4
  shEntsize := BitVec.ofNat 32 (readLe image (offset + 36) 4)

def readSymbol (image : List Byte) (offset : ℕ) : Elf32Symbol where
  stName := BitVec.ofNat 32 (readLe image offset 4)
  stValue := BitVec.ofNat 32 (readLe image (offset + 4) 4)
  stSize := BitVec.ofNat 32 (readLe image (offset + 8) 4)
  stInfo := readLe image (offset + 12) 1

/-- The section headers; those from the first one outside the image on stay zero. -/
def readSectionHeaders (image : List Byte) : List ℕ → Option (List Elf32SectionHeader)
  | [] => some []
  | i :: is =>
    let hdr := readElfHeader image
    if intMax < i * hdr.eShentsize then none
    else
      let o := hdr.eShoff + i * hdr.eShentsize
      if image.length < o + sectionHeaderSize then
        some (List.replicate (is.length + 1) ⟨0, 0, 0, 0, 0⟩)
      else (readSectionHeaders image is).map (readSectionHeader image o :: ·)

/-- `std::string` of the bytes up to the next zero. -/
def cString (image : List Byte) (offset : ℕ) : Option (List Byte) :=
  let rest := image.drop offset
  if 0 ∈ rest then some (rest.takeWhile (· ≠ 0)) else none

/-- `symbols_[e.name] = e`, in the order of the names. -/
def insertSymbol (e : SymbolEntry) : List SymbolEntry → List SymbolEntry
  | [] => [e]
  | s :: ss =>
    if e.name < s.name then e :: s :: ss
    else if e.name = s.name then e :: ss
    else s :: insertSymbol e ss

/-- One turn of the loop over a symbol table. -/
def addSymbol (image : List Byte) (strtab : Elf32SectionHeader) (sym : Elf32Symbol)
    (symbols : List SymbolEntry) : Option (List SymbolEntry) :=
  let typ := sym.stInfo % 16
  let bind := sym.stInfo / 16
  if ¬ (typ = sttFunc ∨ typ = sttObject) ∧ ¬ (typ = 0 ∧ bind = stbGlobal) then some symbols
  else if sym.stValue = 0 then some symbols
  else if strtab.shOffset + strtab.shSize ≤ strtab.shOffset + sym.stName then some symbols
  else match cString image (strtab.shOffset.toNat + sym.stName.toNat) with
    | none => none
    | some [] => some symbols
    | some name => some (insertSymbol ⟨name, sym.stValue, sym.stSize⟩ symbols)

/-- The loop over a symbol table. Every turn but the last reads a further place of the image, so
that a loop which takes more turns than the image has bytes never ends. -/
def symbolLoop (image : List Byte) (symtab strtab : Elf32SectionHeader) (symEnt : BitVec 32) :
    ℕ → BitVec 32 → List SymbolEntry → Option (List SymbolEntry)
  | 0, _, _ => none
  | turns + 1, s, symbols =>
    if symtab.shSize < s + symEnt then some symbols
    else if image.length < symtab.shOffset.toNat + s.toNat + symbolSize then none
    else
      (addSymbol image strtab (readSymbol image (symtab.shOffset.toNat + s.toNat)) symbols).bind
        (symbolLoop image symtab strtab symEnt turns (s + symEnt))

/-- The symbol tables, from a list of sections on. -/
def readSymbols (image : List Byte) (shdrs : List Elf32SectionHeader) :
    List Elf32SectionHeader → List SymbolEntry → Option (List SymbolEntry)
  | [], symbols => some symbols
  | sh :: shs, symbols =>
    if sh.shType ≠ shtSymtab then readSymbols image shdrs shs symbols
    else match shdrs[sh.shLink]? with
      | none => readSymbols image shdrs shs symbols
      | some strtab =>
        let symEnt := if sh.shEntsize = 0 then BitVec.ofNat 32 symbolSize else sh.shEntsize
        (symbolLoop image sh strtab symEnt (image.length + 1) 0 symbols).bind
          (readSymbols image shdrs shs)

end ElfLoader

/-- What `load` leaves in the loader. -/
structure ElfLoader where
  entryPoint : BitVec 32
  /-- `symbols_`, in the order of the names. -/
  symbols : List SymbolEntry

namespace ElfLoader

/-- `load`, for an image that it accepts. -/
def load (image : List Byte) (mem : MemoryHierarchy) : Option (ElfLoader × MemoryHierarchy) := do
  let hdr := readElfHeader image
  let mem ← loadSegments image (List.range hdr.ePhnum) mem
  if hdr.eShoff = 0 ∨ hdr.eShnum = 0 then some (⟨hdr.eEntry, []⟩, mem)
  else
    let shdrs ← readSectionHeaders image (List.range hdr.eShnum)
    let symbols ← readSymbols image shdrs shdrs []
    some (⟨hdr.eEntry, symbols⟩, mem)

/-- The first symbol whose name contains `symbolName`. -/
def findSymbol (elf : ElfLoader) (symbolName : List Byte) : Option SymbolEntry :=
  elf.symbols.find? fun e => symbolName <:+: e.name

end ElfLoader

end RiscvGpgpu.Bridge
