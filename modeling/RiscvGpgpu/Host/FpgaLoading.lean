import RiscvGpgpu.Host.FpgaIsolation

/-!
# Loading an image into the FPGA

`loadElfToFpga` with its reference argument, and with every read of the image made by `fetchBytes`:
it never has a result that is undefined, so it stays in the image and in the aperture.
`LoadedToFpga` is what a load may do; it keeps to this unless zeros are to go behind the 32-bit
addresses, where the sum `p_vaddr + p_filesz` wraps around.
-/

namespace RiscvGpgpu.Host

open Golden (Address Byte)
open Regions (Contains)

namespace FpgaDriver

variable (K : Aperture)

/-! ## The loader with checked reads -/

def fetchFileBytes (image : List Byte) (ph : Elf32ProgramHeader) (d : FpgaDriver) :
    Option Bool × FpgaDriver :=
  if ph.pFilesz = 0 then (some true, d)
  else match fetchBytes image ph.pOffset ph.pFilesz.toNat with
    | none => (none, d)
    | some data =>
      d.writeMem K (ph.pVaddr.setWidth 64) (fun i => data.getD i 0) (ph.pFilesz.setWidth 64)

def fetchVerify (image : List Byte) (ph : Elf32ProgramHeader) (d : FpgaDriver) : Option Bool :=
  let verify := if verifyBytes < ph.pFilesz then verifyBytes else ph.pFilesz
  if verify = 0 then some true
  else match d.readMem K (ph.pVaddr.setWidth 64) (verify.setWidth 64) with
    | none => none
    | some none => some false
    | some (some readback) =>
      (fetchBytes image ph.pOffset verify.toNat).map fun data => readback = data

def fetchSegment (image : List Byte) (ph : Elf32ProgramHeader) (d : FpgaDriver) :
    Option Bool × FpgaDriver :=
  andThen (d.fetchFileBytes K image ph) fun d =>
    andThen (d.writeZeros K ph) fun d => (d.fetchVerify K image ph, d)

def fetchSegments (image : List Byte) (hdr : Elf32Header) :
    List ℕ → FpgaDriver → Option Bool × FpgaDriver
  | [], d => (some true, d)
  | i :: is, d =>
    let phOff := hdr.programHeaderOffset i
    if image.length < phOff + programHeaderSize then (some false, d)
    else match fetchBytes image phOff programHeaderSize with
      | none => (none, d)
      | some bytes =>
        let ph := readProgramHeader bytes 0
        if ph.pType ≠ ptLoad ∨ ph.pMemsz = 0 then fetchSegments image hdr is d
        else if image.length < ph.pOffset + ph.pFilesz.toNat then (some false, d)
        else andThen (d.fetchSegment K image ph) (fetchSegments image hdr is)

/-- What it returns, and what it leaves in `entry_point`. -/
def fetchElfToFpga (isOpen : Bool) (image : List Byte) (entryPoint : BitVec 32) (d : FpgaDriver) :
    Option (Bool × BitVec 32) × FpgaDriver :=
  if !isOpen then (some (false, entryPoint), d)
  else if image.length < elfHeaderSize then (some (false, entryPoint), d)
  else match fetchBytes image 0 elfHeaderSize with
    | none => (none, d)
    | some bytes =>
      let hdr := readElfHeader bytes
      if !acceptsHeader bytes then (some (false, entryPoint), d)
      else match fetchSegments K image hdr (List.range hdr.ePhnum) d with
        | (some true, d) => (some (true, hdr.eEntry), { d with pcInit := hdr.eEntry })
        | (some false, d) => (some (false, entryPoint), d)
        | (none, d) => (none, d)

/-! ## What a load may do -/

/-- The segments that are loaded. -/
def segments (image : List Byte) : List Elf32ProgramHeader :=
  loadableSegments image (readElfHeader image).programHeaderOffset

/-- The byte of device memory at an address of the aperture. -/
def deviceByte (d : FpgaDriver) (a : ℕ) : Option Byte :=
  if K.memBase.toNat ≤ a ∧ a < K.memBase.toNat + K.memSize.toNat then
    some (d.mem (a - K.memBase.toNat))
  else none

/-- A load from `d`, with `entryPoint` in its reference argument, had the result `r`. -/
structure LoadedToFpga (image : List Byte) (entryPoint : BitVec 32) (d : FpgaDriver)
    (r : Option (Bool × BitVec 32) × FpgaDriver) : Prop where
  /-- No access has left the image or the aperture. -/
  inside : r.1 ≠ none
  fails : ∀ entry, r.1 = some (false, entry) → entry = entryPoint ∧ r.2.pcInit = d.pcInit
  enters : ∀ entry, r.1 = some (true, entry) →
    entry = (readElfHeader image).eEntry ∧ r.2.pcInit = (readElfHeader image).eEntry
  file : ∀ entry, r.1 = some (true, entry) → ∀ ph ∈ segments image, ∀ j < ph.pFilesz.toNat,
    ∃ b, image[ph.pOffset + j]? = some b ∧ deviceByte K r.2 (ph.pVaddr.toNat + j) = some b
  zeros : ∀ entry, r.1 = some (true, entry) → ∀ ph ∈ segments image, ∀ j,
    ph.pFilesz.toNat ≤ j → j < ph.pMemsz.toNat →
      deviceByte K r.2 (ph.pVaddr.toNat + j) = some 0
  other : ∀ entry, r.1 = some (true, entry) → ∀ a,
    (∀ ph ∈ segments image, ¬ Contains ph.region a) → deviceByte K r.2 a = deviceByte K d a

/-- Every load of the image does so, if its segments are apart. -/
def LoadsToFpga (image : List Byte) : Prop :=
  DisjointSegments (segments image) → ∀ isOpen entryPoint d,
    LoadedToFpga K image entryPoint d (d.fetchElfToFpga K isOpen image entryPoint)

/-- The two writes of a segment are in the aperture. -/
structure SegmentInAperture (ph : Elf32ProgramHeader) : Prop where
  file : ph.pFilesz ≠ 0 → InAperture K ph.pVaddr.toNat ph.pFilesz.toNat
  zeros : ph.pFilesz < ph.pMemsz →
    InAperture K (ph.pVaddr + ph.pFilesz).toNat (ph.pMemsz.toNat - ph.pFilesz.toNat)

/-- The header is accepted, the program headers and the data are in the image, and what is written
is in the aperture. -/
structure Loadable (image : List Byte) : Prop where
  header : acceptsHeader image = true
  headers : ∀ i < (readElfHeader image).ePhnum,
    (readElfHeader image).programHeaderOffset i + programHeaderSize ≤ image.length
  data : ∀ ph ∈ segments image, ph.pOffset + ph.pFilesz.toNat ≤ image.length
  aperture : ∀ ph ∈ segments image, SegmentInAperture K ph

variable {K}

/-! ## The checked reads stay in the image -/

theorem memcpyTo_congr {d : FpgaDriver} {offset size : ℕ} {src src' : ℕ → Byte}
    (h : ∀ i < size, src i = src' i) :
    d.memcpyTo offset src size = d.memcpyTo offset src' size := by
  unfold memcpyTo
  refine congrArg (fun mem => { d with mem := mem }) (funext fun o => ?_)
  split_ifs with ho
  · exact h _ (by omega)
  · rfl

theorem writeMem_congr {d : FpgaDriver} {a size : BitVec 64} {src src' : ℕ → Byte}
    (h : ∀ i < size.toNat, src i = src' i) :
    d.writeMem K a src size = d.writeMem K a src' size := by
  unfold writeMem
  cases memAt K a size with
  | none => rfl
  | some offset =>
    dsimp only
    rw [memcpyTo_congr h]

theorem toNat_setWidth_64 (a : BitVec 32) : (a.setWidth 64).toNat = a.toNat := by
  rw [BitVec.toNat_setWidth, Nat.mod_eq_of_lt (by omega)]

theorem fetchFileBytes_eq {image : List Byte} {ph : Elf32ProgramHeader}
    (h : ph.pOffset + ph.pFilesz.toNat ≤ image.length) (d : FpgaDriver) :
    d.fetchFileBytes K image ph = d.writeFileBytes K image ph := by
  unfold fetchFileBytes writeFileBytes
  split_ifs
  · rfl
  · rw [fetchBytes_of_le h]
    refine writeMem_congr ?_
    intro i hi
    rw [toNat_setWidth_64] at hi
    rw [imageByte, List.getD_eq_getElem?_getD, List.getD_eq_getElem?_getD,
      List.getElem?_take_of_lt hi, List.getElem?_drop]

theorem take_drop_eq_map {image : List Byte} {offset n : ℕ} (h : offset + n ≤ image.length) :
    (image.drop offset).take n = (List.range n).map fun i => imageByte image (offset + i) := by
  refine List.ext_getElem (by simp; omega) ?_
  intro i hi _
  have hlt : i < n := lt_of_lt_of_le hi (List.length_take_le _ _)
  rw [List.getElem_take, List.getElem_drop, List.getElem_map, List.getElem_range, imageByte,
    List.getD_eq_getElem?_getD, List.getElem?_eq_getElem (by omega), Option.getD_some]

theorem fetchVerify_eq {image : List Byte} {ph : Elf32ProgramHeader}
    (h : ph.pOffset + ph.pFilesz.toNat ≤ image.length) (d : FpgaDriver) :
    d.fetchVerify K image ph = d.verifySegment K image ph := by
  have hle : (if verifyBytes < ph.pFilesz then verifyBytes else ph.pFilesz).toNat ≤
      ph.pFilesz.toNat := by
    split_ifs with hlt
    · exact BitVec.le_of_lt hlt
    · exact le_rfl
  unfold fetchVerify verifySegment
  dsimp only
  generalize (if verifyBytes < ph.pFilesz then verifyBytes else ph.pFilesz) = verify at hle ⊢
  split_ifs
  · rfl
  · cases d.readMem K (ph.pVaddr.setWidth 64) (verify.setWidth 64) with
    | none => rfl
    | some r =>
      cases r with
      | none => rfl
      | some readback =>
        dsimp only
        rw [fetchBytes_of_le (by omega), take_drop_eq_map (by omega)]
        rfl

theorem fetchSegment_eq {image : List Byte} {ph : Elf32ProgramHeader}
    (h : ph.pOffset + ph.pFilesz.toNat ≤ image.length) (d : FpgaDriver) :
    d.fetchSegment K image ph = d.loadSegment K image ph := by
  unfold fetchSegment loadSegment
  rw [fetchFileBytes_eq h]
  refine congrArg (andThen _) (funext fun d' => ?_)
  refine congrArg (andThen _) (funext fun d'' => ?_)
  rw [fetchVerify_eq h]

theorem fetchSegments_eq (image : List Byte) (is : List ℕ) (d : FpgaDriver) :
    d.fetchSegments K image (readElfHeader image) is = loadSegments K image is d := by
  induction is generalizing d with
  | nil => rfl
  | cons i is ih =>
    unfold fetchSegments loadSegments
    dsimp only
    split_ifs with hbound hskip hdata
    · rfl
    · rw [fetchBytes_of_le (Nat.not_lt.1 hbound)]
      dsimp only
      rw [readProgramHeader_fetched, if_pos hskip]
      exact ih d
    · rw [fetchBytes_of_le (Nat.not_lt.1 hbound)]
      dsimp only
      rw [readProgramHeader_fetched, if_neg hskip, if_pos hdata]
    · rw [fetchBytes_of_le (Nat.not_lt.1 hbound)]
      dsimp only
      rw [readProgramHeader_fetched, if_neg hskip, if_neg hdata,
        fetchSegment_eq (Nat.not_lt.1 hdata), funext ih]

theorem acceptsHeader_fetched {image : List Byte} (h : elfHeaderSize ≤ image.length) :
    acceptsHeader ((image.drop 0).take elfHeaderSize) = acceptsHeader image := by
  unfold acceptsHeader
  rw [readElfHeader_fetched, List.drop_zero, List.length_take, Nat.min_eq_left h, decide_eq_true h,
    decide_eq_true le_rfl]

/-- The reference argument of a load that ends so. -/
def entryAfter (image : List Byte) (entryPoint : BitVec 32) (r : FpgaResult) : Bool × BitVec 32 :=
  (r.ok, if r.ok then (readElfHeader image).eEntry else entryPoint)

/-- The loader of an open driver is `loadElfToFpga`. -/
theorem fetchElfToFpga_eq (image : List Byte) (entryPoint : BitVec 32) (d : FpgaDriver) :
    d.fetchElfToFpga K true image entryPoint =
      ((d.loadElfToFpga K image).1.map (entryAfter image entryPoint),
        (d.loadElfToFpga K image).2) := by
  unfold fetchElfToFpga loadElfToFpga
  rw [if_neg (by decide)]
  by_cases hsize : image.length < elfHeaderSize
  · have hnot : acceptsHeader image = false := by
      unfold acceptsHeader
      rw [decide_eq_false (Nat.not_le.2 hsize)]
      rfl
    rw [if_pos hsize, hnot]
    rfl
  · have hinside := Nat.not_lt.1 hsize
    rw [if_neg hsize, fetchBytes_of_le (by omega)]
    dsimp only
    rw [acceptsHeader_fetched hinside, readElfHeader_fetched, fetchSegments_eq]
    split_ifs
    · rfl
    · rcases loadSegments K image (List.range (readElfHeader image).ePhnum) d with ⟨r, d'⟩
      cases r with
      | none => rfl
      | some ok => cases ok <;> rfl

/-! ## One segment -/

/-- The two writes of a segment. -/
def storeFile (K : Aperture) (image : List Byte) (ph : Elf32ProgramHeader) (d : FpgaDriver) :
    FpgaDriver :=
  d.memcpyTo (ph.pVaddr.toNat - K.memBase.toNat) (fun i => imageByte image (ph.pOffset + i))
    ph.pFilesz.toNat

def storeZeros (K : Aperture) (ph : Elf32ProgramHeader) (d : FpgaDriver) : FpgaDriver :=
  d.memcpyTo ((ph.pVaddr + ph.pFilesz).toNat - K.memBase.toNat) (fun _ => 0)
    (ph.pMemsz.toNat - ph.pFilesz.toNat)

def storeSegment (K : Aperture) (image : List Byte) (d : FpgaDriver) (ph : Elf32ProgramHeader) :
    FpgaDriver :=
  storeZeros K ph (storeFile K image ph d)

theorem memcpyTo_zero (d : FpgaDriver) (offset : ℕ) (src : ℕ → Byte) :
    d.memcpyTo offset src 0 = d := by
  unfold memcpyTo
  have hmem :
      (fun o => if offset ≤ o ∧ o < offset + 0 then src (o - offset) else d.mem o) = d.mem :=
    funext fun o => if_neg (by omega)
  rw [hmem]

/-- A write of 32-bit fields succeeds in the aperture, and does nothing outside of it. -/
theorem writeMem_fields (d : FpgaDriver) (a size : BitVec 32) (src : ℕ → Byte) :
    InAperture K a.toNat size.toNat ∧ d.writeMem K (a.setWidth 64) src (size.setWidth 64) =
        (some true, d.memcpyTo (a.toNat - K.memBase.toNat) src size.toNat) ∨
      ¬ InAperture K a.toNat size.toNat ∧
        d.writeMem K (a.setWidth 64) src (size.setWidth 64) = (some false, d) := by
  have hend : (a.setWidth 64).toNat + (size.setWidth 64).toNat < 2 ^ 64 := by
    rw [toNat_setWidth_64, toNat_setWidth_64]
    omega
  have hcases := writeMem_cases (K := K) (d := d) src hend
  rw [toNat_setWidth_64, toNat_setWidth_64] at hcases
  rcases hcases with ⟨heq, hout⟩ | ⟨heq, hin⟩
  · exact .inr ⟨hout, heq⟩
  · exact .inl ⟨hin, heq⟩

theorem writeFileBytes_cases (image : List Byte) (ph : Elf32ProgramHeader) (d : FpgaDriver) :
    (ph.pFilesz ≠ 0 → InAperture K ph.pVaddr.toNat ph.pFilesz.toNat) ∧
        d.writeFileBytes K image ph = (some true, storeFile K image ph d) ∨
      ¬ (ph.pFilesz ≠ 0 → InAperture K ph.pVaddr.toNat ph.pFilesz.toNat) ∧
        d.writeFileBytes K image ph = (some false, d) := by
  unfold writeFileBytes storeFile
  split_ifs with hsize
  · left
    have hnone : ph.pFilesz.toNat = 0 := congrArg BitVec.toNat hsize
    exact ⟨fun h => absurd hsize h, by rw [hnone, memcpyTo_zero]⟩
  · rcases d.writeMem_fields (K := K) ph.pVaddr ph.pFilesz
      (fun i => imageByte image (ph.pOffset + i)) with ⟨hin, heq⟩ | ⟨hout, heq⟩
    · exact .inl ⟨fun _ => hin, heq⟩
    · exact .inr ⟨fun h => hout (h hsize), heq⟩

theorem writeZeros_cases (ph : Elf32ProgramHeader) (d : FpgaDriver) :
    (ph.pFilesz < ph.pMemsz →
        InAperture K (ph.pVaddr + ph.pFilesz).toNat (ph.pMemsz.toNat - ph.pFilesz.toNat)) ∧
        d.writeZeros K ph = (some true, storeZeros K ph d) ∨
      ¬ (ph.pFilesz < ph.pMemsz →
        InAperture K (ph.pVaddr + ph.pFilesz).toNat (ph.pMemsz.toNat - ph.pFilesz.toNat)) ∧
        d.writeZeros K ph = (some false, d) := by
  unfold writeZeros storeZeros
  split_ifs with hle
  · left
    have hnone : ph.pMemsz.toNat - ph.pFilesz.toNat = 0 := Nat.sub_eq_zero_of_le hle
    exact ⟨fun hlt => absurd hle (BitVec.not_le.2 hlt), by rw [hnone, memcpyTo_zero]⟩
  · have hlt := BitVec.not_le.1 hle
    have hsize : (ph.pMemsz - ph.pFilesz).toNat = ph.pMemsz.toNat - ph.pFilesz.toNat :=
      BitVec.toNat_sub_of_le (BitVec.le_of_lt hlt)
    have hcases := d.writeMem_fields (K := K) (ph.pVaddr + ph.pFilesz) (ph.pMemsz - ph.pFilesz)
      fun _ => 0
    rw [hsize] at hcases
    rcases hcases with ⟨hin, heq⟩ | ⟨hout, heq⟩
    · exact .inl ⟨fun _ => hin, heq⟩
    · exact .inr ⟨fun h => hout (h hlt), heq⟩

/-- The addresses of the file bytes, and those that the zeros are written to. -/
def fileRange (ph : Elf32ProgramHeader) : ℕ × ℕ := (ph.pVaddr.toNat, ph.pFilesz.toNat)

def zeroRange (ph : Elf32ProgramHeader) : ℕ × ℕ :=
  ((ph.pVaddr + ph.pFilesz).toNat, ph.pMemsz.toNat - ph.pFilesz.toNat)

theorem contains_fileRange {ph : Elf32ProgramHeader} {a : ℕ} : Contains (fileRange ph) a ↔
    ph.pVaddr.toNat ≤ a ∧ a < ph.pVaddr.toNat + ph.pFilesz.toNat := Iff.rfl

theorem deviceByte_memcpyTo {d : FpgaDriver} {a size : ℕ} {src : ℕ → Byte}
    (hin : size ≠ 0 → InAperture K a size) {b : ℕ} (hb : Contains (a, size) b) :
    deviceByte K (d.memcpyTo (a - K.memBase.toNat) src size) b = some (src (b - a)) := by
  obtain ⟨hle, hlt⟩ : a ≤ b ∧ b < a + size := hb
  obtain ⟨hlo, hhi⟩ := hin (by omega)
  have hplace : b - K.memBase.toNat - (a - K.memBase.toNat) = b - a := by omega
  unfold deviceByte memcpyTo
  rw [if_pos (by omega), ← hplace]
  exact congrArg some (if_pos (by omega))

theorem deviceByte_memcpyTo_of_not {d : FpgaDriver} {a size : ℕ} {src : ℕ → Byte}
    (hin : size ≠ 0 → InAperture K a size) {b : ℕ} (hb : ¬ Contains (a, size) b) :
    deviceByte K (d.memcpyTo (a - K.memBase.toNat) src size) b = deviceByte K d b := by
  unfold deviceByte memcpyTo
  split_ifs with hap
  · refine congrArg some (if_neg ?_)
    rintro ⟨hle, hlt⟩
    obtain ⟨hlo, -⟩ := hin (by omega)
    exact hb ⟨by omega, by omega⟩
  · rfl

theorem toNat_ne_zero {a : BitVec 32} (h : a.toNat ≠ 0) : a ≠ 0 := by
  rintro rfl
  exact h rfl

theorem SegmentInAperture.fileRange {ph : Elf32ProgramHeader} (h : SegmentInAperture K ph) :
    ph.pFilesz.toNat ≠ 0 → InAperture K ph.pVaddr.toNat ph.pFilesz.toNat :=
  fun hsize => h.file (toNat_ne_zero hsize)

theorem SegmentInAperture.zeroRange {ph : Elf32ProgramHeader} (h : SegmentInAperture K ph) :
    ph.pMemsz.toNat - ph.pFilesz.toNat ≠ 0 →
      InAperture K (ph.pVaddr + ph.pFilesz).toNat (ph.pMemsz.toNat - ph.pFilesz.toNat) :=
  fun hsize => h.zeros (BitVec.lt_def.2 (by omega))

/-- The zeros follow the file bytes, or they are below the segment. -/
theorem zeroRange_cases {ph : Elf32ProgramHeader} {a : ℕ} (ha : Contains (zeroRange ph) a) :
    ph.pVaddr.toNat + ph.pFilesz.toNat < 2 ^ 32 ∧ ph.pVaddr.toNat + ph.pFilesz.toNat ≤ a ∧
        a < ph.pVaddr.toNat + ph.pMemsz.toNat ∨
      2 ^ 32 ≤ ph.pVaddr.toNat + ph.pFilesz.toNat ∧ a < ph.pVaddr.toNat := by
  obtain ⟨hle, hlt⟩ : (ph.pVaddr + ph.pFilesz).toNat ≤ a ∧
    a < (ph.pVaddr + ph.pFilesz).toNat + (ph.pMemsz.toNat - ph.pFilesz.toNat) := ha
  rw [BitVec.toNat_add] at hle hlt
  have hvaddr := ph.pVaddr.isLt
  have hfilesz := ph.pFilesz.isLt
  have hmemsz := ph.pMemsz.isLt
  omega

theorem deviceByte_storeSegment_file (image : List Byte) {ph : Elf32ProgramHeader}
    (d : FpgaDriver) (h : SegmentInAperture K ph) {a : ℕ} (ha : Contains (fileRange ph) a) :
    deviceByte K (storeSegment K image d ph) a =
      some (imageByte image (ph.pOffset + (a - ph.pVaddr.toNat))) := by
  unfold storeSegment storeZeros storeFile
  rw [deviceByte_memcpyTo_of_not h.zeroRange, deviceByte_memcpyTo h.fileRange ha]
  -- even where the address of the zeros wraps around, they do not meet the file bytes
  intro hzero
  obtain ⟨hle, hlt⟩ := contains_fileRange.1 ha
  have hcases := zeroRange_cases hzero
  omega

theorem deviceByte_storeSegment_zeros {image : List Byte} {ph : Elf32ProgramHeader}
    {d : FpgaDriver} (h : SegmentInAperture K ph) {a : ℕ} (ha : Contains (zeroRange ph) a) :
    deviceByte K (storeSegment K image d ph) a = some 0 := by
  unfold storeSegment storeZeros
  rw [deviceByte_memcpyTo h.zeroRange ha]

theorem deviceByte_storeSegment_of_not {image : List Byte} {ph : Elf32ProgramHeader}
    {d : FpgaDriver} (h : SegmentInAperture K ph) {a : ℕ} (hfile : ¬ Contains (fileRange ph) a)
    (hzeros : ¬ Contains (zeroRange ph) a) :
    deviceByte K (storeSegment K image d ph) a = deviceByte K d a := by
  unfold storeSegment storeZeros storeFile
  rw [deviceByte_memcpyTo_of_not h.zeroRange hzeros, deviceByte_memcpyTo_of_not h.fileRange hfile]

theorem deviceByte_inAperture {d : FpgaDriver} {a size i : ℕ} (h : InAperture K a size)
    (hi : i < size) : deviceByte K d (a + i) = some (d.mem (a - K.memBase.toNat + i)) := by
  obtain ⟨hlo, hhi⟩ := h
  unfold deviceByte
  rw [if_pos (by omega), Nat.sub_add_comm hlo]

theorem verifySegment_stored {image : List Byte} {ph : Elf32ProgramHeader}
    (h : SegmentInAperture K ph) (d : FpgaDriver) :
    (storeSegment K image d ph).verifySegment K image ph = some true := by
  have hle : (if verifyBytes < ph.pFilesz then verifyBytes else ph.pFilesz).toNat ≤
      ph.pFilesz.toNat := by
    split_ifs with hlt
    · exact BitVec.le_of_lt hlt
    · exact le_rfl
  unfold verifySegment
  dsimp only
  generalize (if verifyBytes < ph.pFilesz then verifyBytes else ph.pFilesz) = verify at hle ⊢
  split_ifs with hverify
  · rfl
  · have hpos : verify.toNat ≠ 0 := fun h0 => hverify (BitVec.eq_of_toNat_eq h0)
    have hin := h.fileRange (by omega)
    have hend : (ph.pVaddr.setWidth 64).toNat + (verify.setWidth 64).toNat < 2 ^ 64 := by
      rw [toNat_setWidth_64, toNat_setWidth_64]
      omega
    rcases readMem_eq (K := K) (d := storeSegment K image d ph) hend with ⟨-, hout⟩ | ⟨heq, -⟩
    · rw [toNat_setWidth_64, toNat_setWidth_64] at hout
      obtain ⟨hlo, hhi⟩ := hin
      exact absurd ⟨hlo, by omega⟩ hout
    · rw [heq, toNat_setWidth_64, toNat_setWidth_64]
      refine congrArg some (decide_eq_true (List.map_congr_left ?_))
      intro i hi
      have hlt := lt_of_lt_of_le (List.mem_range.1 hi) hle
      have hbyte := deviceByte_storeSegment_file image d h
        (a := ph.pVaddr.toNat + i) ⟨Nat.le_add_right _ _, Nat.add_lt_add_left hlt _⟩
      rw [deviceByte_inAperture hin hlt, Nat.add_sub_cancel_left] at hbyte
      exact Option.some.inj hbyte

/-- A segment is stored where it is in the aperture, and turned down where it is not. -/
theorem loadSegment_cases (image : List Byte) (ph : Elf32ProgramHeader) (d : FpgaDriver) :
    SegmentInAperture K ph ∧ d.loadSegment K image ph = (some true, storeSegment K image d ph) ∨
      ¬ SegmentInAperture K ph ∧ ∃ d', d.loadSegment K image ph = (some false, d') ∧
        d'.pcInit = d.pcInit := by
  unfold loadSegment
  rcases d.writeFileBytes_cases (K := K) image ph with ⟨hfile, heq⟩ | ⟨hfile, heq⟩
  · rw [heq]
    rcases (storeFile K image ph d).writeZeros_cases (K := K) ph with
      ⟨hzeros, heq'⟩ | ⟨hzeros, heq'⟩
    · left
      have hin : SegmentInAperture K ph := ⟨hfile, hzeros⟩
      refine ⟨hin, ?_⟩
      show andThen ((storeFile K image ph d).writeZeros K ph) _ = _
      rw [heq']
      show (verifySegment K (storeSegment K image d ph) image ph, storeSegment K image d ph) = _
      rw [verifySegment_stored hin]
    · right
      refine ⟨fun h => hzeros h.zeros, storeFile K image ph d, ?_, rfl⟩
      show andThen ((storeFile K image ph d).writeZeros K ph) _ = _
      rw [heq']
      rfl
  · right
    refine ⟨fun h => hfile h.file, d, ?_, rfl⟩
    rw [heq]
    rfl

/-! ## The whole image -/

/-- The segments of a list of program headers. -/
def segmentsOf (image : List Byte) (is : List ℕ) : List Elf32ProgramHeader :=
  (is.map fun i => readProgramHeader image ((readElfHeader image).programHeaderOffset i)).filter
    fun ph => ph.pType = ptLoad ∧ ph.pMemsz ≠ 0

/-- What `loadSegments` asks of them. -/
structure LoadableFrom (K : Aperture) (image : List Byte) (is : List ℕ) : Prop where
  headers : ∀ i ∈ is, (readElfHeader image).programHeaderOffset i + programHeaderSize ≤ image.length
  data : ∀ ph ∈ segmentsOf image is, ph.pOffset + ph.pFilesz.toNat ≤ image.length
  aperture : ∀ ph ∈ segmentsOf image is, SegmentInAperture K ph

theorem segmentsOf_cons_skip {image : List Byte} {i : ℕ} (is : List ℕ)
    (h : (readProgramHeader image ((readElfHeader image).programHeaderOffset i)).pType ≠ ptLoad ∨
      (readProgramHeader image ((readElfHeader image).programHeaderOffset i)).pMemsz = 0) :
    segmentsOf image (i :: is) = segmentsOf image is := by
  unfold segmentsOf
  rw [List.map_cons, List.filter_cons_of_neg]
  rw [decide_eq_true_iff]
  rintro ⟨htype, hmemsz⟩
  exact h.elim (fun hne => hne htype) hmemsz

theorem segmentsOf_cons_load {image : List Byte} {i : ℕ} (is : List ℕ)
    (h : ¬ ((readProgramHeader image ((readElfHeader image).programHeaderOffset i)).pType ≠ ptLoad ∨
      (readProgramHeader image ((readElfHeader image).programHeaderOffset i)).pMemsz = 0)) :
    segmentsOf image (i :: is) =
      readProgramHeader image ((readElfHeader image).programHeaderOffset i) ::
        segmentsOf image is := by
  unfold segmentsOf
  rw [List.map_cons, List.filter_cons_of_pos]
  rw [decide_eq_true_iff]
  exact ⟨not_not.1 (not_or.1 h).1, (not_or.1 h).2⟩

/-- The loop stores every segment, or it stops at the first one that is not in order. -/
theorem loadSegments_cases (image : List Byte) (is : List ℕ) (d : FpgaDriver) :
    LoadableFrom K image is ∧ loadSegments K image is d =
        (some true, (segmentsOf image is).foldl (storeSegment K image) d) ∨
      ¬ LoadableFrom K image is ∧ ∃ d', loadSegments K image is d = (some false, d') ∧
        d'.pcInit = d.pcInit := by
  induction is generalizing d with
  | nil => exact .inl ⟨⟨by simp, by simp [segmentsOf], by simp [segmentsOf]⟩, rfl⟩
  | cons i is ih =>
    unfold loadSegments
    dsimp only
    split_ifs with hbound hskip hdata
    · right
      refine ⟨fun h => ?_, d, rfl, rfl⟩
      have hheader := h.headers i (List.mem_cons_self ..)
      omega
    · have hsame := segmentsOf_cons_skip is hskip
      rcases ih d with ⟨h, heq⟩ | ⟨h, heq⟩
      · left
        refine ⟨⟨List.forall_mem_cons.2 ⟨Nat.not_lt.1 hbound, h.headers⟩, ?_, ?_⟩, ?_⟩
        · rw [hsame]
          exact h.data
        · rw [hsame]
          exact h.aperture
        · rw [hsame]
          exact heq
      · right
        refine ⟨fun hall => h ⟨?_, ?_, ?_⟩, heq⟩
        · exact (List.forall_mem_cons.1 hall.headers).2
        · exact hsame ▸ hall.data
        · exact hsame ▸ hall.aperture
    · right
      refine ⟨fun h => ?_, d, rfl, rfl⟩
      have hinside := h.data _ (segmentsOf_cons_load is hskip ▸ List.mem_cons_self ..)
      omega
    · have hcons := segmentsOf_cons_load is hskip
      set ph := readProgramHeader image ((readElfHeader image).programHeaderOffset i)
      rcases d.loadSegment_cases (K := K) image ph with ⟨hin, heq⟩ | ⟨hin, d', heq, hpc⟩
      · rw [heq]
        rcases ih (storeSegment K image d ph) with ⟨h, heq'⟩ | ⟨h, heq'⟩
        · left
          refine ⟨⟨List.forall_mem_cons.2 ⟨Nat.not_lt.1 hbound, h.headers⟩, ?_, ?_⟩, ?_⟩
          · rw [hcons]
            exact List.forall_mem_cons.2 ⟨Nat.not_lt.1 hdata, h.data⟩
          · rw [hcons]
            exact List.forall_mem_cons.2 ⟨hin, h.aperture⟩
          · rw [hcons]
            exact heq'
        · right
          refine ⟨fun hall => h ⟨?_, ?_, ?_⟩, heq'⟩
          · exact (List.forall_mem_cons.1 hall.headers).2
          · exact (List.forall_mem_cons.1 (hcons ▸ hall.data)).2
          · exact (List.forall_mem_cons.1 (hcons ▸ hall.aperture)).2
      · right
        rw [heq]
        refine ⟨fun h => hin (h.aperture ph (hcons ▸ List.mem_cons_self ..)), d', rfl, hpc⟩

theorem loadable_iff {image : List Byte} : Loadable K image ↔
    acceptsHeader image = true ∧
      LoadableFrom K image (List.range (readElfHeader image).ePhnum) := by
  constructor
  · intro h
    exact ⟨h.header, fun i hi => h.headers i (List.mem_range.1 hi), h.data, h.aperture⟩
  · rintro ⟨hheader, h⟩
    exact ⟨hheader, fun i hi => h.headers i (List.mem_range.2 hi), h.data, h.aperture⟩

/-- A load stores every segment and sets both entry points, or it fails and sets neither. -/
theorem fetchElfToFpga_cases (isOpen : Bool) (image : List Byte) (entryPoint : BitVec 32)
    (d : FpgaDriver) :
    (isOpen = true ∧ Loadable K image) ∧ d.fetchElfToFpga K isOpen image entryPoint =
        (some (true, (readElfHeader image).eEntry),
          { (segments image).foldl (storeSegment K image) d with
            pcInit := (readElfHeader image).eEntry }) ∨
      ¬ (isOpen = true ∧ Loadable K image) ∧ ∃ d',
        d.fetchElfToFpga K isOpen image entryPoint = (some (false, entryPoint), d') ∧
          d'.pcInit = d.pcInit := by
  cases isOpen with
  | false => exact .inr ⟨fun h => absurd h.1 Bool.false_ne_true, d, rfl, rfl⟩
  | true =>
    rw [fetchElfToFpga_eq, loadable_iff]
    unfold loadElfToFpga
    cases haccepts : acceptsHeader image with
    | false => exact .inr ⟨fun h => absurd h.2.1 Bool.false_ne_true, d, rfl, rfl⟩
    | true =>
      rw [if_neg (by decide)]
      rcases loadSegments_cases (K := K) image (List.range (readElfHeader image).ePhnum) d with
        ⟨h, heq⟩ | ⟨h, d', heq, hpc⟩
      · rw [heq]
        exact .inl ⟨⟨rfl, rfl, h⟩, rfl⟩
      · rw [heq]
        exact .inr ⟨fun hall => h hall.2.2, d', rfl, hpc⟩

/-! ## Where the zeros go -/

/-- The zeros of the segment, if it has any, start below 2^32. -/
def ZerosFit (ph : Elf32ProgramHeader) : Prop :=
  ph.pFilesz < ph.pMemsz → ph.pVaddr.toNat + ph.pFilesz.toNat < 2 ^ 32

theorem zeroRange_of_fit {ph : Elf32ProgramHeader} (hfit : ZerosFit ph) {a : ℕ} :
    Contains (zeroRange ph) a ↔
      ph.pVaddr.toNat + ph.pFilesz.toNat ≤ a ∧ a < ph.pVaddr.toNat + ph.pMemsz.toNat := by
  have hsum := BitVec.toNat_add ph.pVaddr ph.pFilesz
  have hlt : ph.pFilesz.toNat < ph.pMemsz.toNat →
    ph.pVaddr.toNat + ph.pFilesz.toNat < 2 ^ 32 := fun h => hfit (BitVec.lt_def.2 h)
  unfold Contains zeroRange
  dsimp only
  omega

/-- A segment whose zeros fit is stored in its region. -/
theorem deviceByte_storeSegment {image : List Byte} {ph : Elf32ProgramHeader}
    (hin : SegmentInAperture K ph) (hfit : ZerosFit ph) (d : FpgaDriver) :
    (∀ a, Contains ph.region a → deviceByte K (storeSegment K image d ph) a =
        some (segmentByte image ph (a - ph.pVaddr.toNat))) ∧
      ∀ a, ¬ Contains ph.region a →
        deviceByte K (storeSegment K image d ph) a = deviceByte K d a := by
  refine ⟨fun a ha => ?_, fun a ha => ?_⟩
  · obtain ⟨hle, hlt⟩ := contains_region.1 ha
    unfold segmentByte
    split_ifs with hfile
    · rw [deviceByte_storeSegment_file image d hin (contains_fileRange.2 ⟨hle, by omega⟩)]
      rfl
    · rw [deviceByte_storeSegment_zeros hin]
      exact (zeroRange_of_fit hfit).2 ⟨by omega, by omega⟩
  · rw [contains_region] at ha
    apply deviceByte_storeSegment_of_not hin
    · intro hfile
      obtain ⟨hle, hlt⟩ := contains_fileRange.1 hfile
      exact ha ⟨hle, by omega⟩
    · intro hzero
      obtain ⟨hle, hlt⟩ := (zeroRange_of_fit hfit).1 hzero
      exact ha ⟨by omega, by omega⟩

/-- The bytes from 2^32 on that are behind a segment's file bytes stay as they were if its zeros do
not fit, like those outside of its region. -/
theorem deviceByte_storeSegment_high {image : List Byte} {ph : Elf32ProgramHeader}
    (hin : SegmentInAperture K ph) {a : ℕ} (ha : 2 ^ 32 ≤ a)
    (hfile : ¬ Contains (fileRange ph) a)
    (hregion : Contains ph.region a → 2 ^ 32 ≤ ph.pVaddr.toNat + ph.pFilesz.toNat)
    (d : FpgaDriver) : deviceByte K (storeSegment K image d ph) a = deviceByte K d a := by
  apply deviceByte_storeSegment_of_not hin hfile
  intro hzero
  have hvaddr := ph.pVaddr.isLt
  rcases zeroRange_cases hzero with ⟨hlt, hle, hend⟩ | ⟨-, hlow⟩
  · have hwraps := hregion (contains_region.2 ⟨by omega, by omega⟩)
    omega
  · omega

variable {image : List Byte}

theorem Loadable.loadedToFpga (h : Loadable K image) (hdisjoint : DisjointSegments (segments image))
    (hfit : ∀ ph ∈ segments image, ZerosFit ph) (entryPoint : BitVec 32) (d : FpgaDriver) :
    LoadedToFpga K image entryPoint d
      (some (true, (readElfHeader image).eEntry),
        { (segments image).foldl (storeSegment K image) d with
          pcInit := (readElfHeader image).eEntry }) := by
  have hwrite : ∀ ph ∈ segments image, ∀ d : FpgaDriver, True → True ∧
      (∀ a, Contains ph.region a → deviceByte K (storeSegment K image d ph) a =
        some (segmentByte image ph (a - ph.pVaddr.toNat))) ∧
      ∀ a, ¬ Contains ph.region a →
        deviceByte K (storeSegment K image d ph) a = deviceByte K d a :=
    fun ph hph d _ => ⟨trivial, deviceByte_storeSegment (h.aperture ph hph) (hfit ph hph) d⟩
  obtain ⟨-, hbyte, hout⟩ := Regions.foldl_apart _ hwrite hdisjoint trivial
  refine ⟨nofun, nofun, ?_, ?_, ?_, ?_⟩
  · intro entry hr
    exact ⟨((Prod.ext_iff.1 (Option.some.inj hr)).2).symm, rfl⟩
  · intro _ _ ph hph j hj
    have hdata := h.data ph hph
    have hj' := hbyte ph hph (ph.pVaddr.toNat + j)
      (contains_region.2 ⟨Nat.le_add_right _ _, by omega⟩)
    rw [Nat.add_sub_cancel_left, segmentByte, if_pos hj, List.getD_eq_getElem?_getD,
      List.getElem?_eq_getElem (by omega), Option.getD_some] at hj'
    exact ⟨_, List.getElem?_eq_getElem (by omega), hj'⟩
  · intro _ _ ph hph j hle hlt
    have hj' := hbyte ph hph (ph.pVaddr.toNat + j)
      (contains_region.2 ⟨Nat.le_add_right _ _, by omega⟩)
    rw [Nat.add_sub_cancel_left, segmentByte, if_neg (Nat.not_lt.2 hle)] at hj'
    exact hj'
  · intro _ _ a ha
    exact hout a ha

theorem LoadsToFpga.zerosFit (h : LoadsToFpga K image)
    (hdisjoint : DisjointSegments (segments image)) (hloadable : Loadable K image)
    {ph : Elf32ProgramHeader} (hph : ph ∈ segments image) : ZerosFit ph := by
  intro hlt
  have hlt := BitVec.lt_def.1 hlt
  by_contra hwraps
  -- memory full of ones: the first zero of the segment does not get there
  let d : FpgaDriver := { opened K (fun _ => 1) with pcInit := 0 }
  set a := ph.pVaddr.toNat + ph.pFilesz.toNat with ha
  have hcontains : Contains ph.region a := contains_region.2 ⟨by omega, by omega⟩
  have hkeeps : deviceByte K ((segments image).foldl (storeSegment K image) d) a =
      deviceByte K d a := by
    refine List.foldlRecOn (motive := fun d' => deviceByte K d' a = deviceByte K d a) _ _ rfl ?_
    intro d' hd' ph' hph'
    rw [← hd']
    by_cases hsame : ph' = ph
    · apply deviceByte_storeSegment_high (hloadable.aperture ph' hph') (by omega)
      · rintro ⟨-, hend⟩
        rw [hsame] at hend
        exact absurd hend (lt_irrefl a)
      · intro _
        rw [hsame]
        omega
    · have hnot : ¬ Contains ph'.region a := fun hin =>
        hdisjoint.apart hph' hph hsame a hin hcontains
      apply deviceByte_storeSegment_high (hloadable.aperture ph' hph') (by omega)
      · rintro ⟨hle, hend⟩
        exact hnot (contains_region.2 ⟨hle, lt_of_lt_of_le hend
          (Nat.add_le_add_left (Nat.le_max_left _ _) _)⟩)
      · exact fun hin => absurd hin hnot
  rcases d.fetchElfToFpga_cases (K := K) true image 0 with ⟨-, heq⟩ | ⟨hnot, -⟩
  · have hzero := (h hdisjoint true 0 d).zeros _ (congrArg Prod.fst heq) ph hph ph.pFilesz.toNat
      le_rfl hlt
    rw [heq] at hzero
    have hone : deviceByte K d a = some 0 := hkeeps.symm.trans hzero
    unfold deviceByte at hone
    split_ifs at hone
    exact absurd (Option.some.inj hone) (by decide : ¬ (1 : Byte) = 0)
  · exact absurd ⟨rfl, hloadable⟩ hnot

/-- An image is loaded as it says from every state of the driver if and only if the zeros of its
segments start below 2^32, unless its segments overlap or it is not loaded at all. -/
theorem loadsToFpga_iff (K : Aperture) (image : List Byte) :
    LoadsToFpga K image ↔ (DisjointSegments (segments image) → Loadable K image →
      ∀ ph ∈ segments image, ZerosFit ph) := by
  constructor
  · intro h hdisjoint hloadable ph hph
    exact h.zerosFit hdisjoint hloadable hph
  · intro h hdisjoint isOpen entryPoint d
    rcases d.fetchElfToFpga_cases (K := K) isOpen image entryPoint with
      ⟨⟨-, hloadable⟩, heq⟩ | ⟨-, d', heq, hpc⟩
    · rw [heq]
      exact hloadable.loadedToFpga hdisjoint (h hdisjoint hloadable) entryPoint d
    · rw [heq]
      refine ⟨nofun, ?_, nofun, nofun, nofun, nofun⟩
      intro entry hr
      exact ⟨((Prod.ext_iff.1 (Option.some.inj hr)).2).symm, hpc⟩

/-- 8 GiB of device memory. -/
def largeAperture : Aperture where
  memBase := 0
  memSize := 0x200000000
  memSize_pos := by decide
  fits := by decide

/-- One segment of two bytes, the second of them a zero at 2^32. -/
def wrappedImage : List Byte :=
  elfMagic ++ [elfClass32] ++ List.replicate 13 0 ++ [0xF3, 0, 0, 0, 0, 0] ++
    [0, 0, 0, 0x10] ++ [52, 0, 0, 0] ++ List.replicate 10 0 ++ [32, 0, 1, 0] ++
    List.replicate 6 0 ++
    [1, 0, 0, 0] ++ [84, 0, 0, 0] ++ List.replicate 4 0xFF ++ List.replicate 4 0 ++
    [1, 0, 0, 0] ++ [2, 0, 0, 0] ++ List.replicate 8 0 ++ [0x6F]

/-- The zero goes to address 0. -/
theorem not_loadsToFpga_wrapped : ¬ LoadsToFpga largeAperture wrappedImage := by
  intro h
  have hheaders : ∀ i < (readElfHeader wrappedImage).ePhnum,
      (readElfHeader wrappedImage).programHeaderOffset i + programHeaderSize ≤
        wrappedImage.length := by decide +kernel
  have hone : (segments wrappedImage).length = 1 := by decide +kernel
  have hfields : ∀ ph ∈ segments wrappedImage, ph.pOffset + ph.pFilesz.toNat ≤ wrappedImage.length ∧
      ph.pVaddr = 0xFFFFFFFF ∧ ph.pFilesz = 1 ∧ ph.pMemsz = 2 := by decide +kernel
  obtain ⟨ph, hph⟩ := List.length_eq_one_iff.1 hone
  have hmem : ph ∈ segments wrappedImage := hph ▸ List.mem_singleton_self ph
  have hdisjoint : DisjointSegments (segments wrappedImage) := by
    rw [hph]
    exact List.pairwise_singleton _ _
  have hloadable : Loadable largeAperture wrappedImage := by
    refine ⟨by decide +kernel, hheaders, fun ph hph => (hfields ph hph).1, fun ph hph => ?_⟩
    obtain ⟨-, hvaddr, hfilesz, hmemsz⟩ := hfields ph hph
    refine ⟨fun _ => ?_, fun _ => ?_⟩
    · rw [hvaddr, hfilesz]
      exact ⟨by decide, by decide⟩
    · rw [hvaddr, hfilesz, hmemsz]
      exact ⟨by decide, by decide⟩
  obtain ⟨-, hvaddr, hfilesz, hmemsz⟩ := hfields ph hmem
  have hfit := h.zerosFit hdisjoint hloadable hmem
  unfold ZerosFit at hfit
  rw [hvaddr, hfilesz, hmemsz] at hfit
  exact absurd hfit (by decide)

end FpgaDriver

end RiscvGpgpu.Host
