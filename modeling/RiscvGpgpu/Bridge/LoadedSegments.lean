import RiscvGpgpu.Bridge.ContextSlots

/-!
# What a loaded image leaves in memory

A segment takes the addresses of its file bytes and of the zeros behind them. `LoadedExactly` says
that after a load every loadable segment is where its header puts it and nothing else has changed,
and that an image which promises more bytes than it has is not loaded. `KeepsToMemory` are the
images for which this is so in every memory.
-/

namespace RiscvGpgpu.Bridge.ElfLoader

open Golden (Address Byte BlockId MemoryHierarchy sharedMemBase inWindow)
open Golden.MemoryHierarchy (Coherent)
open Host
open Regions (Contains)

/-! ## Segments -/

/-- Where program header `i` is; an `Elf32_Off` is 32 bits wide. -/
def headerOffset (image : List Byte) (i : ℕ) : ℕ :=
  ((readElfHeader image).ePhoff + i * (readElfHeader image).ePhentsize) % 2 ^ 32

/-- The segments that `load` loads. -/
def segments (image : List Byte) : List Elf32ProgramHeader :=
  loadableSegments image (headerOffset image)

/-- The byte that a block sees at an address; in the shared window there is one where the block has
an array. -/
def byteAt (mem : MemoryHierarchy) (blockId : BlockId) (a : Address) : Option Byte :=
  if mem.isSharedMemoryAddress a then
    (mem.sharedMemory blockId).bind fun bytes => bytes[a.toNat - sharedMemBase]?
  else some (mem.globalByte a)

/-- The address of byte `j` of a segment. -/
def byteAddress (ph : Elf32ProgramHeader) (j : ℕ) : Address := BitVec.ofNat 64 (ph.pVaddr.toNat + j)

/-- The data of a `PT_LOAD` header is in the image. -/
def DataInside (image : List Byte) (ph : Elf32ProgramHeader) : Prop :=
  ph.pType = ptLoad → ph.pFilesz ≠ 0 → ph.pOffset + ph.pFilesz.toNat ≤ image.length

/-- The image was loaded from `mem` to `mem'`. -/
structure LoadedExactly (image : List Byte) (mem mem' : MemoryHierarchy) : Prop where
  headers : ∀ i < (readElfHeader image).ePhnum,
    headerOffset image i + programHeaderSize ≤ image.length
  data : ∀ i < (readElfHeader image).ePhnum,
    DataInside image (readProgramHeader image (headerOffset image i))
  file : ∀ ph ∈ segments image, ∀ j < ph.pFilesz.toNat,
    byteAt mem' 0 (byteAddress ph j) = image[ph.pOffset + j]?
  zeros : ∀ ph ∈ segments image, ∀ j, ph.pFilesz.toNat ≤ j → j < ph.pMemsz.toNat →
    byteAt mem' 0 (byteAddress ph j) = some 0
  /-- Nothing else has changed, for any block. -/
  other : ∀ a : Address, (∀ ph ∈ segments image, ¬ Contains ph.region a.toNat) → ∀ blockId,
    byteAt mem' blockId a = byteAt mem blockId a
  coherent : mem.Coherent → mem'.Coherent

/-- Whatever the memory, an image that `load` returns from is loaded exactly. -/
def LoadsExactly (W : BitVec 32) (image : List Byte) : Prop :=
  acceptsImage image = true → DisjointSegments (segments image) → ∀ mem, mem.sharedMemSize = W →
    ∀ elf mem', load image mem = some (elf, mem') → LoadedExactly image mem mem'

/-- The headers and the data are in the image, and the segments outside of the shared window; zeros
do not go beyond the 32-bit addresses. -/
structure KeepsToMemory (W : BitVec 32) (image : List Byte) : Prop where
  headers : ∀ i < (readElfHeader image).ePhnum,
    headerOffset image i + programHeaderSize ≤ image.length
  data : ∀ i < (readElfHeader image).ePhnum,
    DataInside image (readProgramHeader image (headerOffset image i))
  window : ∀ ph ∈ segments image, ∀ a : Address, Contains ph.region a.toNat →
    inWindow W a = false
  wraps : ∀ ph ∈ segments image, ph.pFilesz < ph.pMemsz →
    ph.pVaddr.toNat + ph.pMemsz.toNat ≤ 2 ^ 32

/-! ## Writes to the global memory -/

/-- Only bytes of the global memory have changed. -/
structure GlobalOnly (mem mem' : MemoryHierarchy) : Prop where
  shared : mem'.sharedMemory = mem.sharedMemory
  size : mem'.sharedMemSize = mem.sharedMemSize
  coherent : mem.Coherent → mem'.Coherent

theorem GlobalOnly.refl (mem : MemoryHierarchy) : GlobalOnly mem mem := ⟨rfl, rfl, id⟩

theorem GlobalOnly.trans {mem₁ mem₂ mem₃ : MemoryHierarchy} (h : GlobalOnly mem₁ mem₂)
    (h' : GlobalOnly mem₂ mem₃) : GlobalOnly mem₁ mem₃ :=
  ⟨h'.shared.trans h.shared, h'.size.trans h.size, fun hc => h'.coherent (h.coherent hc)⟩

theorem GlobalOnly.isShared {mem mem' : MemoryHierarchy} (h : GlobalOnly mem mem') (a : Address) :
    mem'.isSharedMemoryAddress a = mem.isSharedMemoryAddress a := by
  unfold MemoryHierarchy.isSharedMemoryAddress
  rw [h.size]

theorem GlobalOnly.byteAt_eq {mem mem' : MemoryHierarchy} (h : GlobalOnly mem mem') {a : Address}
    (ha : mem'.globalByte a = mem.globalByte a) (blockId : BlockId) :
    byteAt mem' blockId a = byteAt mem blockId a := by
  unfold byteAt
  rw [h.isShared, h.shared, ha]

theorem globalOnly_writeBytes {mem : MemoryHierarchy} {addr : Address}
    (hout : mem.isSharedMemoryAddress addr = false) (data : List Byte) (blockId : BlockId) :
    GlobalOnly mem (mem.writeBytes addr data blockId) := by
  refine ⟨?_, ?_, fun hc => (writeBytes_frame hc addr data blockId).1⟩
  all_goals
    unfold MemoryHierarchy.writeBytes
    rw [if_neg (by rw [hout]; exact Bool.false_ne_true)]
  · exact (mem.writeGlobalBytes_frame addr data).1
  · exact (mem.writeGlobalBytes_frame addr data).2

/-- The bytes written, and the others as they were. -/
theorem globalByte_writeBytes_cases (mem : MemoryHierarchy) (addr : Address) {data : List Byte}
    (hlen : data.length ≤ 2 ^ 64) (blockId : BlockId) (a : Address) :
    (mem.writeBytes addr data blockId).globalByte a = mem.globalByte a ∨
      mem.isSharedMemoryAddress addr = false ∧ (a - addr).toNat < data.length := by
  by_cases hout : mem.isSharedMemoryAddress addr = true
  · left
    unfold MemoryHierarchy.writeBytes
    rw [if_pos hout]
    split_ifs
    · rfl
    · obtain ⟨shared, heq⟩ := MemoryHierarchy.setSharedRange_frame mem blockId addr data
      rw [heq]
      rfl
  · rw [Bool.not_eq_true] at hout
    rw [globalByte_writeBytes hout hlen]
    by_cases hin : (a - addr).toNat < data.length
    · exact .inr ⟨hout, hin⟩
    · exact .inl (List.getD_eq_default _ _ (Nat.not_lt.1 hin))

/-! ## The zeros of a segment -/

section Zeros

variable {ph : Elf32ProgramHeader} {mem : MemoryHierarchy}

/-- Where zero `b` goes; the sum is 32 bits wide. -/
def zeroAddress (ph : Elf32ProgramHeader) (b : ℕ) : Address :=
  (ph.pVaddr + (ph.pFilesz + BitVec.ofNat 32 b)).setWidth 64

/-- The loop over the first `n` zeros. -/
def zeroFill (ph : Elf32ProgramHeader) (mem : MemoryHierarchy) (n : ℕ) : MemoryHierarchy :=
  (List.range n).foldl (fun mem b => mem.writeBytes (zeroAddress ph b) [0] 0) mem

theorem zeroFill_succ (n : ℕ) :
    zeroFill ph mem (n + 1) = (zeroFill ph mem n).writeBytes (zeroAddress ph n) [0] 0 := by
  unfold zeroFill
  rw [List.range_succ, List.foldl_append]
  rfl

theorem eq_of_sub_lt_one {a addr : Address} (h : (a - addr).toNat < 1) : a = addr := by
  bv_omega

theorem globalByte_zeroFill_of_ne {n : ℕ} {a : Address} (h : ∀ b < n, a ≠ zeroAddress ph b) :
    (zeroFill ph mem n).globalByte a = mem.globalByte a := by
  induction n with
  | zero => rfl
  | succ n ih =>
    rw [zeroFill_succ]
    have hlen : [(0 : Byte)].length ≤ 2 ^ 64 := by decide
    rcases globalByte_writeBytes_cases (zeroFill ph mem n) (zeroAddress ph n) hlen 0 a with
      heq | ⟨-, hnear⟩
    · rw [heq]
      exact ih fun b hb => h b (Nat.lt_succ_of_lt hb)
    · exact absurd (eq_of_sub_lt_one hnear) (h n n.lt_succ_self)

theorem zeroFill_outside {n : ℕ}
    (h : ∀ b < n, mem.isSharedMemoryAddress (zeroAddress ph b) = false) :
    GlobalOnly mem (zeroFill ph mem n) ∧
      ∀ b < n, (zeroFill ph mem n).globalByte (zeroAddress ph b) = 0 := by
  induction n with
  | zero => exact ⟨.refl mem, fun b hb => absurd hb (Nat.not_lt_zero b)⟩
  | succ n ih =>
    obtain ⟨honly, hzero⟩ := ih fun b hb => h b (Nat.lt_succ_of_lt hb)
    have hout : (zeroFill ph mem n).isSharedMemoryAddress (zeroAddress ph n) = false := by
      rw [honly.isShared]
      exact h n n.lt_succ_self
    rw [zeroFill_succ]
    refine ⟨honly.trans (globalOnly_writeBytes hout [0] 0), ?_⟩
    intro b hb
    rw [globalByte_writeBytes hout (by decide)]
    rcases Nat.lt_or_eq_of_le (Nat.le_of_lt_succ hb) with hlt | rfl
    · rcases Nat.eq_zero_or_pos (zeroAddress ph b - zeroAddress ph n).toNat with hsame | hother
      · rw [hsame]
        rfl
      · rw [List.getD_eq_default _ _ hother]
        exact hzero b hlt
    · rw [BitVec.sub_self]
      rfl

end Zeros

/-! ## One segment -/

section Segment

variable {W : BitVec 32} {image : List Byte} {ph : Elf32ProgramHeader} {mem : MemoryHierarchy}
  {a : Address}

/-- The file bytes of a segment in memory. -/
def fileFill (image : List Byte) (ph : Elf32ProgramHeader) (mem : MemoryHierarchy) :
    MemoryHierarchy :=
  if ph.pFilesz ≠ 0 ∧ ph.pOffset + ph.pFilesz.toNat ≤ image.length then
    mem.writeBytes (ph.pVaddr.setWidth 64) ((image.drop ph.pOffset).take ph.pFilesz.toNat) 0
  else mem

theorem loadSegment_eq (image : List Byte) (ph : Elf32ProgramHeader) (mem : MemoryHierarchy) :
    loadSegment image ph mem =
      zeroFill ph (fileFill image ph mem) (ph.pMemsz.toNat - ph.pFilesz.toNat) := rfl

theorem sub_vaddr_of_le (h : ph.pVaddr.toNat ≤ a.toNat) :
    (a - ph.pVaddr.setWidth 64).toNat = a.toNat - ph.pVaddr.toNat := by
  bv_omega

theorem sub_vaddr_of_lt (h : a.toNat < ph.pVaddr.toNat) :
    2 ^ 32 ≤ (a - ph.pVaddr.setWidth 64).toNat := by
  bv_omega

theorem length_fileBytes_le (image : List Byte) (ph : Elf32ProgramHeader) :
    ((image.drop ph.pOffset).take ph.pFilesz.toNat).length ≤ ph.pFilesz.toNat := by
  rw [List.length_take]
  exact Nat.min_le_left _ _

theorem length_fileBytes_le_pow (image : List Byte) (ph : Elf32ProgramHeader) :
    ((image.drop ph.pOffset).take ph.pFilesz.toNat).length ≤ 2 ^ 64 := by
  have hle := length_fileBytes_le image ph
  have hlt := ph.pFilesz.isLt
  omega

/-- The bytes that are not file bytes stay. -/
theorem globalByte_fileFill_of_not (h : ¬ (ph.pVaddr.toNat ≤ a.toNat ∧
      a.toNat < ph.pVaddr.toNat + ph.pFilesz.toNat)) :
    (fileFill image ph mem).globalByte a = mem.globalByte a := by
  unfold fileFill
  split_ifs
  · rcases globalByte_writeBytes_cases mem (ph.pVaddr.setWidth 64)
      (length_fileBytes_le_pow image ph) 0 a with heq | ⟨-, hnear⟩
    · exact heq
    · exfalso
      have hlt := lt_of_lt_of_le hnear (length_fileBytes_le image ph)
      rcases Nat.lt_or_ge a.toNat ph.pVaddr.toNat with hbelow | habove
      · have hfar := sub_vaddr_of_lt hbelow
        have hsize := ph.pFilesz.isLt
        omega
      · rw [sub_vaddr_of_le habove] at hlt
        omega
  · rfl

/-- A segment whose data is in the image, and whose bytes are outside of the window. -/
structure SegmentFits (W : BitVec 32) (image : List Byte) (ph : Elf32ProgramHeader) : Prop where
  data : ph.pFilesz ≠ 0 → ph.pOffset + ph.pFilesz.toNat ≤ image.length
  window : ∀ a : Address, Contains ph.region a.toNat → inWindow W a = false
  wraps : ph.pFilesz < ph.pMemsz → ph.pVaddr.toNat + ph.pMemsz.toNat ≤ 2 ^ 32

theorem isShared_eq_inWindow (hW : mem.sharedMemSize = W) (a : Address) :
    mem.isSharedMemoryAddress a = inWindow W a := by
  unfold MemoryHierarchy.isSharedMemoryAddress inWindow
  rw [hW]

theorem SegmentFits.fileFill (h : SegmentFits W image ph) (hW : mem.sharedMemSize = W) :
    GlobalOnly mem (fileFill image ph mem) ∧
      ∀ a : Address, ph.pVaddr.toNat ≤ a.toNat → a.toNat < ph.pVaddr.toNat + ph.pFilesz.toNat →
        (fileFill image ph mem).globalByte a =
          image.getD (ph.pOffset + (a.toNat - ph.pVaddr.toNat)) 0 := by
  by_cases hsize : ph.pFilesz = 0
  · unfold ElfLoader.fileFill
    rw [if_neg fun hdata => hdata.1 hsize]
    refine ⟨.refl mem, ?_⟩
    intro a hle hlt
    rw [hsize] at hlt
    exact absurd hlt (Nat.not_lt.2 hle)
  · have hpos : 0 < ph.pFilesz.toNat := Nat.pos_of_ne_zero fun h0 =>
      hsize (BitVec.eq_of_toNat_eq h0)
    have hstart : (ph.pVaddr.setWidth 64).toNat = ph.pVaddr.toNat := by
      rw [BitVec.toNat_setWidth]
      exact Nat.mod_eq_of_lt (lt_of_lt_of_le ph.pVaddr.isLt (by decide))
    have hout : mem.isSharedMemoryAddress (ph.pVaddr.setWidth 64) = false := by
      rw [isShared_eq_inWindow hW]
      refine h.window _ ⟨hstart.ge, ?_⟩
      rw [hstart]
      exact Nat.lt_add_of_pos_right (lt_of_lt_of_le hpos (Nat.le_max_left _ _))
    have hdata := h.data hsize
    unfold ElfLoader.fileFill
    rw [if_pos ⟨hsize, hdata⟩]
    refine ⟨globalOnly_writeBytes hout _ 0, ?_⟩
    intro a hle hlt
    rw [globalByte_writeBytes hout (length_fileBytes_le_pow image ph), sub_vaddr_of_le hle]
    have hj : a.toNat - ph.pVaddr.toNat < ph.pFilesz.toNat := by omega
    have hin : ph.pOffset + (a.toNat - ph.pVaddr.toNat) < image.length := by omega
    rw [List.getD_eq_getElem?_getD, List.getD_eq_getElem?_getD, List.getElem?_take_of_lt hj,
      List.getElem?_drop, List.getElem?_eq_getElem hin, Option.getD_some, Option.getD_some]

theorem toNat_byteAddress (ph : Elf32ProgramHeader) {j : ℕ} (hj : j < 2 ^ 32) :
    (byteAddress ph j).toNat = ph.pVaddr.toNat + j := by
  have hlt := ph.pVaddr.isLt
  unfold byteAddress
  rw [BitVec.toNat_ofNat]
  exact Nat.mod_eq_of_lt (by omega)

theorem contains_byteAddress {j : ℕ} (hj : j < max ph.pFilesz.toNat ph.pMemsz.toNat) :
    Contains ph.region (byteAddress ph j).toNat := by
  have hfile := ph.pFilesz.isLt
  have hmem := ph.pMemsz.isLt
  rw [toNat_byteAddress ph (by omega)]
  exact ⟨Nat.le_add_right _ _, Nat.add_lt_add_left hj _⟩

theorem zeroAddress_eq {b : ℕ} (h : ph.pVaddr.toNat + (ph.pFilesz.toNat + b) < 2 ^ 32) :
    zeroAddress ph b = byteAddress ph (ph.pFilesz.toNat + b) := by
  apply BitVec.eq_of_toNat_eq
  rw [toNat_byteAddress ph (by omega)]
  unfold zeroAddress
  rw [BitVec.toNat_setWidth, BitVec.toNat_add, BitVec.toNat_add, BitVec.toNat_ofNat]
  omega

/-- What a segment that fits does to the memory. -/
theorem SegmentFits.loadSegment (h : SegmentFits W image ph) (hW : mem.sharedMemSize = W) :
    GlobalOnly mem (loadSegment image ph mem) ∧
      (∀ a : Address, Contains ph.region a.toNat → (loadSegment image ph mem).globalByte a =
        segmentByte image ph (a.toNat - ph.pVaddr.toNat)) ∧
      ∀ a : Address, ¬ Contains ph.region a.toNat →
        (loadSegment image ph mem).globalByte a = mem.globalByte a := by
  obtain ⟨honly, hfile⟩ := h.fileFill hW
  -- the zeros are in the segment, and in order
  have hzero : ∀ b < ph.pMemsz.toNat - ph.pFilesz.toNat,
      zeroAddress ph b = byteAddress ph (ph.pFilesz.toNat + b) := by
    intro b hb
    have hwraps := h.wraps (BitVec.lt_def.2 (by omega))
    exact zeroAddress_eq (by omega)
  have hplace : ∀ b < ph.pMemsz.toNat - ph.pFilesz.toNat,
      (zeroAddress ph b).toNat = ph.pVaddr.toNat + (ph.pFilesz.toNat + b) := by
    intro b hb
    have hlt := ph.pMemsz.isLt
    rw [hzero b hb, toNat_byteAddress ph (by omega)]
  have hout : ∀ b < ph.pMemsz.toNat - ph.pFilesz.toNat,
      (ElfLoader.fileFill image ph mem).isSharedMemoryAddress (zeroAddress ph b) = false := by
    intro b hb
    rw [isShared_eq_inWindow (honly.size.trans hW), hzero b hb]
    exact h.window _ (contains_byteAddress (by omega))
  obtain ⟨hfill, hzeros⟩ := zeroFill_outside hout
  rw [loadSegment_eq]
  refine ⟨honly.trans hfill, ?_, ?_⟩
  · intro a ha
    obtain ⟨hle, hlt⟩ := contains_region.1 ha
    unfold segmentByte
    split_ifs with hj
    · rw [globalByte_zeroFill_of_ne, hfile a hle (by omega)]
      intro b hb heq
      have hnat := hplace b hb
      rw [← heq] at hnat
      omega
    · have hb : a.toNat - ph.pVaddr.toNat - ph.pFilesz.toNat <
          ph.pMemsz.toNat - ph.pFilesz.toNat := by omega
      have ha : a = zeroAddress ph (a.toNat - ph.pVaddr.toNat - ph.pFilesz.toNat) := by
        apply BitVec.eq_of_toNat_eq
        rw [hplace _ hb]
        omega
      have hbyte := hzeros _ hb
      rwa [← ha] at hbyte
  · intro a ha
    rw [contains_region] at ha
    rw [globalByte_zeroFill_of_ne, globalByte_fileFill_of_not (by omega)]
    intro b hb heq
    have hnat := hplace b hb
    rw [← heq] at hnat
    omega

end Segment

/-! ## All segments -/

section Segments

variable {W : BitVec 32} {image : List Byte}

/-- The loop over program headers in the image. -/
theorem loadSegments_eq (is : List ℕ) {mem mem' : MemoryHierarchy}
    (hinside : ∀ i ∈ is, headerOffset image i + programHeaderSize ≤ image.length)
    (hload : loadSegments image is mem = some mem') :
    mem' = ((is.map fun i => readProgramHeader image (headerOffset image i)).filter
      fun ph => ph.pType = ptLoad ∧ ph.pMemsz ≠ 0).foldl
        (fun mem ph => loadSegment image ph mem) mem := by
  induction is generalizing mem with
  | nil => exact (Option.some.inj hload).symm
  | cons i is ih =>
    obtain ⟨hi, his⟩ := List.forall_mem_cons.1 hinside
    unfold loadSegments at hload
    dsimp only at hload
    rw [← headerOffset, if_neg (Nat.not_lt.2 hi)] at hload
    rw [List.map_cons]
    split_ifs at hload with hfit hskip
    · rw [List.filter_cons_of_neg, ih his hload]
      rw [decide_eq_true_iff, not_and_or, not_not]
      exact hskip
    · obtain ⟨htype, hmem⟩ := not_or.1 hskip
      rw [List.filter_cons_of_pos, ih his hload, List.foldl_cons]
      exact decide_eq_true ⟨not_not.1 htype, hmem⟩

/-- What segments that fit, and are apart, leave in the memory. -/
theorem allLoaded {phs : List Elf32ProgramHeader} {mem : MemoryHierarchy}
    (hW : mem.sharedMemSize = W) (hfits : ∀ ph ∈ phs, SegmentFits W image ph)
    (hdisjoint : DisjointSegments phs) :
    GlobalOnly mem (phs.foldl (fun mem ph => loadSegment image ph mem) mem) ∧
      (∀ ph ∈ phs, ∀ a : Address, Contains ph.region a.toNat →
        (phs.foldl (fun mem ph => loadSegment image ph mem) mem).globalByte a =
          segmentByte image ph (a.toNat - ph.pVaddr.toNat)) ∧
      ∀ a : Address, (∀ ph ∈ phs, ¬ Contains ph.region a.toNat) →
        (phs.foldl (fun mem ph => loadSegment image ph mem) mem).globalByte a =
          mem.globalByte a := by
  have hwrite : ∀ ph ∈ phs, ∀ mem', GlobalOnly mem mem' →
      GlobalOnly mem (loadSegment image ph mem') ∧
      (∀ a : Address, Contains ph.region a.toNat →
        (loadSegment image ph mem').globalByte a =
          segmentByte image ph (a.toNat - ph.pVaddr.toNat)) ∧
      ∀ a : Address, ¬ Contains ph.region a.toNat →
        (loadSegment image ph mem').globalByte a = mem'.globalByte a := by
    intro ph hph mem' honly
    obtain ⟨honly', hin, hout⟩ := (hfits ph hph).loadSegment (honly.size.trans hW)
    exact ⟨honly.trans honly', hin, hout⟩
  exact Regions.foldl_apart (GlobalOnly mem) hwrite hdisjoint (.refl mem)

/-! ## A memory without arrays -/

/-- No block has shared memory. -/
structure Bare (W : BitVec 32) (mem : MemoryHierarchy) : Prop where
  size : mem.sharedMemSize = W
  shared : ∀ blockId, mem.sharedMemory blockId = none

theorem Bare.writeBytes {mem : MemoryHierarchy} (h : Bare W mem) (addr : Address)
    (data : List Byte) (blockId : BlockId) : Bare W (mem.writeBytes addr data blockId) := by
  cases hout : mem.isSharedMemoryAddress addr with
  | false =>
    have honly := globalOnly_writeBytes hout data blockId
    exact ⟨honly.size.trans h.size, fun b => by rw [honly.shared, h.shared b]⟩
  | true =>
    have hkeep : mem.writeBytes addr data blockId = mem := by
      unfold MemoryHierarchy.writeBytes MemoryHierarchy.setSharedRange
      rw [if_pos hout, h.shared blockId]
      exact ite_self mem
    rwa [hkeep]

theorem Bare.loadSegment {mem : MemoryHierarchy} (h : Bare W mem) (ph : Elf32ProgramHeader) :
    Bare W (loadSegment image ph mem) := by
  rw [loadSegment_eq]
  have hfile : Bare W (fileFill image ph mem) := by
    unfold fileFill
    split_ifs
    · exact h.writeBytes _ _ _
    · exact h
  induction ph.pMemsz.toNat - ph.pFilesz.toNat with
  | zero => exact hfile
  | succ n ih =>
    rw [zeroFill_succ]
    exact ih.writeBytes _ _ _

theorem Bare.foldl (phs : List Elf32ProgramHeader) {mem : MemoryHierarchy} (h : Bare W mem) :
    Bare W (phs.foldl (fun mem ph => ElfLoader.loadSegment image ph mem) mem) := by
  induction phs generalizing mem with
  | nil => exact h
  | cons ph phs ih => exact ih (h.loadSegment ph)

/-- No zero goes to an address of more than 32 bits. -/
theorem globalByte_loadSegment_high {mem : MemoryHierarchy} {ph : Elf32ProgramHeader} {a : Address}
    (ha : 2 ^ 32 ≤ a.toNat) (hfile : ¬ (ph.pVaddr.toNat ≤ a.toNat ∧
      a.toNat < ph.pVaddr.toNat + ph.pFilesz.toNat)) :
    (loadSegment image ph mem).globalByte a = mem.globalByte a := by
  rw [loadSegment_eq, globalByte_zeroFill_of_ne, globalByte_fileFill_of_not hfile]
  intro b _ heq
  have hlt : (zeroAddress ph b).toNat < 2 ^ 32 := by
    unfold zeroAddress
    rw [BitVec.toNat_setWidth]
    exact lt_of_le_of_lt (Nat.mod_le _ _) (BitVec.isLt _)
  rw [heq] at ha
  omega

theorem globalByte_foldl_high (phs : List Elf32ProgramHeader) {mem : MemoryHierarchy} {a : Address}
    (ha : 2 ^ 32 ≤ a.toNat) (hfile : ∀ ph ∈ phs, ¬ (ph.pVaddr.toNat ≤ a.toNat ∧
      a.toNat < ph.pVaddr.toNat + ph.pFilesz.toNat)) :
    (phs.foldl (fun mem ph => loadSegment image ph mem) mem).globalByte a = mem.globalByte a := by
  induction phs generalizing mem with
  | nil => rfl
  | cons ph phs ih =>
    obtain ⟨hph, hphs⟩ := List.forall_mem_cons.1 hfile
    rw [List.foldl_cons, ih hphs, globalByte_loadSegment_high ha hph]

/-! ## Loads -/

theorem load_eq (image : List Byte) (mem : MemoryHierarchy) :
    load image mem =
      (loadSegments image (List.range (readElfHeader image).ePhnum) mem).bind fun mem =>
        if (readElfHeader image).eShoff = 0 ∨ (readElfHeader image).eShnum = 0 then
          some (⟨(readElfHeader image).eEntry, []⟩, mem)
        else (readSectionHeaders image (List.range (readElfHeader image).eShnum)).bind fun shdrs =>
          (readSymbols image shdrs shdrs []).bind fun symbols =>
            some (⟨(readElfHeader image).eEntry, symbols⟩, mem) := rfl

theorem loadSegments_of_load {mem mem' : MemoryHierarchy} {elf : ElfLoader}
    (hload : load image mem = some (elf, mem')) :
    loadSegments image (List.range (readElfHeader image).ePhnum) mem = some mem' := by
  rw [load_eq] at hload
  obtain ⟨mem₁, hsegments, hload⟩ := Option.bind_eq_some_iff.1 hload
  split_ifs at hload
  · obtain ⟨-, rfl⟩ := Prod.mk.inj (Option.some.inj hload)
    exact hsegments
  · obtain ⟨shdrs, -, hload⟩ := Option.bind_eq_some_iff.1 hload
    obtain ⟨symbols, -, hload⟩ := Option.bind_eq_some_iff.1 hload
    obtain ⟨-, rfl⟩ := Prod.mk.inj (Option.some.inj hload)
    exact hsegments

/-- What is left of a load when the headers are in the image. -/
theorem load_memory {mem mem' : MemoryHierarchy} {elf : ElfLoader}
    (hinside : ∀ i < (readElfHeader image).ePhnum,
      headerOffset image i + programHeaderSize ≤ image.length)
    (hload : load image mem = some (elf, mem')) :
    mem' = (segments image).foldl (fun mem ph => loadSegment image ph mem) mem :=
  loadSegments_eq _ (fun i hi => hinside i (List.mem_range.1 hi)) (loadSegments_of_load hload)

theorem KeepsToMemory.fits (h : KeepsToMemory W image) :
    ∀ ph ∈ segments image, SegmentFits W image ph := by
  intro ph hph
  obtain ⟨⟨i, hi, rfl⟩, htype, -⟩ := mem_loadableSegments.1 hph
  exact ⟨h.data i hi htype, h.window _ hph, h.wraps _ hph⟩

theorem KeepsToMemory.loadsExactly (h : KeepsToMemory W image) : LoadsExactly W image := by
  intro _ hdisjoint mem hW elf mem' hload
  have hall := allLoaded hW h.fits hdisjoint
  rw [← load_memory h.headers hload] at hall
  obtain ⟨honly, hin, hout⟩ := hall
  have hbyte : ∀ ph ∈ segments image, ∀ j < max ph.pFilesz.toNat ph.pMemsz.toNat,
      byteAt mem' 0 (byteAddress ph j) = some (segmentByte image ph j) := by
    intro ph hph j hj
    have hcontains := contains_byteAddress hj
    have hfile := ph.pFilesz.isLt
    have hmem := ph.pMemsz.isLt
    unfold byteAt
    rw [isShared_eq_inWindow (honly.size.trans hW), h.window ph hph _ hcontains,
      if_neg Bool.false_ne_true, hin ph hph _ hcontains, toNat_byteAddress ph (by omega),
      Nat.add_sub_cancel_left]
  refine ⟨h.headers, h.data, ?_, ?_, ?_, honly.coherent⟩
  · intro ph hph j hj
    have hdata := (h.fits ph hph).data fun h0 =>
      absurd hj (by rw [h0]; exact Nat.not_lt_zero j)
    rw [hbyte ph hph j (by omega), segmentByte, if_pos hj, List.getD_eq_getElem?_getD,
      List.getElem?_eq_getElem (by omega), Option.getD_some]
  · intro ph hph j hle hlt
    rw [hbyte ph hph j (by omega), segmentByte, if_neg (Nat.not_lt.2 hle)]
  · intro a ha blockId
    exact honly.byteAt_eq (hout a ha) blockId

/-- `load` has a result for the image. -/
def Returns (image : List Byte) : Prop := ∀ mem, (load image mem).isSome

theorem isSome_loadSegments_congr (image : List Byte) (is : List ℕ) (mem mem' : MemoryHierarchy) :
    (loadSegments image is mem).isSome = (loadSegments image is mem').isSome := by
  induction is generalizing mem mem' with
  | nil => rfl
  | cons i is ih =>
    unfold loadSegments
    dsimp only
    split_ifs
    · rfl
    · rfl
    · exact ih _ _
    · exact ih _ _

/-- That it has one does not depend on the memory. -/
theorem returns_of_load {mem : MemoryHierarchy} (h : (load image mem).isSome) : Returns image := by
  intro mem'
  obtain ⟨⟨elf, mem₁⟩, hload⟩ := Option.isSome_iff_exists.1 h
  have hsome := isSome_loadSegments_congr image
    (List.range (readElfHeader image).ePhnum) mem mem'
  rw [loadSegments_of_load hload] at hsome
  obtain ⟨mem₂, hmem₂⟩ := Option.isSome_iff_exists.1 hsome.symm
  rw [load_eq] at hload ⊢
  obtain ⟨mem₃, -, hload⟩ := Option.bind_eq_some_iff.1 hload
  rw [hmem₂, Option.bind_some]
  split_ifs at hload ⊢
  · rfl
  · obtain ⟨shdrs, hshdrs, hload⟩ := Option.bind_eq_some_iff.1 hload
    obtain ⟨symbols, hsymbols, hload⟩ := Option.bind_eq_some_iff.1 hload
    rw [hshdrs, Option.bind_some, hsymbols]
    rfl

theorem byteAddress_of_contains {ph : Elf32ProgramHeader} {a : Address}
    (h : Contains ph.region a.toNat) :
    byteAddress ph (a.toNat - ph.pVaddr.toNat) = a := by
  have hle : ph.pVaddr.toNat ≤ a.toNat := h.1
  unfold byteAddress
  rw [Nat.add_sub_cancel' hle, BitVec.ofNat_toNat, BitVec.setWidth_eq]

/-- Every byte of a segment of an image that is loaded exactly is there. -/
theorem LoadedExactly.byteAt_ne_none {mem mem' : MemoryHierarchy}
    (h : LoadedExactly image mem mem') {ph : Elf32ProgramHeader} (hph : ph ∈ segments image)
    {a : Address} (ha : Contains ph.region a.toNat) : byteAt mem' 0 a ≠ none := by
  obtain ⟨⟨i, hi, hread⟩, htype, -⟩ := mem_loadableSegments.1 hph
  obtain ⟨hle, hlt⟩ := contains_region.1 ha
  rw [← byteAddress_of_contains ha]
  set j := a.toNat - ph.pVaddr.toNat
  by_cases hj : j < ph.pFilesz.toNat
  · have hdata := hread ▸ h.data i hi
    have hinside := hdata htype fun h0 => absurd hj (by rw [h0]; exact Nat.not_lt_zero j)
    rw [h.file ph hph j hj, List.getElem?_eq_getElem (by omega)]
    exact Option.some_ne_none _
  · rw [h.zeros ph hph j (Nat.not_lt.1 hj) (by omega)]
    exact Option.some_ne_none _

theorem bare_init (W : BitVec 32) : Bare W (.init W) := ⟨rfl, fun _ => rfl⟩

theorem LoadsExactly.keepsToMemory (h : LoadsExactly W image)
    (haccepts : acceptsImage image = true) (hdisjoint : DisjointSegments (segments image))
    (hreturns : Returns image) : KeepsToMemory W image := by
  obtain ⟨⟨elf, mem'⟩, hload⟩ := Option.isSome_iff_exists.1 (hreturns (.init W))
  have hexact := h haccepts hdisjoint (.init W) rfl elf mem' hload
  have hwindow : ∀ ph ∈ segments image, ∀ a : Address, Contains ph.region a.toNat →
    inWindow W a = false := by
    intro ph hph a ha
    by_contra hin
    have hbare : Bare W mem' := by
      rw [load_memory hexact.headers hload]
      exact (bare_init W).foldl _
    refine hexact.byteAt_ne_none hph ha ?_
    unfold byteAt
    rw [isShared_eq_inWindow hbare.size, if_pos (Bool.not_eq_false _ ▸ hin), hbare.shared]
    rfl
  refine ⟨hexact.headers, hexact.data, hwindow, ?_⟩
  intro ph hph hlt
  have hlt := BitVec.lt_def.1 hlt
  by_contra hwraps
  -- the last zero of the segment, in a memory that has a 1 there
  have hmemsz := ph.pMemsz.isLt
  set j := ph.pMemsz.toNat - 1 with hj
  have haddr := toNat_byteAddress ph (j := j) (by omega)
  have hcontains : Contains ph.region (byteAddress ph j).toNat := contains_byteAddress (by omega)
  have hout : (MemoryHierarchy.init W).isSharedMemoryAddress (byteAddress ph j) = false :=
    hwindow ph hph _ hcontains
  set mem := (MemoryHierarchy.init W).writeBytes (byteAddress ph j) [1] 0 with hmem
  have hbare : Bare W mem := (bare_init W).writeBytes _ _ _
  obtain ⟨⟨elf', mem''⟩, hload'⟩ := Option.isSome_iff_exists.1 (hreturns mem)
  have hone : mem.globalByte (byteAddress ph j) = 1 := by
    rw [hmem, globalByte_writeBytes hout (by decide), BitVec.sub_self]
    rfl
  have hbefore : mem''.globalByte (byteAddress ph j) = 1 := by
    rw [load_memory hexact.headers hload', globalByte_foldl_high _ (by omega), hone]
    intro ph' hph' hfile
    by_cases hsame : ph' = ph
    · rw [hsame, haddr] at hfile
      omega
    · refine hdisjoint.apart hph' hph hsame _ ⟨hfile.1, ?_⟩ hcontains
      exact lt_of_lt_of_le hfile.2 (Nat.add_le_add_left (Nat.le_max_left _ _) _)
  have hafter := (h haccepts hdisjoint mem hbare.size elf' mem'' hload').zeros ph hph j (by omega)
    (by omega)
  have hsize : mem''.sharedMemSize = W := by
    rw [load_memory hexact.headers hload']
    exact (hbare.foldl _).size
  unfold byteAt at hafter
  rw [isShared_eq_inWindow hsize, hwindow ph hph _ hcontains, if_neg Bool.false_ne_true, hbefore]
    at hafter
  exact absurd (Option.some.inj hafter) (by decide)

/-- An image that `load` returns from is loaded exactly into every memory with a shared window of
size `W` if and only if it keeps to its file and to the memory. -/
theorem loadsExactly_iff (W : BitVec 32) (image : List Byte) :
    LoadsExactly W image ↔ (acceptsImage image = true → DisjointSegments (segments image) →
      Returns image →
      KeepsToMemory W image) := by
  constructor
  · intro h haccepts hdisjoint hreturns
    exact h.keepsToMemory haccepts hdisjoint hreturns
  · intro h haccepts hdisjoint mem hW elf mem' hload
    have hreturns := returns_of_load (Option.isSome_of_eq_some hload)
    exact (h haccepts hdisjoint hreturns).loadsExactly haccepts hdisjoint mem hW elf mem' hload

/-- An ELF header that promises a program header, and nothing behind it. -/
def truncated : List Byte :=
  elfMagic ++ [elfClass32] ++ List.replicate 23 0 ++ [52, 0, 0, 0] ++ List.replicate 10 0 ++
    [32, 0, 1, 0] ++ List.replicate 6 0

/-- It is loaded without complaint. -/
theorem not_loadsExactly_truncated : ¬ LoadsExactly 0xC000 truncated := by
  intro h
  have haccepts : acceptsImage truncated = true := by decide +kernel
  have hsegments : (segments truncated).isEmpty = true := by decide +kernel
  have hreturns : (load truncated (.init 0xC000)).isSome = true := by decide +kernel
  have hdisjoint : DisjointSegments (segments truncated) := by
    rw [List.isEmpty_iff.1 hsegments]
    exact .nil
  obtain ⟨⟨elf, mem'⟩, hload⟩ := Option.isSome_iff_exists.1 hreturns
  have hexact := h haccepts hdisjoint (.init 0xC000) rfl elf mem' hload
  exact absurd (hexact.headers 0 (by decide +kernel)) (by decide +kernel)

end Segments

end RiscvGpgpu.Bridge.ElfLoader
