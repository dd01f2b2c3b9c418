import RiscvGpgpu.Host.FpgaDriver

/-!
# Isolation of the FPGA driver's buffers

The live buffers lie one behind the other below `next_alloc_` (`HeapInv`), as long as no allocation
is so large that its rounded size wraps the 64-bit sums around. The ELF loader writes wherever the
program headers say, so a segment that meets a live buffer changes it. `isolated` is about the
sequences of calls without either (`Safe`).
-/

namespace RiscvGpgpu.Host

open Golden (Address Byte)

namespace FpgaDriver

variable {K : Aperture} {d : FpgaDriver}

/-! ## Raw access -/

/-- The range lies in the aperture. -/
def InAperture (K : Aperture) (a size : ℕ) : Prop :=
  K.memBase.toNat ≤ a ∧ a + size ≤ K.memBase.toNat + K.memSize.toNat

/-- An access whose end does not wrap around is undefined nowhere. -/
theorem memAt_cases {a size : BitVec 64} (h : a.toNat + size.toNat < 2 ^ 64) :
    memAt K a size = none ∧ ¬ InAperture K a.toNat size.toNat ∨
      memAt K a size = some (a.toNat - K.memBase.toNat) ∧ InAperture K a.toNat size.toNat := by
  have hfits := K.fits
  have hend : (K.memBase + K.memSize).toNat = K.memBase.toNat + K.memSize.toNat := by
    rw [BitVec.toNat_add, Nat.mod_eq_of_lt hfits]
  have hsum : (a + size).toNat = a.toNat + size.toNat := by
    rw [BitVec.toNat_add, Nat.mod_eq_of_lt h]
  have hout : (a < K.memBase ∨ K.memBase + K.memSize < a + size) ↔
      ¬ InAperture K a.toNat size.toNat := by
    unfold InAperture
    rw [BitVec.lt_def, BitVec.lt_def, hend, hsum]
    omega
  unfold memAt
  by_cases hin : InAperture K a.toNat size.toNat
  · right
    rw [if_neg (fun h => hout.1 h hin), BitVec.toNat_sub_of_le (BitVec.le_def.2 hin.1)]
    exact ⟨rfl, hin⟩
  · exact .inl ⟨if_pos (hout.2 hin), hin⟩

theorem writeMem_cases {a size : BitVec 64} (src : ℕ → Byte)
    (h : a.toNat + size.toNat < 2 ^ 64) :
    d.writeMem K a src size = (some false, d) ∧ ¬ InAperture K a.toNat size.toNat ∨
      d.writeMem K a src size =
          (some true, d.memcpyTo (a.toNat - K.memBase.toNat) src size.toNat) ∧
        InAperture K a.toNat size.toNat := by
  unfold writeMem
  rcases memAt_cases (K := K) h with ⟨hnone, hout⟩ | ⟨hsome, hin⟩
  · rw [hnone]
    exact .inl ⟨rfl, hout⟩
  · right
    rw [hsome]
    refine ⟨if_pos ?_, hin⟩
    obtain ⟨hlo, hhi⟩ := hin
    omega

theorem readMem_eq {a size : BitVec 64} (h : a.toNat + size.toNat < 2 ^ 64) :
    d.readMem K a size = some none ∧ ¬ InAperture K a.toNat size.toNat ∨
      d.readMem K a size =
          some (some (d.memcpyFrom (a.toNat - K.memBase.toNat) size.toNat)) ∧
        InAperture K a.toNat size.toNat := by
  unfold readMem
  rcases memAt_cases (K := K) h with ⟨hnone, hout⟩ | ⟨hsome, hin⟩
  · rw [hnone]
    exact .inl ⟨rfl, hout⟩
  · right
    rw [hsome]
    refine ⟨if_pos ?_, hin⟩
    obtain ⟨hlo, hhi⟩ := hin
    omega

/-! ## The heap -/

/-- The live buffers are below `next_alloc_`, and apart from each other. -/
structure HeapInv (K : Aperture) (d : FpgaDriver) : Prop where
  base_le : K.memBase.toNat ≤ d.nextAlloc.toNat
  le_end : d.nextAlloc.toNat ≤ K.memBase.toNat + K.memSize.toNat
  live : ∀ a size, d.buffers a = some size → 0 < size.toNat ∧ K.memBase.toNat ≤ a.toNat ∧
    a.toNat + size.toNat ≤ d.nextAlloc.toNat
  disjoint : ∀ a b size size', d.buffers a = some size → d.buffers b = some size' → a ≠ b →
    a.toNat + size.toNat ≤ b.toNat ∨ b.toNat + size'.toNat ≤ a.toNat

theorem HeapInv.congr {d' : FpgaDriver} (h : HeapInv K d) (hb : d'.buffers = d.buffers)
    (hn : d'.nextAlloc = d.nextAlloc) : HeapInv K d' where
  base_le := by
    rw [hn]
    exact h.base_le
  le_end := by
    rw [hn]
    exact h.le_end
  live := by
    rw [hn, hb]
    exact h.live
  disjoint := by
    rw [hb]
    exact h.disjoint

/-- A live buffer is in the aperture. -/
theorem HeapInv.inAperture (h : HeapInv K d) {a size : BitVec 64} (hb : d.buffers a = some size) :
    InAperture K a.toNat size.toNat := by
  obtain ⟨-, hlo, hhi⟩ := h.live a size hb
  exact ⟨hlo, hhi.trans h.le_end⟩

theorem heapInv_opened (mem : ℕ → Byte) : HeapInv K (opened K mem) := by
  have hfits := K.fits
  have hhalf : (K.memSize / 2).toNat = K.memSize.toNat / 2 := rfl
  have hoff : (if dataHeapOffset < K.memSize / 2 then dataHeapOffset else K.memSize / 2).toNat ≤
      K.memSize.toNat / 2 := by
    split_ifs with h
    · rw [BitVec.lt_def, hhalf] at h
      exact h.le
    · exact hhalf.le
  have hnext : (opened K mem).nextAlloc.toNat = K.memBase.toNat +
      (if dataHeapOffset < K.memSize / 2 then dataHeapOffset else K.memSize / 2).toNat := by
    rw [opened, BitVec.toNat_add, Nat.mod_eq_of_lt (by omega)]
  refine ⟨?_, ?_, fun a size hb => absurd hb (by simp [opened]),
    fun a b size size' hb => absurd hb (by simp [opened])⟩
  · rw [hnext]
    exact Nat.le_add_right _ _
  · rw [hnext]
    omega

/-- The size of a buffer with its padding, before any wrap-around. -/
def alignedSize (size : BitVec 64) : ℕ := (size.toNat + 15) / 16 * 16

theorem aligned_toNat {size : BitVec 64} (h : alignedSize size < 2 ^ 64) :
    ((size + 16 - 1) / 16 * 16).toNat = alignedSize size := by
  have hlt : size.toNat + 15 < 2 ^ 64 := by
    unfold alignedSize at h
    omega
  have hsum : size + 16 - 1 = size + 15 := by bv_omega
  rw [hsum, BitVec.toNat_mul, BitVec.toNat_udiv, BitVec.toNat_add]
  show (size.toNat + 15) % 2 ^ 64 / 16 * 16 % 2 ^ 64 = _
  rw [Nat.mod_eq_of_lt hlt]
  exact Nat.mod_eq_of_lt h

/-- An allocation whose end does not wrap around. -/
theorem allocateBuffer_cases {size : BitVec 64}
    (h : d.nextAlloc.toNat + alignedSize size < 2 ^ 64) :
    d.allocateBuffer K size = (failed, d) ∨
      0 < size.toNat ∧ size.toNat ≤ alignedSize size ∧
        d.nextAlloc.toNat + alignedSize size ≤ K.memBase.toNat + K.memSize.toNat ∧
        ∃ next : Address, next.toNat = d.nextAlloc.toNat + alignedSize size ∧
          d.allocateBuffer K size = (⟨true, some d.nextAlloc, []⟩, { d with
            nextAlloc := next
            buffers := Function.update d.buffers d.nextAlloc (some size) }) := by
  have hfits := K.fits
  unfold allocateBuffer
  by_cases hzero : size = 0
  · exact .inl (if_pos hzero)
  rw [if_neg hzero]
  dsimp only
  have haligned := aligned_toNat (show alignedSize size < 2 ^ 64 by omega)
  have hnext : (d.nextAlloc + (size + 16 - 1) / 16 * 16).toNat =
      d.nextAlloc.toNat + alignedSize size := by
    rw [BitVec.toNat_add, haligned, Nat.mod_eq_of_lt h]
  have hend : (K.memBase + K.memSize).toNat = K.memBase.toNat + K.memSize.toNat := by
    rw [BitVec.toNat_add, Nat.mod_eq_of_lt hfits]
  split_ifs with hlt
  · exact .inl rfl
  · right
    rw [BitVec.lt_def, hnext, hend] at hlt
    have hpos : 0 < size.toNat := by
      refine Nat.pos_of_ne_zero fun h0 => hzero (BitVec.eq_of_toNat_eq h0)
    refine ⟨hpos, ?_, by omega, _, hnext, rfl⟩
    unfold alignedSize
    omega

theorem HeapInv.allocateBuffer (hinv : HeapInv K d) {size : BitVec 64}
    (h : d.nextAlloc.toNat + alignedSize size < 2 ^ 64) :
    HeapInv K (d.allocateBuffer K size).2 := by
  rcases allocateBuffer_cases h with heq | ⟨hpos, hle, hend, next, hnext, heq⟩
  · rw [heq]
    exact hinv
  rw [heq]
  have hbelow : ∀ a size', d.buffers a = some size' →
      a.toNat + size'.toNat ≤ d.nextAlloc.toNat := fun a size' ha => (hinv.live a size' ha).2.2
  refine ⟨?_, ?_, fun a size' ha => ?_, fun a b size' size'' ha hb hab => ?_⟩
  · show K.memBase.toNat ≤ next.toNat
    have hbase := hinv.base_le
    omega
  · show next.toNat ≤ _
    omega
  · show 0 < size'.toNat ∧ K.memBase.toNat ≤ a.toNat ∧ a.toNat + size'.toNat ≤ next.toNat
    dsimp only at ha
    by_cases hnew : a = d.nextAlloc
    · subst hnew
      rw [Function.update_self] at ha
      obtain rfl := Option.some.inj ha
      exact ⟨hpos, hinv.base_le, by omega⟩
    · rw [Function.update_of_ne hnew] at ha
      obtain ⟨hpos', hlo, hhi⟩ := hinv.live a size' ha
      exact ⟨hpos', hlo, by omega⟩
  · dsimp only at ha hb
    by_cases hnew : a = d.nextAlloc
    · subst hnew
      rw [Function.update_of_ne hab.symm] at hb
      exact .inr (hbelow b size'' hb)
    · rw [Function.update_of_ne hnew] at ha
      by_cases hnew' : b = d.nextAlloc
      · subst hnew'
        exact .inl (hbelow a size' ha)
      · rw [Function.update_of_ne hnew'] at hb
        exact hinv.disjoint a b size' size'' ha hb hab

theorem HeapInv.freeBuffer (hinv : HeapInv K d) (devAddr : Address) :
    HeapInv K (d.freeBuffer devAddr).2 := by
  unfold FpgaDriver.freeBuffer
  cases d.buffers devAddr with
  | none => exact hinv
  | some _ =>
    have hold : ∀ {a size}, Function.update d.buffers devAddr none a = some size →
        d.buffers a = some size := by
      intro a size ha
      by_cases hfreed : a = devAddr
      · subst hfreed
        rw [Function.update_self] at ha
        exact absurd ha (by simp)
      · rwa [Function.update_of_ne hfreed] at ha
    exact ⟨hinv.base_le, hinv.le_end, fun a size ha => hinv.live a size (hold ha),
      fun a b size size' ha hb => hinv.disjoint a b size size' (hold ha) (hold hb)⟩

/-! ## Copies -/

/-- A copy within a live buffer succeeds, and any other one fails. -/
theorem copyToDevice_cases (hinv : HeapInv K d) (dst : Address) (src : ℕ → Byte)
    (size : BitVec 64) :
    d.copyToDevice K dst src size = (some failed, d) ∨
      ∃ bufferSize, d.buffers dst = some bufferSize ∧ size.toNat ≤ bufferSize.toNat ∧
        d.copyToDevice K dst src size =
          (some succeeded, d.memcpyTo (dst.toNat - K.memBase.toNat) src size.toNat) := by
  unfold copyToDevice
  cases hb : d.buffers dst with
  | none => exact .inl rfl
  | some bufferSize =>
    dsimp only
    split_ifs with hlt
    · exact .inl rfl
    · right
      have hle : size.toNat ≤ bufferSize.toNat := Nat.not_lt.1 hlt
      refine ⟨bufferSize, rfl, hle, ?_⟩
      obtain ⟨hlo, hhi⟩ := hinv.inAperture hb
      have hfits := K.fits
      rcases writeMem_cases (K := K) (d := d) src (show dst.toNat + size.toNat < 2 ^ 64 by omega)
        with ⟨-, hout⟩ | ⟨heq, -⟩
      · exact absurd ⟨hlo, by omega⟩ hout
      · rw [heq]
        rfl

theorem copyFromDevice_cases (hinv : HeapInv K d) (src : Address) (size : BitVec 64) :
    d.copyFromDevice K src size = (some failed, d) ∧
        (∀ bufferSize, d.buffers src = some bufferSize → bufferSize.toNat < size.toNat) ∨
      ∃ bufferSize, d.buffers src = some bufferSize ∧ size.toNat ≤ bufferSize.toNat ∧
        d.copyFromDevice K src size =
          (some ⟨true, none, d.memcpyFrom (src.toNat - K.memBase.toNat) size.toNat⟩, d) := by
  unfold copyFromDevice
  cases hb : d.buffers src with
  | none => exact .inl ⟨rfl, fun _ h => absurd h (by simp)⟩
  | some bufferSize =>
    dsimp only
    split_ifs with hlt
    · refine .inl ⟨rfl, fun bufferSize' h => ?_⟩
      obtain rfl := Option.some.inj h
      exact hlt
    · right
      have hle : size.toNat ≤ bufferSize.toNat := Nat.not_lt.1 hlt
      refine ⟨bufferSize, rfl, hle, ?_⟩
      obtain ⟨hlo, hhi⟩ := hinv.inAperture hb
      have hfits := K.fits
      rcases readMem_eq (K := K) (d := d) (show src.toNat + size.toNat < 2 ^ 64 by omega)
        with ⟨-, hout⟩ | ⟨heq, -⟩
      · exact absurd ⟨hlo, by omega⟩ hout
      · rw [heq]
        rfl

/-! ## ELF images -/

/-- The address ranges a segment is written to: its bytes of the file, and the zeros behind them. -/
def segmentRanges (ph : Elf32ProgramHeader) : List (ℕ × ℕ) :=
  [(ph.pVaddr.toNat, ph.pFilesz.toNat),
    ((ph.pVaddr + ph.pFilesz).toNat, ph.pMemsz.toNat - ph.pFilesz.toNat)]

/-- The ranges of program header `i`, if it is one to load. -/
def headerRanges (image : List Byte) (i : ℕ) : List (ℕ × ℕ) :=
  let phOff := (readElfHeader image).programHeaderOffset i
  let ph := readProgramHeader image phOff
  if image.length < phOff + programHeaderSize ∨ ph.pType ≠ ptLoad ∨ ph.pMemsz = 0 ∨
      image.length < ph.pOffset + ph.pFilesz.toNat then []
  else segmentRanges ph

/-- The address ranges that the segments of an image ask for. -/
def elfRanges (image : List Byte) : List (ℕ × ℕ) :=
  if acceptsHeader image then
    (List.range (readElfHeader image).ePhnum).flatMap (headerRanges image)
  else []

/-- The driver `d'` is `d` with other bytes, but only in some address ranges, and there only in
those that lie in the aperture. -/
structure ChangesOnly (K : Aperture) (ranges : List (ℕ × ℕ)) (d d' : FpgaDriver) : Prop where
  buffers : d'.buffers = d.buffers
  nextAlloc : d'.nextAlloc = d.nextAlloc
  mem : ∀ o, d'.mem o ≠ d.mem o → ∃ r ∈ ranges, InAperture K r.1 r.2 ∧
    r.1 ≤ K.memBase.toNat + o ∧ K.memBase.toNat + o < r.1 + r.2

theorem ChangesOnly.refl (ranges : List (ℕ × ℕ)) (d : FpgaDriver) : ChangesOnly K ranges d d :=
  ⟨rfl, rfl, fun _ h => absurd rfl h⟩

theorem ChangesOnly.trans {ranges : List (ℕ × ℕ)} {d d' d'' : FpgaDriver}
    (h : ChangesOnly K ranges d d') (h' : ChangesOnly K ranges d' d'') :
    ChangesOnly K ranges d d'' := by
  refine ⟨h'.buffers.trans h.buffers, h'.nextAlloc.trans h.nextAlloc, fun o ho => ?_⟩
  by_cases hmid : d'.mem o = d.mem o
  · exact h'.mem o (by rwa [hmid])
  · exact h.mem o hmid

theorem ChangesOnly.mono {ranges ranges' : List (ℕ × ℕ)} {d d' : FpgaDriver}
    (h : ChangesOnly K ranges d d') (hsub : ranges ⊆ ranges') : ChangesOnly K ranges' d d' := by
  refine ⟨h.buffers, h.nextAlloc, fun o ho => ?_⟩
  obtain ⟨r, hr, hin⟩ := h.mem o ho
  exact ⟨r, hsub hr, hin⟩

/-- The call has a result, and changes bytes of the ranges at most. -/
def Loads (K : Aperture) (ranges : List (ℕ × ℕ)) (d : FpgaDriver)
    (r : Option Bool × FpgaDriver) : Prop :=
  (∃ ok, r.1 = some ok) ∧ ChangesOnly K ranges d r.2

/-- One part of loading after another, if the first one succeeds. -/
theorem Loads.andThen {ranges : List (ℕ × ℕ)} {r : Option Bool × FpgaDriver}
    (h : Loads K ranges d r) {f : FpgaDriver → Option Bool × FpgaDriver}
    (hf : ∀ d', Loads K ranges d' (f d')) :
    Loads K ranges d (FpgaDriver.andThen r f) := by
  obtain ⟨r, d'⟩ := r
  obtain ⟨⟨ok, rfl⟩, hch⟩ := h
  cases ok with
  | false => exact ⟨⟨false, rfl⟩, hch⟩
  | true => exact ⟨(hf d').1, hch.trans (hf d').2⟩

/-- A write of the loader; addresses and sizes come from 32-bit fields. -/
theorem writeMem_loads {ranges : List (ℕ × ℕ)} {a size : BitVec 32} (src : ℕ → Byte)
    (hr : (a.toNat, size.toNat) ∈ ranges) :
    Loads K ranges d (d.writeMem K (a.setWidth 64) src (size.setWidth 64)) := by
  have ha : (a.setWidth 64).toNat = a.toNat := by
    rw [BitVec.toNat_setWidth, Nat.mod_eq_of_lt (by omega)]
  have hsize : (size.setWidth 64).toNat = size.toNat := by
    rw [BitVec.toNat_setWidth, Nat.mod_eq_of_lt (by omega)]
  rcases writeMem_cases (K := K) (d := d) src
    (show (a.setWidth 64).toNat + (size.setWidth 64).toNat < 2 ^ 64 by omega)
    with ⟨heq, -⟩ | ⟨heq, hap⟩
  · rw [heq]
    exact ⟨⟨false, rfl⟩, .refl ranges d⟩
  · rw [heq]
    rw [ha, hsize] at hap ⊢
    refine ⟨⟨true, rfl⟩, rfl, rfl, fun o ho => ⟨_, hr, hap, ?_⟩⟩
    obtain ⟨hlo, -⟩ := hap
    dsimp only [memcpyTo] at ho
    split_ifs at ho with hin
    · dsimp only
      omega
    · exact absurd rfl ho

theorem verifySegment_ne_none (image : List Byte) (ph : Elf32ProgramHeader) (d : FpgaDriver) :
    ∃ ok, d.verifySegment K image ph = some ok := by
  unfold verifySegment
  dsimp only
  generalize (if verifyBytes < ph.pFilesz then verifyBytes else ph.pFilesz) = verify
  split_ifs
  · exact ⟨true, rfl⟩
  · have hend : (ph.pVaddr.setWidth 64).toNat + (verify.setWidth 64).toNat < 2 ^ 64 := by
      have ha := ph.pVaddr.isLt
      have hv := verify.isLt
      rw [BitVec.toNat_setWidth, BitVec.toNat_setWidth, Nat.mod_eq_of_lt (by omega),
        Nat.mod_eq_of_lt (by omega)]
      omega
    rcases readMem_eq (K := K) (d := d) hend with ⟨heq, -⟩ | ⟨heq, -⟩
    · rw [heq]
      exact ⟨false, rfl⟩
    · rw [heq]
      exact ⟨_, rfl⟩

theorem loadSegment_loads (image : List Byte) (ph : Elf32ProgramHeader) (d : FpgaDriver) :
    Loads K (segmentRanges ph) d (d.loadSegment K image ph) := by
  have hfile : Loads K (segmentRanges ph) d (d.writeFileBytes K image ph) := by
    unfold writeFileBytes
    split_ifs
    · exact ⟨⟨true, rfl⟩, .refl _ d⟩
    · exact writeMem_loads _ List.mem_cons_self
  have hzeros : ∀ d : FpgaDriver, Loads K (segmentRanges ph) d (d.writeZeros K ph) := by
    intro d
    unfold writeZeros
    split_ifs with hle
    · exact ⟨⟨true, rfl⟩, .refl _ d⟩
    · have hsize : (ph.pMemsz - ph.pFilesz).toNat = ph.pMemsz.toNat - ph.pFilesz.toNat :=
        BitVec.toNat_sub_of_le (BitVec.le_of_lt (BitVec.not_le.1 hle))
      refine writeMem_loads _ ?_
      rw [hsize]
      exact List.mem_cons_of_mem _ List.mem_cons_self
  exact hfile.andThen fun d' => (hzeros d').andThen fun d'' =>
    ⟨verifySegment_ne_none image ph d'', .refl _ d''⟩

theorem loadSegments_loads (image : List Byte) {is : List ℕ} {ranges : List (ℕ × ℕ)}
    (h : ∀ i ∈ is, headerRanges image i ⊆ ranges) (d : FpgaDriver) :
    Loads K ranges d (loadSegments K image is d) := by
  induction is generalizing d with
  | nil => exact ⟨⟨true, rfl⟩, .refl _ d⟩
  | cons i is ih =>
    have hrest := ih fun j hj => h j (List.mem_cons_of_mem _ hj)
    have hone := h i List.mem_cons_self
    unfold headerRanges at hone
    unfold loadSegments
    dsimp only at hone ⊢
    split_ifs with hbound hskip hfile
    · exact ⟨⟨false, rfl⟩, .refl _ d⟩
    · exact hrest d
    · exact ⟨⟨false, rfl⟩, .refl _ d⟩
    · rw [if_neg (by
        rw [not_or] at hskip
        simp only [not_or]
        exact ⟨hbound, hskip.1, hskip.2, hfile⟩)] at hone
      obtain ⟨hok, hch⟩ := loadSegment_loads (K := K) image
        (readProgramHeader image ((readElfHeader image).programHeaderOffset i)) d
      exact Loads.andThen ⟨hok, hch.mono hone⟩ hrest

theorem loadElfToFpga_changesOnly (image : List Byte) (d : FpgaDriver) :
    (d.loadElfToFpga K image).1 ≠ none ∧
      ChangesOnly K (elfRanges image) d (d.loadElfToFpga K image).2 := by
  unfold loadElfToFpga elfRanges
  cases hok : acceptsHeader image with
  | false => exact ⟨by simp, .refl _ d⟩
  | true =>
    have hload : Loads K ((List.range (readElfHeader image).ePhnum).flatMap (headerRanges image)) d
        (loadSegments K image (List.range (readElfHeader image).ePhnum) d) :=
      loadSegments_loads image
        (fun i hi r hr => List.mem_flatMap.2 ⟨i, hi, hr⟩) d
    obtain ⟨⟨ok, hres⟩, hch⟩ := hload
    rcases hl : loadSegments K image (List.range (readElfHeader image).ePhnum) d with ⟨r, d'⟩
    rw [hl] at hres hch
    obtain rfl : r = some ok := hres
    cases ok with
    | true => exact ⟨by simp, ⟨hch.buffers, hch.nextAlloc, hch.mem⟩⟩
    | false => exact ⟨by simp, hch⟩

/-! ## Sequences of calls -/

/-- Every allocation ends below 2^64, and no segment that is in the aperture meets a live buffer. -/
def Safe (K : Aperture) (d : FpgaDriver) : FpgaCall → Prop
  | .allocateBuffer size => d.nextAlloc.toNat + alignedSize size < 2 ^ 64
  | .loadElfToFpga image => ∀ r ∈ elfRanges image, InAperture K r.1 r.2 →
      ∀ a size, d.buffers a = some size →
        r.2 = 0 ∨ r.1 + r.2 ≤ a.toNat ∨ a.toNat + size.toNat ≤ r.1
  | _ => True

theorem HeapInv.step (hinv : HeapInv K d) {c : FpgaCall} (hsafe : Safe K d c) :
    HeapInv K (c.step K d).2 := by
  cases c with
  | allocateBuffer size => exact hinv.allocateBuffer hsafe
  | freeBuffer devAddr => exact hinv.freeBuffer devAddr
  | copyToDevice dst src size =>
    show HeapInv K (d.copyToDevice K dst src size).2
    rcases copyToDevice_cases hinv dst src size with heq | ⟨_, -, -, heq⟩ <;> rw [heq]
    · exact hinv
    · exact hinv.congr rfl rfl
  | copyFromDevice src size =>
    show HeapInv K (d.copyFromDevice K src size).2
    rcases copyFromDevice_cases hinv src size with ⟨heq, -⟩ | ⟨_, -, -, heq⟩ <;> rw [heq] <;>
      exact hinv
  | loadElfToFpga image =>
    obtain ⟨-, hch⟩ := loadElfToFpga_changesOnly (K := K) image d
    exact hinv.congr hch.buffers hch.nextAlloc

/-- No call is undefined. -/
theorem HeapInv.step_ne_none (hinv : HeapInv K d) (c : FpgaCall) : (c.step K d).1 ≠ none := by
  cases c with
  | allocateBuffer size => exact Option.some_ne_none _
  | freeBuffer devAddr => exact Option.some_ne_none _
  | copyToDevice dst src size =>
    show (d.copyToDevice K dst src size).1 ≠ none
    rcases copyToDevice_cases hinv dst src size with heq | ⟨_, -, -, heq⟩ <;> rw [heq] <;>
      exact Option.some_ne_none _
  | copyFromDevice src size =>
    show (d.copyFromDevice K src size).1 ≠ none
    rcases copyFromDevice_cases hinv src size with ⟨heq, -⟩ | ⟨_, -, -, heq⟩ <;> rw [heq] <;>
      exact Option.some_ne_none _
  | loadElfToFpga image => exact (loadElfToFpga_changesOnly image d).1

/-- The bytes `[a, a + size)` are in the aperture and in the live buffer `a`. -/
def InBuffer (K : Aperture) (d : FpgaDriver) (a size : BitVec 64) : Prop :=
  InAperture K a.toNat size.toNat ∧
    ∃ bufferSize, d.buffers a = some bufferSize ∧ size.toNat ≤ bufferSize.toNat

/-- A copy that succeeds changes or returns bytes of the buffer it names. -/
def CopyInside (K : Aperture) (d : FpgaDriver) : FpgaCall → Prop
  | .copyToDevice dst src size => ∀ d', d.copyToDevice K dst src size = (some succeeded, d') →
      InBuffer K d dst size ∧ d'.buffers = d.buffers ∧
        ∀ o, d'.mem o = if dst.toNat ≤ K.memBase.toNat + o ∧
          K.memBase.toNat + o < dst.toNat + size.toNat
          then src (K.memBase.toNat + o - dst.toNat) else d.mem o
  | .copyFromDevice src size => ∀ data d',
      d.copyFromDevice K src size = (some ⟨true, none, data⟩, d') →
        InBuffer K d src size ∧ d' = d ∧
          data = d.memcpyFrom (src.toNat - K.memBase.toNat) size.toNat
  | _ => True

theorem HeapInv.copyInside (hinv : HeapInv K d) (c : FpgaCall) : CopyInside K d c := by
  have hin : ∀ {a bufferSize size : BitVec 64}, d.buffers a = some bufferSize →
      size.toNat ≤ bufferSize.toNat → InBuffer K d a size := by
    intro a bufferSize size hb hle
    obtain ⟨hlo, hhi⟩ := hinv.inAperture hb
    exact ⟨⟨hlo, by omega⟩, bufferSize, hb, hle⟩
  cases c with
  | copyToDevice dst src size =>
    intro d' hcopy
    rcases copyToDevice_cases hinv dst src size with heq | ⟨bufferSize, hb, hle, heq⟩
    · rw [heq] at hcopy
      exact absurd hcopy (by simp [failed, succeeded])
    · rw [heq] at hcopy
      obtain ⟨-, rfl⟩ := Prod.mk.inj hcopy
      refine ⟨hin hb hle, rfl, fun o => ?_⟩
      obtain ⟨hlo, -⟩ := hinv.inAperture hb
      dsimp only [memcpyTo]
      split_ifs with h h' h' <;> try omega
      · congr 1
        omega
      · rfl
  | copyFromDevice src size =>
    intro data d' hcopy
    rcases copyFromDevice_cases hinv src size with ⟨heq, -⟩ | ⟨bufferSize, hb, hle, heq⟩
    · rw [heq] at hcopy
      exact absurd hcopy (by simp [failed])
    · rw [heq] at hcopy
      obtain ⟨hdata, rfl⟩ := Prod.mk.inj hcopy
      refine ⟨hin hb hle, rfl, ?_⟩
      simpa using hdata.symm
  | _ => exact trivial

/-- A failing allocate, free or copy changes nothing. -/
def FailsCleanly (K : Aperture) (d : FpgaDriver) : FpgaCall → Prop
  | .loadElfToFpga _ => True
  | c => ∀ r, (c.step K d).1 = some r → r.ok = false → (c.step K d).2 = d

theorem HeapInv.failsCleanly (hinv : HeapInv K d) {c : FpgaCall} (hsafe : Safe K d c) :
    FailsCleanly K d c := by
  cases c with
  | allocateBuffer size =>
    show ∀ r, some (d.allocateBuffer K size).1 = some r → r.ok = false →
      (d.allocateBuffer K size).2 = d
    rintro r hr hfail
    rcases allocateBuffer_cases hsafe with heq | ⟨-, -, -, next, -, heq⟩ <;> rw [heq] at hr ⊢
    obtain rfl := Option.some.inj hr
    exact absurd hfail (by simp)
  | freeBuffer devAddr =>
    show ∀ r, some (d.freeBuffer devAddr).1 = some r → r.ok = false →
      (d.freeBuffer devAddr).2 = d
    unfold FpgaDriver.freeBuffer
    rintro r hr hfail
    cases hb : d.buffers devAddr with
    | none => rfl
    | some _ =>
      rw [hb] at hr
      obtain rfl := Option.some.inj hr
      exact absurd hfail (by simp [succeeded])
  | copyToDevice dst src size =>
    show ∀ r, (d.copyToDevice K dst src size).1 = some r → r.ok = false →
      (d.copyToDevice K dst src size).2 = d
    rintro r hr hfail
    rcases copyToDevice_cases hinv dst src size with heq | ⟨_, -, -, heq⟩ <;> rw [heq] at hr ⊢
    obtain rfl := Option.some.inj hr
    exact absurd hfail (by simp [succeeded])
  | copyFromDevice src size =>
    show ∀ r, (d.copyFromDevice K src size).1 = some r → r.ok = false →
      (d.copyFromDevice K src size).2 = d
    rintro r - -
    rcases copyFromDevice_cases hinv src size with ⟨heq, -⟩ | ⟨_, -, -, heq⟩ <;> rw [heq]
  | loadElfToFpga image => exact trivial

/-- The call writes or frees the buffer. -/
def Overwrites (K : Aperture) (a : Address) (d : FpgaDriver) : FpgaCall → Prop
  | .copyToDevice dst src size => dst = a ∧ (d.copyToDevice K dst src size).1 = some succeeded
  | .freeBuffer devAddr => devAddr = a
  | _ => False

/-- Any other call leaves the buffer live, with the same bytes. -/
theorem HeapInv.keeps (hinv : HeapInv K d) {c : FpgaCall} (hsafe : Safe K d c) {a : Address}
    {size : BitVec 64} (hb : d.buffers a = some size) (hnot : ¬ Overwrites K a d c) :
    (c.step K d).2.buffers a = some size ∧
      ∀ o, a.toNat ≤ K.memBase.toNat + o → K.memBase.toNat + o < a.toNat + size.toNat →
        (c.step K d).2.mem o = d.mem o := by
  obtain ⟨hpos, -, hbelow⟩ := hinv.live a size hb
  cases c with
  | allocateBuffer size' =>
    show (d.allocateBuffer K size').2.buffers a = some size ∧ ∀ o, _ → _ →
      (d.allocateBuffer K size').2.mem o = d.mem o
    rcases allocateBuffer_cases hsafe with heq | ⟨-, -, -, next, -, heq⟩ <;> rw [heq]
    · exact ⟨hb, fun _ _ _ => rfl⟩
    · refine ⟨?_, fun _ _ _ => rfl⟩
      have hne : a ≠ d.nextAlloc := by
        rintro rfl
        omega
      exact (Function.update_of_ne hne _ _).trans hb
  | freeBuffer devAddr =>
    show (d.freeBuffer devAddr).2.buffers a = some size ∧ ∀ o, _ → _ →
      (d.freeBuffer devAddr).2.mem o = d.mem o
    have hne : a ≠ devAddr := fun h => hnot h.symm
    unfold FpgaDriver.freeBuffer
    cases d.buffers devAddr with
    | none => exact ⟨hb, fun _ _ _ => rfl⟩
    | some _ => exact ⟨(Function.update_of_ne hne _ _).trans hb, fun _ _ _ => rfl⟩
  | copyToDevice dst src size' =>
    show (d.copyToDevice K dst src size').2.buffers a = some size ∧ ∀ o, _ → _ →
      (d.copyToDevice K dst src size').2.mem o = d.mem o
    rcases copyToDevice_cases hinv dst src size' with heq | ⟨dstSize, hdst, hle, heq⟩ <;> rw [heq]
    · exact ⟨hb, fun _ _ _ => rfl⟩
    · refine ⟨hb, fun o hlo hhi => if_neg ?_⟩
      have hne : dst ≠ a := fun h => hnot ⟨h, congrArg Prod.fst heq⟩
      rcases hinv.disjoint dst a dstSize size hdst hb hne with h | h <;>
        · have hbase := (hinv.inAperture hdst).1
          omega
  | copyFromDevice src size' =>
    show (d.copyFromDevice K src size').2.buffers a = some size ∧ ∀ o, _ → _ →
      (d.copyFromDevice K src size').2.mem o = d.mem o
    rcases copyFromDevice_cases hinv src size' with ⟨heq, -⟩ | ⟨_, -, -, heq⟩ <;> rw [heq] <;>
      exact ⟨hb, fun _ _ _ => rfl⟩
  | loadElfToFpga image =>
    obtain ⟨-, hch⟩ := loadElfToFpga_changesOnly (K := K) image d
    refine ⟨(congrFun hch.buffers a).trans hb, fun o hlo hhi => ?_⟩
    by_contra hchanged
    obtain ⟨r, hr, hap, hrlo, hrhi⟩ := hch.mem o hchanged
    rcases hsafe r hr hap a size hb with h | h | h <;> omega

theorem heapInv_after {mem : ℕ → Byte} {cs : List FpgaCall}
    (h : Calls.Each (FpgaCall.step K) (Safe K) (opened K mem) cs) :
    HeapInv K (Calls.after (FpgaCall.step K) (opened K mem) cs) :=
  Calls.after_induction (fun _ d => HeapInv K d) (heapInv_opened mem)
    (fun _ _ hsafe hinv => hinv.step hsafe) h

/-- What the calls of a sequence leave alone. -/
structure Isolated (K : Aperture) (mem : ℕ → Byte) (cs : List FpgaCall) : Prop where
  /-- No call is undefined behaviour. -/
  defined : Calls.Each (FpgaCall.step K) (fun d c => (c.step K d).1 ≠ none) (opened K mem) cs
  inside : ∀ a size,
    (Calls.after (FpgaCall.step K) (opened K mem) cs).buffers a = some size →
      InAperture K a.toNat size.toNat
  disjoint : ∀ a b size size',
    (Calls.after (FpgaCall.step K) (opened K mem) cs).buffers a = some size →
      (Calls.after (FpgaCall.step K) (opened K mem) cs).buffers b = some size' → a ≠ b →
        a.toNat + size.toNat ≤ b.toNat ∨ b.toNat + size'.toNat ≤ a.toNat
  copies : Calls.Each (FpgaCall.step K) (CopyInside K) (opened K mem) cs
  /-- A copy back of what was written, with other calls in between. -/
  kept : ∀ pre dst src size mid n,
    cs = pre ++ FpgaCall.copyToDevice dst src size :: mid →
      (Calls.after (FpgaCall.step K) (opened K mem) pre).copyToDevice K dst src size =
        (some succeeded, Calls.after (FpgaCall.step K) (opened K mem)
          (pre ++ [FpgaCall.copyToDevice dst src size])) →
      Calls.Each (FpgaCall.step K) (fun d c => ¬ Overwrites K dst d c)
        (Calls.after (FpgaCall.step K) (opened K mem)
          (pre ++ [FpgaCall.copyToDevice dst src size])) mid →
      n ≤ size → ((Calls.after (FpgaCall.step K) (opened K mem) cs).copyFromDevice K dst n).1 =
        some ⟨true, none, (List.range n.toNat).map src⟩
  clean : Calls.Each (FpgaCall.step K) (FailsCleanly K) (opened K mem) cs

/-- The buffer keeps `src` over calls that do not overwrite it. -/
theorem kept_after {a : Address} {bufferSize size : BitVec 64} {src : ℕ → Byte}
    (hinv : HeapInv K d) (hb : d.buffers a = some bufferSize)
    (hle : size.toNat ≤ bufferSize.toNat)
    (hmem : ∀ i < size.toNat, d.mem (a.toNat - K.memBase.toNat + i) = src i)
    {mid : List FpgaCall} (hsafe : Calls.Each (FpgaCall.step K) (Safe K) d mid)
    (hnot : Calls.Each (FpgaCall.step K) (fun d c => ¬ Overwrites K a d c) d mid) :
    HeapInv K (Calls.after (FpgaCall.step K) d mid) ∧
      (Calls.after (FpgaCall.step K) d mid).buffers a = some bufferSize ∧
      ∀ i < size.toNat,
        (Calls.after (FpgaCall.step K) d mid).mem (a.toNat - K.memBase.toNat + i) = src i := by
  have hboth : Calls.Each (FpgaCall.step K) (fun d c => Safe K d c ∧ ¬ Overwrites K a d c) d mid :=
    fun pre c post heq => ⟨hsafe pre c post heq, hnot pre c post heq⟩
  refine Calls.after_induction (fun _ d => HeapInv K d ∧ d.buffers a = some bufferSize ∧
    ∀ i < size.toNat, d.mem (a.toNat - K.memBase.toNat + i) = src i) ⟨hinv, hb, hmem⟩ ?_ hboth
  rintro pre c ⟨hsafe, hnot⟩ ⟨hinv, hb, hmem⟩
  obtain ⟨hb', hsame⟩ := hinv.keeps hsafe hb hnot
  refine ⟨hinv.step hsafe, hb', fun i hi => ?_⟩
  have hbase := (hinv.inAperture hb).1
  rw [hsame _ (by omega) (by omega)]
  exact hmem i hi

/-- Buffers are isolated in every sequence of calls on an open driver in which no allocation ends
at 2^64 or above, and no segment of an image that is in the aperture meets a live buffer. -/
theorem isolated {mem : ℕ → Byte} {cs : List FpgaCall}
    (h : Calls.Each (FpgaCall.step K) (Safe K) (opened K mem) cs) : Isolated K mem cs where
  defined pre c post heq :=
    (heapInv_after (h.initial ⟨c :: post, heq.symm⟩)).step_ne_none c
  inside a size hb := (heapInv_after h).inAperture hb
  disjoint := (heapInv_after h).disjoint
  copies pre c post heq := (heapInv_after (h.initial ⟨c :: post, heq.symm⟩)).copyInside c
  kept := by
    rintro pre dst src size mid n rfl hcopy hnot hn
    have hpre := heapInv_after (h.initial ⟨_, rfl⟩)
    have happ : pre ++ FpgaCall.copyToDevice dst src size :: mid =
        (pre ++ [FpgaCall.copyToDevice dst src size]) ++ mid := by simp
    rw [happ] at h ⊢
    have hwritten := heapInv_after (h.initial ⟨mid, rfl⟩)
    obtain ⟨⟨hap, bufferSize, hb, hle⟩, hbuf, hmem⟩ :=
      hpre.copyInside (.copyToDevice dst src size) _ hcopy
    rw [Calls.after_append]
    obtain ⟨hinv, hb', hkept⟩ := kept_after hwritten (by rwa [hbuf]) hle
      (fun i hi => by
        obtain ⟨hlo, -⟩ := hap
        rw [hmem, if_pos (by omega)]
        congr 1
        omega) h.suffix hnot
    have hn' : n.toNat ≤ size.toNat := hn
    rcases copyFromDevice_cases hinv dst n with ⟨-, hlt⟩ | ⟨_, -, -, heq⟩
    · exact absurd (hlt _ hb') (by omega)
    · rw [heq]
      have hdata : memcpyFrom _ (dst.toNat - K.memBase.toNat) n.toNat =
          (List.range n.toNat).map src :=
        List.map_congr_left fun i hi => hkept i (lt_of_lt_of_le (List.mem_range.1 hi) hn')
      exact congrArg (fun data => some (FpgaResult.mk true none data)) hdata
  clean pre c post heq :=
    (heapInv_after (h.initial ⟨c :: post, heq.symm⟩)).failsCleanly (h pre c post heq)

/-- 64 KiB of device memory. -/
def smallAperture : Aperture where
  memBase := 0x10000000
  memSize := 0x10000
  memSize_pos := by decide
  fits := by decide

/-- One segment of four bytes at the bottom of the small aperture. -/
def smallImage : List Byte :=
  elfMagic ++ [elfClass32] ++ List.replicate 13 0 ++ [0xF3, 0, 0, 0, 0, 0] ++
    [0, 0, 0, 0x10] ++ [52, 0, 0, 0] ++ List.replicate 10 0 ++ [32, 0, 1, 0] ++
    List.replicate 6 0 ++
    [1, 0, 0, 0] ++ [84, 0, 0, 0] ++ [0, 0, 0, 0x10] ++ [0, 0, 0, 0x10] ++ [4, 0, 0, 0] ++
    [4, 0, 0, 0] ++ List.replicate 8 0 ++ [0x6F, 0, 0, 0]

/-- A kernel loaded below a live buffer. -/
theorem isolated_kernelBelow :
    Isolated smallAperture (fun _ => 0)
      [.allocateBuffer 100, .copyToDevice 0x10008000 (fun i => BitVec.ofNat 8 i) 100,
        .loadElfToFpga smallImage, .copyFromDevice 0x10008000 100] := by
  apply isolated
  have hsafe : (0x10008000 : Address).toNat + alignedSize 100 < 2 ^ 64 := by decide
  have hranges : elfRanges smallImage = [(0x10000000, 4), (0x10000004, 0)] := by decide
  refine Calls.each_cons.2 ⟨hsafe, Calls.each_cons.2 ⟨trivial, Calls.each_cons.2 ⟨?_,
    Calls.each_cons.2 ⟨trivial, Calls.each_nil⟩⟩⟩⟩
  intro r hr _ a size hb
  have ha : a = 0x10008000 := by
    by_contra hne
    have hnone : Function.update (fun _ => none) (0x10008000 : Address)
        (some (100 : BitVec 64)) a = some size := hb
    rw [Function.update_of_ne hne] at hnone
    exact absurd hnone (by simp)
  rw [hranges] at hr
  have hbelow : r.2 = 0 ∨ r.1 + r.2 ≤ (0x10008000 : Address).toNat := by
    fin_cases hr <;> decide
  subst ha
  exact hbelow.imp_right Or.inl

/-- The rounded size of this allocation is 0, so it succeeds. -/
theorem not_isolated : ¬ ∀ K mem cs, Isolated K mem cs := by
  intro h
  have hiso := h smallAperture (fun _ => 0) [.allocateBuffer (BitVec.allOnes 64)]
  have hin := hiso.inside 0x10008000 (BitVec.allOnes 64) rfl
  exact absurd hin.2 (by decide)

end FpgaDriver

end RiscvGpgpu.Host
