import RiscvGpgpu.Golden.Rv32Memory
import RiscvGpgpu.Lib.Calls

/-!
# The memory hierarchy as a byte memory

`ByteMemory` is a memory of bytes with an array for each block behind the shared window, and its
calls read and write the bytes of a range one by one. `guardedStep` is the same memory for ranges
that stay on one side of the window's edges, and turns down a range that starts in the window and
leaves it. The memory hierarchy answers as the guarded memory does (`log_eq_guarded`).
-/

namespace RiscvGpgpu.Golden

/-- The place of a byte. -/
inductive Cell where
  | global (addr : Address)
  | shared (blockId : BlockId) (offset : ℕ)
deriving DecidableEq

/-- The bytes, and the sizes of the blocks' arrays. -/
structure ByteMemory where
  cells : Cell → Byte
  arrays : BlockId → Option ℕ

/-- The shared window of a size. -/
def inWindow (W : BitVec 32) (addr : Address) : Bool :=
  sharedMemBase ≤ addr.toNat && addr.toNat < sharedMemBase + W.toNat

/-! ## The calls -/

inductive MemoryCall where
  | loadWord (addr : Address) (blockId : BlockId)
  | storeWord (addr : Address) (data : Word) (blockId : BlockId)
  | readBytes (addr : Address) (len : ℕ) (blockId : BlockId)
  | writeBytes (addr : Address) (data : List Byte) (blockId : BlockId)
  | invalidateCache
  | allocateSharedMemory (blockId : BlockId) (sizeBytes : BitVec 32)
  | releaseSharedMemory (blockId : BlockId)
deriving DecidableEq

/-- What a call returns; a word is missing where `loadWord` reports failure. -/
inductive MemoryResult where
  | word (data : Option Word)
  | bytes (data : List Byte)
  | flag (ok : Bool)
  | done
deriving DecidableEq

/-- The bytes that a word is made of. -/
def bytesOfWord (data : Word) : List Byte :=
  [data.setWidth 8, (data >>> 8).setWidth 8, (data >>> 16).setWidth 8, (data >>> 24).setWidth 8]

namespace MemoryCall

/-- The call on the memory hierarchy. -/
def step : MemoryCall → MemoryHierarchy → MemoryResult × MemoryHierarchy
  | loadWord addr blockId, h =>
    (.word (h.loadWord addr blockId).1, (h.loadWord addr blockId).2)
  | storeWord addr data blockId, h => (.done, h.storeWord addr data blockId)
  | readBytes addr len blockId, h => (.bytes (h.readBytes addr len blockId), h)
  | writeBytes addr data blockId, h => (.done, h.writeBytes addr data blockId)
  | invalidateCache, h => (.done, h.invalidateCache)
  | allocateSharedMemory blockId sizeBytes, h =>
    (.flag (h.allocateSharedMemory blockId sizeBytes).1,
      (h.allocateSharedMemory blockId sizeBytes).2)
  | releaseSharedMemory blockId, h => (.done, h.releaseSharedMemory blockId)

/-- The bytes that a call touches: their block, the address of the first one, and their number. -/
def range : MemoryCall → BlockId × Address × ℕ
  | loadWord addr blockId => (blockId, alignAddress addr, 4)
  | storeWord addr _ blockId => (blockId, alignAddress addr, 4)
  | readBytes addr len blockId => (blockId, addr, len)
  | writeBytes addr data blockId => (blockId, addr, data.length)
  | _ => (0, 0, 0)

/-- Address `i` of the range of a call. -/
def address (c : MemoryCall) (i : ℕ) : Address := c.range.2.1 + BitVec.ofNat 64 i

section Window

variable (W : BitVec 32) (c : MemoryCall)

/-- The range starts in the window and leaves it. -/
def Leaves : Prop := inWindow W (c.address 0) ∧ ∃ i < c.range.2.2, ¬ inWindow W (c.address i)

/-- The range starts outside the window and enters it. -/
def Enters : Prop := ¬ inWindow W (c.address 0) ∧ ∃ i < c.range.2.2, inWindow W (c.address i)

instance : Decidable (Leaves W c) := inferInstanceAs (Decidable (_ ∧ _))

instance : Decidable (Enters W c) := inferInstanceAs (Decidable (_ ∧ _))

/-- Every byte is outside the window, or in the array of the block. -/
def Accessible (m : ByteMemory) : Prop :=
  ∀ i < c.range.2.2, inWindow W (c.address i) →
    (c.address i).toNat - sharedMemBase < (m.arrays c.range.1).getD 0

instance (m : ByteMemory) : Decidable (Accessible W c m) :=
  inferInstanceAs (Decidable (∀ i < _, _ → _))

end Window

end MemoryCall

namespace ByteMemory

/-- Nothing written, and no arrays. -/
def init : ByteMemory := ⟨fun _ => 0, fun _ => none⟩

section Bytes

variable (W : BitVec 32) (m : ByteMemory) (blockId : BlockId)

def cell (addr : Address) : Cell :=
  if inWindow W addr then .shared blockId (addr.toNat - sharedMemBase) else .global addr

def read (addr : Address) : Byte := m.cells (cell W blockId addr)

def write (addr : Address) (b : Byte) : ByteMemory :=
  { m with cells := Function.update m.cells (cell W blockId addr) b }

def readAll (addr : Address) (len : ℕ) : List Byte :=
  (List.range len).map fun i => m.read W blockId (addr + BitVec.ofNat 64 i)

def writeAll (m : ByteMemory) (addr : Address) : List Byte → ByteMemory
  | [] => m
  | b :: bs => writeAll (m.write W blockId addr b) (addr + 1) bs

/-- An array of zeros for the block. -/
def newArray (size : ℕ) : ByteMemory where
  cells := fun c => match c with
    | .shared b offset => if b = blockId then 0 else m.cells (.shared b offset)
    | .global addr => m.cells (.global addr)
  arrays := Function.update m.arrays blockId (some size)

end Bytes

/-- The call on the byte memory. -/
def step (W : BitVec 32) : MemoryCall → ByteMemory → MemoryResult × ByteMemory
  | .loadWord addr blockId, m =>
    let a := alignAddress addr
    (.word (some (wordOfBytes (m.read W blockId a) (m.read W blockId (a + 1))
      (m.read W blockId (a + 2)) (m.read W blockId (a + 3)))), m)
  | .storeWord addr data blockId, m =>
    (.done, m.writeAll W blockId (alignAddress addr) (bytesOfWord data))
  | .readBytes addr len blockId, m => (.bytes (m.readAll W blockId addr len), m)
  | .writeBytes addr data blockId, m => (.done, m.writeAll W blockId addr data)
  | .invalidateCache, m => (.done, m)
  | .allocateSharedMemory blockId sizeBytes, m =>
    if W < sizeBytes then (.flag false, m)
    else (.flag true, m.newArray blockId sizeBytes.toNat)
  | .releaseSharedMemory blockId, m =>
    (.done, { m with arrays := Function.update m.arrays blockId none })

/-- What a call that is turned down returns. -/
def turnedDown : MemoryCall → MemoryResult
  | .loadWord _ _ => .word none
  | .readBytes _ len _ => .bytes (List.replicate len 0)
  | _ => .done

/-- The memory with the guard of the shared accesses: a range that starts in the window may not
leave it. -/
def guardedStep (W : BitVec 32) (c : MemoryCall) (m : ByteMemory) : MemoryResult × ByteMemory :=
  if c.Leaves W then (turnedDown c, m) else step W c m

/-! ## The memory hierarchy and the byte memory -/

/-- The memory hierarchy holds the bytes and arrays of the byte memory. -/
structure Represents (W : BitVec 32) (h : MemoryHierarchy) (m : ByteMemory) : Prop where
  size : h.sharedMemSize = W
  coherent : h.Coherent
  global : ∀ addr, inWindow W addr = false → h.globalByte addr = m.cells (.global addr)
  arrays : ∀ blockId, m.arrays blockId = (h.sharedMemory blockId).map List.length
  fits : ∀ blockId bytes, h.sharedMemory blockId = some bytes → bytes.length ≤ W.toNat
  shared : ∀ blockId bytes, h.sharedMemory blockId = some bytes →
    ∀ i < bytes.length, bytes[i]? = some (m.cells (.shared blockId i))

variable {W : BitVec 32} {h : MemoryHierarchy} {m : ByteMemory}

theorem inWindow_iff {addr : Address} : inWindow W addr = true ↔
    sharedMemBase ≤ addr.toNat ∧ addr.toNat < sharedMemBase + W.toNat := by
  unfold inWindow
  rw [Bool.and_eq_true, decide_eq_true_iff, decide_eq_true_iff]

theorem Represents.isShared (hrep : Represents W h m) (addr : Address) :
    h.isSharedMemoryAddress addr = inWindow W addr := by
  unfold MemoryHierarchy.isSharedMemoryAddress inWindow
  rw [hrep.size]

theorem represents_init (W : BitVec 32) : Represents W (.init W) init where
  size := rfl
  coherent := ⟨fun _ _ hd => absurd hd (by simp [MemoryHierarchy.init]),
    fun _ _ hd => absurd hd (by simp [MemoryHierarchy.init])⟩
  global := fun addr _ => by
    show wordByte 0 addr = 0
    unfold wordByte
    simp
  arrays := fun _ => rfl
  fits := fun _ _ hb => absurd hb (by simp [MemoryHierarchy.init])
  shared := fun _ _ hb => absurd hb (by simp [MemoryHierarchy.init])

/-! ### Global bytes -/

/-- The bytes written from an address on, at any address. -/
theorem globalByte_writeGlobalBytes (h : MemoryHierarchy) (addr : Address) {bs : List Byte}
    (hlen : bs.length ≤ 2 ^ 64) (a : Address) :
    (h.writeGlobalBytes addr bs).globalByte a = bs.getD (a - addr).toNat (h.globalByte a) := by
  induction bs generalizing h addr with
  | nil => rfl
  | cons b bs ih =>
    rw [List.length_cons] at hlen
    refine (ih (h.writeByte addr b) (addr + 1) (by omega)).trans ?_
    rw [MemoryHierarchy.globalByte_writeByte]
    by_cases heq : a = addr
    · have hfar : bs.length ≤ (a - (addr + 1)).toNat := by
        subst heq
        bv_omega
      have hzero : (a - addr).toNat = 0 := by
        subst heq
        bv_omega
      rw [if_pos heq, List.getD_eq_default _ _ hfar, hzero, List.getD_cons_zero]
    · have hsucc : (a - addr).toNat = (a - (addr + 1)).toNat + 1 := by bv_omega
      rw [if_neg heq, hsucc, List.getD_cons_succ]

/-- Other bytes than those of the global memory are as before. -/
theorem Represents.global_update (hrep : Represents W h m) {h' : MemoryHierarchy}
    {m' : ByteMemory} (hsize : h'.sharedMemSize = h.sharedMemSize)
    (hshared : h'.sharedMemory = h.sharedMemory) (hc : h'.Coherent)
    (harrays : m'.arrays = m.arrays)
    (hcells : ∀ b i, m'.cells (.shared b i) = m.cells (.shared b i))
    (hglobal : ∀ addr, inWindow W addr = false → h'.globalByte addr = m'.cells (.global addr)) :
    Represents W h' m' where
  size := hsize.trans hrep.size
  coherent := hc
  global := hglobal
  arrays := fun b => by
    rw [harrays, hshared]
    exact hrep.arrays b
  fits := fun b bytes hb => hrep.fits b bytes (by rwa [← hshared])
  shared := fun b bytes hb i hi => by
    rw [hcells]
    exact hrep.shared b bytes (by rwa [← hshared]) i hi

theorem Represents.writeByte (hrep : Represents W h m) {addr : Address}
    (hout : inWindow W addr = false) (b : Byte) (blockId : BlockId) :
    Represents W (h.writeByte addr b) (m.write W blockId addr b) := by
  have hcell : cell W blockId addr = .global addr := by
    unfold cell
    rw [hout]
    rfl
  refine hrep.global_update rfl rfl (hrep.coherent.writeByte addr b) rfl ?_ ?_
  · intro b' i
    show Function.update m.cells (cell W blockId addr) b (.shared b' i) = _
    rw [hcell, Function.update_of_ne (by simp)]
  · intro a ha
    show _ = Function.update m.cells (cell W blockId addr) b (.global a)
    rw [MemoryHierarchy.globalByte_writeByte, hcell, Function.update_apply]
    by_cases heq : a = addr
    · rw [if_pos heq, if_pos (congrArg Cell.global heq)]
    · rw [if_neg heq, if_neg (fun h => heq (Cell.global.inj h))]
      exact hrep.global a ha

/-- A range outside the window, byte by byte. -/
theorem Represents.writeGlobalBytes (hrep : Represents W h m) {addr : Address} {bs : List Byte}
    (hout : ∀ i < bs.length, inWindow W (addr + BitVec.ofNat 64 i) = false) (blockId : BlockId) :
    Represents W (h.writeGlobalBytes addr bs) (m.writeAll W blockId addr bs) := by
  induction bs generalizing h m addr with
  | nil => exact hrep
  | cons b bs ih =>
    have hfirst : inWindow W addr = false := by
      have h0 := hout 0 (Nat.succ_pos _)
      rwa [BitVec.add_zero] at h0
    refine ih (hrep.writeByte hfirst b blockId) fun i hi => ?_
    have hnext := hout (i + 1) (Nat.succ_lt_succ hi)
    rwa [Nat.add_comm, BitVec.ofNat_add, ← BitVec.add_assoc] at hnext

theorem Represents.read_global (hrep : Represents W h m) {addr : Address}
    (hout : inWindow W addr = false) (blockId : BlockId) :
    h.globalByte addr = m.read W blockId addr := by
  rw [hrep.global _ hout]
  unfold read cell
  rw [hout]
  rfl

theorem Represents.readAll_global (hrep : Represents W h m) {addr : Address} {len : ℕ}
    (hout : ∀ i < len, inWindow W (addr + BitVec.ofNat 64 i) = false) (blockId : BlockId) :
    (List.range len).map (fun i => h.globalByte (addr + BitVec.ofNat 64 i)) =
      m.readAll W blockId addr len :=
  List.map_congr_left fun i hi => hrep.read_global (hout i (List.mem_range.1 hi)) blockId

/-! ### Shared bytes -/

theorem Represents.setShared (hrep : Represents W h m) {blockId : BlockId} {bytes : List Byte}
    (hb : h.sharedMemory blockId = some bytes) {addr : Address} {offset : ℕ}
    (hcell : cell W blockId addr = .shared blockId offset) (hlt : offset < bytes.length)
    (b : Byte) :
    Represents W (h.setShared blockId (bytes.set offset b)) (m.write W blockId addr b) := by
  have hnew : ∀ b' bytes', (h.setShared blockId (bytes.set offset b)).sharedMemory b' =
      some bytes' → b' = blockId ∧ bytes' = bytes.set offset b ∨
        b' ≠ blockId ∧ h.sharedMemory b' = some bytes' := by
    intro b' bytes' hb'
    have hb' : Function.update h.sharedMemory blockId (some (bytes.set offset b)) b' =
      some bytes' := hb'
    by_cases heq : b' = blockId
    · subst heq
      rw [Function.update_self] at hb'
      exact .inl ⟨rfl, (Option.some.inj hb').symm⟩
    · rw [Function.update_of_ne heq] at hb'
      exact .inr ⟨heq, hb'⟩
  refine ⟨hrep.size, ⟨hrep.coherent.l1, hrep.coherent.l2⟩, fun a ha => ?_, fun b' => ?_,
    fun b' bytes' hb' => ?_, fun b' bytes' hb' i hi => ?_⟩
  · show h.globalByte a = Function.update m.cells (cell W blockId addr) b (.global a)
    rw [hcell, Function.update_of_ne (by simp)]
    exact hrep.global a ha
  · show m.arrays b' = (Function.update h.sharedMemory blockId _ b').map List.length
    by_cases heq : b' = blockId
    · subst heq
      rw [Function.update_self, hrep.arrays, hb]
      simp
    · rw [Function.update_of_ne heq]
      exact hrep.arrays b'
  · rcases hnew b' bytes' hb' with ⟨-, rfl⟩ | ⟨-, hold⟩
    · rw [List.length_set]
      exact hrep.fits blockId bytes hb
    · exact hrep.fits b' bytes' hold
  · show _ = some (Function.update m.cells (cell W blockId addr) b (.shared b' i))
    rw [hcell]
    rcases hnew b' bytes' hb' with ⟨rfl, rfl⟩ | ⟨hne, hold⟩
    · rw [List.length_set] at hi
      by_cases heq : i = offset
      · subst heq
        rw [Function.update_self, List.getElem?_set_self hlt]
      · rw [Function.update_of_ne (fun h => heq (Cell.shared.inj h).2),
          List.getElem?_set_ne (Ne.symm heq)]
        exact hrep.shared b' bytes hb i hi
    · rw [Function.update_of_ne (fun h => hne (Cell.shared.inj h).1)]
      exact hrep.shared b' bytes' hold i hi

/-- Overwriting from a place on is setting the first byte, and then overwriting the rest. -/
theorem splice_cons {bytes : List Byte} {offset : ℕ} (b : Byte) (bs : List Byte)
    (h : offset < bytes.length) :
    bytes.take offset ++ b :: bs ++ bytes.drop (offset + (b :: bs).length) =
      (bytes.set offset b).take (offset + 1) ++ bs ++
        (bytes.set offset b).drop (offset + 1 + bs.length) := by
  have htake : (bytes.set offset b).take (offset + 1) = bytes.take offset ++ [b] := by
    rw [List.take_set, List.take_succ_eq_append_getElem h, List.set_append_right _ _ (by simp),
      List.length_take, Nat.min_eq_left h.le, Nat.sub_self]
    rfl
  have hdrop : (bytes.set offset b).drop (offset + 1 + bs.length) =
      bytes.drop (offset + (b :: bs).length) := by
    rw [List.drop_set_of_lt (by omega), List.length_cons, Nat.add_assoc, Nat.add_comm 1]
  rw [htake, hdrop, List.append_assoc (bytes.take offset), List.append_assoc (bytes.take offset)]
  simp

/-- A range in a block's array, byte by byte. -/
theorem Represents.splice (hrep : Represents W h m) {blockId : BlockId} {bytes : List Byte}
    (hb : h.sharedMemory blockId = some bytes) {addr : Address} {offset : ℕ} {bs : List Byte}
    (hcell : ∀ i < bs.length,
      cell W blockId (addr + BitVec.ofNat 64 i) = .shared blockId (offset + i))
    (hle : offset + bs.length ≤ bytes.length) :
    Represents W (h.setShared blockId
      (bytes.take offset ++ bs ++ bytes.drop (offset + bs.length)))
      (m.writeAll W blockId addr bs) := by
  induction bs generalizing h m bytes addr offset with
  | nil =>
    have hsame : h.setShared blockId (bytes.take offset ++ [] ++ bytes.drop (offset + 0)) = h := by
      unfold MemoryHierarchy.setShared
      rw [List.append_nil, Nat.add_zero, List.take_append_drop, ← hb, Function.update_eq_self]
    exact hsame.symm ▸ hrep
  | cons b bs ih =>
    have hlt : offset < bytes.length := by
      rw [List.length_cons] at hle
      omega
    have hfirst : cell W blockId addr = .shared blockId offset := by
      have h0 := hcell 0 (Nat.succ_pos _)
      rwa [BitVec.add_zero] at h0
    have hone := hrep.setShared hb hfirst hlt b
    have hset : (h.setShared blockId (bytes.set offset b)).sharedMemory blockId =
        some (bytes.set offset b) := Function.update_self _ _ _
    rw [splice_cons b bs hlt]
    have hnext : ∀ i < bs.length,
        cell W blockId (addr + 1 + BitVec.ofNat 64 i) = .shared blockId (offset + 1 + i) := by
      intro i hi
      have h1 := hcell (i + 1) (Nat.succ_lt_succ hi)
      rwa [Nat.add_comm i 1, BitVec.ofNat_add, ← BitVec.add_assoc, ← Nat.add_assoc] at h1
    have hle' : offset + 1 + bs.length ≤ (bytes.set offset b).length := by
      rw [List.length_set]
      rw [List.length_cons] at hle
      omega
    have hrest := ih hone hset hnext hle'
    have htwice : ∀ x, (h.setShared blockId (bytes.set offset b)).setShared blockId x =
        h.setShared blockId x := by
      intro x
      unfold MemoryHierarchy.setShared
      dsimp only
      rw [Function.update_idem]
    rw [htwice] at hrest
    exact hrest

/-! ### Ranges on one side of the edges -/

/-- A range in the window ends where the window does, at most. -/
theorem end_le_of_inside {addr : Address} {len : ℕ} (hin : inWindow W addr = true)
    (hall : ∀ i < len, inWindow W (addr + BitVec.ofNat 64 i) = true) :
    addr.toNat + len ≤ sharedMemBase + W.toNat := by
  obtain ⟨hlo, hhi⟩ := inWindow_iff.1 hin
  have hbase : sharedMemBase = 0x00400000 := rfl
  have hW := W.isLt
  by_contra hlong
  obtain ⟨-, hlt⟩ := inWindow_iff.1 (hall (sharedMemBase + W.toNat - addr.toNat) (by omega))
  rw [BitVec.toNat_add, BitVec.toNat_ofNat] at hlt
  omega

theorem toNat_inside {addr : Address} {len i : ℕ}
    (hle : addr.toNat + len ≤ sharedMemBase + W.toNat) (hi : i < len) :
    (addr + BitVec.ofNat 64 i).toNat = addr.toNat + i := by
  have hbase : sharedMemBase = 0x00400000 := rfl
  have hW := W.isLt
  rw [BitVec.toNat_add, BitVec.toNat_ofNat]
  omega

/-- The bytes of a range in the window are consecutive bytes of the block's array. -/
theorem cell_inside {addr : Address} {len i : ℕ} (hin : inWindow W addr = true)
    (hall : ∀ i < len, inWindow W (addr + BitVec.ofNat 64 i) = true) (hi : i < len)
    (blockId : BlockId) : cell W blockId (addr + BitVec.ofNat 64 i) =
      .shared blockId (addr.toNat - sharedMemBase + i) := by
  have hlo := (inWindow_iff.1 hin).1
  have hnat := toNat_inside (end_le_of_inside hin hall) hi
  have hsub : addr.toNat + i - sharedMemBase = addr.toNat - sharedMemBase + i :=
    Nat.sub_add_comm hlo
  unfold cell
  rw [if_pos (hall i hi), hnat, hsub]

/-- A range of more than no bytes in the window is in an array. -/
theorem Represents.array_of_accessible (hrep : Represents W h m) {addr : Address} {len : ℕ}
    {blockId : BlockId} (hin : inWindow W addr = true)
    (hall : ∀ i < len, inWindow W (addr + BitVec.ofNat 64 i) = true) (hpos : 0 < len)
    (hacc : ∀ i < len, (addr + BitVec.ofNat 64 i).toNat - sharedMemBase <
      (m.arrays blockId).getD 0) :
    ∃ bytes, h.sharedMemory blockId = some bytes ∧
      addr.toNat - sharedMemBase + len ≤ bytes.length := by
  have hlo := (inWindow_iff.1 hin).1
  have hlast := hacc (len - 1) (by omega)
  rw [toNat_inside (end_le_of_inside hin hall) (by omega), hrep.arrays] at hlast
  cases hb : h.sharedMemory blockId with
  | none =>
    rw [hb] at hlast
    exact absurd hlast (Nat.not_lt_zero _)
  | some bytes =>
    rw [hb] at hlast
    have hlast : addr.toNat + (len - 1) - sharedMemBase < bytes.length := hlast
    exact ⟨bytes, rfl, by omega⟩

theorem Represents.sharedRange_eq (hrep : Represents W h m) {addr : Address} {len : ℕ}
    {blockId : BlockId} (hin : inWindow W addr = true)
    (hall : ∀ i < len, inWindow W (addr + BitVec.ofNat 64 i) = true) {bytes : List Byte}
    (hb : h.sharedMemory blockId = some bytes)
    (hle : addr.toNat - sharedMemBase + len ≤ bytes.length) :
    h.sharedRange blockId addr len = some (m.readAll W blockId addr len) := by
  unfold MemoryHierarchy.sharedRange
  rw [hb]
  dsimp only
  rw [if_pos hle]
  congr 1
  apply List.ext_getElem?
  intro i
  rw [List.getElem?_take, List.getElem?_drop]
  unfold readAll
  split_ifs with hi
  · rw [hrep.shared blockId bytes hb _ (by omega), List.getElem?_map, List.getElem?_range hi]
    show _ = some (m.cells (cell W blockId (addr + BitVec.ofNat 64 i)))
    rw [cell_inside hin hall hi]
  · rw [List.getElem?_eq_none (by rw [List.length_map, List.length_range]; omega)]

theorem Represents.setSharedRange (hrep : Represents W h m) {addr : Address}
    {data : List Byte} {blockId : BlockId} (hin : inWindow W addr = true)
    (hall : ∀ i < data.length, inWindow W (addr + BitVec.ofNat 64 i) = true)
    (harray : 0 < data.length → ∃ bytes, h.sharedMemory blockId = some bytes ∧
      addr.toNat - sharedMemBase + data.length ≤ bytes.length) :
    Represents W (h.setSharedRange blockId addr data) (m.writeAll W blockId addr data) := by
  unfold MemoryHierarchy.setSharedRange
  cases hb : h.sharedMemory blockId with
  | none =>
    cases data with
    | nil => exact hrep
    | cons b bs =>
      obtain ⟨bytes, hsome, -⟩ := harray (Nat.succ_pos _)
      exact absurd hsome (by rw [hb]; simp)
  | some bytes =>
    dsimp only
    split_ifs with hle
    · exact hrep.splice hb (fun i hi => cell_inside hin hall hi blockId) hle
    · cases data with
      | nil => exact hrep
      | cons b bs =>
        obtain ⟨bytes', hsome, hle'⟩ := harray (Nat.succ_pos _)
        rw [hb] at hsome
        obtain rfl := Option.some.inj hsome
        exact absurd hle' hle

/-- What a range that leaves the window asks for is in no array. -/
theorem Represents.sharedRange_leaves (hrep : Represents W h m) {addr : Address} {len : ℕ}
    (hin : inWindow W addr = true)
    (hout : ∃ i < len, inWindow W (addr + BitVec.ofNat 64 i) = false) (blockId : BlockId) :
    ∀ bytes, h.sharedMemory blockId = some bytes →
      bytes.length < addr.toNat - sharedMemBase + len := by
  intro bytes hb
  obtain ⟨hlo, hhi⟩ := inWindow_iff.1 hin
  have hfits := hrep.fits blockId bytes hb
  have hbase : sharedMemBase = 0x00400000 := rfl
  have hW := W.isLt
  obtain ⟨i, hi, hi'⟩ := hout
  by_contra hle
  have hin' : inWindow W (addr + BitVec.ofNat 64 i) = true := by
    rw [inWindow_iff, BitVec.toNat_add, BitVec.toNat_ofNat]
    omega
  rw [hi'] at hin'
  exact absurd hin' Bool.false_ne_true

/-- A range that does not enter the window leaves it, or is in it, or is outside it. -/
theorem range_cases {c : MemoryCall} (hent : ¬ c.Enters W) :
    c.Leaves W ∧ inWindow W c.range.2.1 = true ∧
        (∃ i < c.range.2.2, inWindow W (c.range.2.1 + BitVec.ofNat 64 i) = false) ∨
      ¬ c.Leaves W ∧ inWindow W c.range.2.1 = true ∧
        (∀ i < c.range.2.2, inWindow W (c.range.2.1 + BitVec.ofNat 64 i) = true) ∨
      ¬ c.Leaves W ∧ inWindow W c.range.2.1 = false ∧
        ∀ i < c.range.2.2, inWindow W (c.range.2.1 + BitVec.ofNat 64 i) = false := by
  have hzero : c.address 0 = c.range.2.1 := BitVec.add_zero _
  unfold MemoryCall.Enters at hent
  unfold MemoryCall.Leaves
  rw [hzero] at hent ⊢
  cases hin : inWindow W c.range.2.1 with
  | true =>
    by_cases hleave : ∃ i < c.range.2.2, ¬ inWindow W (c.address i)
    · refine .inl ⟨⟨rfl, hleave⟩, rfl, ?_⟩
      obtain ⟨i, hi, hout⟩ := hleave
      exact ⟨i, hi, Bool.eq_false_of_not_eq_true hout⟩
    · refine .inr (.inl ⟨fun h => hleave h.2, rfl, fun i hi => ?_⟩)
      by_contra hout
      exact hleave ⟨i, hi, hout⟩
  | false =>
    refine .inr (.inr ⟨fun h => absurd h.1 Bool.false_ne_true, rfl, fun i hi => ?_⟩)
    refine Bool.eq_false_of_not_eq_true fun hin' => hent ⟨?_, i, hi, hin'⟩
    rw [hin]
    exact Bool.false_ne_true

/-! ### The calls -/

/-- The calls of the memory hierarchy answer as those of the guarded memory. -/
def Simulates (W : BitVec 32) (h : MemoryHierarchy) (m : ByteMemory) (c : MemoryCall) : Prop :=
  (c.step h).1 = (guardedStep W c m).1 ∧ Represents W (c.step h).2 (guardedStep W c m).2

/-- The accessible range of a call in the window. -/
theorem Represents.array_of_call (hrep : Represents W h m) {c : MemoryCall}
    (hacc : c.Accessible W m) (hin : inWindow W c.range.2.1 = true)
    (hall : ∀ i < c.range.2.2, inWindow W (c.range.2.1 + BitVec.ofNat 64 i) = true)
    (hpos : 0 < c.range.2.2) : ∃ bytes, h.sharedMemory c.range.1 = some bytes ∧
      c.range.2.1.toNat - sharedMemBase + c.range.2.2 ≤ bytes.length :=
  hrep.array_of_accessible hin hall hpos fun i hi => hacc i hi (hall i hi)

theorem Represents.readBytes_simulates (hrep : Represents W h m) {addr : Address} {len : ℕ}
    {blockId : BlockId} (hacc : (MemoryCall.readBytes addr len blockId).Accessible W m)
    (hent : ¬ (MemoryCall.readBytes addr len blockId).Enters W) :
    Simulates W h m (.readBytes addr len blockId) := by
  suffices hread : MemoryResult.bytes (h.readBytes addr len blockId) =
      (guardedStep W (.readBytes addr len blockId) m).1 by
    refine ⟨hread, ?_⟩
    unfold guardedStep
    split_ifs <;> exact hrep
  unfold guardedStep
  rcases range_cases hent with ⟨hleave, hin, hout⟩ | ⟨hstay, hin, hall⟩ | ⟨hstay, hin, hall⟩
  · rw [if_pos hleave]
    have hin : inWindow W addr = true := hin
    refine congrArg MemoryResult.bytes ?_
    have hnone : h.sharedRange blockId addr len = none := by
      unfold MemoryHierarchy.sharedRange
      cases hb : h.sharedMemory blockId with
      | none => rfl
      | some bytes =>
        exact if_neg (Nat.not_le.2 (hrep.sharedRange_leaves hin hout blockId bytes hb))
    unfold MemoryHierarchy.readBytes
    rw [hrep.isShared, if_pos hin, hnone]
    split_ifs <;> rfl
  · rw [if_neg hstay]
    have hin : inWindow W addr = true := hin
    refine congrArg MemoryResult.bytes ?_
    have hend : (addr + BitVec.ofNat 64 len).toNat ≤ sharedMemBase + h.sharedMemSize.toNat := by
      have hle : addr.toNat + len ≤ sharedMemBase + W.toNat := end_le_of_inside hin hall
      have hmod := Nat.mod_le len (2 ^ 64)
      rw [hrep.size, BitVec.toNat_add, BitVec.toNat_ofNat]
      exact (Nat.mod_le _ _).trans (by omega)
    unfold MemoryHierarchy.readBytes
    rw [hrep.isShared, if_pos hin, if_neg (Nat.not_lt.2 hend)]
    rcases Nat.eq_zero_or_pos len with rfl | hpos
    · apply List.eq_nil_of_length_eq_zero
      cases hr : h.sharedRange blockId addr 0 with
      | none => rfl
      | some bytes => exact MemoryHierarchy.length_sharedRange h hr
    · obtain ⟨bytes, hb, hle⟩ := hrep.array_of_call hacc hin hall hpos
      have hrange := hrep.sharedRange_eq hin hall hb hle
      have hrange : h.sharedRange blockId addr len = some (m.readAll W blockId addr len) := hrange
      rw [hrange]
      rfl
  · rw [if_neg hstay]
    refine congrArg MemoryResult.bytes ?_
    have hin : inWindow W addr = false := hin
    unfold MemoryHierarchy.readBytes
    rw [hrep.isShared, hin, if_neg Bool.false_ne_true]
    exact hrep.readAll_global hall blockId

theorem Represents.writeBytes_simulates (hrep : Represents W h m) {addr : Address}
    {data : List Byte} {blockId : BlockId}
    (hacc : (MemoryCall.writeBytes addr data blockId).Accessible W m)
    (hent : ¬ (MemoryCall.writeBytes addr data blockId).Enters W) :
    Simulates W h m (.writeBytes addr data blockId) := by
  suffices hwrite : Represents W (h.writeBytes addr data blockId)
      (guardedStep W (.writeBytes addr data blockId) m).2 by
    refine ⟨?_, hwrite⟩
    unfold guardedStep
    split_ifs <;> rfl
  unfold guardedStep
  rcases range_cases hent with ⟨hleave, hin, hout⟩ | ⟨hstay, hin, hall⟩ | ⟨hstay, hin, hall⟩
  · rw [if_pos hleave]
    have hin : inWindow W addr = true := hin
    have hsame : h.setSharedRange blockId addr data = h := by
      unfold MemoryHierarchy.setSharedRange
      cases hb : h.sharedMemory blockId with
      | none => rfl
      | some bytes =>
        exact if_neg (Nat.not_le.2 (hrep.sharedRange_leaves hin hout blockId bytes hb))
    unfold MemoryHierarchy.writeBytes
    rw [hrep.isShared, if_pos hin, hsame]
    split_ifs <;> exact hrep
  · rw [if_neg hstay]
    have hin : inWindow W addr = true := hin
    have hend : (addr + BitVec.ofNat 64 data.length).toNat ≤
        sharedMemBase + h.sharedMemSize.toNat := by
      have hle : addr.toNat + data.length ≤ sharedMemBase + W.toNat := end_le_of_inside hin hall
      have hmod := Nat.mod_le data.length (2 ^ 64)
      rw [hrep.size, BitVec.toNat_add, BitVec.toNat_ofNat]
      exact (Nat.mod_le _ _).trans (by omega)
    unfold MemoryHierarchy.writeBytes
    rw [hrep.isShared, if_pos hin, if_neg (Nat.not_lt.2 hend)]
    exact hrep.setSharedRange hin hall (hrep.array_of_call hacc hin hall)
  · rw [if_neg hstay]
    have hin : inWindow W addr = false := hin
    unfold MemoryHierarchy.writeBytes
    rw [hrep.isShared, hin, if_neg Bool.false_ne_true]
    exact hrep.writeGlobalBytes hall blockId

/-- A word lies in the window as a whole, or ends behind it, or is outside it. -/
theorem word_not_enters {addr : Address} {blockId : BlockId} :
    ¬ (MemoryCall.loadWord addr blockId).Enters W := by
  rintro ⟨hout, i, hi, hin⟩
  have haligned : (alignAddress addr).toNat % 4 = 0 := by
    rw [toNat_alignAddress]
    omega
  have hbase : sharedMemBase = 0x00400000 := rfl
  have hzero : (MemoryCall.loadWord addr blockId).address 0 = alignAddress addr :=
    BitVec.add_zero _
  have hi : i < 4 := hi
  have hin : inWindow W (alignAddress addr + BitVec.ofNat 64 i) = true := hin
  rw [hzero, inWindow_iff] at hout
  obtain ⟨hlo, hhi⟩ := inWindow_iff.1 hin
  rw [BitVec.toNat_add, BitVec.toNat_ofNat] at hlo hhi
  have hlt := (alignAddress addr).isLt
  have hW := W.isLt
  omega

theorem readAll_four (addr : Address) (blockId : BlockId) : m.readAll W blockId addr 4 =
    [m.read W blockId addr, m.read W blockId (addr + 1), m.read W blockId (addr + 2),
      m.read W blockId (addr + 3)] := by
  have h0 : addr + BitVec.ofNat 64 0 = addr := BitVec.add_zero _
  show [m.read W blockId (addr + BitVec.ofNat 64 0), _, _, _] = _
  rw [h0]
  rfl

/-- A load leaves every byte as it was. -/
theorem Represents.loadWord (hrep : Represents W h m) (addr : Address) (blockId : BlockId) :
    Represents W (h.loadWord addr blockId).2 m := by
  obtain ⟨hglobal, hshared, hsize⟩ := h.loadWord_frame addr blockId
  refine hrep.global_update hsize hshared (hrep.coherent.loadWord addr blockId) rfl
    (fun _ _ => rfl) fun a ha => ?_
  unfold MemoryHierarchy.globalByte MemoryHierarchy.globalWord
  rw [hglobal]
  exact hrep.global a ha

theorem Represents.loadWord_simulates (hrep : Represents W h m) {addr : Address}
    {blockId : BlockId} (hacc : (MemoryCall.loadWord addr blockId).Accessible W m) :
    Simulates W h m (.loadWord addr blockId) := by
  suffices hload : MemoryResult.word (h.loadWord addr blockId).1 =
      (guardedStep W (.loadWord addr blockId) m).1 by
    refine ⟨hload, ?_⟩
    unfold guardedStep
    split_ifs <;> exact hrep.loadWord addr blockId
  have haligned : (alignAddress addr).toNat % 4 = 0 := by
    rw [toNat_alignAddress]
    omega
  unfold guardedStep
  rcases range_cases word_not_enters with ⟨hleave, hin, hout⟩ | ⟨hstay, hin, hall⟩ |
    ⟨hstay, hin, hall⟩
  · rw [if_pos hleave]
    have hin : inWindow W (alignAddress addr) = true := hin
    refine congrArg MemoryResult.word ?_
    have hnone : h.sharedRange blockId (alignAddress addr) 4 = none := by
      unfold MemoryHierarchy.sharedRange
      cases hb : h.sharedMemory blockId with
      | none => rfl
      | some bytes =>
        exact if_neg (Nat.not_le.2 (hrep.sharedRange_leaves hin hout blockId bytes hb))
    unfold MemoryHierarchy.loadWord MemoryHierarchy.loadSharedMemory
    dsimp only
    rw [hrep.isShared, if_pos hin, hnone]
    split_ifs <;> rfl
  · rw [if_neg hstay]
    have hin : inWindow W (alignAddress addr) = true := hin
    refine congrArg MemoryResult.word ?_
    obtain ⟨bytes, hb, hle⟩ := hrep.array_of_call hacc hin hall (by decide : 0 < 4)
    have hrange : h.sharedRange blockId (alignAddress addr) 4 =
        some (m.readAll W blockId (alignAddress addr) 4) := hrep.sharedRange_eq hin hall hb hle
    unfold MemoryHierarchy.loadWord MemoryHierarchy.loadSharedMemory
    dsimp only
    rw [hrep.isShared, if_pos hin, if_neg (Nat.not_lt.2 (inWindow_iff.1 hin).1), hrange,
      readAll_four]
  · rw [if_neg hstay]
    have hin : inWindow W (alignAddress addr) = false := hin
    refine congrArg MemoryResult.word ?_
    rw [MemoryHierarchy.loadWord_global ((hrep.isShared _).trans hin) hrep.coherent,
      MemoryHierarchy.globalWord_eq_bytes h haligned, wordOfBytes_eq_append]
    have hk : ∀ k : ℕ, k < 4 → h.globalByte (alignAddress addr + BitVec.ofNat 64 k) =
        m.read W blockId (alignAddress addr + BitVec.ofNat 64 k) :=
      fun k hk => hrep.read_global (hall k hk) blockId
    have h0 := hk 0 (by decide)
    have h1 : h.globalByte (alignAddress addr + 1) = m.read W blockId (alignAddress addr + 1) :=
      hk 1 (by decide)
    have h2 : h.globalByte (alignAddress addr + 2) = m.read W blockId (alignAddress addr + 2) :=
      hk 2 (by decide)
    have h3 : h.globalByte (alignAddress addr + 3) = m.read W blockId (alignAddress addr + 3) :=
      hk 3 (by decide)
    rw [BitVec.add_zero] at h0
    rw [h0, h1, h2, h3]

/-- An aligned word is stored as its bytes are. -/
theorem globalByte_storeWord {addr : Address}
    (hg : h.isSharedMemoryAddress (alignAddress addr) = false) (data : Word) (blockId : BlockId)
    (a : Address) : (h.storeWord addr data blockId).globalByte a =
      (h.writeGlobalBytes (alignAddress addr) (bytesOfWord data)).globalByte a := by
  have haligned : (alignAddress addr).toNat % 4 = 0 := by
    rw [toNat_alignAddress]
    omega
  rw [MemoryHierarchy.storeWord_global hg]
  refine (MemoryHierarchy.globalByte_update haligned data a).trans ?_
  have hlen : (bytesOfWord data).length ≤ 2 ^ 64 := Nat.le_of_ble_eq_true rfl
  rw [globalByte_writeGlobalBytes h _ hlen]
  have hbyte : ∀ k : ℕ, (data >>> k).setWidth 8 = data.extractLsb' k 8 := by
    intro k
    apply BitVec.eq_of_getLsbD_eq
    intro i hi
    simp [hi]
  have hlow : data.setWidth 8 = data.extractLsb' 0 8 := hbyte 0
  unfold bytesOfWord
  rw [hbyte, hbyte, hbyte, hlow]

theorem Represents.storeWord_simulates (hrep : Represents W h m) {addr : Address} {data : Word}
    {blockId : BlockId} (hacc : (MemoryCall.storeWord addr data blockId).Accessible W m) :
    Simulates W h m (.storeWord addr data blockId) := by
  suffices hstore : Represents W (h.storeWord addr data blockId)
      (guardedStep W (.storeWord addr data blockId) m).2 by
    refine ⟨?_, hstore⟩
    unfold guardedStep
    split_ifs <;> rfl
  have hload : ¬ (MemoryCall.loadWord addr blockId).Enters W := word_not_enters
  have hent : ¬ (MemoryCall.storeWord addr data blockId).Enters W := hload
  unfold guardedStep
  rcases range_cases hent with ⟨hleave, hin, hout⟩ | ⟨hstay, hin, hall⟩ | ⟨hstay, hin, hall⟩
  · rw [if_pos hleave]
    have hin : inWindow W (alignAddress addr) = true := hin
    have hsame : h.setSharedRange blockId (alignAddress addr) (bytesOfWord data) = h := by
      unfold MemoryHierarchy.setSharedRange
      cases hb : h.sharedMemory blockId with
      | none => rfl
      | some bytes =>
        exact if_neg (Nat.not_le.2 (hrep.sharedRange_leaves hin hout blockId bytes hb))
    unfold MemoryHierarchy.storeWord MemoryHierarchy.storeSharedMemory
    dsimp only
    rw [hrep.isShared, if_pos hin]
    split_ifs
    · exact hrep
    · exact hsame.symm ▸ hrep
  · rw [if_neg hstay]
    have hin : inWindow W (alignAddress addr) = true := hin
    unfold MemoryHierarchy.storeWord MemoryHierarchy.storeSharedMemory
    dsimp only
    rw [hrep.isShared, if_pos hin, if_neg (Nat.not_lt.2 (inWindow_iff.1 hin).1)]
    exact hrep.setSharedRange hin hall fun hpos => hrep.array_of_call hacc hin hall hpos
  · rw [if_neg hstay]
    have hin : inWindow W (alignAddress addr) = false := hin
    have hg := (hrep.isShared (alignAddress addr)).trans hin
    have hall : ∀ i < (bytesOfWord data).length,
      inWindow W (alignAddress addr + BitVec.ofNat 64 i) = false := hall
    have hbytes := hrep.writeGlobalBytes hall blockId
    obtain ⟨hshared, hsize⟩ := h.writeGlobalBytes_frame (alignAddress addr) (bytesOfWord data)
    refine hbytes.global_update ?_ ?_ (hrep.coherent.storeWord addr data blockId) rfl
      (fun _ _ => rfl) fun a ha => ?_
    · rw [hsize, MemoryHierarchy.storeWord_global hg]
    · rw [hshared, MemoryHierarchy.storeWord_global hg]
    · rw [globalByte_storeWord hg]
      exact hbytes.global a ha

/-- A new array is full of zeros. -/
theorem Represents.newArray (hrep : Represents W h m) (blockId : BlockId) {size : ℕ}
    (hsize : size ≤ W.toNat) :
    Represents W (h.setShared blockId (List.replicate size 0)) (m.newArray blockId size) := by
  have hcases : ∀ b bytes,
      (h.setShared blockId (List.replicate size 0)).sharedMemory b = some bytes →
        b = blockId ∧ bytes = List.replicate size 0 ∨
          b ≠ blockId ∧ h.sharedMemory b = some bytes := by
    intro b bytes hb
    have hb : Function.update h.sharedMemory blockId (some (List.replicate size 0)) b =
      some bytes := hb
    by_cases heq : b = blockId
    · subst heq
      rw [Function.update_self] at hb
      exact .inl ⟨rfl, (Option.some.inj hb).symm⟩
    · rw [Function.update_of_ne heq] at hb
      exact .inr ⟨heq, hb⟩
  refine ⟨hrep.size, ⟨hrep.coherent.l1, hrep.coherent.l2⟩, hrep.global, fun b => ?_,
    fun b bytes hb => ?_, fun b bytes hb i hi => ?_⟩
  · show Function.update m.arrays blockId _ b = (Function.update h.sharedMemory blockId _ b).map _
    by_cases heq : b = blockId
    · subst heq
      rw [Function.update_self, Function.update_self, Option.map_some, List.length_replicate]
    · rw [Function.update_of_ne heq, Function.update_of_ne heq]
      exact hrep.arrays b
  · rcases hcases b bytes hb with ⟨-, rfl⟩ | ⟨-, hold⟩
    · rw [List.length_replicate]
      exact hsize
    · exact hrep.fits b bytes hold
  · show _ = some (if b = blockId then 0 else m.cells (.shared b i))
    rcases hcases b bytes hb with ⟨rfl, rfl⟩ | ⟨hne, hold⟩
    · rw [List.length_replicate] at hi
      rw [if_pos rfl, List.getElem?_replicate_of_lt hi]
    · rw [if_neg hne]
      exact hrep.shared b bytes hold i hi

theorem Represents.allocate_simulates (hrep : Represents W h m) (blockId : BlockId)
    (sizeBytes : BitVec 32) : Simulates W h m (.allocateSharedMemory blockId sizeBytes) := by
  have hspec : guardedStep W (.allocateSharedMemory blockId sizeBytes) m =
      if W < sizeBytes then (.flag false, m)
      else (.flag true, m.newArray blockId sizeBytes.toNat) := by
    refine if_neg ?_
    rintro ⟨-, i, hi, -⟩
    exact absurd hi (Nat.not_lt_zero i)
  unfold Simulates
  rw [hspec]
  show MemoryResult.flag (h.allocateSharedMemory blockId sizeBytes).1 = _ ∧
    Represents W (h.allocateSharedMemory blockId sizeBytes).2 _
  unfold MemoryHierarchy.allocateSharedMemory
  rw [hrep.size]
  split_ifs with hlarge
  · exact ⟨rfl, hrep⟩
  · exact ⟨rfl, hrep.newArray blockId (BitVec.not_lt.1 hlarge)⟩

theorem Represents.release_simulates (hrep : Represents W h m) (blockId : BlockId) :
    Simulates W h m (.releaseSharedMemory blockId) := by
  have hspec : guardedStep W (.releaseSharedMemory blockId) m =
      (.done, { m with arrays := Function.update m.arrays blockId none }) := by
    refine if_neg ?_
    rintro ⟨-, i, hi, -⟩
    exact absurd hi (Nat.not_lt_zero i)
  have hold : ∀ {b bytes}, Function.update h.sharedMemory blockId none b = some bytes →
      h.sharedMemory b = some bytes := by
    intro b bytes hb
    by_cases heq : b = blockId
    · subst heq
      rw [Function.update_self] at hb
      exact absurd hb (by simp)
    · rwa [Function.update_of_ne heq] at hb
  unfold Simulates
  rw [hspec]
  refine ⟨rfl, hrep.size, ⟨hrep.coherent.l1, hrep.coherent.l2⟩, hrep.global, fun b => ?_,
    fun b bytes hb => hrep.fits b bytes (hold hb),
    fun b bytes hb => hrep.shared b bytes (hold hb)⟩
  show Function.update m.arrays blockId none b =
    (Function.update h.sharedMemory blockId none b).map _
  by_cases heq : b = blockId
  · subst heq
    rw [Function.update_self, Function.update_self]
    rfl
  · rw [Function.update_of_ne heq, Function.update_of_ne heq]
    exact hrep.arrays b

theorem Represents.simulates (hrep : Represents W h m) {c : MemoryCall}
    (hacc : c.Accessible W m) (hent : ¬ c.Enters W) : Simulates W h m c := by
  cases c with
  | loadWord addr blockId => exact hrep.loadWord_simulates hacc
  | storeWord addr data blockId => exact hrep.storeWord_simulates hacc
  | readBytes addr len blockId => exact hrep.readBytes_simulates hacc hent
  | writeBytes addr data blockId => exact hrep.writeBytes_simulates hacc hent
  | invalidateCache =>
    have hstay : ¬ MemoryCall.invalidateCache.Leaves W := by
      rintro ⟨-, i, hi, -⟩
      exact absurd hi (Nat.not_lt_zero i)
    unfold Simulates guardedStep
    rw [if_neg hstay]
    exact ⟨rfl, hrep.global_update rfl rfl (MemoryHierarchy.coherent_invalidateCache h) rfl
      (fun _ _ => rfl) hrep.global⟩
  | allocateSharedMemory blockId sizeBytes => exact hrep.allocate_simulates blockId sizeBytes
  | releaseSharedMemory blockId => exact hrep.release_simulates blockId

/-- For all calls to accessible bytes in ranges that do not enter the window, the memory hierarchy
answers as the byte memory that turns down a range which starts in the window and leaves it. -/
theorem log_eq_guarded (W : BitVec 32) {cs : List MemoryCall}
    (hcs : Calls.Each (guardedStep W) (fun m c => c.Accessible W m ∧ ¬ c.Enters W) init cs) :
    Calls.log MemoryCall.step (.init W) cs = Calls.log (guardedStep W) init cs := by
  refine Calls.log_eq (Represents W) ?_ (represents_init W) hcs
  rintro h m c hrep ⟨hacc, hent⟩
  exact hrep.simulates hacc hent

/-- A word in the array of one block, bytes of it read by that block and by another one, and a byte
behind the window. -/
theorem log_eq_guarded_twoBlocks :
    Calls.log MemoryCall.step (.init 16)
        [.allocateSharedMemory 0 16, .allocateSharedMemory 1 16,
          .storeWord 0x00400004 0x11223344 0, .readBytes 0x00400005 2 0,
          .readBytes 0x00400005 2 1, .writeBytes 0x00500000 [7] 0, .loadWord 0x00500000 1] =
      [(.allocateSharedMemory 0 16, .flag true), (.allocateSharedMemory 1 16, .flag true),
        (.storeWord 0x00400004 0x11223344 0, .done),
        (.readBytes 0x00400005 2 0, .bytes [0x33, 0x22]),
        (.readBytes 0x00400005 2 1, .bytes [0, 0]), (.writeBytes 0x00500000 [7] 0, .done),
        (.loadWord 0x00500000 1, .word (some 7))] := by
  rw [log_eq_guarded 16 (Calls.each_cons.2 ⟨⟨by decide, by decide⟩,
    Calls.each_cons.2 ⟨⟨by decide, by decide⟩, Calls.each_cons.2 ⟨⟨by decide, by decide⟩,
    Calls.each_cons.2 ⟨⟨by decide, by decide⟩, Calls.each_cons.2 ⟨⟨by decide, by decide⟩,
    Calls.each_cons.2 ⟨⟨by decide, by decide⟩, Calls.each_cons.2 ⟨⟨by decide, by decide⟩,
    Calls.each_nil⟩⟩⟩⟩⟩⟩⟩)]
  decide

/-- A range of which the last bytes are behind the window is not written. -/
theorem not_log_eq : ¬ ∀ W cs,
    Calls.Each (step W) (fun m c => c.Accessible W m) init cs →
      Calls.log MemoryCall.step (.init W) cs = Calls.log (step W) init cs := by
  intro h
  have hlog := h 4 [.allocateSharedMemory 0 4, .writeBytes 0x00400002 [1, 2, 3, 4] 0,
    .readBytes 0x00400002 2 0] (Calls.each_cons.2 ⟨by decide, Calls.each_cons.2 ⟨by decide,
      Calls.each_cons.2 ⟨by decide, Calls.each_nil⟩⟩⟩)
  have hread := congrArg (fun l => (l.map Prod.snd)[2]?) hlog
  exact absurd hread (by decide)

end ByteMemory

end RiscvGpgpu.Golden
