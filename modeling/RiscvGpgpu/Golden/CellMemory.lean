import RiscvGpgpu.Golden.ByteMemory

/-!
# The memory hierarchy, cell by cell

`cellByte` is the byte of a cell; the cells behind the end of a block's array have none. A load or a
store goes to the cells of `wordCells` or `byteCells` and to no others, and does nothing if one of
them has no byte.
-/

namespace RiscvGpgpu.Golden

/-- The cells from an address of the global memory on. -/
def globalCells (addr : Address) : ℕ → List Cell
  | 0 => []
  | n + 1 => .global addr :: globalCells (addr + 1) n

/-- The cells from a place in a block's array on. -/
def sharedCells (blockId : BlockId) (offset : ℕ) : ℕ → List Cell
  | 0 => []
  | n + 1 => .shared blockId offset :: sharedCells blockId (offset + 1) n

theorem length_globalCells (addr : Address) (len : ℕ) : (globalCells addr len).length = len := by
  induction len generalizing addr with
  | zero => rfl
  | succ len ih => exact congrArg Nat.succ (ih (addr + 1))

theorem length_sharedCells (blockId : BlockId) (offset len : ℕ) :
    (sharedCells blockId offset len).length = len := by
  induction len generalizing offset with
  | zero => rfl
  | succ len ih => exact congrArg Nat.succ (ih (offset + 1))

section Cells

variable (W : BitVec 32) (blockId : BlockId) (addr : Address)

/-- The cells of `readBytes` and `writeBytes`; a range that leaves the window has none. -/
def byteCells (len : ℕ) : List Cell :=
  if inWindow W addr then
    if sharedMemBase + W.toNat < (addr + BitVec.ofNat 64 len).toNat then []
    else sharedCells blockId (addr.toNat - sharedMemBase) len
  else globalCells addr len

/-- The cells of `loadWord` and `storeWord`. -/
def wordCells : List Cell :=
  if inWindow W (alignAddress addr) then
    sharedCells blockId ((alignAddress addr).toNat - sharedMemBase) 4
  else globalCells (alignAddress addr) 4

theorem length_byteCells_le (len : ℕ) : (byteCells W blockId addr len).length ≤ len := by
  unfold byteCells
  split_ifs
  · exact Nat.zero_le _
  · exact (length_sharedCells _ _ _).le
  · exact (length_globalCells _ _).le

end Cells

/-- The word that some bytes make. -/
def wordOf (bytes : List Byte) : Word :=
  wordOfBytes (bytes.getD 0 0) (bytes.getD 1 0) (bytes.getD 2 0) (bytes.getD 3 0)

/-! ## Cells with and without bytes -/

/-- The bytes of some cells, if each of them has one. -/
def readCells (f : Cell → Option Byte) : List Cell → Option (List Byte)
  | [] => some []
  | c :: cs => (f c).bind fun b => (readCells f cs).map (b :: ·)

def overwrite (f : Cell → Option Byte) : List Cell → List Byte → Cell → Option Byte
  | c :: cs, b :: bs => overwrite (Function.update f c (some b)) cs bs
  | _, _ => f

/-- Bytes written to some cells, if each of them has one. -/
def writeCells (f : Cell → Option Byte) (cs : List Cell) (bs : List Byte) : Cell → Option Byte :=
  if (readCells f cs).isSome then overwrite f cs bs else f

section Maps

variable {f g : Cell → Option Byte} {cs : List Cell} {bs : List Byte} {c : Cell}

theorem readCells_congr (h : ∀ c ∈ cs, f c = g c) : readCells f cs = readCells g cs := by
  induction cs with
  | nil => rfl
  | cons c cs ih =>
    rw [readCells, readCells, h c List.mem_cons_self,
      ih fun c' hc => h c' (List.mem_cons_of_mem _ hc)]

theorem isSome_readCells : (readCells f cs).isSome = cs.all fun c => (f c).isSome := by
  induction cs with
  | nil => rfl
  | cons c cs ih =>
    rw [readCells, List.all_cons, ← ih]
    cases f c with
    | none => rfl
    | some b => simp

theorem getElem?_readCells (h : readCells f cs = some bs) (k : ℕ) : bs[k]? = cs[k]?.bind f := by
  induction cs generalizing bs k with
  | nil =>
    obtain rfl := Option.some.inj h
    rfl
  | cons c cs ih =>
    obtain ⟨b, hb, hrest⟩ := Option.bind_eq_some_iff.1 h
    obtain ⟨bs', hbs, rfl⟩ := Option.map_eq_some_iff.1 hrest
    cases k with
    | zero => exact hb.symm
    | succ k => exact ih hbs k

theorem overwrite_frame (hc : c ∉ cs) : overwrite f cs bs c = f c := by
  induction cs generalizing f bs with
  | nil => rfl
  | cons c' cs ih =>
    cases bs with
    | nil => rfl
    | cons b bs =>
      rw [overwrite, ih fun h => hc (List.mem_cons_of_mem _ h),
        Function.update_of_ne (List.ne_of_not_mem_cons hc)]

theorem overwrite_congr (hc : f c = g c) : overwrite f cs bs c = overwrite g cs bs c := by
  induction cs generalizing f g bs with
  | nil => exact hc
  | cons c' cs ih =>
    cases bs with
    | nil => exact hc
    | cons b bs =>
      refine ih ?_
      rw [Function.update_apply, Function.update_apply, hc]

theorem isSome_overwrite (hcs : ∀ c' ∈ cs, (f c').isSome) :
    (overwrite f cs bs c).isSome = (f c).isSome := by
  induction cs generalizing f bs with
  | nil => rfl
  | cons c' cs ih =>
    cases bs with
    | nil => rfl
    | cons b bs =>
      have hsame : ∀ c'', (Function.update f c' (some b) c'').isSome = (f c'').isSome := by
        intro c''
        rw [Function.update_apply]
        split_ifs with heq
        · rw [heq, hcs c' List.mem_cons_self]
          rfl
        · rfl
      rw [overwrite, ih fun c'' hc => by rw [hsame]; exact hcs c'' (List.mem_cons_of_mem _ hc),
        hsame]

theorem writeCells_frame (hc : c ∉ cs) : writeCells f cs bs c = f c := by
  unfold writeCells
  split_ifs
  · exact overwrite_frame hc
  · rfl

theorem writeCells_congr (h : ∀ c ∈ cs, f c = g c) (hc : f c = g c) :
    writeCells f cs bs c = writeCells g cs bs c := by
  unfold writeCells
  rw [readCells_congr h]
  split_ifs
  · exact overwrite_congr hc
  · exact hc

theorem isSome_writeCells : (writeCells f cs bs c).isSome = (f c).isSome := by
  unfold writeCells
  split_ifs with hall
  · rw [isSome_readCells, List.all_eq_true] at hall
    exact isSome_overwrite hall
  · rfl

/-- What is written does not depend on what was there. -/
theorem overwrite_mem (hlen : cs.length ≤ bs.length) (hc : c ∈ cs) :
    overwrite f cs bs c = overwrite g cs bs c := by
  induction cs generalizing f g bs with
  | nil => exact absurd hc List.not_mem_nil
  | cons c' cs ih =>
    cases bs with
    | nil => exact absurd hlen (Nat.not_succ_le_zero _)
    | cons b bs =>
      rw [overwrite, overwrite]
      by_cases hmem : c ∈ cs
      · exact ih (Nat.le_of_succ_le_succ hlen) hmem
      · obtain rfl : c = c' := (List.mem_cons.1 hc).resolve_right hmem
        rw [overwrite_frame hmem, overwrite_frame hmem, Function.update_self, Function.update_self]

end Maps

/-! ## The cells of a memory hierarchy -/

namespace MemoryHierarchy

variable {W : BitVec 32} {h : MemoryHierarchy} {blockId : BlockId} {addr : Address}

/-- The byte in a cell, if the cell is there. -/
def cellByte (h : MemoryHierarchy) : Cell → Option Byte
  | .global addr => some (h.globalByte addr)
  | .shared blockId offset => (h.sharedMemory blockId).bind fun bytes => bytes[offset]?

theorem cellByte_shared (h : MemoryHierarchy) (blockId : BlockId) (offset : ℕ) :
    h.cellByte (.shared blockId offset) =
      (h.sharedMemory blockId).bind fun bytes => bytes[offset]? := rfl

/-- Coherent caches, and a shared window of this size. -/
structure Windowed (W : BitVec 32) (h : MemoryHierarchy) : Prop where
  coherent : h.Coherent
  size : h.sharedMemSize = W

theorem Windowed.isShared (hw : h.Windowed W) (addr : Address) :
    h.isSharedMemoryAddress addr = inWindow W addr := by
  unfold isSharedMemoryAddress inWindow
  rw [hw.size]

/-! ### Global ranges -/

theorem readCells_global (h : MemoryHierarchy) (addr : Address) (len : ℕ) :
    readCells h.cellByte (globalCells addr len) =
      some ((List.range len).map fun i => h.globalByte (addr + BitVec.ofNat 64 i)) := by
  induction len generalizing addr with
  | zero => rfl
  | succ len ih =>
    have hnext : ∀ i : ℕ, addr + 1 + BitVec.ofNat 64 i = addr + BitVec.ofNat 64 (i + 1) := by
      intro i
      rw [Nat.add_comm i 1, BitVec.ofNat_add, ← BitVec.add_assoc]
      rfl
    have hzero : addr + BitVec.ofNat 64 0 = addr := BitVec.add_zero _
    rw [globalCells, readCells, ih, List.range_succ_eq_map, List.map_cons, List.map_map, hzero]
    show some (h.globalByte addr :: List.map _ _) = _
    refine congrArg some (congrArg _ (List.map_congr_left fun i _ => ?_))
    exact congrArg h.globalByte (hnext i)

theorem cellByte_writeByte (h : MemoryHierarchy) (addr : Address) (b : Byte) :
    (h.writeByte addr b).cellByte = Function.update h.cellByte (.global addr) (some b) := by
  funext c
  rw [Function.update_apply]
  cases c with
  | global a =>
    show some ((h.writeByte addr b).globalByte a) = _
    rw [globalByte_writeByte]
    by_cases heq : a = addr
    · rw [if_pos heq, if_pos (congrArg Cell.global heq)]
    · rw [if_neg heq, if_neg (fun hc => heq (Cell.global.inj hc))]
      rfl
  | shared b' i =>
    rw [if_neg (by simp)]
    rfl

theorem cellByte_writeGlobalBytes (h : MemoryHierarchy) (addr : Address) (bs : List Byte) :
    (h.writeGlobalBytes addr bs).cellByte =
      overwrite h.cellByte (globalCells addr bs.length) bs := by
  induction bs generalizing h addr with
  | nil => rfl
  | cons b bs ih =>
    rw [writeGlobalBytes, ih, cellByte_writeByte]
    rfl

theorem writeCells_global (h : MemoryHierarchy) (addr : Address) (len : ℕ) (bs : List Byte) :
    writeCells h.cellByte (globalCells addr len) bs =
      overwrite h.cellByte (globalCells addr len) bs := by
  unfold writeCells
  rw [readCells_global]
  rfl

/-! ### Ranges of a block's array -/

theorem readCells_none (hb : h.sharedMemory blockId = none) {offset len : ℕ} (hlen : 0 < len) :
    readCells h.cellByte (sharedCells blockId offset len) = none := by
  obtain ⟨n, rfl⟩ := Nat.exists_eq_succ_of_ne_zero hlen.ne'
  have hcell : h.cellByte (.shared blockId offset) = none := by
    rw [cellByte_shared, hb]
    rfl
  rw [sharedCells, readCells, hcell]
  rfl

theorem readCells_shared {bytes : List Byte} (hb : h.sharedMemory blockId = some bytes)
    {offset len : ℕ} (hin : offset ≤ bytes.length ∨ 0 < len) :
    readCells h.cellByte (sharedCells blockId offset len) =
      if offset + len ≤ bytes.length then some ((bytes.drop offset).take len) else none := by
  induction len generalizing offset with
  | zero =>
    rw [if_pos (by omega), List.take_zero]
    rfl
  | succ len ih =>
    have hcell : h.cellByte (.shared blockId offset) = bytes[offset]? := by
      rw [cellByte_shared, hb]
      rfl
    rw [sharedCells, readCells, hcell]
    rcases Nat.lt_or_ge offset bytes.length with hlt | hge
    · rw [List.getElem?_eq_getElem hlt, ih (.inl hlt), List.drop_eq_getElem_cons hlt,
        List.take_succ_cons]
      by_cases hle : offset + (len + 1) ≤ bytes.length
      · rw [if_pos hle, if_pos (by omega)]
        rfl
      · rw [if_neg hle, if_neg (by omega)]
        rfl
    · rw [List.getElem?_eq_none hge, if_neg (by omega)]
      rfl

theorem sharedRange_eq {len : ℕ} (hlen : 0 < len) :
    h.sharedRange blockId addr len =
      readCells h.cellByte (sharedCells blockId (addr.toNat - sharedMemBase) len) := by
  unfold sharedRange
  cases hb : h.sharedMemory blockId with
  | none => rw [readCells_none hb hlen]
  | some bytes => rw [readCells_shared hb (.inr hlen)]

theorem cellByte_setShared {bytes : List Byte} (hb : h.sharedMemory blockId = some bytes)
    {offset : ℕ} (hlt : offset < bytes.length) (b : Byte) :
    (h.setShared blockId (bytes.set offset b)).cellByte =
      Function.update h.cellByte (.shared blockId offset) (some b) := by
  funext c
  rw [Function.update_apply]
  cases c with
  | global a =>
    rw [if_neg (by simp)]
    rfl
  | shared b' i =>
    show (Function.update h.sharedMemory blockId (some (bytes.set offset b)) b').bind _ = _
    by_cases hblock : b' = blockId
    · subst hblock
      rw [Function.update_self]
      show (bytes.set offset b)[i]? = _
      by_cases hi : i = offset
      · subst hi
        rw [if_pos rfl, List.getElem?_set_self hlt]
      · rw [if_neg (fun hc => hi (Cell.shared.inj hc).2), List.getElem?_set_ne (Ne.symm hi),
          cellByte_shared, hb]
        rfl
    · rw [Function.update_of_ne hblock, if_neg (fun hc => hblock (Cell.shared.inj hc).1)]
      rfl

theorem cellByte_splice {bytes data : List Byte} (hb : h.sharedMemory blockId = some bytes)
    {offset : ℕ} (hle : offset + data.length ≤ bytes.length) :
    (h.setShared blockId
      (bytes.take offset ++ data ++ bytes.drop (offset + data.length))).cellByte =
        overwrite h.cellByte (sharedCells blockId offset data.length) data := by
  induction data generalizing h bytes offset with
  | nil =>
    have hsame : h.setShared blockId (bytes.take offset ++ [] ++ bytes.drop (offset + 0)) = h := by
      unfold setShared
      rw [List.append_nil, Nat.add_zero, List.take_append_drop, ← hb, Function.update_eq_self]
    rw [List.length_nil, hsame]
    rfl
  | cons b data ih =>
    rw [List.length_cons] at hle
    have hlt : offset < bytes.length := by omega
    have hset : (h.setShared blockId (bytes.set offset b)).sharedMemory blockId =
        some (bytes.set offset b) := Function.update_self _ _ _
    have htwice : ∀ x, (h.setShared blockId (bytes.set offset b)).setShared blockId x =
        h.setShared blockId x := by
      intro x
      unfold setShared
      dsimp only
      rw [Function.update_idem]
    have hle' : offset + 1 + data.length ≤ (bytes.set offset b).length := by
      rw [List.length_set]
      omega
    have hrest := ih hset hle'
    rw [htwice] at hrest
    rw [ByteMemory.splice_cons b data hlt, hrest, cellByte_setShared hb hlt]
    rfl

theorem cellByte_setSharedRange (h : MemoryHierarchy) (blockId : BlockId) (addr : Address)
    (data : List Byte) :
    (h.setSharedRange blockId addr data).cellByte =
      writeCells h.cellByte (sharedCells blockId (addr.toNat - sharedMemBase) data.length)
        data := by
  rcases Nat.eq_zero_or_pos data.length with hlen | hlen
  · obtain rfl := List.eq_nil_of_length_eq_zero hlen
    unfold setSharedRange
    cases hb : h.sharedMemory blockId with
    | none => rfl
    | some bytes =>
      dsimp only
      split_ifs with hle
      · exact cellByte_splice hb hle
      · rfl
  · unfold setSharedRange writeCells
    cases hb : h.sharedMemory blockId with
    | none =>
      rw [readCells_none hb hlen]
      rfl
    | some bytes =>
      rw [readCells_shared hb (.inr hlen)]
      dsimp only
      by_cases hle : addr.toNat - sharedMemBase + data.length ≤ bytes.length
      · rw [if_pos hle, if_pos hle, cellByte_splice hb hle]
        rfl
      · rw [if_neg hle, if_neg hle]
        rfl

/-! ### The calls -/

theorem readBytes_cells (hw : h.Windowed W) {len : ℕ} (hlen : 0 < len) :
    h.readBytes addr len blockId =
      if inWindow W addr ∧ sharedMemBase + W.toNat < (addr + BitVec.ofNat 64 len).toNat then
        List.replicate len 0
      else (readCells h.cellByte (byteCells W blockId addr len)).getD (List.replicate len 0) := by
  unfold readBytes byteCells
  rw [hw.isShared, hw.size]
  cases hin : inWindow W addr with
  | false =>
    rw [if_neg Bool.false_ne_true, if_neg (by simp), if_neg Bool.false_ne_true, readCells_global]
    rfl
  | true =>
    simp only [if_true, true_and]
    split_ifs
    · rfl
    · rw [sharedRange_eq hlen]

theorem cellByte_writeBytes (hw : h.Windowed W) (data : List Byte) :
    (h.writeBytes addr data blockId).cellByte =
      writeCells h.cellByte (byteCells W blockId addr data.length) data := by
  unfold writeBytes byteCells
  rw [hw.isShared, hw.size]
  split_ifs
  · cases data <;> rfl
  · exact cellByte_setSharedRange h blockId addr data
  · rw [cellByte_writeGlobalBytes, writeCells_global]

theorem loadWord_cells (hw : h.Windowed W) (addr : Address) (blockId : BlockId) :
    (h.loadWord addr blockId).1 =
      (readCells h.cellByte (wordCells W blockId addr)).map wordOf := by
  unfold wordCells
  cases hin : inWindow W (alignAddress addr) with
  | true =>
    have hbase : ¬ (alignAddress addr).toNat < sharedMemBase :=
      Nat.not_lt.2 (ByteMemory.inWindow_iff.1 hin).1
    have hload : (h.loadWord addr blockId).1 = h.loadSharedMemory blockId (alignAddress addr) := by
      unfold loadWord
      dsimp only
      rw [hw.isShared, if_pos hin]
    rw [hload, if_pos rfl, ← sharedRange_eq (by decide)]
    unfold loadSharedMemory
    rw [if_neg hbase]
    cases hr : h.sharedRange blockId (alignAddress addr) 4 with
    | none => rfl
    | some bytes =>
      have hlen := length_sharedRange h hr
      match bytes, hlen with
      | [b₀, b₁, b₂, b₃], _ => rfl
  | false =>
    have haligned : (alignAddress addr).toNat % 4 = 0 := by
      rw [toNat_alignAddress]
      omega
    rw [if_neg Bool.false_ne_true, readCells_global,
      loadWord_global ((hw.isShared _).trans hin) hw.coherent, globalWord_eq_bytes h haligned,
      ← wordOfBytes_eq_append]
    have hzero : alignAddress addr + BitVec.ofNat 64 0 = alignAddress addr := BitVec.add_zero _
    show some _ = some (wordOfBytes (h.globalByte (alignAddress addr + BitVec.ofNat 64 0)) _ _ _)
    rw [hzero]
    rfl

theorem cellByte_loadWord (h : MemoryHierarchy) (addr : Address) (blockId : BlockId) :
    (h.loadWord addr blockId).2.cellByte = h.cellByte := by
  obtain ⟨hglobal, hshared, -⟩ := h.loadWord_frame addr blockId
  funext c
  cases c with
  | global a =>
    show some (wordByte (((h.loadWord addr blockId).2.globalMemory _).getD 0) a) = _
    rw [hglobal]
    rfl
  | shared b i =>
    show ((h.loadWord addr blockId).2.sharedMemory b).bind _ = _
    rw [hshared]
    rfl

theorem cellByte_storeWord (hw : h.Windowed W) (addr : Address) (data : Word) (blockId : BlockId) :
    (h.storeWord addr data blockId).cellByte =
      writeCells h.cellByte (wordCells W blockId addr) (bytesOfWord data) := by
  unfold wordCells
  cases hin : inWindow W (alignAddress addr) with
  | true =>
    have hbase : ¬ (alignAddress addr).toNat < sharedMemBase :=
      Nat.not_lt.2 (ByteMemory.inWindow_iff.1 hin).1
    have hstore : h.storeWord addr data blockId =
        h.setSharedRange blockId (alignAddress addr) (bytesOfWord data) := by
      unfold storeWord storeSharedMemory
      dsimp only
      rw [hw.isShared, if_pos hin, if_neg hbase]
      rfl
    rw [hstore, if_pos rfl]
    exact cellByte_setSharedRange h blockId _ _
  | false =>
    have hg := (hw.isShared (alignAddress addr)).trans hin
    rw [if_neg Bool.false_ne_true, writeCells_global]
    have hbytes := cellByte_writeGlobalBytes h (alignAddress addr) (bytesOfWord data)
    refine Eq.trans ?_ hbytes
    funext c
    cases c with
    | global a => exact congrArg some (ByteMemory.globalByte_storeWord hg data blockId a)
    | shared b i =>
      obtain ⟨hshared, -⟩ := h.writeGlobalBytes_frame (alignAddress addr) (bytesOfWord data)
      show ((h.storeWord addr data blockId).sharedMemory b).bind _ =
        ((h.writeGlobalBytes _ _).sharedMemory b).bind _
      rw [hshared, storeWord_global hg]

end MemoryHierarchy

end RiscvGpgpu.Golden
