import RiscvGpgpu.Golden.BinaryUnit
import RiscvGpgpu.Golden.CellMemory

/-!
# The footprint of a step

A step of a unit fetches from the four cells at its pc, and loads from or stores to the cells of one
range. What it does depends on these cells only, and it changes none but those it stores to.
-/

namespace RiscvGpgpu.Golden

open MemoryHierarchy (cellByte Windowed)

/-- The cells that a load or a store goes to. -/
def opCells (W : BitVec 32) (blockId : BlockId) (addr : Address) : RV32Instr.Op → List Cell
  | .lw | .flw | .sw | .fsw => wordCells W blockId addr
  | .lb | .lbu | .sb => byteCells W blockId addr 1
  | .lh | .lhu | .sh => byteCells W blockId addr 2
  | _ => []

namespace RV32Instr

/-- The cells that an instruction loads from or stores to. -/
def dataCells (W : BitVec 32) (blockId : BlockId) (regs : LaneRegs) (instr : RV32Instr) :
    List Cell :=
  match signedAddress (Function.update regs 0 0 instr.rs1) instr.imm with
  | some addr => opCells W blockId addr instr.op
  | none => []

def stores (instr : RV32Instr) : Bool :=
  match instr.op with
  | .sw | .sb | .sh | .fsw => true
  | _ => false

/-- The cells that an instruction stores to. -/
def storedCells (W : BitVec 32) (blockId : BlockId) (regs : LaneRegs) (instr : RV32Instr) :
    List Cell :=
  if instr.stores then instr.dataCells W blockId regs else []

end RV32Instr

/-- The same bytes in some cells. -/
def AgreeOn (cs : List Cell) (m n : MemoryHierarchy) : Prop := ∀ c ∈ cs, m.cellByte c = n.cellByte c

/-- The window and the cells that a memory has, whatever bytes are in them. -/
structure SameLayout (W : BitVec 32) (m n : MemoryHierarchy) : Prop where
  windowed : n.Windowed W
  cells : ∀ c, (n.cellByte c).isSome = (m.cellByte c).isSome

namespace MemoryHierarchy

variable {W : BitVec 32} {m n : MemoryHierarchy} {blockId : BlockId} {addr : Address}

theorem Windowed.loadWord (h : m.Windowed W) (addr : Address) (blockId : BlockId) :
    (m.loadWord addr blockId).2.Windowed W :=
  ⟨h.coherent.loadWord addr blockId, (m.loadWord_frame addr blockId).2.2.trans h.size⟩

theorem Windowed.storeWord (h : m.Windowed W) (addr : Address) (data : Word) (blockId : BlockId) :
    (m.storeWord addr data blockId).Windowed W := by
  refine ⟨h.coherent.storeWord addr data blockId, ?_⟩
  cases hs : m.isSharedMemoryAddress (alignAddress addr) with
  | true =>
    obtain ⟨shared, heq⟩ := storeWord_shared hs data blockId
    rw [heq]
    exact h.size
  | false =>
    rw [storeWord_global hs]
    exact h.size

theorem Windowed.writeBytes (h : m.Windowed W) (addr : Address) (data : List Byte)
    (blockId : BlockId) : (m.writeBytes addr data blockId).Windowed W := by
  unfold MemoryHierarchy.writeBytes
  split_ifs
  · exact h
  · obtain ⟨shared, heq⟩ := setSharedRange_frame m blockId addr data
    rw [heq]
    exact ⟨⟨h.coherent.l1, h.coherent.l2⟩, h.size⟩
  · exact ⟨h.coherent.writeGlobalBytes addr data,
      (m.writeGlobalBytes_frame addr data).2.trans h.size⟩

/-- Bytes that are read depend on their cells. -/
theorem readBytes_congr (hm : m.Windowed W) (hn : n.Windowed W) {len : ℕ}
    (h : AgreeOn (byteCells W blockId addr len) m n) :
    m.readBytes addr len blockId = n.readBytes addr len blockId := by
  rcases Nat.eq_zero_or_pos len with rfl | hlen
  · rw [List.eq_nil_of_length_eq_zero (length_readBytes m addr 0 blockId),
      List.eq_nil_of_length_eq_zero (length_readBytes n addr 0 blockId)]
  · rw [readBytes_cells hm hlen, readBytes_cells hn hlen, readCells_congr h]

/-- One byte of them depends on its cell, if the memories have the same cells. -/
theorem getElem?_readBytes_congr (hm : m.Windowed W) (hn : n.Windowed W)
    (hcells : ∀ c, (n.cellByte c).isSome = (m.cellByte c).isSome) {len k : ℕ}
    (h : ∀ c, (byteCells W blockId addr len)[k]? = some c → n.cellByte c = m.cellByte c) :
    (n.readBytes addr len blockId)[k]? = (m.readBytes addr len blockId)[k]? := by
  rcases Nat.eq_zero_or_pos len with rfl | hlen
  · rw [List.eq_nil_of_length_eq_zero (length_readBytes m addr 0 blockId),
      List.eq_nil_of_length_eq_zero (length_readBytes n addr 0 blockId)]
  · have hsome : (readCells n.cellByte (byteCells W blockId addr len)).isSome =
        (readCells m.cellByte (byteCells W blockId addr len)).isSome := by
      rw [isSome_readCells, isSome_readCells]
      exact congrArg (List.all _) (funext hcells)
    rw [readBytes_cells hm hlen, readBytes_cells hn hlen]
    split_ifs
    · rfl
    · cases hread : readCells m.cellByte (byteCells W blockId addr len) with
      | none =>
        rw [hread, Option.isSome_none, Option.isSome_eq_false_iff, Option.isNone_iff_eq_none]
          at hsome
        rw [hsome]
      | some bs =>
        rw [hread, Option.isSome_some] at hsome
        obtain ⟨bs', hread'⟩ := Option.isSome_iff_exists.1 hsome
        rw [hread', Option.getD_some, Option.getD_some, getElem?_readCells hread,
          getElem?_readCells hread']
        cases hc : (byteCells W blockId addr len)[k]? with
        | none => rfl
        | some c => exact h c hc

theorem loadWord_congr (hm : m.Windowed W) (hn : n.Windowed W)
    (h : AgreeOn (wordCells W blockId addr) m n) :
    (m.loadWord addr blockId).1 = (n.loadWord addr blockId).1 := by
  rw [loadWord_cells hm, loadWord_cells hn, readCells_congr h]

end MemoryHierarchy

/-- A memory behind a load or a store that goes to some cells: a window and cells as before, and no
other byte changed. -/
structure Changes (W : BitVec 32) (cs : List Cell) (m m' : MemoryHierarchy) : Prop where
  layout : SameLayout W m m'
  frame : ∀ c ∉ cs, m'.cellByte c = m.cellByte c

namespace Changes

variable {W : BitVec 32} {cs : List Cell} {m m' : MemoryHierarchy} {blockId : BlockId}

theorem refl (h : m.Windowed W) : Changes W cs m m := ⟨⟨h, fun _ => rfl⟩, fun _ _ => rfl⟩

theorem ofEq (h : m'.Windowed W) (hcells : m'.cellByte = m.cellByte) : Changes W cs m m' :=
  ⟨⟨h, fun c => by rw [hcells]⟩, fun c _ => by rw [hcells]⟩

theorem ofWrite (h : m'.Windowed W) {bs : List Byte}
    (hcells : m'.cellByte = writeCells m.cellByte cs bs) : Changes W cs m m' :=
  ⟨⟨h, fun c => by rw [hcells]; exact isSome_writeCells⟩,
    fun c hc => by rw [hcells]; exact writeCells_frame hc⟩

end Changes

section Effects

variable {W : BitVec 32} {m n : MemoryHierarchy} {blockId : BlockId} {addr : Address}

theorem loadValue_congr (hm : m.Windowed W) (hn : n.Windowed W) (op : RV32Instr.Op)
    (h : AgreeOn (opCells W blockId addr op) m n) :
    (loadValue m blockId addr op).1 = (loadValue n blockId addr op).1 := by
  unfold loadValue
  cases op <;> dsimp only [opCells] at h ⊢ <;>
    first
      | rfl
      | rw [MemoryHierarchy.loadWord_congr hm hn h]
      | rw [MemoryHierarchy.readBytes_congr hm hn h]

theorem loadValue_frame (hm : m.Windowed W) (op : RV32Instr.Op) :
    (loadValue m blockId addr op).2.Windowed W ∧
      (loadValue m blockId addr op).2.cellByte = m.cellByte := by
  unfold loadValue
  cases op <;>
    first
      | exact ⟨hm.loadWord addr blockId, m.cellByte_loadWord addr blockId⟩
      | exact ⟨hm, rfl⟩

/-- The bytes of a store. -/
def storedBytes (v : Word) : RV32Instr.Op → List Byte
  | .sw => bytesOfWord v
  | .sb => [v.setWidth 8]
  | .sh => [v.setWidth 8, (v >>> 8).setWidth 8]
  | _ => []

theorem storeValue_windowed (hm : m.Windowed W) (op : RV32Instr.Op) (v : Word) :
    (storeValue m blockId addr op v).Windowed W := by
  unfold storeValue
  split
  · exact hm.storeWord addr v blockId
  · exact hm.writeBytes addr _ blockId
  · exact hm.writeBytes addr _ blockId
  · exact hm

theorem cellByte_storeValue (hm : m.Windowed W) {op : RV32Instr.Op}
    (hop : op = .sw ∨ op = .sb ∨ op = .sh) (v : Word) :
    (storeValue m blockId addr op v).cellByte =
      writeCells m.cellByte (opCells W blockId addr op) (storedBytes v op) := by
  rcases hop with rfl | rfl | rfl
  · exact MemoryHierarchy.cellByte_storeWord hm addr v blockId
  · exact MemoryHierarchy.cellByte_writeBytes hm _
  · exact MemoryHierarchy.cellByte_writeBytes hm _

end Effects

/-! ## Instructions -/

section Execute

variable {W : BitVec 32} {m n : MemoryHierarchy} {blockId : BlockId} {F : HostFloat}
  {instr : RV32Instr} {pc nextPc sentinel : Word} {regs fregs : LaneRegs} {r : ExecResult}

/-- What an instruction does to a memory, and to every memory that agrees with it on the cells that
the instruction goes to. -/
theorem executeRV32_local (hm : m.Windowed W)
    (h : executeRV32 F instr pc nextPc regs fregs sentinel m blockId = some r) :
    Changes W (instr.storedCells W blockId regs) m r.mem ∧
      ∀ n, n.Windowed W → AgreeOn (instr.dataCells W blockId regs) m n →
        ∃ n', executeRV32 F instr pc nextPc regs fregs sentinel n blockId =
            some { r with mem := n' } ∧ AgreeOn (instr.storedCells W blockId regs) r.mem n' := by
  unfold executeRV32 at h ⊢
  dsimp only at h ⊢
  unfold RV32Instr.storedCells RV32Instr.stores RV32Instr.dataCells
  split at h <;> rename_i hop <;>
    simp only [hop, Bool.false_eq_true, if_false, if_true] at h ⊢ <;>
    first
      -- the memory is not used
      | obtain rfl := Option.some.inj h
        exact ⟨.refl hm, fun n _ _ => ⟨n, rfl, fun c hc => absurd hc List.not_mem_nil⟩⟩
      | obtain ⟨v, hv, rfl⟩ := Option.map_eq_some_iff.1 h
        exact ⟨.refl hm, fun n _ _ => ⟨n, Option.map_eq_some_iff.2 ⟨v, hv, rfl⟩,
          fun c hc => absurd hc List.not_mem_nil⟩⟩
      | obtain ⟨addr, haddr, rfl⟩ := Option.map_eq_some_iff.1 h
        simp only [haddr, Option.map_some]
        first
          -- loads
          | refine ⟨.ofEq (loadValue_frame hm _).1 (loadValue_frame hm _).2, fun n hn hagree => ?_⟩
            rw [← loadValue_congr hm hn _ hagree]
            exact ⟨_, rfl, fun c hc => absurd hc List.not_mem_nil⟩
          | refine ⟨.ofEq (hm.loadWord _ _) (m.cellByte_loadWord _ _), fun n hn hagree => ?_⟩
            rw [← MemoryHierarchy.loadWord_congr hm hn hagree]
            exact ⟨_, rfl, fun c hc => absurd hc List.not_mem_nil⟩
          -- stores
          | refine ⟨.ofWrite (storeValue_windowed hm _ _) (cellByte_storeValue hm (by simp) _),
              fun n hn hagree => ⟨_, rfl, fun c hc => ?_⟩⟩
            rw [cellByte_storeValue hm (by simp), cellByte_storeValue hn (by simp)]
            exact writeCells_congr hagree (hagree c hc)
          | refine ⟨.ofWrite (hm.storeWord _ _ _) (MemoryHierarchy.cellByte_storeWord hm _ _ _),
              fun n hn hagree => ⟨_, rfl, fun c hc => ?_⟩⟩
            rw [MemoryHierarchy.cellByte_storeWord hm, MemoryHierarchy.cellByte_storeWord hn]
            exact writeCells_congr hagree (hagree c hc)

end Execute

/-! ## Steps -/

namespace BinaryUnit

variable {W : BitVec 32} {F : HostFloat} {cu cu' : BinaryUnit} {m n m' : MemoryHierarchy}

/-- The cells of a fetch. -/
def fetchCells (W : BitVec 32) (cu : BinaryUnit) : List Cell :=
  byteCells W cu.blockId (cu.pc.setWidth 64) 4

/-- The cells that a step goes to, from the instruction that it executes. -/
def accessed (W : BitVec 32) (cu : BinaryUnit) : Option RV32Instr → List Cell
  | some instr => cu.fetchCells W ++ instr.dataCells W cu.blockId cu.regs
  | none => []

/-- The cells that a step stores to. -/
def written (W : BitVec 32) (cu : BinaryUnit) : Option RV32Instr → List Cell
  | some instr => instr.storedCells W cu.blockId cu.regs
  | none => []

theorem written_subset (instr : Option RV32Instr) : cu.written W instr ⊆ cu.accessed W instr := by
  cases instr with
  | none => exact List.Subset.refl _
  | some instr =>
    intro c hc
    unfold written RV32Instr.storedCells at hc
    dsimp only at hc
    split_ifs at hc
    · exact List.mem_append_right _ hc
    · exact absurd hc List.not_mem_nil

theorem fetch_congr (hm : m.Windowed W) (hn : n.Windowed W) (h : AgreeOn (cu.fetchCells W) m n) :
    cu.fetch m = cu.fetch n := by
  unfold fetch
  rw [MemoryHierarchy.readBytes_congr hm hn h]

theorem executes_congr (hm : m.Windowed W) (hn : n.Windowed W)
    (h : AgreeOn (cu.accessed W (cu.executes m)) m n) : cu.executes n = cu.executes m := by
  unfold executes at h ⊢
  split_ifs at h ⊢
  · rfl
  · rw [fetch_congr hm hn fun c hc => h c (List.mem_append_left _ hc)]

/-- A step changes the cells that it stores to, as it does in every memory with the same bytes in
the cells that it goes to. -/
theorem step_local (hm : m.Windowed W) (h : cu.step F m = some (cu', m')) :
    Changes W (cu.written W (cu.executes m)) m m' ∧
      ∀ n, n.Windowed W → AgreeOn (cu.accessed W (cu.executes m)) m n →
        ∃ n', cu.step F n = some (cu', n') ∧ AgreeOn (cu.written W (cu.executes m)) m' n' := by
  unfold step at h ⊢
  unfold executes
  cases hgo : cu.halted || cu.blocked with
  | true =>
    rw [hgo, if_pos rfl] at h
    obtain ⟨rfl, rfl⟩ := Prod.mk.inj (Option.some.inj h)
    refine ⟨.refl hm, fun n _ _ => ⟨n, rfl, fun c hc => absurd hc List.not_mem_nil⟩⟩
  | false =>
    rw [hgo, if_neg Bool.false_ne_true] at h
    rw [Bool.false_or]
    by_cases htime : cu.timedOut = true
    · rw [if_pos htime] at h ⊢
      obtain ⟨rfl, rfl⟩ := Prod.mk.inj (Option.some.inj h)
      refine ⟨.refl hm, fun n _ _ => ⟨n, ?_, fun c hc => absurd hc List.not_mem_nil⟩⟩
      rw [if_neg Bool.false_ne_true, if_pos htime]
    · rw [if_neg htime] at h ⊢
      dsimp only at h
      simp only [if_neg htime]
      have hfetch : ∀ n, n.Windowed W →
          AgreeOn (cu.accessed W (some (decode (cu.fetch m)).1)) m n → cu.fetch n = cu.fetch m :=
        fun n hn hagree => (fetch_congr hm hn fun c hc =>
          hagree c (List.mem_append_left _ hc)).symm
      have hdata : ∀ n, AgreeOn (cu.accessed W (some (decode (cu.fetch m)).1)) m n →
          AgreeOn ((decode (cu.fetch m)).1.dataCells W cu.blockId cu.regs) m n :=
        fun n hagree c hc => hagree c (List.mem_append_right _ hc)
      by_cases hbar : (decode (cu.fetch m)).1.op = .barSync
      · have hnone : cu.written W (some (decode (cu.fetch m)).1) = [] := by
          refine if_neg ?_
          unfold RV32Instr.stores
          rw [hbar]
          exact Bool.false_ne_true
        rw [hnone]
        rw [if_pos hbar] at h
        obtain ⟨rfl, rfl⟩ := Prod.mk.inj (Option.some.inj h)
        refine ⟨.refl hm, fun n hn hagree => ⟨n, ?_, fun c hc => absurd hc List.not_mem_nil⟩⟩
        rw [hfetch n hn hagree, if_neg Bool.false_ne_true, if_pos hbar]
      · rw [if_neg hbar] at h
        obtain ⟨r, hr, heq⟩ := Option.map_eq_some_iff.1 h
        obtain ⟨rfl, rfl⟩ := Prod.mk.inj heq
        obtain ⟨hchanges, hother⟩ := executeRV32_local hm hr
        refine ⟨hchanges, fun n hn hagree => ?_⟩
        obtain ⟨n', hn', hnew⟩ := hother n hn (hdata n hagree)
        refine ⟨n', ?_, hnew⟩
        rw [hfetch n hn hagree, if_neg Bool.false_ne_true, if_neg hbar, hn']
        rfl

end BinaryUnit

end RiscvGpgpu.Golden
