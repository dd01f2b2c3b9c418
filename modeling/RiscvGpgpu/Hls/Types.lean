import Mathlib

/-!
# Streamable types and fixed sizes

`hls_config.h`, `hls_types.h` and the part of `types.h` that mirrors them. Machine words are
`BitVec`s of the width the source gives them; the 32 lanes of a warp are `Fin 32`, a register
number is five bits, and a register file is a function from lane and register to word.

Floating point stays uninterpreted: `FloatOps` holds the word functions that `regAsFloat`,
the host's arithmetic and `floatAsReg` compute together.
-/

namespace RiscvGpgpu

/-- `MAX_PROGRAM_LEN`. -/
def maxProgramLen : ℕ := 256

/-- `MAX_DIVERGENCE_DEPTH`. -/
def maxDivergenceDepth : ℕ := 8

abbrev Word := BitVec 32
abbrev WarpId := BitVec 32
abbrev CuId := BitVec 3
abbrev LaneId := BitVec 6
abbrev SlotId := BitVec 4
abbrev BarrierId := BitVec 32
abbrev ThreadMask := BitVec 32
abbrev Addr := BitVec 32

abbrev Lane := Fin 32
abbrev Reg := BitVec 5

/-- The 32 registers of one lane. -/
abbrev LaneRegs := Reg → Word

/-- The registers of one warp slot. -/
abbrev RegFile := Lane → LaneRegs

/-- Single-precision arithmetic on register words. -/
structure FloatOps where
  add : Word → Word → Word
  sub : Word → Word → Word
  mul : Word → Word → Word
  mulAdd : Word → Word → Word → Word

/-- Clearing the two low bits rounds down to a multiple of four. -/
theorem toNat_and_not_three {w : ℕ} (a : BitVec w) :
    (a &&& ~~~3#w).toNat = a.toNat / 4 * 4 := by
  have hshift : a &&& ~~~3#w = (a >>> 2) <<< 2 := by
    refine BitVec.eq_of_getLsbD_eq fun i hi => ?_
    rw [BitVec.getLsbD_and, BitVec.getLsbD_not, BitVec.getLsbD_ofNat, BitVec.getLsbD_shiftLeft,
      BitVec.getLsbD_ushiftRight]
    by_cases h : i < 2
    · have hbit : Nat.testBit 3 i = true := by interval_cases i <;> rfl
      simp [h, hi, hbit]
    · have hbit : Nat.testBit 3 i = false :=
        Nat.testBit_lt_two_pow (lt_of_lt_of_le (by decide : 3 < 2 ^ 2)
          (Nat.pow_le_pow_right (by decide) (by omega)))
      simp [h, hi, hbit, show 2 + (i - 2) = i by omega]
  rw [hshift, BitVec.toNat_shiftLeft, BitVec.toNat_ushiftRight, Nat.shiftRight_eq_div_pow,
    Nat.shiftLeft_eq, Nat.mod_eq_of_lt]
  have := a.isLt
  omega

/-! ## Instructions -/

inductive Opcode where
  | add | sub | and | or | xor | slt
  | fadd | fmul
  | addi | lui
  | lw | sw
  | beq | bne | vbranch | vjoin
  | vadd | vsub | vmul | vfmadd
  | vfadd | vfsub | vfmul | vffmadd
  | jal | jalr
  | barrier
  | halt
  deriving DecidableEq, Repr

namespace Opcode

/-- The numeric value of an opcode. -/
def code : Opcode → ℕ
  | add => 0x00 | sub => 0x01 | and => 0x02 | or => 0x03 | xor => 0x04 | slt => 0x05
  | fadd => 0x06 | fmul => 0x08
  | addi => 0x10 | lui => 0x11
  | lw => 0x20 | sw => 0x21
  | beq => 0x30 | bne => 0x31 | vbranch => 0x32 | vjoin => 0x33
  | vadd => 0x40 | vsub => 0x41 | vmul => 0x42 | vfmadd => 0x43
  | vfadd => 0x48 | vfsub => 0x49 | vfmul => 0x4A | vffmadd => 0x4B
  | jal => 0x60 | jalr => 0x61
  | barrier => 0x70
  | halt => 0xFF

def isVectorOp (op : Opcode) : Bool := 0x40 ≤ op.code && op.code < 0x60
def isMemoryOp (op : Opcode) : Bool := 0x20 ≤ op.code && op.code < 0x30
def isBranchOp (op : Opcode) : Bool := 0x30 ≤ op.code && op.code < 0x40

end Opcode

/-- A decoded instruction. `makeInstr` and `decodeInstruction` both compute the three flags
from the opcode, so they are functions of it here. -/
structure Instruction where
  opcode : Opcode
  rd : Reg := 0
  rs1 : Reg := 0
  rs2 : Reg := 0
  imm : Word := 0
  deriving DecidableEq, Repr

namespace Instruction

def isVector (i : Instruction) : Bool := i.opcode.isVectorOp
def isMemory (i : Instruction) : Bool := i.opcode.isMemoryOp
def isBranch (i : Instruction) : Bool := i.opcode.isBranchOp

/-- `LW` and `SW` are the only instructions that reach the memory. -/
theorem isMemory_iff (i : Instruction) : i.isMemory = true ↔ i.opcode = .lw ∨ i.opcode = .sw := by
  unfold isMemory Opcode.isMemoryOp
  cases i.opcode <;> decide

end Instruction

/-- A word of the on-chip program store. -/
abbrev RawInstr := BitVec 32

/-! ## Stream elements -/

structure MemReq where
  cuId : CuId
  warpId : WarpId
  laneId : LaneId
  address : Addr
  isWrite : Bool
  writeData : Word
  deriving DecidableEq, Repr

structure MemResp where
  cuId : CuId
  warpId : WarpId
  laneId : LaneId
  data : Word
  deriving DecidableEq, Repr

inductive WarpStatusCode where
  | complete
  | stalledAtBarrier
  deriving DecidableEq, Repr

structure WarpStatus where
  code : WarpStatusCode := .complete
  barrierId : BarrierId := 0
  slotId : SlotId := 0
  resumePc : BitVec 16 := 0
  instrCount : Word := 0
  deriving DecidableEq, Repr

structure WarpDispatch where
  slotId : SlotId := 0
  warpId : WarpId := 0
  activeMaskInit : ThreadMask := 0
  resumePc : BitVec 16 := 0
  freshLaunch : Bool := false
  deriving DecidableEq, Repr

inductive SlotState where
  | empty | ready | stalled | done
  deriving DecidableEq, Repr

structure WarpSlot where
  warpId : WarpId := 0
  resumePc : BitVec 16 := 0
  barrierId : BarrierId := 0
  state : SlotState := .empty
  fresh : Bool := false
  deriving DecidableEq, Repr

end RiscvGpgpu
