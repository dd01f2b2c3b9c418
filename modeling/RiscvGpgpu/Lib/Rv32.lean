import Mathlib.Algebra.Group.Int.Defs
import Mathlib.Algebra.Group.Nat.Defs
import Mathlib.Tactic.Common
import Mathlib.Logic.Function.Basic

/-!
# RV32IM

The base integer instruction set and its multiplication extension, as the RISC-V unprivileged
specification defines them: `encode` gives the instruction word and `exec` the effect on the
registers, the program counter and a byte memory whose addresses wrap at `2^32`. Register 0 reads
zero and swallows what is written to it. `ECALL` and `EBREAK` ask the execution environment;
instructions may start at any halfword, so no jump target is misaligned.
-/

namespace Rv32

abbrev Word := BitVec 32
abbrev Reg := BitVec 5
abbrev Byte := BitVec 8
abbrev Mem := Word → Byte

inductive RegOp where
  | add | sub | sll | slt | sltu | xor | srl | sra | or | and
  | mul | mulh | mulhsu | mulhu | div | divu | rem | remu
  deriving DecidableEq, Repr

inductive ImmOp where
  | addi | slti | sltiu | xori | ori | andi
  deriving DecidableEq, Repr

inductive ShiftOp where
  | slli | srli | srai
  deriving DecidableEq, Repr

inductive LoadOp where
  | lb | lh | lw | lbu | lhu
  deriving DecidableEq, Repr

inductive StoreOp where
  | sb | sh | sw
  deriving DecidableEq, Repr

inductive BranchOp where
  | beq | bne | blt | bge | bltu | bgeu
  deriving DecidableEq, Repr

/-- The offsets of `branch` and `jal` count halfwords. -/
inductive Instr where
  | reg (op : RegOp) (rd rs1 rs2 : Reg)
  | imm (op : ImmOp) (rd rs1 : Reg) (imm : BitVec 12)
  | shift (op : ShiftOp) (rd rs1 : Reg) (shamt : BitVec 5)
  | load (op : LoadOp) (rd rs1 : Reg) (imm : BitVec 12)
  | store (op : StoreOp) (rs1 rs2 : Reg) (imm : BitVec 12)
  | branch (op : BranchOp) (rs1 rs2 : Reg) (imm : BitVec 12)
  | lui (rd : Reg) (imm : BitVec 20)
  | auipc (rd : Reg) (imm : BitVec 20)
  | jal (rd : Reg) (imm : BitVec 20)
  | jalr (rd rs1 : Reg) (imm : BitVec 12)
  | fence (rd rs1 : Reg) (imm : BitVec 12)
  | ecall
  | ebreak
  deriving DecidableEq, Repr

/-! ## Encoding -/

def rType (funct7 : BitVec 7) (rs2 rs1 : Reg) (funct3 : BitVec 3) (rd : Reg) (opcode : BitVec 7) :
    Word :=
  funct7 ++ rs2 ++ rs1 ++ funct3 ++ rd ++ opcode

def iType (imm : BitVec 12) (rs1 : Reg) (funct3 : BitVec 3) (rd : Reg) (opcode : BitVec 7) : Word :=
  imm ++ rs1 ++ funct3 ++ rd ++ opcode

def sType (imm : BitVec 12) (rs2 rs1 : Reg) (funct3 : BitVec 3) (opcode : BitVec 7) : Word :=
  rType (imm.extractLsb' 5 7) rs2 rs1 funct3 (imm.extractLsb' 0 5) opcode

def bType (imm : BitVec 12) (rs2 rs1 : Reg) (funct3 : BitVec 3) (opcode : BitVec 7) : Word :=
  rType (imm.extractLsb' 11 1 ++ imm.extractLsb' 4 6) rs2 rs1 funct3
    (imm.extractLsb' 0 4 ++ imm.extractLsb' 10 1) opcode

def uType (imm : BitVec 20) (rd : Reg) (opcode : BitVec 7) : Word := imm ++ rd ++ opcode

def jType (imm : BitVec 20) (rd : Reg) (opcode : BitVec 7) : Word :=
  uType (imm.extractLsb' 19 1 ++ imm.extractLsb' 0 10 ++ imm.extractLsb' 10 1 ++
    imm.extractLsb' 11 8) rd opcode

/-- `funct7` and `funct3`. -/
def RegOp.functs : RegOp → BitVec 7 × BitVec 3
  | add => (0x00, 0) | sub => (0x20, 0) | sll => (0x00, 1) | slt => (0x00, 2) | sltu => (0x00, 3)
  | xor => (0x00, 4) | srl => (0x00, 5) | sra => (0x20, 5) | or => (0x00, 6) | and => (0x00, 7)
  | mul => (0x01, 0) | mulh => (0x01, 1) | mulhsu => (0x01, 2) | mulhu => (0x01, 3)
  | div => (0x01, 4) | divu => (0x01, 5) | rem => (0x01, 6) | remu => (0x01, 7)

def ImmOp.funct3 : ImmOp → BitVec 3
  | addi => 0 | slti => 2 | sltiu => 3 | xori => 4 | ori => 6 | andi => 7

def ShiftOp.functs : ShiftOp → BitVec 7 × BitVec 3
  | slli => (0x00, 1) | srli => (0x00, 5) | srai => (0x20, 5)

def LoadOp.funct3 : LoadOp → BitVec 3
  | lb => 0 | lh => 1 | lw => 2 | lbu => 4 | lhu => 5

def StoreOp.funct3 : StoreOp → BitVec 3
  | sb => 0 | sh => 1 | sw => 2

def BranchOp.funct3 : BranchOp → BitVec 3
  | beq => 0 | bne => 1 | blt => 4 | bge => 5 | bltu => 6 | bgeu => 7

def encode : Instr → Word
  | .reg op rd rs1 rs2 => rType op.functs.1 rs2 rs1 op.functs.2 rd 0x33
  | .imm op rd rs1 imm => iType imm rs1 op.funct3 rd 0x13
  | .shift op rd rs1 shamt => rType op.functs.1 shamt rs1 op.functs.2 rd 0x13
  | .load op rd rs1 imm => iType imm rs1 op.funct3 rd 0x03
  | .store op rs1 rs2 imm => sType imm rs2 rs1 op.funct3 0x23
  | .branch op rs1 rs2 imm => bType imm rs2 rs1 op.funct3 0x63
  | .lui rd imm => uType imm rd 0x37
  | .auipc rd imm => uType imm rd 0x17
  | .jal rd imm => jType imm rd 0x6F
  | .jalr rd rs1 imm => iType imm rs1 0 rd 0x67
  | .fence rd rs1 imm => iType imm rs1 0 rd 0x0F
  | .ecall => iType 0 0 0 0 0x73
  | .ebreak => iType 1 0 0 0 0x73

/-! ## Values -/

def ofBool (b : Bool) : Word := if b then 1 else 0

def RegOp.eval (op : RegOp) (a b : Word) : Word :=
  match op with
  | add => a + b
  | sub => a - b
  | sll => a <<< (b.toNat % 32)
  | slt => ofBool (a.toInt < b.toInt)
  | sltu => ofBool (a.toNat < b.toNat)
  | xor => a ^^^ b
  | srl => a >>> (b.toNat % 32)
  | sra => a.sshiftRight (b.toNat % 32)
  | or => a ||| b
  | and => a &&& b
  | mul => BitVec.ofInt 32 (a.toInt * b.toInt)
  | mulh => BitVec.ofInt 32 (a.toInt * b.toInt / 2 ^ 32)
  | mulhsu => BitVec.ofInt 32 (a.toInt * b.toNat / 2 ^ 32)
  | mulhu => BitVec.ofNat 32 (a.toNat * b.toNat / 2 ^ 32)
  | div =>
    if b = 0 then -1
    else if a.toInt = -2 ^ 31 ∧ b.toInt = -1 then a
    else BitVec.ofInt 32 (a.toInt.tdiv b.toInt)
  | divu => if b = 0 then -1 else BitVec.ofNat 32 (a.toNat / b.toNat)
  | rem =>
    if b = 0 then a
    else if a.toInt = -2 ^ 31 ∧ b.toInt = -1 then 0
    else BitVec.ofInt 32 (a.toInt.tmod b.toInt)
  | remu => if b = 0 then a else BitVec.ofNat 32 (a.toNat % b.toNat)

def ImmOp.eval (op : ImmOp) (a imm : Word) : Word :=
  match op with
  | addi => a + imm
  | slti => ofBool (a.toInt < imm.toInt)
  | sltiu => ofBool (a.toNat < imm.toNat)
  | xori => a ^^^ imm
  | ori => a ||| imm
  | andi => a &&& imm

def ShiftOp.eval (op : ShiftOp) (a : Word) (shamt : ℕ) : Word :=
  match op with
  | slli => a <<< shamt
  | srli => a >>> shamt
  | srai => a.sshiftRight shamt

def BranchOp.taken (op : BranchOp) (a b : Word) : Bool :=
  match op with
  | beq => a == b
  | bne => a != b
  | blt => a.toInt < b.toInt
  | bge => b.toInt ≤ a.toInt
  | bltu => a.toNat < b.toNat
  | bgeu => b.toNat ≤ a.toNat

/-! ## Memory -/

/-- The bytes an access touches. -/
def LoadOp.size : LoadOp → ℕ
  | lb | lbu => 1
  | lh | lhu => 2
  | lw => 4

def LoadOp.eval (op : LoadOp) (b₀ b₁ b₂ b₃ : Byte) : Word :=
  match op with
  | lb => b₀.signExtend 32
  | lbu => b₀.setWidth 32
  | lh => (b₁ ++ b₀).signExtend 32
  | lhu => (b₁ ++ b₀).setWidth 32
  | lw => b₃ ++ b₂ ++ b₁ ++ b₀

/-- The value an access finds in memory, the lowest byte first. -/
def LoadOp.read (op : LoadOp) (mem : Mem) (a : Word) : Word :=
  op.eval (mem a) (mem (a + 1)) (mem (a + 2)) (mem (a + 3))

/-- The bytes a store writes, the lowest first. -/
def StoreOp.bytes (op : StoreOp) (v : Word) : List Byte :=
  match op with
  | sb => [v.extractLsb' 0 8]
  | sh => [v.extractLsb' 0 8, v.extractLsb' 8 8]
  | sw => [v.extractLsb' 0 8, v.extractLsb' 8 8, v.extractLsb' 16 8, v.extractLsb' 24 8]

/-- The memory with bytes written from an address on. -/
def Mem.write (mem : Mem) (a : Word) (bytes : List Byte) : Mem :=
  fun b => bytes.getD (b - a).toNat (mem b)

/-! ## Instructions -/

structure State where
  regs : Reg → Word
  pc : Word
  mem : Mem

namespace State

variable (s : State)

/-- The registers with one written; register 0 stays. -/
def write (rd : Reg) (v : Word) : Reg → Word :=
  if rd = 0 then s.regs else Function.update s.regs rd v

/-- The state behind an instruction that writes a register and goes on. -/
def next (rd : Reg) (v : Word) : State := { s with regs := s.write rd v, pc := s.pc + 4 }

/-- The instruction word at the program counter. -/
def fetch : Word :=
  s.mem (s.pc + 3) ++ s.mem (s.pc + 2) ++ s.mem (s.pc + 1) ++ s.mem s.pc

/-- The effective address of a load or store. -/
def address (rs1 : Reg) (imm : BitVec 12) : Word := s.regs rs1 + imm.signExtend 32

/-- Where `jalr` jumps to. -/
def target (rs1 : Reg) (imm : BitVec 12) : Word := s.address rs1 imm &&& ~~~1

end State

/-- The state behind one instruction. -/
def exec (s : State) : Instr → State
  | .reg op rd rs1 rs2 => s.next rd (op.eval (s.regs rs1) (s.regs rs2))
  | .imm op rd rs1 imm => s.next rd (op.eval (s.regs rs1) (imm.signExtend 32))
  | .shift op rd rs1 shamt => s.next rd (op.eval (s.regs rs1) shamt.toNat)
  | .load op rd rs1 imm => s.next rd (op.read s.mem (s.address rs1 imm))
  | .store op rs1 rs2 imm =>
    { s with
      mem := s.mem.write (s.address rs1 imm) (op.bytes (s.regs rs2))
      pc := s.pc + 4 }
  | .branch op rs1 rs2 imm =>
    { s with pc := s.pc +
        if op.taken (s.regs rs1) (s.regs rs2) then (imm ++ 0#1).signExtend 32 else 4 }
  | .lui rd imm => s.next rd (imm ++ 0#12)
  | .auipc rd imm => s.next rd (s.pc + (imm ++ 0#12))
  | .jal rd imm =>
    { s with
      regs := s.write rd (s.pc + 4)
      pc := s.pc + (imm ++ 0#1).signExtend 32 }
  | .jalr rd rs1 imm =>
    { s with
      regs := s.write rd (s.pc + 4)
      pc := s.target rs1 imm }
  | .fence _ _ _ | .ecall | .ebreak => { s with pc := s.pc + 4 }

/-- The bytes of the memory an instruction reads or writes. -/
def accessed (s : State) : Instr → List Word
  | .load op _ rs1 imm => (List.range op.size).map fun k => s.address rs1 imm + BitVec.ofNat 32 k
  | .store op rs1 rs2 imm =>
    (List.range (op.bytes (s.regs rs2)).length).map fun k => s.address rs1 imm + BitVec.ofNat 32 k
  | _ => []

/-- The bytes of the memory an instruction writes. -/
def written (s : State) : Instr → List Word
  | .store op rs1 rs2 imm => accessed s (.store op rs1 rs2 imm)
  | _ => []

/-- Word accesses are naturally aligned. -/
def Aligned (s : State) : Instr → Prop
  | .load .lw _ rs1 imm => (s.address rs1 imm).toNat % 4 = 0
  | .store .sw rs1 _ imm => (s.address rs1 imm).toNat % 4 = 0
  | _ => True

end Rv32
