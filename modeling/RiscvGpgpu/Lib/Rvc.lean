import RiscvGpgpu.Lib.Rv32

/-!
# RV32C

The integer part of the compressed instruction set: `decode` reads a halfword as the tables of the
specification do, `expand` gives the base instruction it stands for. `execOver` is the effect of a
base instruction on registers, program counter and any data memory, for a successor that need not
be four bytes away; over a byte memory and four bytes it is `exec`.
-/

namespace Rv32

/-! ## Execution over a data memory -/

/-- The loads and stores of a data memory. -/
structure DataMemory (M : Type*) where
  load : LoadOp → Word → M → Word × M
  store : StoreOp → Word → Word → M → M

@[ext]
structure Core (M : Type*) where
  regs : Reg → Word
  pc : Word
  mem : M

namespace Core

variable {M : Type*} (s : Core M)

/-- The registers with one written; register 0 stays. -/
def write (rd : Reg) (v : Word) : Reg → Word :=
  if rd = 0 then s.regs else Function.update s.regs rd v

/-- The effective address of a load or store. -/
def address (rs1 : Reg) (imm : BitVec 12) : Word := s.regs rs1 + imm.signExtend 32

end Core

section Over

variable {M : Type*} (D : DataMemory M) (next : Word) (s : Core M)

/-- The state behind an instruction whose successor is at `next`. -/
def execOver : Instr → Core M
  | .reg op rd rs1 rs2 => ⟨s.write rd (op.eval (s.regs rs1) (s.regs rs2)), next, s.mem⟩
  | .imm op rd rs1 imm => ⟨s.write rd (op.eval (s.regs rs1) (imm.signExtend 32)), next, s.mem⟩
  | .shift op rd rs1 shamt => ⟨s.write rd (op.eval (s.regs rs1) shamt.toNat), next, s.mem⟩
  | .load op rd rs1 imm =>
    let v := D.load op (s.address rs1 imm) s.mem
    ⟨s.write rd v.1, next, v.2⟩
  | .store op rs1 rs2 imm => ⟨s.regs, next, D.store op (s.address rs1 imm) (s.regs rs2) s.mem⟩
  | .branch op rs1 rs2 imm =>
    ⟨s.regs, if op.taken (s.regs rs1) (s.regs rs2) then s.pc + (imm ++ 0#1).signExtend 32 else next,
      s.mem⟩
  | .lui rd imm => ⟨s.write rd (imm ++ 0#12), next, s.mem⟩
  | .auipc rd imm => ⟨s.write rd (s.pc + (imm ++ 0#12)), next, s.mem⟩
  | .jal rd imm => ⟨s.write rd next, s.pc + (imm ++ 0#1).signExtend 32, s.mem⟩
  | .jalr rd rs1 imm => ⟨s.write rd next, s.address rs1 imm &&& ~~~1, s.mem⟩
  | .fence _ _ _ | .ecall | .ebreak => ⟨s.regs, next, s.mem⟩

end Over

/-- The byte memory as a data memory. -/
def byteMemory : DataMemory Mem where
  load op a m := (op.read m a, m)
  store op a v m := m.write a (op.bytes v)

/-- `exec` is the case of a byte memory and four bytes. -/
theorem exec_eq_execOver (s : State) (i : Instr) :
    (exec s i).regs = (execOver byteMemory (s.pc + 4) ⟨s.regs, s.pc, s.mem⟩ i).regs ∧
      (exec s i).pc = (execOver byteMemory (s.pc + 4) ⟨s.regs, s.pc, s.mem⟩ i).pc ∧
      (exec s i).mem = (execOver byteMemory (s.pc + 4) ⟨s.regs, s.pc, s.mem⟩ i).mem := by
  cases i with
  | branch op rs1 rs2 imm =>
    refine ⟨rfl, ?_, rfl⟩
    show s.pc + (if _ then _ else _) = if _ then _ else _
    split <;> rfl
  | _ => exact ⟨rfl, rfl, rfl⟩

namespace Rvc

/-! ## Compressed instructions -/

inductive ShiftOp where
  | srli | srai
  deriving DecidableEq, Repr

inductive AluOp where
  | sub | xor | or | and
  deriving DecidableEq, Repr

inductive BranchOp where
  | beqz | bnez
  deriving DecidableEq, Repr

/-- A `BitVec 3` names one of the registers 8 to 15. Immediates are without the low bits that are
always zero. -/
inductive Instr where
  | addi4spn (rd : BitVec 3) (imm : BitVec 8)
  | lw (rd rs1 : BitVec 3) (imm : BitVec 5)
  | sw (rs1 rs2 : BitVec 3) (imm : BitVec 5)
  | addi (rd : Reg) (imm : BitVec 6)
  | jal (imm : BitVec 11)
  | li (rd : Reg) (imm : BitVec 6)
  | addi16sp (imm : BitVec 6)
  | lui (rd : Reg) (imm : BitVec 6)
  | shift (op : ShiftOp) (rd : BitVec 3) (shamt : BitVec 5)
  | andi (rd : BitVec 3) (imm : BitVec 6)
  | alu (op : AluOp) (rd rs2 : BitVec 3)
  | j (imm : BitVec 11)
  | branch (op : BranchOp) (rs1 : BitVec 3) (imm : BitVec 8)
  | slli (rd : Reg) (shamt : BitVec 5)
  | lwsp (rd : Reg) (imm : BitVec 6)
  | jr (rs1 : Reg)
  | mv (rd rs2 : Reg)
  | ebreak
  | jalr (rs1 : Reg)
  | add (rd rs2 : Reg)
  | swsp (rs2 : Reg) (imm : BitVec 6)
  deriving DecidableEq, Repr

/-! ## Decoding -/

section Fields

variable (w : BitVec 16)

def op : BitVec 2 := w.extractLsb' 0 2
def funct3 : BitVec 3 := w.extractLsb' 13 3
def bit12 : BitVec 1 := w.extractLsb' 12 1

/-- The full registers: `rd` or `rs1`, and `rs2`. -/
def rd : Reg := w.extractLsb' 7 5
def rs2 : Reg := w.extractLsb' 2 5

/-- The three-bit registers. -/
def rs1' : BitVec 3 := w.extractLsb' 7 3
def rd' : BitVec 3 := w.extractLsb' 2 3

/-- `imm[5|4:0]`. -/
def immCI : BitVec 6 := bit12 w ++ w.extractLsb' 2 5

/-- `nzuimm[5:4|9:6|2|3]`. -/
def immCIW : BitVec 8 :=
  w.extractLsb' 7 4 ++ w.extractLsb' 11 2 ++ w.extractLsb' 5 1 ++ w.extractLsb' 6 1

/-- `uimm[5:3]` and `uimm[2|6]`. -/
def immCL : BitVec 5 := w.extractLsb' 5 1 ++ w.extractLsb' 10 3 ++ w.extractLsb' 6 1

/-- `offset[11|4|9:8|10|6|7|3:1|5]`. -/
def immCJ : BitVec 11 :=
  bit12 w ++ w.extractLsb' 8 1 ++ w.extractLsb' 9 2 ++ w.extractLsb' 6 1 ++ w.extractLsb' 7 1 ++
    w.extractLsb' 2 1 ++ w.extractLsb' 11 1 ++ w.extractLsb' 3 3

/-- `offset[8|4:3]` and `offset[7:6|2:1|5]`. -/
def immCB : BitVec 8 :=
  bit12 w ++ w.extractLsb' 5 2 ++ w.extractLsb' 2 1 ++ w.extractLsb' 10 2 ++ w.extractLsb' 3 2

/-- `nzimm[9]` and `nzimm[4|6|8:7|5]`. -/
def immSP : BitVec 6 :=
  bit12 w ++ w.extractLsb' 3 2 ++ w.extractLsb' 5 1 ++ w.extractLsb' 2 1 ++ w.extractLsb' 6 1

/-- `uimm[5]` and `uimm[4:2|7:6]`. -/
def immLWSP : BitVec 6 := w.extractLsb' 2 2 ++ bit12 w ++ w.extractLsb' 4 3

/-- `uimm[5:2|7:6]`. -/
def immSWSP : BitVec 6 := w.extractLsb' 7 2 ++ w.extractLsb' 9 4

def decode0 : Option Instr :=
  match (funct3 w).toNat with
  | 0 => if immCIW w = 0 then none else some (.addi4spn (rd' w) (immCIW w))
  | 2 => some (.lw (rd' w) (rs1' w) (immCL w))
  | 6 => some (.sw (rs1' w) (rd' w) (immCL w))
  | _ => none

/-- The arithmetic of quadrant 1; with bit 12 set, a shift or a register operation is not one of
RV32C. -/
def decodeArith : Option Instr :=
  match (w.extractLsb' 10 2).toNat with
  | 0 => if bit12 w = 0 then some (.shift .srli (rs1' w) (rs2 w)) else none
  | 1 => if bit12 w = 0 then some (.shift .srai (rs1' w) (rs2 w)) else none
  | 2 => some (.andi (rs1' w) (immCI w))
  | _ =>
    if bit12 w = 0 then
      match (w.extractLsb' 5 2).toNat with
      | 0 => some (.alu .sub (rs1' w) (rd' w))
      | 1 => some (.alu .xor (rs1' w) (rd' w))
      | 2 => some (.alu .or (rs1' w) (rd' w))
      | _ => some (.alu .and (rs1' w) (rd' w))
    else none

def decode1 : Option Instr :=
  match (funct3 w).toNat with
  | 0 => some (.addi (rd w) (immCI w))
  | 1 => some (.jal (immCJ w))
  | 2 => some (.li (rd w) (immCI w))
  | 3 =>
    if immCI w = 0 then none
    else if rd w = 2 then some (.addi16sp (immSP w))
    else some (.lui (rd w) (immCI w))
  | 4 => decodeArith w
  | 5 => some (.j (immCJ w))
  | 6 => some (.branch .beqz (rs1' w) (immCB w))
  | _ => some (.branch .bnez (rs1' w) (immCB w))

def decode2 : Option Instr :=
  match (funct3 w).toNat with
  | 0 => if bit12 w = 0 then some (.slli (rd w) (rs2 w)) else none
  | 2 => if rd w = 0 then none else some (.lwsp (rd w) (immLWSP w))
  | 4 =>
    if bit12 w = 0 then
      if rs2 w ≠ 0 then some (.mv (rd w) (rs2 w))
      else if rd w ≠ 0 then some (.jr (rd w))
      else none
    else if rs2 w ≠ 0 then some (.add (rd w) (rs2 w))
    else if rd w ≠ 0 then some (.jalr (rd w))
    else some .ebreak
  | 6 => some (.swsp (rs2 w) (immSWSP w))
  | _ => none

/-- The instruction of a halfword, if it is a legal one of the integer subset. Hints are legal: they
stand for base instructions without an effect. -/
def decode : Option Instr :=
  match (op w).toNat with
  | 0 => decode0 w
  | 1 => decode1 w
  | 2 => decode2 w
  | _ => none

end Fields

/-! ## Expansion -/

/-- The register of a three-bit field. -/
def creg (r : BitVec 3) : Reg := 0b01#2 ++ r

def ShiftOp.base : ShiftOp → Rv32.ShiftOp
  | srli => .srli | srai => .srai

def AluOp.base : AluOp → RegOp
  | sub => .sub | xor => .xor | or => .or | and => .and

def BranchOp.base : BranchOp → Rv32.BranchOp
  | beqz => .beq | bnez => .bne

/-- The base instruction. -/
def expand : Instr → Rv32.Instr
  | .addi4spn rd imm => .imm .addi (creg rd) 2 ((imm ++ 0#2).setWidth 12)
  | .lw rd rs1 imm => .load .lw (creg rd) (creg rs1) ((imm ++ 0#2).setWidth 12)
  | .sw rs1 rs2 imm => .store .sw (creg rs1) (creg rs2) ((imm ++ 0#2).setWidth 12)
  | .addi rd imm => .imm .addi rd rd (imm.signExtend 12)
  | .jal imm => .jal 1 (imm.signExtend 20)
  | .li rd imm => .imm .addi rd 0 (imm.signExtend 12)
  | .addi16sp imm => .imm .addi 2 2 ((imm ++ 0#4).signExtend 12)
  | .lui rd imm => .lui rd (imm.signExtend 20)
  | .shift op rd shamt => .shift op.base (creg rd) (creg rd) shamt
  | .andi rd imm => .imm .andi (creg rd) (creg rd) (imm.signExtend 12)
  | .alu op rd rs2 => .reg op.base (creg rd) (creg rd) (creg rs2)
  | .j imm => .jal 0 (imm.signExtend 20)
  | .branch op rs1 imm => .branch op.base (creg rs1) 0 (imm.signExtend 12)
  | .slli rd shamt => .shift .slli rd rd shamt
  | .lwsp rd imm => .load .lw rd 2 ((imm ++ 0#2).setWidth 12)
  | .jr rs1 => .jalr 0 rs1 0
  | .mv rd rs2 => .reg .add rd 0 rs2
  | .ebreak => .ebreak
  | .jalr rs1 => .jalr 1 rs1 0
  | .add rd rs2 => .reg .add rd rd rs2
  | .swsp rs2 imm => .store .sw 2 rs2 ((imm ++ 0#2).setWidth 12)

/-- `c.addi x8, -1`. -/
example : (decode 0x147D).map expand = some (.imm .addi 8 8 (-1)) := by decide

end Rvc

end Rv32
