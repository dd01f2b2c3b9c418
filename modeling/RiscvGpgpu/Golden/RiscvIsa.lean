import RiscvGpgpu.Hls.Types

/-!
# The RV32 decoder

`riscv_isa.h`: `decodeRV32` takes a 32-bit instruction word apart and `expandRVC` turns the
compressed instructions it knows into one. Every word decodes; what is not recognised is
`Op.unknown`.
-/

namespace RiscvGpgpu.Golden

namespace RV32Instr

inductive Op where
  | add | sub | sll | slt | sltu | xor | srl | sra | or | and
  | mul | mulh | mulhsu | mulhu | div | divu | rem | remu
  | addi | slti | sltiu | xori | ori | andi | slli | srli | srai
  | lb | lh | lw | lbu | lhu
  | jalr
  | sb | sh | sw
  | beq | bne | blt | bge | bltu | bgeu
  | lui | auipc
  | jal
  | ecall | ebreak | fence | barSync
  | flw | fsw
  | faddS | fsubS | fmulS | fdivS | fsqrtS
  | fmaddS | fmsubS | fnmaddS | fnmsubS
  | feqS | fltS | fleS
  | fcvtWS | fcvtWuS | fcvtSW | fcvtSWu
  | fmvXW | fmvWX
  | unknown
  deriving DecidableEq, Repr

end RV32Instr

/-- A decoded instruction; `imm` is sign-extended. -/
structure RV32Instr where
  op : RV32Instr.Op := .unknown
  rd : Reg := 0
  rs1 : Reg := 0
  rs2 : Reg := 0
  rs3 : Reg := 0
  imm : Word := 0
  deriving DecidableEq, Repr

def signExtend12 (v : Word) : Word := if v &&& 0x800 ≠ 0 then v ||| 0xFFFFF000 else v
def signExtend13 (v : Word) : Word := if v &&& 0x1000 ≠ 0 then v ||| 0xFFFFE000 else v
def signExtend21 (v : Word) : Word := if v &&& 0x100000 ≠ 0 then v ||| 0xFFE00000 else v

section Fields

variable (instr : Word)

def opcodeField : ℕ := (instr &&& 0x7F).toNat
def rdField : Reg := ((instr >>> 7) &&& 0x1F).setWidth 5
def rs1Field : Reg := ((instr >>> 15) &&& 0x1F).setWidth 5
def rs2Field : Reg := ((instr >>> 20) &&& 0x1F).setWidth 5
def rs3Field : Reg := ((instr >>> 27) &&& 0x1F).setWidth 5
def funct3Field : ℕ := ((instr >>> 12) &&& 0x7).toNat
def funct7Field : ℕ := ((instr >>> 25) &&& 0x7F).toNat

/-- The immediate of the I-type. -/
def immI : Word := signExtend12 ((instr >>> 20) &&& 0xFFF)

/-- The immediate of the S-type. -/
def immS : Word := signExtend12 (((instr >>> 25) <<< 5) ||| ((instr >>> 7) &&& 0x1F))

/-- The offset of the B-type. -/
def immB : Word := signExtend13
  ((((instr >>> 31) &&& 1) <<< 12) ||| (((instr >>> 7) &&& 1) <<< 11) |||
    (((instr >>> 25) &&& 0x3F) <<< 5) ||| (((instr >>> 8) &&& 0xF) <<< 1))

/-- The immediate of the U-type. -/
def immU : Word := instr &&& 0xFFFFF000

/-- The offset of the J-type. -/
def immJ : Word := signExtend21
  ((((instr >>> 31) &&& 1) <<< 20) ||| (((instr >>> 12) &&& 0xFF) <<< 12) |||
    (((instr >>> 20) &&& 1) <<< 11) ||| (((instr >>> 21) &&& 0x3FF) <<< 1))

/-- The shift amount of the I-type shifts. -/
def shamtField : Word := (instr >>> 20) &&& 0x1F

end Fields

/-- The operations of opcode `0x33`. -/
def opOfR (funct7 funct3 : ℕ) : RV32Instr.Op :=
  if funct7 = 0x01 then
    match funct3 with
    | 0 => .mul | 1 => .mulh | 2 => .mulhsu | 3 => .mulhu
    | 4 => .div | 5 => .divu | 6 => .rem | 7 => .remu
    | _ => .unknown
  else
    match funct3 with
    | 0 => if funct7 = 0x20 then .sub else .add
    | 1 => .sll | 2 => .slt | 3 => .sltu | 4 => .xor
    | 5 => if funct7 = 0x20 then .sra else .srl
    | 6 => .or | 7 => .and
    | _ => .unknown

def opOfLoad : ℕ → RV32Instr.Op
  | 0 => .lb | 1 => .lh | 2 => .lw | 4 => .lbu | 5 => .lhu
  | _ => .unknown

def opOfStore : ℕ → RV32Instr.Op
  | 0 => .sb | 1 => .sh | 2 => .sw
  | _ => .unknown

def opOfBranch : ℕ → RV32Instr.Op
  | 0 => .beq | 1 => .bne | 4 => .blt | 5 => .bge | 6 => .bltu | 7 => .bgeu
  | _ => .unknown

/-- The operations of opcode `0x53`. -/
def opOfFp (funct7 funct3 : ℕ) (rs2 : Reg) : RV32Instr.Op :=
  match funct7 with
  | 0x00 => .faddS | 0x04 => .fsubS | 0x08 => .fmulS | 0x0C => .fdivS | 0x2C => .fsqrtS
  | 0x50 =>
    match funct3 with
    | 0 => .fleS | 1 => .fltS | 2 => .feqS
    | _ => .unknown
  | 0x60 => if rs2 = 0 then .fcvtWS else .fcvtWuS
  | 0x68 => if rs2 = 0 then .fcvtSW else .fcvtSWu
  | 0x70 => if funct3 = 0 then .fmvXW else .unknown
  | 0x78 => if funct3 = 0 then .fmvWX else .unknown
  | _ => .unknown

def decodeRV32 (instr : Word) : RV32Instr :=
  if instr = 0 then {} else
  let d : RV32Instr := { rd := rdField instr, rs1 := rs1Field instr, rs2 := rs2Field instr }
  let funct3 := funct3Field instr
  let funct7 := funct7Field instr
  match opcodeField instr with
  | 0x33 => { d with op := opOfR funct7 funct3 }
  | 0x13 =>
    match funct3 with
    | 0 => { d with op := .addi, imm := immI instr }
    | 1 => { d with op := .slli, imm := shamtField instr }
    | 2 => { d with op := .slti, imm := immI instr }
    | 3 => { d with op := .sltiu, imm := immI instr }
    | 4 => { d with op := .xori, imm := immI instr }
    | 5 => { d with
        op := if funct7 = 0x20 then .srai else .srli
        imm := shamtField instr }
    | 6 => { d with op := .ori, imm := immI instr }
    | 7 => { d with op := .andi, imm := immI instr }
    | _ => { d with imm := immI instr }
  | 0x03 => { d with op := opOfLoad funct3, imm := immI instr }
  | 0x67 => { d with op := .jalr, imm := immI instr }
  | 0x23 => { d with op := opOfStore funct3, imm := immS instr }
  | 0x63 => { d with op := opOfBranch funct3, imm := immB instr }
  | 0x37 => { d with op := .lui, imm := immU instr }
  | 0x17 => { d with op := .auipc, imm := immU instr }
  | 0x6F => { d with op := .jal, imm := immJ instr }
  | 0x73 =>
    match (instr >>> 20).toNat with
    | 0 => { d with op := .ecall }
    | 1 => { d with op := .ebreak }
    | _ => { d with op := .fence }
  | 0x0F => { d with op := .fence }
  | 0x0B =>
    if funct3 = 0 ∧ d.rd = 0 ∧ d.rs1 = 0 then
      { d with op := .barSync, imm := (instr >>> 20) &&& 0xFFF }
    else d
  | 0x07 => { d with op := if funct3 = 2 then .flw else .unknown, imm := immI instr }
  | 0x27 => { d with op := if funct3 = 2 then .fsw else .unknown, imm := immS instr }
  | 0x43 => { d with
      op := if (instr >>> 25) &&& 3 = 0 then .fmaddS else .unknown
      rs3 := rs3Field instr }
  | 0x47 => { d with
      op := if (instr >>> 25) &&& 3 = 0 then .fmsubS else .unknown
      rs3 := rs3Field instr }
  | 0x4B => { d with
      op := if (instr >>> 25) &&& 3 = 0 then .fnmsubS else .unknown
      rs3 := rs3Field instr }
  | 0x4F => { d with
      op := if (instr >>> 25) &&& 3 = 0 then .fnmaddS else .unknown
      rs3 := rs3Field instr }
  | 0x53 => { d with op := opOfFp funct7 funct3 d.rs2 }
  | _ => d

/-! ## Compressed instructions -/

/-- A field of a compressed instruction, as a word. -/
def cField (cinstr : BitVec 16) (k : ℕ) (mask : Word) : Word :=
  (cinstr >>> k).setWidth 32 &&& mask

/-- `creg`: the registers a three-bit field names. -/
def creg (r3 : Word) : Word := 8 + (r3 &&& 7)

section Compressed

variable (c : BitVec 16)

/-- The six-bit immediate of `C.ADDI` and `C.LI`. -/
def immCI : Word := (if cField c 12 1 ≠ 0 then 0xFFFFFFC0 else 0) ||| cField c 2 0x1F

def immCJ : Word :=
  let imm := (cField c 12 1 <<< 11) ||| (cField c 11 1 <<< 4) ||| (cField c 9 3 <<< 8) |||
    (cField c 8 1 <<< 10) ||| (cField c 7 1 <<< 6) ||| (cField c 6 1 <<< 7) |||
    (cField c 3 7 <<< 1) ||| (cField c 2 1 <<< 5)
  if imm &&& 0x800 ≠ 0 then imm ||| 0xFFFFF000 else imm

def immCB : Word :=
  let imm := (cField c 12 1 <<< 8) ||| (cField c 10 3 <<< 3) ||| (cField c 5 3 <<< 6) |||
    (cField c 3 3 <<< 1) ||| (cField c 2 1 <<< 5)
  if imm &&& 0x100 ≠ 0 then imm ||| 0xFFFFFE00 else imm

/-- The offset of `C.LW` and `C.SW`. -/
def immCL : Word := (cField c 5 1 <<< 6) ||| (cField c 10 7 <<< 3) ||| (cField c 6 1 <<< 2)

/-- Quadrant 1. -/
def expandQuadrant1 : Word :=
  let rd := cField c 7 0x1F
  match (c >>> 13).toNat with
  | 0 =>
    if rd = 0 then 0x00000013
    else ((immCI c &&& 0xFFF) <<< 20) ||| (rd <<< 15) ||| (rd <<< 7) ||| 0x13
  | 5 =>
    let uimm := immCJ c
    ((uimm &&& 0x100000) <<< 11) ||| ((uimm &&& 0x7FE) <<< 20) ||| ((uimm &&& 0x800) <<< 9) |||
      (uimm &&& 0xFF000) ||| 0x6F
  | 2 =>
    if rd ≠ 0 then ((immCI c &&& 0xFFF) <<< 20) ||| (rd <<< 7) ||| 0x13 else 0
  | 6 | 7 =>
    let uimm := immCB c
    let f3 : Word := if (c >>> 13).toNat = 6 then 0 else 1
    ((uimm &&& 0x1000) <<< 19) ||| ((uimm &&& 0x7E0) <<< 20) ||| (creg (cField c 7 7) <<< 15) |||
      (f3 <<< 12) ||| ((uimm &&& 0x1E) <<< 7) ||| ((uimm &&& 0x800) >>> 4) ||| 0x63
  | _ => 0

/-- Quadrant 2. -/
def expandQuadrant2 : Word :=
  let rd := cField c 7 0x1F
  let rs2 := cField c 2 0x1F
  match (c >>> 13).toNat with
  | 0 =>
    let shamt := (cField c 12 1 <<< 5) ||| cField c 2 0x1F
    if rd ≠ 0 then (shamt <<< 20) ||| (rd <<< 15) ||| (1 <<< 12) ||| (rd <<< 7) ||| 0x13 else 0
  | 4 =>
    if cField c 12 1 ≠ 0 then
      if rs2 = 0 then if rd ≠ 0 then (rd <<< 15) ||| (1 <<< 7) ||| 0x67 else 0
      else (rs2 <<< 20) ||| (rd <<< 15) ||| (rd <<< 7) ||| 0x33
    else if rs2 = 0 ∧ rd ≠ 0 then (rd <<< 15) ||| 0x67
    else if rs2 ≠ 0 then (rs2 <<< 20) ||| (rd <<< 7) ||| 0x33
    else 0
  | 2 =>
    let imm := (cField c 12 1 <<< 5) ||| (cField c 4 7 <<< 2) ||| (cField c 2 3 <<< 6)
    (imm <<< 20) ||| (2 <<< 15) ||| (2 <<< 12) ||| (rd <<< 7) ||| 0x03
  | 6 =>
    let imm := (cField c 9 0xF <<< 2) ||| (cField c 7 3 <<< 6)
    ((imm &&& 0xFE0) <<< 20) ||| (rs2 <<< 20) ||| (2 <<< 15) ||| (2 <<< 12) |||
      ((imm &&& 0x1F) <<< 7) ||| 0x23
  | _ => 0

/-- Quadrant 0. -/
def expandQuadrant0 : Word :=
  let rs1r := creg (cField c 7 7)
  let rdr := creg (cField c 2 7)
  match (c >>> 13).toNat with
  | 2 => (immCL c <<< 20) ||| (rs1r <<< 15) ||| (2 <<< 12) ||| (rdr <<< 7) ||| 0x03
  | 6 =>
    ((immCL c &&& 0xFE0) <<< 20) ||| (rdr <<< 20) ||| (rs1r <<< 15) ||| (2 <<< 12) |||
      ((immCL c &&& 0x1F) <<< 7) ||| 0x23
  | 0 =>
    if c ≠ 0 then
      let imm := (cField c 6 1 <<< 2) ||| (cField c 5 1 <<< 3) ||| (cField c 11 3 <<< 4) |||
        (cField c 7 0xF <<< 6)
      (imm <<< 20) ||| (2 <<< 15) ||| (rdr <<< 7) ||| 0x13
    else 0
  | _ => 0

/-- The instruction word with the effect of a compressed instruction, or 0. -/
def expandRVC : Word :=
  match (c &&& 3).toNat with
  | 1 => expandQuadrant1 c
  | 2 => expandQuadrant2 c
  | 0 => expandQuadrant0 c
  | _ => 0

end Compressed

end RiscvGpgpu.Golden
