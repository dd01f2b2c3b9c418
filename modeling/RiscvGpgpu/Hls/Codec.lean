import RiscvGpgpu.Hls.Types

/-!
# The HLS instruction codec

`rv32i_codec.h`: program words in RV32I form, with the two custom major opcodes for the vector,
scalar-float and control operations. The `range` assignments of the packers are concatenations
here; a conversion to `ap_int<n>` keeps the low `n` bits and the decoder sign-extends.
-/

namespace RiscvGpgpu.Hls

/-! ## Major opcodes -/

def majorOp : BitVec 7 := 0x33
def majorOpImm : BitVec 7 := 0x13
def majorLui : BitVec 7 := 0x37
def majorLoad : BitVec 7 := 0x03
def majorStore : BitVec 7 := 0x23
def majorBranch : BitVec 7 := 0x63
def majorJal : BitVec 7 := 0x6F
def majorJalr : BitVec 7 := 0x67
def majorCustom0 : BitVec 7 := 0x0B
def majorCustom1 : BitVec 7 := 0x2B
def majorOpFp : BitVec 7 := 0x53

/-! ## Encoding -/

section Pack

variable (rd rs1 rs2 : Reg) (imm : Word)

def packR (opcode : BitVec 7) (f3 : BitVec 3) (f7 : BitVec 7) : RawInstr :=
  f7 ++ rs2 ++ rs1 ++ f3 ++ rd ++ opcode

def packI (opcode : BitVec 7) (f3 : BitVec 3) : RawInstr :=
  imm.setWidth 12 ++ rs1 ++ f3 ++ rd ++ opcode

def packS (opcode : BitVec 7) (f3 : BitVec 3) : RawInstr :=
  imm.extractLsb' 5 7 ++ rs2 ++ rs1 ++ f3 ++ imm.extractLsb' 0 5 ++ opcode

def packB (opcode : BitVec 7) (f3 : BitVec 3) : RawInstr :=
  imm.extractLsb' 12 1 ++ imm.extractLsb' 5 6 ++ rs2 ++ rs1 ++ f3 ++ imm.extractLsb' 1 4 ++
    imm.extractLsb' 11 1 ++ opcode

/-- The raw, unshifted 20-bit value: `executeALU` does the shift of `LUI`. -/
def packU (opcode : BitVec 7) : RawInstr := imm.setWidth 20 ++ rd ++ opcode

def packJ (opcode : BitVec 7) : RawInstr :=
  imm.extractLsb' 20 1 ++ imm.extractLsb' 1 10 ++ imm.extractLsb' 11 1 ++
    imm.extractLsb' 12 8 ++ rd ++ opcode

end Pack

def encodeInstruction (op : Opcode) (rd rs1 rs2 : Reg) (imm : Word) : RawInstr :=
  match op with
  | .add => packR rd rs1 rs2 majorOp 0b000 0b0000000
  | .sub => packR rd rs1 rs2 majorOp 0b000 0b0100000
  | .and => packR rd rs1 rs2 majorOp 0b111 0b0000000
  | .or => packR rd rs1 rs2 majorOp 0b110 0b0000000
  | .xor => packR rd rs1 rs2 majorOp 0b100 0b0000000
  | .slt => packR rd rs1 rs2 majorOp 0b010 0b0000000
  | .addi => packI rd rs1 imm majorOpImm 0b000
  | .lui => packU rd imm majorLui
  | .lw => packI rd rs1 imm majorLoad 0b010
  | .sw => packS rs1 rs2 imm majorStore 0b010
  | .beq => packB rs1 rs2 imm majorBranch 0b000
  | .bne => packB rs1 rs2 imm majorBranch 0b001
  | .jal => packJ rd imm majorJal
  | .jalr => packI rd rs1 imm majorJalr 0b000
  | .vadd => packR rd rs1 rs2 majorCustom0 0b000 0b0000000
  | .vsub => packR rd rs1 rs2 majorCustom0 0b001 0b0000000
  | .vmul => packR rd rs1 rs2 majorCustom0 0b010 0b0000000
  | .vfmadd => packR rd rs1 rs2 majorCustom0 0b011 0b0000000
  | .vfadd => packR rd rs1 rs2 majorCustom0 0b100 0b0000000
  | .vfsub => packR rd rs1 rs2 majorCustom0 0b101 0b0000000
  | .vfmul => packR rd rs1 rs2 majorCustom0 0b110 0b0000000
  | .vffmadd => packR rd rs1 rs2 majorCustom0 0b111 0b0000000
  | .fadd => packR rd rs1 rs2 majorCustom0 0b000 0b0000001
  | .fmul => packR rd rs1 rs2 majorCustom0 0b001 0b0000001
  | .vbranch => packR rd rs1 rs2 majorCustom1 0b000 0b0000000
  | .vjoin => packR rd rs1 rs2 majorCustom1 0b001 0b0000000
  | .barrier => packI rd rs1 imm majorCustom1 0b010
  | .halt => packR rd rs1 rs2 majorCustom1 0b011 0b0000000

/-- `needsExpansion`: an `ADDI` used to load an immediate that does not fit twelve bits. -/
def needsExpansion (op : Opcode) (rs1 : Reg) (imm : Word) : Bool :=
  op = .addi && rs1 = 0 && (imm.toInt < -2048 || 2047 < imm.toInt)

/-- `hi20`: the upper part of the `li` split, rounded to the nearest. The signed overflow of
`imm + 0x800` near `INT_MAX` wraps here. -/
def hi20 (imm : Word) : Word := (imm + 0x800).sshiftRight 12

/-- `lo12`: what the upper part leaves over. -/
def lo12 (imm : Word) : Word := imm - hi20 imm <<< 12

/-- The words one instruction becomes. -/
def encodeInstructionExpanded (op : Opcode) (rd rs1 rs2 : Reg) (imm : Word) : List RawInstr :=
  if needsExpansion op rs1 imm then
    [encodeInstruction .lui rd 0 0 (hi20 imm), encodeInstruction .addi rd rd 0 (lo12 imm)]
  else [encodeInstruction op rd rs1 rs2 imm]

/-! ## Decoding -/

def decodeRd (w : RawInstr) : Reg := w.extractLsb' 7 5
def decodeRs1 (w : RawInstr) : Reg := w.extractLsb' 15 5
def decodeRs2 (w : RawInstr) : Reg := w.extractLsb' 20 5
def decodeF3 (w : RawInstr) : BitVec 3 := w.extractLsb' 12 3
def decodeF7 (w : RawInstr) : BitVec 7 := w.extractLsb' 25 7

def decodeImmI (w : RawInstr) : Word := (w.extractLsb' 20 12).signExtend 32

def decodeImmS (w : RawInstr) : Word :=
  (w.extractLsb' 25 7 ++ w.extractLsb' 7 5 : BitVec 12).signExtend 32

def decodeImmB (w : RawInstr) : Word :=
  (w.extractLsb' 31 1 ++ w.extractLsb' 7 1 ++ w.extractLsb' 25 6 ++ w.extractLsb' 8 4 ++ 0#1 :
    BitVec 13).signExtend 32

def decodeImmU (w : RawInstr) : Word := (w.extractLsb' 12 20).setWidth 32

def decodeImmJ (w : RawInstr) : Word :=
  (w.extractLsb' 31 1 ++ w.extractLsb' 12 8 ++ w.extractLsb' 20 1 ++ w.extractLsb' 21 10 ++ 0#1 :
    BitVec 21).signExtend 32

/-- The operation of an `OP` word. -/
def decodeOp (f3 : BitVec 3) (f7 : BitVec 7) : Opcode :=
  if f3 = 0b000 then (if f7 = 0b0100000 then .sub else .add)
  else if f3 = 0b111 then .and
  else if f3 = 0b110 then .or
  else if f3 = 0b100 then .xor
  else .slt

def decodeOpFp (f7 : BitVec 7) : Opcode :=
  if f7 = 0b0000000 then .fadd else if f7 = 0b0001000 then .fmul else .halt

def decodeCustom0 (f3 : BitVec 3) (f7 : BitVec 7) : Opcode :=
  if f7 = 0b0000000 then
    if f3 = 0 then .vadd
    else if f3 = 1 then .vsub
    else if f3 = 2 then .vmul
    else if f3 = 3 then .vfmadd
    else if f3 = 4 then .vfadd
    else if f3 = 5 then .vfsub
    else if f3 = 6 then .vfmul
    else .vffmadd
  else if f3 = 0 then .fadd else .fmul

def decodeInstruction (w : RawInstr) : Instruction :=
  let opc := w.extractLsb' 0 7
  let f3 := decodeF3 w
  let f7 := decodeF7 w
  let rd := decodeRd w
  let rs1 := decodeRs1 w
  let rs2 := decodeRs2 w
  if opc = majorOp then { opcode := decodeOp f3 f7, rd, rs1, rs2 }
  else if opc = majorOpImm then { opcode := .addi, rd, rs1, imm := decodeImmI w }
  else if opc = majorLui then { opcode := .lui, rd, imm := decodeImmU w }
  else if opc = majorLoad then { opcode := .lw, rd, rs1, imm := decodeImmI w }
  else if opc = majorStore then { opcode := .sw, rs1, rs2, imm := decodeImmS w }
  else if opc = majorBranch then
    { opcode := if f3 = 0b000 then .beq else .bne, rs1, rs2, imm := decodeImmB w }
  else if opc = majorJal then { opcode := .jal, rd, imm := decodeImmJ w }
  else if opc = majorJalr then { opcode := .jalr, rd, rs1, imm := decodeImmI w }
  else if opc = majorOpFp then { opcode := decodeOpFp f7, rd, rs1, rs2 }
  else if opc = majorCustom0 then { opcode := decodeCustom0 f3 f7, rd, rs1, rs2 }
  else if opc = majorCustom1 then
    if f3 = 0 then { opcode := .vbranch, rd, rs1, rs2 }
    else if f3 = 1 then { opcode := .vjoin }
    else if f3 = 2 then { opcode := .barrier, rd, rs1, imm := decodeImmI w }
    else { opcode := .halt }
  else { opcode := .halt }

example : decodeInstruction (encodeInstruction .addi 3 1 0 (-7)) =
    { opcode := .addi, rd := 3, rs1 := 1, imm := -7 } := by decide

end RiscvGpgpu.Hls
