import RiscvGpgpu.Hls.Codec

/-!
# What encoded instructions decode to

Packing and unpacking of the fields, and `decodeInstruction` of `encodeInstruction` for every
opcode: the operation and its registers survive, an immediate keeps the bits of its field.
-/

namespace RiscvGpgpu.Hls

/-- An immediate cut to the twelve bits of an I- or S-type word and sign-extended again. -/
def trunc12 (imm : Word) : Word := (imm.setWidth 12).signExtend 32

/-- The signed range of a twelve-bit immediate. -/
def fits12 (imm : Word) : Prop := -2048 ≤ imm.toInt ∧ imm.toInt ≤ 2047

instance (imm : Word) : Decidable (fits12 imm) := inferInstanceAs (Decidable (_ ∧ _))

theorem toInt_trunc12 (imm : Word) : (trunc12 imm).toInt = imm.toInt.bmod (2 ^ 12) := by
  rw [trunc12, BitVec.toInt_signExtend_of_le (by decide), BitVec.toInt_setWidth]
  rw [BitVec.toInt_eq_toNat_bmod, Int.bmod_bmod_of_dvd (by decide)]

theorem fits12_iff (imm : Word) : fits12 imm ↔ trunc12 imm = imm := by
  rw [← BitVec.toInt_inj, toInt_trunc12, fits12]
  constructor
  · rintro ⟨hlo, hhi⟩
    exact Int.bmod_eq_of_le (by omega) (by omega)
  · intro h
    have hlo := Int.le_bmod (x := imm.toInt) (m := 2 ^ 12) (by decide)
    have hhi := Int.bmod_lt (x := imm.toInt) (m := 2 ^ 12) (by decide)
    omega

/-! ## Fields of packed words -/

section Fields

variable (rd rs1 rs2 : Reg) (imm : Word) (opc : BitVec 7) (f3 : BitVec 3) (f7 : BitVec 7)

theorem opcode_packR : (packR rd rs1 rs2 opc f3 f7).extractLsb' 0 7 = opc := by
  unfold packR
  ext i hi
  simp
  grind

theorem rd_packR : decodeRd (packR rd rs1 rs2 opc f3 f7) = rd := by
  unfold decodeRd packR
  ext i hi
  simp
  grind

theorem rs1_packR : decodeRs1 (packR rd rs1 rs2 opc f3 f7) = rs1 := by
  unfold decodeRs1 packR
  ext i hi
  simp
  grind

theorem rs2_packR : decodeRs2 (packR rd rs1 rs2 opc f3 f7) = rs2 := by
  unfold decodeRs2 packR
  ext i hi
  simp
  grind

theorem f3_packR : decodeF3 (packR rd rs1 rs2 opc f3 f7) = f3 := by
  unfold decodeF3 packR
  ext i hi
  simp
  grind

theorem f7_packR : decodeF7 (packR rd rs1 rs2 opc f3 f7) = f7 := by
  unfold decodeF7 packR
  ext i hi
  simp
  grind

/-- An I-type word is an R-type word whose upper fields hold the immediate. -/
theorem packI_eq_packR :
    packI rd rs1 imm opc f3 = packR rd rs1 (imm.extractLsb' 0 5) opc f3 (imm.extractLsb' 5 7) := by
  unfold packI packR
  congr 4
  ext i hi
  simp
  grind

theorem opcode_packI : (packI rd rs1 imm opc f3).extractLsb' 0 7 = opc := by
  rw [packI_eq_packR, opcode_packR]

theorem rd_packI : decodeRd (packI rd rs1 imm opc f3) = rd := by rw [packI_eq_packR, rd_packR]

theorem rs1_packI : decodeRs1 (packI rd rs1 imm opc f3) = rs1 := by rw [packI_eq_packR, rs1_packR]

theorem f3_packI : decodeF3 (packI rd rs1 imm opc f3) = f3 := by rw [packI_eq_packR, f3_packR]

theorem packS_eq_packR :
    packS rs1 rs2 imm opc f3 = packR (imm.extractLsb' 0 5) rs1 rs2 opc f3 (imm.extractLsb' 5 7) :=
  rfl

theorem opcode_packS : (packS rs1 rs2 imm opc f3).extractLsb' 0 7 = opc := by
  rw [packS_eq_packR, opcode_packR]

theorem rs1_packS : decodeRs1 (packS rs1 rs2 imm opc f3) = rs1 := by rw [packS_eq_packR, rs1_packR]

theorem rs2_packS : decodeRs2 (packS rs1 rs2 imm opc f3) = rs2 := by rw [packS_eq_packR, rs2_packR]

theorem packB_eq_packR :
    packB rs1 rs2 imm opc f3 =
      packR (imm.extractLsb' 1 4 ++ imm.extractLsb' 11 1) rs1 rs2 opc f3
        (imm.extractLsb' 12 1 ++ imm.extractLsb' 5 6) := by
  unfold packB packR
  ext i hi
  simp
  grind

theorem opcode_packB : (packB rs1 rs2 imm opc f3).extractLsb' 0 7 = opc := by
  rw [packB_eq_packR, opcode_packR]

theorem f3_packB : decodeF3 (packB rs1 rs2 imm opc f3) = f3 := by rw [packB_eq_packR, f3_packR]

theorem immI_packI : decodeImmI (packI rd rs1 imm opc f3) = trunc12 imm := by
  unfold decodeImmI packI trunc12
  congr 1
  ext i hi
  simp
  grind

theorem immS_packS : decodeImmS (packS rs1 rs2 imm opc f3) = trunc12 imm := by
  unfold decodeImmS packS trunc12
  congr 1
  ext i hi
  simp
  grind

theorem opcode_packU : (packU rd imm opc).extractLsb' 0 7 = opc := by
  unfold packU
  ext i hi
  simp
  grind

theorem rd_packU : decodeRd (packU rd imm opc) = rd := by
  unfold decodeRd packU
  ext i hi
  simp
  grind

theorem immU_packU : decodeImmU (packU rd imm opc) = (imm.setWidth 20).setWidth 32 := by
  unfold decodeImmU packU
  congr 1
  ext i hi
  simp
  grind

theorem opcode_packJ : (packJ rd imm opc).extractLsb' 0 7 = opc := by
  unfold packJ
  ext i hi
  simp
  grind

end Fields

/-! ## Round trips -/

/-- The opcodes whose words keep the three register numbers and no immediate. -/
def isRType : Opcode → Bool
  | .add | .sub | .and | .or | .xor | .slt | .fadd | .fmul | .vbranch
  | .vadd | .vsub | .vmul | .vfmadd | .vfadd | .vfsub | .vfmul | .vffmadd => true
  | _ => false

section RoundTrip

variable (rd rs1 rs2 : Reg) (imm : Word)

theorem decode_encode_rType {op : Opcode} (h : isRType op = true) :
    decodeInstruction (encodeInstruction op rd rs1 rs2 imm) =
      { opcode := op, rd := rd, rs1 := rs1, rs2 := rs2 } := by
  unfold decodeInstruction
  cases op <;> first
    | exact absurd h (by decide)
    | simp [encodeInstruction, opcode_packR, rd_packR, rs1_packR, rs2_packR, f3_packR, f7_packR,
        majorOp, majorOpImm, majorLui, majorLoad, majorStore, majorBranch, majorJal, majorJalr,
        majorOpFp, majorCustom0, majorCustom1, decodeOp, decodeCustom0]

/-- The opcodes whose words keep `rd`, `rs1` and twelve bits of the immediate. -/
def isIType : Opcode → Bool
  | .addi | .lw | .jalr | .barrier => true
  | _ => false

theorem decode_encode_iType {op : Opcode} (h : isIType op = true) :
    decodeInstruction (encodeInstruction op rd rs1 rs2 imm) =
      { opcode := op, rd := rd, rs1 := rs1, imm := trunc12 imm } := by
  unfold decodeInstruction
  cases op <;> first
    | exact absurd h (by decide)
    | simp [encodeInstruction, opcode_packI, rd_packI, rs1_packI, f3_packI, immI_packI, majorOp,
        majorOpImm, majorLui, majorLoad, majorStore, majorBranch, majorJal, majorJalr, majorOpFp,
        majorCustom0, majorCustom1]

theorem decode_encode_sw :
    decodeInstruction (encodeInstruction .sw rd rs1 rs2 imm) =
      { opcode := .sw, rs1 := rs1, rs2 := rs2, imm := trunc12 imm } := by
  unfold decodeInstruction
  simp [encodeInstruction, opcode_packS, rs1_packS, rs2_packS, immS_packS, majorOp, majorOpImm,
    majorLui, majorLoad, majorStore]

theorem decode_encode_lui :
    decodeInstruction (encodeInstruction .lui rd rs1 rs2 imm) =
      { opcode := .lui, rd := rd, imm := (imm.setWidth 20).setWidth 32 } := by
  unfold decodeInstruction
  simp [encodeInstruction, opcode_packU, rd_packU, immU_packU, majorOp, majorOpImm, majorLui]

theorem opcode_decode_encode (op : Opcode) :
    (decodeInstruction (encodeInstruction op rd rs1 rs2 imm)).opcode = op := by
  by_cases hr : isRType op = true
  · rw [decode_encode_rType rd rs1 rs2 imm hr]
  by_cases hi : isIType op = true
  · rw [decode_encode_iType rd rs1 rs2 imm hi]
  unfold decodeInstruction
  cases op <;> first
    | exact absurd rfl hr
    | exact absurd rfl hi
    | simp [encodeInstruction, opcode_packS, opcode_packB, opcode_packR, f3_packR, f3_packB,
        opcode_packU, opcode_packJ, majorOp, majorOpImm, majorLui, majorLoad, majorStore,
        majorBranch, majorJal, majorJalr, majorOpFp, majorCustom0, majorCustom1]

theorem needsExpansion_iff (op : Opcode) :
    needsExpansion op rs1 imm = true ↔ op = .addi ∧ rs1 = 0 ∧ ¬ fits12 imm := by
  have hnot : ¬ fits12 imm ↔ imm.toInt < -2048 ∨ 2047 < imm.toInt := by unfold fits12; omega
  rw [hnot]
  simp [needsExpansion, and_assoc]

/-! ## The `li` split -/

theorem shiftLeft_hi20 : hi20 imm <<< 12 = ((imm + 0x800) >>> 12) <<< 12 := by
  refine BitVec.eq_of_getLsbD_eq fun i hi => ?_
  unfold hi20
  rw [BitVec.getLsbD_shiftLeft, BitVec.getLsbD_shiftLeft]
  by_cases h : i < 12
  · rw [decide_eq_true h, Bool.not_true, Bool.and_false, Bool.false_and, Bool.false_and]
  · have hlt : 12 + (i - 12) < 32 := by omega
    have hge : ¬ 32 ≤ i - 12 := by omega
    rw [BitVec.getLsbD_sshiftRight, BitVec.getLsbD_ushiftRight, if_pos hlt, decide_eq_false hge]
    rfl

/-- The lower part of the split always fits an `ADDI`. -/
theorem fits12_lo12 : fits12 (lo12 imm) := by
  unfold fits12 lo12
  rw [shiftLeft_hi20]
  have hx : ((((imm + 0x800) >>> 12) <<< 12 : Word)).toNat =
      (imm.toNat + 2048) % 4294967296 / 4096 * 4096 := by
    rw [BitVec.toNat_shiftLeft, BitVec.toNat_ushiftRight, BitVec.toNat_add, Nat.shiftLeft_eq,
      Nat.shiftRight_eq_div_pow]
    simp only [BitVec.reduceToNat, Nat.reducePow]
    omega
  have hd : (imm - ((imm + 0x800) >>> 12) <<< 12).toNat =
      (4294967296 - (imm.toNat + 2048) % 4294967296 / 4096 * 4096 + imm.toNat) % 4294967296 := by
    rw [BitVec.toNat_sub, hx]
  have hi := imm.isLt
  rw [BitVec.toInt_eq_toNat_cond, hd]
  split <;> omega

theorem hi20_add_lo12 : hi20 imm <<< 12 + lo12 imm = imm := by
  rw [lo12, BitVec.add_comm, BitVec.sub_add_cancel]

end RoundTrip

end RiscvGpgpu.Hls
