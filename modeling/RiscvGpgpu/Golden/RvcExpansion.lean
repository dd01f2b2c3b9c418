import RiscvGpgpu.Lib.Rvc
import RiscvGpgpu.Golden.Rv32Decode

/-!
# What compressed instructions expand to

`expandRVC` of a legal compressed instruction: for the formats it knows, the word of the base
instruction; for the others zero. The sign extension of the six-bit immediate of `C.ADDI` and `C.LI`
leaves out bit 5, so a negative one comes out 32 too low.
-/

namespace RiscvGpgpu.Golden

open Rv32 (rType iType sType bType uType jType encode)
open Rv32.Rvc (expand decode)

/-! ## Fields -/

section Slices

variable (w : BitVec 16)

theorem cField_slice (k n : ℕ) (hn : n < 32) :
    cField w k (BitVec.ofNat 32 (2 ^ n - 1)) = (w.extractLsb' k n).setWidth 32 := by
  apply BitVec.eq_of_toNat_eq
  have hlt : 2 ^ n - 1 < 2 ^ 32 := by
    have := Nat.pow_lt_pow_right (by decide : 1 < 2) hn
    omega
  have hword : ((w >>> k).setWidth 32).toNat = w.toNat / 2 ^ k := by
    have := w.isLt
    have := Nat.div_le_self w.toNat (2 ^ k)
    rw [BitVec.toNat_setWidth, BitVec.toNat_ushiftRight, Nat.shiftRight_eq_div_pow,
      Nat.mod_eq_of_lt (by omega)]
  have hslice : (w.extractLsb' k n).toNat < 2 ^ 32 := by
    have := (w.extractLsb' k n).isLt
    omega
  rw [cField, BitVec.toNat_and, hword, BitVec.toNat_ofNat, Nat.mod_eq_of_lt hlt,
    Nat.and_two_pow_sub_one_eq_mod, BitVec.toNat_setWidth, Nat.mod_eq_of_lt hslice, toNat_slice]

theorem quadrant_eq : (w &&& 3).toNat = (Rv32.Rvc.op w).toNat := by
  rw [BitVec.toNat_and, Rv32.Rvc.op, toNat_slice, pow_zero, Nat.div_one]
  exact Nat.and_two_pow_sub_one_eq_mod _ 2

theorem cFunct3_eq : (w >>> 13).toNat = (Rv32.Rvc.funct3 w).toNat := by
  have := w.isLt
  rw [BitVec.toNat_ushiftRight, Nat.shiftRight_eq_div_pow, Rv32.Rvc.funct3, toNat_slice]
  omega

theorem cField_rd : cField w 7 0x1F = (Rv32.Rvc.rd w).setWidth 32 := cField_slice w 7 5 (by decide)

theorem cField_rs2 : cField w 2 0x1F = (Rv32.Rvc.rs2 w).setWidth 32 :=
  cField_slice w 2 5 (by decide)

theorem cField_bit12 : cField w 12 1 = (Rv32.Rvc.bit12 w).setWidth 32 :=
  cField_slice w 12 1 (by decide)

theorem creg_field (r : BitVec 3) :
    creg (r.setWidth 32) = (Rv32.Rvc.creg r).setWidth 32 := by
  revert r
  decide

theorem creg_rs1' : creg (cField w 7 7) = (Rv32.Rvc.creg (Rv32.Rvc.rs1' w)).setWidth 32 := by
  rw [show cField w 7 7 = (Rv32.Rvc.rs1' w).setWidth 32 from cField_slice w 7 3 (by decide),
    creg_field]

theorem creg_rd' : creg (cField w 2 7) = (Rv32.Rvc.creg (Rv32.Rvc.rd' w)).setWidth 32 := by
  rw [show cField w 2 7 = (Rv32.Rvc.rd' w).setWidth 32 from cField_slice w 2 3 (by decide),
    creg_field]

end Slices

/-! ## Words put together from fields -/

theorem toNat_setWidth_shiftLeft {n : ℕ} (x : BitVec n) {k : ℕ} (h : n + k ≤ 32) :
    (x.setWidth 32 <<< k).toNat = x.toNat * 2 ^ k := by
  have hx := x.isLt
  have hle : 2 ^ n * 2 ^ k ≤ 2 ^ 32 := by
    rw [← pow_add]
    exact Nat.pow_le_pow_right (by decide) h
  have hwide : (x.setWidth 32).toNat = x.toNat := BitVec.toNat_setWidth_of_le (by omega)
  have hlt : x.toNat * 2 ^ k < 2 ^ 32 :=
    lt_of_lt_of_le (Nat.mul_lt_mul_of_pos_right hx (by positivity)) hle
  rw [toNat_shiftLeft_of_lt (by rwa [hwide]), hwide]

/-- Fields that stand side by side, as words. -/
theorem setWidth_append {m n : ℕ} (h : m + n ≤ 32) (x : BitVec m) (y : BitVec n) :
    (x ++ y).setWidth 32 = (x.setWidth 32 <<< n) ||| y.setWidth 32 := by
  have hx := toNat_setWidth_shiftLeft x h
  have hy : (y.setWidth 32).toNat = y.toNat := BitVec.toNat_setWidth_of_le (by omega)
  have hlt : (x ++ y).toNat < 2 ^ 32 :=
    lt_of_lt_of_le (x ++ y).isLt (Nat.pow_le_pow_right (by decide) h)
  apply BitVec.eq_of_toNat_eq
  rw [toNat_or_disjoint n (by rw [hx]; exact Nat.mul_mod_left _ _) (by rw [hy]; exact y.isLt), hx,
    hy, BitVec.toNat_setWidth, Nat.mod_eq_of_lt hlt, toNat_append_add]

theorem or_iType (imm : BitVec 12) (rs1 : Reg) (funct3 : BitVec 3) (rd : Reg)
    (opcode : BitVec 7) :
    (imm.setWidth 32 <<< 20) ||| (rs1.setWidth 32 <<< 15) ||| (funct3.setWidth 32 <<< 12) |||
      (rd.setWidth 32 <<< 7) ||| opcode.setWidth 32 = iType imm rs1 funct3 rd opcode := by
  have hword : (iType imm rs1 funct3 rd opcode).setWidth 32 = _ :=
    setWidth_append (by decide) (imm ++ rs1 ++ funct3 ++ rd) opcode
  rw [setWidth_append (by decide), setWidth_append (by decide), setWidth_append (by decide),
    BitVec.setWidth_eq] at hword
  simp only [BitVec.shiftLeft_or_distrib, ← BitVec.shiftLeft_add, Nat.reduceAdd] at hword
  exact hword.symm

theorem or_rType (funct7 : BitVec 7) (rs2 rs1 : Reg) (funct3 : BitVec 3) (rd : Reg)
    (opcode : BitVec 7) :
    (funct7.setWidth 32 <<< 25) ||| (rs2.setWidth 32 <<< 20) ||| (rs1.setWidth 32 <<< 15) |||
      (funct3.setWidth 32 <<< 12) ||| (rd.setWidth 32 <<< 7) ||| opcode.setWidth 32 =
      rType funct7 rs2 rs1 funct3 rd opcode := by
  have hword : (rType funct7 rs2 rs1 funct3 rd opcode).setWidth 32 = _ :=
    setWidth_append (by decide) (funct7 ++ rs2 ++ rs1 ++ funct3 ++ rd) opcode
  rw [setWidth_append (by decide), setWidth_append (by decide), setWidth_append (by decide),
    setWidth_append (by decide), BitVec.setWidth_eq] at hword
  simp only [BitVec.shiftLeft_or_distrib, ← BitVec.shiftLeft_add, Nat.reduceAdd] at hword
  exact hword.symm

theorem zero_field (n k : ℕ) : ((0 : BitVec n).setWidth 32 <<< k : Word) = 0#32 := by
  rw [show (0 : BitVec n) = 0#n from rfl, BitVec.setWidth_zero, BitVec.zero_shiftLeft]

/-- Words with fields that are zero. -/
theorem or_iType_plain (imm : BitVec 12) (rs1 rd : Reg) (opcode : BitVec 7) :
    (imm.setWidth 32 <<< 20) ||| (rs1.setWidth 32 <<< 15) ||| (rd.setWidth 32 <<< 7) |||
      opcode.setWidth 32 = iType imm rs1 0 rd opcode := by
  have h := or_iType imm rs1 0 rd opcode
  rwa [zero_field, BitVec.or_zero] at h

theorem or_iType_zero (imm : BitVec 12) (rd : Reg) (opcode : BitVec 7) :
    (imm.setWidth 32 <<< 20) ||| (rd.setWidth 32 <<< 7) ||| opcode.setWidth 32 =
      iType imm 0 0 rd opcode := by
  have h := or_iType_plain imm 0 rd opcode
  rwa [zero_field, BitVec.or_zero] at h

theorem or_jump (rs1 rd : Reg) (opcode : BitVec 7) :
    (rs1.setWidth 32 <<< 15) ||| (rd.setWidth 32 <<< 7) ||| opcode.setWidth 32 =
      iType 0 rs1 0 rd opcode := by
  have h := or_iType_plain 0 rs1 rd opcode
  rwa [zero_field, BitVec.zero_or] at h

theorem or_add (rs2 rs1 rd : Reg) (opcode : BitVec 7) :
    (rs2.setWidth 32 <<< 20) ||| (rs1.setWidth 32 <<< 15) ||| (rd.setWidth 32 <<< 7) |||
      opcode.setWidth 32 = rType 0 rs2 rs1 0 rd opcode := by
  have h := or_rType 0 rs2 rs1 0 rd opcode
  rwa [zero_field, zero_field, BitVec.zero_or, BitVec.or_zero] at h

/-! ## Immediates -/

section Immediates

variable (w : BitVec 16)

/-- The immediate of `C.ADDI` and `C.LI`: bit 5 is missing from the sign. -/
theorem immCI_eq : immCI w &&& 0xFFF =
    ((Rv32.Rvc.immCI w).signExtend 12 - if (Rv32.Rvc.immCI w).msb then 32 else 0).setWidth 32 := by
  have hfields : ∀ (s : BitVec 1) (low : BitVec 5),
      ((if s.setWidth 32 ≠ 0 then (0xFFFFFFC0 : Word) else 0) ||| low.setWidth 32) &&& 0xFFF =
        ((s ++ low).signExtend 12 - if (s ++ low).msb then 32 else 0).setWidth 32 := by
    decide
  unfold immCI
  rw [cField_bit12, cField_rs2]
  exact hfields _ _

theorem setWidth_twelve {n : ℕ} (h : n ≤ 12) (x : BitVec n) :
    (x.setWidth 12).setWidth 32 = x.setWidth 32 := by
  apply BitVec.eq_of_toNat_eq
  rw [BitVec.toNat_setWidth_of_le (by decide), BitVec.toNat_setWidth_of_le h,
    BitVec.toNat_setWidth_of_le (by omega)]

theorem immCL_eq : immCL w = ((Rv32.Rvc.immCL w ++ 0#2).setWidth 12).setWidth 32 := by
  have h5 : cField w 5 1 = (w.extractLsb' 5 1).setWidth 32 := cField_slice w 5 1 (by decide)
  have h10 : cField w 10 7 = (w.extractLsb' 10 3).setWidth 32 := cField_slice w 10 3 (by decide)
  have h6 : cField w 6 1 = (w.extractLsb' 6 1).setWidth 32 := cField_slice w 6 1 (by decide)
  rw [setWidth_twelve (by decide), setWidth_append (by decide), Rv32.Rvc.immCL,
    setWidth_append (by decide), setWidth_append (by decide), immCL, h5, h10, h6]
  simp [BitVec.shiftLeft_or_distrib, ← BitVec.shiftLeft_add]

theorem immCIW_eq : (cField w 6 1 <<< 2) ||| (cField w 5 1 <<< 3) ||| (cField w 11 3 <<< 4) |||
    (cField w 7 0xF <<< 6) = ((Rv32.Rvc.immCIW w ++ 0#2).setWidth 12).setWidth 32 := by
  have h6 : cField w 6 1 = (w.extractLsb' 6 1).setWidth 32 := cField_slice w 6 1 (by decide)
  have h5 : cField w 5 1 = (w.extractLsb' 5 1).setWidth 32 := cField_slice w 5 1 (by decide)
  have h11 : cField w 11 3 = (w.extractLsb' 11 2).setWidth 32 := cField_slice w 11 2 (by decide)
  have h7 : cField w 7 0xF = (w.extractLsb' 7 4).setWidth 32 := cField_slice w 7 4 (by decide)
  rw [setWidth_twelve (by decide), setWidth_append (by decide), Rv32.Rvc.immCIW,
    setWidth_append (by decide), setWidth_append (by decide), setWidth_append (by decide), h6, h5,
    h11, h7]
  simp [BitVec.shiftLeft_or_distrib, ← BitVec.shiftLeft_add]
  ac_rfl

theorem immLWSP_eq : (cField w 12 1 <<< 5) ||| (cField w 4 7 <<< 2) ||| (cField w 2 3 <<< 6) =
    ((Rv32.Rvc.immLWSP w ++ 0#2).setWidth 12).setWidth 32 := by
  have h4 : cField w 4 7 = (w.extractLsb' 4 3).setWidth 32 := cField_slice w 4 3 (by decide)
  have h2 : cField w 2 3 = (w.extractLsb' 2 2).setWidth 32 := cField_slice w 2 2 (by decide)
  rw [setWidth_twelve (by decide), setWidth_append (by decide), Rv32.Rvc.immLWSP,
    setWidth_append (by decide), setWidth_append (by decide), cField_bit12, h4, h2]
  simp [BitVec.shiftLeft_or_distrib, ← BitVec.shiftLeft_add]
  ac_rfl

theorem immSWSP_eq : (cField w 9 0xF <<< 2) ||| (cField w 7 3 <<< 6) =
    ((Rv32.Rvc.immSWSP w ++ 0#2).setWidth 12).setWidth 32 := by
  have h9 : cField w 9 0xF = (w.extractLsb' 9 4).setWidth 32 := cField_slice w 9 4 (by decide)
  have h7 : cField w 7 3 = (w.extractLsb' 7 2).setWidth 32 := cField_slice w 7 2 (by decide)
  rw [setWidth_twelve (by decide), setWidth_append (by decide), Rv32.Rvc.immSWSP,
    setWidth_append (by decide), h9, h7]
  simp [BitVec.shiftLeft_or_distrib, ← BitVec.shiftLeft_add]
  ac_rfl

theorem immCB_eq : immCB w = (Rv32.Rvc.immCB w ++ 0#1).signExtend 32 := by
  have h10 : cField w 10 3 = (w.extractLsb' 10 2).setWidth 32 := cField_slice w 10 2 (by decide)
  have h5 : cField w 5 3 = (w.extractLsb' 5 2).setWidth 32 := cField_slice w 5 2 (by decide)
  have h3 : cField w 3 3 = (w.extractLsb' 3 2).setWidth 32 := cField_slice w 3 2 (by decide)
  have h2 : cField w 2 1 = (w.extractLsb' 2 1).setWidth 32 := cField_slice w 2 1 (by decide)
  have hfields : (cField w 12 1 <<< 8) ||| (cField w 10 3 <<< 3) ||| (cField w 5 3 <<< 6) |||
      (cField w 3 3 <<< 1) ||| (cField w 2 1 <<< 5) =
        (Rv32.Rvc.immCB w ++ 0#1).setWidth 32 := by
    rw [setWidth_append (by decide), Rv32.Rvc.immCB, setWidth_append (by decide),
      setWidth_append (by decide), setWidth_append (by decide), setWidth_append (by decide),
      cField_bit12, h10, h5, h3, h2]
    simp [BitVec.shiftLeft_or_distrib, ← BitVec.shiftLeft_add]
    ac_rfl
  unfold immCB
  rw [hfields]
  exact signExtend_of_bit (by decide) (by decide) _

theorem immCJ_eq : immCJ w = (Rv32.Rvc.immCJ w ++ 0#1).signExtend 32 := by
  have h11 : cField w 11 1 = (w.extractLsb' 11 1).setWidth 32 := cField_slice w 11 1 (by decide)
  have h9 : cField w 9 3 = (w.extractLsb' 9 2).setWidth 32 := cField_slice w 9 2 (by decide)
  have h8 : cField w 8 1 = (w.extractLsb' 8 1).setWidth 32 := cField_slice w 8 1 (by decide)
  have h7 : cField w 7 1 = (w.extractLsb' 7 1).setWidth 32 := cField_slice w 7 1 (by decide)
  have h6 : cField w 6 1 = (w.extractLsb' 6 1).setWidth 32 := cField_slice w 6 1 (by decide)
  have h3 : cField w 3 7 = (w.extractLsb' 3 3).setWidth 32 := cField_slice w 3 3 (by decide)
  have h2 : cField w 2 1 = (w.extractLsb' 2 1).setWidth 32 := cField_slice w 2 1 (by decide)
  have hfields : (cField w 12 1 <<< 11) ||| (cField w 11 1 <<< 4) ||| (cField w 9 3 <<< 8) |||
      (cField w 8 1 <<< 10) ||| (cField w 7 1 <<< 6) ||| (cField w 6 1 <<< 7) |||
      (cField w 3 7 <<< 1) ||| (cField w 2 1 <<< 5) = (Rv32.Rvc.immCJ w ++ 0#1).setWidth 32 := by
    rw [setWidth_append (by decide), Rv32.Rvc.immCJ, setWidth_append (by decide),
      setWidth_append (by decide), setWidth_append (by decide), setWidth_append (by decide),
      setWidth_append (by decide), setWidth_append (by decide), setWidth_append (by decide),
      cField_bit12, h11, h9, h8, h7, h6, h3, h2]
    simp [BitVec.shiftLeft_or_distrib, ← BitVec.shiftLeft_add]
    ac_rfl
  unfold immCJ
  rw [hfields]
  exact signExtend_of_bit (by decide) (by decide) _

end Immediates

/-! ## Scattered immediates -/

/-- A masked field stays where it is. -/
theorem and_field (u : Word) (k n : ℕ) (h : k + n ≤ 32) :
    u &&& (BitVec.ofNat 32 (2 ^ n - 1) <<< k) = (u.extractLsb' k n).setWidth 32 <<< k := by
  refine BitVec.eq_of_getLsbD_eq fun i hi => ?_
  rw [BitVec.getLsbD_and, BitVec.getLsbD_shiftLeft, BitVec.getLsbD_shiftLeft,
    BitVec.getLsbD_setWidth, BitVec.getLsbD_extractLsb', BitVec.getLsbD_ofNat,
    Nat.testBit_two_pow_sub_one]
  by_cases hk : i < k
  · simp [hk]
  · have hsum : k + (i - k) = i := by omega
    simp [hk, hsum]
    by_cases hn : i - k < n <;> simp [hn, hi, show i - k < 32 by omega]

theorem slice_setWidth {m : ℕ} (x : BitVec m) {k n : ℕ} (h : k + n ≤ m) (hm : m ≤ 32) :
    (x.setWidth 32).extractLsb' k n = x.extractLsb' k n := by
  refine BitVec.eq_of_getLsbD_eq fun i hi => ?_
  rw [BitVec.getLsbD_extractLsb', BitVec.getLsbD_extractLsb', BitVec.getLsbD_setWidth]
  simp [show k + i < 32 by omega]

/-- The slices of an offset are those of its number of halfwords. -/
theorem slice_offset {m : ℕ} (off : BitVec m) (hm : 0 < m) {l k n : ℕ} (hk : k + n ≤ l)
    (hl : l < 32) : ((off ++ 0#1).signExtend 32).extractLsb' (k + 1) n =
      (off.signExtend l).extractLsb' k n := by
  have hmsb : (off ++ 0#1).msb = off.msb := by
    rw [BitVec.msb_append]
    simp [hm.ne']
  refine BitVec.eq_of_getLsbD_eq fun i hi => ?_
  rw [BitVec.getLsbD_extractLsb', BitVec.getLsbD_extractLsb', BitVec.getLsbD_signExtend,
    BitVec.getLsbD_signExtend, hmsb, BitVec.getLsbD_append]
  have hpred : k + 1 + i - 1 = k + i := by omega
  by_cases hlow : k + i < m
  · simp [hlow, hpred, show k + 1 + i < 32 by omega, show k + i < l by omega,
      show k + 1 + i < m + 1 by omega]
  · simp [hlow, show k + 1 + i < 32 by omega, show k + i < l by omega,
      show ¬ k + 1 + i < m + 1 by omega]

theorem or_sType (imm : BitVec 12) (rs2 rs1 : Reg) :
    ((imm.setWidth 32 &&& (0xFE0 : Word)) <<< 20) ||| (rs2.setWidth 32 <<< 20) |||
      (rs1.setWidth 32 <<< 15) ||| ((2 : Word) <<< 12) |||
      ((imm.setWidth 32 &&& (0x1F : Word)) <<< 7) ||| 0x23 = sType imm rs2 rs1 2 0x23 := by
  have hhigh : imm.setWidth 32 &&& (0xFE0 : Word) = (imm.extractLsb' 5 7).setWidth 32 <<< 5 := by
    rw [← slice_setWidth imm (by decide) (by decide)]
    exact and_field _ 5 7 (by decide)
  have hlow : imm.setWidth 32 &&& (0x1F : Word) = (imm.extractLsb' 0 5).setWidth 32 <<< 0 := by
    rw [← slice_setWidth imm (by decide) (by decide)]
    exact and_field _ 0 5 (by decide)
  rw [sType, ← or_rType, hhigh, hlow, ← BitVec.shiftLeft_add, ← BitVec.shiftLeft_add]
  rfl

theorem or_bType (off : BitVec 8) (rs1 : Reg) (f3 : BitVec 3) :
    (((off ++ 0#1).signExtend 32 &&& (0x1000 : Word)) <<< 19) |||
      (((off ++ 0#1).signExtend 32 &&& (0x7E0 : Word)) <<< 20) ||| (rs1.setWidth 32 <<< 15) |||
      (f3.setWidth 32 <<< 12) ||| (((off ++ 0#1).signExtend 32 &&& (0x1E : Word)) <<< 7) |||
      (((off ++ 0#1).signExtend 32 &&& (0x800 : Word)) >>> 4) ||| 0x63 =
      bType (off.signExtend 12) 0 rs1 f3 0x63 := by
  have hsign : (off ++ 0#1).signExtend 32 &&& (0x1000 : Word) =
      ((off.signExtend 12).extractLsb' 11 1).setWidth 32 <<< 12 := by
    rw [← slice_offset off (by decide) (by decide) (by decide)]
    exact and_field _ 12 1 (by decide)
  have hhigh : (off ++ 0#1).signExtend 32 &&& (0x7E0 : Word) =
      ((off.signExtend 12).extractLsb' 4 6).setWidth 32 <<< 5 := by
    rw [← slice_offset off (by decide) (by decide) (by decide)]
    exact and_field _ 5 6 (by decide)
  have hlow : (off ++ 0#1).signExtend 32 &&& (0x1E : Word) =
      ((off.signExtend 12).extractLsb' 0 4).setWidth 32 <<< 1 := by
    rw [← slice_offset off (by decide) (by decide) (by decide)]
    exact and_field _ 1 4 (by decide)
  have hbit : (off ++ 0#1).signExtend 32 &&& (0x800 : Word) =
      ((off.signExtend 12).extractLsb' 10 1).setWidth 32 <<< 11 := by
    rw [← slice_offset off (by decide) (by decide) (by decide)]
    exact and_field _ 11 1 (by decide)
  have hdown : ∀ b : BitVec 1, (b.setWidth 32 <<< 11) >>> 4 = b.setWidth 32 <<< 7 := by decide
  rw [bType, ← or_rType, setWidth_append (by decide), setWidth_append (by decide), hsign, hhigh,
    hlow, hbit, hdown]
  have hzero : ((0 : Reg).setWidth 32 <<< 20 : Word) = 0 := rfl
  have hopcode : (0x63 : BitVec 7).setWidth 32 = (0x63 : Word) := rfl
  generalize ((off.signExtend 12).extractLsb' 11 1).setWidth 32 = a
  generalize ((off.signExtend 12).extractLsb' 4 6).setWidth 32 = b
  generalize ((off.signExtend 12).extractLsb' 0 4).setWidth 32 = c
  generalize ((off.signExtend 12).extractLsb' 10 1).setWidth 32 = d
  generalize rs1.setWidth 32 = r
  generalize f3.setWidth 32 = f
  rw [hzero, hopcode, BitVec.shiftLeft_or_distrib, BitVec.shiftLeft_or_distrib,
    ← BitVec.shiftLeft_add, ← BitVec.shiftLeft_add, ← BitVec.shiftLeft_add, ← BitVec.shiftLeft_add]
  have hor : ∀ x : Word, x ||| 0 = x := fun x => BitVec.or_zero
  rw [hor, ← BitVec.or_assoc]

theorem or_jType (off : BitVec 11) :
    (((off ++ 0#1).signExtend 32 &&& (0x100000 : Word)) <<< 11) |||
      (((off ++ 0#1).signExtend 32 &&& (0x7FE : Word)) <<< 20) |||
      (((off ++ 0#1).signExtend 32 &&& (0x800 : Word)) <<< 9) |||
      ((off ++ 0#1).signExtend 32 &&& (0xFF000 : Word)) ||| 0x6F =
      jType (off.signExtend 20) 0 0x6F := by
  have hsign : (off ++ 0#1).signExtend 32 &&& (0x100000 : Word) =
      ((off.signExtend 20).extractLsb' 19 1).setWidth 32 <<< 20 := by
    rw [← slice_offset off (by decide) (by decide) (by decide)]
    exact and_field _ 20 1 (by decide)
  have hlow : (off ++ 0#1).signExtend 32 &&& (0x7FE : Word) =
      ((off.signExtend 20).extractLsb' 0 10).setWidth 32 <<< 1 := by
    rw [← slice_offset off (by decide) (by decide) (by decide)]
    exact and_field _ 1 10 (by decide)
  have hbit : (off ++ 0#1).signExtend 32 &&& (0x800 : Word) =
      ((off.signExtend 20).extractLsb' 10 1).setWidth 32 <<< 11 := by
    rw [← slice_offset off (by decide) (by decide) (by decide)]
    exact and_field _ 11 1 (by decide)
  have hhigh : (off ++ 0#1).signExtend 32 &&& (0xFF000 : Word) =
      ((off.signExtend 20).extractLsb' 11 8).setWidth 32 <<< 12 := by
    rw [← slice_offset off (by decide) (by decide) (by decide)]
    exact and_field _ 12 8 (by decide)
  have hword : (jType (off.signExtend 20) 0 0x6F).setWidth 32 = _ :=
    setWidth_append (by decide) ((off.signExtend 20).extractLsb' 19 1 ++
      (off.signExtend 20).extractLsb' 0 10 ++ (off.signExtend 20).extractLsb' 10 1 ++
      (off.signExtend 20).extractLsb' 11 8 ++ (0 : Reg)) (0x6F : BitVec 7)
  rw [setWidth_append (by decide), setWidth_append (by decide), setWidth_append (by decide),
    setWidth_append (by decide), BitVec.setWidth_eq] at hword
  rw [hword, hsign, hlow, hbit, hhigh]
  simp [BitVec.shiftLeft_or_distrib, ← BitVec.shiftLeft_add]

/-! ## Expansion -/

/-- The six-bit immediate as the unit takes it. -/
def takenImm (imm : BitVec 6) : BitVec 12 := imm.signExtend 12 - if imm.msb then 32 else 0

/-- The formats that `expandRVC` has code for; without a destination, `C.ADDI`, `C.LI` and `C.SLLI`
are hints. -/
def Expands : Rv32.Rvc.Instr → Prop
  | .addi rd _ | .li rd _ | .slli rd _ => rd ≠ 0
  | .jal _ | .addi16sp _ | .lui _ _ | .shift _ _ _ | .andi _ _ | .alu _ _ _ | .ebreak => False
  | _ => True

instance (c : Rv32.Rvc.Instr) : Decidable (Expands c) := by
  cases c <;> unfold Expands <;> infer_instance

/-- The instruction that the unit makes of one that it expands. -/
def taken : Rv32.Rvc.Instr → Rv32.Instr
  | .addi rd imm => .imm .addi rd rd (takenImm imm)
  | .li rd imm => .imm .addi rd 0 (takenImm imm)
  | c => expand c

section Quadrants

variable {w : BitVec 16} {c : Rv32.Rvc.Instr}

theorem expandQuadrant0_eq (h : Rv32.Rvc.decode0 w = some c) :
    Expands c ∧ expandQuadrant0 w = encode (taken c) := by
  unfold Rv32.Rvc.decode0 at h
  split at h
  · next hf =>
    split_ifs at h with himm
    obtain rfl := Option.some.inj h
    have hne : w ≠ 0 := by
      rintro rfl
      exact himm (by decide)
    refine ⟨trivial, ?_⟩
    unfold expandQuadrant0
    rw [cFunct3_eq, hf]
    dsimp only
    rw [if_pos hne, immCIW_eq, creg_rd']
    exact or_iType_plain _ 2 _ 0x13
  · next hf =>
    obtain rfl := Option.some.inj h
    refine ⟨trivial, ?_⟩
    unfold expandQuadrant0
    rw [cFunct3_eq, hf]
    dsimp only
    rw [immCL_eq, creg_rd', creg_rs1']
    exact or_iType _ _ 2 _ 0x03
  · next hf =>
    obtain rfl := Option.some.inj h
    refine ⟨trivial, ?_⟩
    unfold expandQuadrant0
    rw [cFunct3_eq, hf]
    dsimp only
    rw [immCL_eq, creg_rd', creg_rs1']
    exact or_sType _ _ _
  · exact absurd h (by simp)

theorem wide_eq_zero (r : Reg) : (r.setWidth 32 : Word) = 0 ↔ r = 0 := by
  revert r
  decide

theorem wide_bit_eq_zero (b : BitVec 1) : (b.setWidth 32 : Word) = 0 ↔ b = 0 := by
  revert b
  decide

/-- `expandRVC` has code for the instruction, or makes nothing or a no-op of it. -/
def Expansion (c : Rv32.Rvc.Instr) (word : Word) : Prop :=
  Expands c ∧ word = encode (taken c) ∨ ¬ Expands c ∧ (word = 0 ∨ word = 0x13)

theorem decodeArith_not_expands (h : Rv32.Rvc.decodeArith w = some c) : ¬ Expands c := by
  unfold Rv32.Rvc.decodeArith at h
  split at h
  · split_ifs at h
    obtain rfl := Option.some.inj h
    exact id
  · split_ifs at h
    obtain rfl := Option.some.inj h
    exact id
  · obtain rfl := Option.some.inj h
    exact id
  · split_ifs at h
    split at h
    all_goals
      obtain rfl := Option.some.inj h
      exact id

theorem expandQuadrant1_eq (h : Rv32.Rvc.decode1 w = some c) :
    Expansion c (expandQuadrant1 w) := by
  unfold Rv32.Rvc.decode1 at h
  unfold expandQuadrant1
  rw [cFunct3_eq]
  split at h
  · next hf =>
    obtain rfl := Option.some.inj h
    rw [hf]
    dsimp only
    rw [cField_rd, immCI_eq]
    by_cases hrd : Rv32.Rvc.rd w = 0
    · rw [if_pos ((wide_eq_zero _).2 hrd)]
      exact .inr ⟨not_not.2 hrd, .inr rfl⟩
    · rw [if_neg (mt (wide_eq_zero _).1 hrd)]
      exact .inl ⟨hrd, or_iType_plain _ _ _ 0x13⟩
  · next hf =>
    obtain rfl := Option.some.inj h
    rw [hf]
    exact .inr ⟨id, .inl rfl⟩
  · next hf =>
    obtain rfl := Option.some.inj h
    rw [hf]
    dsimp only
    rw [cField_rd, immCI_eq]
    by_cases hrd : Rv32.Rvc.rd w = 0
    · rw [if_neg (not_not.2 ((wide_eq_zero _).2 hrd))]
      exact .inr ⟨not_not.2 hrd, .inl rfl⟩
    · rw [if_pos (mt (wide_eq_zero _).1 hrd)]
      exact .inl ⟨hrd, or_iType_zero _ _ 0x13⟩
  · next hf =>
    rw [hf]
    split_ifs at h with himm hrd
    · obtain rfl := Option.some.inj h
      exact .inr ⟨id, .inl rfl⟩
    · obtain rfl := Option.some.inj h
      exact .inr ⟨id, .inl rfl⟩
  · next hf =>
    rw [hf]
    exact .inr ⟨decodeArith_not_expands h, .inl rfl⟩
  · next hf =>
    obtain rfl := Option.some.inj h
    rw [hf]
    dsimp only
    rw [immCJ_eq]
    exact .inl ⟨trivial, or_jType _⟩
  · next hf =>
    obtain rfl := Option.some.inj h
    rw [hf]
    dsimp only
    rw [immCB_eq, creg_rs1', if_pos rfl]
    exact .inl ⟨trivial, or_bType _ _ 0⟩
  · next hf₀ hf₁ hf₂ hf₃ hf₄ hf₅ hf₆ =>
    obtain rfl := Option.some.inj h
    have hf : (Rv32.Rvc.funct3 w).toNat = 7 := by
      have := (Rv32.Rvc.funct3 w).isLt
      simp only [imp_false] at hf₀ hf₁ hf₂ hf₃ hf₄ hf₅ hf₆
      omega
    rw [hf]
    show Expansion _ (((immCB w &&& 0x1000) <<< 19) ||| ((immCB w &&& 0x7E0) <<< 20) |||
      (creg (cField w 7 7) <<< 15) ||| ((if 7 = 6 then (0 : Word) else 1) <<< 12) |||
      ((immCB w &&& 0x1E) <<< 7) ||| ((immCB w &&& 0x800) >>> 4) ||| 0x63)
    rw [immCB_eq, creg_rs1', if_neg (by decide)]
    exact .inl ⟨trivial, or_bType _ _ 1⟩

theorem expandQuadrant2_eq (h : Rv32.Rvc.decode2 w = some c) :
    Expansion c (expandQuadrant2 w) := by
  unfold Rv32.Rvc.decode2 at h
  unfold expandQuadrant2
  rw [cFunct3_eq]
  split at h
  · next hf =>
    split_ifs at h with hbit
    obtain rfl := Option.some.inj h
    rw [hf]
    dsimp only
    rw [cField_rd, cField_rs2, cField_bit12, hbit]
    by_cases hrd : Rv32.Rvc.rd w = 0
    · rw [if_neg (not_not.2 ((wide_eq_zero _).2 hrd))]
      exact .inr ⟨not_not.2 hrd, .inl rfl⟩
    · rw [if_pos (mt (wide_eq_zero _).1 hrd), zero_field, BitVec.zero_or]
      have hword := or_rType 0 (Rv32.Rvc.rs2 w) (Rv32.Rvc.rd w) 1 (Rv32.Rvc.rd w) 0x13
      rw [zero_field, BitVec.zero_or] at hword
      exact .inl ⟨hrd, hword⟩
  · next hf =>
    split_ifs at h with hrd
    obtain rfl := Option.some.inj h
    rw [hf]
    dsimp only
    rw [cField_rd, immLWSP_eq]
    exact .inl ⟨trivial, or_iType _ 2 2 _ 0x03⟩
  · next hf =>
    rw [hf]
    show Expansion c (if cField w 12 1 ≠ 0 then
        if cField w 2 0x1F = 0 then
          if cField w 7 0x1F ≠ 0 then (cField w 7 0x1F <<< 15) ||| (1 <<< 7) ||| 0x67 else 0
        else (cField w 2 0x1F <<< 20) ||| (cField w 7 0x1F <<< 15) ||| (cField w 7 0x1F <<< 7) |||
          0x33
      else if cField w 2 0x1F = 0 ∧ cField w 7 0x1F ≠ 0 then (cField w 7 0x1F <<< 15) ||| 0x67
      else if cField w 2 0x1F ≠ 0 then (cField w 2 0x1F <<< 20) ||| (cField w 7 0x1F <<< 7) ||| 0x33
      else 0)
    rw [cField_rd, cField_rs2, cField_bit12]
    split_ifs at h with hbit hrs2 hrd hrs2 hrd
    all_goals obtain rfl := Option.some.inj h
    · rw [if_neg (not_not.2 ((wide_bit_eq_zero _).2 hbit)),
        if_neg fun h => hrs2 ((wide_eq_zero _).1 h.1), if_pos (mt (wide_eq_zero _).1 hrs2)]
      have hword := or_add (Rv32.Rvc.rs2 w) 0 (Rv32.Rvc.rd w) 0x33
      rw [zero_field, BitVec.or_zero] at hword
      exact .inl ⟨trivial, hword⟩
    · rw [if_neg (not_not.2 ((wide_bit_eq_zero _).2 hbit)),
        if_pos ⟨(wide_eq_zero _).2 (not_not.1 hrs2), mt (wide_eq_zero _).1 hrd⟩]
      have hword := or_jump (Rv32.Rvc.rd w) 0 0x67
      rw [zero_field, BitVec.or_zero] at hword
      exact .inl ⟨trivial, hword⟩
    · rw [if_pos (mt (wide_bit_eq_zero _).1 hbit), if_neg (mt (wide_eq_zero _).1 hrs2)]
      exact .inl ⟨trivial, or_add _ _ _ 0x33⟩
    · rw [if_pos (mt (wide_bit_eq_zero _).1 hbit), if_pos ((wide_eq_zero _).2 (not_not.1 hrs2)),
        if_pos (mt (wide_eq_zero _).1 hrd)]
      exact .inl ⟨trivial, or_jump _ 1 0x67⟩
    · rw [if_pos (mt (wide_bit_eq_zero _).1 hbit), if_pos ((wide_eq_zero _).2 (not_not.1 hrs2)),
        if_neg (not_not.2 ((wide_eq_zero _).2 (not_not.1 hrd)))]
      exact .inr ⟨id, .inl rfl⟩
  · next hf =>
    obtain rfl := Option.some.inj h
    rw [hf]
    dsimp only
    rw [cField_rs2, immSWSP_eq]
    exact .inl ⟨trivial, or_sType _ _ 2⟩
  · exact absurd h (by simp)

/-- What a legal compressed instruction expands to. -/
theorem expandRVC_eq (h : decode w = some c) : Expansion c (expandRVC w) := by
  unfold Rv32.Rvc.decode at h
  unfold expandRVC
  rw [quadrant_eq]
  split at h
  · next hop =>
    rw [hop]
    exact .inl (expandQuadrant0_eq h)
  · next hop =>
    rw [hop]
    exact expandQuadrant1_eq h
  · next hop =>
    rw [hop]
    exact expandQuadrant2_eq h
  · exact absurd h (by simp)

end Quadrants

end RiscvGpgpu.Golden
