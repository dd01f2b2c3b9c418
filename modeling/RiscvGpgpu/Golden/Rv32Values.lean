import RiscvGpgpu.Golden.BinaryUnit
import RiscvGpgpu.Golden.Rv32Decode

/-!
# Integer results

The values that `executeRV32` computes for the integer instructions are those of RV32IM, except
that a signed quotient or remainder that overflows is undefined (`Overflows`).
-/

namespace RiscvGpgpu.Golden

open Rv32 (RegOp ImmOp ShiftOp BranchOp)

/-- The quotient of the operands does not fit: the code leaves `INT_MIN / -1` undefined. -/
def Overflows (op : RegOp) (a b : Word) : Prop :=
  (op = .div ∨ op = .rem) ∧ a = BitVec.intMin 32 ∧ b = -1

instance (op : RegOp) (a b : Word) : Decidable (Overflows op a b) :=
  inferInstanceAs (Decidable (_ ∧ _))

theorem toNat_shamt (b : Word) : (b &&& 0x1F).toNat = b.toNat % 32 := by
  have h : ((b >>> 0) &&& (0x1F : Word)).toNat = b.toNat / 1 % 32 := toNat_field b 0 5 (by decide)
  rwa [BitVec.ushiftRight_zero, Nat.div_one] at h

/-! ## Products -/

theorem signExtend_eq_ofInt (a : Word) : a.signExtend 64 = BitVec.ofInt 64 a.toInt := rfl

theorem setWidth_eq_ofInt (b : Word) : b.setWidth 64 = BitVec.ofInt 64 b.toNat := by
  apply BitVec.eq_of_toNat_eq
  rw [BitVec.toNat_setWidth, BitVec.toNat_ofInt]
  rfl

theorem setWidth_ofInt (z : ℤ) : (BitVec.ofInt 64 z).setWidth 32 = BitVec.ofInt 32 z := by
  apply BitVec.eq_of_toNat_eq
  rw [BitVec.toNat_setWidth, BitVec.toNat_ofInt, BitVec.toNat_ofInt]
  omega

/-- The upper half of a product is its quotient by `2^32`. -/
theorem setWidth_ushiftRight_ofInt (z : ℤ) :
    ((BitVec.ofInt 64 z) >>> 32).setWidth 32 = BitVec.ofInt 32 (z / 2 ^ 32) := by
  apply BitVec.eq_of_toNat_eq
  rw [BitVec.toNat_setWidth, BitVec.toNat_ushiftRight, BitVec.toNat_ofInt, BitVec.toNat_ofInt,
    Nat.shiftRight_eq_div_pow]
  omega

theorem sshiftRight_eq_ushiftRight (v : BitVec 64) :
    (v.sshiftRight 32).setWidth 32 = (v >>> 32).setWidth 32 := by
  refine BitVec.eq_of_getLsbD_eq fun i hi => ?_
  rw [BitVec.getLsbD_setWidth, BitVec.getLsbD_setWidth, BitVec.getLsbD_sshiftRight,
    BitVec.getLsbD_ushiftRight]
  simp [show 32 + i < 64 by omega, show ¬ 64 ≤ i by omega]

theorem mul_eq (a b : Word) :
    (a.signExtend 64 * b.signExtend 64).setWidth 32 = RegOp.mul.eval a b := by
  rw [signExtend_eq_ofInt, signExtend_eq_ofInt, ← BitVec.ofInt_mul, setWidth_ofInt]
  rfl

theorem mulh_eq (a b : Word) :
    ((a.signExtend 64 * b.signExtend 64).sshiftRight 32).setWidth 32 = RegOp.mulh.eval a b := by
  rw [sshiftRight_eq_ushiftRight, signExtend_eq_ofInt, signExtend_eq_ofInt, ← BitVec.ofInt_mul,
    setWidth_ushiftRight_ofInt]
  rfl

theorem mulhsu_eq (a b : Word) :
    ((a.signExtend 64 * b.setWidth 64) >>> 32).setWidth 32 = RegOp.mulhsu.eval a b := by
  rw [signExtend_eq_ofInt, setWidth_eq_ofInt, ← BitVec.ofInt_mul, setWidth_ushiftRight_ofInt]
  rfl

theorem mulhu_eq (a b : Word) :
    ((a.setWidth 64 * b.setWidth 64) >>> 32).setWidth 32 = RegOp.mulhu.eval a b := by
  rw [setWidth_eq_ofInt, setWidth_eq_ofInt, ← BitVec.ofInt_mul, setWidth_ushiftRight_ofInt]
  show _ = BitVec.ofNat 32 _
  rw [← BitVec.ofInt_natCast]
  congr 1

/-! ## Quotients -/

theorem ne_zero_of_eq_neg_one {b : Word} (h : b = -1) : b ≠ 0 := by
  rw [h]
  decide

theorem toInt_eq_intMin_iff (a : Word) : a.toInt = -2 ^ 31 ↔ a = BitVec.intMin 32 := by
  constructor
  · intro h
    exact BitVec.eq_of_toInt_eq (h.trans rfl)
  · rintro rfl
    rfl

theorem toInt_eq_neg_one_iff (b : Word) : b.toInt = -1 ↔ b = -1 := by
  constructor
  · intro h
    exact BitVec.eq_of_toInt_eq (h.trans rfl)
  · rintro rfl
    rfl

theorem signedDiv_eq {a b : Word} (hb : b ≠ 0) :
    signedDiv a b = if a = BitVec.intMin 32 ∧ b = -1 then none else some (RegOp.div.eval a b) := by
  unfold signedDiv
  split
  · rfl
  · next h =>
    have hne : a ≠ BitVec.intMin 32 ∨ b ≠ -1 := not_and_or.1 h
    congr 1
    show _ = if b = 0 then _ else if a.toInt = -2 ^ 31 ∧ b.toInt = -1 then _ else _
    rw [if_neg hb, if_neg (by rwa [toInt_eq_intMin_iff, toInt_eq_neg_one_iff]),
      ← BitVec.toInt_sdiv_of_ne_or_ne _ _ hne, BitVec.ofInt_toInt]

theorem signedRem_eq {a b : Word} (hb : b ≠ 0) :
    signedRem a b = if a = BitVec.intMin 32 ∧ b = -1 then none else some (RegOp.rem.eval a b) := by
  unfold signedRem
  split
  · rfl
  · next h =>
    congr 1
    show _ = if b = 0 then _ else if a.toInt = -2 ^ 31 ∧ b.toInt = -1 then _ else _
    rw [if_neg hb, if_neg (by rwa [toInt_eq_intMin_iff, toInt_eq_neg_one_iff]),
      ← BitVec.toInt_srem, BitVec.ofInt_toInt]

/-! ## Operations -/

theorem aluR_regOp (op : RegOp) (a b : Word) :
    aluR (regOp op) a b = if Overflows op a b then none else some (op.eval a b) := by
  cases op with
  | sll => exact congrArg (fun n => some (a <<< n)) (toNat_shamt b)
  | srl => exact congrArg (fun n => some (a >>> n)) (toNat_shamt b)
  | sra => exact congrArg (fun n => some (a.sshiftRight n)) (toNat_shamt b)
  | mul => exact congrArg some (mul_eq a b)
  | mulh => exact congrArg some (mulh_eq a b)
  | mulhsu => exact congrArg some (mulhsu_eq a b)
  | mulhu => exact congrArg some (mulhu_eq a b)
  | div =>
    show (if b ≠ 0 then signedDiv a b else some 0xFFFFFFFF) = _
    by_cases hb : b = 0
    · have hno : ¬ Overflows .div a b := fun h => ne_zero_of_eq_neg_one h.2.2 hb
      rw [if_neg (not_not.2 hb), if_neg hno]
      exact congrArg some (if_pos hb).symm
    · rw [if_pos hb, signedDiv_eq hb]
      exact if_congr (by simp [Overflows]) rfl rfl
  | rem =>
    show (if b ≠ 0 then signedRem a b else some a) = _
    by_cases hb : b = 0
    · have hno : ¬ Overflows .rem a b := fun h => ne_zero_of_eq_neg_one h.2.2 hb
      rw [if_neg (not_not.2 hb), if_neg hno]
      exact congrArg some (if_pos hb).symm
    · rw [if_pos hb, signedRem_eq hb]
      exact if_congr (by simp [Overflows]) rfl rfl
  | divu =>
    show some (if b ≠ 0 then a / b else 0xFFFFFFFF) = some (if b = 0 then _ else _)
    rw [ite_not]
    congr 2
    exact BitVec.eq_of_toNat_eq (by rw [BitVec.toNat_udiv, BitVec.toNat_ofNat, Nat.mod_eq_of_lt
      ((Nat.div_le_self _ _).trans_lt a.isLt)])
  | remu =>
    show some (if b ≠ 0 then a % b else a) = some (if b = 0 then _ else _)
    rw [ite_not]
    congr 2
    exact BitVec.eq_of_toNat_eq (by rw [BitVec.toNat_umod, BitVec.toNat_ofNat, Nat.mod_eq_of_lt
      ((Nat.mod_le _ _).trans_lt a.isLt)])
  | _ => rfl

theorem aluI_immOp (op : ImmOp) (a imm : Word) : aluI (immOp op) a imm = some (op.eval a imm) := by
  cases op <;> rfl

theorem aluI_shiftOp (op : ShiftOp) (a : Word) (shamt : BitVec 5) :
    aluI (shiftOp op) a (shamt.setWidth 32) = some (op.eval a shamt.toNat) := by
  have h : ((shamt.setWidth 32 : Word) &&& 0x1F).toNat = shamt.toNat := by
    rw [toNat_shamt, BitVec.toNat_setWidth]
    omega
  cases op with
  | slli => exact congrArg (fun n => some (a <<< n)) h
  | srli => exact congrArg (fun n => some (a >>> n)) h
  | srai => exact congrArg (fun n => some (a.sshiftRight n)) h

theorem branchTaken_branchOp (op : BranchOp) (a b : Word) :
    branchTaken (branchOp op) a b = op.taken a b := by
  cases op <;> rfl

end RiscvGpgpu.Golden
