import RiscvGpgpu.Lib.Rv32
import RiscvGpgpu.Golden.RiscvIsa

/-!
# Decoding RV32IM

`decodeRV32` finds in the word of every RV32IM instruction the operation, the registers and the
immediate that the word encodes. The fields are compared as numbers: a mask is a remainder, a shift
a quotient, and an `or` of fields that share no bit a sum.
-/

namespace RiscvGpgpu.Golden

open Rv32 (rType iType sType bType uType jType encode)

/-! ## Fields -/

theorem toNat_append_add {m n : ℕ} (x : BitVec m) (y : BitVec n) :
    (x ++ y).toNat = x.toNat * 2 ^ n + y.toNat := by
  rw [BitVec.toNat_append, ← Nat.shiftLeft_add_eq_or_of_lt y.isLt, Nat.shiftLeft_eq]

theorem toNat_field (w : Word) (k n : ℕ) (hn : n < 32) :
    ((w >>> k) &&& BitVec.ofNat 32 (2 ^ n - 1)).toNat = w.toNat / 2 ^ k % 2 ^ n := by
  have hlt : 2 ^ n - 1 < 2 ^ 32 := by
    have := Nat.pow_lt_pow_right (by decide : 1 < 2) hn
    omega
  rw [BitVec.toNat_and, BitVec.toNat_ushiftRight, BitVec.toNat_ofNat, Nat.mod_eq_of_lt hlt,
    Nat.and_two_pow_sub_one_eq_mod, Nat.shiftRight_eq_div_pow]

/-- An `or` of words that share no bit is a sum. -/
theorem toNat_or_disjoint (k : ℕ) {x y : Word} (hx : x.toNat % 2 ^ k = 0) (hy : y.toNat < 2 ^ k) :
    (x ||| y).toNat = x.toNat + y.toNat := by
  obtain ⟨q, hq⟩ := Nat.dvd_of_mod_eq_zero hx
  rw [BitVec.toNat_or, hq, Nat.mul_comm, ← Nat.shiftLeft_eq, Nat.shiftLeft_add_eq_or_of_lt hy]

theorem toNat_shiftLeft_of_lt {x : Word} {k : ℕ} (h : x.toNat * 2 ^ k < 2 ^ 32) :
    (x <<< k).toNat = x.toNat * 2 ^ k := by
  rw [BitVec.toNat_shiftLeft, Nat.shiftLeft_eq, Nat.mod_eq_of_lt h]

/-- A word put together from four fields, the highest first. -/
theorem toNat_fields {a b c d : Word} {i j k m : ℕ} (hji : j ≤ i) (hkj : k ≤ j) (hi : i ≤ 32)
    (ha : a.toNat * 2 ^ i < 2 ^ 32) (hb : b.toNat * 2 ^ j < 2 ^ i) (hc : c.toNat * 2 ^ k < 2 ^ j)
    (hd : d.toNat * 2 ^ m < 2 ^ k) :
    ((a <<< i) ||| (b <<< j) ||| (c <<< k) ||| (d <<< m)).toNat =
      a.toNat * 2 ^ i + b.toNat * 2 ^ j + c.toNat * 2 ^ k + d.toNat * 2 ^ m := by
  have hpow : ∀ {p q : ℕ}, p ≤ q → 2 ^ p ∣ 2 ^ q := fun h => pow_dvd_pow 2 h
  have hle : ∀ {p : ℕ}, p ≤ 32 → 2 ^ p ≤ 2 ^ 32 := fun h => Nat.pow_le_pow_right (by decide) h
  have sa := toNat_shiftLeft_of_lt ha
  have sb := toNat_shiftLeft_of_lt (hb.trans_le (hle hi))
  have sc := toNat_shiftLeft_of_lt (hc.trans_le (hle (hji.trans hi)))
  have sd := toNat_shiftLeft_of_lt (hd.trans_le (hle (hkj.trans (hji.trans hi))))
  have hab : ((a <<< i) ||| (b <<< j)).toNat = a.toNat * 2 ^ i + b.toNat * 2 ^ j := by
    rw [toNat_or_disjoint i (by rw [sa]; exact Nat.mul_mod_left _ _) (by rwa [sb]), sa, sb]
  have hdvd : 2 ^ j ∣ a.toNat * 2 ^ i + b.toNat * 2 ^ j :=
    dvd_add ((hpow hji).mul_left _) (Dvd.intro_left _ rfl)
  have habc : ((a <<< i) ||| (b <<< j) ||| (c <<< k)).toNat =
      a.toNat * 2 ^ i + b.toNat * 2 ^ j + c.toNat * 2 ^ k := by
    rw [toNat_or_disjoint j (by rw [hab]; exact Nat.mod_eq_zero_of_dvd hdvd) (by rwa [sc]), hab, sc]
  have hdvd' : 2 ^ k ∣ a.toNat * 2 ^ i + b.toNat * 2 ^ j + c.toNat * 2 ^ k :=
    dvd_add ((hpow hkj).trans hdvd) (Dvd.intro_left _ rfl)
  rw [toNat_or_disjoint k (by rw [habc]; exact Nat.mod_eq_zero_of_dvd hdvd') (by rwa [sd]),
    habc, sd]

theorem signExtend_of_bit {n : ℕ} (hpos : 0 < n) (hn : n < 32) (v : BitVec n) :
    (if v.setWidth 32 &&& BitVec.twoPow 32 (n - 1) ≠ 0
      then v.setWidth 32 ||| (BitVec.allOnes 32 <<< n) else v.setWidth 32) = v.signExtend 32 := by
  have hmsb : v.msb = (v.setWidth 32).getLsbD (n - 1) := by
    rw [BitVec.msb_eq_getLsbD_last, BitVec.getLsbD_setWidth]
    simp [show n - 1 < 32 by omega]
  refine BitVec.eq_of_getLsbD_eq fun i hi => ?_
  rw [BitVec.getLsbD_signExtend, hmsb, BitVec.and_twoPow]
  cases hbit : (v.setWidth 32).getLsbD (n - 1) with
  | false =>
    rw [if_neg Bool.false_ne_true, if_neg (by simp), BitVec.getLsbD_setWidth]
    by_cases h : i < n
    · simp [h, hi]
    · simp [h, BitVec.getLsbD_of_ge v i (by omega)]
  | true =>
    have hne : BitVec.twoPow 32 (n - 1) ≠ 0 := by
      intro h
      have hnat := congrArg BitVec.toNat h
      rw [BitVec.toNat_twoPow_of_lt (by omega)] at hnat
      exact absurd hnat (by positivity)
    rw [if_pos rfl, if_pos hne, BitVec.getLsbD_or, BitVec.getLsbD_setWidth,
      BitVec.getLsbD_shiftLeft]
    by_cases h : i < n
    · simp [h, hi]
    · rw [BitVec.getLsbD_allOnes, decide_eq_true (by omega : i - n < 32), decide_eq_false h,
        decide_eq_true hi, if_neg h]
      simp

theorem signExtend12_setWidth (imm : BitVec 12) :
    signExtend12 (imm.setWidth 32) = imm.signExtend 32 :=
  signExtend_of_bit (by decide) (by decide) imm

theorem signExtend13_setWidth (imm : BitVec 13) :
    signExtend13 (imm.setWidth 32) = imm.signExtend 32 :=
  signExtend_of_bit (by decide) (by decide) imm

theorem signExtend21_setWidth (imm : BitVec 21) :
    signExtend21 (imm.setWidth 32) = imm.signExtend 32 :=
  signExtend_of_bit (by decide) (by decide) imm

section Words

variable (w : Word)

theorem opcodeField_eq : opcodeField w = w.toNat % 128 := by
  have h := toNat_field w 0 7 (by decide)
  rwa [BitVec.ushiftRight_zero, pow_zero, Nat.div_one] at h

theorem toNat_rdField : (rdField w).toNat = w.toNat / 128 % 32 := by
  have h : ((w >>> 7) &&& (0x1F : Word)).toNat = w.toNat / 128 % 32 := toNat_field w 7 5 (by decide)
  rw [rdField, BitVec.toNat_setWidth, h]
  omega

theorem toNat_rs1Field : (rs1Field w).toNat = w.toNat / 32768 % 32 := by
  have h : ((w >>> 15) &&& (0x1F : Word)).toNat = w.toNat / 32768 % 32 :=
    toNat_field w 15 5 (by decide)
  rw [rs1Field, BitVec.toNat_setWidth, h]
  omega

theorem toNat_shamtField : (shamtField w).toNat = w.toNat / 1048576 % 32 :=
  toNat_field w 20 5 (by decide)

theorem toNat_rs2Field : (rs2Field w).toNat = w.toNat / 1048576 % 32 := by
  rw [rs2Field, BitVec.toNat_setWidth]
  have h := toNat_shamtField w
  rw [shamtField] at h
  rw [h]
  omega

theorem funct3Field_eq : funct3Field w = w.toNat / 4096 % 8 := toNat_field w 12 3 (by decide)

theorem funct7Field_eq : funct7Field w = w.toNat / 33554432 % 128 := toNat_field w 25 7 (by decide)

end Words

/-! ## Words of each format -/

section Formats

variable (funct7 : BitVec 7) (rs2 rs1 : Reg) (funct3 : BitVec 3) (rd : Reg) (opcode : BitVec 7)

theorem toNat_rType : (rType funct7 rs2 rs1 funct3 rd opcode).toNat =
    opcode.toNat + 128 * rd.toNat + 4096 * funct3.toNat + 32768 * rs1.toNat +
      1048576 * rs2.toNat + 33554432 * funct7.toNat := by
  unfold rType
  simp only [toNat_append_add]
  omega

theorem toNat_iType (imm : BitVec 12) : (iType imm rs1 funct3 rd opcode).toNat =
    opcode.toNat + 128 * rd.toNat + 4096 * funct3.toNat + 32768 * rs1.toNat +
      1048576 * imm.toNat := by
  unfold iType
  simp only [toNat_append_add]
  omega

theorem toNat_uType (imm : BitVec 20) : (uType imm rd opcode).toNat =
    opcode.toNat + 128 * rd.toNat + 4096 * imm.toNat := by
  unfold uType
  simp only [toNat_append_add]
  omega

theorem immI_iType (imm : BitVec 12) :
    immI (iType imm rs1 funct3 rd opcode) = imm.signExtend 32 := by
  have hw := toNat_iType rs1 funct3 rd opcode imm
  have h : (((iType imm rs1 funct3 rd opcode) >>> 20) &&& (0xFFF : Word)).toNat = _ :=
    toNat_field (iType imm rs1 funct3 rd opcode) 20 12 (by decide)
  rw [immI, ← signExtend12_setWidth]
  congr 1
  apply BitVec.eq_of_toNat_eq
  rw [BitVec.toNat_setWidth]
  refine h.trans ?_
  omega

theorem immS_sType (imm : BitVec 12) :
    immS (sType imm rs2 rs1 funct3 opcode) = imm.signExtend 32 := by
  have hw := toNat_rType (imm.extractLsb' 5 7) rs2 rs1 funct3 (imm.extractLsb' 0 5) opcode
  rw [← sType] at hw
  generalize sType imm rs2 rs1 funct3 opcode = w at hw ⊢
  simp only [BitVec.extractLsb'_toNat, Nat.shiftRight_eq_div_pow] at hw
  have hlow : ((w >>> 7) &&& (0x1F : Word)).toNat = w.toNat / 128 % 32 :=
    toNat_field w 7 5 (by decide)
  have hhigh : (w >>> 25).toNat = w.toNat / 33554432 := by
    rw [BitVec.toNat_ushiftRight, Nat.shiftRight_eq_div_pow]
  rw [immS, ← signExtend12_setWidth]
  congr 1
  apply BitVec.eq_of_toNat_eq
  have hshift : ((w >>> 25) <<< 5).toNat = (w >>> 25).toNat * 2 ^ 5 :=
    toNat_shiftLeft_of_lt (by omega)
  rw [toNat_or_disjoint 5 (by omega) (by omega), BitVec.toNat_setWidth]
  omega

/-- The fields of a B-type word, put together. -/
theorem immB_rType {offset : BitVec 13} (h : offset.toNat =
      funct7.toNat / 64 * 4096 + rd.toNat % 2 * 2048 + funct7.toNat % 64 * 32 + rd.toNat / 2 * 2) :
    immB (rType funct7 rs2 rs1 funct3 rd opcode) = offset.signExtend 32 := by
  have hw := toNat_rType funct7 rs2 rs1 funct3 rd opcode
  generalize rType funct7 rs2 rs1 funct3 rd opcode = w at hw ⊢
  have hf : w.toNat / 33554432 = funct7.toNat := by omega
  have hr : w.toNat / 128 % 32 = rd.toNat := by omega
  have h31 : ((w >>> 31) &&& (1 : Word)).toNat = funct7.toNat / 64 := by
    refine (toNat_field w 31 1 (by decide)).trans ?_
    rw [show 2 ^ 31 = 33554432 * 64 from rfl, ← Nat.div_div_eq_div_mul, hf]
    omega
  have h7 : ((w >>> 7) &&& (1 : Word)).toNat = rd.toNat % 2 :=
    (toNat_field w 7 1 (by decide)).trans (by omega)
  have h25 : ((w >>> 25) &&& (0x3F : Word)).toNat = funct7.toNat % 64 := by
    refine (toNat_field w 25 6 (by decide)).trans ?_
    rw [show 2 ^ 25 = 33554432 from rfl, hf]
    rfl
  have h8 : ((w >>> 8) &&& (0xF : Word)).toNat = rd.toNat / 2 := by
    refine (toNat_field w 8 4 (by decide)).trans ?_
    rw [show 2 ^ 8 = 128 * 2 from rfl, ← Nat.div_div_eq_div_mul, ← hr]
    exact (Nat.mod_mul_right_div_self _ 2 16).symm
  rw [immB, ← signExtend13_setWidth]
  congr 1
  apply BitVec.eq_of_toNat_eq
  rw [toNat_fields (by decide) (by decide) (by decide) (by omega) (by omega) (by omega) (by omega),
    BitVec.toNat_setWidth, Nat.mod_eq_of_lt (offset.isLt.trans (by decide)), h, h31, h7, h25, h8]
  rfl

theorem toNat_slice {n : ℕ} (x : BitVec n) (k m : ℕ) :
    (x.extractLsb' k m).toNat = x.toNat / 2 ^ k % 2 ^ m := by
  rw [BitVec.extractLsb'_toNat, Nat.shiftRight_eq_div_pow]

theorem immB_bType (imm : BitVec 12) :
    immB (bType imm rs2 rs1 funct3 opcode) = (imm ++ 0#1).signExtend 32 := by
  rw [bType]
  refine immB_rType _ _ _ _ _ _ ?_
  have himm := imm.isLt
  simp only [toNat_append_add, toNat_slice]
  have hzero : (0#1).toNat = 0 := rfl
  have hsum : (imm.toNat / 2 ^ 11 % 2 ^ 1 * 2 ^ 6 + imm.toNat / 2 ^ 4 % 2 ^ 6) / 64 =
      imm.toNat / 2048 := by omega
  have hlow : (imm.toNat / 2 ^ 11 % 2 ^ 1 * 2 ^ 6 + imm.toNat / 2 ^ 4 % 2 ^ 6) % 64 =
      imm.toNat / 16 % 64 := by omega
  have hbit : (imm.toNat / 2 ^ 0 % 2 ^ 4 * 2 ^ 1 + imm.toNat / 2 ^ 10 % 2 ^ 1) % 2 =
      imm.toNat / 1024 % 2 := by omega
  have hnib : (imm.toNat / 2 ^ 0 % 2 ^ 4 * 2 ^ 1 + imm.toNat / 2 ^ 10 % 2 ^ 1) / 2 =
      imm.toNat % 16 := by omega
  rw [hsum, hlow, hbit, hnib]
  omega

/-- The slices of a J-type word, put together. -/
theorem immJ_uType {field : BitVec 20} {offset : BitVec 21} (h : offset.toNat =
      field.toNat / 524288 * 1048576 + field.toNat % 256 * 4096 + field.toNat / 256 % 2 * 2048 +
        field.toNat / 512 % 1024 * 2) :
    immJ (uType field rd opcode) = offset.signExtend 32 := by
  have hw := toNat_uType rd opcode field
  generalize uType field rd opcode = w at hw ⊢
  have hf : w.toNat / 4096 = field.toNat := by omega
  have h31 : ((w >>> 31) &&& (1 : Word)).toNat = field.toNat / 524288 := by
    refine (toNat_field w 31 1 (by decide)).trans ?_
    rw [show 2 ^ 31 = 4096 * 524288 from rfl, ← Nat.div_div_eq_div_mul, hf]
    omega
  have h12 : ((w >>> 12) &&& (0xFF : Word)).toNat = field.toNat % 256 := by
    refine (toNat_field w 12 8 (by decide)).trans ?_
    rw [show 2 ^ 12 = 4096 from rfl, hf]
    rfl
  have h20 : ((w >>> 20) &&& (1 : Word)).toNat = field.toNat / 256 % 2 := by
    refine (toNat_field w 20 1 (by decide)).trans ?_
    rw [show 2 ^ 20 = 4096 * 256 from rfl, ← Nat.div_div_eq_div_mul, hf]
    rfl
  have h21 : ((w >>> 21) &&& (0x3FF : Word)).toNat = field.toNat / 512 % 1024 := by
    refine (toNat_field w 21 10 (by decide)).trans ?_
    rw [show 2 ^ 21 = 4096 * 512 from rfl, ← Nat.div_div_eq_div_mul, hf]
    rfl
  rw [immJ, ← signExtend21_setWidth]
  congr 1
  apply BitVec.eq_of_toNat_eq
  rw [toNat_fields (by decide) (by decide) (by decide) (by omega) (by omega) (by omega) (by omega),
    BitVec.toNat_setWidth, Nat.mod_eq_of_lt (offset.isLt.trans (by decide)), h, h31, h12, h20, h21]
  rfl

theorem jFields {b₁₁ b₁₀ b₀ : ℕ} (h₁₁ : b₁₁ < 256) (h₁₀ : b₁₀ < 2) (h₀ : b₀ < 1024) (b₁₉ : ℕ) :
    (b₁₉ * 524288 + b₀ * 512 + b₁₀ * 256 + b₁₁) / 524288 = b₁₉ ∧
      (b₁₉ * 524288 + b₀ * 512 + b₁₀ * 256 + b₁₁) % 256 = b₁₁ ∧
      (b₁₉ * 524288 + b₀ * 512 + b₁₀ * 256 + b₁₁) / 256 % 2 = b₁₀ ∧
      (b₁₉ * 524288 + b₀ * 512 + b₁₀ * 256 + b₁₁) / 512 % 1024 = b₀ := by
  refine ⟨by omega, by omega, by omega, ?_⟩
  have h : (b₁₉ * 524288 + b₀ * 512 + b₁₀ * 256 + b₁₁) / 512 = b₁₉ * 1024 + b₀ := by omega
  omega

theorem immJ_jType (imm : BitVec 20) :
    immJ (jType imm rd opcode) = (imm ++ 0#1).signExtend 32 := by
  rw [jType]
  refine immJ_uType _ _ ?_
  have himm := imm.isLt
  have hzero : (0#1).toNat = 0 := rfl
  have hfield : (imm.extractLsb' 19 1 ++ imm.extractLsb' 0 10 ++ imm.extractLsb' 10 1 ++
      imm.extractLsb' 11 8).toNat = imm.toNat / 524288 * 524288 + imm.toNat % 1024 * 512 +
        imm.toNat / 1024 % 2 * 256 + imm.toNat / 2048 % 256 := by
    simp only [toNat_append_add, toNat_slice]
    omega
  rw [hfield, toNat_append_add]
  have hsum := jFields (Nat.mod_lt (imm.toNat / 2048) (by decide : 256 > 0))
    (Nat.mod_lt (imm.toNat / 1024) (by decide : 2 > 0))
    (Nat.mod_lt imm.toNat (by decide : 1024 > 0))
    (imm.toNat / 524288)
  rw [hsum.1, hsum.2.1, hsum.2.2.1, hsum.2.2.2, hzero]
  have h₁ := Nat.div_add_mod imm.toNat 1024
  have h₂ := Nat.div_add_mod (imm.toNat / 1024) 2
  have h₃ := Nat.div_add_mod (imm.toNat / 2048) 256
  rw [Nat.div_div_eq_div_mul] at h₂ h₃
  clear hfield hsum
  omega

theorem immU_uType (imm : BitVec 20) : immU (uType imm rd opcode) = imm ++ 0#12 := by
  have hw := toNat_uType rd opcode imm
  have hmask : (0xFFFFF000 : Word) = ~~~(0xFFF : Word) := rfl
  generalize uType imm rd opcode = w at hw ⊢
  have hsplit : (w &&& (0xFFFFF000 : Word)) = (w >>> 12) <<< 12 := by
    refine BitVec.eq_of_getLsbD_eq fun i hi => ?_
    rw [BitVec.getLsbD_and, BitVec.getLsbD_shiftLeft, BitVec.getLsbD_ushiftRight]
    interval_cases i <;> simp
  rw [immU, hsplit]
  apply BitVec.eq_of_toNat_eq
  have h12 : (w >>> 12).toNat = imm.toNat := by
    rw [BitVec.toNat_ushiftRight, Nat.shiftRight_eq_div_pow]
    omega
  rw [toNat_shiftLeft_of_lt (by omega), h12, toNat_append_add]
  exact (Nat.add_zero _).symm

theorem fields_rType : opcodeField (rType funct7 rs2 rs1 funct3 rd opcode) = opcode.toNat ∧
    rdField (rType funct7 rs2 rs1 funct3 rd opcode) = rd ∧
    rs1Field (rType funct7 rs2 rs1 funct3 rd opcode) = rs1 ∧
    rs2Field (rType funct7 rs2 rs1 funct3 rd opcode) = rs2 ∧
    funct3Field (rType funct7 rs2 rs1 funct3 rd opcode) = funct3.toNat ∧
    funct7Field (rType funct7 rs2 rs1 funct3 rd opcode) = funct7.toNat := by
  have hw := toNat_rType funct7 rs2 rs1 funct3 rd opcode
  refine ⟨?_, BitVec.eq_of_toNat_eq ?_, BitVec.eq_of_toNat_eq ?_, BitVec.eq_of_toNat_eq ?_, ?_, ?_⟩
  · rw [opcodeField_eq]; omega
  · rw [toNat_rdField]; omega
  · rw [toNat_rs1Field]; omega
  · rw [toNat_rs2Field]; omega
  · rw [funct3Field_eq]; omega
  · rw [funct7Field_eq]; omega

theorem fields_iType (imm : BitVec 12) :
    opcodeField (iType imm rs1 funct3 rd opcode) = opcode.toNat ∧
      rdField (iType imm rs1 funct3 rd opcode) = rd ∧
      rs1Field (iType imm rs1 funct3 rd opcode) = rs1 ∧
      funct3Field (iType imm rs1 funct3 rd opcode) = funct3.toNat := by
  have hw := toNat_iType rs1 funct3 rd opcode imm
  refine ⟨?_, BitVec.eq_of_toNat_eq ?_, BitVec.eq_of_toNat_eq ?_, ?_⟩
  · rw [opcodeField_eq]; omega
  · rw [toNat_rdField]; omega
  · rw [toNat_rs1Field]; omega
  · rw [funct3Field_eq]; omega

theorem fields_uType (imm : BitVec 20) :
    opcodeField (uType imm rd opcode) = opcode.toNat ∧ rdField (uType imm rd opcode) = rd := by
  have hw := toNat_uType rd opcode imm
  refine ⟨?_, BitVec.eq_of_toNat_eq ?_⟩
  · rw [opcodeField_eq]; omega
  · rw [toNat_rdField]; omega

end Formats

/-! ## Decoding -/

def regOp : Rv32.RegOp → RV32Instr.Op
  | .add => .add | .sub => .sub | .sll => .sll | .slt => .slt | .sltu => .sltu | .xor => .xor
  | .srl => .srl | .sra => .sra | .or => .or | .and => .and | .mul => .mul | .mulh => .mulh
  | .mulhsu => .mulhsu | .mulhu => .mulhu | .div => .div | .divu => .divu | .rem => .rem
  | .remu => .remu

def immOp : Rv32.ImmOp → RV32Instr.Op
  | .addi => .addi | .slti => .slti | .sltiu => .sltiu | .xori => .xori | .ori => .ori
  | .andi => .andi

def shiftOp : Rv32.ShiftOp → RV32Instr.Op
  | .slli => .slli | .srli => .srli | .srai => .srai

def loadOp : Rv32.LoadOp → RV32Instr.Op
  | .lb => .lb | .lh => .lh | .lw => .lw | .lbu => .lbu | .lhu => .lhu

def storeOp : Rv32.StoreOp → RV32Instr.Op
  | .sb => .sb | .sh => .sh | .sw => .sw

def branchOp : Rv32.BranchOp → RV32Instr.Op
  | .beq => .beq | .bne => .bne | .blt => .blt | .bge => .bge | .bltu => .bltu | .bgeu => .bgeu

/-- What the decoder must find in the fields that an instruction uses. -/
def Decodes (d : RV32Instr) : Rv32.Instr → Prop
  | .reg op rd rs1 rs2 => d.op = regOp op ∧ d.rd = rd ∧ d.rs1 = rs1 ∧ d.rs2 = rs2
  | .imm op rd rs1 imm => d.op = immOp op ∧ d.rd = rd ∧ d.rs1 = rs1 ∧ d.imm = imm.signExtend 32
  | .shift op rd rs1 shamt => d.op = shiftOp op ∧ d.rd = rd ∧ d.rs1 = rs1 ∧
      d.imm = shamt.setWidth 32
  | .load op rd rs1 imm => d.op = loadOp op ∧ d.rd = rd ∧ d.rs1 = rs1 ∧ d.imm = imm.signExtend 32
  | .store op rs1 rs2 imm => d.op = storeOp op ∧ d.rs1 = rs1 ∧ d.rs2 = rs2 ∧
      d.imm = imm.signExtend 32
  | .branch op rs1 rs2 imm => d.op = branchOp op ∧ d.rs1 = rs1 ∧ d.rs2 = rs2 ∧
      d.imm = (imm ++ 0#1).signExtend 32
  | .lui rd imm => d.op = .lui ∧ d.rd = rd ∧ d.imm = imm ++ 0#12
  | .auipc rd imm => d.op = .auipc ∧ d.rd = rd ∧ d.imm = imm ++ 0#12
  | .jal rd imm => d.op = .jal ∧ d.rd = rd ∧ d.imm = (imm ++ 0#1).signExtend 32
  | .jalr rd rs1 imm => d.op = .jalr ∧ d.rd = rd ∧ d.rs1 = rs1 ∧ d.imm = imm.signExtend 32
  | .fence _ _ _ => d.op = .fence
  | .ecall => d.op = .ecall
  | .ebreak => d.op = .ebreak

theorem ne_zero_of_opcode {w : Word} (h : opcodeField w ≠ 0) : w ≠ 0 := by
  rintro rfl
  exact h rfl

theorem decodes_reg (op : Rv32.RegOp) (rd rs1 rs2 : Reg) :
    Decodes (decodeRV32 (encode (.reg op rd rs1 rs2))) (.reg op rd rs1 rs2) := by
  obtain ⟨ho, hrd, h1, h2, h3, h7⟩ := fields_rType op.functs.1 rs2 rs1 op.functs.2 rd 0x33
  show Decodes (decodeRV32 (rType op.functs.1 rs2 rs1 op.functs.2 rd 0x33)) _
  generalize rType op.functs.1 rs2 rs1 op.functs.2 rd 0x33 = w at *
  have hop : opcodeField w = 0x33 := ho
  unfold decodeRV32
  rw [if_neg (ne_zero_of_opcode (by rw [hop]; decide)), hop]
  refine ⟨?_, hrd, h1, h2⟩
  show opOfR (funct7Field w) (funct3Field w) = regOp op
  rw [h3, h7]
  cases op <;> rfl

theorem decodes_imm (op : Rv32.ImmOp) (rd rs1 : Reg) (imm : BitVec 12) :
    Decodes (decodeRV32 (encode (.imm op rd rs1 imm))) (.imm op rd rs1 imm) := by
  obtain ⟨ho, hrd, h1, h3⟩ := fields_iType rs1 op.funct3 rd 0x13 imm
  have himm := immI_iType rs1 op.funct3 rd 0x13 imm
  show Decodes (decodeRV32 (iType imm rs1 op.funct3 rd 0x13)) _
  generalize iType imm rs1 op.funct3 rd 0x13 = w at *
  have hop : opcodeField w = 0x13 := ho
  unfold decodeRV32
  rw [if_neg (ne_zero_of_opcode (by rw [hop]; decide)), hop]
  dsimp only
  rw [h3]
  cases op <;> exact ⟨rfl, hrd, h1, himm⟩

theorem decodes_shift (op : Rv32.ShiftOp) (rd rs1 : Reg) (shamt : BitVec 5) :
    Decodes (decodeRV32 (encode (.shift op rd rs1 shamt))) (.shift op rd rs1 shamt) := by
  obtain ⟨ho, hrd, h1, -, h3, h7⟩ := fields_rType op.functs.1 shamt rs1 op.functs.2 rd 0x13
  have hw := toNat_rType op.functs.1 shamt rs1 op.functs.2 rd 0x13
  show Decodes (decodeRV32 (rType op.functs.1 shamt rs1 op.functs.2 rd 0x13)) _
  generalize rType op.functs.1 shamt rs1 op.functs.2 rd 0x13 = w at *
  have hop : opcodeField w = 0x13 := ho
  have hshamt : shamtField w = shamt.setWidth 32 := by
    apply BitVec.eq_of_toNat_eq
    rw [toNat_shamtField, BitVec.toNat_setWidth]
    omega
  unfold decodeRV32
  rw [if_neg (ne_zero_of_opcode (by rw [hop]; decide)), hop]
  dsimp only
  rw [h3, h7]
  cases op <;> exact ⟨rfl, hrd, h1, hshamt⟩

theorem decodes_load (op : Rv32.LoadOp) (rd rs1 : Reg) (imm : BitVec 12) :
    Decodes (decodeRV32 (encode (.load op rd rs1 imm))) (.load op rd rs1 imm) := by
  obtain ⟨ho, hrd, h1, h3⟩ := fields_iType rs1 op.funct3 rd 0x03 imm
  have himm := immI_iType rs1 op.funct3 rd 0x03 imm
  show Decodes (decodeRV32 (iType imm rs1 op.funct3 rd 0x03)) _
  generalize iType imm rs1 op.funct3 rd 0x03 = w at *
  have hop : opcodeField w = 0x03 := ho
  unfold decodeRV32
  rw [if_neg (ne_zero_of_opcode (by rw [hop]; decide)), hop]
  refine ⟨?_, hrd, h1, himm⟩
  show opOfLoad (funct3Field w) = loadOp op
  rw [h3]
  cases op <;> rfl

theorem decodes_store (op : Rv32.StoreOp) (rs1 rs2 : Reg) (imm : BitVec 12) :
    Decodes (decodeRV32 (encode (.store op rs1 rs2 imm))) (.store op rs1 rs2 imm) := by
  obtain ⟨ho, -, h1, h2, h3, -⟩ :=
    fields_rType (imm.extractLsb' 5 7) rs2 rs1 op.funct3 (imm.extractLsb' 0 5) 0x23
  have himm := immS_sType rs2 rs1 op.funct3 0x23 imm
  show Decodes (decodeRV32 (sType imm rs2 rs1 op.funct3 0x23)) _
  rw [← sType] at ho h1 h2 h3
  generalize sType imm rs2 rs1 op.funct3 0x23 = w at *
  have hop : opcodeField w = 0x23 := ho
  unfold decodeRV32
  rw [if_neg (ne_zero_of_opcode (by rw [hop]; decide)), hop]
  refine ⟨?_, h1, h2, himm⟩
  show opOfStore (funct3Field w) = storeOp op
  rw [h3]
  cases op <;> rfl

theorem decodes_branch (op : Rv32.BranchOp) (rs1 rs2 : Reg) (imm : BitVec 12) :
    Decodes (decodeRV32 (encode (.branch op rs1 rs2 imm))) (.branch op rs1 rs2 imm) := by
  obtain ⟨ho, -, h1, h2, h3, -⟩ :=
    fields_rType (imm.extractLsb' 11 1 ++ imm.extractLsb' 4 6) rs2 rs1 op.funct3
      (imm.extractLsb' 0 4 ++ imm.extractLsb' 10 1) 0x63
  have himm := immB_bType rs2 rs1 op.funct3 0x63 imm
  show Decodes (decodeRV32 (bType imm rs2 rs1 op.funct3 0x63)) _
  rw [← bType] at ho h1 h2 h3
  generalize bType imm rs2 rs1 op.funct3 0x63 = w at *
  have hop : opcodeField w = 0x63 := ho
  unfold decodeRV32
  rw [if_neg (ne_zero_of_opcode (by rw [hop]; decide)), hop]
  refine ⟨?_, h1, h2, himm⟩
  show opOfBranch (funct3Field w) = branchOp op
  rw [h3]
  cases op <;> rfl

/-- Both instructions of the U-type. -/
theorem decodes_upper (rd : Reg) (imm : BitVec 20) :
    Decodes (decodeRV32 (encode (.lui rd imm))) (.lui rd imm) ∧
      Decodes (decodeRV32 (encode (.auipc rd imm))) (.auipc rd imm) := by
  constructor
  · obtain ⟨ho, hrd⟩ := fields_uType rd 0x37 imm
    have himm := immU_uType rd 0x37 imm
    show Decodes (decodeRV32 (uType imm rd 0x37)) _
    generalize uType imm rd 0x37 = w at *
    have hop : opcodeField w = 0x37 := ho
    unfold decodeRV32
    rw [if_neg (ne_zero_of_opcode (by rw [hop]; decide)), hop]
    exact ⟨rfl, hrd, himm⟩
  · obtain ⟨ho, hrd⟩ := fields_uType rd 0x17 imm
    have himm := immU_uType rd 0x17 imm
    show Decodes (decodeRV32 (uType imm rd 0x17)) _
    generalize uType imm rd 0x17 = w at *
    have hop : opcodeField w = 0x17 := ho
    unfold decodeRV32
    rw [if_neg (ne_zero_of_opcode (by rw [hop]; decide)), hop]
    exact ⟨rfl, hrd, himm⟩

theorem decodes_jal (rd : Reg) (imm : BitVec 20) :
    Decodes (decodeRV32 (encode (.jal rd imm))) (.jal rd imm) := by
  obtain ⟨ho, hrd⟩ := fields_uType rd 0x6F (imm.extractLsb' 19 1 ++ imm.extractLsb' 0 10 ++
    imm.extractLsb' 10 1 ++ imm.extractLsb' 11 8)
  have himm := immJ_jType rd 0x6F imm
  show Decodes (decodeRV32 (jType imm rd 0x6F)) _
  rw [← jType] at ho hrd
  generalize jType imm rd 0x6F = w at *
  have hop : opcodeField w = 0x6F := ho
  unfold decodeRV32
  rw [if_neg (ne_zero_of_opcode (by rw [hop]; decide)), hop]
  exact ⟨rfl, hrd, himm⟩

theorem decodes_jalr (rd rs1 : Reg) (imm : BitVec 12) :
    Decodes (decodeRV32 (encode (.jalr rd rs1 imm))) (.jalr rd rs1 imm) := by
  obtain ⟨ho, hrd, h1, -⟩ := fields_iType rs1 0 rd 0x67 imm
  have himm := immI_iType rs1 0 rd 0x67 imm
  show Decodes (decodeRV32 (iType imm rs1 0 rd 0x67)) _
  generalize iType imm rs1 0 rd 0x67 = w at *
  have hop : opcodeField w = 0x67 := ho
  unfold decodeRV32
  rw [if_neg (ne_zero_of_opcode (by rw [hop]; decide)), hop]
  exact ⟨rfl, hrd, h1, himm⟩

theorem decodes_fence (rd rs1 : Reg) (imm : BitVec 12) :
    Decodes (decodeRV32 (encode (.fence rd rs1 imm))) (.fence rd rs1 imm) := by
  obtain ⟨ho, -⟩ := fields_iType rs1 0 rd 0x0F imm
  show Decodes (decodeRV32 (iType imm rs1 0 rd 0x0F)) _
  generalize iType imm rs1 0 rd 0x0F = w at *
  have hop : opcodeField w = 0x0F := ho
  unfold decodeRV32
  rw [if_neg (ne_zero_of_opcode (by rw [hop]; decide)), hop]
  exact rfl

/-- The decoder finds every instruction of RV32IM in its word. -/
theorem decodeRV32_encode (i : Rv32.Instr) : Decodes (decodeRV32 (encode i)) i := by
  cases i with
  | reg op rd rs1 rs2 => exact decodes_reg op rd rs1 rs2
  | imm op rd rs1 imm => exact decodes_imm op rd rs1 imm
  | shift op rd rs1 shamt => exact decodes_shift op rd rs1 shamt
  | load op rd rs1 imm => exact decodes_load op rd rs1 imm
  | store op rs1 rs2 imm => exact decodes_store op rs1 rs2 imm
  | branch op rs1 rs2 imm => exact decodes_branch op rs1 rs2 imm
  | lui rd imm => exact (decodes_upper rd imm).1
  | auipc rd imm => exact (decodes_upper rd imm).2
  | jal rd imm => exact decodes_jal rd imm
  | jalr rd rs1 imm => exact decodes_jalr rd rs1 imm
  | fence rd rs1 imm => exact decodes_fence rd rs1 imm
  | ecall => rfl
  | ebreak => rfl

/-- No instruction word is taken for a compressed one. -/
theorem encode_low_bits (i : Rv32.Instr) : encode i &&& 3 = 3 := by
  have hop : opcodeField (encode i) % 4 = 3 := by
    cases i with
    | reg => exact congrArg (· % 4) (fields_rType _ _ _ _ _ _).1
    | imm => exact congrArg (· % 4) (fields_iType _ _ _ _ _).1
    | shift => exact congrArg (· % 4) (fields_rType _ _ _ _ _ _).1
    | load => exact congrArg (· % 4) (fields_iType _ _ _ _ _).1
    | store => exact congrArg (· % 4) (fields_rType _ _ _ _ _ _).1
    | branch => exact congrArg (· % 4) (fields_rType _ _ _ _ _ _).1
    | lui => exact congrArg (· % 4) (fields_uType _ _ _).1
    | auipc => exact congrArg (· % 4) (fields_uType _ _ _).1
    | jal => exact congrArg (· % 4) (fields_uType _ _ _).1
    | jalr => exact congrArg (· % 4) (fields_iType _ _ _ _ _).1
    | fence => exact congrArg (· % 4) (fields_iType _ _ _ _ _).1
    | ecall => rfl
    | ebreak => rfl
  have hlow := toNat_field (encode i) 0 2 (by decide)
  rw [BitVec.ushiftRight_zero, pow_zero, Nat.div_one] at hlow
  rw [opcodeField_eq] at hop
  apply BitVec.eq_of_toNat_eq
  show _ = 3
  refine hlow.trans ?_
  omega

end RiscvGpgpu.Golden
