import RiscvGpgpu.Parity.Encoding

/-!
# The split of large immediates

`encodeInstructionExpanded` loads an immediate of more than twelve bits with a `LUI` and an `ADDI`.
The two parts always give the immediate back modulo `2 ^ 32`; on the way the rounding leaves the
range of `int32_t` for the last 2048 immediates.
-/

namespace RiscvGpgpu.Parity

open Hls

/-- No sum, shift or difference of the split wraps. -/
structure NoOverflow (imm : Word) : Prop where
  rounded : (imm + 0x800).toInt = imm.toInt + 0x800
  shifted : (hi20 imm <<< 12).toInt = (hi20 imm).toInt * 2 ^ 12
  lower : (lo12 imm).toInt = imm.toInt - (hi20 imm <<< 12).toInt

/-- The two words load the immediate, and the parts are computed in `int32_t`. -/
structure SplitCorrect (rd rs2 : Reg) (imm : Word) : Prop where
  words : encodeInstructionExpanded .addi rd 0 rs2 imm =
    [encodeInstruction .lui rd 0 0 (hi20 imm), encodeInstruction .addi rd rd 0 (lo12 imm)]
  lower : -2048 ≤ (lo12 imm).toInt ∧ (lo12 imm).toInt ≤ 2047
  upper : decodeImmU (encodeInstruction .lui rd 0 0 (hi20 imm)) <<< 12 + lo12 imm = imm
  executes : ∀ (P : PipelineParams) (warpId : WarpId) (s : DivergenceStack) (regs : RegFile),
    executeSeq P warpId (expanded ⟨.addi, rd, 0, rs2, imm⟩) (s, regs) =
      .ret (s, fun t =>
        if s.activeMask.active t then Function.update (regs t) rd imm else regs t)
  noOverflow : NoOverflow imm

section Split

variable {imm : Word}

theorem toInt_bounds (imm : Word) : -2 ^ 31 ≤ imm.toInt ∧ imm.toInt < 2 ^ 31 := by
  have hlo := imm.le_two_mul_toInt
  have hhi := imm.two_mul_toInt_lt
  omega

theorem toInt_hi20 (h : (imm + 0x800).toInt = imm.toInt + 0x800) :
    (hi20 imm).toInt = (imm.toInt + 0x800) / 2 ^ 12 := by
  rw [hi20, BitVec.toInt_sshiftRight, h, Int.shiftRight_eq_div_pow]
  rfl

theorem noOverflow_of_lt (h : imm.toInt + 0x800 < 2 ^ 31) : NoOverflow imm := by
  obtain ⟨hlo, -⟩ := toInt_bounds imm
  have hrounded : (imm + 0x800).toInt = imm.toInt + 0x800 := by
    rw [BitVec.toInt_add]
    exact Int.bmod_eq_of_le (by simp; omega) (by simp; omega)
  have hpow : (BitVec.twoPow 32 12).toInt = 2 ^ 12 := by decide
  have hshifted : (hi20 imm <<< 12).toInt = (hi20 imm).toInt * 2 ^ 12 := by
    rw [BitVec.shiftLeft_eq_mul_twoPow, BitVec.toInt_mul, toInt_hi20 hrounded, hpow]
    exact Int.bmod_eq_of_le (by simp; omega) (by simp; omega)
  refine ⟨hrounded, hshifted, ?_⟩
  rw [lo12, BitVec.toInt_sub, hshifted, toInt_hi20 hrounded]
  exact Int.bmod_eq_of_le (by simp; omega) (by simp; omega)

/-- Only the rounding can overflow. -/
theorem noOverflow_iff : NoOverflow imm ↔ imm.toInt + 0x800 < 2 ^ 31 := by
  refine ⟨fun h => ?_, noOverflow_of_lt⟩
  rw [← h.rounded]
  exact (toInt_bounds _).2

end Split

/-- The split is right for the immediates that the rounding leaves in range. -/
theorem splitCorrect_iff (rd rs2 : Reg) (imm : Word)
    (himm : imm.toInt < -2048 ∨ 2047 < imm.toInt) :
    SplitCorrect rd rs2 imm ↔ imm.toInt + 0x800 < 2 ^ 31 := by
  rw [← noOverflow_iff]
  refine ⟨SplitCorrect.noOverflow, fun h => ?_⟩
  have hexpand : needsExpansion .addi 0 imm = true := by
    refine (needsExpansion_iff _ _ _).2 ⟨rfl, rfl, ?_⟩
    unfold fits12
    omega
  refine ⟨?_, fits12_lo12 imm, ?_, ?_, h⟩
  · rw [encodeInstructionExpanded, if_pos hexpand]
  · rw [encodeInstruction, immU_packU, shiftLeft_low20, hi20_add_lo12]
  · intro P warpId s regs
    exact executeSeq_expanded_addi hexpand s regs

/-- The bits of a float, as the programs load them. -/
theorem splitCorrect_iff_float : SplitCorrect 1 0 0x40490FDB#32 ↔
    (0x40490FDB#32).toInt + 0x800 < 2 ^ 31 :=
  splitCorrect_iff 1 0 0x40490FDB#32 (by decide)

/-- The rounding of `INT32_MAX` overflows. -/
theorem not_splitCorrect_max : ¬ ∀ (rd rs2 : Reg) (imm : Word),
    imm.toInt < -2048 ∨ 2047 < imm.toInt → SplitCorrect rd rs2 imm := by
  intro h
  have hmax := noOverflow_iff.1 (h 1 0 0x7FFFFFFF#32 (by decide)).noOverflow
  exact absurd hmax (by decide)

end RiscvGpgpu.Parity
