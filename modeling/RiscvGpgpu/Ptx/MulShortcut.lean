import RiscvGpgpu.Ptx.ArithConformance

/-!
# Multiplication by a power of two

`emitArith` writes a shift for a product with a power of two. The loop that looks for the amount
shifts an `int`, so it ends for the powers below `2 ^ 31` only; the test in front of it takes all
those of 64 bits.
-/

namespace RiscvGpgpu.Ptx

open Asm (Line Machine Fpu)

/-- `emitArith` comes to the test for a power of two with the 64-bit immediate `imm`. -/
structure TestsPower (instr : PtxInstr) (imm : ℤ) : Prop where
  notFloat : (contains instr.op ".f32".toList || contains instr.op ".f64".toList) = false
  kind : intKind instr.op = some .mul
  operand : immOperand instr.operands = some imm
  bounds : -2 ^ 63 ≤ imm ∧ imm < 2 ^ 63

/-- The loop ends at `shift`, no value of `1 << shift` on the way overflows, and the last one is
the immediate. -/
structure DerivesShift (imm : ℤ) (shift : ℕ) : Prop where
  ends : mulShift imm = some shift
  noOverflow : ∀ j ≤ shift, (1#32 <<< j).toInt = 2 ^ j
  pow : 2 ^ shift = imm

/-- The register of the destination, and the state behind it. -/
def mulDst (instr : PtxInstr) (s : RvEmitter) : Rv32.Reg × RvEmitter :=
  s.ireg (instr.operands.headD {}).name

/-- The register of the first source, and the state behind it. -/
def mulSrc (instr : PtxInstr) (s : RvEmitter) : Rv32.Reg × RvEmitter :=
  rarg (mulDst instr s).2 instr.operands 1

/-- The shift of the first source into the destination. -/
def mulLine (instr : PtxInstr) (s : RvEmitter) (shift : ℕ) : Line :=
  .shift .slli (mulDst instr s).1 (mulSrc instr s).1 shift

/-- The instruction that is emitted multiplies by the immediate. -/
structure Multiplies (instr : PtxInstr) (s : RvEmitter) (imm : ℤ) (shift : ℕ) : Prop where
  emits : emitArith instr s = some ((mulSrc instr s).2.write (mulLine instr s shift))
  out : (mulSrc instr s).2.out = s.out
  encodable : (mulLine instr s shift).encodable = true
  computes : ∀ (fpu : Fpu) (m : Machine),
    ((mulLine instr s shift).exec fpu m).get (mulDst instr s).1 =
      m.get (mulSrc instr s).1 * BitVec.ofInt 32 imm

/-- The shortcut derives a shift and emits it. -/
def ShortcutCorrect (instr : PtxInstr) (s : RvEmitter) (imm : ℤ) : Prop :=
  ∃ shift, DerivesShift imm shift ∧ Multiplies instr s imm shift

section Shortcut

variable {instr : PtxInstr} {s : RvEmitter} {imm : ℤ} {shift : ℕ}

theorem derivesShift_pow {k : ℕ} (hk : k < 31) : DerivesShift (2 ^ k) k where
  ends := mulShift_pow hk
  noOverflow j hj := by
    have hlt : j < 31 := Nat.lt_of_le_of_lt hj hk
    interval_cases j <;> decide
  pow := rfl

/-- There are operands, and at least three of them. -/
theorem TestsPower.size (h : TestsPower instr imm) : 2 < instr.operands.length := by
  have hoperand := h.operand
  unfold immOperand at hoperand
  apply Nat.lt_of_not_le
  intro hle
  rw [List.getElem?_eq_none hle] at hoperand
  exact absurd hoperand (by simp)

theorem TestsPower.emitArith_eq (h : TestsPower instr imm) (hpow : isPowerOfTwo imm = true) :
    emitArith instr s =
      (mulShift imm).map fun shift => (mulSrc instr s).2.write (mulLine instr s shift) := by
  have hsize := h.size
  have hne : instr.operands ≠ [] := by
    rintro heq
    rw [heq] at hsize
    exact absurd hsize (by simp)
  unfold emitArith
  rw [if_neg hne, h.notFloat, if_neg Bool.false_ne_true, emitIntArith, if_neg (by omega)]
  dsimp only
  rw [h.kind]
  dsimp only
  unfold emitIntKind
  rw [h.operand]
  dsimp only
  rw [if_pos hpow]
  rfl

theorem multiplies_pow (hs : s.Allocated) (h : TestsPower instr (2 ^ shift)) (hshift : shift < 31)
    (hpow : isPowerOfTwo (2 ^ shift) = true) : Multiplies instr s (2 ^ shift) shift where
  emits := by rw [h.emitArith_eq hpow, mulShift_pow hshift, Option.map_some]
  out := rarg_out.trans RvEmitter.ireg_out
  encodable := by
    simp only [mulLine, Line.encodable, Bool.and_eq_true, decide_eq_true_iff]
    omega
  computes fpu m := by
    have hrd : (mulDst instr s).1 ≠ 0 := hs.ireg_ne_zero
    rw [mulLine, Line.exec, Machine.get_set_self hrd, ← shiftLeft_eq_mul]
    rfl

/-- The shortcut is right below `2 ^ 31`, and from there on its loop does not end. -/
theorem shortcutCorrect_iff (hs : s.Allocated) (h : TestsPower instr imm)
    (hpow : isPowerOfTwo imm = true) : ShortcutCorrect instr s imm ↔ imm < 2 ^ 31 := by
  constructor
  · rintro ⟨shift, hderives, -⟩
    apply lt_of_not_ge
    intro hge
    exact absurd ((mulShift_eq_none hge).symm.trans hderives.ends) (by simp)
  · intro hlt
    obtain ⟨k, hk, rfl⟩ := exists_pow_of_lt hpow hlt
    exact ⟨k, derivesShift_pow hk, multiplies_pow hs h hk hpow⟩

end Shortcut

/-- `mul.lo.u32 %r1, %r0, imm`. -/
def mulBy (imm : ℤ) : PtxInstr where
  op := "mul.lo.u32".toList
  operands := [{ kind := .reg, name := "r1".toList }, { kind := .reg, name := "r0".toList },
    { kind := .intImm, intVal := imm }]

theorem testsPower_mulBy {imm : ℤ} (h : -2 ^ 63 ≤ imm ∧ imm < 2 ^ 63) :
    TestsPower (mulBy imm) imm where
  notFloat := (by decide : (contains "mul.lo.u32".toList ".f32".toList ||
    contains "mul.lo.u32".toList ".f64".toList) = false)
  kind := (by decide : intKind "mul.lo.u32".toList = some .mul)
  operand := rfl
  bounds := h

theorem shortcutCorrect_iff_eight : ShortcutCorrect (mulBy 8) {} 8 ↔ (8 : ℤ) < 2 ^ 31 :=
  shortcutCorrect_iff allocated_default (testsPower_mulBy (by decide)) (by decide)

/-- `1 << 31` is negative and `1 << 32` is undefined, so that no shift stands for `2 ^ 31`. -/
theorem not_shortcutCorrect : ¬ ∀ (instr : PtxInstr) (s : RvEmitter) (imm : ℤ), s.Allocated →
    TestsPower instr imm → isPowerOfTwo imm = true → ShortcutCorrect instr s imm := by
  intro h
  obtain ⟨shift, hderives, -⟩ := h (mulBy (2 ^ 31)) {} (2 ^ 31) allocated_default
    (testsPower_mulBy (by decide)) (by decide)
  exact absurd ((mulShift_eq_none (le_refl _)).symm.trans hderives.ends) (by simp)

end RiscvGpgpu.Ptx
