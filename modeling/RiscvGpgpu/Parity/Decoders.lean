import RiscvGpgpu.Hls.Codec
import RiscvGpgpu.Golden.Rv32Decode

/-!
# The two decoders on one word

`decodeInstruction` of the HLS side against `decodeRV32` of the golden model, for every word whose
HLS operation stands for a standard RV32I or RV32F operation. The HLS decoder does not look at all
the function fields the golden one dispatches on; the words on which the two agree are exactly
those whose function fields name an operation of the HLS instruction set.
-/

namespace RiscvGpgpu.Parity

open Hls Golden

/-! ## Corresponding instructions -/

section Same

variable (op : RV32Instr.Op) (i : Instruction) (d : RV32Instr)

/-- Two source registers and a destination. -/
def SameR : Prop := d.op = op ∧ d.rd = i.rd ∧ d.rs1 = i.rs1 ∧ d.rs2 = i.rs2

/-- A source register, a destination and an immediate. -/
def SameI : Prop := d.op = op ∧ d.rd = i.rd ∧ d.rs1 = i.rs1 ∧ d.imm = i.imm

/-- Two source registers and an immediate. -/
def SameS : Prop := d.op = op ∧ d.rs1 = i.rs1 ∧ d.rs2 = i.rs2 ∧ d.imm = i.imm

/-- A destination and an immediate. -/
def SameU (imm : Word) : Prop := d.op = op ∧ d.rd = i.rd ∧ d.imm = imm

end Same

/-- The operation of the golden model that an HLS operation stands for. -/
def standardOp : Opcode → RV32Instr.Op
  | .add => .add | .sub => .sub | .and => .and | .or => .or | .xor => .xor | .slt => .slt
  | .addi => .addi | .lui => .lui | .lw => .lw | .sw => .sw | .beq => .beq | .bne => .bne
  | .jal => .jal | .jalr => .jalr | .fadd => .faddS | .fmul => .fmulS
  | _ => .unknown

/-- An HLS instruction that stands for a standard operation has that operation of the golden model
beside it, with the registers and the immediate of its format. `FADD` and `FMUL` are standard where
they come from the standard opcode; `executeALU` shifts the immediate of `LUI`. -/
def Corresponds (w : RawInstr) (i : Instruction) (d : RV32Instr) : Prop :=
  match i.opcode with
  | .add | .sub | .and | .or | .xor | .slt => SameR (standardOp i.opcode) i d
  | .addi | .lw | .jalr => SameI (standardOp i.opcode) i d
  | .sw | .beq | .bne => SameS (standardOp i.opcode) i d
  | .lui => SameU (standardOp i.opcode) i d (i.imm <<< 12)
  | .jal => SameU (standardOp i.opcode) i d i.imm
  | .fadd | .fmul => w.extractLsb' 0 7 = majorOpFp → SameR (standardOp i.opcode) i d
  | _ => True

/-- The decoders agree on a word. -/
def DecodersAgree (w : RawInstr) : Prop := Corresponds w (decodeInstruction w) (decodeRV32 w)

/-- The function fields of an `OP`, `OP_IMM`, load, store or branch word name an operation that the
HLS instruction set has. -/
def FunctsNamed (w : RawInstr) : Prop :=
  (w.extractLsb' 0 7 = majorOp → decodeF7 w ≠ 1 ∧ decodeF3 w ≠ 1 ∧ decodeF3 w ≠ 3 ∧
    decodeF3 w ≠ 5) ∧
  (w.extractLsb' 0 7 = majorOpImm → decodeF3 w = 0) ∧
  (w.extractLsb' 0 7 = majorLoad → decodeF3 w = 2) ∧
  (w.extractLsb' 0 7 = majorStore → decodeF3 w = 2) ∧
  (w.extractLsb' 0 7 = majorBranch → decodeF3 w = 0 ∨ decodeF3 w = 1)

instance (w : RawInstr) : Decidable (FunctsNamed w) := inferInstanceAs (Decidable (_ ∧ _))

/-! ## Fields -/

section Fields

variable (w : RawInstr)

theorem opcodeField_slice : opcodeField w = (w.extractLsb' 0 7).toNat := by
  rw [opcodeField_eq, toNat_slice, pow_zero, Nat.div_one]
  rfl

theorem funct3Field_slice : funct3Field w = (decodeF3 w).toNat := by
  rw [funct3Field_eq, decodeF3, toNat_slice]
  rfl

theorem funct7Field_slice : funct7Field w = (decodeF7 w).toNat := by
  rw [funct7Field_eq, decodeF7, toNat_slice]
  rfl

theorem rdField_slice : rdField w = decodeRd w :=
  BitVec.eq_of_toNat_eq ((toNat_rdField w).trans (toNat_slice w 7 5).symm)

theorem rs1Field_slice : rs1Field w = decodeRs1 w :=
  BitVec.eq_of_toNat_eq ((toNat_rs1Field w).trans (toNat_slice w 15 5).symm)

theorem rs2Field_slice : rs2Field w = decodeRs2 w :=
  BitVec.eq_of_toNat_eq ((toNat_rs2Field w).trans (toNat_slice w 20 5).symm)

/-- Every word is an R-type word of its slices. -/
theorem rType_slices : Rv32.rType (decodeF7 w) (decodeRs2 w) (decodeRs1 w) (decodeF3 w)
    (decodeRd w) (w.extractLsb' 0 7) = w := by
  apply BitVec.eq_of_toNat_eq
  rw [toNat_rType]
  simp only [decodeF7, decodeRs2, decodeRs1, decodeF3, decodeRd, toNat_slice]
  have := w.isLt
  omega

theorem iType_slices : Rv32.iType (w.extractLsb' 20 12) (decodeRs1 w) (decodeF3 w) (decodeRd w)
    (w.extractLsb' 0 7) = w := by
  apply BitVec.eq_of_toNat_eq
  rw [toNat_iType]
  simp only [decodeRs1, decodeF3, decodeRd, toNat_slice]
  have := w.isLt
  omega

theorem uType_slices :
    Rv32.uType (w.extractLsb' 12 20) (decodeRd w) (w.extractLsb' 0 7) = w := by
  apply BitVec.eq_of_toNat_eq
  rw [toNat_uType]
  simp only [decodeRd, toNat_slice]
  have := w.isLt
  omega

theorem immI_slice : immI w = decodeImmI w := by
  have h := immI_iType (decodeRs1 w) (decodeF3 w) (decodeRd w) (w.extractLsb' 0 7)
    (w.extractLsb' 20 12)
  rwa [iType_slices] at h

theorem immS_slice : immS w = decodeImmS w := by
  have h := immS_sType (decodeRs2 w) (decodeRs1 w) (decodeF3 w) (w.extractLsb' 0 7)
    (decodeF7 w ++ decodeRd w)
  have hhigh : (decodeF7 w ++ decodeRd w).extractLsb' 5 7 = decodeF7 w := by
    apply BitVec.eq_of_toNat_eq
    rw [toNat_slice, toNat_append_add]
    omega
  have hlow : (decodeF7 w ++ decodeRd w).extractLsb' 0 5 = decodeRd w := by
    apply BitVec.eq_of_toNat_eq
    rw [toNat_slice, toNat_append_add]
    omega
  rwa [Rv32.sType, hhigh, hlow, rType_slices] at h

theorem immB_slice : immB w = decodeImmB w := by
  have hword : immB (Rv32.rType (decodeF7 w) (decodeRs2 w) (decodeRs1 w) (decodeF3 w) (decodeRd w)
      (w.extractLsb' 0 7)) = decodeImmB w := by
    refine immB_rType _ _ _ _ _ _ ?_
    have hzero : (0#1).toNat = 0 := rfl
    have hsign : w.toNat / 2 ^ 25 % 2 ^ 7 / 64 = w.toNat / 2 ^ 31 % 2 ^ 1 := by omega
    have hlow : w.toNat / 2 ^ 7 % 2 ^ 5 / 2 = w.toNat / 2 ^ 8 % 2 ^ 4 := by omega
    simp only [toNat_append_add, decodeF7, decodeRd, toNat_slice]
    rw [hsign, hlow]
    omega
  rwa [rType_slices] at hword

theorem immJ_slice : immJ w = decodeImmJ w := by
  have hword : immJ (Rv32.uType (w.extractLsb' 12 20) (decodeRd w) (w.extractLsb' 0 7)) =
      decodeImmJ w := by
    refine immJ_uType _ _ ?_
    have hzero : (0#1).toNat = 0 := rfl
    have hsign : w.toNat / 2 ^ 12 % 2 ^ 20 / 524288 = w.toNat / 2 ^ 31 % 2 ^ 1 := by omega
    have hbit : w.toNat / 2 ^ 12 % 2 ^ 20 / 256 % 2 = w.toNat / 2 ^ 20 % 2 ^ 1 := by omega
    have hten : w.toNat / 2 ^ 12 % 2 ^ 20 / 512 % 1024 = w.toNat / 2 ^ 21 % 2 ^ 10 := by omega
    simp only [toNat_append_add, toNat_slice]
    rw [hsign, hbit, hten]
    omega
  rwa [uType_slices] at hword

/-- The executor's shift makes the raw field of `LUI` the golden model's immediate. -/
theorem immU_slice : immU w = decodeImmU w <<< 12 := by
  have h := immU_uType (decodeRd w) (w.extractLsb' 0 7) (w.extractLsb' 12 20)
  rw [uType_slices] at h
  rw [h, decodeImmU]
  apply BitVec.eq_of_toNat_eq
  have hlt := (w.extractLsb' 12 20).isLt
  have hwide : ((w.extractLsb' 12 20).setWidth 32).toNat = (w.extractLsb' 12 20).toNat :=
    BitVec.toNat_setWidth_of_le (by decide)
  rw [toNat_append_add, toNat_shiftLeft_of_lt (by omega), hwide]
  exact Nat.add_zero _

end Fields

/-! ## The golden decoder by major opcode -/

section Decode

variable {w : RawInstr}

theorem opcodeField_of_slice {opc : BitVec 7} (h : w.extractLsb' 0 7 = opc) :
    opcodeField w = opc.toNat := by
  rw [opcodeField_slice, h]

/-- The golden instruction of a word of a known opcode that is not zero. -/
theorem decodeRV32_of_slice {opc : BitVec 7} (h : w.extractLsb' 0 7 = opc) (hne : opc.toNat ≠ 0) :
    w ≠ 0 ∧ opcodeField w = opc.toNat :=
  ⟨ne_zero_of_opcode (by rwa [opcodeField_of_slice h]), opcodeField_of_slice h⟩

theorem decodeRV32_op (h : w.extractLsb' 0 7 = majorOp) : (decodeRV32 w).op =
      opOfR (decodeF7 w).toNat (decodeF3 w).toNat ∧ (decodeRV32 w).rd = decodeRd w ∧
      (decodeRV32 w).rs1 = decodeRs1 w ∧ (decodeRV32 w).rs2 = decodeRs2 w := by
  obtain ⟨hne, hopc⟩ := decodeRV32_of_slice h (by decide)
  unfold decodeRV32
  rw [if_neg hne, hopc, ← rdField_slice, ← rs1Field_slice, ← rs2Field_slice, ← funct3Field_slice,
    ← funct7Field_slice]
  exact ⟨rfl, rfl, rfl, rfl⟩

/-- Of the operations with an immediate only `ADDI` has function field 0. -/
theorem decodeRV32_opImm (h : w.extractLsb' 0 7 = majorOpImm) :
    ((decodeRV32 w).op = .addi ↔ decodeF3 w = 0) ∧ (decodeRV32 w).rd = decodeRd w ∧
      (decodeRV32 w).rs1 = decodeRs1 w ∧ (decodeF3 w = 0 → (decodeRV32 w).imm = decodeImmI w) := by
  obtain ⟨hne, hopc⟩ := decodeRV32_of_slice h (by decide)
  unfold decodeRV32
  rw [if_neg hne, hopc, ← rdField_slice, ← rs1Field_slice, ← immI_slice]
  dsimp only [majorOpImm]
  rw [funct3Field_slice]
  have hcases : ∀ f3 : BitVec 3, f3 = 0 ∨ f3 = 1 ∨ f3 = 2 ∨ f3 = 3 ∨ f3 = 4 ∨ f3 = 5 ∨ f3 = 6 ∨
      f3 = 7 := by decide
  rcases hcases (decodeF3 w) with h3 | h3 | h3 | h3 | h3 | h3 | h3 | h3 <;> rw [h3]
  case inl => exact ⟨iff_of_true rfl rfl, rfl, rfl, fun _ => rfl⟩
  all_goals refine ⟨iff_of_false ?_ (by decide), rfl, rfl, fun h0 => absurd h0 (by decide)⟩
  case inr.inr.inr.inr.inr.inl =>
    show (if funct7Field w = 0x20 then RV32Instr.Op.srai else .srli) ≠ .addi
    split <;> decide
  all_goals exact RV32Instr.Op.noConfusion

/-- A load, a store and a branch: the function field gives the operation. -/
theorem decodeRV32_load (h : w.extractLsb' 0 7 = majorLoad) : (decodeRV32 w).op =
      opOfLoad (decodeF3 w).toNat ∧ (decodeRV32 w).rd = decodeRd w ∧
      (decodeRV32 w).rs1 = decodeRs1 w ∧ (decodeRV32 w).imm = decodeImmI w := by
  obtain ⟨hne, hopc⟩ := decodeRV32_of_slice h (by decide)
  unfold decodeRV32
  rw [if_neg hne, hopc, ← rdField_slice, ← rs1Field_slice, ← immI_slice, ← funct3Field_slice]
  exact ⟨rfl, rfl, rfl, rfl⟩

theorem decodeRV32_store (h : w.extractLsb' 0 7 = majorStore) : (decodeRV32 w).op =
      opOfStore (decodeF3 w).toNat ∧ (decodeRV32 w).rs1 = decodeRs1 w ∧
      (decodeRV32 w).rs2 = decodeRs2 w ∧ (decodeRV32 w).imm = decodeImmS w := by
  obtain ⟨hne, hopc⟩ := decodeRV32_of_slice h (by decide)
  unfold decodeRV32
  rw [if_neg hne, hopc, ← rs1Field_slice, ← rs2Field_slice, ← immS_slice, ← funct3Field_slice]
  exact ⟨rfl, rfl, rfl, rfl⟩

theorem decodeRV32_branch (h : w.extractLsb' 0 7 = majorBranch) : (decodeRV32 w).op =
      opOfBranch (decodeF3 w).toNat ∧ (decodeRV32 w).rs1 = decodeRs1 w ∧
      (decodeRV32 w).rs2 = decodeRs2 w ∧ (decodeRV32 w).imm = decodeImmB w := by
  obtain ⟨hne, hopc⟩ := decodeRV32_of_slice h (by decide)
  unfold decodeRV32
  rw [if_neg hne, hopc, ← rs1Field_slice, ← rs2Field_slice, ← immB_slice, ← funct3Field_slice]
  exact ⟨rfl, rfl, rfl, rfl⟩

theorem decodeRV32_lui (h : w.extractLsb' 0 7 = majorLui) : (decodeRV32 w).op = .lui ∧
    (decodeRV32 w).rd = decodeRd w ∧ (decodeRV32 w).imm = decodeImmU w <<< 12 := by
  obtain ⟨hne, hopc⟩ := decodeRV32_of_slice h (by decide)
  unfold decodeRV32
  rw [if_neg hne, hopc, ← rdField_slice, ← immU_slice]
  exact ⟨rfl, rfl, rfl⟩

theorem decodeRV32_jal (h : w.extractLsb' 0 7 = majorJal) : (decodeRV32 w).op = .jal ∧
    (decodeRV32 w).rd = decodeRd w ∧ (decodeRV32 w).imm = decodeImmJ w := by
  obtain ⟨hne, hopc⟩ := decodeRV32_of_slice h (by decide)
  unfold decodeRV32
  rw [if_neg hne, hopc, ← rdField_slice, ← immJ_slice]
  exact ⟨rfl, rfl, rfl⟩

theorem decodeRV32_jalr (h : w.extractLsb' 0 7 = majorJalr) : (decodeRV32 w).op = .jalr ∧
    (decodeRV32 w).rd = decodeRd w ∧ (decodeRV32 w).rs1 = decodeRs1 w ∧
      (decodeRV32 w).imm = decodeImmI w := by
  obtain ⟨hne, hopc⟩ := decodeRV32_of_slice h (by decide)
  unfold decodeRV32
  rw [if_neg hne, hopc, ← rdField_slice, ← rs1Field_slice, ← immI_slice]
  exact ⟨rfl, rfl, rfl, rfl⟩

theorem decodeRV32_opFp (h : w.extractLsb' 0 7 = majorOpFp) : (decodeRV32 w).op =
      opOfFp (decodeF7 w).toNat (decodeF3 w).toNat (decodeRs2 w) ∧
      (decodeRV32 w).rd = decodeRd w ∧ (decodeRV32 w).rs1 = decodeRs1 w ∧
      (decodeRV32 w).rs2 = decodeRs2 w := by
  obtain ⟨hne, hopc⟩ := decodeRV32_of_slice h (by decide)
  unfold decodeRV32
  rw [if_neg hne, hopc, ← rdField_slice, ← rs1Field_slice, ← rs2Field_slice, ← funct3Field_slice,
    ← funct7Field_slice]
  exact ⟨rfl, rfl, rfl, rfl⟩

end Decode

/-! ## Agreement -/

section Agreement

variable {w : RawInstr}

theorem agree_op (h : w.extractLsb' 0 7 = majorOp) : DecodersAgree w ↔
    decodeF7 w ≠ 1 ∧ decodeF3 w ≠ 1 ∧ decodeF3 w ≠ 3 ∧ decodeF3 w ≠ 5 := by
  obtain ⟨hop, hrd, h1, h2⟩ := decodeRV32_op h
  have hi : decodeInstruction w = {
      opcode := decodeOp (decodeF3 w) (decodeF7 w)
      rd := decodeRd w, rs1 := decodeRs1 w, rs2 := decodeRs2 w } := by
    unfold decodeInstruction
    rw [if_pos h]
  have hsame : DecodersAgree w ↔ SameR (standardOp (decodeOp (decodeF3 w) (decodeF7 w)))
      (decodeInstruction w) (decodeRV32 w) := by
    unfold DecodersAgree
    rw [hi]
    unfold decodeOp
    split_ifs <;> exact Iff.rfl
  have hnames : ∀ (f3 : BitVec 3) (f7 : BitVec 7),
      opOfR f7.toNat f3.toNat = standardOp (decodeOp f3 f7) ↔
        f7 ≠ 1 ∧ f3 ≠ 1 ∧ f3 ≠ 3 ∧ f3 ≠ 5 := by
    decide +kernel
  rw [hsame, SameR, hop, hnames, hi]
  exact and_iff_left ⟨hrd, h1, h2⟩

theorem agree_opImm (h : w.extractLsb' 0 7 = majorOpImm) :
    DecodersAgree w ↔ decodeF3 w = 0 := by
  obtain ⟨hop, hrd, h1, himm⟩ := decodeRV32_opImm h
  have hi : decodeInstruction w =
      { opcode := .addi, rd := decodeRd w, rs1 := decodeRs1 w, imm := decodeImmI w } := by
    unfold decodeInstruction
    rw [h]
    rfl
  unfold DecodersAgree
  rw [hi]
  show _ = RV32Instr.Op.addi ∧ _ ↔ _
  rw [hop]
  exact and_iff_left_of_imp fun h3 => ⟨hrd, h1, himm h3⟩

theorem agree_load (h : w.extractLsb' 0 7 = majorLoad) : DecodersAgree w ↔ decodeF3 w = 2 := by
  obtain ⟨hop, hrd, h1, himm⟩ := decodeRV32_load h
  have hi : decodeInstruction w =
      { opcode := .lw, rd := decodeRd w, rs1 := decodeRs1 w, imm := decodeImmI w } := by
    unfold decodeInstruction
    rw [h]
    rfl
  have hnames : ∀ f3 : BitVec 3, opOfLoad f3.toNat = .lw ↔ f3 = 2 := by decide
  unfold DecodersAgree
  rw [hi]
  show _ = RV32Instr.Op.lw ∧ _ ↔ _
  rw [hop, hnames]
  exact and_iff_left ⟨hrd, h1, himm⟩

theorem agree_store (h : w.extractLsb' 0 7 = majorStore) : DecodersAgree w ↔ decodeF3 w = 2 := by
  obtain ⟨hop, h1, h2, himm⟩ := decodeRV32_store h
  have hi : decodeInstruction w =
      { opcode := .sw, rs1 := decodeRs1 w, rs2 := decodeRs2 w, imm := decodeImmS w } := by
    unfold decodeInstruction
    rw [h]
    rfl
  have hnames : ∀ f3 : BitVec 3, opOfStore f3.toNat = .sw ↔ f3 = 2 := by decide
  unfold DecodersAgree
  rw [hi]
  show _ = RV32Instr.Op.sw ∧ _ ↔ _
  rw [hop, hnames]
  exact and_iff_left ⟨h1, h2, himm⟩

theorem agree_branch (h : w.extractLsb' 0 7 = majorBranch) :
    DecodersAgree w ↔ decodeF3 w = 0 ∨ decodeF3 w = 1 := by
  obtain ⟨hop, h1, h2, himm⟩ := decodeRV32_branch h
  have hi : decodeInstruction w = {
      opcode := if decodeF3 w = 0b000 then .beq else .bne
      rs1 := decodeRs1 w, rs2 := decodeRs2 w, imm := decodeImmB w } := by
    unfold decodeInstruction
    rw [h]
    rfl
  have hsame : DecodersAgree w ↔ SameS (standardOp (if decodeF3 w = 0b000 then .beq else .bne))
      (decodeInstruction w) (decodeRV32 w) := by
    unfold DecodersAgree
    rw [hi]
    split_ifs <;> exact Iff.rfl
  have hnames : ∀ f3 : BitVec 3, opOfBranch f3.toNat =
      standardOp (if f3 = 0b000 then .beq else .bne) ↔ f3 = 0 ∨ f3 = 1 := by decide
  rw [hsame, SameS, hop, hnames, hi]
  exact and_iff_left ⟨h1, h2, himm⟩

/-- On the upper immediates, the jumps and the standard float opcode the decoders always agree. -/
theorem agree_always (h : w.extractLsb' 0 7 = majorLui ∨ w.extractLsb' 0 7 = majorJal ∨
    w.extractLsb' 0 7 = majorJalr ∨ w.extractLsb' 0 7 = majorOpFp) : DecodersAgree w := by
  unfold DecodersAgree
  rcases h with h | h | h | h
  · have hi : decodeInstruction w = { opcode := .lui, rd := decodeRd w, imm := decodeImmU w } := by
      unfold decodeInstruction
      rw [h]
      rfl
    rw [hi]
    exact decodeRV32_lui h
  · have hi : decodeInstruction w = { opcode := .jal, rd := decodeRd w, imm := decodeImmJ w } := by
      unfold decodeInstruction
      rw [h]
      rfl
    rw [hi]
    exact decodeRV32_jal h
  · have hi : decodeInstruction w =
        { opcode := .jalr, rd := decodeRd w, rs1 := decodeRs1 w, imm := decodeImmI w } := by
      unfold decodeInstruction
      rw [h]
      rfl
    rw [hi]
    exact decodeRV32_jalr h
  · obtain ⟨hop, hrd, h1, h2⟩ := decodeRV32_opFp h
    have hi : decodeInstruction w = {
        opcode := decodeOpFp (decodeF7 w)
        rd := decodeRd w, rs1 := decodeRs1 w, rs2 := decodeRs2 w } := by
      unfold decodeInstruction
      rw [h]
      rfl
    rw [hi]
    unfold decodeOpFp
    split_ifs with hadd hmul
    · exact fun _ => ⟨hop.trans (by rw [hadd]; rfl), hrd, h1, h2⟩
    · exact fun _ => ⟨hop.trans (by rw [hmul]; rfl), hrd, h1, h2⟩
    · trivial

/-- The words of the custom opcodes and of no opcode stand for nothing standard. -/
theorem agree_other (hop : w.extractLsb' 0 7 ≠ majorOp) (himm : w.extractLsb' 0 7 ≠ majorOpImm)
    (hlui : w.extractLsb' 0 7 ≠ majorLui) (hload : w.extractLsb' 0 7 ≠ majorLoad)
    (hstore : w.extractLsb' 0 7 ≠ majorStore) (hbranch : w.extractLsb' 0 7 ≠ majorBranch)
    (hjal : w.extractLsb' 0 7 ≠ majorJal) (hjalr : w.extractLsb' 0 7 ≠ majorJalr)
    (hfp : w.extractLsb' 0 7 ≠ majorOpFp) : DecodersAgree w := by
  unfold DecodersAgree decodeInstruction
  rw [if_neg hop, if_neg himm, if_neg hlui, if_neg hload, if_neg hstore, if_neg hbranch,
    if_neg hjal, if_neg hjalr, if_neg hfp]
  split_ifs
  · unfold decodeCustom0
    split_ifs
    all_goals first | trivial | exact fun h => absurd h hfp
  all_goals trivial

/-- **The two decoders.** The HLS decoder and the golden one agree on a word exactly when its
function fields name an operation of the HLS instruction set. -/
theorem decodersAgree_iff (w : RawInstr) : DecodersAgree w ↔ FunctsNamed w := by
  unfold FunctsNamed
  by_cases hop : w.extractLsb' 0 7 = majorOp
  · rw [agree_op hop, hop]
    simp [majorOp, majorOpImm, majorLoad, majorStore, majorBranch]
  by_cases himm : w.extractLsb' 0 7 = majorOpImm
  · rw [agree_opImm himm, himm]
    simp [majorOp, majorOpImm, majorLoad, majorStore, majorBranch]
  by_cases hload : w.extractLsb' 0 7 = majorLoad
  · rw [agree_load hload, hload]
    simp [majorOp, majorOpImm, majorLoad, majorStore, majorBranch]
  by_cases hstore : w.extractLsb' 0 7 = majorStore
  · rw [agree_store hstore, hstore]
    simp [majorOp, majorOpImm, majorLoad, majorStore, majorBranch]
  by_cases hbranch : w.extractLsb' 0 7 = majorBranch
  · rw [agree_branch hbranch, hbranch]
    simp [majorOp, majorOpImm, majorLoad, majorStore, majorBranch]
  refine iff_of_true ?_ ⟨fun h => absurd h hop, fun h => absurd h himm, fun h => absurd h hload,
    fun h => absurd h hstore, fun h => absurd h hbranch⟩
  by_cases hlui : w.extractLsb' 0 7 = majorLui
  · exact agree_always (.inl hlui)
  by_cases hjal : w.extractLsb' 0 7 = majorJal
  · exact agree_always (.inr (.inl hjal))
  by_cases hjalr : w.extractLsb' 0 7 = majorJalr
  · exact agree_always (.inr (.inr (.inl hjalr)))
  by_cases hfp : w.extractLsb' 0 7 = majorOpFp
  · exact agree_always (.inr (.inr (.inr hfp)))
  exact agree_other hop himm hlui hload hstore hbranch hjal hjalr hfp

/-- `mul x3, x1, x2` is decoded as `ADD`. -/
theorem not_decodersAgree_mul : ¬ ∀ w : RawInstr, DecodersAgree w := by
  intro hall
  have hmul := (hall (Rv32.encode (.reg .mul 3 1 2))).1
  have hgolden : (decodeRV32 (Rv32.encode (.reg .mul 3 1 2))).op = .mul := by decide
  exact absurd (hgolden.symm.trans hmul) (by decide)

end Agreement

end RiscvGpgpu.Parity
