import RiscvGpgpu.Hls.CodecRoundTrip

/-!
# The codec as a round trip

An instruction that keeps to its format is decoded to itself after it is encoded, and a decoded word
keeps to its format. The one exception is an `OP_FP` word of an unsupported operation: it decodes to
a `HALT` that still has the register fields of the word, and encoding that drops them.
-/

namespace RiscvGpgpu.Hls

/-! ## Formats -/

/-- The word formats. -/
inductive Format where
  | r | i | s | b | u | j
  /-- `VJOIN` and `HALT` have no fields. -/
  | bare
deriving DecidableEq, Repr

def format : Opcode → Format
  | .addi | .lw | .jalr | .barrier => .i
  | .sw => .s
  | .beq | .bne => .b
  | .lui => .u
  | .jal => .j
  | .vjoin | .halt => .bare
  | _ => .r

/-- The immediates that a format holds. -/
def Format.Holds (imm : Word) : Format → Prop
  | .i | .s => -2 ^ 11 ≤ imm.toInt ∧ imm.toInt < 2 ^ 11
  | .b => 2 ∣ imm.toInt ∧ -2 ^ 12 ≤ imm.toInt ∧ imm.toInt < 2 ^ 12
  | .u => imm.toNat < 2 ^ 20
  | .j => 2 ∣ imm.toInt ∧ -2 ^ 20 ≤ imm.toInt ∧ imm.toInt < 2 ^ 20
  | .r | .bare => True

/-- An instruction, with the fields that its format does not carry set to zero. -/
def carried (i : Instruction) : Instruction :=
  match format i.opcode with
  | .r => { i with imm := 0 }
  | .i => { i with rs2 := 0 }
  | .s | .b => { i with rd := 0 }
  | .u | .j => { i with rs1 := 0, rs2 := 0 }
  | .bare => { opcode := i.opcode }

theorem isRType_iff (op : Opcode) : isRType op = true ↔ format op = .r := by cases op <;> decide

theorem isIType_iff (op : Opcode) : isIType op = true ↔ format op = .i := by cases op <;> decide

theorem format_eq_s (op : Opcode) : format op = .s ↔ op = .sw := by cases op <;> decide

theorem format_eq_u (op : Opcode) : format op = .u ↔ op = .lui := by cases op <;> decide

theorem format_eq_j (op : Opcode) : format op = .j ↔ op = .jal := by cases op <;> decide

/-- `encodeInstruction` of the fields of an instruction. -/
def encode (i : Instruction) : RawInstr := encodeInstruction i.opcode i.rd i.rs1 i.rs2 i.imm

/-! ## Immediates -/

/-- A number in the signed range of `n` bits is the sign extension of its `n` low bits. -/
theorem signExtend_setWidth {n : ℕ} {imm : Word} (hn : n < 32) (hlo : -2 ^ n ≤ imm.toInt)
    (hhi : imm.toInt < 2 ^ n) : (imm.setWidth (n + 1)).signExtend 32 = imm := by
  rw [← BitVec.toInt_inj, BitVec.toInt_signExtend_of_le (by omega), BitVec.toInt_setWidth]
  calc (imm.toNat : ℤ).bmod (2 ^ (n + 1))
      = imm.toInt.bmod (2 ^ (n + 1)) := by
        rw [BitVec.toInt_eq_toNat_bmod, Int.bmod_bmod_of_dvd (Nat.pow_dvd_pow 2 (by omega))]
    _ = imm.toInt := by
        apply Int.bmod_eq_of_le <;> push_cast <;> omega

theorem toInt_signExtend_range {n : ℕ} (v : BitVec (n + 1)) (hn : n < 32) :
    -2 ^ n ≤ (v.signExtend 32).toInt ∧ (v.signExtend 32).toInt < 2 ^ n := by
  rw [BitVec.toInt_signExtend_of_le (by omega)]
  exact ⟨by simpa using BitVec.le_toInt v, by simpa using BitVec.toInt_lt (x := v)⟩

/-- An even number has a clear lowest bit. -/
theorem two_dvd_toInt_iff (imm : Word) : 2 ∣ imm.toInt ↔ imm.getLsbD 0 = false := by
  rw [BitVec.toInt_eq_toNat_cond, BitVec.getLsbD, Nat.testBit_zero]
  have := imm.isLt
  split <;> simp <;> omega

section Fields

variable (rd rs1 rs2 : Reg) (imm : Word) (opc : BitVec 7) (f3 : BitVec 3)

theorem rs1_packB : decodeRs1 (packB rs1 rs2 imm opc f3) = rs1 := by rw [packB_eq_packR, rs1_packR]

theorem rs2_packB : decodeRs2 (packB rs1 rs2 imm opc f3) = rs2 := by rw [packB_eq_packR, rs2_packR]

theorem immB_packB (h : imm.getLsbD 0 = false) :
    decodeImmB (packB rs1 rs2 imm opc f3) = (imm.setWidth 13).signExtend 32 := by
  unfold decodeImmB packB
  congr 1
  ext i hi
  simp
  grind

theorem rd_packJ : decodeRd (packJ rd imm opc) = rd := by
  unfold decodeRd packJ
  ext i hi
  simp
  grind

theorem immJ_packJ (h : imm.getLsbD 0 = false) :
    decodeImmJ (packJ rd imm opc) = (imm.setWidth 21).signExtend 32 := by
  unfold decodeImmJ packJ
  congr 1
  ext i hi
  simp
  grind

end Fields

/-! ## Encoding, then decoding -/

section RoundTrip

variable (rd rs1 rs2 : Reg) (imm : Word)

theorem decode_encode_branch {op : Opcode} (h : format op = .b) (heven : imm.getLsbD 0 = false) :
    decodeInstruction (encodeInstruction op rd rs1 rs2 imm) =
      { opcode := op, rs1 := rs1, rs2 := rs2, imm := (imm.setWidth 13).signExtend 32 } := by
  unfold decodeInstruction
  cases op <;> first
    | exact absurd h (by decide)
    | simp [encodeInstruction, opcode_packB, rs1_packB, rs2_packB, f3_packB,
        immB_packB _ _ _ _ _ heven, majorOp, majorOpImm, majorLui, majorLoad, majorStore,
        majorBranch]

theorem decode_encode_jal (heven : imm.getLsbD 0 = false) :
    decodeInstruction (encodeInstruction .jal rd rs1 rs2 imm) =
      { opcode := .jal, rd := rd, imm := (imm.setWidth 21).signExtend 32 } := by
  unfold decodeInstruction
  simp [encodeInstruction, opcode_packJ, rd_packJ, immJ_packJ _ _ _ heven, majorOp,
    majorOpImm, majorLui, majorLoad, majorStore, majorBranch, majorJal]

theorem decode_encode_bare {op : Opcode} (h : format op = .bare) :
    decodeInstruction (encodeInstruction op rd rs1 rs2 imm) = { opcode := op } := by
  unfold decodeInstruction
  cases op <;> first
    | exact absurd h (by decide)
    | simp [encodeInstruction, opcode_packR, f3_packR, majorOp, majorOpImm, majorLui, majorLoad,
        majorStore, majorBranch, majorJal, majorJalr, majorOpFp, majorCustom0, majorCustom1]

theorem setWidth_setWidth_of_lt {imm : Word} (h : imm.toNat < 2 ^ 20) :
    (imm.setWidth 20).setWidth 32 = imm := by
  apply BitVec.eq_of_toNat_eq
  rw [BitVec.toNat_setWidth, BitVec.toNat_setWidth, Nat.mod_eq_of_lt h, Nat.mod_eq_of_lt imm.isLt]

end RoundTrip

/-- An instruction whose immediate fits its format comes back with the fields of that format. -/
theorem decode_encode {i : Instruction} (h : (format i.opcode).Holds i.imm) :
    decodeInstruction (encode i) = carried i := by
  obtain ⟨op, rd, rs1, rs2, imm⟩ := i
  unfold carried encode
  dsimp only at h ⊢
  cases hf : format op with
  | r => exact decode_encode_rType _ _ _ _ ((isRType_iff op).2 hf)
  | i =>
    rw [hf] at h
    rw [decode_encode_iType _ _ _ _ ((isIType_iff op).2 hf), trunc12,
      signExtend_setWidth (by decide) h.1 h.2]
  | s =>
    obtain rfl := (format_eq_s op).1 hf
    rw [decode_encode_sw, trunc12, signExtend_setWidth (by decide) h.1 h.2]
  | b =>
    rw [hf] at h
    rw [decode_encode_branch _ _ _ _ hf ((two_dvd_toInt_iff _).1 h.1),
      signExtend_setWidth (by decide) h.2.1 h.2.2]
  | u =>
    obtain rfl := (format_eq_u op).1 hf
    rw [decode_encode_lui, setWidth_setWidth_of_lt h]
  | j =>
    obtain rfl := (format_eq_j op).1 hf
    rw [decode_encode_jal _ _ _ _ ((two_dvd_toInt_iff _).1 h.1),
      signExtend_setWidth (by decide) h.2.1 h.2.2]
  | bare => exact decode_encode_bare _ _ _ _ hf

/-! ## Decoding, then encoding -/

/-- An instruction that has only the fields of its format, with an immediate that fits. -/
structure KeepsFormat (i : Instruction) : Prop where
  holds : (format i.opcode).Holds i.imm
  fields : carried i = i

theorem KeepsFormat.decode_encode {i : Instruction} (h : KeepsFormat i) :
    decodeInstruction (encode i) = i := by
  rw [Hls.decode_encode h.holds, h.fields]

section Fields

variable {rd rs1 rs2 : Reg} {imm : Word} {op : Opcode}

theorem keepsFormat_r (h : format op = .r) : KeepsFormat { opcode := op, rd, rs1, rs2 } := by
  refine ⟨?_, ?_⟩ <;> simp only [carried, h, Format.Holds]

theorem keepsFormat_i (h : format op = .i) (himm : Format.i.Holds imm) :
    KeepsFormat { opcode := op, rd, rs1, imm } :=
  ⟨by rw [h]; exact himm, by simp only [carried, h]⟩

theorem keepsFormat_branch (h : format op = .b) (himm : Format.b.Holds imm) :
    KeepsFormat { opcode := op, rs1, rs2, imm } :=
  ⟨by rw [h]; exact himm, by simp only [carried, h]⟩

theorem keepsFormat_bare (h : format op = .bare) : KeepsFormat { opcode := op } := by
  refine ⟨?_, ?_⟩ <;> simp only [carried, h, Format.Holds]

end Fields

section Immediates

variable (w : RawInstr)

theorem holds_immI : Format.i.Holds (decodeImmI w) := toInt_signExtend_range _ (by decide)

theorem holds_immS : Format.s.Holds (decodeImmS w) := toInt_signExtend_range _ (by decide)

theorem holds_immB : Format.b.Holds (decodeImmB w) := by
  refine ⟨(two_dvd_toInt_iff _).2 ?_, toInt_signExtend_range _ (by decide)⟩
  rw [decodeImmB, BitVec.getLsbD_signExtend, BitVec.getLsbD_append]
  rfl

theorem holds_immU : Format.u.Holds (decodeImmU w) := by
  unfold decodeImmU Format.Holds
  rw [BitVec.toNat_setWidth]
  exact Nat.lt_of_le_of_lt (Nat.mod_le _ _) (BitVec.isLt _)

theorem holds_immJ : Format.j.Holds (decodeImmJ w) := by
  refine ⟨(two_dvd_toInt_iff _).2 ?_, toInt_signExtend_range _ (by decide)⟩
  rw [decodeImmJ, BitVec.getLsbD_signExtend, BitVec.getLsbD_append]
  rfl

end Immediates

/-- The word of an unsupported `OP_FP` operation that names a register other than 0. -/
def HaltWithFields (w : RawInstr) : Prop :=
  w.extractLsb' 0 7 = majorOpFp ∧ decodeF7 w ≠ 0b0000000 ∧ decodeF7 w ≠ 0b0001000 ∧
    ¬ (decodeRd w = 0 ∧ decodeRs1 w = 0 ∧ decodeRs2 w = 0)

instance (w : RawInstr) : Decidable (HaltWithFields w) := inferInstanceAs (Decidable (_ ∧ _))

theorem format_decodeOp (f3 : BitVec 3) (f7 : BitVec 7) : format (decodeOp f3 f7) = .r := by
  unfold decodeOp
  repeat' split
  all_goals rfl

theorem format_decodeCustom0 (f3 : BitVec 3) (f7 : BitVec 7) :
    format (decodeCustom0 f3 f7) = .r := by
  unfold decodeCustom0
  repeat' split
  all_goals rfl

/-- The words of the major opcodes but for `OP_FP`. -/
theorem keepsFormat_decode_of_ne {w : RawInstr} (h : w.extractLsb' 0 7 ≠ majorOpFp) :
    KeepsFormat (decodeInstruction w) := by
  unfold decodeInstruction
  dsimp only
  by_cases hop : w.extractLsb' 0 7 = majorOp
  · rw [if_pos hop]
    exact keepsFormat_r (format_decodeOp _ _)
  by_cases hopImm : w.extractLsb' 0 7 = majorOpImm
  · rw [if_neg hop, if_pos hopImm]
    exact keepsFormat_i rfl (holds_immI w)
  by_cases hlui : w.extractLsb' 0 7 = majorLui
  · rw [if_neg hop, if_neg hopImm, if_pos hlui]
    exact ⟨holds_immU w, rfl⟩
  by_cases hload : w.extractLsb' 0 7 = majorLoad
  · rw [if_neg hop, if_neg hopImm, if_neg hlui, if_pos hload]
    exact keepsFormat_i rfl (holds_immI w)
  by_cases hstore : w.extractLsb' 0 7 = majorStore
  · rw [if_neg hop, if_neg hopImm, if_neg hlui, if_neg hload, if_pos hstore]
    exact ⟨holds_immS w, rfl⟩
  rw [if_neg hop, if_neg hopImm, if_neg hlui, if_neg hload, if_neg hstore]
  by_cases hbranch : w.extractLsb' 0 7 = majorBranch
  · rw [if_pos hbranch]
    exact keepsFormat_branch (by split <;> rfl) (holds_immB w)
  by_cases hjal : w.extractLsb' 0 7 = majorJal
  · rw [if_neg hbranch, if_pos hjal]
    exact ⟨holds_immJ w, rfl⟩
  by_cases hjalr : w.extractLsb' 0 7 = majorJalr
  · rw [if_neg hbranch, if_neg hjal, if_pos hjalr]
    exact keepsFormat_i rfl (holds_immI w)
  rw [if_neg hbranch, if_neg hjal, if_neg hjalr, if_neg h]
  by_cases hcustom0 : w.extractLsb' 0 7 = majorCustom0
  · rw [if_pos hcustom0]
    exact keepsFormat_r (format_decodeCustom0 _ _)
  rw [if_neg hcustom0]
  split
  · split
    · exact keepsFormat_r rfl
    · split
      · exact keepsFormat_bare rfl
      · split
        · exact keepsFormat_i rfl (holds_immI w)
        · exact keepsFormat_bare rfl
  · exact keepsFormat_bare rfl

theorem decode_opFp {w : RawInstr} (h : w.extractLsb' 0 7 = majorOpFp) :
    decodeInstruction w =
      { opcode := decodeOpFp (decodeF7 w), rd := decodeRd w, rs1 := decodeRs1 w,
        rs2 := decodeRs2 w } := by
  unfold decodeInstruction
  dsimp only
  rw [h, if_neg (by decide), if_neg (by decide), if_neg (by decide), if_neg (by decide),
    if_neg (by decide), if_neg (by decide), if_neg (by decide), if_neg (by decide), if_pos rfl]

theorem keepsFormat_decode {w : RawInstr} (h : ¬ HaltWithFields w) :
    KeepsFormat (decodeInstruction w) := by
  by_cases hopFp : w.extractLsb' 0 7 = majorOpFp
  · rw [decode_opFp hopFp]
    by_cases hadd : decodeF7 w = 0b0000000
    · rw [decodeOpFp, if_pos hadd]
      exact keepsFormat_r rfl
    by_cases hmul : decodeF7 w = 0b0001000
    · rw [decodeOpFp, if_neg hadd, if_pos hmul]
      exact keepsFormat_r rfl
    · obtain ⟨hrd, hrs1, hrs2⟩ := not_not.1 fun hfields => h ⟨hopFp, hadd, hmul, hfields⟩
      rw [decodeOpFp, if_neg hadd, if_neg hmul, hrd, hrs1, hrs2]
      exact keepsFormat_bare rfl
  · exact keepsFormat_decode_of_ne hopFp

/-! ## The round trip -/

/-- An instruction with an immediate in range survives the codec, with the flags of `makeInstr`. -/
def RoundTrips (i : Instruction) : Prop :=
  (format i.opcode).Holds i.imm →
    decodeInstruction (encode i) = carried i ∧
    (decodeInstruction (encode i)).isVector = i.opcode.isVectorOp ∧
    (decodeInstruction (encode i)).isMemory = i.opcode.isMemoryOp ∧
    (decodeInstruction (encode i)).isBranch = i.opcode.isBranchOp

/-- What a word decodes to survives the codec. -/
def Stable (w : RawInstr) : Prop :=
  decodeInstruction (encode (decodeInstruction w)) = decodeInstruction w

instance (w : RawInstr) : Decidable (Stable w) := inferInstanceAs (Decidable (_ = _))

theorem opcode_carried (i : Instruction) : (carried i).opcode = i.opcode := by
  unfold carried
  split <;> rfl

theorem roundTrips (i : Instruction) : RoundTrips i := by
  intro h
  have hopcode : (decodeInstruction (encode i)).opcode = i.opcode := by
    rw [decode_encode h, opcode_carried]
  refine ⟨decode_encode h, ?_, ?_, ?_⟩
  · rw [Instruction.isVector, hopcode]
  · rw [Instruction.isMemory, hopcode]
  · rw [Instruction.isBranch, hopcode]

theorem stable_iff (w : RawInstr) : Stable w ↔ ¬ HaltWithFields w := by
  constructor
  · rintro hstable ⟨hopFp, hadd, hmul, hfields⟩
    have hdecode : decodeInstruction w =
        { opcode := .halt, rd := decodeRd w, rs1 := decodeRs1 w, rs2 := decodeRs2 w } := by
      rw [decode_opFp hopFp, decodeOpFp, if_neg hadd, if_neg hmul]
    have hbare : decodeInstruction (encode (decodeInstruction w)) = { opcode := .halt } := by
      rw [hdecode]
      exact decode_encode_bare _ _ _ _ rfl
    rw [Stable, hbare, hdecode] at hstable
    obtain ⟨-, hrd, hrs1, hrs2, -⟩ := Instruction.mk.inj hstable
    exact hfields ⟨hrd.symm, hrs1.symm, hrs2.symm⟩
  · exact fun h => (keepsFormat_decode h).decode_encode

/-- The codec is a round trip in both directions but for the words of `HaltWithFields`. -/
theorem codec_iff (i : Instruction) (w : RawInstr) :
    RoundTrips i ∧ Stable w ↔ ¬ HaltWithFields w := by
  rw [stable_iff, and_iff_right (roundTrips i)]

/-- `fsub.s f1, f2, f3` decodes to a `HALT` with three register numbers. -/
theorem not_stable_fsub : ¬ Stable 0x083100D3 := by
  rw [stable_iff]
  decide

end RiscvGpgpu.Hls
