import RiscvGpgpu.Hls.CodecRoundTrip
import RiscvGpgpu.Hls.WarpRun
import RiscvGpgpu.Parity.WarpRuns

/-!
# Encoded programs

A golden program, translated word by word and loaded into the program store, against the golden
executor on the original. `encodeInstruction` cuts the immediates of `ADDI`, `LW`, `SW` and
`BARRIER` to twelve bits; only `ADDI` from `rs1 = 0` is expanded to two words, and the expansion
drops the register operand. The translation is faithful exactly where no executed instruction loses
something by that (`ImmediatesFit`).
-/

namespace RiscvGpgpu.Parity

open Golden Hls

/-! ## Translation -/

/-- The words of a golden program, as `loadProgram` computes them. -/
def encodeProgram (code : List Instruction) : List RawInstr :=
  code.flatMap fun i => encodeInstructionExpanded i.opcode i.rd i.rs1 i.rs2 i.imm

/-- Where golden instruction `j` starts in the words. -/
def expandedPc (code : List Instruction) (j : ℕ) : ℕ := (encodeProgram (code.take j)).length

/-- What the decoder makes of one golden instruction. -/
def expanded (i : Instruction) : List Instruction :=
  (encodeInstructionExpanded i.opcode i.rd i.rs1 i.rs2 i.imm).map decodeInstruction

theorem map_decode_encodeProgram (code : List Instruction) :
    (encodeProgram code).map decodeInstruction = code.flatMap expanded := by
  rw [encodeProgram, List.map_flatMap]
  rfl

theorem length_encodeProgram (code : List Instruction) :
    (encodeProgram code).length = (code.flatMap expanded).length := by
  rw [← map_decode_encodeProgram, List.length_map]

/-- What one instruction keeps through the translation: the immediate fits its field, or the
instruction is an `ADDI` from a zero register 0, or no lane is active to see the difference. -/
def ImmediateFits (K : CuConfig) (warpId : WarpId) (instr : Instruction) (c : SimtController)
    (regs : RegFile) : Prop :=
  match instr.opcode with
  | .addi => fits12 instr.imm ∨
      ∀ t, laneOn K (c.getActiveMask warpId) t = true → instr.rs1 = 0 ∧ regs t 0 = 0
  | .lw | .sw => fits12 instr.imm ∨ ∀ t, laneOn K (c.getActiveMask warpId) t = false
  | .barrier => fits12 instr.imm
  | _ => True

/-- Every instruction that the golden run executes from the given state on fits; the memory answers
as `ans` of the request history `h`. -/
def ImmediatesFit (K : CuConfig) (ans : List Request → Word) (warpId : WarpId) :
    List Instruction → List Request → SimtController → RegFile → Prop
  | [], _, _, _ => True
  | instr :: rest, h, c, regs =>
    instr.opcode ≠ .halt →
      ImmediateFits K warpId instr c regs ∧
        if instr.opcode = .barrier then
          ImmediatesFit K ans warpId rest h
            ((c.threadHitBarrier warpId instr.imm).initializeWarp warpId K.threadsPerWarp) regs
        else
          let s := (Golden.executeInstr K warpId instr c regs).serve (goldenServer ans) h
          ImmediatesFit K ans warpId rest s.1 s.2.1 s.2.2

/-- Some active lane jumps at a branch, so the branch pushes. -/
def BranchPushes (K : CuConfig) (warpId : WarpId) (instr : Instruction) (c : SimtController)
    (regs : RegFile) : Prop :=
  ∃ t, laneOn K (c.getActiveMask warpId) t = true ∧ regs t instr.rs1 ≠ 0#32

instance (K : CuConfig) (warpId : WarpId) (instr : Instruction) (c : SimtController)
    (regs : RegFile) : Decidable (BranchPushes K warpId instr c regs) :=
  inferInstanceAs (Decidable
    (∃ t : Fin 32, laneOn K (c.getActiveMask warpId) t = true ∧ regs t instr.rs1 ≠ 0#32))

/-- The divergence depth since the last start or resume, behind one instruction. -/
def depthBehind (K : CuConfig) (warpId : WarpId) (instr : Instruction) (c : SimtController)
    (regs : RegFile) (depth : ℕ) : ℕ :=
  if instr.opcode = .vbranch then
    if BranchPushes K warpId instr c regs then depth + 1 else depth
  else if instr.opcode = .vjoin then depth - 1
  else depth

/-- The divergence depth of the golden run since the last start or resume never exceeds
`MAX_DIVERGENCE_DEPTH`. -/
def WithinDepth (K : CuConfig) (ans : List Request → Word) (warpId : WarpId) :
    List Instruction → ℕ → List Request → SimtController → RegFile → Prop
  | [], _, _, _, _ => True
  | instr :: rest, depth, h, c, regs =>
    instr.opcode ≠ .halt →
      if instr.opcode = .barrier then
        WithinDepth K ans warpId rest 0 h
          ((c.threadHitBarrier warpId instr.imm).initializeWarp warpId K.threadsPerWarp) regs
      else
        let s := (Golden.executeInstr K warpId instr c regs).serve (goldenServer ans) h
        depthBehind K warpId instr c regs depth ≤ maxDivergenceDepth ∧
          WithinDepth K ans warpId rest (depthBehind K warpId instr c regs depth) s.1 s.2.1 s.2.2

instance decidableWithinDepth (K : CuConfig) (ans : List Request → Word) (warpId : WarpId) :
    ∀ code depth h c regs, Decidable (WithinDepth K ans warpId code depth h c regs)
  | [], _, _, _, _ => .isTrue trivial
  | instr :: rest, depth, h, c, regs =>
    have := decidableWithinDepth K ans warpId rest
    inferInstanceAs (Decidable (instr.opcode ≠ .halt →
      if instr.opcode = .barrier then
        WithinDepth K ans warpId rest 0 h
          ((c.threadHitBarrier warpId instr.imm).initializeWarp warpId K.threadsPerWarp) regs
      else
        depthBehind K warpId instr c regs depth ≤ maxDivergenceDepth ∧
          WithinDepth K ans warpId rest (depthBehind K warpId instr c regs depth)
            ((Golden.executeInstr K warpId instr c regs).serve (goldenServer ans) h).1
            ((Golden.executeInstr K warpId instr c regs).serve (goldenServer ans) h).2.1
            ((Golden.executeInstr K warpId instr c regs).serve (goldenServer ans) h).2.2))

/-! ## One instruction -/

/-- A straight line of instructions. -/
def executeSeq (P : PipelineParams) (warpId : WarpId) :
    List Instruction → DivergenceStack × RegFile →
      Interact MemReq MemResp (DivergenceStack × RegFile)
  | [], s => .ret s
  | instr :: rest, s =>
    (Hls.executeInstr P warpId instr s.1 s.2).bind (executeSeq P warpId rest)

section Instr

variable {P : PipelineParams} {K : CuConfig} {warpId : WarpId} {instr : Instruction}

theorem expanded_of_not_needsExpansion
    (h : needsExpansion instr.opcode instr.rs1 instr.imm = false) :
    expanded instr =
      [decodeInstruction
        (encodeInstruction instr.opcode instr.rd instr.rs1 instr.rs2 instr.imm)] := by
  rw [expanded, encodeInstructionExpanded, if_neg (by simp [h])]
  rfl

theorem executeSeq_singleton (i : Instruction) (s : DivergenceStack × RegFile) :
    executeSeq P warpId [i] s = Hls.executeInstr P warpId i s.1 s.2 := by
  unfold executeSeq
  generalize Hls.executeInstr P warpId i s.1 s.2 = p
  induction p with
  | ret r => rfl
  | ask q k ih => exact congrArg _ (funext ih)

theorem shiftLeft_low20 (imm : Word) :
    ((imm.setWidth 20).setWidth 32 : Word) <<< 12 = imm <<< 12 := by
  refine BitVec.eq_of_getLsbD_eq fun i hi => ?_
  rw [BitVec.getLsbD_shiftLeft, BitVec.getLsbD_shiftLeft]
  by_cases h : i < 12
  · rw [decide_eq_true h, Bool.not_true, Bool.and_false, Bool.false_and, Bool.false_and]
  · have h20 : i - 12 < 20 := by omega
    have h32 : i - 12 < 32 := by omega
    rw [BitVec.getLsbD_setWidth, BitVec.getLsbD_setWidth, decide_eq_true h20, decide_eq_true h32,
      Bool.true_and, Bool.true_and]

/-- A scalar operation changes registers only. -/
theorem executeInstr_scalar (hb : instr.opcode ≠ .vbranch) (hj : instr.opcode ≠ .vjoin)
    (hm : instr.isMemory = false) (hv : instr.isVector = false) (s : DivergenceStack)
    (regs : RegFile) :
    Hls.executeInstr P warpId instr s regs =
      .ret (s, Hls.executeALU P.fp regs instr s.activeMask) := by
  unfold Hls.executeInstr
  dsimp only
  rw [if_neg hb, if_neg hj, hm, if_neg Bool.false_ne_true, hv, Bool.and_false,
    if_neg Bool.false_ne_true]

/-- The opcodes no executor implements, and the two that stop the warp. -/
def isNoop : Opcode → Bool
  | .beq | .bne | .jal | .jalr | .halt | .barrier => true
  | _ => false

theorem executeInstr_noop (h : isNoop instr.opcode = true) (s : DivergenceStack)
    (regs : RegFile) : Hls.executeInstr P warpId instr s regs = .ret (s, regs) := by
  have hscalar : instr.opcode ≠ .vbranch ∧ instr.opcode ≠ .vjoin ∧ instr.isMemory = false ∧
      instr.isVector = false ∧ ∀ r, aluResult P.fp instr r = none := by
    unfold Instruction.isMemory Instruction.isVector aluResult
    revert h
    cases instr.opcode <;> simp [isNoop, Opcode.isMemoryOp, Opcode.isVectorOp, Opcode.code]
  obtain ⟨hb, hj, hm, hv, hnone⟩ := hscalar
  rw [executeInstr_scalar hb hj hm hv]
  congr 2
  funext t
  simp [Hls.executeALU, hnone, writeReg]

theorem executeInstr_vjoin (h : instr.opcode = .vjoin) (s : DivergenceStack) (regs : RegFile) :
    Hls.executeInstr P warpId instr s regs = .ret (executeJoin s, regs) := by
  unfold Hls.executeInstr
  dsimp only
  rw [if_neg (by simp [h]), if_pos h]

theorem executeInstr_addi (h : instr.opcode = .addi) (s : DivergenceStack) (regs : RegFile) :
    Hls.executeInstr P warpId instr s regs =
      .ret (s, fun t =>
        if s.activeMask.active t then
          Function.update (regs t) instr.rd (regs t instr.rs1 + instr.imm)
        else regs t) := by
  rw [executeInstr_scalar (by simp [h]) (by simp [h]) (by simp [Instruction.isMemory, h]; rfl)
    (by simp [Instruction.isVector, h]; rfl)]
  unfold Hls.executeALU aluResult
  simp only [h, true_or, if_true, writeReg]

theorem executeInstr_lui (h : instr.opcode = .lui) (s : DivergenceStack) (regs : RegFile) :
    Hls.executeInstr P warpId instr s regs =
      .ret (s, fun t =>
        if s.activeMask.active t then Function.update (regs t) instr.rd (instr.imm <<< 12)
        else regs t) := by
  rw [executeInstr_scalar (by simp [h]) (by simp [h]) (by simp [Instruction.isMemory, h]; rfl)
    (by simp [Instruction.isVector, h]; rfl)]
  unfold Hls.executeALU aluResult
  simp only [h, or_true, if_true, writeReg]

theorem executeInstr_memory (h : instr.isMemory = true) (s : DivergenceStack) (regs : RegFile) :
    Hls.executeInstr P warpId instr s regs =
      (Hls.memOpLanes P.cuId warpId instr s.activeMask (List.finRange 32) regs).map
        fun regs' => (s, regs') := by
  have hop := instr.isMemory_iff.1 h
  unfold Hls.executeInstr
  dsimp only
  rw [if_neg (by rintro h; simp [h] at hop), if_neg (by rintro h; simp [h] at hop), if_pos h]
  rfl

/-- The lane loop depends on what it requests and on where a load goes. -/
theorem memOpLanes_congr (instr' : Instruction) (hop : instr.opcode = instr'.opcode)
    (hreq : ∀ cuId r t, memReq cuId warpId instr r t = memReq cuId warpId instr' r t)
    (hrd : instr.opcode = .lw → instr.rd = instr'.rd) (mask : ThreadMask) (cuId : CuId)
    (ts : List Lane) (regs : RegFile) :
    Hls.memOpLanes cuId warpId instr mask ts regs =
      Hls.memOpLanes cuId warpId instr' mask ts regs := by
  induction ts generalizing regs with
  | nil => rfl
  | cons t ts ih =>
    unfold Hls.memOpLanes
    rw [hreq]
    simp only [ih]
    by_cases hl : instr.opcode = .lw
    · rw [← hop, hrd hl]
    · simp only [← hop, hl, if_false]

/-- The instructions that use no immediate of twelve bits survive. -/
theorem executeInstr_decode_encode (hi : isIType instr.opcode = false) (hsw : instr.opcode ≠ .sw)
    (s : DivergenceStack) (regs : RegFile) :
    Hls.executeInstr P warpId (decodeInstruction
        (encodeInstruction instr.opcode instr.rd instr.rs1 instr.rs2 instr.imm)) s regs =
      Hls.executeInstr P warpId instr s regs := by
  by_cases hn : isNoop instr.opcode = true
  · rw [executeInstr_noop hn, executeInstr_noop (by rw [opcode_decode_encode]; exact hn)]
  by_cases hj : instr.opcode = .vjoin
  · rw [executeInstr_vjoin hj, executeInstr_vjoin (by rw [opcode_decode_encode]; exact hj)]
  obtain ⟨op, rd, rs1, rs2, imm⟩ := instr
  dsimp only at *
  by_cases hr : isRType op = true
  · rw [decode_encode_rType rd rs1 rs2 imm hr]
    cases op <;> first
      | exact absurd hr (by decide)
      | rfl
  obtain rfl : op = .lui := by
    cases op <;> simp_all [isNoop, isRType, isIType]
  rw [decode_encode_lui, executeInstr_lui rfl, executeInstr_lui rfl]
  dsimp only
  rw [shiftLeft_low20]

/-- An instruction whose immediate fits survives. -/
theorem executeInstr_decode_encode_of_fits12
    (hop : isIType instr.opcode = true ∨ instr.opcode = .sw)
    (hfit : fits12 instr.imm) (s : DivergenceStack) (regs : RegFile) :
    Hls.executeInstr P warpId (decodeInstruction
        (encodeInstruction instr.opcode instr.rd instr.rs1 instr.rs2 instr.imm)) s regs =
      Hls.executeInstr P warpId instr s regs := by
  have himm := (fits12_iff instr.imm).1 hfit
  by_cases hn : isNoop instr.opcode = true
  · rw [executeInstr_noop hn, executeInstr_noop (by rw [opcode_decode_encode]; exact hn)]
  obtain hi | hs := hop
  · rw [decode_encode_iType _ _ _ _ hi, himm]
    obtain ha | hl : instr.opcode = .addi ∨ instr.opcode = .lw := by
      revert hi hn
      cases instr.opcode <;> simp [isIType, isNoop]
    · rw [executeInstr_addi ha, executeInstr_addi (by exact ha)]
    · have hm := instr.isMemory_iff.2 (.inl hl)
      rw [executeInstr_memory hm, executeInstr_memory (by exact hm)]
      refine congrArg (Interact.map _) (memOpLanes_congr instr ?_ (fun _ _ _ => ?_)
        (fun _ => ?_) s.activeMask P.cuId (List.finRange 32) regs)
      · rfl
      · simp [memReq, hl]
      · rfl
  · have hm := instr.isMemory_iff.2 (.inr hs)
    rw [hs, decode_encode_sw, himm, executeInstr_memory hm, executeInstr_memory (by rfl)]
    rw [memOpLanes_congr instr hs.symm (fun _ _ _ => by simp [memReq, hs])
      fun h => by cases h]

/-- The two words of an expanded `ADDI` load the immediate and drop the register operand. -/
theorem executeSeq_expanded_addi (h : needsExpansion instr.opcode instr.rs1 instr.imm = true)
    (s : DivergenceStack) (regs : RegFile) :
    executeSeq P warpId (expanded instr) (s, regs) =
      .ret (s, fun t =>
        if s.activeMask.active t then Function.update (regs t) instr.rd instr.imm
        else regs t) := by
  have hfit := (fits12_iff _).1 (fits12_lo12 instr.imm)
  rw [expanded, encodeInstructionExpanded, if_pos h, List.map_cons, List.map_singleton,
    decode_encode_lui, decode_encode_iType _ _ _ _ (by rfl), hfit, executeSeq,
    executeInstr_lui rfl, Interact.ret_bind, executeSeq_singleton, executeInstr_addi rfl]
  congr 2
  funext t
  dsimp only
  split
  · rw [Function.update_self, Function.update_idem, shiftLeft_low20, hi20_add_lo12]
  · rfl

theorem memOpLanes_inactive {mask : ThreadMask} (hoff : ∀ t, mask.active t = false) (cuId : CuId)
    (ts : List Lane) (regs : RegFile) :
    Hls.memOpLanes cuId warpId instr mask ts regs = .ret regs := by
  induction ts with
  | nil => rfl
  | cons t ts ih => rw [Hls.memOpLanes, hoff t, if_neg Bool.false_ne_true, ih]

/-- No active lane, no effect. -/
theorem executeInstr_inactive (h : instr.isMemory = true ∨ instr.opcode = .addi)
    {s : DivergenceStack} (hoff : ∀ t, s.activeMask.active t = false) (regs : RegFile) :
    Hls.executeInstr P warpId instr s regs = .ret (s, regs) := by
  obtain hm | ha := h
  · rw [executeInstr_memory hm, memOpLanes_inactive hoff, Interact.ret_map]
  · rw [executeInstr_addi ha]
    congr 2
    funext t
    rw [hoff t]
    rfl

/-- What an instruction keeps through the translation, in terms of the HLS state. -/
def HlsFits (instr : Instruction) (mask : ThreadMask) (regs : RegFile) : Prop :=
  match instr.opcode with
  | .addi => fits12 instr.imm ∨ ∀ t, mask.active t = true → instr.rs1 = 0 ∧ regs t 0 = 0
  | .lw | .sw => fits12 instr.imm ∨ ∀ t, mask.active t = false
  | .barrier => fits12 instr.imm
  | _ => True

/-- Where it fits, the translated instruction is the original one. -/
theorem executeSeq_expanded (s : DivergenceStack × RegFile)
    (h : HlsFits instr s.1.activeMask s.2) :
    executeSeq P warpId (expanded instr) s = Hls.executeInstr P warpId instr s.1 s.2 := by
  by_cases hx : needsExpansion instr.opcode instr.rs1 instr.imm = true
  · obtain ⟨hop, hrs1, hfit⟩ := (needsExpansion_iff _ _ _).1 hx
    unfold HlsFits at h
    rw [hop] at h
    dsimp only at h
    have hzero := h.resolve_left hfit
    rw [executeSeq_expanded_addi hx, executeInstr_addi hop]
    congr 2
    funext t
    split
    · next ht => rw [hrs1, (hzero t ht).2, show (0 : Word) = 0#32 from rfl, BitVec.zero_add]
    · rfl
  rw [expanded_of_not_needsExpansion (Bool.eq_false_iff.2 hx), executeSeq_singleton]
  by_cases hop : isIType instr.opcode = true ∨ instr.opcode = .sw
  · by_cases hfit : fits12 instr.imm
    · exact executeInstr_decode_encode_of_fits12 hop hfit s.1 s.2
    · -- the immediate is cut, so no lane may see it
      unfold HlsFits at h
      by_cases hn : isNoop instr.opcode = true
      · rw [executeInstr_noop hn, executeInstr_noop (by rw [opcode_decode_encode]; exact hn)]
      have hcase : instr.isMemory = true ∨ instr.opcode = .addi := by
        rw [instr.isMemory_iff]
        revert hop hn
        cases instr.opcode <;> simp [isIType, isNoop]
      have hoff : ∀ t, s.1.activeMask.active t = false := by
        obtain hm | ha := hcase
        · obtain hl | hs := instr.isMemory_iff.1 hm
          · rw [hl] at h; exact h.resolve_left hfit
          · rw [hs] at h; exact h.resolve_left hfit
        · rw [ha] at h
          intro t
          by_contra ht
          have := (h.resolve_left hfit t (by simpa using ht)).1
          exact hx ((needsExpansion_iff _ _ _).2 ⟨ha, this, hfit⟩)
      have hcase' : (decodeInstruction (encodeInstruction instr.opcode instr.rd instr.rs1 instr.rs2
          instr.imm)).isMemory = true ∨ (decodeInstruction (encodeInstruction instr.opcode instr.rd
          instr.rs1 instr.rs2 instr.imm)).opcode = .addi := by
        rw [Instruction.isMemory_iff, opcode_decode_encode, ← instr.isMemory_iff]
        exact hcase
      rw [executeInstr_inactive hcase hoff, executeInstr_inactive hcase' hoff]
  · push Not at hop
    exact executeInstr_decode_encode (Bool.eq_false_iff.2 hop.1) hop.2 s.1 s.2

theorem hlsFits_iff {s : DivergenceStack × RegFile} {g : SimtController × RegFile}
    (h : StateRel K.threadsPerWarp warpId s g) :
    HlsFits instr s.1.activeMask s.2 ↔ ImmediateFits K warpId instr g.1 g.2 := by
  have hlanes := h.lanesEq
  unfold HlsFits ImmediateFits
  cases instr.opcode <;> simp only [hlanes _, h.regs]

/-! ## The stack of the HLS executor -/

/-- What one instruction does to the divergence stack. -/
def simtAfter (instr : Instruction) (s : DivergenceStack × RegFile) : DivergenceStack :=
  if instr.opcode = .vbranch then Hls.executeBranch s.1 s.2 instr s.1.activeMask
  else if instr.opcode = .vjoin then s.1.handleJoin
  else s.1

variable (P warpId instr) in
theorem simt_executeInstr {S : Type} (srv : S → MemReq → MemResp × S) (σ : S)
    (s : DivergenceStack × RegFile) :
    ((Hls.executeInstr P warpId instr s.1 s.2).serve srv σ).2.1 = simtAfter instr s := by
  unfold simtAfter Hls.executeInstr
  dsimp only
  by_cases hb : instr.opcode = .vbranch
  · rw [if_pos hb, if_pos hb, Interact.serve_ret]
  by_cases hj : instr.opcode = .vjoin
  · rw [if_neg hb, if_neg hb, if_pos hj, if_pos hj, Interact.serve_ret]
    rfl
  rw [if_neg hb, if_neg hb, if_neg hj, if_neg hj]
  split
  · rw [Interact.serve_map]
  · split <;> rfl

variable (instr) in
/-- A stack of the golden depth stays one, and does not overflow within the bound. -/
theorem simtAfter_depth {s : DivergenceStack × RegFile} {g : SimtController × RegFile}
    (h : StateRel K.threadsPerWarp warpId s g) {depth : ℕ} (hover : s.1.overflow = false)
    (hd : s.1.notTakenStack.length = depth)
    (hle : depthBehind K warpId instr g.1 g.2 depth ≤ maxDivergenceDepth) :
    (simtAfter instr s).overflow = false ∧
      (simtAfter instr s).notTakenStack.length = depthBehind K warpId instr g.1 g.2 depth := by
  unfold depthBehind at hle ⊢
  unfold simtAfter
  by_cases hb : instr.opcode = .vbranch
  · rw [if_pos hb] at hle
    rw [if_pos hb, if_pos hb, Hls.executeBranch]
    set conds : Lane → Bool :=
      fun t => if s.1.activeMask.active t then s.2 t instr.rs1 == 0 else false with hconds
    have hpush : s.1.notTaken conds ≠ 0#32 ↔ BranchPushes K warpId instr g.1 g.2 := by
      rw [DivergenceStack.notTaken_ne_zero_iff, BranchPushes]
      refine exists_congr fun t => ?_
      rw [h.lanesEq t, ← h.regs, and_congr_right_iff]
      intro ht
      simp [hconds, ht]
    by_cases hn : s.1.notTaken conds = 0#32
    · rw [if_neg (fun hp => hpush.2 hp hn), s.1.handleBranch_of_notTaken_eq_zero conds hn]
      exact ⟨hover, hd⟩
    · have hp := hpush.1 hn
      rw [if_pos hp] at hle
      rw [if_pos hp, (s.1.handleBranch_of_notTaken conds hn).2.1,
        (s.1.handleBranch_of_notTaken conds hn).2.2, DivergenceStack.pushDivergence,
        if_neg (by omega)]
      exact ⟨hover, by rw [← hd]; rfl⟩
  rw [if_neg hb, if_neg hb]
  by_cases hj : instr.opcode = .vjoin
  · rw [if_pos hj, if_pos hj, DivergenceStack.overflow_handleJoin]
    refine ⟨hover, ?_⟩
    unfold DivergenceStack.handleJoin
    split
    · next hs => rw [hs] at hd ⊢; rw [← hd]; rfl
    · next hs => rw [hs] at hd; rw [← hd]; rfl
  · rw [if_neg hj, if_neg hj]
    exact ⟨hover, hd⟩

/-! ## Where it does not fit -/

theorem history_prefix {R : Type} (ans : List Request → Word) (h : List Request)
    (p : Interact MemReq MemResp R) : ∃ tail, (p.serve (hlsServer ans) h).1 = h ++ tail := by
  induction p generalizing h with
  | ret r => exact ⟨[], (List.append_nil h).symm⟩
  | ask q k ih =>
    obtain ⟨tail, ht⟩ := ih (hlsServer ans h q).1 (hlsServer ans h q).2
    refine ⟨ofMemReq q :: tail, ?_⟩
    rw [Interact.serve_ask, ht]
    simp [hlsServer, Interact.oracle]

variable (warpId instr) in
/-- The first request of the lane loop is that of the first active lane. -/
theorem history_memOpLanes (ans : List Request → Word) (h : List Request) (cuId : CuId)
    {mask : ThreadMask} {ts : List Lane} {t₀ : Lane}
    (hfind : ts.find? (fun t => mask.active t) = some t₀) (regs : RegFile) :
    ∃ tail, ((Hls.memOpLanes cuId warpId instr mask ts regs).serve (hlsServer ans) h).1 =
      h ++ ofMemReq (memReq cuId warpId instr (regs t₀) t₀) :: tail := by
  induction ts with
  | nil => cases hfind
  | cons t ts ih =>
    unfold Hls.memOpLanes
    rw [List.find?_cons] at hfind
    cases ht : mask.active t with
    | true =>
      rw [ht] at hfind
      obtain rfl : t = t₀ := Option.some.inj hfind
      rw [if_pos rfl, Interact.serve_ask]
      obtain ⟨tail, htail⟩ := history_prefix ans
        (hlsServer ans h (memReq cuId warpId instr (regs t) t)).2
        (Hls.memOpLanes cuId warpId instr mask ts
          (if instr.opcode = .lw then
            Function.update regs t (Function.update (regs t) instr.rd
              (hlsServer ans h (memReq cuId warpId instr (regs t) t)).1.data)
          else regs))
      exact ⟨tail, by rw [htail]; simp [hlsServer, Interact.oracle]⟩
    | false =>
      rw [ht] at hfind
      rw [if_neg Bool.false_ne_true]
      exact ih hfind

theorem exists_find_active {mask : ThreadMask} (h : ¬ ∀ t, mask.active t = false) :
    ∃ t₀, (List.finRange 32).find? (fun t => mask.active t) = some t₀ := by
  rw [← Option.isSome_iff_exists, List.find?_isSome]
  push Not at h
  obtain ⟨t, ht⟩ := h
  exact ⟨t, List.mem_finRange t, by simpa using ht⟩

/-- A translated load or store with an active lane asks for another address if its immediate is
cut. -/
theorem fits12_of_history_eq (hm : instr.isMemory = true) {s : DivergenceStack × RegFile}
    (hon : ¬ ∀ t, s.1.activeMask.active t = false) {ans : List Request → Word} {h : List Request}
    (heq : ((executeSeq P warpId (expanded instr) s).serve (hlsServer ans) h).1 =
      ((Hls.executeInstr P warpId instr s.1 s.2).serve (hlsServer ans) h).1) :
    fits12 instr.imm := by
  obtain ⟨t₀, ht₀⟩ := exists_find_active hon
  set i' := decodeInstruction
    (encodeInstruction instr.opcode instr.rd instr.rs1 instr.rs2 instr.imm) with hi'
  have hop' : i'.opcode = instr.opcode := opcode_decode_encode _ _ _ _ _
  have hm' : i'.isMemory = true := by rw [i'.isMemory_iff, hop', ← instr.isMemory_iff]; exact hm
  have hx : needsExpansion instr.opcode instr.rs1 instr.imm = false := by
    rw [Bool.eq_false_iff, ne_eq, needsExpansion_iff]
    rintro ⟨ha, -⟩
    have := instr.isMemory_iff.1 hm
    simp [ha] at this
  have haddr : i'.rs1 = instr.rs1 ∧ i'.imm = trunc12 instr.imm := by
    obtain hl | hs := instr.isMemory_iff.1 hm
    · rw [hi', decode_encode_iType _ _ _ _ (by rw [hl]; rfl)]
      exact ⟨rfl, rfl⟩
    · rw [hi', hs, decode_encode_sw]
      exact ⟨rfl, rfl⟩
  rw [expanded_of_not_needsExpansion hx, executeSeq_singleton, ← hi', executeInstr_memory hm,
    executeInstr_memory hm', Interact.serve_map, Interact.serve_map] at heq
  obtain ⟨tail, ht⟩ := history_memOpLanes warpId instr ans h P.cuId ht₀ s.2
  obtain ⟨tail', ht'⟩ := history_memOpLanes warpId i' ans h P.cuId ht₀ s.2
  dsimp only at heq
  rw [ht, ht'] at heq
  have hreq := (List.cons.inj (List.append_cancel_left heq)).1
  have hadd : s.2 t₀ i'.rs1 + i'.imm = s.2 t₀ instr.rs1 + instr.imm :=
    congrArg Request.address hreq
  rw [haddr.1, haddr.2] at hadd
  exact (fits12_iff _).2 ((BitVec.add_right_inj _).1 hadd)

/-- An `ADDI` that loads its immediate right in every active lane fits. -/
theorem hlsFits_addi_of_regs_eq (ha : instr.opcode = .addi) {s : DivergenceStack × RegFile}
    {ans : List Request → Word} {h : List Request}
    (heq : ((executeSeq P warpId (expanded instr) s).serve (hlsServer ans) h).2.2 =
      ((Hls.executeInstr P warpId instr s.1 s.2).serve (hlsServer ans) h).2.2) :
    fits12 instr.imm ∨
      ∀ t, s.1.activeMask.active t = true → instr.rs1 = 0 ∧ s.2 t 0 = 0 := by
  by_cases hfit : fits12 instr.imm
  · exact .inl hfit
  refine .inr fun t ht => ?_
  rw [executeInstr_addi ha] at heq
  by_cases hrs1 : instr.rs1 = 0
  · have hx := (needsExpansion_iff instr.rs1 instr.imm instr.opcode).2 ⟨ha, hrs1, hfit⟩
    rw [executeSeq_expanded_addi hx] at heq
    have hval := congrFun (congrFun heq t) instr.rd
    simp only [Interact.serve_ret, ht, if_true, Function.update_self, hrs1] at hval
    exact ⟨hrs1, right_eq_add.1 hval⟩
  · have hx : needsExpansion instr.opcode instr.rs1 instr.imm = false := by
      rw [Bool.eq_false_iff, ne_eq, needsExpansion_iff]
      exact fun hc => hrs1 hc.2.1
    rw [expanded_of_not_needsExpansion hx, executeSeq_singleton,
      decode_encode_iType _ _ _ _ (by rw [ha]; rfl), executeInstr_addi (by exact ha)] at heq
    have hval := congrFun (congrFun heq t) instr.rd
    simp only [Interact.serve_ret, ht, if_true, Function.update_self] at hval
    exact absurd ((fits12_iff _).2 ((BitVec.add_right_inj _).1 hval)) hfit

/-- A translated instruction with the effect of the original one fits. -/
theorem hlsFits_of_serve_eq (hb : instr.opcode ≠ .barrier) {s : DivergenceStack × RegFile}
    {ans : List Request → Word} {h : List Request}
    (hhist : ((executeSeq P warpId (expanded instr) s).serve (hlsServer ans) h).1 =
      ((Hls.executeInstr P warpId instr s.1 s.2).serve (hlsServer ans) h).1)
    (hregs : ((executeSeq P warpId (expanded instr) s).serve (hlsServer ans) h).2.2 =
      ((Hls.executeInstr P warpId instr s.1 s.2).serve (hlsServer ans) h).2.2) :
    HlsFits instr s.1.activeMask s.2 := by
  have hmem (hm : instr.isMemory = true) :
      fits12 instr.imm ∨ ∀ t, s.1.activeMask.active t = false := by
    by_cases hon : ∀ t, s.1.activeMask.active t = false
    · exact .inr hon
    · exact .inl (fits12_of_history_eq hm hon hhist)
  unfold HlsFits
  cases hop : instr.opcode with
  | addi => exact hlsFits_addi_of_regs_eq hop hregs
  | lw => exact hmem (instr.isMemory_iff.2 (.inl hop))
  | sw => exact hmem (instr.isMemory_iff.2 (.inr hop))
  | barrier => exact absurd hop hb
  | _ => trivial

end Instr

end RiscvGpgpu.Parity
