import RiscvGpgpu.Parity.Encoding

/-!
# Runs of encoded programs

The translation of one instruction lifted to whole runs of one warp: every cut of a golden program
runs like its translation exactly when every executed immediate fits.
-/

namespace RiscvGpgpu.Parity

open Golden Hls

/-! ## The translated pass -/

section Pass

variable {P : PipelineParams} {warpId : WarpId} {mask : ThreadMask} {instr : Instruction}

theorem opcode_of_mem_expanded {x : Instruction} (hx : x ∈ expanded instr)
    (hh : instr.opcode ≠ .halt) (hb : instr.opcode ≠ .barrier) :
    x.opcode ≠ .halt ∧ x.opcode ≠ .barrier := by
  unfold expanded encodeInstructionExpanded at hx
  split at hx
  · simp only [List.map_cons, List.map_nil, List.mem_cons, List.not_mem_nil, or_false] at hx
    obtain rfl | rfl := hx <;> rw [opcode_decode_encode] <;> decide
  · simp only [List.map_cons, List.map_nil, List.mem_singleton] at hx
    rw [hx, opcode_decode_encode]
    exact ⟨hh, hb⟩

/-- `HALT` and `BARRIER` become one instruction. -/
theorem expanded_of_ne_addi (h : instr.opcode ≠ .addi) :
    expanded instr = [decodeInstruction
      (encodeInstruction instr.opcode instr.rd instr.rs1 instr.rs2 instr.imm)] := by
  refine expanded_of_not_needsExpansion (Bool.eq_false_iff.2 fun hx => h ?_)
  exact ((needsExpansion_iff _ _ _).1 hx).1

/-- Straight-line code at the head of a pass. -/
theorem hlsPass_append {code : List Instruction}
    (hcode : ∀ x ∈ code, x.opcode ≠ .halt ∧ x.opcode ≠ .barrier) (rest : List Instruction)
    (i : ℕ) (s : DivergenceStack × RegFile) (count : Word) :
    hlsPass P warpId mask (code ++ rest) i s.1 s.2 count =
      (executeSeq P warpId code s).bind fun s' =>
        hlsPass P warpId mask rest (i + code.length) s'.1 s'.2
          (count + BitVec.ofNat 32 code.length) := by
  induction code generalizing i s count with
  | nil => simp [executeSeq]
  | cons x code ih =>
    obtain ⟨hh, hb⟩ := hcode x List.mem_cons_self
    have hi : i + (x :: code).length = i + 1 + code.length := by rw [List.length_cons]; omega
    have hc : count + BitVec.ofNat 32 (x :: code).length =
        count + 1 + BitVec.ofNat 32 code.length := by
      rw [List.length_cons, BitVec.ofNat_add, BitVec.add_assoc,
        BitVec.add_comm (BitVec.ofNat 32 code.length)]
      rfl
    rw [List.cons_append, hlsPass, if_neg hh, if_neg hb, executeSeq, Interact.bind_assoc, hi, hc]
    exact congrArg _ (funext fun s' => ih (fun y hy => hcode y (List.mem_cons_of_mem _ hy)) _ s' _)

end Pass

/-! ## Matching runs -/

/-- The reports of one dispatch agree, the program indices through the expansion. -/
structure TransRel (code : List Instruction) (r : WarpResult) (o : WarpOutcome) : Prop where
  regs : r.regs = o.ctx.regs
  complete : r.status.code = .complete ↔ o.ctx.state = .complete
  stalled : r.status.code = .stalledAtBarrier ↔ o.ctx.state = .stalled
  resumePc : r.status.code = .stalledAtBarrier →
    r.status.resumePc.toNat = expandedPc code o.ctx.pc
  barrierId : r.status.code = .stalledAtBarrier → o.barrierIdOut = some r.status.barrierId

/-- The same requests and the same reports. -/
def MatchingRuns (code : List Instruction) (hls : List Request × List WarpResult)
    (golden : List Request × List WarpOutcome) : Prop :=
  hls.1 = golden.1 ∧ List.Forall₂ (TransRel code) hls.2 golden.2

section Runs

variable {P : PipelineParams} {K : CuConfig} {ans : List Request → Word} {warpId : WarpId}

/-- The passes over the words and over the golden code they come from match. -/
def MatchingPass (P : PipelineParams) (K : CuConfig) (ans : List Request → Word)
    (code : List Instruction) (rest : List Instruction) (i : ℕ) (count : Word)
    (h : List Request) (s : DivergenceStack × RegFile) (cu : ComputeUnit) (ctx : WarpContext) :
    Prop :=
  MatchingRuns code
    ((hlsPass P ctx.warpId (SimtController.fullMask K.threadsPerWarp) (rest.flatMap expanded) i
      s.1 s.2 count).serve (hlsServer ans) h)
    ((goldenPass K rest cu ctx).serve (goldenServer ans) h)

variable {code rest : List Instruction} {instr : Instruction} {i depth : ℕ} {count : Word}
  {h : List Request} {s : DivergenceStack × RegFile} {cu : ComputeUnit} {ctx : WarpContext}

theorem matchingPass_nil (hregs : s.2 = ctx.regs) :
    MatchingPass P K ans code [] i count h s cu ctx :=
  ⟨rfl, .cons ⟨hregs, by simp, by simp, by simp, by simp⟩ .nil⟩

theorem matchingPass_halt (hh : instr.opcode = .halt) (hregs : s.2 = ctx.regs) :
    MatchingPass P K ans code (instr :: rest) i count h s cu ctx := by
  unfold MatchingPass
  rw [List.flatMap_cons, expanded_of_ne_addi (by simp [hh]), List.singleton_append, hlsPass,
    if_pos (by rw [opcode_decode_encode]; exact hh), goldenPass, if_pos hh]
  exact ⟨rfl, .cons ⟨hregs, by simp, by simp, by simp, by simp⟩ .nil⟩

/-- The golden unit and context a barrier leaves behind, about to be resumed. -/
def resumed (K : CuConfig) (instr : Instruction) (cu : ComputeUnit) (ctx : WarpContext) :
    ComputeUnit × WarpContext :=
  ({ simt := (cu.simt.threadHitBarrier ctx.warpId instr.imm).initializeWarp ctx.warpId
        K.threadsPerWarp
     totalInstructions := cu.totalInstructions + 1 },
    { ctx with pc := ctx.pc + 1, state := .running })

theorem decode_encode_barrier (hb : instr.opcode = .barrier) :
    decodeInstruction (encodeInstruction instr.opcode instr.rd instr.rs1 instr.rs2 instr.imm) =
      { opcode := .barrier, rd := instr.rd, rs1 := instr.rs1, imm := trunc12 instr.imm } := by
  rw [decode_encode_iType _ _ _ _ (by rw [hb]; rfl), hb]

/-- A barrier matches when its id fits and what follows the resume matches. -/
theorem matchingPass_barrier (hb : instr.opcode = .barrier) (hregs : s.2 = ctx.regs)
    (hpc : expandedPc code (ctx.pc + 1) = i + 1) (hi : i + 1 < 2 ^ 16) :
    MatchingPass P K ans code (instr :: rest) i count h s cu ctx ↔
      fits12 instr.imm ∧
        MatchingPass P K ans code rest (i + 1) 0 h
          (.initializeWarp (SimtController.fullMask K.threadsPerWarp), s.2)
          (resumed K instr cu ctx).1 (resumed K instr cu ctx).2 := by
  unfold MatchingPass MatchingRuns
  rw [List.flatMap_cons, expanded_of_ne_addi (by simp [hb]), decode_encode_barrier hb,
    List.singleton_append, hlsPass, if_neg (by simp), if_pos rfl, goldenPass,
    if_neg (by simp [hb]), if_pos hb, Interact.serve_map, Interact.serve_map]
  dsimp only
  rw [List.forall₂_cons, fits12_iff]
  have hhead : TransRel code
      ⟨s.2,
        { code := .stalledAtBarrier, barrierId := trunc12 instr.imm
          resumePc := BitVec.ofNat 16 (i + 1), instrCount := count + 1 }, s.1⟩
      ⟨{ ctx with pc := ctx.pc + 1, state := .stalled },
        { simt := cu.simt.threadHitBarrier ctx.warpId instr.imm
          totalInstructions := cu.totalInstructions + 1 }, some instr.imm⟩ ↔
      trunc12 instr.imm = instr.imm := by
    constructor
    · exact fun hr => (Option.some.inj (hr.barrierId rfl)).symm
    · refine fun himm => ⟨hregs, by simp, by simp, fun _ => ?_, fun _ => by rw [himm]⟩
      dsimp only
      rw [hpc, BitVec.toNat_ofNat, Nat.mod_eq_of_lt hi]
  rw [hhead]
  exact and_left_comm

/-- The state of the pass after the words of one instruction. -/
def hlsAfter (P : PipelineParams) (ans : List Request → Word) (warpId : WarpId)
    (instr : Instruction) (h : List Request) (s : DivergenceStack × RegFile) :
    List Request × DivergenceStack × RegFile :=
  (executeSeq P warpId (expanded instr) s).serve (hlsServer ans) h

/-- The state of the golden pass after one instruction. -/
def goldenAfter (K : CuConfig) (ans : List Request → Word) (instr : Instruction)
    (h : List Request) (cu : ComputeUnit) (ctx : WarpContext) :
    List Request × SimtController × RegFile :=
  (Golden.executeInstr K ctx.warpId instr cu.simt ctx.regs).serve (goldenServer ans) h

theorem serve_hlsPass_cons (hh : instr.opcode ≠ .halt) (hb : instr.opcode ≠ .barrier)
    (mask : ThreadMask) :
    (hlsPass P warpId mask ((instr :: rest).flatMap expanded) i s.1 s.2 count).serve
        (hlsServer ans) h =
      (hlsPass P warpId mask (rest.flatMap expanded) (i + (expanded instr).length)
        (hlsAfter P ans warpId instr h s).2.1 (hlsAfter P ans warpId instr h s).2.2
        (count + BitVec.ofNat 32 (expanded instr).length)).serve (hlsServer ans)
        (hlsAfter P ans warpId instr h s).1 := by
  rw [List.flatMap_cons, hlsPass_append (fun x hx => opcode_of_mem_expanded hx hh hb),
    Interact.serve_bind]
  rfl

theorem matchingPass_cons (hh : instr.opcode ≠ .halt) (hb : instr.opcode ≠ .barrier)
    (hhist : (hlsAfter P ans ctx.warpId instr h s).1 = (goldenAfter K ans instr h cu ctx).1) :
    MatchingPass P K ans code (instr :: rest) i count h s cu ctx ↔
      MatchingPass P K ans code rest (i + (expanded instr).length)
        (count + BitVec.ofNat 32 (expanded instr).length) (goldenAfter K ans instr h cu ctx).1
        (hlsAfter P ans ctx.warpId instr h s).2
        { simt := (goldenAfter K ans instr h cu ctx).2.1
          totalInstructions := cu.totalInstructions + 1 }
        { ctx with pc := ctx.pc + 1, regs := (goldenAfter K ans instr h cu ctx).2.2 } := by
  unfold MatchingPass
  rw [serve_hlsPass_cons hh hb, hhist, goldenPass, if_neg hh, if_neg hb, Interact.serve_bind]
  rfl

variable (ans) in
/-- One translated instruction against the golden one. -/
theorem after_of_fits (hv : P.vectorOps = true) (hfp : K.fp = P.fp)
    (hst : StateRel K.threadsPerWarp ctx.warpId s (cu.simt, ctx.regs))
    (hfit : ImmediateFits K ctx.warpId instr cu.simt ctx.regs)
    (hover : (simtAfter instr s).overflow = false) :
    (hlsAfter P ans ctx.warpId instr h s).1 = (goldenAfter K ans instr h cu ctx).1 ∧
      StateRel K.threadsPerWarp ctx.warpId (hlsAfter P ans ctx.warpId instr h s).2
        (goldenAfter K ans instr h cu ctx).2 ∧
      (hlsAfter P ans ctx.warpId instr h s).2.1 = simtAfter instr s := by
  unfold hlsAfter goldenAfter
  rw [executeSeq_expanded s ((hlsFits_iff hst).2 hfit)]
  have hsimt := simt_executeInstr P ctx.warpId instr (hlsServer ans) h s
  obtain ⟨hhist, hrel⟩ := (executeInstr_sim instr hv hfp hst).serve
    (servers_related ans) (s := h) rfl (by rw [hsimt, hover]; simp)
  exact ⟨hhist, hrel, hsimt⟩

/-- One instruction with the golden effect fits. -/
theorem fits_of_after_eq (hv : P.vectorOps = true) (hfp : K.fp = P.fp)
    (hst : StateRel K.threadsPerWarp ctx.warpId s (cu.simt, ctx.regs))
    (hb : instr.opcode ≠ .barrier) (hover : (simtAfter instr s).overflow = false)
    (hhist : (hlsAfter P ans ctx.warpId instr h s).1 = (goldenAfter K ans instr h cu ctx).1)
    (hregs : (hlsAfter P ans ctx.warpId instr h s).2.2 =
      (goldenAfter K ans instr h cu ctx).2.2) :
    ImmediateFits K ctx.warpId instr cu.simt ctx.regs := by
  have hsimt := simt_executeInstr P ctx.warpId instr (hlsServer ans) h s
  obtain ⟨hh, hr⟩ := (executeInstr_sim instr hv hfp hst).serve (servers_related ans)
    (s := h) rfl (by rw [hsimt, hover]; simp)
  exact (hlsFits_iff hst).1
    (hlsFits_of_serve_eq hb (hhist.trans hh.symm) (hregs.trans hr.regs.symm))

variable (count cu ctx) in
/-- Every cut of the remaining code runs like its translation exactly when the immediates fit. -/
theorem matchingPass_iff (hv : P.vectorOps = true) (hfp : K.fp = P.fp)
    (hK : K.threadsPerWarp ≤ 32) (hrest : code.drop ctx.pc = rest)
    (hi : expandedPc code ctx.pc = i) (hlen : i + (rest.flatMap expanded).length ≤ maxProgramLen)
    (hst : StateRel K.threadsPerWarp ctx.warpId s (cu.simt, ctx.regs))
    (hover : s.1.overflow = false) (hd : s.1.notTakenStack.length = depth)
    (ho : WithinDepth K ans ctx.warpId rest depth h cu.simt ctx.regs) :
    (∀ k, MatchingPass P K ans code (rest.take k) i count h s cu ctx) ↔
      ImmediatesFit K ans ctx.warpId rest h cu.simt ctx.regs := by
  induction rest generalizing i depth count h s cu ctx with
  | nil =>
    refine iff_of_true (fun k => ?_) trivial
    rw [List.take_nil]
    exact matchingPass_nil hst.regs
  | cons instr rest ih =>
    have hrest' : code.drop (ctx.pc + 1) = rest := by
      rw [← List.tail_drop, hrest, List.tail_cons]
    have hpc : expandedPc code (ctx.pc + 1) = i + (expanded instr).length := by
      have htake : code.take (ctx.pc + 1) = code.take ctx.pc ++ [instr] := by
        rw [List.take_add, hrest]
        rfl
      rw [← hi, expandedPc, expandedPc, htake, length_encodeProgram, length_encodeProgram,
        List.flatMap_append, List.length_append]
      simp
    rw [List.flatMap_cons, List.length_append] at hlen
    unfold ImmediatesFit
    by_cases hh : instr.opcode = .halt
    · refine iff_of_true (fun k => ?_) fun hc => absurd hh hc
      cases k with
      | zero => exact matchingPass_nil hst.regs
      | succ k => exact matchingPass_halt hh hst.regs
    have hzero : MatchingPass P K ans code ((instr :: rest).take 0) i count h s cu ctx :=
      matchingPass_nil hst.regs
    unfold WithinDepth at ho
    have ho := ho hh
    rw [forall_prop_of_true hh]
    by_cases hb : instr.opcode = .barrier
    · have hone : (expanded instr).length = 1 := by
        rw [expanded_of_ne_addi (by simp [hb])]; rfl
      rw [hone] at hpc hlen
      have hlt : i + 1 < 2 ^ 16 := by unfold maxProgramLen at hlen; omega
      rw [if_pos hb] at ho
      have hfits : ImmediateFits K ctx.warpId instr cu.simt ctx.regs ↔ fits12 instr.imm := by
        unfold ImmediateFits; rw [hb]
      have ih := ih 0 (s := (.initializeWarp (SimtController.fullMask K.threadsPerWarp), s.2))
        (h := h) (resumed K instr cu ctx).1 (resumed K instr cu ctx).2 hrest' hpc (by omega)
        ⟨hst.regs, simtRel_initializeWarp hK _ _⟩ rfl rfl ho
      rw [hfits, if_pos hb]
      refine Iff.trans ?_ (and_congr_right fun _ => ih)
      constructor
      · intro hk
        have hstep := fun k => (matchingPass_barrier hb hst.regs hpc hlt).1 (hk (k + 1))
        exact ⟨(hstep 0).1, fun k => (hstep k).2⟩
      · rintro ⟨hfit, hk⟩ (_ | k)
        · exact hzero
        · exact (matchingPass_barrier hb hst.regs hpc hlt).2 ⟨hfit, hk k⟩
    · rw [if_neg hb]
      rw [if_neg hb] at ho
      obtain ⟨hover', hd'⟩ := simtAfter_depth instr hst hover hd ho.1
      have hih (hfit : ImmediateFits K ctx.warpId instr cu.simt ctx.regs) :
          (∀ k, MatchingPass P K ans code ((instr :: rest).take (k + 1)) i count h s cu ctx) ↔
            ImmediatesFit K ans ctx.warpId rest (goldenAfter K ans instr h cu ctx).1
              (goldenAfter K ans instr h cu ctx).2.1 (goldenAfter K ans instr h cu ctx).2.2 := by
        obtain ⟨hhist, hst', hsimt⟩ := after_of_fits ans (h := h) hv hfp hst hfit hover'
        rw [← hsimt] at hover' hd'
        exact (forall_congr' fun k => matchingPass_cons hh hb hhist).trans
          (ih _ { simt := (goldenAfter K ans instr h cu ctx).2.1
                  totalInstructions := cu.totalInstructions + 1 }
            { ctx with pc := ctx.pc + 1, regs := (goldenAfter K ans instr h cu ctx).2.2 }
            hrest' hpc (by omega) hst' hover' hd' ho.2)
      constructor
      · intro hk
        have hfit : ImmediateFits K ctx.warpId instr cu.simt ctx.regs := by
          -- the cut right behind the instruction shows what it did
          obtain ⟨hhist, hres⟩ := hk 1
          rw [List.take_succ_cons, List.take_zero, serve_hlsPass_cons hh hb, goldenPass, if_neg hh,
            if_neg hb, Interact.serve_bind] at hhist hres
          obtain ⟨hrel, -⟩ := List.forall₂_cons.1 hres
          exact fits_of_after_eq hv hfp hst hb hover' hhist hrel.regs
        exact ⟨hfit, (hih hfit).1 fun k => hk (k + 1)⟩
      · rintro ⟨hfit, hrun⟩ (_ | k)
        · exact hzero
        · exact (hih hfit).2 hrun k

end Runs

/-! ## Translated programs -/

/-- More dispatches than a program can need. -/
def enoughDispatches : ℕ := maxProgramLen + 2

/-- A fresh start of all threads of a warp. -/
def freshDispatch (K : CuConfig) (warpId : WarpId) : WarpDispatch where
  warpId := warpId
  activeMaskInit := SimtController.fullMask K.threadsPerWarp
  freshLaunch := true

/-- The run of the words of a golden program, from a fresh start to the end. -/
def translatedRun (P : PipelineParams) (K : CuConfig) (ans : List Request → Word)
    (warpId : WarpId) (code : List Instruction) (regs : RegFile) :
    List Request × List WarpResult :=
  let words := encodeProgram code
  (hlsRun (executeOneWarp P · (programStore words) (BitVec.ofNat 32 words.length))
    enoughDispatches (freshDispatch K warpId) regs).serve (hlsServer ans) []

/-- The golden run of the program itself. -/
def originalRun (K : CuConfig) (ans : List Request → Word) (warpId : WarpId)
    (code : List Instruction) (cu : ComputeUnit) (regs : RegFile) :
    List Request × List WarpOutcome :=
  (goldenRun K code enoughDispatches cu ⟨warpId, 0, .ready, regs⟩).serve (goldenServer ans) []

/-- The program behaves like its translation up to every program index: cut off there, the two ask
the same requests and leave the same registers, stalls and barrier ids. -/
def Translated (P : PipelineParams) (K : CuConfig) (ans : List Request → Word) (warpId : WarpId)
    (code : List Instruction) (cu : ComputeUnit) (regs : RegFile) : Prop :=
  ∀ k, MatchingRuns code (translatedRun P K ans warpId (code.take k) regs)
    (originalRun K ans warpId (code.take k) cu regs)

section Main

variable {P : PipelineParams} {K : CuConfig} {ans : List Request → Word} {warpId : WarpId}
  {code : List Instruction} {regs : RegFile} {cu : ComputeUnit}

theorem translatedRun_eq (hlen : (encodeProgram code).length ≤ maxProgramLen) :
    translatedRun P K ans warpId code regs =
      (hlsPass P warpId (SimtController.fullMask K.threadsPerWarp) (code.flatMap expanded) 0
        (.initializeWarp (SimtController.fullMask K.threadsPerWarp)) regs 0).serve
        (hlsServer ans) [] := by
  have hlen' : (code.flatMap expanded).length ≤ maxProgramLen := by
    rwa [← length_encodeProgram]
  unfold translatedRun enoughDispatches executeOneWarp
  dsimp only
  rw [decodeProgram_programStore hlen, map_decode_encodeProgram,
    hlsRun_eq_hlsPass hlen' (Nat.lt_succ_of_le hlen') rfl]
  rfl

theorem originalRun_eq (hlen : code.length ≤ maxProgramLen) :
    originalRun K ans warpId code cu regs =
      (goldenPass K code { cu with simt := cu.simt.initializeWarp warpId K.threadsPerWarp }
        ⟨warpId, 0, .running, regs⟩).serve (goldenServer ans) [] := by
  unfold originalRun enoughDispatches
  rw [goldenRun_eq_goldenPass (Nat.lt_succ_of_le hlen) rfl]

theorem length_le_encodeProgram (code : List Instruction) :
    code.length ≤ (encodeProgram code).length := by
  induction code with
  | nil => exact le_rfl
  | cons i code ih =>
    have hi : 1 ≤ (encodeInstructionExpanded i.opcode i.rd i.rs1 i.rs2 i.imm).length := by
      unfold encodeInstructionExpanded
      split <;> simp
    rw [encodeProgram, List.flatMap_cons, List.length_append, ← encodeProgram, List.length_cons]
    omega

theorem length_encodeProgram_take_le (k : ℕ) (code : List Instruction) :
    (encodeProgram (code.take k)).length ≤ (encodeProgram code).length := by
  conv_rhs => rw [← List.take_append_drop k code]
  rw [encodeProgram, encodeProgram, List.flatMap_append, List.length_append]
  exact Nat.le_add_right _ _

/-- Within the depth of the bounded divergence stack, a program survives the encoding exactly when
every immediate it executes fits; the golden unit may hold any stale divergence entries. -/
theorem translated_iff_immediatesFit (hv : P.vectorOps = true) (hfp : K.fp = P.fp)
    (hK : K.threadsPerWarp ≤ 32) (hlen : (encodeProgram code).length ≤ maxProgramLen)
    (hdepth : WithinDepth K ans warpId code 0 []
      (cu.simt.initializeWarp warpId K.threadsPerWarp) regs) :
    Translated P K ans warpId code cu regs ↔
      ImmediatesFit K ans warpId code [] (cu.simt.initializeWarp warpId K.threadsPerWarp) regs := by
  rw [← matchingPass_iff 0 (i := 0) (h := [])
    (s := (.initializeWarp (SimtController.fullMask K.threadsPerWarp), regs))
    { cu with simt := cu.simt.initializeWarp warpId K.threadsPerWarp }
    ⟨warpId, 0, .running, regs⟩ hv hfp hK List.drop_zero (by simp [expandedPc, encodeProgram])
    (by rw [Nat.zero_add, ← length_encodeProgram]; exact hlen)
    ⟨rfl, simtRel_initializeWarp hK _ _⟩ rfl rfl hdepth]
  refine forall_congr' fun k => ?_
  have hk := length_encodeProgram_take_le k code
  rw [translatedRun_eq (hk.trans hlen),
    originalRun_eq ((length_le_encodeProgram _).trans (hk.trans hlen))]
  rfl

/-- A load that fits and an expanded `ADDI`, behind a branch that masks lane 0. -/
theorem translated_iff_immediatesFit_branch :
    let P : PipelineParams :=
      ⟨0, ⟨fun a _ => a, fun a _ => a, fun a _ => a, fun a _ _ => a⟩, true⟩
    let code : List Instruction :=
      [{ opcode := .vbranch, rs1 := 1 }, { opcode := .lw, rd := 2, imm := 4 },
        { opcode := .addi, rd := 3, imm := 5000 }, { opcode := .vjoin },
        { opcode := .barrier, imm := 1 }, { opcode := .halt }]
    let regs : RegFile := fun t r => if t = 0 ∧ r = 1 then 1 else 0
    Translated P ⟨32, P.fp⟩ (fun _ => 9) 0 code ⟨.reset, 0⟩ regs ↔
      ImmediatesFit ⟨32, P.fp⟩ (fun _ => 9) 0 code [] (SimtController.reset.initializeWarp 0 32)
        regs :=
  translated_iff_immediatesFit
    (P := ⟨0, ⟨fun a _ => a, fun a _ => a, fun a _ => a, fun a _ _ => a⟩, true⟩)
    (K := ⟨32, ⟨fun a _ => a, fun a _ => a, fun a _ => a, fun a _ _ => a⟩⟩)
    rfl rfl le_rfl (by decide) (by decide +kernel)

theorem MatchingRuns.regs_eq {hls : List Request × List WarpResult}
    {golden : List Request × List WarpOutcome} (h : MatchingRuns code hls golden) :
    hls.2.map (·.regs) = golden.2.map (·.ctx.regs) := by
  obtain ⟨hist, rs⟩ := hls
  obtain ⟨hist', os⟩ := golden
  have hrel : List.Forall₂ (TransRel code) rs os := h.2
  dsimp only
  clear h
  induction hrel with
  | nil => rfl
  | cons hr _ ih => rw [List.map_cons, List.map_cons, hr.regs, ih]

/-- `ADDI r3, r1, 5000` adds 904: the immediate loses its upper bits without a word. -/
theorem not_matchingRuns_addi :
    let P : PipelineParams :=
      ⟨0, ⟨fun a _ => a, fun a _ => a, fun a _ => a, fun a _ _ => a⟩, true⟩
    let code : List Instruction := [{ opcode := .addi, rd := 3, rs1 := 1, imm := 5000 }]
    ¬ MatchingRuns code (translatedRun P ⟨32, P.fp⟩ (fun _ => 0) 0 code fun _ _ => 0)
      (originalRun ⟨32, P.fp⟩ (fun _ => 0) 0 code ⟨.reset, 0⟩ fun _ _ => 0) := by
  intro P code h
  have hr3 := congrArg (List.map fun regs : RegFile => regs 0 3) h.regs_eq
  exact absurd hr3 (by decide +kernel)

end Main

end RiscvGpgpu.Parity
