import RiscvGpgpu.Parity.Executor

/-!
# Runs of one warp through its barriers

A warp is dispatched again after each stall until it completes. The two models agree over whole
runs (`hlsRun_refines_goldenRun`). A run with enough dispatches is one pass over the code
(`hlsPass`, `goldenPass`).
-/

namespace RiscvGpgpu.Parity

open Golden Hls

/-! ## Runs through barriers -/

/-- At most `n` dispatches of one warp, again after each stall from the program index it
reported; what each of them left. -/
def hlsRun (execute : WarpDispatch → RegFile → Interact MemReq MemResp WarpResult) :
    ℕ → WarpDispatch → RegFile → Interact MemReq MemResp (List WarpResult)
  | 0, _, _ => .ret []
  | n + 1, d, regs =>
    (execute d regs).bind fun r =>
      if r.status.code = .stalledAtBarrier then
        (hlsRun execute n { d with resumePc := r.status.resumePc, freshLaunch := false }
          r.regs).map (r :: ·)
      else .ret [r]

/-- At most `n` calls of `executeWarp` on one context, again after each stall. -/
def goldenRun (K : CuConfig) (code : List Instruction) :
    ℕ → ComputeUnit → WarpContext → Interact MemAccess (Option Word) (List WarpOutcome)
  | 0, _, _ => .ret []
  | n + 1, cu, ctx =>
    (executeWarp K code cu ctx).bind fun o =>
      if o.ctx.state = .stalled then (goldenRun K code n o.cu o.ctx).map (o :: ·) else .ret [o]

/-- A request as both sides issue it. -/
structure Request where
  lane : LaneId
  address : Addr
  isWrite : Bool
  data : Word
  deriving DecidableEq, Repr

def ofMemReq (q : MemReq) : Request := ⟨q.laneId, q.address, q.isWrite, q.writeData⟩

def ofMemAccess (a : MemAccess) : Request :=
  ⟨BitVec.ofNat 6 a.lane, a.address.setWidth 32, a.isWrite, a.data⟩

/-- The memory of the HLS side, given as an answer function of the request history. -/
def hlsServer (ans : List Request → Word) (h : List Request) (q : MemReq) :
    MemResp × List Request :=
  (⟨q.cuId, q.warpId, q.laneId, (Interact.oracle ans h (ofMemReq q)).1⟩,
    (Interact.oracle ans h (ofMemReq q)).2)

/-- The memory of the golden side, given by the same function. -/
def goldenServer (ans : List Request → Word) (h : List Request) (a : MemAccess) :
    Option Word × List Request :=
  (some (Interact.oracle ans h (ofMemAccess a)).1, (Interact.oracle ans h (ofMemAccess a)).2)

section Runs

variable {P : PipelineParams} {K : CuConfig} {code : List Instruction}

theorem ReqRel.ofMemReq_eq {q : MemReq} {a : MemAccess} (h : ReqRel q a) :
    ofMemReq q = ofMemAccess a := by
  rw [ofMemReq, ofMemAccess, h.laneId, h.address, h.isWrite, h.data]

theorem servers_related (ans : List Request → Word) (h h' : List Request) (q : MemReq)
    (a : MemAccess) (hh : h = h') (hq : ReqRel q a) :
    RespRel q (hlsServer ans h q).1 (goldenServer ans h' a).1 ∧
      (hlsServer ans h q).2 = (goldenServer ans h' a).2 := by
  subst hh
  unfold hlsServer goldenServer
  rw [hq.ofMemReq_eq]
  exact ⟨.inr rfl, rfl⟩

theorem hlsRun_sim (hv : P.vectorOps = true) (hK : K.threadsPerWarp ≤ 32) (hfp : K.fp = P.fp)
    (hlen : code.length ≤ maxProgramLen) (n : ℕ) {d : WarpDispatch}
    (hd : d.activeMaskInit = SimtController.fullMask K.threadsPerWarp) (ctx : WarpContext)
    (hpc : ctx.pc = d.resumePc.toNat) (hw : ctx.warpId = d.warpId) (cu : ComputeUnit) :
    Interact.Sim ReqRel RespRel (List.Forall₂ (OutcomeRel d.warpId))
      (fun rs => ∃ r ∈ rs, r.simt.overflow = true)
      (hlsRun (executeDecoded P · code) n d ctx.regs) (goldenRun K code n cu ctx) := by
  induction n generalizing d ctx cu with
  | zero => exact .ret .nil
  | succ n ih =>
    unfold hlsRun goldenRun
    refine (executeDecoded_sim hv hK hfp hlen hd hpc hw cu).bind (fun r o ho => ?_)
      fun r hr => ?_
    · by_cases hs : r.status.code = .stalledAtBarrier
      · rw [if_pos hs, if_pos (ho.stalled.1 hs), ho.regs]
        refine (ih (d := { d with resumePc := r.status.resumePc, freshLaunch := false }) hd
          o.ctx (ho.resumePc hs).symm ho.warp o.cu).bind (fun rs os hrs => ?_) ?_
        · exact .ret (.cons ho hrs)
        · rintro rs ⟨r', hr', hover⟩
          exact ⟨r', List.mem_cons_of_mem _ hr', hover⟩
      · rw [if_neg hs, if_neg (fun ho' => hs (ho.stalled.2 ho'))]
        exact .ret (.cons ho .nil)
    · split
      · exact (Interact.AllLeaves.of_forall (fun _ => trivial) _).bind
          fun _ _ => ⟨r, List.mem_cons_self, hr⟩
      · exact ⟨r, List.mem_cons_self, hr⟩

/-- The HLS executor refines the golden one: started with all 32 lanes and run through any number
of barriers against the same memory, the two ask the same requests in the same order and report
the same registers, stalls and ends, unless some dispatch overflows the bounded stack. The golden
unit may start with any stale divergence entries. -/
theorem hlsRun_refines_goldenRun (hv : P.vectorOps = true) (code : List Instruction)
    (hlen : code.length ≤ maxProgramLen) (n : ℕ) (d : WarpDispatch)
    (hd : d.activeMaskInit = BitVec.allOnes 32) (regs : RegFile) (cu : ComputeUnit)
    (ans : List Request → Word)
    (hdepth : ∀ r ∈ ((hlsRun (executeDecoded P · code) n d regs).serve (hlsServer ans) []).2,
      r.simt.overflow = false) :
    let golden := goldenRun ⟨32, P.fp⟩ code n cu ⟨d.warpId, d.resumePc.toNat, .ready, regs⟩
    ((hlsRun (executeDecoded P · code) n d regs).serve (hlsServer ans) []).1 =
        (golden.serve (goldenServer ans) []).1 ∧
      List.Forall₂ (OutcomeRel d.warpId)
        ((hlsRun (executeDecoded P · code) n d regs).serve (hlsServer ans) []).2
        (golden.serve (goldenServer ans) []).2 := by
  refine (hlsRun_sim (K := ⟨32, P.fp⟩) hv le_rfl rfl hlen n hd
    ⟨d.warpId, d.resumePc.toNat, .ready, regs⟩ rfl rfl cu).serve (servers_related ans) rfl ?_
  rintro ⟨r, hr, hover⟩
  rw [hdepth r hr] at hover
  exact Bool.false_ne_true hover

/-- A masked load, a barrier and an unmatched `VJOIN`, resumed once. -/
theorem hlsRun_refines_goldenRun_barrier :
    let P : PipelineParams :=
      ⟨0, ⟨fun a _ => a, fun a _ => a, fun a _ => a, fun a _ _ => a⟩, true⟩
    let code : List Instruction :=
      [{ opcode := .vbranch, rs1 := 1 }, { opcode := .lw, rd := 2, imm := 4 },
        { opcode := .barrier, imm := 3 }, { opcode := .vjoin }, { opcode := .halt }]
    let d : WarpDispatch := { activeMaskInit := BitVec.allOnes 32 }
    let regs : RegFile := fun t _ => if t = 0 then 1 else 0
    let golden := goldenRun ⟨32, P.fp⟩ code 2 ⟨.reset, 0⟩ ⟨0, 0, .ready, regs⟩
    ((hlsRun (executeDecoded P · code) 2 d regs).serve (hlsServer fun _ => 9) []).1 =
        (golden.serve (goldenServer fun _ => 9) []).1 ∧
      List.Forall₂ (OutcomeRel 0)
        ((hlsRun (executeDecoded P · code) 2 d regs).serve (hlsServer fun _ => 9) []).2
        (golden.serve (goldenServer fun _ => 9) []).2 :=
  hlsRun_refines_goldenRun (P := ⟨0, ⟨fun a _ => a, fun a _ => a, fun a _ => a, fun a _ _ => a⟩,
    true⟩) rfl _ (by decide) 2 { activeMaskInit := BitVec.allOnes 32 } rfl _ ⟨.reset, 0⟩
    (fun _ => 9) (by decide +kernel)

end Runs

/-! ## One pass over the code -/

/-- A whole run from program index `i`, over the instructions that remain: each barrier closes a
dispatch, and the next one starts on a fresh stack. -/
def hlsPass (P : PipelineParams) (warpId : WarpId) (mask : ThreadMask) :
    List Instruction → ℕ → DivergenceStack → RegFile → Word →
      Interact MemReq MemResp (List WarpResult)
  | [], _, s, regs, count => .ret [⟨regs, { code := .complete, instrCount := count }, s⟩]
  | instr :: rest, i, s, regs, count =>
    if instr.opcode = .halt then
      .ret [⟨regs, { code := .complete, instrCount := count }, s⟩]
    else if instr.opcode = .barrier then
      (hlsPass P warpId mask rest (i + 1) (.initializeWarp mask) regs 0).map
        (⟨regs,
          { code := .stalledAtBarrier, barrierId := instr.imm, resumePc := BitVec.ofNat 16 (i + 1)
            instrCount := count + 1 }, s⟩ :: ·)
    else (Hls.executeInstr P warpId instr s regs).bind fun s' =>
      hlsPass P warpId mask rest (i + 1) s'.1 s'.2 (count + 1)

/-- A whole golden run from `ctx.pc`, over the instructions that remain. -/
def goldenPass (K : CuConfig) : List Instruction → ComputeUnit → WarpContext →
    Interact MemAccess (Option Word) (List WarpOutcome)
  | [], cu, ctx => .ret [⟨{ ctx with state := .complete }, cu, none⟩]
  | instr :: rest, cu, ctx =>
    if instr.opcode = .halt then
      .ret [⟨{ ctx with state := .complete },
        { cu with totalInstructions := cu.totalInstructions + 1 }, none⟩]
    else if instr.opcode = .barrier then
      let cu' : ComputeUnit :=
        { simt := cu.simt.threadHitBarrier ctx.warpId instr.imm
          totalInstructions := cu.totalInstructions + 1 }
      (goldenPass K rest { cu' with simt := cu'.simt.initializeWarp ctx.warpId K.threadsPerWarp }
        { ctx with pc := ctx.pc + 1, state := .running }).map
        (⟨{ ctx with pc := ctx.pc + 1, state := .stalled }, cu', some instr.imm⟩ :: ·)
    else (Golden.executeInstr K ctx.warpId instr cu.simt ctx.regs).bind fun s =>
      goldenPass K rest { simt := s.1, totalInstructions := cu.totalInstructions + 1 }
        { ctx with pc := ctx.pc + 1, regs := s.2 }

section Pass

variable {P : PipelineParams} {K : CuConfig} {code : List Instruction}

theorem executeDecoded_of_le (hlen : code.length ≤ maxProgramLen) (d : WarpDispatch)
    (regs : RegFile) :
    executeDecoded P d code regs =
      decodeLoop P d.warpId d.resumePc.toNat (code.drop d.resumePc.toNat)
        (.initializeWarp d.activeMaskInit) regs 0 := by
  rw [executeDecoded, List.take_of_length_le hlen]

theorem decodeLoop_bind_eq_hlsPass (hlen : code.length ≤ maxProgramLen) (d : WarpDispatch)
    {fuel i : ℕ} {rest : List Instruction} (hrest : code.drop i = rest)
    (hfuel : rest.length < fuel) (s : DivergenceStack) (regs : RegFile) (count : Word) :
    ((decodeLoop P d.warpId i rest s regs count).bind fun r =>
      if r.status.code = .stalledAtBarrier then
        (hlsRun (executeDecoded P · code) fuel
          { d with resumePc := r.status.resumePc, freshLaunch := false } r.regs).map (r :: ·)
      else .ret [r]) = hlsPass P d.warpId d.activeMaskInit rest i s regs count := by
  induction rest generalizing fuel i s regs count d with
  | nil => rfl
  | cons instr rest ih =>
    have hrest' : code.drop (i + 1) = rest := by rw [← List.tail_drop, hrest, List.tail_cons]
    rw [List.length_cons] at hfuel
    unfold decodeLoop hlsPass
    by_cases hh : instr.opcode = .halt
    · rw [if_pos hh, if_pos hh]
      rfl
    rw [if_neg hh, if_neg hh]
    by_cases hb : instr.opcode = .barrier
    · rw [if_pos hb, if_pos hb, Interact.ret_bind, if_pos rfl]
      obtain ⟨fuel, rfl⟩ : ∃ k, fuel = k + 1 := ⟨fuel - 1, by omega⟩
      have hi : i < code.length := by
        by_contra hge
        rw [List.drop_eq_nil_of_le (by omega)] at hrest
        exact List.cons_ne_nil _ _ hrest.symm
      have hpc : (BitVec.ofNat 16 (i + 1)).toNat = i + 1 := by
        rw [BitVec.toNat_ofNat]; unfold maxProgramLen at hlen; omega
      rw [hlsRun, executeDecoded_of_le hlen]
      dsimp only
      rw [hpc, hrest']
      rw [← ih { d with resumePc := BitVec.ofNat 16 (i + 1), freshLaunch := false } hrest'
        (show rest.length < fuel by omega)]
    · rw [if_neg hb, if_neg hb, Interact.bind_assoc]
      exact congrArg _ (funext fun s' => ih d hrest' (by omega) _ _ _)

theorem hlsRun_eq_hlsPass (hlen : code.length ≤ maxProgramLen) {fuel : ℕ}
    (hfuel : code.length < fuel) {d : WarpDispatch} (hd : d.resumePc = 0#16) (regs : RegFile) :
    hlsRun (executeDecoded P · code) (fuel + 1) d regs =
      hlsPass P d.warpId d.activeMaskInit code 0 (.initializeWarp d.activeMaskInit) regs 0 := by
  rw [hlsRun, ← decodeLoop_bind_eq_hlsPass hlen d (List.drop_zero (l := code)) hfuel,
    executeDecoded_of_le hlen, hd]
  rfl

theorem warpLoop_bind_eq_goldenPass {fuel : ℕ} {rest : List Instruction} {ctx : WarpContext}
    (hrest : code.drop ctx.pc = rest) (hfuel : rest.length < fuel) (cu : ComputeUnit)
    (hrun : ctx.state = .running) :
    ((warpLoop K rest cu ctx).bind fun o =>
      if o.ctx.state = .stalled then (goldenRun K code fuel o.cu o.ctx).map (o :: ·)
      else .ret [o]) = goldenPass K rest cu ctx := by
  induction rest generalizing fuel ctx cu with
  | nil => rfl
  | cons instr rest ih =>
    have hrest' : code.drop (ctx.pc + 1) = rest := by
      rw [← List.tail_drop, hrest, List.tail_cons]
    rw [List.length_cons] at hfuel
    unfold warpLoop goldenPass
    by_cases hh : instr.opcode = .halt
    · rw [if_pos hh, if_pos hh]
      rfl
    rw [if_neg hh, if_neg hh]
    by_cases hb : instr.opcode = .barrier
    · rw [if_pos hb, if_pos hb, Interact.ret_bind, if_pos rfl]
      obtain ⟨fuel, rfl⟩ : ∃ k, fuel = k + 1 := ⟨fuel - 1, by omega⟩
      unfold goldenRun executeWarp
      dsimp only
      rw [hrest']
      rw [← @ih fuel { ctx with pc := ctx.pc + 1, state := .running } hrest' (by omega) _ rfl]
    · rw [if_neg hb, if_neg hb, Interact.bind_assoc]
      exact congrArg _ (funext fun s =>
        @ih fuel { ctx with pc := ctx.pc + 1, regs := s.2 } hrest' (by omega) _ hrun)

theorem goldenRun_eq_goldenPass {fuel : ℕ} (hfuel : code.length < fuel) {ctx : WarpContext}
    (hpc : ctx.pc = 0) (cu : ComputeUnit) :
    goldenRun K code (fuel + 1) cu ctx =
      goldenPass K code
        { cu with simt := cu.simt.initializeWarp ctx.warpId K.threadsPerWarp }
        { ctx with state := .running } := by
  have hdrop : code.drop ({ ctx with state := .running } : WarpContext).pc = code := by
    dsimp only; rw [hpc, List.drop_zero]
  rw [goldenRun, ← warpLoop_bind_eq_goldenPass hdrop hfuel _ rfl]
  unfold executeWarp
  rw [hpc, List.drop_zero]

end Pass

end RiscvGpgpu.Parity
