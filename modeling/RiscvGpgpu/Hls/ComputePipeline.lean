import RiscvGpgpu.Lib.Interact
import RiscvGpgpu.Hls.Codec
import RiscvGpgpu.Hls.DivergenceStack

/-!
# The compute pipeline

`compute_pipeline.cpp`: one dispatch of one warp. The memory streams make `executeOneWarp` a
program that asks `MemReq`s and resumes on `MemResp`s, one request per active lane and in lane
order; everything else is a function. The register file of the slot is passed in and handed back.
-/

namespace RiscvGpgpu.Hls

/-- What is fixed for one pipeline instance: its CU, the float arithmetic of the build and
whether `RISCV_GPGPU_ENABLE_VECTOR_OPS` is defined. -/
structure PipelineParams where
  cuId : CuId
  fp : FloatOps
  vectorOps : Bool

/-- `regs[t][rd] = v`, or nothing where the switch of the source falls to `default`. -/
def writeReg (r : LaneRegs) (rd : Reg) : Option Word → LaneRegs
  | some v => Function.update r rd v
  | none => r

/-! ## Scalar ALU and vector operations -/

/-- The switch of `executeALU` for one lane. -/
def aluResult (fp : FloatOps) (instr : Instruction) (r : LaneRegs) : Option Word :=
  let a := r instr.rs1
  let b := if instr.opcode = .addi ∨ instr.opcode = .lui then instr.imm else r instr.rs2
  match instr.opcode with
  | .add | .addi => some (a + b)
  | .sub => some (a - b)
  | .and => some (a &&& b)
  | .or => some (a ||| b)
  | .xor => some (a ^^^ b)
  | .slt => some (if a.slt b then 1 else 0)
  | .lui => some (b <<< 12)
  | .fadd => some (fp.add a b)
  | .fmul => some (fp.mul a b)
  | _ => none

def executeALU (fp : FloatOps) (regs : RegFile) (instr : Instruction) (mask : ThreadMask) :
    RegFile := fun t =>
  if mask.active t then writeReg (regs t) instr.rd (aluResult fp instr (regs t)) else regs t

/-- The switch of `executeVector` for one lane. -/
def vectorResult (fp : FloatOps) (instr : Instruction) (r : LaneRegs) : Option Word :=
  let a := r instr.rs1
  let b := r instr.rs2
  let c := r instr.rd
  match instr.opcode with
  | .vadd => some (a + b)
  | .vsub => some (a - b)
  | .vmul => some (a * b)
  | .vfmadd => some (a * b + c)
  | .vfadd => some (fp.add a b)
  | .vfsub => some (fp.sub a b)
  | .vfmul => some (fp.mul a b)
  | .vffmadd => some (fp.mulAdd a b c)
  | _ => none

def executeVector (fp : FloatOps) (regs : RegFile) (instr : Instruction) (mask : ThreadMask) :
    RegFile := fun t =>
  if mask.active t then writeReg (regs t) instr.rd (vectorResult fp instr (regs t)) else regs t

/-! ## Memory -/

/-- The request of lane `t`. -/
def memReq (cuId : CuId) (warpId : WarpId) (instr : Instruction) (r : LaneRegs) (t : Lane) :
    MemReq where
  cuId := cuId
  warpId := warpId
  laneId := BitVec.ofNat 6 t
  address := r instr.rs1 + instr.imm
  isWrite := instr.opcode = .sw
  writeData := if instr.opcode = .sw then r instr.rs2 else 0

/-- The lane loop of `executeMemOp`, over the lanes still to visit. -/
def memOpLanes (cuId : CuId) (warpId : WarpId) (instr : Instruction) (mask : ThreadMask) :
    List Lane → RegFile → Interact MemReq MemResp RegFile
  | [], regs => .ret regs
  | t :: ts, regs =>
    if mask.active t then
      .ask (memReq cuId warpId instr (regs t) t) fun resp =>
        memOpLanes cuId warpId instr mask ts
          (if instr.opcode = .lw then
            Function.update regs t (Function.update (regs t) instr.rd resp.data)
          else regs)
    else memOpLanes cuId warpId instr mask ts regs

def executeMemOp (cuId : CuId) (warpId : WarpId) (regs : RegFile) (instr : Instruction)
    (mask : ThreadMask) : Interact MemReq MemResp RegFile :=
  memOpLanes cuId warpId instr mask (List.finRange 32) regs

/-! ## SIMT branch and join -/

def executeBranch (simt : DivergenceStack) (regs : RegFile) (instr : Instruction)
    (mask : ThreadMask) : DivergenceStack :=
  simt.handleBranch fun t => if mask.active t then regs t instr.rs1 == 0 else false

def executeJoin (simt : DivergenceStack) : DivergenceStack := simt.handleJoin

/-! ## One dispatch -/

/-- The dispatch of one instruction that is neither `HALT` nor `BARRIER`. -/
def executeInstr (P : PipelineParams) (warpId : WarpId) (instr : Instruction)
    (simt : DivergenceStack) (regs : RegFile) :
    Interact MemReq MemResp (DivergenceStack × RegFile) :=
  let mask := simt.activeMask
  if instr.opcode = .vbranch then .ret (executeBranch simt regs instr mask, regs)
  else if instr.opcode = .vjoin then .ret (executeJoin simt, regs)
  else if instr.isMemory then
    (executeMemOp P.cuId warpId regs instr mask).map fun regs' => (simt, regs')
  else if P.vectorOps && instr.isVector then .ret (simt, executeVector P.fp regs instr mask)
  else .ret (simt, executeALU P.fp regs instr mask)

/-- What one dispatch leaves: the slot's registers, the status it reports, and the divergence
stack, which is local to the dispatch and dies with it. -/
structure WarpResult where
  regs : RegFile
  status : WarpStatus
  simt : DivergenceStack

/-- The decode loop at program index `i`, over the instructions from `i` on. -/
def decodeLoop (P : PipelineParams) (warpId : WarpId) :
    ℕ → List Instruction → DivergenceStack → RegFile → Word → Interact MemReq MemResp WarpResult
  | _, [], simt, regs, count => .ret ⟨regs, { code := .complete, instrCount := count }, simt⟩
  | i, instr :: rest, simt, regs, count =>
    if instr.opcode = .halt then
      .ret ⟨regs, { code := .complete, instrCount := count }, simt⟩
    else if instr.opcode = .barrier then
      .ret ⟨regs,
        { code := .stalledAtBarrier, barrierId := instr.imm, resumePc := BitVec.ofNat 16 (i + 1)
          instrCount := count + 1 }, simt⟩
    else (executeInstr P warpId instr simt regs).bind fun s =>
      decodeLoop P warpId (i + 1) rest s.1 s.2 (count + 1)

/-- One dispatch over decoded instructions. -/
def executeDecoded (P : PipelineParams) (d : WarpDispatch) (code : List Instruction)
    (regs : RegFile) : Interact MemReq MemResp WarpResult :=
  decodeLoop P d.warpId d.resumePc.toNat ((code.take maxProgramLen).drop d.resumePc.toNat)
    (.initializeWarp d.activeMaskInit) regs 0

/-- The instructions the decode loop can reach: the first `program_len` words of the store. -/
def decodeProgram (program : Vector RawInstr maxProgramLen) (programLen : Word) :
    List Instruction :=
  (program.toList.take programLen.toNat).map decodeInstruction

def executeOneWarp (P : PipelineParams) (d : WarpDispatch)
    (program : Vector RawInstr maxProgramLen) (programLen : Word) (regs : RegFile) :
    Interact MemReq MemResp WarpResult :=
  executeDecoded P d (decodeProgram program programLen) regs

end RiscvGpgpu.Hls
