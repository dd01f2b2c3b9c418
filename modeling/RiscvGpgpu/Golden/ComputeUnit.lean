import RiscvGpgpu.Golden.SimtController
import RiscvGpgpu.Lib.Interact

/-!
# The golden warp executor

`ComputeUnit::executeWarp` and its executors. The memory hierarchy the unit is connected to
answers each access: a load with the word it writes through its reference argument, or with nothing
where it reports failure and leaves that argument alone. Addresses are 64 bits wide.
-/

namespace RiscvGpgpu.Golden

/-- One call of `loadWord` or `storeWord`. -/
structure MemAccess where
  warpId : WarpId
  lane : Lane
  address : BitVec 64
  isWrite : Bool
  data : Word
  deriving DecidableEq, Repr

inductive WarpState where
  | idle | ready | running | stalled | waitingMem | complete
  deriving DecidableEq, Repr

structure WarpContext where
  warpId : WarpId
  pc : ℕ
  state : WarpState
  regs : RegFile

/-- The configuration `executeWarp` reads, and the host's float arithmetic. -/
structure CuConfig where
  threadsPerWarp : ℕ
  fp : FloatOps

structure ComputeUnit where
  simt : SimtController
  totalInstructions : Word

/-- What a call of `executeWarp` leaves; `barrierIdOut` is unset unless the warp stalled. -/
structure WarpOutcome where
  ctx : WarpContext
  cu : ComputeUnit
  barrierIdOut : Option BarrierId

section Executors

variable (K : CuConfig) (regs : RegFile) (instr : Instruction) (mask : ThreadMask)

/-- Whether the lane loops act on lane `t`. -/
def laneOn (t : Lane) : Bool := t < K.threadsPerWarp && mask.active t

def executeALU : RegFile := fun t =>
  if laneOn K mask t then
    let r := regs t
    let a := r instr.rs1
    let b := if instr.opcode = .addi ∨ instr.opcode = .lui then instr.imm else r instr.rs2
    match instr.opcode with
    | .add | .addi => Function.update r instr.rd (a + b)
    | .sub => Function.update r instr.rd (a - b)
    | .and => Function.update r instr.rd (a &&& b)
    | .or => Function.update r instr.rd (a ||| b)
    | .xor => Function.update r instr.rd (a ^^^ b)
    | .slt => Function.update r instr.rd (if a.slt b then 1 else 0)
    | .lui => Function.update r instr.rd (b <<< 12)
    | .fadd => Function.update r instr.rd (K.fp.add a b)
    | .fmul => Function.update r instr.rd (K.fp.mul a b)
    | _ => r
  else regs t

def executeVector : RegFile := fun t =>
  if laneOn K mask t then
    let r := regs t
    let a := r instr.rs1
    let b := r instr.rs2
    let c := r instr.rd
    match instr.opcode with
    | .vadd => Function.update r instr.rd (a + b)
    | .vsub => Function.update r instr.rd (a - b)
    | .vmul => Function.update r instr.rd (a * b)
    | .vfmadd => Function.update r instr.rd (a * b + c)
    | .vfadd => Function.update r instr.rd (K.fp.add a b)
    | .vfsub => Function.update r instr.rd (K.fp.sub a b)
    | .vfmul => Function.update r instr.rd (K.fp.mul a b)
    | .vffmadd => Function.update r instr.rd (K.fp.mulAdd a b c)
    | _ => r
  else regs t

/-- The call lane `t` makes; the 64-bit address does not wrap. -/
def memAccess (warpId : WarpId) (r : LaneRegs) (t : Lane) : MemAccess where
  warpId := warpId
  lane := t
  address := (r instr.rs1).setWidth 64 + instr.imm.signExtend 64
  isWrite := instr.opcode ≠ .lw
  data := if instr.opcode ≠ .lw then r instr.rs2 else 0

/-- The lane loop of `executeMemOp`, over the lanes still to visit. -/
def memOpLanes (warpId : WarpId) : List Lane → RegFile → Interact MemAccess (Option Word) RegFile
  | [], regs => .ret regs
  | t :: ts, regs =>
    if laneOn K mask t then
      .ask (memAccess instr warpId (regs t) t) fun data =>
        memOpLanes warpId ts
          (if instr.opcode = .lw then
            match data with
            | some v => Function.update regs t (Function.update (regs t) instr.rd v)
            | none => regs
          else regs)
    else memOpLanes warpId ts regs

def executeMemOp (warpId : WarpId) : Interact MemAccess (Option Word) RegFile :=
  memOpLanes K instr mask warpId (List.finRange 32) regs

def executeBranch (simt : SimtController) (warpId : WarpId) : SimtController :=
  simt.handleBranch warpId fun t => laneOn K mask t && regs t instr.rs1 == 0

def executeJoin (simt : SimtController) (warpId : WarpId) : SimtController :=
  simt.handleJoin warpId

end Executors

/-- The dispatch of one instruction that is neither `HALT` nor `BARRIER`. -/
def executeInstr (K : CuConfig) (warpId : WarpId) (instr : Instruction) (simt : SimtController)
    (regs : RegFile) : Interact MemAccess (Option Word) (SimtController × RegFile) :=
  let mask := simt.getActiveMask warpId
  if instr.opcode = .vbranch then .ret (executeBranch K regs instr mask simt warpId, regs)
  else if instr.opcode = .vjoin then .ret (executeJoin simt warpId, regs)
  else if instr.isMemory then
    (executeMemOp K regs instr mask warpId).map fun regs' => (simt, regs')
  else if instr.isVector then .ret (simt, executeVector K regs instr mask)
  else .ret (simt, executeALU K regs instr mask)

/-- The loop of `executeWarp`, over the instructions from `ctx.pc` on. -/
def warpLoop (K : CuConfig) : List Instruction → ComputeUnit → WarpContext →
    Interact MemAccess (Option Word) WarpOutcome
  | [], cu, ctx => .ret ⟨{ ctx with state := .complete }, cu, none⟩
  | instr :: rest, cu, ctx =>
    if instr.opcode = .halt then
      .ret ⟨{ ctx with state := .complete },
        { cu with totalInstructions := cu.totalInstructions + 1 }, none⟩
    else if instr.opcode = .barrier then
      .ret ⟨{ ctx with pc := ctx.pc + 1, state := .stalled },
        { simt := cu.simt.threadHitBarrier ctx.warpId instr.imm
          totalInstructions := cu.totalInstructions + 1 }, some instr.imm⟩
    else (executeInstr K ctx.warpId instr cu.simt ctx.regs).bind fun s =>
      warpLoop K rest { simt := s.1, totalInstructions := cu.totalInstructions + 1 }
        { ctx with pc := ctx.pc + 1, regs := s.2 }

def executeWarp (K : CuConfig) (program : List Instruction) (cu : ComputeUnit)
    (ctx : WarpContext) : Interact MemAccess (Option Word) WarpOutcome :=
  warpLoop K (program.drop ctx.pc)
    { cu with simt := cu.simt.initializeWarp ctx.warpId K.threadsPerWarp }
    { ctx with state := .running }

end RiscvGpgpu.Golden
