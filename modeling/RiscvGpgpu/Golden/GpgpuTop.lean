import RiscvGpgpu.Golden.ComputeUnit
import RiscvGpgpu.Golden.MemoryHierarchy
import RiscvGpgpu.Golden.WarpScheduler
import RiscvGpgpu.Lib.Transition

/-!
# The golden top module

`GPGPUTop`: `launchKernel` fills the scheduler's queues and notifies `simulationProcess`, whose loop
gives each compute unit one warp a turn and holds the warps that stop at a barrier until all have.
`resume` runs the process from one wait to the next. The events are the warp contexts built and the
warps whose `executeWarp` ended with COMPLETE.
-/

namespace RiscvGpgpu.Golden

/-- The fields of `GPGPUTop::Config` that are read. A mask of `threadsPerWarp` lanes is a shift. -/
structure GpgpuTop.Config extends WarpScheduler.Config where
  cu : CuConfig
  threadsPerWarp_pos : 0 < cu.threadsPerWarp
  threadsPerWarp_le : cu.threadsPerWarp ≤ 32

/-- `program` is `ctx.program`. -/
structure StalledWarp where
  id : WarpId
  cuId : ℕ
  bid : BarrierId
  ctx : WarpContext
  program : List Instruction

/-- Where `simulationProcess` waits. -/
inductive ProcessState where
  /-- For `kernel_launch_event_`. -/
  | idle
  /-- For the next turn of its loop, with its `barrier_queue`. -/
  | running (barrierQueue : List StalledWarp)

structure GpgpuTop where
  scheduler : WarpScheduler
  memory : MemoryHierarchy
  computeUnits : ℕ → ComputeUnit
  kernelProgram : List Instruction
  kernelStartWarpId : WarpId
  warpIdOffset : BitVec 32
  totalWarps : BitVec 32
  /-- `kernel_launch_event_` is notified. -/
  launchPending : Bool
  process : ProcessState

inductive TopEvent where
  | launched
  | built (ctx : WarpContext)
  | complete (warpId : WarpId)

namespace GpgpuTop

def reset (memory : MemoryHierarchy) : GpgpuTop where
  scheduler := .reset
  memory := memory
  computeUnits := fun _ => ⟨.reset, 0⟩
  kernelProgram := []
  kernelStartWarpId := 0
  warpIdOffset := 0
  totalWarps := 0
  launchPending := false
  process := .idle

variable (K : Config)

def launchKernel (gridX gridY : BitVec 32) (program : List Instruction) (warpIdOffset : BitVec 32)
    (g : GpgpuTop) : GpgpuTop :=
  { g with
    kernelProgram := program
    kernelStartWarpId := g.scheduler.kernelWarpCounter
    warpIdOffset := warpIdOffset
    totalWarps := gridX * gridY
    scheduler := g.scheduler.submitKernel K.toConfig gridX gridY
    launchPending := true }

/-! ## Warp contexts -/

/-- `global_tid` of lane `t`. -/
def globalTid (g : GpgpuTop) (warpId : WarpId) (t : ℕ) : Word :=
  (warpId + g.warpIdOffset) * BitVec.ofNat 32 K.cu.threadsPerWarp + BitVec.ofNat 32 t

def buildWarpContext (g : GpgpuTop) (warpId : WarpId) : WarpContext where
  warpId := warpId
  pc := 0
  state := .ready
  regs := fun t r =>
    if (t : ℕ) < K.cu.threadsPerWarp then
      if r = 1 then g.globalTid K warpId t
      else if r = 2 then 0x10000 + g.globalTid K warpId t * 4
      else if r = 3 then warpId - g.kernelStartWarpId
      else 0
    else 0

/-! ## The simulation loop -/

/-- The memory hierarchy answering one access of a compute unit. -/
def serveAccess (h : MemoryHierarchy) (a : MemAccess) : Option Word × MemoryHierarchy :=
  if a.isWrite then (none, h.storeWord a.address a.data 0) else h.loadWord a.address 0

/-- `compute_units_[cu_id]->executeWarp(ctx, &bid)`. -/
def runWarp (cuId : ℕ) (program : List Instruction) (ctx : WarpContext) (g : GpgpuTop) :
    WarpOutcome × GpgpuTop :=
  let r := (executeWarp K.cu program (g.computeUnits cuId) ctx).serve serveAccess g.memory
  (r.2, { g with
    memory := r.1
    computeUnits := Function.update g.computeUnits cuId r.2.cu })

/-- The loop's state: the module, `barrier_queue`, and the events so far. -/
structure Turn where
  top : GpgpuTop
  barrierQueue : List StalledWarp
  events : List TopEvent

/-- One turn of the fan-out. -/
def dispatch (cuId : ℕ) (s : Turn) : Turn :=
  let (warpId, scheduler) := s.top.scheduler.selectWarp K.toConfig cuId
  let g := { s.top with scheduler := scheduler }
  if warpId = WarpScheduler.invalidWarpId then { s with top := g }
  else
    let ctx := g.buildWarpContext K warpId
    let (out, g') := g.runWarp K cuId g.kernelProgram ctx
    let done := { g' with scheduler := g'.scheduler.markWarpComplete }
    if out.ctx.state = .complete then
      ⟨done, s.barrierQueue, s.events ++ [.built ctx, .complete warpId]⟩
    else
      ⟨done, s.barrierQueue ++
        [⟨warpId, cuId, out.barrierIdOut.getD 0, out.ctx, g.kernelProgram⟩],
        s.events ++ [.built ctx]⟩

def fanOut (s : Turn) : Turn :=
  (List.range K.numComputeUnits).foldl (fun s cuId => dispatch K cuId s) s

/-- `clearBarrier` in every compute unit. -/
def clearBarriers (bid : BarrierId) (g : GpgpuTop) : GpgpuTop :=
  { g with computeUnits := fun cuId =>
      if cuId < K.numComputeUnits then
        { g.computeUnits cuId with simt := (g.computeUnits cuId).simt.clearBarrier bid }
      else g.computeUnits cuId }

/-- One resumed warp; `s.barrierQueue` is `next_queue`. -/
def resumeWarp (s : Turn) (sw : StalledWarp) : Turn :=
  let (out, g) := s.top.runWarp K sw.cuId sw.program sw.ctx
  if out.ctx.state = .stalled then
    ⟨g, s.barrierQueue ++ [⟨sw.id, sw.cuId, out.barrierIdOut.getD 0, out.ctx, sw.program⟩],
      s.events⟩
  else ⟨g, s.barrierQueue, s.events ++ [.complete sw.id]⟩

/-- The global barrier check. -/
def barrierCheck (s : Turn) : Turn :=
  match s.barrierQueue with
  | [] => s
  | sw :: _ =>
    if s.top.scheduler.isComplete K.toConfig ∧ s.barrierQueue.length = s.top.totalWarps.toNat then
      s.barrierQueue.foldl (resumeWarp K) ⟨s.top.clearBarriers K sw.bid, [], s.events⟩
    else s

/-- From the test of the loop on to the next wait. -/
def loopTurn (g : GpgpuTop) (barrierQueue : List StalledWarp) : GpgpuTop × List TopEvent :=
  if !g.scheduler.isComplete K.toConfig || !barrierQueue.isEmpty then
    let s := barrierCheck K (fanOut K ⟨g, barrierQueue, []⟩)
    ({ s.top with process := .running s.barrierQueue }, s.events)
  else ({ g with process := .idle }, [])

/-- `simulationProcess` from one wait to the next. A notification that comes while it waits for its
loop is lost. -/
def resume (g : GpgpuTop) : Option (GpgpuTop × List TopEvent) :=
  match g.process with
  | .idle =>
    if g.launchPending then some (loopTurn K { g with launchPending := false } []) else none
  | .running barrierQueue => some (loopTurn K { g with launchPending := false } barrierQueue)

def isKernelComplete (g : GpgpuTop) : Bool := g.scheduler.isComplete K.toConfig

/-- `barrier_queue`, empty outside the loop. -/
def barrierQueue (g : GpgpuTop) : List StalledWarp :=
  match g.process with
  | .idle => []
  | .running barrierQueue => barrierQueue

/-! ## Runs -/

inductive TopAction where
  | launch (gridX gridY : BitVec 32) (program : List Instruction) (warpIdOffset : BitVec 32)
  | resume

def step (g : GpgpuTop) : TopAction → Option (GpgpuTop × List TopEvent)
  | .launch gridX gridY program warpIdOffset =>
    some (g.launchKernel K gridX gridY program warpIdOffset, [.launched])
  | .resume => g.resume K

/-- Launches at any time, and the process taking its turns. -/
def transition : Transition GpgpuTop TopAction TopEvent where
  init g := ∃ memory, g = reset memory
  step := step K

/-- The warps that reached COMPLETE since the latest launch. -/
def completedSince (tr : List TopEvent) : List WarpId :=
  tr.foldl (fun acc e =>
    match e with
    | .launched => []
    | .complete warpId => acc ++ [warpId]
    | .built _ => acc) []

/-- The contexts built in some turns. -/
def builtContexts (events : List TopEvent) : List WarpContext :=
  events.filterMap fun e =>
    match e with
    | .built ctx => some ctx
    | _ => none

/-- The warps of the latest launch. -/
def launchedWarps (g : GpgpuTop) : List WarpId :=
  (List.range g.totalWarps.toNat).map fun i => g.kernelStartWarpId + BitVec.ofNat 32 i

/-- One compute unit with one lane. -/
def oneCu : Config where
  numComputeUnits := 1
  maxWarpsPerCu := 4
  numComputeUnits_pos := by decide
  maxWarpsPerCu_pos := by decide
  cu := ⟨1, ⟨fun _ _ => 0, fun _ _ => 0, fun _ _ => 0, fun _ _ _ => 0⟩⟩
  threadsPerWarp_pos := by decide
  threadsPerWarp_le := by decide

def emptyMemory : MemoryHierarchy :=
  ⟨16384, fun _ => none, fun _ => none, fun _ => none, fun _ => none, 0, 0, 0, 0⟩

end GpgpuTop

end RiscvGpgpu.Golden
