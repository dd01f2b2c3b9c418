import RiscvGpgpu.Bridge.ElfLoader
import RiscvGpgpu.Bridge.Workers
import RiscvGpgpu.Host.Loader

/-!
# The kernel bridge

`KernelBridge::runOnHardware`: the image and the device buffers are written to a simulated memory,
the workers take steps in one of two loops, and the buffers are read back. The loops end by
themselves or not at all: they get a number of turns, and a result of `none` says that these are
used up, or that the program's behaviour is undefined. A trace of what the loops do with the units
is kept beside the program's own state.
-/

namespace RiscvGpgpu.Bridge

open Golden (Address BlockId Byte MemoryHierarchy HostFloat BinaryUnit RV32Instr)
open Host (DeviceMemory KernelExecution)

/-! ## Steps -/

/-- What a loop does with the units. -/
inductive Event where
  /-- `step` of a worker, with the instruction that it executes, if it executes one. -/
  | step (i : ℕ) (instr : Option RV32Instr)
  /-- `releaseBarrier` of every active worker of a block. -/
  | release (blockId : BlockId) (barrierId : Word)
  /-- `active = false`. -/
  | retire (i : ℕ)

/-- An event, with the workers before and after it. -/
structure Moment where
  before : List Worker
  event : Event
  after : List Worker

structure Simulation where
  mem : MemoryHierarchy
  /-- The workers in the order they are made. -/
  workers : List Worker
  trace : List Moment

namespace Simulation

variable (F : HostFloat) (L : Launch) (s : Simulation)

/-- The workers after an event, which goes to the trace. -/
def record (event : Event) (workers : List Worker) : Simulation :=
  { s with workers := workers, trace := s.trace ++ [⟨s.workers, event, workers⟩] }

/-- The step of one worker, with its context put at the context symbol first. -/
def stepWorker (i : ℕ) : Option Simulation := do
  let w ← s.workers[i]?
  let mem := match L.contextSymbol with
    | some address => s.mem.writeBytes (address.setWidth 64) w.cudaThreadCtx.bytes 0
    | none => s.mem
  let instr := w.cu.executes mem
  let (cu, mem) ← w.cu.step F mem
  some ({ s with mem := mem }.record (.step i instr) (s.workers.set i { w with cu := cu }))

/-- `arrived`. -/
def arrived (blockId : BlockId) (barrierId : Word) : ℕ :=
  s.workers.countP fun w =>
    w.active && w.blockId == blockId && w.cu.isBlocked && w.cu.barrierId == barrierId

def releaseBlock (blockId : BlockId) (barrierId : Word) : Simulation :=
  s.record (.release blockId barrierId) (s.workers.map fun w =>
    if w.active && w.blockId == blockId then { w with cu := (w.cu.releaseBarrier barrierId).2 }
    else w)

def retire (i : ℕ) : Simulation :=
  s.record (.retire i) (s.workers.modify i fun w => { w with active := false })

/-- The block of a worker that is blocked is released if all its threads are at the barrier. -/
def releaseIfComplete (w : Worker) : Bool × Simulation :=
  if s.arrived w.blockId w.cu.barrierId = L.threadsPerBlock.toNat then
    (true, s.releaseBlock w.blockId w.cu.barrierId)
  else (false, s)

end Simulation

/-! ## The scalar loop -/

section Scalar

variable (F : HostFloat) (L : Launch) (activeUnits : ℕ)

structure ScalarTurn where
  sim : Simulation
  selected : ℕ
  anyActive : Bool
  madeProgress : Bool

/-- What a turn does with one worker. -/
def scalarVisit (t : ScalarTurn) (i : ℕ) : Option ScalarTurn := do
  let w ← t.sim.workers[i]?
  if !w.active then some t
  else if w.cu.isBlocked then some { t with anyActive := true }
  else
    let sim ← t.sim.stepWorker F L i
    let w ← sim.workers[i]?
    let sim := if w.cu.isBlocked then (sim.releaseIfComplete L w).2 else sim
    let sim := if w.cu.isComplete then sim.retire i else sim
    some ⟨sim, t.selected + 1, true, true⟩

/-- The workers of a list, until enough of them are selected. -/
def scalarScan : List ℕ → ScalarTurn → Option ScalarTurn
  | [], t => some t
  | i :: is, t =>
    if t.selected < activeUnits then (scalarVisit F L t i).bind (scalarScan is) else some t

/-- One turn of the loop, from the place of the cursor on. -/
def scalarTurn (workerCursor : ℕ) (sim : Simulation) : Option ScalarTurn :=
  let totalWorkers := sim.workers.length
  scalarScan F L activeUnits
    ((List.range totalWorkers).map fun scanned => (workerCursor + scanned) % totalWorkers)
    ⟨sim, 0, false, false⟩

/-- The loop, for a number of turns. The flag is false where it reports a deadlock. -/
def scalarLoop : ℕ → ℕ → Simulation → Option (Bool × Simulation)
  | 0, _, _ => none
  | turns + 1, workerCursor, sim => do
    let t ← scalarTurn F L activeUnits workerCursor sim
    let totalWorkers := sim.workers.length
    let workerCursor :=
      if 0 < totalWorkers then (workerCursor + activeUnits) % totalWorkers else workerCursor
    if !t.anyActive then some (true, t.sim)
    else if !t.madeProgress then some (false, t.sim)
    else scalarLoop turns workerCursor t.sim

end Scalar

/-- `active_units`. -/
def activeUnits (C : Config) (workers : ℕ) : ℕ := max 1 (min C.numComputeUnits.toNat workers)

/-! ## The lockstep loop -/

/-- A warp group, with the places of its workers among all of them. -/
structure WarpGroup where
  threads : List ℕ
  active : Bool

section Warps

variable (F : HostFloat) (L : Launch)

structure WarpTurn where
  sim : Simulation
  madeProgress : Bool

/-- First part of a group's turn: each thread that can takes a step. -/
def warpStep (t : WarpTurn) (i : ℕ) : Option WarpTurn := do
  let w ← t.sim.workers[i]?
  if w.active && !w.cu.isComplete && !w.cu.isBlocked then
    let sim ← t.sim.stepWorker F L i
    some ⟨sim, true⟩
  else some t

/-- Second part: barriers. -/
def warpRelease (t : WarpTurn) (i : ℕ) : Option WarpTurn := do
  let w ← t.sim.workers[i]?
  if !w.active || !w.cu.isBlocked then some t
  else
    let (released, sim) := t.sim.releaseIfComplete L w
    some ⟨sim, t.madeProgress || released⟩

/-- Third part: threads that are complete. The flag is `all_done`. -/
def warpRetire (t : Simulation × Bool) (i : ℕ) : Option (Simulation × Bool) := do
  let w ← t.1.workers[i]?
  if !w.active then some t
  else if w.cu.isComplete then some (t.1.retire i, t.2)
  else some (t.1, false)

def warpGroupTurn (t : WarpTurn) (wg : WarpGroup) : Option (WarpTurn × WarpGroup) := do
  let t ← wg.threads.foldlM (warpStep F L) t
  let t ← wg.threads.foldlM (warpRelease L) t
  let (sim, allDone) ← wg.threads.foldlM warpRetire (t.sim, true)
  some (⟨sim, t.madeProgress⟩, { wg with active := !allDone })

/-- One turn of the loop: the groups that are active. -/
def warpTurn : List WarpGroup → WarpTurn → Option (WarpTurn × List WarpGroup)
  | [], t => some (t, [])
  | wg :: wgs, t =>
    if !wg.active then do
      let (t, wgs) ← warpTurn wgs t
      some (t, wg :: wgs)
    else do
      let (t, wg) ← warpGroupTurn F L t wg
      let (t, wgs) ← warpTurn wgs t
      some (t, wg :: wgs)

/-- The loop, for a number of turns. The flag is false where it reports a deadlock. -/
def warpLoop : ℕ → List WarpGroup → Simulation → Option (Bool × Simulation)
  | 0, _, _ => none
  | turns + 1, wgs, sim => do
    let anyActive := wgs.any WarpGroup.active
    let (t, wgs) ← warpTurn F L wgs ⟨sim, false⟩
    if !anyActive then some (true, t.sim)
    else if !t.madeProgress then some (false, t.sim)
    else warpLoop turns wgs t.sim

end Warps

/-- The places of groups of these sizes, one group behind the other. -/
def groupPlaces : ℕ → List ℕ → List (List ℕ)
  | _, [] => []
  | first, n :: ns => (List.range n).map (first + ·) :: groupPlaces (first + n) ns

/-! ## The run -/

/-- The arguments of `runOnHardware`. -/
structure Request where
  kernelName : String
  binaryPath : String
  kernelArgs : List (BitVec 64)
  devicePtrs : List Address

/-- `STACK_TOP`. -/
def stackTop : Word := 0x20000000

def nameBytes (name : String) : List Byte := name.toUTF8.toList.map fun b => BitVec.ofNat 8 b.toNat

section Run

variable (F : HostFloat) (C : Config) (files : String → Option (List Byte))
  (execution : KernelExecution) (req : Request)

/-- `use_launch_args`. -/
def useLaunchArgs : Bool :=
  execution.launchConfigured && execution.launchArgs.kernelName == req.kernelName

/-- The device buffers in the simulated memory. -/
def mapBuffers (d : DeviceMemory) : List Address → MemoryHierarchy → Except String MemoryHierarchy
  | [], mem => .ok mem
  | devPtr :: devPtrs, mem =>
    match d.getDeviceBufferContent devPtr with
    | none => .error ("Device buffer not found: " ++ toString devPtr.toNat)
    | some content => mapBuffers d devPtrs (mem.writeBytes devPtr content 0)

/-- The registers with the arguments in `a0` to `a7`, from argument `i` on. -/
def setArguments : ℕ → List (BitVec 64) → LaneRegs → Except String LaneRegs
  | _, [], regs => .ok regs
  | i, arg :: args, regs =>
    if arg >>> 32 ≠ 0 then .error ("Kernel argument " ++ toString i ++ " does not fit RV32")
    else setArguments (i + 1) args
      (Function.update regs (Fin.ofNat 32 (10 + i)) (arg.setWidth 32))

/-- Shared memory for the blocks of a list. -/
def allocateBlocks (sharedMemBytes : BitVec 32) :
    List ℕ → MemoryHierarchy → Except String MemoryHierarchy
  | [], mem => .ok mem
  | b :: bs, mem =>
    match mem.allocateSharedMemory (BitVec.ofNat 32 b) sharedMemBytes with
    | (true, mem) => allocateBlocks sharedMemBytes bs mem
    | (false, _) => .error ("Failed to allocate shared memory for block " ++ toString b)

/-- The launch, with its entry point and registers. -/
def makeLaunch (elf : ElfLoader) (regs : LaneRegs) : Launch :=
  let args := execution.launchArgs
  let use := useLaunchArgs execution req
  let entryName := if use && args.entrySymbol != "" then args.entrySymbol else req.kernelName
  { grid := if use then ⟨args.gridX, args.gridY, args.gridZ⟩ else ⟨1, 1, 1⟩
    block := if use then ⟨args.blockX, args.blockY, args.blockZ⟩ else ⟨1, 1, 1⟩
    entryPc := match elf.findSymbol (nameBytes entryName) with
      | some sym => sym.address
      | none => elf.entryPoint
    regs := Function.update (Function.update regs 2 stackTop) 1 returnSentinel
    contextSymbol :=
      (elf.findSymbol (nameBytes "__gpgpu_thread_context")).map SymbolEntry.address }

/-- `shared_mem_bytes`. -/
def sharedMemBytes : BitVec 32 :=
  if useLaunchArgs execution req then execution.launchArgs.sharedMemBytes else C.sharedMemSize

/-- The set-up after the image is loaded. -/
def prepare (d : DeviceMemory) (elf : ElfLoader) (mem : MemoryHierarchy) :
    Except String (Launch × MemoryHierarchy) :=
  match mapBuffers d req.devicePtrs mem with
  | .error e => .error e
  | .ok mem =>
    if 8 < req.kernelArgs.length then .error "RV32 ABI supports at most 8 kernel arguments"
    else match setArguments 0 req.kernelArgs fun _ => 0 with
      | .error e => .error e
      | .ok regs =>
        let launch := makeLaunch execution req elf regs
        if C.sharedMemSize < sharedMemBytes C execution req then
          .error "Requested shared memory exceeds configured capacity"
        else match allocateBlocks (sharedMemBytes C execution req)
            (List.range launch.totalBlocks.toNat) mem with
          | .error e => .error e
          | .ok mem => .ok (launch, mem)

/-- Everything before the workers are made. -/
def setUp (d : DeviceMemory) : Option (Except String (Launch × MemoryHierarchy)) :=
  match files req.binaryPath with
  | none => some (.error ("Failed to load ELF: " ++ req.binaryPath))
  | some image =>
    if !ElfLoader.acceptsImage image then
      some (.error ("Failed to load ELF: " ++ req.binaryPath))
    else (ElfLoader.load image (.init C.sharedMemSize)).map fun (elf, mem) =>
      prepare C execution req d elf mem

/-- The workers, and the loop that `warp_size` asks for. -/
def execute (turns : ℕ) (L : Launch) (mem : MemoryHierarchy) :
    Option (Except String Simulation) :=
  if 1 < L.warpSize C then do
    let (groups, mem) ← makeWarpGroups C L mem
    let wgs := (groupPlaces 0 (groups.map List.length)).map fun threads => ⟨threads, true⟩
    let (finished, sim) ← warpLoop F L turns wgs ⟨mem, groups.flatten, []⟩
    some (if finished then .ok sim else .error "Barrier deadlock in warp scheduler")
  else do
    let (workers, mem) ← makeScalarWorkers C L mem
    let (finished, sim) ←
      scalarLoop F L (activeUnits C workers.length) turns 0 ⟨mem, workers, []⟩
    some (if finished then .ok sim else .error "Barrier deadlock in scalar scheduler")

/-- The shared memory of the blocks is released after the loop. -/
def releaseBlocks (L : Launch) (mem : MemoryHierarchy) : MemoryHierarchy :=
  (List.range L.totalBlocks.toNat).foldl (fun mem b =>
    mem.releaseSharedMemory (BitVec.ofNat 32 b)) mem

/-- The results back in the device buffers. -/
def copyBack (mem : MemoryHierarchy) :
    List Address → DeviceMemory → Except String Unit × DeviceMemory
  | [], d => (.ok (), d)
  | devPtr :: devPtrs, d =>
    let sz := d.getDeviceBufferSize devPtr
    if sz = 0 then copyBack mem devPtrs d
    else match d.setDeviceBufferContent devPtr (mem.readBytes devPtr sz 0) with
      | (true, d) => copyBack mem devPtrs d
      | (false, d) =>
        (.error ("Failed to write results to device buffer " ++ toString devPtr.toNat), d)

/-- `runOnHardware`. An error is `last_error_`, and the call returns false then. -/
def runOnHardware (turns : ℕ) (d : DeviceMemory) : Option (Except String Unit × DeviceMemory) := do
  match ← setUp C files execution req d with
  | .error e => some (.error e, d)
  | .ok (L, mem) =>
    match ← execute F C turns L mem with
    | .error e => some (.error e, d)
    | .ok sim => some (copyBack (releaseBlocks L sim.mem) req.devicePtrs d)

end Run

/-! ## Small programs -/

/-- A host that computes no floats. -/
def noFloat : HostFloat where
  add := fun _ _ => 0
  sub := fun _ _ => 0
  mul := fun _ _ => 0
  div := fun _ _ => 0
  sqrt := fun _ => 0
  mulAdd := fun _ _ _ => 0
  mulSub := fun _ _ _ => 0
  negMulAdd := fun _ _ _ => 0
  negMulSub := fun _ _ _ => 0
  eq := fun _ _ => false
  lt := fun _ _ => false
  le := fun _ _ => false
  toInt32 := fun _ => none
  toUint32 := fun _ => none
  ofInt32 := fun _ => 0
  ofUint32 := fun _ => 0

/-- An image without symbols that loads a few instructions at its entry point 0x10000. -/
def imageOf (code : List Byte) : List Byte :=
  Host.elfMagic ++ [Host.elfClass32] ++ List.replicate 19 0 ++ [0, 0, 1, 0] ++ [52, 0, 0, 0] ++
    List.replicate 10 0 ++ [32, 0, 1, 0] ++ List.replicate 6 0 ++
    [1, 0, 0, 0] ++ [84, 0, 0, 0] ++ [0, 0, 1, 0] ++ [0, 0, 1, 0] ++
    wordBytes (BitVec.ofNat 32 code.length) ++ wordBytes (BitVec.ofNat 32 code.length) ++
    List.replicate 8 0 ++ code

/-- One unit, scalar threads and no shared memory. -/
def oneUnit : Config where
  numComputeUnits := 1
  threadsPerWarp := 1
  sharedMemSize := 0
  maxSimCycles := 1000

/-- The driver before any launch. -/
def noLaunch : KernelExecution := ⟨default, false, .idle⟩

end RiscvGpgpu.Bridge
