import RiscvGpgpu.Bridge.ThreadContexts
import RiscvGpgpu.Golden.BinaryUnit

/-!
# The workers of the kernel bridge

One compute unit for each thread of a launch, with the thread's place in its block and grid, made in
the order of the scalar loop or in the warp groups of the lockstep loop. Counts and ids are 32 bits
wide. A result of `none` is undefined behaviour: a division by a product that has wrapped to zero.
-/

namespace RiscvGpgpu.Bridge

open Golden (Address BlockId Byte MemoryHierarchy BinaryUnit)

/-- The fields of `KernelBridge::Config` that a run depends on. -/
structure Config where
  numComputeUnits : BitVec 32
  threadsPerWarp : BitVec 32
  sharedMemSize : BitVec 32
  maxSimCycles : BitVec 32

/-- What the set-up leaves to the loops. -/
structure Launch where
  /-- `effective_grid_x`, `_y` and `_z`. -/
  grid : Dim3
  /-- `effective_block_x`, `_y` and `_z`. -/
  block : Dim3
  entryPc : Word
  regs : LaneRegs
  /-- The address of `__gpgpu_thread_context`, if the image has that symbol. -/
  contextSymbol : Option Word

/-- `RETURN_SENTINEL`. -/
def returnSentinel : Word := 1

/-- `THREAD_CTX_BASE`. -/
def threadCtxBase : Word := 0x00200000

/-- `THREAD_CTX_STRIDE`. -/
def threadCtxStride : Word := 64

/-- `STACK_BASE`. -/
def stackBase : Word := 0x30000000

/-- `STACK_STRIDE`. -/
def stackStride : Word := 0x00010000

/-! ## Threads and warps -/

/-- The number of places, as the bridge computes it. -/
def Dim3.count (e : Dim3) : BitVec 32 :=
  Bridge.atLeastOne (e.x * Bridge.atLeastOne e.y * Bridge.atLeastOne e.z)

namespace Launch

variable (L : Launch)

def totalBlocks : BitVec 32 := L.grid.count

def threadsPerBlock : BitVec 32 := L.block.count

def totalThreads : BitVec 32 := L.totalBlocks * L.threadsPerBlock

/-- `warp_size`; the warps run in lockstep if it is not 1. -/
def warpSize (C : Config) : BitVec 32 :=
  if 1 < C.threadsPerWarp ∧ 1 < L.threadsPerBlock then
    if L.threadsPerBlock < C.threadsPerWarp then L.threadsPerBlock else C.threadsPerWarp
  else 1

def warpsPerBlock (warpSize : BitVec 32) : BitVec 32 :=
  (L.threadsPerBlock + warpSize - 1) / warpSize

def totalWarps (warpSize : BitVec 32) : BitVec 32 := L.totalBlocks * L.warpsPerBlock warpSize

/-- The ids for which `makeWarpGroup` makes workers. -/
def warpThreads (warpSize warpIdx : BitVec 32) : List (BitVec 32) :=
  let blockId := warpIdx / L.warpsPerBlock warpSize
  let localBase := warpIdx % L.warpsPerBlock warpSize * warpSize
  ((List.range warpSize.toNat).takeWhile fun t =>
    localBase + BitVec.ofNat 32 t < L.threadsPerBlock).map fun t =>
      blockId * L.threadsPerBlock + localBase + BitVec.ofNat 32 t

end Launch

/-- A word as its bytes in memory. -/
def wordBytes (w : Word) : List Byte :=
  [w.setWidth 8, (w >>> 8).setWidth 8, (w >>> 16).setWidth 8, (w >>> 24).setWidth 8]

def Dim3.bytes (e : Dim3) : List Byte := wordBytes e.x ++ wordBytes e.y ++ wordBytes e.z

structure CudaThreadCtx where
  tid : Dim3
  ctaid : Dim3
  ntid : Dim3
  nctaid : Dim3
deriving DecidableEq

namespace CudaThreadCtx

variable (ctx : CudaThreadCtx)

/-- `thread_ctx`, the nine words that a thread finds through `gp`. -/
def threadCtx : List Byte := ctx.tid.bytes ++ ctx.ctaid.bytes ++ ctx.ntid.bytes

/-- `cuda_thread_ctx`. -/
def bytes : List Byte := ctx.threadCtx ++ ctx.nctaid.bytes

end CudaThreadCtx

structure Worker where
  /-- `unit_id` of the compute unit. -/
  unitId : BitVec 32
  cu : BinaryUnit
  blockId : BlockId
  threadId : BitVec 32
  active : Bool
  cudaThreadCtx : CudaThreadCtx

section Workers

variable (C : Config) (L : Launch)

/-- The context slot of a thread. -/
def ctxBase (globalThreadId : BitVec 32) : Word := threadCtxBase + globalThreadId * threadCtxStride

/-- The top of a thread's stack. -/
def stackPointer (globalThreadId : BitVec 32) : Word :=
  stackBase + globalThreadId * stackStride + (stackStride - 16)

/-- The worker that `makeWorker` returns. -/
def worker (globalThreadId : BitVec 32) : Worker where
  unitId := globalThreadId
  cu := {
    pc := L.entryPc
    returnSentinel := returnSentinel
    halted := false
    blocked := false
    regs := Function.update (Function.update (Function.update L.regs 3 (ctxBase globalThreadId)) 2
      (stackPointer globalThreadId)) 0 0
    fregs := fun _ => 0
    blockId := globalThreadId / L.threadsPerBlock
    barrierId := 0
    totalCycles := 0
    totalInstructions := 0
    maxCycles := C.maxSimCycles }
  blockId := globalThreadId / L.threadsPerBlock
  threadId := globalThreadId % L.threadsPerBlock
  active := true
  cudaThreadCtx := {
    tid := L.block.atLeastOne.place (globalThreadId % L.threadsPerBlock)
    ctaid := L.grid.atLeastOne.place (globalThreadId / L.threadsPerBlock)
    ntid := L.block.atLeastOne
    nctaid := L.grid.atLeastOne }

/-- `makeWorker`, with the context written to the memory. -/
def makeWorker (globalThreadId : BitVec 32) (mem : MemoryHierarchy) :
    Option (Worker × MemoryHierarchy) :=
  let block := L.block.atLeastOne
  let grid := L.grid.atLeastOne
  if block.x * block.y = 0 ∨ grid.x * grid.y = 0 then none
  else
    let w := worker C L globalThreadId
    some (w, mem.writeBytes ((ctxBase globalThreadId).setWidth 64) w.cudaThreadCtx.threadCtx 0)

def makeWorkers : List (BitVec 32) → MemoryHierarchy → Option (List Worker × MemoryHierarchy)
  | [], mem => some ([], mem)
  | id :: ids, mem => do
    let (w, mem) ← makeWorker C L id mem
    let (ws, mem) ← makeWorkers ids mem
    some (w :: ws, mem)

/-- The workers of the scalar loop. -/
def makeScalarWorkers (mem : MemoryHierarchy) : Option (List Worker × MemoryHierarchy) :=
  makeWorkers C L ((List.range L.totalThreads.toNat).map (BitVec.ofNat 32)) mem

def makeWarpGroupsFrom (warpSize : BitVec 32) :
    List ℕ → MemoryHierarchy → Option (List (List Worker) × MemoryHierarchy)
  | [], mem => some ([], mem)
  | i :: is, mem => do
    let (ws, mem) ← makeWorkers C L (L.warpThreads warpSize (BitVec.ofNat 32 i)) mem
    let (gs, mem) ← makeWarpGroupsFrom warpSize is mem
    some (ws :: gs, mem)

/-- The workers of the lockstep loop, by warp group. -/
def makeWarpGroups (mem : MemoryHierarchy) : Option (List (List Worker) × MemoryHierarchy) :=
  makeWarpGroupsFrom C L (L.warpSize C) (List.range (L.totalWarps (L.warpSize C)).toNat) mem

end Workers

end RiscvGpgpu.Bridge
