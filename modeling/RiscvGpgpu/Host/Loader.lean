import RiscvGpgpu.Golden.MemoryHierarchy

/-!
# The simulated driver

`loader.cpp` without an FPGA: the device buffers, bump-allocated and never reused, and the launch
that is configured, begun and finished. A call that throws a C++ exception returns nothing.
-/

namespace RiscvGpgpu.Host

open Golden (Address Byte)

structure KernelLaunchArgs where
  kernelName : String
  entrySymbol : String
  gridX : BitVec 32
  gridY : BitVec 32
  gridZ : BitVec 32
  blockX : BitVec 32
  blockY : BitVec 32
  blockZ : BitVec 32
  args : List (BitVec 64)
  sharedMemBytes : BitVec 32
deriving DecidableEq, Inhabited

/-! ## Execution state -/

inductive ExecState where
  | idle
  | configured
  | running
  | completed
  | failed
deriving DecidableEq

/-- `g_launch_args`, `g_launch_configured` and `g_exec_state`. -/
structure KernelExecution where
  launchArgs : KernelLaunchArgs
  launchConfigured : Bool
  execState : ExecState

namespace KernelExecution

variable (e : KernelExecution)

/-- It overwrites the whole state. -/
def configureLaunch (launchArgs : KernelLaunchArgs) : Bool × KernelExecution :=
  (true, ⟨launchArgs, true, .configured⟩)

def beginKernelExecution : Bool × KernelExecution :=
  if !e.launchConfigured || e.execState ≠ .configured then
    (false, { e with execState := .failed })
  else (true, { e with execState := .running })

def finishKernelExecution (success : Bool) : Bool × KernelExecution :=
  if e.execState ≠ .running ∧ e.execState ≠ .configured then
    (false, { e with execState := .failed })
  else (success, { e with execState := if success then .completed else .failed })

def startKernel : Bool × KernelExecution :=
  if !e.beginKernelExecution.1 then (false, e.beginKernelExecution.2)
  else e.beginKernelExecution.2.finishKernelExecution true

/-- What `pollKernelCompletion` writes to its reference argument. -/
def pollKernelCompletion : Bool := e.execState = .completed

end KernelExecution

/-! ## Device buffers -/

/-- `g_device_buffers` and `g_next_dev_addr`. -/
structure DeviceMemory where
  buffers : Address → Option (List Byte)
  nextDevAddr : Address

/-- The largest `std::vector<uint8_t>`. -/
def maxVectorSize : ℕ := 2 ^ 63 - 1

namespace DeviceMemory

def init : DeviceMemory where
  buffers := fun _ => none
  nextDevAddr := 0x10000000

variable (d : DeviceMemory)

/-- The bytes that an allocation advances the next address by: `((size + 15) / 16) * 16`. -/
def alignedSize (size : BitVec 64) : BitVec 64 := (size + 15) / 16 * 16

/-- The map entry is made before the vector gets its size, and stays empty if that throws. -/
def allocateDeviceBuffer (size : BitVec 64) : Option (Option Address) × DeviceMemory :=
  if size = 0 then (some none, d)
  else
    let devPtr := d.nextDevAddr
    let next := d.nextDevAddr + alignedSize size
    if maxVectorSize < size.toNat then
      (none, ⟨Function.update d.buffers devPtr (some ((d.buffers devPtr).getD [])), next⟩)
    else
      (some (some devPtr),
        ⟨Function.update d.buffers devPtr (some (List.replicate size.toNat 0)), next⟩)

def freeDeviceBuffer (devPtr : Address) : Bool × DeviceMemory :=
  match d.buffers devPtr with
  | none => (false, d)
  | some _ => (true, { d with buffers := Function.update d.buffers devPtr none })

/-- `src` are the bytes that the host passes. -/
def copyHostToDevice (dst : Address) (src : List Byte) : Bool × DeviceMemory :=
  match d.buffers dst with
  | none => (false, d)
  | some bytes =>
    if bytes.length < src.length then (false, d)
    else (true, { d with
      buffers := Function.update d.buffers dst (some (src ++ bytes.drop src.length)) })

/-- The bytes that the host gets, or nothing where the call reports failure. -/
def copyDeviceToHost (src : Address) (size : ℕ) : Option (List Byte) :=
  match d.buffers src with
  | none => none
  | some bytes => if bytes.length < size then none else some (bytes.take size)

def getDeviceBufferContent (devPtr : Address) : Option (List Byte) := d.buffers devPtr

def setDeviceBufferContent (devPtr : Address) (data : List Byte) : Bool × DeviceMemory :=
  match d.buffers devPtr with
  | none => (false, d)
  | some bytes =>
    if data.length ≠ bytes.length then (false, d)
    else (true, { d with buffers := Function.update d.buffers devPtr (some data) })

def getDeviceBufferSize (devPtr : Address) : ℕ :=
  match d.buffers devPtr with
  | none => 0
  | some bytes => bytes.length

end DeviceMemory

end RiscvGpgpu.Host
