import RiscvGpgpu.Host.Loader
import RiscvGpgpu.Lib.Calls

/-!
# The host API

`host_api.cpp` without an FPGA. The transpiler and the installed backend are parameters of each
launch: what the one makes of a PTX source, and what the other returns or throws for a launch and an
ELF image.
-/

namespace RiscvGpgpu.Host

/-- How a C++ call ends. -/
inductive Outcome (α : Type) where
  | returned (a : α)
  | exception (what : String)
  | unknownException

structure RiscvElf where
  bytes : List Golden.Byte
  entrySymbol : String
  ok : Bool
  error : String

/-- The flag that a backend returns and the error it leaves. -/
abbrev KernelExecutionBackend :=
  KernelLaunchArgs → List Golden.Byte → Outcome (Bool × String)

/-- What a launch uses of its surroundings. -/
structure Environment where
  compile : String → Outcome RiscvElf
  backend : Option KernelExecutionBackend

structure HostState where
  stagedArgs : List (BitVec 64)
  registeredPtx : String → Option String
  requiredPtx : String → Bool
  lastError : String
  execution : KernelExecution

/-- The arguments of `gpgpuLaunchKernel`. -/
structure LaunchCall where
  kernelName : String
  gridX : BitVec 32
  gridY : BitVec 32
  gridZ : BitVec 32
  blockX : BitVec 32
  blockY : BitVec 32
  blockZ : BitVec 32
  args : List (BitVec 64)
  sharedMemBytes : BitVec 32

namespace HostState

def init : HostState where
  stagedArgs := []
  registeredPtx := fun _ => none
  requiredPtx := fun _ => false
  lastError := ""
  execution := ⟨default, false, .idle⟩

def failHostOperation (error : String) (s : HostState) : Bool × HostState :=
  (false, { s with lastError := error })

/-! ## Staging and registration -/

def setKernelArgument (value : BitVec 64) (s : HostState) : Bool × HostState :=
  (true, { s with stagedArgs := s.stagedArgs ++ [value] })

def clearKernelArguments (s : HostState) : Bool × HostState :=
  (true, { s with stagedArgs := [] })

def gpgpuRegisterPtx (kernelName ptxSource : String) (s : HostState) : Bool × HostState :=
  if kernelName = "" then s.failHostOperation "PTX kernel name must not be empty"
  else if ptxSource = "" then s.failHostOperation "PTX source must not be empty"
  else (true, { s with
    registeredPtx := Function.update s.registeredPtx kernelName (some ptxSource)
    lastError := "" })

def gpgpuUnregisterPtx (kernelName : String) (s : HostState) : Bool × HostState :=
  if (s.registeredPtx kernelName).isNone then
    s.failHostOperation ("PTX kernel is not registered: " ++ kernelName)
  else (true, { s with
    registeredPtx := Function.update s.registeredPtx kernelName none
    lastError := "" })

def gpgpuRequireRegisteredPtx (kernelName : String) (required : Bool) (s : HostState) :
    Bool × HostState :=
  if kernelName = "" then (false, s)
  else (true, { s with requiredPtx := Function.update s.requiredPtx kernelName required })

/-! ## Launching -/

/-- `launch` as it is filled in before the PTX is looked up. -/
def launchArgs (c : LaunchCall) (s : HostState) : KernelLaunchArgs where
  kernelName := c.kernelName
  entrySymbol := ""
  gridX := c.gridX
  gridY := c.gridY
  gridZ := c.gridZ
  blockX := c.blockX
  blockY := c.blockY
  blockZ := c.blockZ
  args := if c.args.isEmpty then s.stagedArgs else c.args
  sharedMemBytes := c.sharedMemBytes

/-- `g_staged_args.clear()` and the failing return after it. -/
def clearAndFail (error : String) (s : HostState) : Bool × HostState :=
  failHostOperation error { s with stagedArgs := [] }

/-- The exits after a compilation that gives no usable image. -/
def failCompilation (launch : KernelLaunchArgs) (error : String) (s : HostState) :
    Bool × HostState :=
  let configured := (KernelExecution.configureLaunch launch).2
  clearAndFail error { s with execution := (configured.finishKernelExecution false).2 }

/-- No PTX is registered under the name. -/
def launchUnregistered (launch : KernelLaunchArgs) (s : HostState) : Bool × HostState :=
  if s.requiredPtx launch.kernelName then
    s.failHostOperation ("Required PTX source is not registered: " ++ launch.kernelName)
  else
    let (ok, configured) := KernelExecution.configureLaunch launch
    if !ok then failHostOperation "Failed to configure kernel launch" { s with
      execution := configured }
    else
      let (ok, started) := configured.startKernel
      if !ok then failHostOperation "Failed to start kernel" { s with execution := started }
      else (true, { s with stagedArgs := [], execution := started })

/-- What the backend leaves in `executed` and in `backend_error`. -/
def runBackend (backend : KernelExecutionBackend) (launch : KernelLaunchArgs)
    (bytes : List Golden.Byte) : Bool × String :=
  match backend launch bytes with
  | .returned r => r
  | .exception what => (false, "Kernel execution backend exception: " ++ what)
  | .unknownException => (false, "Kernel execution backend raised an unknown exception")

/-- The image is usable: `launch` has its entry symbol. -/
def launchImage (backend : Option KernelExecutionBackend) (launch : KernelLaunchArgs)
    (bytes : List Golden.Byte) (s : HostState) : Bool × HostState :=
  let (ok, configured) := KernelExecution.configureLaunch launch
  if !ok then clearAndFail "Failed to configure transpiled kernel launch" { s with
    execution := configured }
  else match backend with
  | none => clearAndFail "No kernel execution backend is installed" { s with
      execution := (configured.finishKernelExecution false).2 }
  | some backend =>
    let (ok, running) := configured.beginKernelExecution
    if !ok then clearAndFail "Failed to begin transpiled kernel execution" { s with
      execution := running }
    else
      let (executed, backendError) := runBackend backend launch bytes
      let finished := { s with
        execution := (running.finishKernelExecution executed).2
        stagedArgs := [] }
      if !executed then
        failHostOperation
          (if backendError = "" then "Kernel execution backend failed" else backendError) finished
      else (true, finished)

/-- A PTX source is registered under the name. -/
def launchRegistered (env : Environment) (source : String) (launch : KernelLaunchArgs)
    (s : HostState) : Bool × HostState :=
  match env.compile source with
  | .exception what => s.failCompilation launch ("PTX compilation exception: " ++ what)
  | .unknownException =>
    s.failCompilation launch "PTX compilation raised an unknown exception"
  | .returned elf =>
    if !elf.ok then
      s.failCompilation launch (if elf.error = "" then "PTX compilation failed" else elf.error)
    else if elf.bytes.isEmpty || elf.entrySymbol = "" then
      s.failCompilation launch "PTX compilation produced an incomplete ELF image"
    else if elf.entrySymbol ≠ launch.kernelName then
      s.failCompilation launch
        ("Registered kernel name does not match PTX entry symbol: " ++ elf.entrySymbol)
    else
      s.launchImage env.backend { launch with entrySymbol := elf.entrySymbol } elf.bytes

def gpgpuLaunchKernel (env : Environment) (c : LaunchCall) (s : HostState) : Bool × HostState :=
  let s := { s with lastError := "" }
  if c.kernelName = "" then s.failHostOperation "Kernel name must not be empty"
  else if c.gridX = 0 ∨ c.gridY = 0 ∨ c.gridZ = 0 ∨ c.blockX = 0 ∨ c.blockY = 0 ∨ c.blockZ = 0 then
    s.failHostOperation "Grid and block dimensions must be greater than zero"
  else match s.registeredPtx c.kernelName with
  | none => s.launchUnregistered (s.launchArgs c)
  | some source => s.launchRegistered env source (s.launchArgs c)

def gpgpuSynchronize (s : HostState) : Bool × HostState :=
  (s.execution.pollKernelCompletion, s)

end HostState

/-! ## Sequences of calls -/

inductive HostCall where
  | setKernelArgument (value : BitVec 64)
  | clearKernelArguments
  | gpgpuRegisterPtx (kernelName ptxSource : String)
  | gpgpuUnregisterPtx (kernelName : String)
  | gpgpuRequireRegisteredPtx (kernelName : String) (required : Bool)
  | gpgpuLaunchKernel (env : Environment) (c : LaunchCall)
  | gpgpuSynchronize

def HostCall.step : HostCall → HostState → Bool × HostState
  | .setKernelArgument value => HostState.setKernelArgument value
  | .clearKernelArguments => HostState.clearKernelArguments
  | .gpgpuRegisterPtx kernelName ptxSource => HostState.gpgpuRegisterPtx kernelName ptxSource
  | .gpgpuUnregisterPtx kernelName => HostState.gpgpuUnregisterPtx kernelName
  | .gpgpuRequireRegisteredPtx kernelName required =>
    HostState.gpgpuRequireRegisteredPtx kernelName required
  | .gpgpuLaunchKernel env c => HostState.gpgpuLaunchKernel env c
  | .gpgpuSynchronize => HostState.gpgpuSynchronize

/-- The state of the host after calls made since the start of the program. -/
abbrev HostCall.after (cs : List HostCall) : HostState := Calls.after HostCall.step .init cs

end RiscvGpgpu.Host
