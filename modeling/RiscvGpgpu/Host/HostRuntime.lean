import RiscvGpgpu.Host.HostApi
import RiscvGpgpu.Host.KernelLoader

/-!
# The bundle of the runtime

`uploadKernelBundle` and `unloadKernelBundle` of `host_runtime.cpp`. The runtime remembers one
current bundle; a PTX bundle is registered with the host API, where the user registers sources too.
-/

namespace RiscvGpgpu.Host

/-- The variables `current_*`. -/
structure CurrentBundle where
  kernelName : List Char := []
  binaryPath : List Char := []
  entrySymbol : List Char := []
  binarySize : BitVec 64 := 0
  kernelLoaded : Bool := false
  workgroupX : BitVec 32 := 1
  workgroupY : BitVec 32 := 1
  workgroupZ : BitVec 32 := 1
  sharedMemBytes : BitVec 64 := 0
  format : KernelBundleFormat := .elf
  ptxRegistrationOwned : Bool := false

structure RuntimeState where
  host : HostState
  current : CurrentBundle

/-- `loadKernelBinary`; the path it keeps is only printed. -/
def KernelExecution.loadKernelBinary (e : KernelExecution) : Bool × KernelExecution :=
  (true, { e with execState := .idle })

/-- `gpgpuGetRegisteredPtx`. -/
def HostState.gpgpuGetRegisteredPtx (kernelName : String) (s : HostState) : Bool × String :=
  match s.registeredPtx kernelName with
  | some source => (true, source)
  | none => (false, "")

/-- `source.find_first_not_of(" \t\r\n") == npos`. -/
def isBlank (source : List Char) : Bool :=
  source.all fun c => c = ' ' || c = '\t' || c = '\r' || c = '\n'

namespace RuntimeState

/-- No longer required, no longer registered; whether that succeeds is not looked at. -/
def release (kernelName : List Char) (host : HostState) : HostState :=
  let host := (host.gpgpuRequireRegisteredPtx (String.ofList kernelName) false).2
  (host.gpgpuUnregisterPtx (String.ofList kernelName)).2

/-- The end of `uploadKernelBundle`: the old registration goes, the new bundle becomes current. -/
def adopt (info : KernelBundleInfo) (s : RuntimeState) : RuntimeState :=
  let owned := s.current.ptxRegistrationOwned
  let old := s.current.kernelName
  let host := if owned ∧ old ≠ info.kernelName then release old s.host else s.host
  let host := if owned ∧ info.format = .elf then release old host else host
  let current : CurrentBundle :=
    { kernelName := info.kernelName
      binaryPath := info.binaryPath
      entrySymbol := info.entrySymbol
      binarySize := info.binarySize
      kernelLoaded := true
      workgroupX := info.workgroupX
      workgroupY := info.workgroupY
      workgroupZ := info.workgroupZ
      sharedMemBytes := info.sharedMemBytes
      format := info.format
      ptxRegistrationOwned := info.format = .ptx }
  ⟨(host.gpgpuRequireRegisteredPtx (String.ofList current.kernelName)
    current.ptxRegistrationOwned).2, current⟩

def uploadKernelBundle (fs : FileSystem) (manifestPath : Paths.Path) (s : RuntimeState) :
    Bool × RuntimeState :=
  match inspectKernelBundleDetails fs manifestPath with
  | none => (false, s)
  | some info =>
    match info.format with
    | .ptx =>
      match fs.read info.binaryPath with
      | none => (false, s)
      | some source =>
        if isBlank source then (false, s)
        else if (s.host.gpgpuGetRegisteredPtx (String.ofList info.kernelName)).1 = true ∧
            ¬ (s.current.ptxRegistrationOwned ∧ s.current.kernelName = info.kernelName) then
          (false, s)
        else
          let (ok, host) :=
            s.host.gpgpuRegisterPtx (String.ofList info.kernelName) (String.ofList source)
          if !ok then (false, { s with host := host })
          else (true, adopt info { s with host := host })
    | .elf =>
      let (ok, execution) := s.host.execution.loadKernelBinary
      let s := { s with host := { s.host with execution := execution } }
      if !ok then (false, s) else (true, adopt info s)

def unloadKernelBundle (s : RuntimeState) : Bool × RuntimeState :=
  (true, ⟨if s.current.ptxRegistrationOwned then release s.current.kernelName s.host else s.host,
    {}⟩)

end RuntimeState

/-! ## Sequences of calls -/

/-- The file system is as a call finds it. -/
inductive BundleCall where
  | uploadKernelBundle (fs : FileSystem) (manifestPath : Paths.Path)
  | unloadKernelBundle
  | gpgpuRegisterPtx (kernelName ptxSource : String)
  | gpgpuUnregisterPtx (kernelName : String)

inductive Owner where
  | user
  | bundle
deriving DecidableEq

/-- The runtime with what it does not keep: by whom each name was last registered. -/
structure Tracked where
  runtime : RuntimeState
  latest : String → Option Owner

namespace Tracked

def init : Tracked := ⟨⟨.init, {}⟩, fun _ => none⟩

/-- The name of the current bundle. -/
def currentName (t : Tracked) : String := String.ofList t.runtime.current.kernelName

def owned (t : Tracked) : Bool := t.runtime.current.ptxRegistrationOwned

def registered (t : Tracked) (kernelName : String) : Option String :=
  t.runtime.host.registeredPtx kernelName

def required (t : Tracked) (kernelName : String) : Bool :=
  t.runtime.host.requiredPtx kernelName

end Tracked

def BundleCall.step : BundleCall → Tracked → Bool × Tracked
  | .uploadKernelBundle fs manifestPath, t =>
    let r := t.runtime.uploadKernelBundle fs manifestPath
    (r.1, ⟨r.2, if r.1 = true ∧ r.2.current.format = .ptx then
      Function.update t.latest (String.ofList r.2.current.kernelName) (some .bundle) else t.latest⟩)
  | .unloadKernelBundle, t =>
    let r := t.runtime.unloadKernelBundle
    (r.1, ⟨r.2, t.latest⟩)
  | .gpgpuRegisterPtx kernelName ptxSource, t =>
    let r := t.runtime.host.gpgpuRegisterPtx kernelName ptxSource
    (r.1, ⟨{ t.runtime with host := r.2 },
      if r.1 = true then Function.update t.latest kernelName (some .user) else t.latest⟩)
  | .gpgpuUnregisterPtx kernelName, t =>
    let r := t.runtime.host.gpgpuUnregisterPtx kernelName
    (r.1, ⟨{ t.runtime with host := r.2 }, t.latest⟩)

end RiscvGpgpu.Host
