import RiscvGpgpu.Lib.Transition
import RiscvGpgpu.Hls.BarrierArbiter
import RiscvGpgpu.Hls.ComputePipeline

/-!
# The scheduler top

`gpgpu_top.h` and the loop of `compute_pipeline`, for the flat data flow: a `schedulerCore` and a
compute pipeline per CU and one `barrierCoreN`, over their streams. Each process is cut at its
stream operations and at its reads of `start`, so that a step is one operation of one process.
The host drives `start`, the program loader sends its tokens, and the memory takes requests and
gives responses, each at any time.
-/

namespace RiscvGpgpu.Hls

structure StreamDepths where
  dispatch : ℕ
  status : ℕ
  memReq : ℕ
  memResp : ℕ
  barrierEvents : ℕ
  barrierSignal : ℕ
  loaded : ℕ

/-- The depths `gpgpu_scheduler` declares. -/
def StreamDepths.declared (G : GpuSize) : StreamDepths where
  dispatch := 2
  status := 2
  memReq := 2
  memResp := 2
  barrierEvents := G.maxWarpsPerCu
  barrierSignal := 2
  loaded := 1

/-- A build and the arguments of one launch. -/
structure Launch extends GpuSize where
  depths : StreamDepths
  fp : FloatOps
  vectorOps : Bool
  program : Vector RawInstr maxProgramLen
  programLen : Word
  totalWarps : WarpId
  warpIdOffset : WarpId

namespace Launch

variable (L : Launch)

abbrev Cus : Type := Fin L.numCus

def cuId {L : Launch} (c : L.Cus) : CuId := BitVec.ofNat 3 c

def pipelineParams (c : L.Cus) : PipelineParams := ⟨cuId c, L.fp, L.vectorOps⟩

/-- The call of `executeOneWarp` for a dispatch. -/
def execute (c : L.Cus) (d : WarpDispatch) (regs : RegFile) : Interact MemReq MemResp WarpResult :=
  executeOneWarp (L.pipelineParams c) d L.program L.programLen regs

end Launch

/-! ## Processes -/

/-- Where `schedulerCore` stands: at the head of its loop, behind its read of `start`, before its
read of a status, its write of an event and its read of a signal. -/
inductive SchedulerPc where
  | head
  | armed
  | status
  | event (code : WarpStatusCode)
  | signal
  deriving DecidableEq, Repr

structure SchedulerCore where
  pc : SchedulerPc
  slots : Slots
  busyCuScheduler : Bool
  busyCu : Bool

inductive Pipeline where
  | idle
  | running (d : WarpDispatch) (rest : Interact MemReq MemResp WarpResult)
  /-- A request is written, its response not read. -/
  | waiting (d : WarpDispatch) (rest : MemResp → Interact MemReq MemResp WarpResult)

/-- The processes of one CU, its register file and its streams. -/
structure Cu where
  scheduler : SchedulerCore
  pipeline : Pipeline
  regs : SlotId → RegFile
  loaded : ℕ
  dispatch : List WarpDispatch
  status : List WarpStatus
  port : BarrierPort
  memReq : List MemReq
  memResp : List MemResp

/-- What a step does that the launch is about. -/
inductive Event where
  | dispatched (d : WarpDispatch)
  | finished (d : WarpDispatch) (status : WarpStatus)

def Event.warpId : Event → WarpId
  | dispatched d => d.warpId
  | finished d _ => d.warpId

namespace Cu

variable (L : Launch) (c : L.Cus) (cu : Cu)

def setScheduler (scheduler : SchedulerCore) : Cu := { cu with scheduler := scheduler }

/-- The scheduling round up to the write of a dispatch. -/
def dispatchRound : Option (Cu × List Event) :=
  let slot := nextReadySlot L.toGpuSize cu.scheduler.slots
  if !cu.scheduler.busyCu && slot != L.invalidSlot then
    let built := buildDispatch cu.scheduler.slots slot
    (push L.depths.dispatch cu.dispatch built.1).map fun queue =>
      ({ cu with
          dispatch := queue
          scheduler := { cu.scheduler with slots := built.2, busyCu := true, pc := .status } },
        [.dispatched built.1])
  else some (cu.setScheduler { cu.scheduler with pc := .status }, [])

def readStatus : Cu :=
  match cu.status with
  | [] => cu.setScheduler { cu.scheduler with pc := .signal }
  | status :: rest =>
    { cu with
      status := rest
      scheduler := { cu.scheduler with
        slots := recordResult cu.scheduler.slots status.slotId status
        pc := .event status.code } }

def setEvents (events : List WarpStatusCode) : Cu :=
  { cu with port := { cu.port with events := events } }

def readSignal : Cu :=
  match cu.port.signals with
  | [] => cu.setScheduler { cu.scheduler with pc := .head }
  | signal :: rest =>
    { cu with
      port := { cu.port with signals := rest }
      scheduler := { cu.scheduler with
        slots := if signal.release then releaseBarrierSlots L.toGpuSize cu.scheduler.slots
          else cu.scheduler.slots
        busyCuScheduler := cu.scheduler.busyCuScheduler && !signal.kernelDone
        pc := .head } }

/-- One step of `schedulerCore`. -/
def schedulerStep (start : Bool) : Option (Cu × List Event) :=
  let core := cu.scheduler
  match core.pc with
  | .head =>
    if core.busyCuScheduler then cu.dispatchRound L
    else if start && !decide (BitVec.ofNat 32 L.capacity < L.totalWarps) then
      some (cu.setScheduler { core with pc := .armed }, [])
    else some (cu, [])
  | .armed =>
    match cu.loaded with
    | 0 => some (cu.setScheduler { core with pc := .head }, [])
    | n + 1 =>
      some ({ cu with
        loaded := n
        scheduler :=
          { pc := .head
            slots := launchSlots L.toGpuSize core.slots (Launch.cuId c) L.totalWarps L.warpIdOffset
            busyCuScheduler := true
            busyCu := false } }, [])
  | .status => some (cu.readStatus, [])
  | .event code =>
    (push L.depths.barrierEvents cu.port.events code).map fun queue =>
      ((cu.setEvents queue).setScheduler { core with busyCu := false, pc := .signal }, [])
  | .signal => some (cu.readSignal L, [])

def setRegs (slot : SlotId) (regs : RegFile) : Cu :=
  { cu with regs := Function.update cu.regs slot regs }

/-- One step of the compute pipeline; reading an empty stream blocks, or comes to nothing where the
code asks for `empty` first. -/
def pipelineStep : Option (Cu × List Event) :=
  match cu.pipeline with
  | .idle =>
    match cu.dispatch with
    | [] => some (cu, [])
    | d :: rest =>
      some ({ cu with
        dispatch := rest
        pipeline := .running d (L.execute c d (cu.regs d.slotId)) }, [])
  | .running d (.ask req k) =>
    (push L.depths.memReq cu.memReq req).map fun queue =>
      ({ cu with memReq := queue, pipeline := .waiting d k }, [])
  | .running d (.ret result) =>
    let status := { result.status with slotId := d.slotId }
    (push L.depths.status cu.status status).map fun queue =>
      ({ cu.setRegs d.slotId result.regs with status := queue, pipeline := .idle },
        [.finished d status])
  | .waiting d k =>
    match cu.memResp with
    | [] => none
    | resp :: rest => some ({ cu with memResp := rest, pipeline := .running d (k resp) }, [])

end Cu

/-! ## The whole -/

structure Gpu (L : Launch) where
  start : Bool
  cus : L.Cus → Cu
  core : BarrierCore

inductive Action (L : Launch) where
  /-- The host drives `start`. -/
  | setStart (b : Bool)
  /-- The program loader sends a token. -/
  | programLoaded (c : L.Cus)
  | scheduler (c : L.Cus)
  | pipeline (c : L.Cus)
  | barrier
  /-- The memory side takes a request. -/
  | takeRequest (c : L.Cus)
  /-- The memory side sends a response. -/
  | giveResponse (c : L.Cus) (resp : MemResp)

namespace Gpu

variable {L : Launch}

def setCu (s : Gpu L) (c : L.Cus) (cu : Cu) : Gpu L :=
  { s with cus := Function.update s.cus c cu }

def ports (s : Gpu L) : L.Cus → BarrierPort := fun c => (s.cus c).port

/-- The state after a step of `barrierCoreN`. -/
def withBarrier (s : Gpu L) (core : BarrierCore) (ports : L.Cus → BarrierPort) : Gpu L :=
  { s with
    core := core
    cus := fun c => { s.cus c with port := ports c } }

def step (s : Gpu L) : Action L → Option (Gpu L × List Event)
  | .setStart b => some ({ s with start := b }, [])
  | .programLoaded c =>
    if (s.cus c).loaded < L.depths.loaded then
      some (s.setCu c { s.cus c with loaded := (s.cus c).loaded + 1 }, [])
    else none
  | .scheduler c => ((s.cus c).schedulerStep L c s.start).map fun r => (s.setCu c r.1, r.2)
  | .pipeline c => ((s.cus c).pipelineStep L c).map fun r => (s.setCu c r.1, r.2)
  | .barrier =>
    (barrierStep L.toGpuSize L.depths.barrierSignal L.totalWarps s.start s.core s.ports).map
      fun r => (s.withBarrier r.1 r.2, [])
  | .takeRequest c =>
    match (s.cus c).memReq with
    | [] => none
    | _ :: rest => some (s.setCu c { s.cus c with memReq := rest }, [])
  | .giveResponse c resp =>
    (push L.depths.memResp (s.cus c).memResp resp).map fun queue =>
      (s.setCu c { s.cus c with memResp := queue }, [])

/-- A CU at reset, with any registers. -/
def resetCu (regs : SlotId → RegFile) : Cu where
  scheduler := ⟨.head, fun _ => {}, false, false⟩
  pipeline := .idle
  regs := regs
  loaded := 0
  dispatch := []
  status := []
  port := ⟨[], []⟩
  memReq := []
  memResp := []

/-- The reset states. -/
def IsReset (s : Gpu L) : Prop :=
  s.core = {} ∧ ∀ c, ∃ regs, s.cus c = resetCu regs

end Gpu

def gpuSystem (L : Launch) : Transition (Gpu L) (Action L) Event where
  init := Gpu.IsReset
  step := Gpu.step

/-- `start` is low once `done` is up. -/
def OneLaunch {L : Launch} (s : Gpu L) : Prop := s.core.done = true → s.start = false

instance {L : Launch} (s : Gpu L) : Decidable (OneLaunch s) :=
  inferInstanceAs (Decidable (_ → _))

/-- The states of one launch, with the events so far. -/
abbrev LaunchRun (L : Launch) : Gpu L → List Event → Prop := (gpuSystem L).Run OneLaunch

end RiscvGpgpu.Hls
