import RiscvGpgpu.Hls.GpgpuTop
import RiscvGpgpu.Hls.MemoryPipeline

/-!
# The memory side

`mem_arbiter.h` and the loop of `memory_pipeline`: the arbiter between the CUs and the one memory
pipeline, cut at its stream operations, and the flat top with them. `MemEvent` is what happens to a
request: a CU issues it, the arbiter grants it, the pipeline serves it and the CU receives the
response.
-/

namespace RiscvGpgpu.Hls

inductive MemEvent where
  | issued (c : ℕ) (req : MemReq)
  | granted (c : ℕ) (req : MemReq)
  | served (req : MemReq) (resp : MemResp)
  | received (c : ℕ) (resp : MemResp)
  deriving DecidableEq, Repr

/-! ## The arbiter -/

/-- The streams of an arbiter of `N` requesters. -/
structure ArbiterPorts (N : ℕ) where
  reqIn : Fin N → List MemReq
  respOut : Fin N → List MemResp
  reqOut : List MemReq
  respIn : List MemResp

/-- Where the arbiter stands: before the test of a stream of the scan, before the write of the
request it has read, before `routeResponse`, and before the write of a response. -/
inductive ArbiterPc where
  | scan (i : ℕ)
  | forward (idx : ℕ) (req : MemReq)
  | route
  | deliver (resp : MemResp)
  deriving DecidableEq, Repr

structure MemArbiter where
  pc : ArbiterPc := .scan 0
  nextCu : ℕ := 0
  deriving DecidableEq, Repr

section Arbiter

variable (N reqDepth respDepth : ℕ) (arb : MemArbiter) (p : ArbiterPorts N)

/-- The test of stream `(next_cu_ + i) % N`, and the read if it has a request. -/
def scanStep (i : ℕ) (h : i < N) : MemArbiter × ArbiterPorts N × List MemEvent :=
  let idx : Fin N := ⟨(arb.nextCu + i) % N, Nat.mod_lt _ (Nat.lt_of_le_of_lt (Nat.zero_le i) h)⟩
  match p.reqIn idx with
  | [] => ({ arb with pc := .scan (i + 1) }, p, [])
  | req :: rest =>
    ({ arb with pc := .forward idx req }, { p with reqIn := Function.update p.reqIn idx rest },
      [.granted idx req])

/-- One step of `mem_arbiter_n`. -/
def arbiterStep : Option (MemArbiter × ArbiterPorts N × List MemEvent) :=
  match arb.pc with
  | .scan i =>
    if h : i < N then some (scanStep N arb p i h) else some ({ arb with pc := .route }, p, [])
  | .forward idx req =>
    (push reqDepth p.reqOut req).map fun queue =>
      ({ arb with pc := .route, nextCu := (idx + 1) % N }, { p with reqOut := queue }, [])
  | .route =>
    match p.respIn with
    | [] => some ({ arb with pc := .scan 0 }, p, [])
    | resp :: rest => some ({ arb with pc := .deliver resp }, { p with respIn := rest }, [])
  | .deliver resp =>
    if h : 0 < N then
      let idx : Fin N := ⟨resp.cuId.toNat % N, Nat.mod_lt _ h⟩
      (push respDepth (p.respOut idx) resp).map fun queue =>
        ({ arb with pc := .scan 0 }, { p with respOut := Function.update p.respOut idx queue }, [])
    else none

/-- What a step of `mem_arbiter_n` can do, branch by branch. -/
inductive ArbiterTurn : MemArbiter → ArbiterPorts N → List MemEvent → Prop where
  | miss {i : ℕ} {c : Fin N} (hpc : arb.pc = .scan i) (hi : i < N)
      (hc : (arb.nextCu + i) % N = c) (hq : p.reqIn c = []) :
      ArbiterTurn { arb with pc := .scan (i + 1) } p []
  | grant {i : ℕ} {c : Fin N} {req : MemReq} {rest : List MemReq} (hpc : arb.pc = .scan i)
      (hi : i < N) (hc : (arb.nextCu + i) % N = c) (hq : p.reqIn c = req :: rest) :
      ArbiterTurn { arb with pc := .forward c req }
        { p with reqIn := Function.update p.reqIn c rest } [.granted c req]
  | scanned {i : ℕ} (hpc : arb.pc = .scan i) (hi : N ≤ i) :
      ArbiterTurn { arb with pc := .route } p []
  | forward {idx : ℕ} {req : MemReq} (hpc : arb.pc = .forward idx req)
      (hq : push reqDepth p.reqOut req = some (p.reqOut ++ [req])) :
      ArbiterTurn { arb with pc := .route, nextCu := (idx + 1) % N }
        { p with reqOut := p.reqOut ++ [req] } []
  | quiet (hpc : arb.pc = .route) (hq : p.respIn = []) :
      ArbiterTurn { arb with pc := .scan 0 } p []
  | route {resp : MemResp} {rest : List MemResp} (hpc : arb.pc = .route)
      (hq : p.respIn = resp :: rest) :
      ArbiterTurn { arb with pc := .deliver resp } { p with respIn := rest } []
  | deliver {resp : MemResp} {c : Fin N} (hpc : arb.pc = .deliver resp)
      (hc : resp.cuId.toNat % N = c)
      (hq : push respDepth (p.respOut c) resp = some (p.respOut c ++ [resp])) :
      ArbiterTurn { arb with pc := .scan 0 }
        { p with respOut := Function.update p.respOut c (p.respOut c ++ [resp]) } []

end Arbiter

theorem arbiterStep_turns {N reqDepth respDepth : ℕ} {arb arb' : MemArbiter}
    {p p' : ArbiterPorts N} {ev : List MemEvent}
    (hs : arbiterStep N reqDepth respDepth arb p = some (arb', p', ev)) :
    ArbiterTurn N reqDepth respDepth arb p arb' p' ev := by
  unfold arbiterStep at hs
  split at hs
  · next i hpc =>
    split at hs
    · next hi =>
      unfold scanStep at hs
      dsimp only at hs
      split at hs
      · next hq =>
        obtain ⟨rfl, rfl, rfl⟩ : _ ∧ _ ∧ _ := by simpa using hs
        exact .miss (c := ⟨_, Nat.mod_lt _ (by omega)⟩) hpc hi rfl hq
      · next req rest hq =>
        obtain ⟨rfl, rfl, rfl⟩ : _ ∧ _ ∧ _ := by simpa using hs
        exact .grant (c := ⟨_, Nat.mod_lt _ (by omega)⟩) hpc hi rfl hq
    · next hi =>
      obtain ⟨rfl, rfl, rfl⟩ : _ ∧ _ ∧ _ := by simpa using hs
      exact .scanned hpc (Nat.not_lt.1 hi)
  · next idx req hpc =>
    obtain ⟨queue, hq, heq⟩ := Option.map_eq_some_iff.1 hs
    obtain ⟨rfl, rfl, rfl⟩ : _ ∧ _ ∧ _ := by simpa using heq
    obtain rfl := push_eq_some hq
    exact .forward hpc hq
  · next hpc =>
    split at hs
    · next hq =>
      obtain ⟨rfl, rfl, rfl⟩ : _ ∧ _ ∧ _ := by simpa using hs
      exact .quiet hpc hq
    · next resp rest hq =>
      obtain ⟨rfl, rfl, rfl⟩ : _ ∧ _ ∧ _ := by simpa using hs
      exact .route hpc hq
  · next resp hpc =>
    split at hs
    · next hpos =>
      obtain ⟨queue, hq, heq⟩ := Option.map_eq_some_iff.1 hs
      obtain ⟨rfl, rfl, rfl⟩ : _ ∧ _ ∧ _ := by simpa using heq
      obtain rfl := push_eq_some hq
      exact .deliver (c := ⟨_, Nat.mod_lt _ hpos⟩) hpc rfl hq
    · exact absurd hs (by simp)

/-! ## The memory pipeline -/

/-- Before the read of a request, or before the write of its response. -/
inductive MemoryProcess where
  | ready
  | respond (resp : MemResp)

/-- The arbiter, its streams to the memory pipeline, and the pipeline. -/
structure MemorySide where
  arbiter : MemArbiter
  reqOut : List MemReq
  respIn : List MemResp
  process : MemoryProcess
  mem : MemState

/-- The depths of the streams outside the top. -/
structure SideDepths where
  reqOut : ℕ
  respIn : ℕ

/-- One step of `memory_pipeline`. -/
def MemorySide.memoryStep (D : SideDepths) (side : MemorySide) :
    Option (MemorySide × List MemEvent) :=
  match side.process with
  | .ready =>
    match side.reqOut with
    | [] => none
    | req :: rest =>
      let r := handleRequest side.mem req
      some ({ side with reqOut := rest, process := .respond r.1, mem := r.2 }, [.served req r.1])
  | .respond resp =>
    (push D.respIn side.respIn resp).map fun queue =>
      ({ side with respIn := queue, process := .ready }, [])

/-! ## The flat top with its memory -/

structure System (L : Launch) where
  gpu : Gpu L
  side : MemorySide

inductive SystemAction (L : Launch) where
  | gpu (a : Action L)
  | arbiter
  | memory

inductive TopEvent where
  | warp (e : Event)
  | mem (e : MemEvent)

namespace System

variable {L : Launch} (D : SideDepths) (s : System L)

/-- The request that a step of a pipeline writes, or the response that it reads. -/
def pipelineEvents (c : L.Cus) (cu : Cu) : List MemEvent :=
  match cu.pipeline, cu.memResp with
  | .running _ (.ask req _), _ => [.issued c req]
  | .waiting _ _, resp :: _ => [.received c resp]
  | _, _ => []

def ports : ArbiterPorts L.numCus where
  reqIn c := (s.gpu.cus c).memReq
  respOut c := (s.gpu.cus c).memResp
  reqOut := s.side.reqOut
  respIn := s.side.respIn

/-- The state after a step of the arbiter. -/
def withArbiter (arbiter : MemArbiter) (p : ArbiterPorts L.numCus) : System L where
  gpu := { s.gpu with
    cus := fun c => { s.gpu.cus c with memReq := p.reqIn c, memResp := p.respOut c } }
  side := { s.side with arbiter := arbiter, reqOut := p.reqOut, respIn := p.respIn }

/-- The events of a step that does not concern the memory side. -/
def gpuEvents : Action L → List MemEvent
  | .pipeline c => pipelineEvents c (s.gpu.cus c)
  | _ => []

/-- The memory side is part of the system, so nobody else takes requests or gives responses. -/
def step : SystemAction L → Option (System L × List TopEvent)
  | .gpu (.takeRequest _) => none
  | .gpu (.giveResponse _ _) => none
  | .gpu a => (s.gpu.step a).map fun r =>
    ({ s with gpu := r.1 }, r.2.map .warp ++ (s.gpuEvents a).map .mem)
  | .arbiter =>
    (arbiterStep L.numCus D.reqOut L.depths.memResp s.side.arbiter s.ports).map fun r =>
      (s.withArbiter r.1 r.2.1, r.2.2.map .mem)
  | .memory => (s.side.memoryStep D).map fun r => ({ s with side := r.1 }, r.2.map .mem)

/-- Nothing is on its way at reset; the memory holds anything. -/
def IsReset : Prop :=
  s.gpu.IsReset ∧ s.side.arbiter = {} ∧ s.side.reqOut = [] ∧ s.side.respIn = [] ∧
    s.side.process = .ready

end System

def system (L : Launch) (D : SideDepths) : Transition (System L) (SystemAction L) TopEvent where
  init := System.IsReset
  step := System.step D

end RiscvGpgpu.Hls
