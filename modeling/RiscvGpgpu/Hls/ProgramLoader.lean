import RiscvGpgpu.Hls.MemArbiter
import RiscvGpgpu.Hls.Placement

/-!
# The flat top, launch after launch

`programLoader`, the seed loop of `compute_pipeline` and the host, around the processes of
`GpgpuTop` and the memory side. The arguments of a launch are on ports that the host changes
when it raises `start`. The loader is cut at its read of `start` and at its stream writes, and
`compute_pipeline` between its two tests.
-/

namespace RiscvGpgpu.Hls

/-- The fixed part of a flat top. -/
structure Build extends GpuSize where
  depths : StreamDepths
  regSeed : ℕ
  side : SideDepths
  fp : FloatOps
  vectorOps : Bool

/-- What the host sets for a launch; both register pointers name `initialRegs`. -/
structure LaunchArgs where
  program : ℕ → RawInstr
  programLen : Word
  initialRegs : ℕ → Word
  totalWarps : WarpId
  warpIdOffset : WarpId

abbrev ProgramStore := Vector RawInstr maxProgramLen

/-- The launch that a CU sees whose program store is `store`. -/
abbrev Build.launch (B : Build) (a : LaunchArgs) (store : ProgramStore) : Launch where
  toGpuSize := B.toGpuSize
  depths := B.depths
  fp := B.fp
  vectorOps := B.vectorOps
  program := store
  programLen := a.programLen
  totalWarps := a.totalWarps
  warpIdOffset := a.warpIdOffset

inductive FlatEvent where
  | raised (a : LaunchArgs)
  | dropped
  /-- `barrierCoreN` calls `barrierLaunch`. -/
  | accepted (a : LaunchArgs)
  | seedSent (c : ℕ) (seed : RegSeed)
  | seedApplied (c : ℕ) (seed : RegSeed)
  | tokenSent (c : ℕ)
  | tokenTaken (c : ℕ)
  /-- The call of `executeOneWarp` for a dispatch. -/
  | began (c : ℕ) (d : WarpDispatch) (program : ProgramStore) (regs : RegFile)
  | warp (e : Event)
  | mem (e : MemEvent)

/-! ## The loader -/

/-- Before the test of `start`, in the iteration, and before the write of a token. -/
inductive LoaderPc where
  | head
  | work
  | token
  deriving DecidableEq, Repr

structure ProgramLoader where
  pc : LoaderPc := .head
  loaded : Bool := false
  loadIdx : ℕ := 0
  regsDone : Bool := false
  seedC : ℕ := 0
  seedSlot : ℕ := 0
  seedI : ℕ := 0
  deriving DecidableEq, Repr

namespace ProgramLoader

variable (B : Build) (a : LaunchArgs) (ld : ProgramLoader)

/-- The seed of one iteration, if the slot gets a warp. -/
def seedOf (seedC seedSlot seedI : ℕ) : Option RegSeed :=
  let localW : WarpId := BitVec.ofNat 32 seedC + BitVec.ofNat 32 seedSlot * BitVec.ofNat 32 B.numCus
  if localW < a.totalWarps then
    let globalW := a.warpIdOffset + localW
    some
      { slotId := BitVec.ofNat 4 seedSlot
        flatI := BitVec.ofNat 10 seedI
        value := a.initialRegs (globalW.toNat * 32 * 32 + seedI) }
  else none

/-- The iteration behind the write of a seed. -/
def advance : ProgramLoader :=
  if ld.seedI + 1 < 32 * 32 then { ld with pc := .head, seedI := ld.seedI + 1 }
  else if ld.seedSlot + 1 < B.maxWarpsPerCu then
    { ld with pc := .head, seedI := 0, seedSlot := ld.seedSlot + 1 }
  else { ld with pc := .token, seedI := 0, seedSlot := 0 }

/-- What the loader writes. -/
structure Ports (N : ℕ) where
  stores : Fin N → ProgramStore
  seeds : Fin N → List RegSeed
  loaded : Fin N → ℕ

/-- One step of `programLoader`. -/
def step (start : Bool) (p : Ports B.numCus) :
    Option (ProgramLoader × Ports B.numCus × List FlatEvent) :=
  match ld.pc with
  | .head => some (if start then { ld with pc := .work } else {}, p, [])
  | .work =>
    if ld.loaded = false then
      if h : ld.loadIdx < maxProgramLen then
        some ({ ld with pc := .head, loadIdx := ld.loadIdx + 1 },
          if ld.loadIdx < a.programLen.toNat then
            { p with stores := fun c => (p.stores c).set ld.loadIdx (a.program ld.loadIdx) h }
          else p, [])
      else some ({ ld with pc := .head, loaded := true }, p, [])
    else if ld.regsDone = false then
      if h : ld.seedC < B.numCus then
        match seedOf B a ld.seedC ld.seedSlot ld.seedI with
        | none => some (ld.advance B, p, [])
        | some seed =>
          (push B.regSeed (p.seeds ⟨ld.seedC, h⟩) seed).map fun queue =>
            (ld.advance B, { p with seeds := Function.update p.seeds ⟨ld.seedC, h⟩ queue },
              [.seedSent ld.seedC seed])
      else
        some ({ ld with pc := .head, regsDone := true, seedC := 0, seedSlot := 0, seedI := 0 },
          p, [])
    else some ({ ld with pc := .head }, p, [])
  | .token =>
    if h : ld.seedC < B.numCus then
      if p.loaded ⟨ld.seedC, h⟩ < B.depths.loaded then
        some ({ ld with pc := .head, seedC := ld.seedC + 1 },
          { p with loaded := Function.update p.loaded ⟨ld.seedC, h⟩ (p.loaded ⟨ld.seedC, h⟩ + 1) },
          [.tokenSent ld.seedC])
      else none
    else none

section Turns

variable (start : Bool) (p : Ports B.numCus)

/-- What a step of `programLoader` can do, branch by branch. -/
inductive Turn : ProgramLoader → Ports B.numCus → List FlatEvent → Prop where
  | enter (hpc : ld.pc = .head) (hstart : start = true) : Turn { ld with pc := .work } p []
  | reset (hpc : ld.pc = .head) (hstart : start = false) : Turn {} p []
  | store (hpc : ld.pc = .work) (hload : ld.loaded = false) (hlt : ld.loadIdx < maxProgramLen) :
      Turn { ld with pc := .head, loadIdx := ld.loadIdx + 1 }
        (if ld.loadIdx < a.programLen.toNat then
          { p with stores := fun c => (p.stores c).set ld.loadIdx (a.program ld.loadIdx) hlt }
        else p) []
  | stored (hpc : ld.pc = .work) (hload : ld.loaded = false) (hge : maxProgramLen ≤ ld.loadIdx) :
      Turn { ld with pc := .head, loaded := true } p []
  | skip {c : Fin B.numCus} (hpc : ld.pc = .work) (hload : ld.loaded = true)
      (hregs : ld.regsDone = false) (hc : ld.seedC = c)
      (hseed : seedOf B a c ld.seedSlot ld.seedI = none) : Turn (ld.advance B) p []
  | seed {c : Fin B.numCus} {seed : RegSeed} (hpc : ld.pc = .work) (hload : ld.loaded = true)
      (hregs : ld.regsDone = false) (hc : ld.seedC = c)
      (hseed : seedOf B a c ld.seedSlot ld.seedI = some seed) :
      Turn (ld.advance B) { p with seeds := Function.update p.seeds c (p.seeds c ++ [seed]) }
        [.seedSent c seed]
  | seeded (hpc : ld.pc = .work) (hload : ld.loaded = true) (hregs : ld.regsDone = false)
      (hge : B.numCus ≤ ld.seedC) :
      Turn { ld with pc := .head, regsDone := true, seedC := 0, seedSlot := 0, seedI := 0 } p []
  | rest (hpc : ld.pc = .work) (hload : ld.loaded = true) (hregs : ld.regsDone = true) :
      Turn { ld with pc := .head } p []
  | token {c : Fin B.numCus} (hpc : ld.pc = .token) (hc : ld.seedC = c) :
      Turn { ld with pc := .head, seedC := ld.seedC + 1 }
        { p with loaded := Function.update p.loaded c (p.loaded c + 1) } [.tokenSent c]

variable {B a ld start p}

theorem step_turns {ld' : ProgramLoader} {p' : Ports B.numCus} {ev : List FlatEvent}
    (hs : ld.step B a start p = some (ld', p', ev)) : Turn B a ld start p ld' p' ev := by
  unfold step at hs
  split at hs
  · next hpc =>
    obtain ⟨rfl, rfl, rfl⟩ : _ ∧ _ ∧ _ := by simpa using hs
    cases start with
    | true => exact .enter hpc rfl
    | false => exact .reset hpc rfl
  · next hpc =>
    split at hs
    · next hload =>
      split at hs
      · next hlt =>
        obtain ⟨rfl, rfl, rfl⟩ : _ ∧ _ ∧ _ := by simpa using hs
        exact .store hpc hload hlt
      · next hge =>
        obtain ⟨rfl, rfl, rfl⟩ : _ ∧ _ ∧ _ := by simpa using hs
        exact .stored hpc hload (Nat.not_lt.1 hge)
    · next hload =>
      rw [Bool.not_eq_false] at hload
      split at hs
      · next hregs =>
        split at hs
        · next hlt =>
          split at hs
          · next hseed =>
            obtain ⟨rfl, rfl, rfl⟩ : _ ∧ _ ∧ _ := by simpa using hs
            exact .skip (c := ⟨ld.seedC, hlt⟩) hpc hload hregs rfl hseed
          · next seed hseed =>
            obtain ⟨queue, hq, heq⟩ := Option.map_eq_some_iff.1 hs
            obtain ⟨rfl, rfl, rfl⟩ : _ ∧ _ ∧ _ := by simpa using heq
            obtain rfl := push_eq_some hq
            exact .seed (c := ⟨ld.seedC, hlt⟩) hpc hload hregs rfl hseed
        · next hge =>
          obtain ⟨rfl, rfl, rfl⟩ : _ ∧ _ ∧ _ := by simpa using hs
          exact .seeded hpc hload hregs (Nat.not_lt.1 hge)
      · next hregs =>
        rw [Bool.not_eq_false] at hregs
        obtain ⟨rfl, rfl, rfl⟩ : _ ∧ _ ∧ _ := by simpa using hs
        exact .rest hpc hload hregs
  · next hpc =>
    split at hs
    · next hlt =>
      split at hs
      · obtain ⟨rfl, rfl, rfl⟩ : _ ∧ _ ∧ _ := by simpa using hs
        exact .token (c := ⟨ld.seedC, hlt⟩) hpc rfl
      · exact absurd hs (by simp)
    · exact absurd hs (by simp)

end Turns

/-- The loader has sent the token of every CU. -/
def Finished : Prop :=
  ld.pc ≠ .token ∧ ld.loaded = true ∧ (ld.regsDone = true ∨ B.numCus ≤ ld.seedC)

instance : Decidable (ld.Finished B) := inferInstanceAs (Decidable (_ ∧ _ ∧ _))

end ProgramLoader

/-! ## The host -/

/-- What the host has read since it last raised `start`, and how often `barrierCoreN` has accepted
a launch since then, which no process reads. -/
structure Host where
  sawBusy : Bool := false
  sawDone : Bool := false
  sawFault : Bool := false
  launches : ℕ := 0
  accepted : ℕ := 0
  deriving DecidableEq, Repr

/-- When the host may drop `start`, and when it may raise it again. -/
structure HostProtocol where
  mayDrop : Host → Bool
  mayRaise : Host → Bool

/-! ## The top -/

structure Top (B : Build) where
  args : LaunchArgs
  start : Bool
  host : Host
  loader : ProgramLoader
  stores : Fin B.numCus → ProgramStore
  seeds : Fin B.numCus → List RegSeed
  /-- The pipeline has found no seed, and has not looked for a dispatch. -/
  polled : Fin B.numCus → Bool
  cus : Fin B.numCus → Cu
  core : BarrierCore
  side : MemorySide

inductive TopAction (N : ℕ) where
  | raise (a : LaunchArgs)
  | drop
  /-- The host reads `busy`, `done` and `fault`. -/
  | sample
  | loader
  | scheduler (c : Fin N)
  | pipeline (c : Fin N)
  | barrier
  | arbiter
  | memory

namespace Top

variable {B : Build} (H : HostProtocol) (s : Top B)

def setCu (c : Fin B.numCus) (cu : Cu) : Top B := { s with cus := Function.update s.cus c cu }

def raise (a : LaunchArgs) : Option (Top B × List FlatEvent) :=
  if s.start = false ∧ H.mayRaise s.host then
    some ({ s with args := a, start := true, host := { launches := s.host.launches + 1 } },
      [.raised a])
  else none

def drop : Option (Top B × List FlatEvent) :=
  if s.start = true ∧ H.mayDrop s.host then some ({ s with start := false }, [.dropped]) else none

def sample : Top B :=
  { s with host :=
    { s.host with
      sawBusy := s.host.sawBusy || s.core.busy
      sawDone := s.host.sawDone || s.core.done
      sawFault := s.host.sawFault || s.core.fault } }

def loaderPorts : ProgramLoader.Ports B.numCus where
  stores := s.stores
  seeds := s.seeds
  loaded c := (s.cus c).loaded

/-- The state after a step of the loader. -/
def withLoader (ld : ProgramLoader) (p : ProgramLoader.Ports B.numCus) : Top B :=
  { s with
    loader := ld
    stores := p.stores
    seeds := p.seeds
    cus := fun c => { s.cus c with loaded := p.loaded c } }

def schedulerStep (c : Fin B.numCus) : Option (Top B × List FlatEvent) :=
  ((s.cus c).schedulerStep (B.launch s.args (s.stores c)) c s.start).map fun r =>
    (s.setCu c r.1, (if r.1.loaded < (s.cus c).loaded then [.tokenTaken c] else []) ++
      r.2.map .warp)

/-- `regs[s.slot_id][s.flat_i >> 5][s.flat_i & 31] = s.value`. -/
def applySeed (regs : SlotId → RegFile) (seed : RegSeed) : SlotId → RegFile :=
  let lane : Lane := ⟨(seed.flatI >>> 5).toNat, seed.flatI_lane_lt⟩
  Function.update regs seed.slotId (Function.update (regs seed.slotId) lane
    (Function.update (regs seed.slotId lane) ((seed.flatI &&& 31).setWidth 5) seed.value))

/-- What a step of the pipeline of a CU shows to the outside. -/
def pipelineEvents (c : Fin B.numCus) : List FlatEvent :=
  match (s.cus c).pipeline, (s.cus c).dispatch with
  | .idle, d :: _ => [.began c d (s.stores c) ((s.cus c).regs d.slotId)]
  | _, _ => (System.pipelineEvents (L := B.launch s.args (s.stores c)) c (s.cus c)).map .mem

/-- The pipeline of a CU executes, or looks for a dispatch. -/
def execStep (c : Fin B.numCus) : Option (Top B × List FlatEvent) :=
  ((s.cus c).pipelineStep (B.launch s.args (s.stores c)) c).map fun r =>
    (({ s with polled := Function.update s.polled c false }).setCu c r.1,
      s.pipelineEvents c ++ r.2.map .warp)

/-- One step of the loop of `compute_pipeline`. -/
def pipelineStep (c : Fin B.numCus) : Option (Top B × List FlatEvent) :=
  match (s.cus c).pipeline, s.polled c, s.seeds c with
  | .idle, false, [] => some ({ s with polled := Function.update s.polled c true }, [])
  | .idle, false, seed :: rest =>
    some (({ s with seeds := Function.update s.seeds c rest }).setCu c
      { s.cus c with regs := applySeed (s.cus c).regs seed }, [.seedApplied c seed])
  | _, _, _ => s.execStep c

def ports : Fin B.numCus → BarrierPort := fun c => (s.cus c).port

/-- `barrierCoreN` is about to call `barrierLaunch`. -/
def Accepts : Prop := s.core.pc = .head ∧ s.core.busy = false ∧ s.start = true

instance : Decidable s.Accepts := inferInstanceAs (Decidable (_ ∧ _ ∧ _))

def barrierStep : Option (Top B × List FlatEvent) :=
  (Hls.barrierStep B.toGpuSize B.depths.barrierSignal s.args.totalWarps s.start s.core s.ports).map
    fun r =>
      let s' : Top B := { s with core := r.1, cus := fun c => { s.cus c with port := r.2 c } }
      if s.Accepts then
        ({ s' with host := { s.host with accepted := s.host.accepted + 1 } }, [.accepted s.args])
      else (s', [])

def arbiterPorts : ArbiterPorts B.numCus where
  reqIn c := (s.cus c).memReq
  respOut c := (s.cus c).memResp
  reqOut := s.side.reqOut
  respIn := s.side.respIn

/-- The state after a step of the memory arbiter. -/
def withArbiter (arbiter : MemArbiter) (p : ArbiterPorts B.numCus) : Top B :=
  { s with
    cus := fun c => { s.cus c with memReq := p.reqIn c, memResp := p.respOut c }
    side := { s.side with arbiter := arbiter, reqOut := p.reqOut, respIn := p.respIn } }

def step : TopAction B.numCus → Option (Top B × List FlatEvent)
  | .raise a => s.raise H a
  | .drop => s.drop H
  | .sample => some (s.sample, [])
  | .loader =>
    (s.loader.step B s.args s.start s.loaderPorts).map fun r => (s.withLoader r.1 r.2.1, r.2.2)
  | .scheduler c => s.schedulerStep c
  | .pipeline c => s.pipelineStep c
  | .barrier => s.barrierStep
  | .arbiter =>
    (arbiterStep B.numCus B.side.reqOut B.depths.memResp s.side.arbiter s.arbiterPorts).map
      fun r => (s.withArbiter r.1 r.2.1, r.2.2.map .mem)
  | .memory => (s.side.memoryStep B.side).map fun r => ({ s with side := r.1 }, r.2.map .mem)

/-- Nothing is on its way at reset; stores, registers and memory hold anything. -/
def IsReset : Prop :=
  s.start = false ∧ s.host = {} ∧ s.loader = {} ∧ (∀ c, s.seeds c = []) ∧
    (∀ c, s.polled c = false) ∧
    s.core = {} ∧ (∀ c, ∃ regs, s.cus c = Gpu.resetCu regs) ∧
    ∃ mem, s.side = ⟨{}, [], [], .ready, mem⟩

end Top

def topSystem (B : Build) (H : HostProtocol) :
    Transition (Top B) (TopAction B.numCus) FlatEvent where
  init := Top.IsReset
  step := Top.step H

end RiscvGpgpu.Hls
