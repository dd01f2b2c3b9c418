import RiscvGpgpu.Hls.LaunchFairness
import RiscvGpgpu.Hls.Pulses

/-!
# The first launch of the flat top

With the loader, the seeds and the host taken away, a `Top` in a launch is a `System` of that
launch (`Top.system`). What `launch_completes` rests on (`Alive`) is kept by the steps of the top:
each is a step of the system, or none that the invariants notice (`Top.step_system`).
-/

namespace RiscvGpgpu.Hls

open Launch

/-! ## What the steps of a launch keep -/

/-- The memory side is in order, at some events so far. -/
structure Flowing {L : Launch} (D : SideDepths) (s : System L) : Prop where
  side : ∃ tr, SideInv s (memEvents tr)
  room : Unjammed D s.side

/-- So are the warps. -/
structure Alive {L : Launch} (D : SideDepths) (s : System L) : Prop extends Flowing D s where
  launch : ∃ tr, LaunchInv L s.gpu tr

/-- Two CUs that differ in their registers and in the tokens of the loader. -/
structure Cu.Agrees (cu cu' : Cu) : Prop where
  scheduler : cu'.scheduler = cu.scheduler
  pipeline : cu'.pipeline = cu.pipeline
  dispatch : cu'.dispatch = cu.dispatch
  status : cu'.status = cu.status
  port : cu'.port = cu.port
  memReq : cu'.memReq = cu.memReq
  memResp : cu'.memResp = cu.memResp

/-- What `Alive` does not look at has changed. -/
structure System.Agrees {L : Launch} (s s' : System L) : Prop where
  core : s'.gpu.core = s.gpu.core
  cus : ∀ c, (s.gpu.cus c).Agrees (s'.gpu.cus c)
  side : s'.side = s.side

section Alive

variable {L : Launch} {D : SideDepths} {s s' : System L}

theorem LaunchInv.congr {gpu gpu' : Gpu L} {tr : List Event} (h : LaunchInv L gpu tr)
    (hcore : gpu'.core = gpu.core)
    (hcus : ∀ c, (gpu'.cus c).scheduler = (gpu.cus c).scheduler ∧
      (gpu'.cus c).pipeline = (gpu.cus c).pipeline ∧ (gpu'.cus c).dispatch = (gpu.cus c).dispatch ∧
      (gpu'.cus c).status = (gpu.cus c).status ∧ (gpu'.cus c).port = (gpu.cus c).port) :
    LaunchInv L gpu' tr := by
  obtain ⟨v, g, h⟩ := h
  refine ⟨v, g, fun c => ?_, fun c => ?_, ?_⟩
  · obtain ⟨hscheduler, hpipeline, hdispatch, hstatus, hport⟩ := hcus c
    rw [hcore]
    exact (h.cus c).congr hscheduler hpipeline hdispatch hstatus hport
  · have hold := h.waves c
    unfold Cu.releases at hold ⊢
    rwa [hcore, (hcus c).2.2.2.2]
  · rw [hcore]
    exact h.core

theorem Flowing.congr (h : Flowing D s) (hsame : s.Agrees s') : Flowing D s' := by
  obtain ⟨⟨tr, hside⟩, hroom⟩ := h
  obtain ⟨gpu, side⟩ := s
  obtain ⟨gpu', side'⟩ := s'
  obtain rfl : side' = side := hsame.side
  refine ⟨⟨tr, hside.gpu ⟨fun c => (hsame.cus c).memReq, fun c => (hsame.cus c).memResp,
    fun c => ?_, fun c => ?_⟩⟩, hroom⟩
  · rw [(hsame.cus c).pipeline]
  · rw [(hsame.cus c).pipeline]
    exact id

theorem Alive.congr (h : Alive D s) (hsame : s.Agrees s') : Alive D s' := by
  obtain ⟨tr, hlaunch⟩ := h.launch
  exact ⟨h.toFlowing.congr hsame, tr, hlaunch.congr hsame.core fun c =>
    ⟨(hsame.cus c).scheduler, (hsame.cus c).pipeline, (hsame.cus c).dispatch,
      (hsame.cus c).status, (hsame.cus c).port⟩⟩

theorem Flowing.step {a : SystemAction L} {ev : List TopEvent} (h : Flowing D s)
    (hD : Buffered L D) (hs : s.step D a = some (s', ev)) : Flowing D s' := by
  obtain ⟨⟨tr, hside⟩, hroom⟩ := h
  refine ⟨⟨_, hside.step hs⟩, ?_⟩
  cases a with
  | gpu a =>
    obtain ⟨ev', -, -, hsame⟩ := gpu_step hs
    rwa [hsame]
  | arbiter =>
    obtain ⟨⟨arb, p, ev⟩, hr, heq⟩ := Option.map_eq_some_iff.1 hs
    obtain ⟨rfl, -⟩ := Prod.mk.inj heq
    exact hroom.arbiter hD hr
  | memory =>
    obtain ⟨⟨side, ev⟩, hr, heq⟩ := Option.map_eq_some_iff.1 hs
    obtain ⟨rfl, -⟩ := Prod.mk.inj heq
    exact hroom.memory hr

theorem Alive.step {a : SystemAction L} {ev : List TopEvent} (h : Alive D s) (hD : Buffered L D)
    (hcap : L.totalWarps.toNat ≤ L.capacity) (hone : OneLaunch s.gpu)
    (hs : s.step D a = some (s', ev)) : Alive D s' := by
  obtain ⟨tr, hlaunch⟩ := h.launch
  refine ⟨h.toFlowing.step hD hs, ?_⟩
  cases a with
  | gpu a =>
    obtain ⟨ev', hr, -, -⟩ := gpu_step hs
    exact ⟨_, hlaunch.step hcap hone hr⟩
  | arbiter =>
    obtain ⟨⟨arb, p, ev⟩, hr, heq⟩ := Option.map_eq_some_iff.1 hs
    obtain ⟨rfl, -⟩ := Prod.mk.inj heq
    obtain hsame | ⟨a, ha⟩ := arbiter_gpu hr
    · rw [hsame]
      exact ⟨tr, hlaunch⟩
    · exact ⟨_, hlaunch.step hcap hone ha⟩
  | memory =>
    obtain ⟨⟨side, ev⟩, hr, heq⟩ := Option.map_eq_some_iff.1 hs
    obtain ⟨rfl, -⟩ := Prod.mk.inj heq
    exact ⟨tr, hlaunch⟩

theorem Flowing.reset (h : s.IsReset) : Flowing D s := by
  refine ⟨⟨[], SideInv.reset h⟩, ?_, ?_, fun _ _ resp hproc => ?_⟩
  · rw [h.2.2.1]
    exact Nat.zero_le _
  · rw [h.2.2.2.1]
    exact Nat.zero_le _
  · exact absurd (h.2.2.2.2.symm.trans hproc) (by simp)

end Alive

/-! ## The top as a system -/

/-- The program store as the loader fills it. -/
def LaunchArgs.store (a : LaunchArgs) : ProgramStore := Vector.ofFn fun i => a.program i

/-- The CUs, `barrierCoreN` and the memory side, in the launch `a`. -/
def Top.system {B : Build} (s : Top B) (a : LaunchArgs) : System (B.launch a a.store) where
  gpu := ⟨s.start, s.cus, s.core⟩
  side := s.side

/-- The decode loop reaches the words of the program only. -/
theorem decodeProgram_store {a : LaunchArgs} {store : ProgramStore}
    (h : HoldsTo a maxProgramLen store) :
    decodeProgram store a.programLen = decodeProgram a.store a.programLen := by
  unfold decodeProgram
  refine congrArg (List.map decodeInstruction) (List.ext_getElem ?_ fun i hi hi' => ?_)
  · simp only [List.length_take, Vector.length_toList]
  simp only [List.length_take, Vector.length_toList] at hi
  have hi512 : i < maxProgramLen := by omega
  have hword : a.store[i] = a.program i := by
    unfold LaunchArgs.store
    exact Vector.getElem_ofFn hi512
  rw [List.getElem_take, List.getElem_take, Vector.getElem_toList, Vector.getElem_toList, hword]
  exact h i hi512 hi512 (by omega)

section TopSystem

variable {B : Build} {H : HostProtocol} {s s' : Top B} {a : LaunchArgs} {ev : List FlatEvent}

/-- A step of a pipeline does not depend on the store behind the program. -/
theorem pipelineStep_store {store : ProgramStore} {c : Fin B.numCus} {cu : Cu}
    (h : cu.dispatch ≠ [] → HoldsTo a maxProgramLen store) :
    cu.pipelineStep (B.launch a store) c = cu.pipelineStep (B.launch a a.store) c := by
  unfold Cu.pipelineStep
  split
  · split
    · rfl
    · next d rest hd =>
      have hcode := decodeProgram_store (h (by rw [hd]; exact List.cons_ne_nil _ _))
      have hexec : (B.launch a store).execute c d (cu.regs d.slotId) =
          (B.launch a a.store).execute c d (cu.regs d.slotId) := by
        unfold Launch.execute executeOneWarp Launch.pipelineParams cuId
        dsimp only [Build.launch]
        rw [hcode]
      exact congrArg (fun p => some ({ cu with
        dispatch := rest, pipeline := Pipeline.running d p }, [])) hexec
  · rfl
  · rfl
  · rfl

theorem schedulerStep_store (store' : ProgramStore) {store : ProgramStore} {c : Fin B.numCus}
    {cu : Cu} {start : Bool} : cu.schedulerStep (B.launch a store) c start =
      cu.schedulerStep (B.launch a store') c start := rfl

/-- A step of the top is one of the system, or changes what `Alive` does not look at. -/
theorem Top.step_system {act : TopAction B.numCus} (hargs : s.args = a)
    (hheld : ∀ c, (s.cus c).dispatch ≠ [] → HoldsTo a maxProgramLen (s.stores c))
    (hact : ∀ args, act ≠ .raise args) (hs : s.step H act = some (s', ev)) :
    (s.system a).Agrees (s'.system a) ∨
      ∃ b tr, (s.system a).step B.side b = some (s'.system a, tr) := by
  subst hargs
  have hrefl (cu : Cu) : cu.Agrees cu := ⟨rfl, rfl, rfl, rfl, rfl, rfl, rfl⟩
  cases act with
  | raise args => exact absurd rfl (hact args)
  | drop =>
    dsimp only [Top.step, Top.drop] at hs
    split at hs
    · obtain ⟨rfl, -⟩ := Prod.mk.inj (Option.some.inj hs)
      exact .inl ⟨rfl, fun c => hrefl _, rfl⟩
    · exact absurd hs (by simp)
  | sample =>
    obtain ⟨rfl, -⟩ := Prod.mk.inj (Option.some.inj hs)
    exact .inl ⟨rfl, fun c => hrefl _, rfl⟩
  | loader =>
    obtain ⟨⟨ld, p, ev'⟩, -, heq⟩ := Option.map_eq_some_iff.1 hs
    obtain ⟨rfl, -⟩ := Prod.mk.inj heq
    exact .inl ⟨rfl, fun c => ⟨rfl, rfl, rfl, rfl, rfl, rfl, rfl⟩, rfl⟩
  | scheduler c =>
    obtain ⟨⟨cu, ev'⟩, hr, heq⟩ := Option.map_eq_some_iff.1 hs
    obtain ⟨rfl, -⟩ := Prod.mk.inj heq
    rw [schedulerStep_store s.args.store] at hr
    refine .inr ⟨.gpu (.scheduler c), ev'.map .warp ++ [], ?_⟩
    have hgpu : (s.system s.args).gpu.step (.scheduler c) =
        some (((s.setCu c cu).system s.args).gpu, ev') :=
      Option.map_eq_some_iff.2 ⟨_, hr, rfl⟩
    exact Option.map_eq_some_iff.2 ⟨_, hgpu, rfl⟩
  | pipeline c =>
    have hexec (hs : s.execStep c = some (s', ev)) : ∃ b tr,
        (s.system s.args).step B.side b = some (s'.system s.args, tr) := by
      obtain ⟨⟨cu, ev'⟩, hr, heq⟩ := Option.map_eq_some_iff.1 hs
      obtain ⟨rfl, -⟩ := Prod.mk.inj heq
      rw [pipelineStep_store (hheld c)] at hr
      refine ⟨.gpu (.pipeline c),
        ev'.map .warp ++ ((s.system s.args).gpuEvents (.pipeline c)).map .mem, ?_⟩
      have hgpu : (s.system s.args).gpu.step (.pipeline c) =
          some (((s.setCu c cu).system s.args).gpu, ev') :=
        Option.map_eq_some_iff.2 ⟨_, hr, rfl⟩
      exact Option.map_eq_some_iff.2 ⟨_, hgpu, rfl⟩
    dsimp only [Top.step, Top.pipelineStep] at hs
    split at hs
    · obtain ⟨rfl, -⟩ := Prod.mk.inj (Option.some.inj hs)
      exact .inl ⟨rfl, fun c => hrefl _, rfl⟩
    · obtain ⟨rfl, -⟩ := Prod.mk.inj (Option.some.inj hs)
      refine .inl ⟨rfl, fun c' => ?_, rfl⟩
      by_cases hc : c' = c
      · subst hc
        simp only [Top.system, Top.setCu, Function.update_self]
        exact ⟨rfl, rfl, rfl, rfl, rfl, rfl, rfl⟩
      · simp [Top.system, Top.setCu, hc, hrefl]
    · exact .inr (hexec hs)
  | barrier =>
    obtain ⟨⟨core, ports⟩, hr, heq⟩ := Option.map_eq_some_iff.1 hs
    have hgpu : (s.system s.args).gpu.step .barrier =
        some (Gpu.withBarrier (s.system s.args).gpu core ports, []) :=
      Option.map_eq_some_iff.2 ⟨_, hr, rfl⟩
    have hsame : s'.system s.args = { s.system s.args with
        gpu := Gpu.withBarrier (s.system s.args).gpu core ports } := by
      split at heq <;> obtain ⟨rfl, -⟩ := Prod.mk.inj heq <;> rfl
    refine .inr ⟨.gpu .barrier, [] ++ [], ?_⟩
    rw [hsame]
    exact Option.map_eq_some_iff.2 ⟨_, hgpu, rfl⟩
  | arbiter =>
    obtain ⟨⟨arb, p, ev'⟩, hr, heq⟩ := Option.map_eq_some_iff.1 hs
    obtain ⟨rfl, -⟩ := Prod.mk.inj heq
    exact .inr ⟨.arbiter, _, Option.map_eq_some_iff.2 ⟨_, hr, rfl⟩⟩
  | memory =>
    obtain ⟨⟨side, ev'⟩, hr, heq⟩ := Option.map_eq_some_iff.1 hs
    obtain ⟨rfl, -⟩ := Prod.mk.inj heq
    exact .inr ⟨.memory, _, Option.map_eq_some_iff.2 ⟨_, hr, rfl⟩⟩

/-- The memory side does not depend on the launch. -/
theorem SideInv.setArgs {a' : LaunchArgs} {store store' : ProgramStore} {start : Bool}
    {cus : Fin B.numCus → Cu} {core : BarrierCore} {side : MemorySide} {tr : List MemEvent}
    (h : SideInv (L := B.launch a store) ⟨⟨start, cus, core⟩, side⟩ tr) :
    SideInv (L := B.launch a' store') ⟨⟨start, cus, core⟩, side⟩ tr :=
  ⟨h.reqs, h.resps, h.outstanding, h.stamped, h.reqIn, h.forward, h.reqOut, h.respond, h.respIn,
    h.deliver, h.served, h.nextCu, h.scan, h.passed⟩

theorem Flowing.setArgs {a' : LaunchArgs} (h : Flowing B.side (s.system a)) :
    Flowing B.side (s.system a') := by
  obtain ⟨⟨tr, hside⟩, hroom⟩ := h
  exact ⟨⟨tr, hside.setArgs⟩, hroom⟩

end TopSystem

end RiscvGpgpu.Hls
