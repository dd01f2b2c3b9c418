import RiscvGpgpu.Hls.TopLaunch

/-!
# States that no process can change

The processes of the top never stop: without work they go around their loops. In a quiescent state
that is all they do, whoever takes his steps and however many. No state of a launch under way is
quiescent (`Ongoing.not_quiescent`): who can act further on in his loop (`System.can`) comes nearer
to it with every step.
-/

namespace RiscvGpgpu.Hls

open Launch

/-! ## Quiescent states -/

/-- The CU with its scheduler put at the head of its loop. -/
def Cu.atHead (cu : Cu) : Cu := cu.setScheduler { cu.scheduler with pc := .head }

namespace Top

variable {B : Build} (s : Top B)

/-- The state apart from the places at which the processes stand in their loops. -/
def data : Top B :=
  { s with
    loader := { s.loader with pc := .head }
    polled := fun _ => false
    cus := fun c => (s.cus c).atHead
    core := { s.core with pc := .head }
    side := { s.side with arbiter := { s.side.arbiter with pc := .scan 0 } } }

end Top

/-- The host is no process. -/
def TopAction.isProcess {N : ℕ} : TopAction N → Bool
  | raise _ | drop | sample => false
  | loader | scheduler _ | pipeline _ | barrier | arbiter | memory => true

/-- No steps of the processes change anything but their places. -/
def Top.Quiescent {B : Build} (H : HostProtocol) (s : Top B) : Prop :=
  ∀ acts : List (TopAction B.numCus), (∀ act ∈ acts, act.isProcess = true) →
    ∀ r, (topSystem B H).exec (fun _ => True) s acts = some r → r.1.data = s.data

section Quiescent

variable {B : Build} {H : HostProtocol} {s s' : Top B} {act : TopAction B.numCus}
  {ev : List FlatEvent}

theorem Top.Quiescent.data (h : s.Quiescent H) (hact : act.isProcess = true)
    (hs : s.step H act = some (s', ev)) : s'.data = s.data := by
  refine h [act] (by simpa using hact) (s', ev ++ []) ?_
  have hs : (topSystem B H).step s act = some (s', ev) := hs
  simp [Transition.exec, hs]

theorem Top.Quiescent.step (h : s.Quiescent H) (hact : act.isProcess = true)
    (hs : s.step H act = some (s', ev)) : s'.Quiescent H := by
  intro acts hacts r hr
  rw [h.data hact hs]
  have hs' : (topSystem B H).step s act = some (s', ev) := hs
  refine h (act :: acts) (by simpa using ⟨hact, hacts⟩) (r.1, ev ++ r.2) ?_
  simp [Transition.exec, hs', hr]

end Quiescent

/-! ## States at rest -/

def Pipeline.isIdle : Pipeline → Bool
  | idle => true
  | running _ _ | waiting _ _ => false

def MemoryProcess.isReady : MemoryProcess → Bool
  | ready => true
  | respond _ => false

/-- `barrierCoreN` is before a test, not before a write. -/
def BarrierPc.isTest : BarrierPc → Bool
  | head | pollCuEvents _ | releaseCheck | completeCheck => true
  | signalRelease _ | signalDone _ => false

def ArbiterPc.isTest : ArbiterPc → Bool
  | scan _ | route => true
  | forward _ _ | deliver _ => false

/-- Nothing is left to do on the CU, whose scheduler waits for a launch. -/
def Cu.AtRest (cu : Cu) : Prop :=
  cu.scheduler.busyCuScheduler = false ∧ cu.scheduler.pc = .head ∧ cu.pipeline.isIdle = true ∧
    cu.dispatch = [] ∧ cu.port.events = [] ∧ cu.memReq = []

/-- `barrierCoreN` waits for a launch, or for an event. -/
def BarrierCore.AtRest (core : BarrierCore) : Prop :=
  if core.busy = true then
    core.pc.isTest = true ∧ barrierReleaseReady core.counts = false ∧
      barrierKernelComplete core.counts = false
  else core.pc = .head

def MemorySide.AtRest (side : MemorySide) : Prop :=
  side.arbiter.pc.isTest = true ∧ side.reqOut = [] ∧ side.respIn = [] ∧
    side.process.isReady = true

/-- Every process waits for another one, and `start` is low. -/
def Top.AtRest {B : Build} (s : Top B) : Prop :=
  (s.start = false ∧ s.loader = {} ∧ ∀ c, s.seeds c = []) ∧ (∀ c, (s.cus c).AtRest) ∧
    s.core.AtRest ∧ s.side.AtRest

instance (cu : Cu) : Decidable cu.AtRest := inferInstanceAs (Decidable (_ ∧ _ ∧ _ ∧ _ ∧ _ ∧ _))

instance (core : BarrierCore) : Decidable core.AtRest :=
  inferInstanceAs (Decidable (if core.busy = true then _ ∧ _ ∧ _ else core.pc = .head))

instance (side : MemorySide) : Decidable side.AtRest :=
  inferInstanceAs (Decidable (_ ∧ _ ∧ _ ∧ _))

instance {B : Build} (s : Top B) : Decidable s.AtRest :=
  inferInstanceAs (Decidable ((_ ∧ _ ∧ _) ∧ _ ∧ _ ∧ _))

section AtRest

variable {B : Build} {H : HostProtocol} {s s' : Top B} {act : TopAction B.numCus}
  {ev : List FlatEvent}

theorem Top.setCu_self (c : Fin B.numCus) : s.setCu c (s.cus c) = s := by
  unfold Top.setCu
  rw [Function.update_eq_self]

/-- `barrierCoreN` finds no event, and nothing to signal. -/
theorem BarrierCore.AtRest.step {G : GpuSize} {depth : ℕ} {totalWarps : WarpId}
    {core core' : BarrierCore} {ports ports' : Fin G.numCus → BarrierPort} (h : core.AtRest)
    (hports : ∀ c, (ports c).events = [])
    (hs : Hls.barrierStep G depth totalWarps false core ports = some (core', ports')) :
    ports' = ports ∧ core' = { core with pc := core'.pc } ∧ core'.AtRest := by
  unfold BarrierCore.AtRest at h
  split at h
  · next hbusy =>
    obtain ⟨htest, hrelease, hcomplete⟩ := h
    have hmove (pc : BarrierPc) (hpc : pc.isTest = true) :
        BarrierCore.AtRest { core with pc := pc } := by
      unfold BarrierCore.AtRest
      rw [if_pos hbusy]
      exact ⟨hpc, hrelease, hcomplete⟩
    cases barrierStep_moves hs with
    | poll | pass | polled | hold | incomplete => exact ⟨rfl, rfl, hmove _ rfl⟩
    | idle _ hb => exact absurd (hbusy.symm.trans hb) (by simp)
    | reject _ _ hstart | accept _ _ hstart => exact absurd hstart (by simp)
    | @count c _ _ _ hev => exact absurd ((hports c).symm.trans hev) (by simp)
    | release _ hready => exact absurd (hrelease.symm.trans hready) (by simp)
    | complete _ hready => exact absurd (hcomplete.symm.trans hready) (by simp)
    | signal hpc | signalled hpc | finish hpc | finished hpc =>
      rw [hpc] at htest
      exact absurd htest (by simp [BarrierPc.isTest])
  · next hbusy =>
    rw [Bool.not_eq_true] at hbusy
    unfold Hls.barrierStep at hs
    rw [h, hbusy] at hs
    obtain ⟨rfl, rfl⟩ := Prod.mk.inj (Option.some.inj hs)
    refine ⟨rfl, rfl, ?_⟩
    unfold BarrierCore.AtRest
    rw [if_neg (by simp [hbusy])]
    exact h

/-- The memory arbiter finds no request and no response. -/
theorem MemorySide.AtRest.arbiter {side : MemorySide} {N reqDepth respDepth : ℕ}
    {arb : MemArbiter} {p p' : ArbiterPorts N} {ev : List MemEvent} (h : side.AtRest)
    (hreqs : ∀ c, p.reqIn c = []) (hresps : p.respIn = [])
    (hs : arbiterStep N reqDepth respDepth side.arbiter p = some (arb, p', ev)) :
    p' = p ∧ arb = { side.arbiter with pc := arb.pc } ∧ arb.pc.isTest = true := by
  have htest := h.1
  cases arbiterStep_turns hs with
  | miss | scanned | quiet => exact ⟨rfl, rfl, rfl⟩
  | @grant _ c _ _ _ _ _ hq => exact absurd ((hreqs c).symm.trans hq) (by simp)
  | route _ hq => exact absurd (hresps.symm.trans hq) (by simp)
  | forward hpc | deliver hpc =>
    rw [hpc] at htest
    exact absurd htest (by simp [ArbiterPc.isTest])

theorem Top.AtRest.pipeline (h : s.AtRest) {c : Fin B.numCus}
    (hs : s.pipelineStep c = some (s', ev)) : ∃ polled, s' = { s with polled := polled } := by
  obtain ⟨⟨-, -, hseeds⟩, hcus, -⟩ := h
  obtain ⟨-, -, hidle, hdispatch, -⟩ := hcus c
  have hpipeline : (s.cus c).pipeline = .idle := by
    cases hp : (s.cus c).pipeline with
    | idle => rfl
    | running | waiting =>
      rw [hp] at hidle
      exact absurd hidle (by simp [Pipeline.isIdle])
  unfold Top.pipelineStep at hs
  rw [hpipeline, hseeds c] at hs
  split at hs
  · obtain ⟨rfl, -⟩ := Prod.mk.inj (Option.some.inj hs)
    exact ⟨_, rfl⟩
  · next hcons => exact absurd hcons (by simp)
  · obtain ⟨⟨cu, ev'⟩, hr, heq⟩ := Option.map_eq_some_iff.1 hs
    obtain ⟨rfl, -⟩ := Prod.mk.inj heq
    unfold Cu.pipelineStep at hr
    rw [hpipeline] at hr
    dsimp only at hr
    rw [hdispatch] at hr
    obtain ⟨rfl, -⟩ := Prod.mk.inj (Option.some.inj hr)
    exact ⟨_, Top.setCu_self (s := { s with polled := Function.update s.polled c false }) c⟩

/-- At rest the processes go around their loops. -/
theorem Top.AtRest.step (h : s.AtRest) (hact : act.isProcess = true)
    (hs : s.step H act = some (s', ev)) : s'.AtRest ∧ s'.data = s.data := by
  have hrest := h
  obtain ⟨⟨hstart, hloader, hseeds⟩, hcus, hcore, hside⟩ := h
  cases act with
  | raise | drop | sample => exact absurd hact (by simp [TopAction.isProcess])
  | loader =>
    obtain ⟨⟨ld, p, ev'⟩, hr, heq⟩ := Option.map_eq_some_iff.1 hs
    obtain ⟨rfl, -⟩ := Prod.mk.inj heq
    rw [hloader, hstart] at hr
    obtain ⟨rfl, rfl, -⟩ : _ ∧ _ ∧ _ := by simpa [ProgramLoader.step] using hr
    have hsame : s.withLoader {} s.loaderPorts = s := by
      rw [← hloader]
      rfl
    rw [hsame]
    exact ⟨hrest, rfl⟩
  | scheduler c =>
    obtain ⟨⟨cu, ev'⟩, hr, heq⟩ := Option.map_eq_some_iff.1 hs
    obtain ⟨rfl, -⟩ := Prod.mk.inj heq
    obtain ⟨hb, hpc, -⟩ := hcus c
    unfold Cu.schedulerStep at hr
    simp only [hpc, hb, hstart, Bool.false_and, Bool.false_eq_true, if_false, Option.some.injEq,
      Prod.mk.injEq] at hr
    obtain ⟨rfl, -⟩ := hr
    rw [Top.setCu_self]
    exact ⟨hrest, rfl⟩
  | pipeline c =>
    obtain ⟨polled, rfl⟩ := hrest.pipeline hs
    exact ⟨hrest, rfl⟩
  | barrier =>
    obtain ⟨⟨core, ports⟩, hr, heq⟩ := Option.map_eq_some_iff.1 hs
    rw [if_neg fun hacc => absurd (hstart.symm.trans hacc.2.2) (by simp)] at heq
    obtain ⟨rfl, -⟩ := Prod.mk.inj heq
    rw [hstart] at hr
    obtain ⟨rfl, hpc, hcore'⟩ := hcore.step (fun c => (hcus c).2.2.2.2.1) hr
    refine ⟨⟨⟨hstart, hloader, hseeds⟩, hcus, hcore', hside⟩, ?_⟩
    rw [hpc]
    rfl
  | arbiter =>
    obtain ⟨⟨arb, p, ev'⟩, hr, heq⟩ := Option.map_eq_some_iff.1 hs
    obtain ⟨rfl, -⟩ := Prod.mk.inj heq
    obtain ⟨rfl, hpc, htest⟩ := hside.arbiter (fun c => (hcus c).2.2.2.2.2) hside.2.2.1 hr
    refine ⟨⟨⟨hstart, hloader, hseeds⟩, hcus, hcore, htest, hside.2⟩, ?_⟩
    rw [hpc]
    rfl
  | memory =>
    obtain ⟨-, hreqOut, -, hready⟩ := hside
    have hnone : s.side.memoryStep B.side = none := by
      unfold MemorySide.memoryStep
      split
      · rw [hreqOut]
      · next hproc =>
        rw [hproc] at hready
        exact absurd hready (by simp [MemoryProcess.isReady])
    dsimp only [Top.step] at hs
    rw [hnone] at hs
    exact absurd hs (by simp)

/-- A state at rest is quiescent. -/
theorem Top.AtRest.quiescent (h : s.AtRest) : s.Quiescent H := by
  intro acts hacts r hr
  induction acts generalizing s r with
  | nil =>
    obtain rfl := Option.some.inj hr
    rfl
  | cons act acts ih =>
    rw [Transition.exec] at hr
    split at hr
    · next s' ev hs =>
      rw [if_pos trivial] at hr
      obtain ⟨r', hr', rfl⟩ := Option.map_eq_some_iff.1 hr
      obtain ⟨hrest, hdata⟩ := h.step (hacts act List.mem_cons_self) hs
      exact (ih hrest (fun act' hact' => hacts act' (List.mem_cons_of_mem _ hact')) _ hr').trans
        hdata
    · exact absurd hr (by simp)

end AtRest

/-! ## A launch under way -/

/-- Every CU has launched, `start` is low, and `done` is not raised. -/
structure Ongoing {B : Build} (a : LaunchArgs) (s : Top B) : Prop where
  args : s.args = a
  alive : Alive B.side (s.system a)
  launched : Launched (s.system a).gpu
  notDone : s.core.done = false
  held : ∀ c, (s.cus c).dispatch ≠ [] → HoldsTo a maxProgramLen (s.stores c)

/-- What a launch needs to come to its end. -/
structure Launchable (B : Build) (a : LaunchArgs) : Prop where
  buffered : Buffered (B.launch a a.store) B.side
  pos : 0 < a.totalWarps.toNat
  fits : a.totalWarps.toNat ≤ B.capacity

section Ongoing

variable {B : Build} {H : HostProtocol} {s s' : Top B} {a : LaunchArgs}
  {act : TopAction B.numCus} {ev : List FlatEvent}

theorem data_cu (h : s'.data = s.data) (c : Fin B.numCus) :
    (s'.cus c).atHead = (s.cus c).atHead := congrFun (congrArg Top.cus h) c

/-- A step that changes nothing but places leaves the launch under way. -/
theorem Ongoing.step (h : Ongoing a s) (ha : Launchable B a) (hact : act.isProcess = true)
    (hs : s.step H act = some (s', ev)) (hdata : s'.data = s.data) : Ongoing a s' := by
  have hcu := data_cu hdata
  have hcore (b : BarrierCore → Bool) (hb : ∀ core, b { core with pc := .head } = b core) :
      b s'.core = b s.core := by
    rw [← hb s'.core, ← hb s.core]
    exact congrArg (fun t : Top B => b t.core) hdata
  have hdone : s'.core.done = s.core.done := hcore BarrierCore.done fun _ => rfl
  have hone : OneLaunch (s.system a).gpu := fun _ => h.launched.start
  refine ⟨(congrArg Top.args hdata).trans h.args, ?_, ⟨?_, ?_, fun c => ?_⟩,
    hdone.trans h.notDone, fun c hd => ?_⟩
  · obtain hsame | ⟨b, tr, hstep⟩ :=
      Top.step_system h.args h.held (fun args heq => by simp [heq, TopAction.isProcess] at hact) hs
    · exact h.alive.congr hsame
    · exact h.alive.step ha.buffered ha.fits hone hstep
  · exact (congrArg Top.start hdata).trans h.launched.start
  · exact (hcore BarrierCore.busy fun _ => rfl).trans h.launched.busy
  · exact (congrArg (fun cu => cu.scheduler.busyCuScheduler) (hcu c)).trans (h.launched.cus c)
  · have hstores : s'.stores = s.stores := (congrArg Top.stores hdata :)
    have hdispatch : (s'.cus c).dispatch = (s.cus c).dispatch := (congrArg Cu.dispatch (hcu c) :)
    rw [hstores]
    exact h.held c (by rwa [← hdispatch])

/-- The views of the CUs, none of which is told that the launch is done. -/
theorem Ongoing.view (h : Ongoing a s) : ∃ tr v g,
    ViewInv (B.launch a a.store) (s.system a).gpu tr v g ∧
      ∀ c, CuInv (B.launch a a.store) c false (s.core.owed c) tr (v c) (s.cus c) := by
  obtain ⟨tr, v, g, hview⟩ := h.alive.launch
  refine ⟨_, v, g, hview, fun c => ?_⟩
  have hcu := hview.cus c
  rwa [show (s.system a).gpu.core.done = false from h.notDone] at hcu

/-- The work of a CU is in its data, apart from a result that is recorded. -/
theorem work_atHead (L : Launch) (cu : Cu) :
    cu.work L = cu.atHead.work L + cu.scheduler.pc.work L := by
  have hcore : cu.scheduler.work L = cu.atHead.scheduler.work L + cu.scheduler.pc.work L := by
    have hhead : cu.atHead.scheduler.pc.work L = 0 := rfl
    unfold SchedulerCore.work
    rw [hhead, Nat.add_zero]
    rfl
  simp only [Cu.work, hcore, Cu.atHead, Cu.setScheduler]
  omega

/-- The write of an event changes its stream. -/
theorem eventStep_events {L : Launch} {c : L.Cus} {cu cu' : Cu} {start : Bool}
    {code : WarpStatusCode} {ev : List Event} (hpc : cu.scheduler.pc = .event code)
    (hs : cu.schedulerStep L c start = some (cu', ev)) :
    cu'.port.events = cu.port.events ++ [code] := by
  unfold Cu.schedulerStep at hs
  simp only [hpc] at hs
  obtain ⟨queue, hq, heq⟩ := Option.map_eq_some_iff.1 hs
  obtain ⟨rfl, -⟩ := Prod.mk.inj heq
  obtain rfl := push_eq_some hq
  rfl

/-- A scheduler that changes nothing but its place finds nothing to do there. -/
theorem CuInv.passes {L : Launch} {c : L.Cus} {owed : ℕ} {tr : List Event} {v : CuView}
    {cu cu' : Cu} {start : Bool} {ev : List Event} (h : CuInv L c false owed tr v cu)
    (hrun : cu.scheduler.busyCuScheduler = true) (hs : cu.schedulerStep L c start = some (cu', ev))
    (hdata : cu'.atHead = cu.atHead) :
    ∃ pc, cu.Passes L pc ∧ cu' = cu.setScheduler { cu.scheduler with pc := pc } := by
  obtain ⟨-, hwork | hpass⟩ := h.schedulerStep_work hrun hs
  · rw [work_atHead L cu', work_atHead L cu, hdata] at hwork
    cases hpc : cu.scheduler.pc with
    | event code =>
      have hevents := eventStep_events hpc hs
      have hsame : cu'.port.events = cu.port.events :=
        (congrArg (fun cu : Cu => cu.port.events) hdata :)
      exact absurd (hevents.symm.trans hsame) (by simp)
    | _ =>
      rw [hpc] at hwork
      exact absurd (Nat.lt_of_add_lt_add_left hwork) (Nat.not_lt_zero _)
  · exact hpass

/-- The turn of a process that can act further on: it takes it nearer. -/
def ComesNearer (H : HostProtocol) (a : LaunchArgs) (act : TopAction B.numCus)
    (b : SystemAction (B.launch a a.store)) : Prop :=
  ∀ s : Top B, s.Quiescent H → Ongoing a s → (s.system a).can B.side b →
    ∃ s' ev, s.step H act = some (s', ev) ∧ (s'.system a).can B.side b ∧
      (s'.system a).dist b < (s.system a).dist b

/-- In a quiescent state of a launch such a process cannot act at all. -/
theorem ComesNearer.cannot {b : SystemAction (B.launch a a.store)} (h : ComesNearer H a act b)
    (ha : Launchable B a) (hact : act.isProcess = true) (hquiet : s.Quiescent H)
    (hs : Ongoing a s) : ¬ (s.system a).can B.side b := by
  induction hn : (s.system a).dist b using Nat.strong_induction_on generalizing s with
  | _ n ih =>
    intro hcan
    obtain ⟨s', ev, hstep, hcan', hnear⟩ := h s hquiet hs hcan
    exact ih _ (hn ▸ hnear) (hquiet.step hact hstep)
      (hs.step ha hact hstep (hquiet.data hact hstep)) rfl hcan'

theorem comesNearer_scheduler (ha : Launchable B a) (c : Fin B.numCus) :
    ComesNearer H a (.scheduler c) (.gpu (.scheduler c)) := by
  intro s hquiet hs hcan
  obtain ⟨tr, v, g, -, hview⟩ := hs.view
  have hcu := hview c
  have hrun : (s.cus c).scheduler.busyCuScheduler = true := hs.launched.cus c
  have hcan : (s.cus c).canSchedule (B.launch a a.store) := hcan
  cases hr : (s.cus c).schedulerStep (B.launch a a.store) c s.start with
  | none =>
    obtain ⟨code, hpc, hfull⟩ := hcu.schedulerStep_blocked hrun ha.buffered.dispatch hr
    unfold Cu.canSchedule at hcan
    rw [hpc] at hcan
    exact absurd hcan hfull
  | some r =>
    obtain ⟨cu, ev⟩ := r
    have hr' : (s.cus c).schedulerStep (B.launch s.args (s.stores c)) c s.start =
        some (cu, ev) := by
      rw [hs.args, schedulerStep_store a.store]
      exact hr
    have hstep : s.step H (.scheduler c) = some (s.setCu c cu, _) :=
      Option.map_eq_some_iff.2 ⟨_, hr', rfl⟩
    have hdata := data_cu (hquiet.data rfl hstep) c
    have hself : (s.setCu c cu).cus c = cu := Function.update_self ..
    rw [hself] at hdata
    obtain ⟨pc, hpass, hcu'⟩ := hcu.passes hrun hr hdata
    refine ⟨s.setCu c cu, _, hstep, ?_, ?_⟩
    · show ((s.setCu c cu).cus c).canSchedule (B.launch a a.store)
      rw [hself, hcu']
      exact hpass.canSchedule hcan
    · show ((s.setCu c cu).cus c).scheduleDist (B.launch a a.store) < _
      rw [hself, hcu']
      exact hpass.nearer hcan

/-- A turn without work is idle. -/
theorem Advances.idle {L : Launch} {D : SideDepths} {b : SystemAction L} {t t' : System L}
    (h : Advances D b t t') (hwork : t'.work = t.work) :
    Transition.Idle (System.can D) System.dist b t t' := by
  obtain hless | ⟨-, hidle⟩ := h
  · rw [hwork] at hless
    exact absurd hless (Nat.lt_irrefl _)
  · exact hidle

/-- Where `barrierCoreN` changes nothing but its place, it does no work. -/
theorem barrierStep_samePlaceWork {L : Launch} {start : Bool} {core core' : BarrierCore}
    {ports ports' : L.Cus → BarrierPort} (hbusy : core.busy = true)
    (hpc : ∀ i, core.pc ≠ .signalDone i) (hdone : core'.done = false)
    (hs : barrierStep L.toGpuSize L.depths.barrierSignal L.totalWarps start core ports =
      some (core', ports')) (hports : ports' = ports) (hcounts : core'.counts = core.counts) :
    core.pc.work L = core'.pc.work L := by
  have hport (c : L.Cus) : ports' c = ports c := congrFun hports c
  cases barrierStep_moves hs with
  | poll hat | pass hat | polled hat | hold hat | incomplete hat =>
    rw [hat]
    rfl
  | signalled hat hi =>
    rw [hat]
    show 2 * (L.numCus - _) = 0
    rw [Nat.sub_eq_zero_of_le hi]
  | idle _ hb | reject _ hb | accept _ hb => exact absurd (hbusy.symm.trans hb) (by simp)
  | finish hat | finished hat => exact absurd hat (hpc _)
  | complete => exact absurd hdone (by simp)
  | @count c code rest _ hev =>
    have hsame := hport c
    rw [Function.update_self] at hsame
    have hevents : rest = (ports c).events := congrArg BarrierPort.events hsame
    rw [hev] at hevents
    exact absurd hevents (by simp)
  | @signal c _ =>
    have hsame := hport c
    rw [Function.update_self] at hsame
    have hsignals : (ports c).signals ++ [releaseSignal] = (ports c).signals :=
      congrArg BarrierPort.signals hsame
    exact absurd hsignals (by simp)
  | release _ hready =>
    have hzero : core.counts.stalledCount = 0 :=
      (congrArg BarrierState.stalledCount hcounts :).symm
    simp only [barrierReleaseReady, Bool.and_eq_true, decide_eq_true_eq] at hready
    exact absurd (hready.2.symm.trans hzero) hready.1

theorem comesNearer_barrier (ha : Launchable B a) :
    ComesNearer H a (.barrier : TopAction B.numCus) (.gpu .barrier) := by
  intro s hquiet hs hcan
  obtain ⟨tr, v, g, hview, -⟩ := hs.view
  obtain rfl := hs.args
  have hbusy : s.core.busy = true := hs.launched.busy
  have hpc (i : ℕ) : s.core.pc ≠ .signalDone i := fun hat =>
    absurd (hs.notDone.symm.trans (hview.core.signalDone i hat)) Bool.false_ne_true
  cases hr : Hls.barrierStep B.toGpuSize B.depths.barrierSignal s.args.totalWarps s.start s.core
      s.ports with
  | none => exact absurd hcan (barrierStep_blocked (s := s.system s.args) hpc hr)
  | some r =>
    obtain ⟨core, ports⟩ := r
    have hnot : ¬ s.Accepts := fun hacc => absurd (hbusy.symm.trans hacc.2.1) (by simp)
    have hstep : s.step H .barrier = some (s.withBarrier core ports, []) := by
      show s.barrierStep = _
      unfold Top.barrierStep
      rw [hr, Option.map_some, if_neg hnot]
      rfl
    have hdata := hquiet.data rfl hstep
    have hports : ports = s.ports :=
      funext fun c => (congrArg Cu.port (data_cu hdata c) :)
    have hcore : core = { s.core with pc := core.pc } := by
      have hsame : { core with pc := BarrierPc.head } = { s.core with pc := .head } :=
        (congrArg Top.core hdata :)
      exact congrArg (fun old : BarrierCore => { old with pc := core.pc }) hsame
    have hdone : core.done = false := by
      rw [hcore]
      exact hs.notDone
    have hmoves := barrierStep_advances (s := s.system s.args) (D := B.side) hbusy hpc hr
    obtain ⟨-, hadv⟩ := hmoves.resolve_left (by simp [hdone])
    have hwork := barrierStep_samePlaceWork (L := B.launch s.args s.args.store) hbusy hpc hdone hr
      hports (by rw [hcore])
    have hidle := hadv.idle (by
      rw [hcore, hports]
      exact work_barrierPc (s := s.system s.args) hwork)
    exact ⟨_, _, hstep, hidle.keeps _ hcan, hidle.nearer hcan⟩

/-- Where the memory arbiter changes nothing but its place, it does no work. -/
theorem arbiterStep_samePlaceWork {N reqDepth respDepth : ℕ} {arb arb' : MemArbiter}
    {p p' : ArbiterPorts N} {ev : List MemEvent}
    (hs : arbiterStep N reqDepth respDepth arb p = some (arb', p', ev)) (hports : p' = p) :
    arb.pc.work = arb'.pc.work := by
  cases arbiterStep_turns hs with
  | miss hpc | scanned hpc | quiet hpc =>
    rw [hpc]
    rfl
  | @grant _ c req rest _ _ _ hq =>
    have hsame : Function.update p.reqIn c rest c = p.reqIn c :=
      congrArg (fun p : ArbiterPorts N => p.reqIn c) hports
    rw [Function.update_self, hq] at hsame
    exact absurd hsame (by simp)
  | forward =>
    have hsame := congrArg ArbiterPorts.reqOut hports
    exact absurd hsame (by simp)
  | route _ hq =>
    have hsame := congrArg ArbiterPorts.respIn hports
    rw [hq] at hsame
    exact absurd hsame (by simp)
  | @deliver resp c _ _ _ =>
    have hsame : Function.update p.respOut c (p.respOut c ++ [resp]) c = p.respOut c :=
      congrArg (fun p : ArbiterPorts N => p.respOut c) hports
    rw [Function.update_self] at hsame
    exact absurd hsame (by simp)

theorem comesNearer_arbiter (ha : Launchable B a) :
    ComesNearer H a (.arbiter : TopAction B.numCus) .arbiter := by
  intro s hquiet hs hcan
  obtain ⟨tr, hside⟩ := hs.alive.side
  obtain rfl := hs.args
  cases hr : arbiterStep B.numCus B.side.reqOut B.depths.memResp s.side.arbiter s.arbiterPorts with
  | none =>
    exact absurd hcan (arbiterStep_blocked (s := s.system s.args) hside ha.buffered hr)
  | some r =>
    obtain ⟨arb, p, ev⟩ := r
    have hstep : s.step H .arbiter = some (s.withArbiter arb p, ev.map .mem) :=
      Option.map_eq_some_iff.2 ⟨_, hr, rfl⟩
    have hdata := hquiet.data rfl hstep
    have hports : p = s.arbiterPorts := by
      obtain ⟨reqIn, respOut, reqOut, respIn⟩ := p
      have hreqIn : reqIn = s.arbiterPorts.reqIn :=
        funext fun c => (congrArg Cu.memReq (data_cu hdata c) :)
      have hrespOut : respOut = s.arbiterPorts.respOut :=
        funext fun c => (congrArg Cu.memResp (data_cu hdata c) :)
      have hreqOut : reqOut = s.arbiterPorts.reqOut :=
        (congrArg (fun t : Top B => t.side.reqOut) hdata :)
      have hrespIn : respIn = s.arbiterPorts.respIn :=
        (congrArg (fun t : Top B => t.side.respIn) hdata :)
      rw [hreqIn, hrespOut, hreqOut, hrespIn]
    have harb : arb = { s.side.arbiter with pc := arb.pc } := by
      have hsame : { arb with pc := ArbiterPc.scan 0 } = { s.side.arbiter with pc := .scan 0 } :=
        (congrArg (fun t : Top B => t.side.arbiter) hdata :)
      exact congrArg (fun old : MemArbiter => { old with pc := arb.pc }) hsame
    have hwork := arbiterStep_samePlaceWork hr hports
    have hidle := (arbiterStep_advances (s := s.system s.args) hside hr).idle (by
      rw [harb, hports]
      exact work_arbiterPc (s := s.system s.args) hwork)
    exact ⟨_, _, hstep, hidle.keeps _ hcan, hidle.nearer hcan⟩

theorem memory_cannot (hquiet : s.Quiescent H) : ¬ s.side.canServe B.side := by
  intro hcan
  cases hr : s.side.memoryStep B.side with
  | none => exact memoryStep_blocked (s := s.system s.args) hr hcan
  | some r =>
    obtain ⟨side, ev⟩ := r
    have hstep : s.step H .memory = some ({ s with side := side }, ev.map .mem) :=
      Option.map_eq_some_iff.2 ⟨_, hr, rfl⟩
    have hdata := hquiet.data rfl hstep
    have hreqOut : side.reqOut = s.side.reqOut :=
      (congrArg (fun t : Top B => t.side.reqOut) hdata :)
    have hrespIn : side.respIn = s.side.respIn :=
      (congrArg (fun t : Top B => t.side.respIn) hdata :)
    unfold MemorySide.memoryStep at hr
    split at hr
    · split at hr
      · exact absurd hr (by simp)
      · next req rest hreq =>
        obtain ⟨rfl, -⟩ := Prod.mk.inj (Option.some.inj hr)
        rw [hreq] at hreqOut
        exact absurd hreqOut (by simp)
    · obtain ⟨queue, hq, heq⟩ := Option.map_eq_some_iff.1 hr
      obtain ⟨rfl, -⟩ := Prod.mk.inj heq
      obtain rfl := push_eq_some hq
      exact absurd hrespIn (by simp)

/-- A pipeline that can proceed changes its CU. -/
theorem pipelineStep_ne {L : Launch} {c : L.Cus} {cu cu' : Cu} {ev : List Event}
    (hcan : cu.canProceed) (hs : cu.pipelineStep L c = some (cu', ev)) : cu' ≠ cu := by
  intro heq
  have hpipeline := congrArg Cu.pipeline heq
  unfold Cu.canProceed at hcan
  unfold Cu.pipelineStep at hs
  split at hs
  · next hp =>
    rw [hp] at hcan
    split at hs
    · next hd => exact hcan hd
    · obtain ⟨rfl, -⟩ := Prod.mk.inj (Option.some.inj hs)
      exact absurd (hpipeline.trans hp) (by simp)
  · next hp =>
    obtain ⟨queue, -, heq⟩ := Option.map_eq_some_iff.1 hs
    obtain ⟨rfl, -⟩ := Prod.mk.inj heq
    exact absurd (hpipeline.trans hp) (by simp)
  · next hp =>
    obtain ⟨queue, -, heq⟩ := Option.map_eq_some_iff.1 hs
    obtain ⟨rfl, -⟩ := Prod.mk.inj heq
    exact absurd (hpipeline.trans hp) (by simp)
  · next hp =>
    split at hs
    · exact absurd hs (by simp)
    · obtain ⟨rfl, -⟩ := Prod.mk.inj (Option.some.inj hs)
      exact absurd (hpipeline.trans hp) (by simp)

/-- Behind the poll of its seeds, or with a warp, a pipeline executes. -/
theorem pipelineStep_eq_exec {c : Fin B.numCus}
    (h : (s.cus c).pipeline = .idle → s.polled c = true) : s.pipelineStep c = s.execStep c := by
  unfold Top.pipelineStep
  split
  · next hp hpoll _ => exact absurd ((h hp).symm.trans hpoll) (by simp)
  · next hp hpoll _ => exact absurd ((h hp).symm.trans hpoll) (by simp)
  · rfl

theorem exec_cannot (ha : Launchable B a) {c : Fin B.numCus} (hquiet : s.Quiescent H)
    (hs : Ongoing a s) (hpolled : (s.cus c).pipeline = .idle → s.polled c = true) :
    ¬ (s.cus c).canProceed := by
  intro hcan
  obtain ⟨tr, hside⟩ := hs.alive.side
  obtain ⟨tr', v, g, -, hview⟩ := hs.view
  cases hr : (s.cus c).pipelineStep (B.launch a a.store) c with
  | none =>
    have hreqs (hnot : (s.cus c).pipeline.isWaiting = false) : (s.cus c).memReq = [] := by
      have hone := hside.outstanding c
      rw [show ((s.system a).gpu.cus c).pipeline.isWaiting = false from hnot,
        if_neg Bool.false_ne_true, System.pendingReqs, List.length_append] at hone
      have hzero : ((s.system a).gpu.cus c).memReq.length = 0 := by omega
      exact List.length_eq_zero_iff.1 hzero
    obtain ⟨d, k, hp, hempty⟩ :=
      (hview c).pipelineStep_blocked ha.buffered.status ha.buffered.memReq hreqs hr
    unfold Cu.canProceed at hcan
    rw [hp] at hcan
    exact hcan hempty
  | some r =>
    obtain ⟨cu, ev⟩ := r
    have hexec : (s.cus c).pipelineStep (B.launch s.args (s.stores c)) c = some (cu, ev) := by
      rw [hs.args, pipelineStep_store (hs.held c)]
      exact hr
    have hstep : s.step H (.pipeline c) = some _ :=
      (pipelineStep_eq_exec hpolled).trans (Option.map_eq_some_iff.2 ⟨_, hexec, rfl⟩)
    have hdata := data_cu (hquiet.data rfl hstep) c
    have hself : ((({ s with polled := Function.update s.polled c false } : Top B).setCu c
        cu).cus c) = cu := Function.update_self ..
    rw [hself] at hdata
    refine pipelineStep_ne hcan hr ?_
    have hscheduler := pipelineStep_scheduler hr
    obtain ⟨core, pipeline, regs, loaded, dispatch, status, port, memReq, memResp⟩ := cu
    obtain rfl : core = (s.cus c).scheduler := hscheduler
    exact congrArg (fun cu => cu.setScheduler (s.cus c).scheduler) hdata

theorem pipeline_cannot (ha : Launchable B a) {c : Fin B.numCus} (hquiet : s.Quiescent H)
    (hs : Ongoing a s) : ¬ (s.cus c).canProceed := by
  by_cases hpolled : (s.cus c).pipeline = .idle → s.polled c = true
  · exact exec_cannot ha hquiet hs hpolled
  · rw [Classical.not_imp, Bool.not_eq_true] at hpolled
    obtain ⟨hp, hpoll⟩ := hpolled
    cases hseeds : s.seeds c with
    | nil =>
      have hstep : s.step H (.pipeline c) =
          some ({ s with polled := Function.update s.polled c true }, []) := by
        show s.pipelineStep c = _
        unfold Top.pipelineStep
        rw [hp, hpoll, hseeds]
      have hnext := hs.step ha rfl hstep (hquiet.data rfl hstep)
      have hnot := exec_cannot (c := c) ha (hquiet.step rfl hstep) hnext
        fun _ => Function.update_self ..
      exact hnot
    | cons seed rest =>
      have hstep : s.step H (.pipeline c) =
          some (({ s with seeds := Function.update s.seeds c rest }).setCu c
            { s.cus c with regs := Top.applySeed (s.cus c).regs seed },
            [.seedApplied c seed]) := by
        show s.pipelineStep c = _
        unfold Top.pipelineStep
        rw [hp, hpoll, hseeds]
      have hsame : Function.update s.seeds c rest c = s.seeds c :=
        congrFun (congrArg Top.seeds (hquiet.data rfl hstep)) c
      rw [Function.update_self, hseeds] at hsame
      exact absurd hsame (by simp)

/-- No state of a launch under way is quiescent. -/
theorem Ongoing.not_quiescent (h : Ongoing a s) (ha : Launchable B a) : ¬ s.Quiescent H := by
  intro hquiet
  obtain ⟨tr, hside⟩ := h.alive.side
  obtain ⟨tr', v, g, hview, -⟩ := h.view
  refine Stuck.false (D := B.side) (fun b hb => ?_) ha.buffered hview h.notDone hside h.alive.room
    h.launched ha.fits ha.pos
  cases b with
  | gpu b =>
    cases b with
    | scheduler c => exact (comesNearer_scheduler ha c).cannot ha rfl hquiet h
    | pipeline c => exact pipeline_cannot ha hquiet h
    | barrier => exact (comesNearer_barrier ha).cannot ha rfl hquiet h
    | _ => exact absurd hb id
  | arbiter => exact (comesNearer_arbiter ha).cannot ha rfl hquiet h
  | memory => exact memory_cannot hquiet

end Ongoing

end RiscvGpgpu.Hls
