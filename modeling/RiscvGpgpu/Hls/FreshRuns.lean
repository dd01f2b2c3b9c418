import RiscvGpgpu.Hls.DispatchSchedule

/-!
# Runs from a fresh start

The flat top after reset, with empty caches. Away from the memory side its runs are those of
`gpuSystem`, and the memory side serves one sequence of requests (`FreshRun.serves`).
-/

namespace RiscvGpgpu.Hls

open Launch

/-! ## The system from a fresh start -/

def TopEvent.warp? : TopEvent → Option Event
  | warp e => some e
  | mem _ => none

/-- The events of the warps. -/
def warpTrace (tr : List TopEvent) : List Event := tr.filterMap TopEvent.warp?

@[simp] theorem warpTrace_append (tr ev : List TopEvent) :
    warpTrace (tr ++ ev) = warpTrace tr ++ warpTrace ev := List.filterMap_append ..

@[simp] theorem warpTrace_mem (ev : List MemEvent) : warpTrace (ev.map .mem) = [] := by
  unfold warpTrace
  rw [List.filterMap_map]
  exact List.filterMap_none _

@[simp] theorem warpTrace_warp (ev : List Event) : warpTrace (ev.map .warp) = ev := by
  unfold warpTrace
  rw [List.filterMap_map]
  exact List.filterMap_some

/-- The flat top after reset, with these registers, this memory and empty caches. -/
structure System.Fresh {L : Launch} (m : MemorySubsystem) (mem : GlobalMem)
    (regs : L.Cus → SlotId → RegFile) (s : System L) : Prop where
  core : s.gpu.core = {}
  cus : ∀ c, s.gpu.cus c = Gpu.resetCu (regs c)
  arbiter : s.side.arbiter = {}
  reqOut : s.side.reqOut = []
  respIn : s.side.respIn = []
  process : s.side.process = .ready
  mem : s.side.mem = (m.reset, mem)

def freshSystem (L : Launch) (D : SideDepths) (m : MemorySubsystem) (mem : GlobalMem)
    (regs : L.Cus → SlotId → RegFile) : Transition (System L) (SystemAction L) TopEvent where
  init := System.Fresh m mem regs
  step := System.step D

/-- The runs of one launch. -/
abbrev FreshRun (L : Launch) (D : SideDepths) (m : MemorySubsystem) (mem : GlobalMem)
    (regs : L.Cus → SlotId → RegFile) : System L → List TopEvent → Prop :=
  (freshSystem L D m mem regs).Run fun s => OneLaunch s.gpu

/-- The top behind reset, with `start` high. -/
def freshStart (L : Launch) (m : MemorySubsystem) (mem : GlobalMem)
    (regs : L.Cus → SlotId → RegFile) : System L where
  gpu := ⟨true, fun c => Gpu.resetCu (regs c), {}⟩
  side := ⟨{}, [], [], .ready, (m.reset, mem)⟩

/-- Every process takes a step if it can. -/
def launchRound (L : Launch) : List (SystemAction L) :=
  ((List.finRange L.numCus).flatMap fun c => [.gpu (.scheduler c), .gpu (.pipeline c)]) ++
    [.gpu .barrier, .arbiter, .arbiter, .memory]

/-- Two rounds with `start` high, then `n` with `start` low. -/
def launchActions {L : Launch} (n : ℕ) (round : List (SystemAction L)) : List (SystemAction L) :=
  ((List.finRange L.numCus).map fun c => .gpu (.programLoaded c)) ++ round ++ round ++
    .gpu (.setStart false) :: (List.replicate n round).flatten

/-- What is reached by those of the actions that are enabled. -/
def followLaunch (L : Launch) (D : SideDepths) (m : MemorySubsystem) (mem : GlobalMem)
    (regs : L.Cus → SlotId → RegFile) (actions : List (SystemAction L)) :
    System L × List TopEvent :=
  (freshSystem L D m mem regs).follow (fun s => OneLaunch s.gpu) (freshStart L m mem regs)
    actions

theorem freshRun_followLaunch {L : Launch} {D : SideDepths} {m : MemorySubsystem} {mem : GlobalMem}
    {regs : L.Cus → SlotId → RegFile} (actions : List (SystemAction L)) :
    FreshRun L D m mem regs (followLaunch L D m mem regs actions).1
      (followLaunch L D m mem regs actions).2 := by
  have hinit : FreshRun L D m mem regs (freshStart L m mem regs) [] :=
    .init ⟨rfl, fun _ => rfl, rfl, rfl, rfl, rfl, rfl⟩ fun h => absurd h Bool.false_ne_true
  have hrun := hinit.follow actions
  rw [List.nil_append] at hrun
  exact hrun

section Projections

variable {L : Launch} {D : SideDepths} {m : MemorySubsystem} {mem : GlobalMem}
  {regs : L.Cus → SlotId → RegFile} {s s' : System L} {tr : List TopEvent}

theorem FreshRun.side (h : FreshRun L D m mem regs s tr) : SideInv s (memEvents tr) := by
  have hrun : (system L D).Run (fun _ => True) s tr := by
    induction h with
    | init h _ =>
      exact .init ⟨⟨h.core, fun c => ⟨_, h.cus c⟩⟩, h.arbiter, h.reqOut, h.respIn, h.process⟩
        trivial
    | step a _ hs _ ih => exact .step a ih hs trivial
  exact SideInv.run hrun

theorem gpu_ext {gpu gpu' : Gpu L} (hstart : gpu.start = gpu'.start) (hcore : gpu.core = gpu'.core)
    (hcus : ∀ c, gpu.cus c = gpu'.cus c) : gpu = gpu' := by
  obtain ⟨start, cus, core⟩ := gpu
  obtain ⟨start', cus', core'⟩ := gpu'
  obtain rfl : start = start' := hstart
  obtain rfl : core = core' := hcore
  obtain rfl : cus = cus' := funext hcus
  rfl

/-- A step of the CUs leaves the memory side alone, and tells it of requests and responses. -/
theorem gpu_step {a : Action L} {ev : List TopEvent} (hs : s.step D (.gpu a) = some (s', ev)) :
    ∃ ev', s.gpu.step a = some (s'.gpu, ev') ∧
      ev = ev'.map .warp ++ (s.gpuEvents a).map .mem ∧ s'.side = s.side := by
  have hmap : (s.gpu.step a).map (fun r => (({ s with gpu := r.1 } : System L),
      r.2.map TopEvent.warp ++ (s.gpuEvents a).map TopEvent.mem)) = some (s', ev) := by
    cases a with
    | takeRequest c => exact absurd hs (by simp [System.step])
    | giveResponse c resp => exact absurd hs (by simp [System.step])
    | _ => exact hs
  obtain ⟨⟨gpu, ev'⟩, hr, heq⟩ := Option.map_eq_some_iff.1 hmap
  obtain ⟨rfl, rfl⟩ := Prod.mk.inj heq
  exact ⟨ev', hr, rfl, rfl⟩

/-- To the CUs, a step of the arbiter is nothing, a request taken, or a response given. -/
theorem arbiter_gpu {arb : MemArbiter} {p : ArbiterPorts L.numCus} {ev : List MemEvent}
    (hs : arbiterStep L.numCus D.reqOut L.depths.memResp s.side.arbiter s.ports =
      some (arb, p, ev)) :
    (s.withArbiter arb p).gpu = s.gpu ∨
      ∃ a : Action L, s.gpu.step a = some ((s.withArbiter arb p).gpu, []) := by
  cases arbiterStep_turns hs with
  | miss => exact .inl rfl
  | @grant i idx req rest hpc hi hidx hq =>
    refine .inr ⟨.takeRequest idx, ?_⟩
    have hreq : (s.gpu.cus idx).memReq = req :: rest := hq
    simp only [Gpu.step, hreq]
    congr 2
    refine gpu_ext rfl rfl fun c => ?_
    by_cases hc : c = idx
    · subst hc
      simp [setCu_self, System.withArbiter, System.ports]
    · simp [setCu_of_ne _ hc, System.withArbiter, System.ports, hc]
  | scanned | forward | quiet | route => exact .inl rfl
  | @deliver resp idx hpc hidx hq =>
    refine .inr ⟨.giveResponse idx resp, ?_⟩
    have hpush : push L.depths.memResp (s.gpu.cus idx).memResp resp =
      some ((s.gpu.cus idx).memResp ++ [resp]) := hq
    simp only [Gpu.step, hpush, Option.map_some]
    congr 2
    refine gpu_ext rfl rfl fun c => ?_
    by_cases hc : c = idx
    · subst hc
      simp [setCu_self, System.withArbiter, System.ports]
    · simp [setCu_of_ne _ hc, System.withArbiter, System.ports, hc]

theorem FreshRun.gpu (h : FreshRun L D m mem regs s tr) : LaunchRun L s.gpu (warpTrace tr) := by
  induction h with
  | init h hone => exact .init ⟨h.core, fun c => ⟨_, h.cus c⟩⟩ hone
  | step a _ hs hone ih =>
    rw [warpTrace_append]
    cases a with
    | gpu a =>
      obtain ⟨ev', hr, rfl, -⟩ := gpu_step hs
      rw [warpTrace_append, warpTrace_warp, warpTrace_mem, List.append_nil]
      exact .step a ih hr hone
    | arbiter =>
      obtain ⟨⟨arb, p, ev⟩, hr, heq⟩ := Option.map_eq_some_iff.1 hs
      obtain ⟨rfl, rfl⟩ := Prod.mk.inj heq
      rw [warpTrace_mem]
      obtain hsame | ⟨a, ha⟩ := arbiter_gpu hr
      · rw [List.append_nil]
        rw [hsame]
        exact ih
      · exact .step a ih ha hone
    | memory =>
      obtain ⟨⟨side, ev⟩, hr, heq⟩ := Option.map_eq_some_iff.1 hs
      obtain ⟨rfl, rfl⟩ := Prod.mk.inj heq
      rw [warpTrace_mem, List.append_nil]
      exact ih

end Projections

/-! ## What the memory has served -/

def MemEvent.served? : MemEvent → Option (MemReq × MemResp)
  | served req resp => some (req, resp)
  | _ => none

/-- The requests of all CUs that were served, in order, with their responses. -/
def servedAll (tr : List MemEvent) : List (MemReq × MemResp) := tr.filterMap MemEvent.served?

/-- The requests of all CUs that were served, in order. -/
def servedReqs (tr : List MemEvent) : List MemReq := (servedAll tr).map Prod.fst

theorem servedReqs_mono (tr ev : List MemEvent) : servedReqs tr <+: servedReqs (tr ++ ev) := by
  unfold servedReqs servedAll
  rw [List.filterMap_append, List.map_append]
  exact List.prefix_append _ _

theorem servedFor_eq (tr : List MemEvent) (id : CuId) :
    servedFor tr id = (servedAll tr).filter fun p => p.1.cuId = id := by
  unfold servedFor servedAll
  induction tr with
  | nil => rfl
  | cons e tr ih =>
    cases e with
    | served req resp =>
      by_cases hid : req.cuId = id <;>
        simp [MemEvent.servedFor?, MemEvent.served?, hid, ih]
    | _ => exact ih

theorem map_fst_servedFor (tr : List MemEvent) (id : CuId) :
    (servedFor tr id).map Prod.fst = requestsOf id (servedReqs tr) := by
  rw [servedFor_eq, requestsOf, servedReqs, List.filter_map]
  rfl

/-- The memory side has answered as the subsystem does. -/
structure Serves {L : Launch} (σ : MemState) (s : System L) (tr : List MemEvent) : Prop where
  mem : s.side.mem = stateAfter σ (servedReqs tr)
  responses : servedAll tr = answered σ (servedReqs tr)

section Serves

variable {L : Launch} {D : SideDepths} {m : MemorySubsystem} {mem : GlobalMem}
  {regs : L.Cus → SlotId → RegFile} {s s' : System L} {tr : List TopEvent} {σ : MemState}

/-- Other steps do not serve anything. -/
theorem Serves.frame {tr ev : List MemEvent} (h : Serves σ s tr) (hmem : s'.side.mem = s.side.mem)
    (hev : ∀ e ∈ ev, e.served? = none) : Serves σ s' (tr ++ ev) := by
  have hsame : servedAll (tr ++ ev) = servedAll tr := by
    unfold servedAll
    rw [List.filterMap_append, List.filterMap_eq_nil_iff.2 hev, List.append_nil]
  have hreqs : servedReqs (tr ++ ev) = servedReqs tr := congrArg (List.map Prod.fst) hsame
  exact ⟨by rw [hmem, hreqs]; exact h.mem, by rw [hsame, hreqs]; exact h.responses⟩

theorem Serves.serve {tr : List MemEvent} {req : MemReq} (h : Serves σ s tr)
    (hmem : s'.side.mem = (handleRequest s.side.mem req).2) :
    Serves σ s' (tr ++ [.served req (handleRequest s.side.mem req).1]) := by
  have hall : servedAll (tr ++ [.served req (handleRequest s.side.mem req).1]) =
      servedAll tr ++ [(req, (handleRequest s.side.mem req).1)] := by
    unfold servedAll
    rw [List.filterMap_append]
    rfl
  have hreqs : servedReqs (tr ++ [.served req (handleRequest s.side.mem req).1]) =
      servedReqs tr ++ [req] := by
    unfold servedReqs
    rw [hall, List.map_append]
    rfl
  refine ⟨?_, ?_⟩
  · rw [hmem, hreqs, h.mem, stateAfter_append]
    rfl
  · rw [hall, hreqs, answered_concat, ← h.responses, ← h.mem]

/-- The events of a step of the arbiter are grants. -/
theorem arbiter_events {N reqDepth respDepth : ℕ} {arb arb' : MemArbiter} {p p' : ArbiterPorts N}
    {ev : List MemEvent} (hs : arbiterStep N reqDepth respDepth arb p = some (arb', p', ev)) :
    ∀ e ∈ ev, ∃ c req, e = .granted c req := by
  cases arbiterStep_turns hs with
  | grant => simp
  | miss | scanned | forward | quiet | route | deliver => simp

/-- The events of a step of the CUs are requests issued and responses received. -/
theorem gpuEvents_served {a : Action L} : ∀ e ∈ s.gpuEvents a, e.served? = none := by
  intro e he
  unfold System.gpuEvents System.pipelineEvents at he
  split at he
  · split at he
    · rw [List.mem_singleton.1 he]
      rfl
    · rw [List.mem_singleton.1 he]
      rfl
    · exact absurd he List.not_mem_nil
  · exact absurd he List.not_mem_nil

theorem FreshRun.serves (h : FreshRun L D m mem regs s tr) :
    Serves (m.reset, mem) s (memEvents tr) := by
  induction h with
  | init h _ => exact ⟨h.mem, rfl⟩
  | step a _ hs _ ih =>
    rw [memEvents_append]
    cases a with
    | gpu a =>
      obtain ⟨ev', -, rfl, hside⟩ := gpu_step hs
      rw [memEvents_append, memEvents_warp, memEvents_mem, List.nil_append]
      exact ih.frame (by rw [hside]) gpuEvents_served
    | arbiter =>
      obtain ⟨⟨arb, p, ev⟩, hr, heq⟩ := Option.map_eq_some_iff.1 hs
      obtain ⟨rfl, rfl⟩ := Prod.mk.inj heq
      rw [memEvents_mem]
      refine ih.frame rfl fun e he => ?_
      obtain ⟨c, req, rfl⟩ := arbiter_events hr e he
      rfl
    | memory =>
      obtain ⟨⟨side, ev⟩, hr, heq⟩ := Option.map_eq_some_iff.1 hs
      obtain ⟨rfl, rfl⟩ := Prod.mk.inj heq
      rw [memEvents_mem]
      unfold MemorySide.memoryStep at hr
      split at hr
      · split at hr
        · exact absurd hr (by simp)
        · obtain ⟨rfl, rfl⟩ := Prod.mk.inj (Option.some.inj hr)
          exact ih.serve rfl
      · obtain ⟨queue, -, heq⟩ := Option.map_eq_some_iff.1 hr
        obtain ⟨rfl, rfl⟩ := Prod.mk.inj heq
        exact ih.frame rfl (by simp)

end Serves

end RiscvGpgpu.Hls
