import RiscvGpgpu.Lib.AskBounds
import RiscvGpgpu.Lib.Fairness
import RiscvGpgpu.Hls.FreshRuns

/-!
# The work that is left of a launch

A potential of the states of the flat top: what its warps still have to run, and how far every
dispatch, request, status, event and signal still has to go. A step of a CU uses some of it up, or
takes its scheduler around an empty loop (`Cu.Passes`).
-/

namespace RiscvGpgpu.Hls

open Launch

/-! ## The requests of a dispatch -/

section Asks

theorem asksAtMost_memOpLanes (cuId : CuId) (warpId : WarpId) (instr : Instruction)
    (mask : ThreadMask) (ts : List Lane) (regs : RegFile) :
    (memOpLanes cuId warpId instr mask ts regs).AsksAtMost ts.length := by
  induction ts generalizing regs with
  | nil => trivial
  | cons t ts ih =>
    unfold memOpLanes
    split
    · exact fun _ => ih _
    · exact (ih _).mono (Nat.le_succ _)

/-- An instruction asks once for each lane at most. -/
theorem asksAtMost_executeInstr (P : PipelineParams) (warpId : WarpId) (instr : Instruction)
    (simt : DivergenceStack) (regs : RegFile) :
    (executeInstr P warpId instr simt regs).AsksAtMost 32 := by
  unfold executeInstr
  dsimp only
  split_ifs
  · trivial
  · trivial
  · have hlanes := asksAtMost_memOpLanes P.cuId warpId instr simt.activeMask (List.finRange 32) regs
    rw [List.length_finRange] at hlanes
    exact hlanes.bind (n := 0) fun _ => trivial
  · trivial
  · trivial

theorem asksAtMost_decodeLoop (P : PipelineParams) (warpId : WarpId) (i : ℕ)
    (code : List Instruction) (simt : DivergenceStack) (regs : RegFile) (count : Word) :
    (decodeLoop P warpId i code simt regs count).AsksAtMost (32 * code.length) := by
  induction code generalizing i simt regs count with
  | nil => trivial
  | cons instr rest ih =>
    unfold decodeLoop
    split_ifs
    · trivial
    · trivial
    · have hinstr := asksAtMost_executeInstr P warpId instr simt regs
      refine (hinstr.bind fun s => ih (i + 1) s.1 s.2 (count + 1)).mono ?_
      rw [List.length_cons]
      omega

theorem asksAtMost_execute {L : Launch} (c : L.Cus) (d : WarpDispatch) (regs : RegFile) :
    (L.execute c d regs).AsksAtMost (32 * maxProgramLen) := by
  refine (asksAtMost_decodeLoop ..).mono (Nat.mul_le_mul_left 32 ?_)
  rw [List.length_drop, List.length_take]
  omega

end Asks

/-- There is a bound on the requests that the pipeline can still write. -/
def Pipeline.Bounded : Pipeline → Prop
  | idle => True
  | running _ rest => ∃ n, rest.AsksAtMost n
  | waiting _ rest => ∃ n, ∀ resp, (rest resp).AsksAtMost n

theorem Pipeline.Bounded.step {L : Launch} {c : L.Cus} {cu cu' : Cu} {ev : List Event}
    (h : cu.pipeline.Bounded) (hs : cu.pipelineStep L c = some (cu', ev)) :
    cu'.pipeline.Bounded := by
  unfold Cu.pipelineStep at hs
  split at hs
  · split at hs
    · obtain ⟨rfl, -⟩ := Prod.mk.inj (Option.some.inj hs)
      exact h
    · next d rest hd =>
      obtain ⟨rfl, -⟩ := Prod.mk.inj (Option.some.inj hs)
      exact ⟨_, asksAtMost_execute c d (cu.regs d.slotId)⟩
  · next d req k hp =>
    obtain ⟨queue, -, heq⟩ := Option.map_eq_some_iff.1 hs
    obtain ⟨rfl, -⟩ := Prod.mk.inj heq
    rw [hp] at h
    obtain ⟨n, hn⟩ := h
    cases n with
    | zero => exact hn.elim
    | succ n => exact ⟨n, hn⟩
  · obtain ⟨queue, -, heq⟩ := Option.map_eq_some_iff.1 hs
    obtain ⟨rfl, -⟩ := Prod.mk.inj heq
    trivial
  · next d k hp =>
    split at hs
    · exact absurd hs (by simp)
    · next resp rest hr =>
      obtain ⟨rfl, -⟩ := Prod.mk.inj (Option.some.inj hs)
      rw [hp] at h
      obtain ⟨n, hn⟩ := h
      exact ⟨n, hn resp⟩

/-! ## Work -/

section Work

variable (L : Launch)

/-- A dispatch on its stream. -/
def dispatchWork : ℕ := 10 * (32 * maxProgramLen) + 3

/-- A stall that the arbiter has counted: it pays for the release of all CUs. -/
def stallWork : ℕ := 2 * L.numCus + 1

/-- An event on its stream. -/
def eventWork : ℕ := stallWork L + 1

/-- A CU with no warp in flight pays for the next dispatch. -/
def idleWork : ℕ := dispatchWork + 1

/-- A result that is recorded and whose event is not written. -/
def recordWork : ℕ := idleWork + eventWork L + 1

/-- A warp has at most as many waves as there are words behind its resume pc, and one more. -/
def slotWork (slot : WarpSlot) : ℕ :=
  match slot.state with
  | .ready | .stalled => recordWork L * (maxProgramLen - slot.resumePc.toNat + 1)
  | .empty | .done => 0

def SchedulerPc.work : SchedulerPc → ℕ
  | event _ => recordWork L
  | _ => 0

def SchedulerCore.work (core : SchedulerCore) : ℕ :=
  ∑ slot, slotWork L (core.slots slot) + (if core.busyCu then 0 else idleWork) + core.pc.work L

noncomputable def Pipeline.work : Pipeline → ℕ
  | idle => 0
  | running _ rest => 10 * rest.asksLeft + 2
  | waiting _ rest => 10 * Interact.answersLeft rest + 3

/-- What a CU has left, with the requests it has written. -/
noncomputable def Cu.work (cu : Cu) : ℕ :=
  cu.scheduler.work L + dispatchWork * cu.dispatch.length + cu.pipeline.work + cu.status.length +
    eventWork L * cu.port.events.length + cu.port.signals.length + 6 * cu.memReq.length

/-- The releases that `barrierCoreN` has still to send. -/
def BarrierPc.work : BarrierPc → ℕ
  | signalRelease i => 2 * (L.numCus - i)
  | _ => 0

def BarrierCore.work (core : BarrierCore) : ℕ :=
  stallWork L * core.counts.stalledCount.toNat + core.pc.work L

def ArbiterPc.work : ArbiterPc → ℕ
  | forward _ _ => 5
  | deliver _ => 1
  | _ => 0

def MemoryProcess.work : MemoryProcess → ℕ
  | respond _ => 3
  | ready => 0

/-- How far the requests and responses on the memory side have to go. -/
def MemorySide.work (side : MemorySide) : ℕ :=
  side.arbiter.pc.work + 4 * side.reqOut.length + side.process.work + 2 * side.respIn.length

noncomputable def System.work {L : Launch} (s : System L) : ℕ :=
  ∑ c, (s.gpu.cus c).work L + s.gpu.core.work L + s.side.work

end Work

/-- A sum over a family with one member replaced. -/
theorem sum_comp_update {ι α : Type} [Fintype ι] [DecidableEq ι] (f : α → ℕ) (x : ι → α) (i : ι)
    (y : α) : ∑ j, f (Function.update x i y j) + f (x i) = ∑ j, f (x j) + f y := by
  rw [← Finset.add_sum_erase _ _ (Finset.mem_univ i),
    ← Finset.add_sum_erase _ (fun j => f (x j)) (Finset.mem_univ i), Function.update_self]
  have hrest : ∑ j ∈ Finset.univ.erase i, f (Function.update x i y j) =
      ∑ j ∈ Finset.univ.erase i, f (x j) :=
    Finset.sum_congr rfl fun j hj => by rw [Function.update_of_ne (Finset.ne_of_mem_erase hj)]
  omega

/-! ## Steps of a CU -/

section Steps

variable {L : Launch} {c : L.Cus} {owed : ℕ} {tr : List Event} {v : CuView} {cu cu' : Cu}
  {ev : List Event}

/-- A step of a pipeline does work, unless no warp is dispatched to it. -/
theorem pipelineStep_work (h : cu.pipeline.Bounded)
    (hs : cu.pipelineStep L c = some (cu', ev)) :
    cu'.work L < cu.work L ∨ cu' = cu ∧ cu.pipeline = .idle ∧ cu.dispatch = [] := by
  unfold Cu.pipelineStep at hs
  split at hs
  · next hp =>
    split at hs
    · next hd =>
      obtain ⟨rfl, -⟩ := Prod.mk.inj (Option.some.inj hs)
      exact .inr ⟨rfl, hp, hd⟩
    · next d rest hd =>
      obtain ⟨rfl, -⟩ := Prod.mk.inj (Option.some.inj hs)
      have hasks := Interact.asksLeft_le (asksAtMost_execute c d (cu.regs d.slotId))
      left
      simp only [Cu.work, Pipeline.work, hp, hd, List.length_cons, dispatchWork, Nat.mul_succ]
      omega
  · next d req k hp =>
    obtain ⟨queue, hq, heq⟩ := Option.map_eq_some_iff.1 hs
    obtain ⟨rfl, -⟩ := Prod.mk.inj heq
    obtain rfl := push_eq_some hq
    rw [hp] at h
    obtain ⟨n, hn⟩ := h
    have hlt := Interact.answersLeft_lt hn
    left
    simp only [Cu.work, Pipeline.work, hp, List.length_append, List.length_singleton]
    omega
  · next d result hp =>
    obtain ⟨queue, hq, heq⟩ := Option.map_eq_some_iff.1 hs
    obtain ⟨rfl, -⟩ := Prod.mk.inj heq
    obtain rfl := push_eq_some hq
    left
    simp only [Cu.work, Cu.setRegs, Pipeline.work, hp, List.length_append, List.length_singleton]
    omega
  · next d k hp =>
    split at hs
    · exact absurd hs (by simp)
    · next resp rest hr =>
      obtain ⟨rfl, -⟩ := Prod.mk.inj (Option.some.inj hs)
      rw [hp] at h
      obtain ⟨n, hn⟩ := h
      have hle := Interact.asksLeft_answer hn resp
      left
      simp only [Cu.work, Pipeline.work, hp]
      omega

/-- It leaves the scheduler alone. -/
theorem pipelineStep_scheduler (hs : cu.pipelineStep L c = some (cu', ev)) :
    cu'.scheduler = cu.scheduler := by
  unfold Cu.pipelineStep at hs
  split at hs
  · split at hs <;> obtain ⟨rfl, -⟩ := Prod.mk.inj (Option.some.inj hs) <;> rfl
  · obtain ⟨queue, -, heq⟩ := Option.map_eq_some_iff.1 hs
    obtain ⟨rfl, -⟩ := Prod.mk.inj heq
    rfl
  · obtain ⟨queue, -, heq⟩ := Option.map_eq_some_iff.1 hs
    obtain ⟨rfl, -⟩ := Prod.mk.inj heq
    rfl
  · split at hs
    · exact absurd hs (by simp)
    · obtain ⟨rfl, -⟩ := Prod.mk.inj (Option.some.inj hs)
      rfl

/-- A pipeline waits only for a response. -/
theorem CuInv.pipelineStep_blocked {done : Bool} (h : CuInv L c done owed tr v cu)
    (hstatus : 0 < L.depths.status) (hmemReq : 0 < L.depths.memReq)
    (hreqs : cu.pipeline.isWaiting = false → cu.memReq = [])
    (hs : cu.pipelineStep L c = none) : ∃ d k, cu.pipeline = .waiting d k ∧ cu.memResp = [] := by
  unfold Cu.pipelineStep at hs
  split at hs
  · split at hs <;> exact absurd hs (by simp)
  · next d req k hp =>
    have hempty := hreqs (by rw [hp]; rfl)
    rw [Option.map_eq_none_iff, push, hempty, List.length_nil, if_pos hmemReq] at hs
    exact absurd hs (by simp)
  · next d result hp =>
    -- the status of the warp before it has been read
    have hempty : cu.status = [] := by
      have hflight := h.flight
      generalize v.job = job at hflight
      cases hflight with
      | nothing _ _ hst => exact hst
      | queued _ _ _ hst => exact hst
      | running _ _ _ _ hst => exact hst
      | waiting _ _ _ _ hst => exact hst
      | reported _ hidle _ => exact absurd (hp.symm.trans hidle) (by simp)
    dsimp only at hs
    rw [Option.map_eq_none_iff, push, hempty, List.length_nil, if_pos hstatus] at hs
    exact absurd hs (by simp)
  · next d k hp =>
    split at hs
    · next hempty => exact ⟨d, k, hp, hempty⟩
    · exact absurd hs (by simp)

/-- The scheduler has a warp to dispatch and the pipeline is free. -/
def Cu.mayDispatch (L : Launch) (cu : Cu) : Bool :=
  !cu.scheduler.busyCu && nextReadySlot L.toGpuSize cu.scheduler.slots != L.invalidSlot

/-- The scheduler finds nothing to do where it stands, and goes on to `pc`. -/
inductive Cu.Passes (L : Launch) (cu : Cu) : SchedulerPc → Prop where
  | head (hpc : cu.scheduler.pc = .head) (h : cu.mayDispatch L = false) : Passes L cu .status
  | status (hpc : cu.scheduler.pc = .status) (h : cu.status = []) : Passes L cu .signal
  | signal (hpc : cu.scheduler.pc = .signal) (h : cu.port.signals = []) : Passes L cu .head

/-- Passing on takes no work. -/
theorem Cu.Passes.work {pc : SchedulerPc} (h : cu.Passes L pc) :
    (cu.setScheduler { cu.scheduler with pc := pc }).work L = cu.work L := by
  have hpc : pc.work L = cu.scheduler.pc.work L := by
    cases h with
    | head hpc _ => rw [hpc]; rfl
    | status hpc _ => rw [hpc]; rfl
    | signal hpc _ => rw [hpc]; rfl
  simp only [Cu.work, Cu.setScheduler, SchedulerCore.work, hpc]
  rfl

/-- A dispatched warp keeps its work. -/
theorem work_buildDispatch (slots : Slots) (slot : SlotId) :
    ∑ i, slotWork L ((buildDispatch slots slot).2 i) = ∑ i, slotWork L (slots i) := by
  have hsum := sum_comp_update (slotWork L) slots slot { slots slot with fresh := false }
  exact Nat.add_right_cancel hsum

/-- So does a released one. -/
theorem work_releaseBarrierSlots (slots : Slots) :
    ∑ i, slotWork L (releaseBarrierSlots L.toGpuSize slots i) = ∑ i, slotWork L (slots i) := by
  refine Finset.sum_congr rfl fun i _ => ?_
  unfold releaseBarrierSlots releasedSlot
  split_ifs with hlt hstate
  · unfold slotWork
    rw [hstate]
  · rfl
  · rfl

/-- Each wave of a warp pays for recording its result. -/
theorem work_outcome (slot : SlotId) (g : ℕ) :
    slotWork L (L.slotOf c slot g (L.outcome g)) + recordWork L ≤
      slotWork L (L.slotOf c slot g (.inFlight true)) := by
  have hready : slotWork L (L.slotOf c slot g (.inFlight true)) =
      recordWork L * (maxProgramLen - (L.wavePc g).toNat + 1) := rfl
  rw [hready]
  obtain ⟨ho, hcode⟩ | ⟨ho, -⟩ := L.outcome_cases g
  · have hstalled : slotWork L (L.slotOf c slot g .stalled) =
        recordWork L * (maxProgramLen - (L.wavePc (g + 1)).toNat + 1) := rfl
    have hpc := wavePc_lt hcode
    rw [ho, hstalled, ← Nat.mul_succ]
    exact Nat.mul_le_mul_left _ (by omega)
  · have hdone : slotWork L (L.slotOf c slot g .done) = 0 := rfl
    rw [ho, hdone, Nat.zero_add]
    exact Nat.le_mul_of_pos_right _ (Nat.succ_pos _)

/-- A status on its stream is that of the warp in flight. -/
theorem CuInv.reported {done : Bool} (h : CuInv L c done owed tr v cu) {status : WarpStatus}
    {rest : List WarpStatus} (hst : cu.status = status :: rest) :
    ∃ slot, v.job = some (slot, true) ∧ status = { L.waveStatus v.wave with slotId := slot } := by
  have hflight := h.flight
  generalize v.job = job at hflight ⊢
  cases hflight with
  | nothing _ _ hs => exact absurd (hst.symm.trans hs) (by simp)
  | queued _ _ _ hs => exact absurd (hst.symm.trans hs) (by simp)
  | running _ _ _ _ hs => exact absurd (hst.symm.trans hs) (by simp)
  | waiting _ _ _ _ hs => exact absurd (hst.symm.trans hs) (by simp)
  | @reported slot hd hp hs => exact ⟨slot, rfl, (List.cons.inj (hst.symm.trans hs)).1⟩

/-- Recording a result uses up the work of a wave. -/
theorem CuInv.record_work {done : Bool} (h : CuInv L c done owed tr v cu)
    (hrun : cu.scheduler.busyCuScheduler = true) {status : WarpStatus} {rest : List WarpStatus}
    (hst : cu.status = status :: rest) :
    ∑ i, slotWork L (recordResult cu.scheduler.slots status.slotId status i) + recordWork L ≤
      ∑ i, slotWork L (cu.scheduler.slots i) := by
  obtain ⟨slot, hjob, rfl⟩ := h.reported hst
  obtain ⟨hres, hsit⟩ := (h.job slot true).1 hjob
  have hval : cu.scheduler.slots slot = L.slotOf c slot v.wave (.inFlight true) := by
    rw [h.slots, slotsOf, if_pos ⟨h.launched hrun, hres⟩, hsit]
  have hsum := sum_comp_update (slotWork L) cu.scheduler.slots slot
    (L.slotOf c slot v.wave (L.outcome v.wave))
  have hrecord := work_outcome (c := c) slot v.wave
  rw [recordResult]
  dsimp only
  rw [hval, slotWithResult_waveStatus]
  rw [hval] at hsum
  omega

/-- Behind its launch the scheduler is not `armed`. -/
theorem CuInv.not_armed {done : Bool} (h : CuInv L c done owed tr v cu)
    (hrun : cu.scheduler.busyCuScheduler = true) : cu.scheduler.pc ≠ .armed := by
  obtain ⟨-, hb, -⟩ | ⟨-, -, hpc⟩ | ⟨-, hb, -⟩ := h.phase
  · exact absurd (hrun.symm.trans hb) (by simp)
  · exact hpc
  · exact absurd (hrun.symm.trans hb) (by simp)

/-- A scheduler in a launch does work or passes on, and the launch goes on for it. -/
theorem CuInv.schedulerStep_work (h : CuInv L c false owed tr v cu)
    (hrun : cu.scheduler.busyCuScheduler = true) {start : Bool}
    (hs : cu.schedulerStep L c start = some (cu', ev)) :
    cu'.scheduler.busyCuScheduler = true ∧ (cu'.work L < cu.work L ∨
      ∃ pc, cu.Passes L pc ∧ cu' = cu.setScheduler { cu.scheduler with pc := pc }) := by
  unfold Cu.schedulerStep at hs
  dsimp only at hs
  split at hs
  · next hpc =>
    rw [if_pos hrun] at hs
    unfold Cu.dispatchRound at hs
    dsimp only at hs
    split at hs
    · next hmay =>
      obtain ⟨queue, hq, heq⟩ := Option.map_eq_some_iff.1 hs
      obtain ⟨rfl, -⟩ := Prod.mk.inj heq
      obtain rfl := push_eq_some hq
      refine ⟨hrun, .inl ?_⟩
      have hfree : cu.scheduler.busyCu = false := by
        rw [Bool.and_eq_true, Bool.not_eq_true'] at hmay
        exact hmay.1
      simp only [Cu.work, SchedulerCore.work, work_buildDispatch, hpc, hfree, SchedulerPc.work,
        List.length_append, List.length_singleton, idleWork]
      simp only [Bool.false_eq_true, ite_true, ite_false, Nat.mul_succ]
      omega
    · next hmay =>
      obtain ⟨rfl, -⟩ := Prod.mk.inj (Option.some.inj hs)
      exact ⟨hrun, .inr ⟨_, .head hpc (Bool.eq_false_iff.2 hmay), rfl⟩⟩
  · next hpc => exact absurd hpc (h.not_armed hrun)
  · next hpc =>
    obtain ⟨rfl, -⟩ := Prod.mk.inj (Option.some.inj hs)
    unfold Cu.readStatus
    split
    · next hst => exact ⟨hrun, .inr ⟨_, .status hpc hst, rfl⟩⟩
    · next status rest hst =>
      refine ⟨hrun, .inl ?_⟩
      have hrecord := h.record_work hrun hst
      simp only [Cu.work, SchedulerCore.work, hpc, hst, SchedulerPc.work, List.length_cons]
      omega
  · next code hpc =>
    obtain ⟨queue, hq, heq⟩ := Option.map_eq_some_iff.1 hs
    obtain ⟨rfl, -⟩ := Prod.mk.inj heq
    obtain rfl := push_eq_some hq
    refine ⟨hrun, .inl ?_⟩
    have hcredit : (if cu.scheduler.busyCu then 0 else idleWork) ≤ idleWork := by
      split
      · exact Nat.zero_le _
      · exact le_rfl
    simp only [Cu.work, Cu.setEvents, Cu.setScheduler, SchedulerCore.work, hpc, SchedulerPc.work,
      List.length_append, List.length_singleton, recordWork, Nat.mul_add, Nat.mul_one]
    simp only [Bool.false_eq_true, ite_false]
    omega
  · next hpc =>
    obtain ⟨rfl, -⟩ := Prod.mk.inj (Option.some.inj hs)
    unfold Cu.readSignal
    split
    · next hsig => exact ⟨hrun, .inr ⟨_, .signal hpc hsig, rfl⟩⟩
    · next signal rest hsig =>
      have hrelease : signal = releaseSignal := by
        obtain hr | ⟨-, hd⟩ := h.signals signal (by simp [hsig])
        · exact hr
        · exact absurd hd Bool.false_ne_true
      subst hrelease
      refine ⟨by simp [hrun, releaseSignal], .inl ?_⟩
      show Cu.work L { cu with
        port := { cu.port with signals := rest }
        scheduler := { cu.scheduler with
          slots := releaseBarrierSlots L.toGpuSize cu.scheduler.slots
          busyCuScheduler := cu.scheduler.busyCuScheduler && true
          pc := .head } } < _
      simp only [Cu.work, SchedulerCore.work, hpc, hsig, SchedulerPc.work, List.length_cons,
        work_releaseBarrierSlots]
      omega

/-- A scheduler in a launch waits only for the stream of its events. -/
theorem CuInv.schedulerStep_blocked {done : Bool} (h : CuInv L c done owed tr v cu)
    (hrun : cu.scheduler.busyCuScheduler = true) (hdepth : 0 < L.depths.dispatch) {start : Bool}
    (hs : cu.schedulerStep L c start = none) :
    ∃ code, cu.scheduler.pc = .event code ∧ ¬ cu.port.events.length < L.depths.barrierEvents := by
  unfold Cu.schedulerStep at hs
  dsimp only at hs
  split at hs
  · next hpc =>
    rw [if_pos hrun] at hs
    unfold Cu.dispatchRound at hs
    dsimp only at hs
    split at hs
    · next hmay =>
      -- the pipeline is free, so that nothing is dispatched
      have hfree : cu.scheduler.busyCu = false := by
        rw [Bool.and_eq_true, Bool.not_eq_true'] at hmay
        exact hmay.1
      have hjob : v.job = none := by
        have hnot := mt h.busyCu.2 (by rw [hfree]; exact Bool.false_ne_true)
        exact Option.not_isSome_iff_eq_none.1 fun hsome => hnot (.inl hsome)
      have hempty : cu.dispatch = [] := by
        have hflight := h.flight
        rw [hjob] at hflight
        cases hflight with
        | nothing hd _ _ => exact hd
      rw [Option.map_eq_none_iff, push, hempty, List.length_nil, if_pos hdepth] at hs
      exact absurd hs (by simp)
    · exact absurd hs (by simp)
  · split at hs <;> exact absurd hs (by simp)
  · exact absurd hs (by simp)
  · next code hpc =>
    rw [Option.map_eq_none_iff, push] at hs
    split at hs
    · exact absurd hs (by simp)
    · next hfull => exact ⟨code, hpc, hfull⟩
  · exact absurd hs (by simp)

end Steps

end RiscvGpgpu.Hls
