import RiscvGpgpu.Hls.LaunchWork

/-!
# Turns of the processes

When a process of the flat top can act, at once or further on in its loop (`System.can`), and how
many turns it is from there (`System.dist`). A turn in a launch does work, or it is idle
(`Advances`): it leaves the others as they are and passes on around an empty loop.
-/

namespace RiscvGpgpu.Hls

open Launch

/-- Every stream holds something. -/
structure Buffered (L : Launch) (D : SideDepths) : Prop where
  dispatch : 0 < L.depths.dispatch
  status : 0 < L.depths.status
  memReq : 0 < L.depths.memReq
  memResp : 0 < L.depths.memResp
  barrierEvents : 0 < L.depths.barrierEvents
  barrierSignal : 0 < L.depths.barrierSignal
  reqOut : 0 < D.reqOut
  respIn : 0 < D.respIn

/-! ## Who can act -/

/-- A process of the top. The host and the loader are none. -/
def SystemAction.isProcess {L : Launch} : SystemAction L → Prop
  | gpu (.scheduler _) | gpu (.pipeline _) | gpu .barrier | arbiter | memory => True
  | _ => False

def Cu.canSchedule (L : Launch) (cu : Cu) : Prop :=
  match cu.scheduler.pc with
  | .event _ => cu.port.events.length < L.depths.barrierEvents
  | _ => cu.mayDispatch L = true ∨ cu.status ≠ [] ∨ cu.port.signals ≠ []

/-- The turns of the scheduler before the one that finds something to do. -/
def Cu.scheduleDist (L : Launch) (cu : Cu) : ℕ :=
  match cu.scheduler.pc with
  | .head => if cu.mayDispatch L then 0 else if cu.status.isEmpty then 2 else 1
  | .status => if cu.status.isEmpty then (if cu.port.signals.isEmpty then 2 else 1) else 0
  | .signal => if cu.port.signals.isEmpty then (if cu.mayDispatch L then 1 else 2) else 0
  | _ => 0

def Cu.canProceed (cu : Cu) : Prop :=
  match cu.pipeline with
  | .idle => cu.dispatch ≠ []
  | .running _ _ => True
  | .waiting _ _ => cu.memResp ≠ []

namespace Gpu

variable {L : Launch} (s : Gpu L)

/-- An event of a CU from `i` on has not been polled. -/
def EventFrom (i : ℕ) : Prop := ∃ c : L.Cus, i ≤ (c : ℕ) ∧ (s.cus c).port.events ≠ []

/-- The loop of `barrierCoreN` has an event to poll, a release to make or the end to declare. -/
def LoopHas : Prop :=
  s.EventFrom 0 ∨ barrierReleaseReady s.core.counts = true ∨
    barrierKernelComplete s.core.counts = true

def canBarrier : Prop :=
  match s.core.pc with
  | .signalRelease i =>
    if h : i < L.numCus then (s.cus ⟨i, h⟩).port.signals.length < L.depths.barrierSignal
    else s.LoopHas
  | _ => s.LoopHas

def completeDist : ℕ := if barrierKernelComplete s.core.counts then 0 else L.numCus + 5

def releaseDist : ℕ := if barrierReleaseReady s.core.counts then 0 else s.completeDist + 1

open Classical in
noncomputable def pollDist (i : ℕ) : ℕ :=
  if s.EventFrom i then L.numCus - i else L.numCus - i + 1 + s.releaseDist

/-- The turns of `barrierCoreN` before the one that finds something to do. -/
noncomputable def barrierDist : ℕ :=
  match s.core.pc with
  | .head => L.numCus + 4
  | .pollCuEvents i => s.pollDist i
  | .releaseCheck => s.releaseDist
  | .signalRelease _ => s.completeDist + 1
  | .completeCheck => s.completeDist
  | .signalDone _ => 0

variable {s}

theorem canBarrier_iff (h : ∀ i, i < L.numCus → s.core.pc ≠ .signalRelease i) :
    s.canBarrier ↔ s.LoopHas := by
  unfold canBarrier
  split
  · next i hat =>
    rw [dif_neg fun hi => h i hi hat]
  · exact Iff.rfl

theorem pollDist_zero_lt (h : s.LoopHas) : s.pollDist 0 < L.numCus + 4 := by
  unfold pollDist releaseDist completeDist
  obtain hev | hready | hcomplete := h
  · rw [if_pos hev]
    omega
  · rw [if_pos hready]
    split <;> omega
  · rw [if_pos hcomplete]
    split_ifs <;> omega

theorem pollDist_succ_lt {i : ℕ} (hi : i < L.numCus)
    (hempty : (s.cus ⟨i, hi⟩).port.events = []) : s.pollDist (i + 1) < s.pollDist i := by
  have hfrom : s.EventFrom i ↔ s.EventFrom (i + 1) := by
    refine ⟨fun hev => ?_, fun hev => ?_⟩
    · obtain ⟨c, hle, hc⟩ := hev
      refine ⟨c, Nat.lt_of_le_of_ne hle fun heq => hc ?_, hc⟩
      rw [show c = ⟨i, hi⟩ from Fin.ext heq.symm]
      exact hempty
    · obtain ⟨c, hle, hc⟩ := hev
      exact ⟨c, Nat.le_of_succ_le hle, hc⟩
  unfold pollDist
  by_cases hev : s.EventFrom (i + 1)
  · rw [if_pos hev, if_pos (hfrom.2 hev)]
    omega
  · rw [if_neg hev, if_neg (mt hfrom.1 hev)]
    omega

theorem releaseDist_lt {i : ℕ} (hi : ¬ i < L.numCus) : s.releaseDist < s.pollDist i := by
  have hfrom : ¬ s.EventFrom i := by
    rintro ⟨c, hle, -⟩
    exact hi (Nat.lt_of_le_of_lt hle c.isLt)
  unfold pollDist
  rw [if_neg hfrom]
  omega

end Gpu

def MemorySide.canServe (D : SideDepths) (side : MemorySide) : Prop :=
  match side.process with
  | .ready => side.reqOut ≠ []
  | .respond _ => side.respIn.length < D.respIn

namespace System

variable {L : Launch} (D : SideDepths) (s : System L)

/-- The scan finds a request from its `i`-th stream on. -/
def RequestFrom (i : ℕ) : Prop :=
  ∃ c : L.Cus, (s.gpu.cus c).memReq ≠ [] ∧ i ≤ ahead L.numCus s.side.arbiter.nextCu c

def canArbitrate : Prop :=
  match s.side.arbiter.pc with
  | .forward _ _ => s.side.reqOut.length < D.reqOut
  | .deliver _ => True
  | _ => s.side.respIn ≠ [] ∨ s.RequestFrom 0

def routeDist : ℕ := if s.side.respIn.isEmpty then L.numCus + 1 else 0

open Classical in
noncomputable def scanDist (i : ℕ) : ℕ :=
  if s.RequestFrom i then L.numCus - i else L.numCus - i + 1 + s.routeDist

/-- The turns of the arbiter before the one that finds a request or a response. -/
noncomputable def arbiterDist : ℕ :=
  match s.side.arbiter.pc with
  | .scan i => s.scanDist i
  | .route => s.routeDist
  | _ => 0

/-- The process can act, at once or further on in its loop. -/
def can : SystemAction L → Prop
  | .gpu (.scheduler c) => (s.gpu.cus c).canSchedule L
  | .gpu (.pipeline c) => (s.gpu.cus c).canProceed
  | .gpu .barrier => s.gpu.canBarrier
  | .arbiter => s.canArbitrate D
  | .memory => s.side.canServe D
  | _ => False

noncomputable def dist : SystemAction L → ℕ
  | .gpu (.scheduler c) => (s.gpu.cus c).scheduleDist L
  | .gpu .barrier => s.gpu.barrierDist
  | .arbiter => s.arbiterDist
  | _ => 0

end System


/-! ## Turns -/

/-- All CUs have launched, and the host has lowered `start`. -/
structure Launched {L : Launch} (s : Gpu L) : Prop where
  start : s.start = false
  busy : s.core.busy = true
  cus : ∀ c, (s.cus c).scheduler.busyCuScheduler = true

/-- A reachable state in which the launch is under way. -/
structure Underway (L : Launch) (D : SideDepths) (m : MemorySubsystem) (mem : GlobalMem)
    (regs : L.Cus → SlotId → RegFile) (s : System L) : Prop where
  run : ∃ tr, FreshRun L D m mem regs s tr
  launched : Launched s.gpu

/-- A turn of `a` does work or is idle. -/
def Advances {L : Launch} (D : SideDepths) (a : SystemAction L) (s s' : System L) : Prop :=
  s'.work < s.work ∨
    s'.work ≤ s.work ∧ Transition.Idle (System.can D) System.dist a s s'

section Turns

variable {L : Launch} {D : SideDepths} {m : MemorySubsystem} {mem : GlobalMem}
  {regs : L.Cus → SlotId → RegFile} {s s' : System L} {tr : List MemEvent} {c : L.Cus}

/-! ### Turns of a scheduler -/

theorem Cu.Passes.canSchedule {cu : Cu} {pc : SchedulerPc} (h : cu.Passes L pc)
    (hcan : cu.canSchedule L) :
    (cu.setScheduler { cu.scheduler with pc := pc }).canSchedule L := by
  unfold Cu.canSchedule at hcan
  cases h with
  | head hpc _ =>
    rw [hpc] at hcan
    exact hcan
  | status hpc _ =>
    rw [hpc] at hcan
    exact hcan
  | signal hpc _ =>
    rw [hpc] at hcan
    exact hcan

theorem Cu.Passes.nearer {cu : Cu} {pc : SchedulerPc} (h : cu.Passes L pc)
    (hcan : cu.canSchedule L) :
    (cu.setScheduler { cu.scheduler with pc := pc }).scheduleDist L < cu.scheduleDist L := by
  have hmay : (cu.setScheduler { cu.scheduler with pc := pc }).mayDispatch L = cu.mayDispatch L :=
    rfl
  unfold Cu.canSchedule at hcan
  unfold Cu.scheduleDist
  rw [hmay]
  cases h with
  | head hpc hno =>
    rw [hpc] at hcan ⊢
    cases hst : cu.status <;> cases hsig : cu.port.signals <;> simp_all [Cu.setScheduler]
  | status hpc hst =>
    rw [hpc] at hcan ⊢
    cases hsig : cu.port.signals <;> simp_all [Cu.setScheduler]
  | signal hpc hsig =>
    rw [hpc] at hcan ⊢
    cases hmay' : cu.mayDispatch L <;> cases hst : cu.status <;> simp_all [Cu.setScheduler]

/-- The CUs with other schedulers. -/
def Gpu.withSchedulers (s : Gpu L) (schedulers : L.Cus → SchedulerCore) : Gpu L :=
  { s with cus := fun c => (s.cus c).setScheduler (schedulers c) }

theorem setCu_setScheduler (gpu : Gpu L) (c : L.Cus) (core : SchedulerCore) :
    gpu.setCu c ((gpu.cus c).setScheduler core) =
      gpu.withSchedulers (Function.update (fun c => (gpu.cus c).scheduler) c core) := by
  refine gpu_ext rfl rfl fun c' => ?_
  by_cases hc : c' = c
  · subst hc
    rw [setCu_self]
    simp [Gpu.withSchedulers]
  · rw [setCu_of_ne _ hc]
    simp [Gpu.withSchedulers, hc, Cu.setScheduler]

theorem idle_scheduler {pc : SchedulerPc} (h : (s.gpu.cus c).Passes L pc) :
    Transition.Idle (System.can D) System.dist (.gpu (.scheduler c)) s
      { s with
        gpu := s.gpu.setCu c
          ((s.gpu.cus c).setScheduler { (s.gpu.cus c).scheduler with pc := pc }) } := by
  have hother (c' : L.Cus) (hc : c' ≠ c) : (s.gpu.setCu c
      ((s.gpu.cus c).setScheduler { (s.gpu.cus c).scheduler with pc := pc })).cus c' =
      s.gpu.cus c' := setCu_of_ne _ hc
  have hself := setCu_self s.gpu c
    ((s.gpu.cus c).setScheduler { (s.gpu.cus c).scheduler with pc := pc })
  refine ⟨fun b hb => ?_, fun b hne => ?_, fun hcan => ?_⟩
  · cases b with
    | gpu b =>
      cases b with
      | scheduler c' =>
        by_cases hc : c' = c
        · subst hc
          show Cu.canSchedule L (Gpu.cus _ c')
          rw [hself]
          exact h.canSchedule hb
        · show Cu.canSchedule L (Gpu.cus _ c')
          rw [hother c' hc]
          exact hb
      | pipeline c' =>
        rw [setCu_setScheduler]
        exact hb
      | barrier =>
        rw [setCu_setScheduler]
        exact hb
      | _ => exact hb
    | arbiter =>
      rw [setCu_setScheduler]
      exact hb
    | memory => exact hb
  · cases b with
    | gpu b =>
      cases b with
      | scheduler c' =>
        have hc : c' ≠ c := fun heq => hne (by rw [heq])
        show Cu.scheduleDist L (Gpu.cus _ c') = _
        rw [hother c' hc]
        rfl
      | barrier =>
        rw [setCu_setScheduler]
        rfl
      | _ => rfl
    | arbiter =>
      rw [setCu_setScheduler]
      rfl
    | memory => rfl
  · show Cu.scheduleDist L (Gpu.cus _ c) < _
    rw [hself]
    exact h.nearer hcan

theorem work_setCu (c : L.Cus) (cu : Cu) :
    ({ s with gpu := s.gpu.setCu c cu } : System L).work + (s.gpu.cus c).work L =
      s.work + cu.work L := by
  have hsum := sum_comp_update (Cu.work L) s.gpu.cus c cu
  unfold System.work Gpu.setCu
  dsimp only
  omega

/-! ### Turns of the memory side -/

theorem memoryStep_work {side : MemorySide} {ev : List MemEvent}
    (hs : s.side.memoryStep D = some (side, ev)) :
    ({ s with side := side } : System L).work < s.work := by
  have hless : side.work < s.side.work := by
    unfold MemorySide.memoryStep at hs
    split at hs
    · next hproc =>
      split at hs
      · exact absurd hs (by simp)
      · next req rest hcons =>
        obtain ⟨rfl, -⟩ := Prod.mk.inj (Option.some.inj hs)
        simp only [MemorySide.work, hproc, hcons, MemoryProcess.work, List.length_cons]
        omega
    · next resp hproc =>
      obtain ⟨queue, hq, heq⟩ := Option.map_eq_some_iff.1 hs
      obtain ⟨rfl, -⟩ := Prod.mk.inj heq
      obtain rfl := push_eq_some hq
      simp only [MemorySide.work, hproc, MemoryProcess.work, List.length_append,
        List.length_singleton]
      omega
  unfold System.work
  dsimp only
  omega

theorem memoryStep_blocked (hs : s.side.memoryStep D = none) : ¬ s.side.canServe D := by
  unfold MemorySide.memoryStep at hs
  split at hs
  · next hproc =>
    unfold MemorySide.canServe
    rw [hproc]
    split at hs
    · next hempty => exact fun hne => hne hempty
    · exact absurd hs (by simp)
  · next resp hproc =>
    unfold MemorySide.canServe
    rw [hproc]
    rw [Option.map_eq_none_iff, push] at hs
    split at hs
    · exact absurd hs (by simp)
    · next hfull => exact hfull

/-- A response on its way has room at its CU. -/
theorem arbiterStep_blocked (h : SideInv s tr) (hD : Buffered L D)
    (hs : arbiterStep L.numCus D.reqOut L.depths.memResp s.side.arbiter s.ports = none) :
    ¬ s.canArbitrate D := by
  unfold arbiterStep at hs
  unfold System.canArbitrate
  split at hs
  · split at hs <;> exact absurd hs (by simp)
  · next idx req hpc =>
    rw [hpc]
    rw [Option.map_eq_none_iff, push] at hs
    split at hs
    · exact absurd hs (by simp)
    · next hfull => exact hfull
  · split at hs <;> exact absurd hs (by simp)
  · next resp hpc =>
    obtain ⟨c, hid⟩ := h.deliver resp hpc
    have hpos : 0 < L.numCus := Nat.lt_of_le_of_lt (Nat.zero_le _) c.isLt
    have hidx : (⟨resp.cuId.toNat % L.numCus, Nat.mod_lt _ hpos⟩ : L.Cus) = c := by
      refine Fin.ext ?_
      dsimp only
      rw [hid, cuId_toNat_mod]
    rw [dif_pos hpos] at hs
    dsimp only at hs
    rw [hidx, Option.map_eq_none_iff] at hs
    -- it is the only one of its CU
    have hone := h.outstanding c
    have hdelivering : s.side.delivering (cuId c) = [resp] := by
      simp [MemorySide.delivering, hpc, hid]
    have hempty : (s.gpu.cus c).memResp = [] := by
      rw [← List.length_eq_zero_iff]
      have hle : (if (s.gpu.cus c).pipeline.isWaiting then 1 else 0) ≤ 1 := by
        split <;> omega
      rw [← hone] at hle
      simp only [System.pendingResps, MemorySide.respsFor, hdelivering, List.length_append,
        List.length_singleton] at hle
      omega
    have hports : s.ports.respOut c = [] := hempty
    rw [push, hports, List.length_nil, if_pos hD.memResp] at hs
    exact absurd hs (by simp)

/-! ### Turns of the arbiter -/

/-- Without a change of the requests, the CUs have the same work left. -/
theorem work_withArbiter (arb : MemArbiter) (p : ArbiterPorts L.numCus)
    (hreq : p.reqIn = s.ports.reqIn) :
    (s.withArbiter arb p).work + s.side.work = s.work + (s.withArbiter arb p).side.work := by
  have hcus : ∑ c, ((s.withArbiter arb p).gpu.cus c).work L = ∑ c, (s.gpu.cus c).work L := by
    refine Finset.sum_congr rfl fun c _ => ?_
    unfold System.withArbiter
    rw [hreq]
    rfl
  have hcore : (s.withArbiter arb p).gpu.core.work L = s.gpu.core.work L := rfl
  unfold System.work
  rw [hcus, hcore]
  omega

/-- A grant takes the request from its CU. -/
theorem work_withArbiter_grant (arb : MemArbiter) (p : ArbiterPorts L.numCus) {req : MemReq}
    {rest : List MemReq} (hcons : (s.gpu.cus c).memReq = req :: rest)
    (hreq : p.reqIn = Function.update s.ports.reqIn c rest) :
    (s.withArbiter arb p).work + s.side.work + 6 = s.work + (s.withArbiter arb p).side.work := by
  obtain ⟨cu, hcu⟩ : ∃ cu, cu = { s.gpu.cus c with memReq := rest } := ⟨_, rfl⟩
  have hsum := sum_comp_update (Cu.work L) s.gpu.cus c cu
  have hcus : ∑ c', ((s.withArbiter arb p).gpu.cus c').work L =
      ∑ c', (Function.update s.gpu.cus c cu c').work L := by
    refine Finset.sum_congr rfl fun c' _ => ?_
    unfold System.withArbiter
    rw [hreq]
    by_cases hc : c' = c
    · subst hc
      simp only [Function.update_self]
      rw [hcu]
      rfl
    · simp only [Function.update_of_ne hc]
      rfl
  have hless : cu.work L + 6 = (s.gpu.cus c).work L := by
    rw [hcu]
    simp only [Cu.work, hcons, List.length_cons]
    omega
  have hcore : (s.withArbiter arb p).gpu.core.work L = s.gpu.core.work L := rfl
  unfold System.work
  rw [hcus, hcore]
  omega

/-- The arbiter only moves on in its loop. -/
theorem idle_arbiter {pc : ArbiterPc}
    (hkeep : s.canArbitrate D →
      (s.withArbiter { s.side.arbiter with pc := pc } s.ports).canArbitrate D)
    (hnear : s.canArbitrate D →
      (s.withArbiter { s.side.arbiter with pc := pc } s.ports).arbiterDist < s.arbiterDist) :
    Transition.Idle (System.can D) System.dist .arbiter s
      (s.withArbiter { s.side.arbiter with pc := pc } s.ports) := by
  refine ⟨fun b hb => ?_, fun b hne => ?_, hnear⟩
  · cases b with
    | gpu b => cases b <;> exact hb
    | arbiter => exact hkeep hb
    | memory => exact hb
  · cases b with
    | gpu b => cases b <;> rfl
    | arbiter => exact absurd rfl hne
    | memory => rfl

/-- Moving on takes no work. -/
theorem work_arbiterPc {pc : ArbiterPc} (h : s.side.arbiter.pc.work = pc.work) :
    (s.withArbiter { s.side.arbiter with pc := pc } s.ports).work = s.work := by
  have hwork := work_withArbiter (s := s) { s.side.arbiter with pc := pc } s.ports rfl
  have hside :
      (s.withArbiter { s.side.arbiter with pc := pc } s.ports).side.work = s.side.work := by
    show pc.work + _ + _ + _ = s.side.arbiter.pc.work + _ + _ + _
    rw [h]
    rfl
  omega

/-- The arbiter comes nearer to a request or a response. -/
theorem advances_arbiterPc {pc : ArbiterPc} (hwork : s.side.arbiter.pc.work = pc.work)
    (hkeep : s.canArbitrate D →
      (s.withArbiter { s.side.arbiter with pc := pc } s.ports).canArbitrate D)
    (hnear : s.canArbitrate D →
      (s.withArbiter { s.side.arbiter with pc := pc } s.ports).arbiterDist < s.arbiterDist) :
    Advances D .arbiter s (s.withArbiter { s.side.arbiter with pc := pc } s.ports) :=
  .inr ⟨Nat.le_of_eq (work_arbiterPc hwork), idle_arbiter hkeep hnear⟩

theorem advances_miss (h : SideInv s tr) {i : ℕ} {idx : L.Cus}
    (hpc : s.side.arbiter.pc = .scan i) (hi : i < L.numCus)
    (hidx : (s.side.arbiter.nextCu + i) % L.numCus = idx) (hmiss : (s.gpu.cus idx).memReq = []) :
    Advances D .arbiter s
      (s.withArbiter { s.side.arbiter with pc := .scan (i + 1) } s.ports) := by
  have hdist : s.arbiterDist = s.scanDist i := by
    unfold System.arbiterDist
    rw [hpc]
  have hfrom : s.RequestFrom i ↔ s.RequestFrom (i + 1) := by
    refine ⟨fun hreq => ?_, fun hreq => ?_⟩
    · obtain ⟨c, hc, hle⟩ := hreq
      refine ⟨c, hc, Nat.lt_of_le_of_ne hle fun heq => hc ?_⟩
      have hmod := (mod_eq_iff_ahead (h.nextCu (by omega)) c.isLt hi).2 heq
      obtain rfl : c = idx := Fin.ext (hmod.symm.trans hidx)
      exact hmiss
    · obtain ⟨c, hc, hle⟩ := hreq
      exact ⟨c, hc, Nat.le_of_succ_le hle⟩
  refine advances_arbiterPc (by rw [hpc]; rfl) (fun hcan => ?_) fun _ => ?_
  · unfold System.canArbitrate at hcan
    rw [hpc] at hcan
    exact hcan
  · rw [hdist]
    show s.scanDist (i + 1) < s.scanDist i
    unfold System.scanDist
    by_cases hreq : s.RequestFrom (i + 1)
    · rw [if_pos hreq, if_pos (hfrom.2 hreq)]
      omega
    · rw [if_neg hreq, if_neg (mt hfrom.1 hreq)]
      omega

theorem advances_grant {i : ℕ} {idx : L.Cus} {req : MemReq} {rest : List MemReq}
    (hpc : s.side.arbiter.pc = .scan i) (hhit : (s.gpu.cus idx).memReq = req :: rest) :
    Advances D .arbiter s (s.withArbiter { s.side.arbiter with pc := .forward idx req }
      { s.ports with reqIn := Function.update s.ports.reqIn idx rest }) := by
  have hwork := work_withArbiter_grant (s := s) { s.side.arbiter with pc := .forward idx req }
    { s.ports with reqIn := Function.update s.ports.reqIn idx rest } hhit rfl
  left
  simp only [MemorySide.work, System.withArbiter, System.ports, hpc, ArbiterPc.work] at hwork ⊢
  omega

theorem advances_scanned (h : SideInv s tr) {i : ℕ} (hpc : s.side.arbiter.pc = .scan i)
    (hi : L.numCus ≤ i) :
    Advances D .arbiter s (s.withArbiter { s.side.arbiter with pc := .route } s.ports) := by
  have hdist : s.arbiterDist = s.scanDist i := by
    unfold System.arbiterDist
    rw [hpc]
  have hfrom : ¬ s.RequestFrom i := by
    rintro ⟨c, -, hle⟩
    have := ahead_lt (h.nextCu (Nat.lt_of_le_of_lt (Nat.zero_le _) c.isLt)) c.isLt
    omega
  refine advances_arbiterPc (by rw [hpc]; rfl) (fun hcan => ?_) fun _ => ?_
  · unfold System.canArbitrate at hcan
    rw [hpc] at hcan
    exact hcan
  · rw [hdist]
    show s.routeDist < s.scanDist i
    unfold System.scanDist
    rw [if_neg hfrom]
    omega

theorem advances_forward {idx : ℕ} {req : MemReq} (hpc : s.side.arbiter.pc = .forward idx req) :
    Advances D .arbiter s
      (s.withArbiter { s.side.arbiter with pc := .route, nextCu := (idx + 1) % L.numCus }
        { s.ports with reqOut := s.ports.reqOut ++ [req] }) := by
  have hwork := work_withArbiter (s := s)
    { s.side.arbiter with pc := .route, nextCu := (idx + 1) % L.numCus }
    { s.ports with reqOut := s.ports.reqOut ++ [req] } rfl
  left
  simp only [MemorySide.work, System.withArbiter, System.ports, hpc, ArbiterPc.work,
    List.length_append, List.length_singleton] at hwork ⊢
  omega

theorem advances_quiet (hpc : s.side.arbiter.pc = .route) (hempty : s.side.respIn = []) :
    Advances D .arbiter s (s.withArbiter { s.side.arbiter with pc := .scan 0 } s.ports) := by
  have hdist : s.arbiterDist = s.routeDist := by
    unfold System.arbiterDist
    rw [hpc]
  refine advances_arbiterPc (by rw [hpc]; rfl) (fun hcan => ?_) fun hcan => ?_
  · unfold System.canArbitrate at hcan
    rw [hpc] at hcan
    exact hcan
  · unfold System.canArbitrate at hcan
    rw [hpc] at hcan
    have hfrom : s.RequestFrom 0 := hcan.resolve_left fun hne => hne hempty
    rw [hdist]
    show s.scanDist 0 < s.routeDist
    unfold System.scanDist System.routeDist
    rw [if_pos hfrom, hempty]
    exact Nat.lt_succ_of_le (Nat.sub_le _ _)

theorem advances_route {resp : MemResp} {rest : List MemResp} (hpc : s.side.arbiter.pc = .route)
    (hcons : s.side.respIn = resp :: rest) :
    Advances D .arbiter s
      (s.withArbiter { s.side.arbiter with pc := .deliver resp }
        { s.ports with respIn := rest }) := by
  have hwork := work_withArbiter (s := s) { s.side.arbiter with pc := .deliver resp }
    { s.ports with respIn := rest } rfl
  left
  simp only [MemorySide.work, System.withArbiter, System.ports, hpc, ArbiterPc.work, hcons,
    List.length_cons] at hwork ⊢
  omega

theorem advances_deliver {resp : MemResp} (hpc : s.side.arbiter.pc = .deliver resp)
    (queues : L.Cus → List MemResp) :
    Advances D .arbiter s
      (s.withArbiter { s.side.arbiter with pc := .scan 0 }
        { s.ports with respOut := queues }) := by
  have hwork := work_withArbiter (s := s) { s.side.arbiter with pc := .scan 0 }
    { s.ports with respOut := queues } rfl
  left
  simp only [MemorySide.work, System.withArbiter, System.ports, hpc, ArbiterPc.work] at hwork ⊢
  omega

/-- A step of the arbiter does work, or it scans on. -/
theorem arbiterStep_advances (h : SideInv s tr) {arb : MemArbiter} {p : ArbiterPorts L.numCus}
    {ev : List MemEvent} (hs : arbiterStep L.numCus D.reqOut L.depths.memResp s.side.arbiter
      s.ports = some (arb, p, ev)) : Advances D .arbiter s (s.withArbiter arb p) := by
  cases arbiterStep_turns hs with
  | miss hpc hi hidx hmiss => exact advances_miss h hpc hi hidx hmiss
  | grant hpc _ _ hhit => exact advances_grant hpc hhit
  | scanned hpc hi => exact advances_scanned h hpc hi
  | forward hpc => exact advances_forward hpc
  | quiet hpc hempty => exact advances_quiet hpc hempty
  | route hpc hcons => exact advances_route hpc hcons
  | deliver hpc => exact advances_deliver hpc _

/-! ### Turns of the barrier arbiter -/

/-- The arbiter changes the streams of one CU. -/
theorem withBarrier_update (gpu : Gpu L) (core : BarrierCore) (c : L.Cus) (port : BarrierPort) :
    (gpu.withBarrier core (Function.update gpu.ports c port)).cus =
      Function.update gpu.cus c { gpu.cus c with port := port } := by
  funext c'
  by_cases hc : c' = c
  · subst hc
    rw [withBarrier_cus_self, Function.update_self]
  · rw [withBarrier_cus_of_ne core port hc, Function.update_of_ne hc]

/-- `barrierCoreN` only moves on in its loop. -/
theorem idle_barrier {pc : BarrierPc}
    (hkeep : s.gpu.canBarrier →
      (s.gpu.withBarrier { s.gpu.core with pc := pc } s.gpu.ports).canBarrier)
    (hnear : s.gpu.canBarrier →
      (s.gpu.withBarrier { s.gpu.core with pc := pc } s.gpu.ports).barrierDist <
        s.gpu.barrierDist) :
    Transition.Idle (System.can D) System.dist (.gpu .barrier) s
      { s with gpu := s.gpu.withBarrier { s.gpu.core with pc := pc } s.gpu.ports } := by
  refine ⟨fun b hb => ?_, fun b hne => ?_, hnear⟩
  · cases b with
    | gpu b =>
      cases b with
      | barrier => exact hkeep hb
      | _ => exact hb
    | arbiter => exact hb
    | memory => exact hb
  · cases b with
    | gpu b =>
      cases b with
      | barrier => exact absurd rfl hne
      | _ => rfl
    | arbiter => rfl
    | memory => rfl

/-- With the streams as they are, the work is that of the process. -/
theorem work_withBarrier (core : BarrierCore) :
    ({ s with gpu := s.gpu.withBarrier core s.gpu.ports } : System L).work +
      s.gpu.core.work L = s.work + core.work L := by
  have hcus : ∑ c, ((s.gpu.withBarrier core s.gpu.ports).cus c).work L =
      ∑ c, (s.gpu.cus c).work L := Finset.sum_congr rfl fun _ _ => rfl
  have hcore : (s.gpu.withBarrier core s.gpu.ports).core = core := rfl
  unfold System.work
  dsimp only
  rw [hcus, hcore]
  omega

/-- Moving on takes no work. -/
theorem work_barrierPc {pc : BarrierPc} (h : s.gpu.core.pc.work L = pc.work L) :
    ({ s with gpu := s.gpu.withBarrier { s.gpu.core with pc := pc } s.gpu.ports } :
      System L).work = s.work := by
  have hcore : BarrierCore.work L { s.gpu.core with pc := pc } = s.gpu.core.work L := by
    simp only [BarrierCore.work, h]
  have hwork := work_withBarrier (s := s) { s.gpu.core with pc := pc }
  rw [hcore] at hwork
  exact Nat.add_right_cancel hwork

/-- With the streams of one CU changed, that of the events and signals on them comes in. -/
theorem work_withBarrier_update (core : BarrierCore) (c : L.Cus) (port : BarrierPort) :
    ({ s with gpu := s.gpu.withBarrier core (Function.update s.gpu.ports c port) } :
        System L).work + s.gpu.core.work L + eventWork L * (s.gpu.ports c).events.length +
          (s.gpu.ports c).signals.length =
      s.work + core.work L + eventWork L * port.events.length + port.signals.length := by
  obtain ⟨cu, hcu⟩ : ∃ cu, cu = { s.gpu.cus c with port := port } := ⟨_, rfl⟩
  have hsum := sum_comp_update (Cu.work L) s.gpu.cus c cu
  have hcus : (s.gpu.withBarrier core (Function.update s.gpu.ports c port)).cus =
      Function.update s.gpu.cus c cu := by
    rw [hcu]
    exact withBarrier_update s.gpu core c port
  have hport : cu.work L + eventWork L * (s.gpu.ports c).events.length +
      (s.gpu.ports c).signals.length =
      (s.gpu.cus c).work L + eventWork L * port.events.length + port.signals.length := by
    rw [hcu]
    simp only [Cu.work, Gpu.ports]
    omega
  have hcore : (s.gpu.withBarrier core (Function.update s.gpu.ports c port)).core = core := rfl
  unfold System.work
  dsimp only
  rw [hcus, hcore]
  omega

/-- An event is paid for by the stream it comes from. -/
theorem work_onEvent (counts : BarrierState) (code : WarpStatusCode) :
    stallWork L * (barrierOnEvent counts code).stalledCount.toNat <
      stallWork L * counts.stalledCount.toNat + eventWork L := by
  cases code with
  | complete =>
    show stallWork L * counts.stalledCount.toNat < _
    unfold eventWork
    omega
  | stalledAtBarrier =>
    have hle : (counts.stalledCount + 1).toNat ≤ counts.stalledCount.toNat + 1 := by
      rw [BitVec.toNat_add]
      exact Nat.mod_le _ _
    have hmul := Nat.mul_le_mul_left (stallWork L) hle
    show stallWork L * (counts.stalledCount + 1).toNat < _
    rw [Nat.mul_succ] at hmul
    unfold eventWork
    omega

/-- `barrierCoreN` comes nearer to where its loop has something to do. -/
theorem advances_barrierPc {pc : BarrierPc}
    (hfrom : ∀ i, i < L.numCus → s.gpu.core.pc ≠ .signalRelease i)
    (hto : ∀ i, i < L.numCus → pc ≠ .signalRelease i)
    (hwork : s.gpu.core.pc.work L = pc.work L)
    (hnear : s.gpu.LoopHas →
      (s.gpu.withBarrier { s.gpu.core with pc := pc } s.gpu.ports).barrierDist <
        s.gpu.barrierDist) :
    Advances D (.gpu .barrier) s
      { s with gpu := s.gpu.withBarrier { s.gpu.core with pc := pc } s.gpu.ports } := by
  refine .inr ⟨Nat.le_of_eq (work_barrierPc hwork), idle_barrier (fun hcan => ?_) fun hcan => ?_⟩
  · exact (Gpu.canBarrier_iff hto).2 ((Gpu.canBarrier_iff hfrom).1 hcan)
  · exact hnear ((Gpu.canBarrier_iff hfrom).1 hcan)

theorem advances_poll (hpc : s.gpu.core.pc = .head) :
    Advances D (.gpu .barrier) s { s with
      gpu := s.gpu.withBarrier { s.gpu.core with pc := .pollCuEvents 0 } s.gpu.ports } := by
  have hdist : s.gpu.barrierDist = L.numCus + 4 := by
    unfold Gpu.barrierDist
    rw [hpc]
  refine advances_barrierPc (by simp [hpc]) (by simp) (by rw [hpc]; rfl) fun hloop => ?_
  rw [hdist]
  exact Gpu.pollDist_zero_lt hloop

theorem advances_pass {c : L.Cus} (hpc : s.gpu.core.pc = .pollCuEvents c)
    (hev : (s.gpu.ports c).events = []) :
    Advances D (.gpu .barrier) s { s with
      gpu := s.gpu.withBarrier { s.gpu.core with pc := .pollCuEvents (c + 1) } s.gpu.ports } := by
  have hdist : s.gpu.barrierDist = s.gpu.pollDist c := by
    unfold Gpu.barrierDist
    rw [hpc]
  refine advances_barrierPc (by simp [hpc]) (by simp) (by rw [hpc]; rfl) fun _ => ?_
  rw [hdist]
  exact Gpu.pollDist_succ_lt c.isLt hev

theorem advances_count {c : L.Cus} {code : WarpStatusCode} {rest : List WarpStatusCode}
    (hpc : s.gpu.core.pc = .pollCuEvents c) (hev : (s.gpu.ports c).events = code :: rest) :
    Advances D (.gpu .barrier) s { s with
      gpu := s.gpu.withBarrier
        { s.gpu.core with
          counts := barrierOnEvent s.gpu.core.counts code, pc := .pollCuEvents (c + 1) }
        (Function.update s.gpu.ports c { s.gpu.ports c with events := rest }) } := by
  have hwork := work_withBarrier_update (s := s)
    { s.gpu.core with
      counts := barrierOnEvent s.gpu.core.counts code, pc := .pollCuEvents (c + 1) }
    c ⟨rest, (s.gpu.ports c).signals⟩
  have hpay := work_onEvent (L := L) s.gpu.core.counts code
  simp only [BarrierCore.work, BarrierPc.work, hpc, hev, List.length_cons, Nat.mul_succ] at hwork
  left
  dsimp only
  omega

theorem advances_polled {i : ℕ} (hpc : s.gpu.core.pc = .pollCuEvents i) (hi : L.numCus ≤ i) :
    Advances D (.gpu .barrier) s { s with
      gpu := s.gpu.withBarrier { s.gpu.core with pc := .releaseCheck } s.gpu.ports } := by
  have hdist : s.gpu.barrierDist = s.gpu.pollDist i := by
    unfold Gpu.barrierDist
    rw [hpc]
  refine advances_barrierPc (by simp [hpc]) (by simp) (by rw [hpc]; rfl) fun _ => ?_
  rw [hdist]
  exact Gpu.releaseDist_lt (Nat.not_lt.2 hi)

theorem advances_release (hpc : s.gpu.core.pc = .releaseCheck)
    (hready : barrierReleaseReady s.gpu.core.counts = true) :
    Advances D (.gpu .barrier) s { s with
      gpu := s.gpu.withBarrier
        { s.gpu.core with
          counts := barrierAcknowledgeRelease s.gpu.core.counts, pc := .signalRelease 0 }
        s.gpu.ports } := by
  have hwork := work_withBarrier (s := s)
    { s.gpu.core with
      counts := barrierAcknowledgeRelease s.gpu.core.counts, pc := .signalRelease 0 }
  have hpos : 1 ≤ s.gpu.core.counts.stalledCount.toNat := by
    unfold barrierReleaseReady at hready
    simp only [Bool.and_eq_true, decide_eq_true_eq] at hready
    rw [hready.2]
    exact Nat.one_le_iff_ne_zero.2 fun hzero => hready.1 (BitVec.eq_of_toNat_eq hzero)
  have hpay := Nat.mul_le_mul_left (stallWork L) hpos
  have hzero :
      stallWork L * (barrierAcknowledgeRelease s.gpu.core.counts).stalledCount.toNat = 0 :=
    Nat.mul_zero _
  simp only [BarrierCore.work, BarrierPc.work, hpc] at hwork
  unfold stallWork at hpay hwork hzero
  left
  dsimp only
  omega

theorem advances_hold (hpc : s.gpu.core.pc = .releaseCheck)
    (hready : ¬ barrierReleaseReady s.gpu.core.counts = true) :
    Advances D (.gpu .barrier) s { s with
      gpu := s.gpu.withBarrier { s.gpu.core with pc := .completeCheck } s.gpu.ports } := by
  have hdist : s.gpu.barrierDist = s.gpu.releaseDist := by
    unfold Gpu.barrierDist
    rw [hpc]
  refine advances_barrierPc (by simp [hpc]) (by simp) (by rw [hpc]; rfl) fun _ => ?_
  rw [hdist, Gpu.releaseDist, if_neg hready]
  exact Nat.lt_succ_self _

theorem advances_signal {c : L.Cus} (hpc : s.gpu.core.pc = .signalRelease c) :
    Advances D (.gpu .barrier) s { s with
      gpu := s.gpu.withBarrier { s.gpu.core with pc := .signalRelease (c + 1) }
        (Function.update s.gpu.ports c
          { s.gpu.ports c with signals := (s.gpu.ports c).signals ++ [releaseSignal] }) } := by
  have hwork := work_withBarrier_update (s := s) { s.gpu.core with pc := .signalRelease (c + 1) } c
    ⟨(s.gpu.ports c).events, (s.gpu.ports c).signals ++ [releaseSignal]⟩
  have hc := c.isLt
  simp only [BarrierCore.work, BarrierPc.work, hpc, List.length_append, List.length_singleton]
    at hwork
  left
  dsimp only
  omega

theorem advances_signalled {i : ℕ} (hpc : s.gpu.core.pc = .signalRelease i) (hi : L.numCus ≤ i) :
    Advances D (.gpu .barrier) s { s with
      gpu := s.gpu.withBarrier { s.gpu.core with pc := .completeCheck } s.gpu.ports } := by
  have hdist : s.gpu.barrierDist = s.gpu.completeDist + 1 := by
    unfold Gpu.barrierDist
    rw [hpc]
  refine advances_barrierPc (fun j hj heq => ?_) (by simp) ?_ fun _ => ?_
  · rw [hpc] at heq
    obtain rfl := BarrierPc.signalRelease.inj heq
    omega
  · rw [hpc]
    show 2 * (L.numCus - i) = 0
    omega
  · rw [hdist]
    exact Nat.lt_succ_self _

theorem advances_incomplete (hpc : s.gpu.core.pc = .completeCheck)
    (hcomplete : ¬ barrierKernelComplete s.gpu.core.counts = true) :
    Advances D (.gpu .barrier) s { s with
      gpu := s.gpu.withBarrier { s.gpu.core with pc := .head } s.gpu.ports } := by
  have hdist : s.gpu.barrierDist = s.gpu.completeDist := by
    unfold Gpu.barrierDist
    rw [hpc]
  refine advances_barrierPc (by simp [hpc]) (by simp) (by rw [hpc]; rfl) fun _ => ?_
  rw [hdist, Gpu.completeDist, if_neg hcomplete]
  exact Nat.lt_succ_self _

/-- A step of `barrierCoreN` raises `done`, does work or polls on. -/
theorem barrierStep_advances {core : BarrierCore} {ports : L.Cus → BarrierPort}
    (hbusy : s.gpu.core.busy = true) (hpc : ∀ i, s.gpu.core.pc ≠ .signalDone i)
    (hs : barrierStep L.toGpuSize L.depths.barrierSignal L.totalWarps s.gpu.start s.gpu.core
      s.gpu.ports = some (core, ports)) :
    core.done = true ∨ core.busy = true ∧
      Advances D (.gpu .barrier) s { s with gpu := s.gpu.withBarrier core ports } := by
  cases barrierStep_moves hs with
  | poll hat => exact .inr ⟨hbusy, advances_poll hat⟩
  | idle _ hb => exact absurd (hbusy.symm.trans hb) (by simp)
  | reject _ hb => exact absurd (hbusy.symm.trans hb) (by simp)
  | accept _ hb => exact absurd (hbusy.symm.trans hb) (by simp)
  | pass hat hev => exact .inr ⟨hbusy, advances_pass hat hev⟩
  | count hat hev => exact .inr ⟨hbusy, advances_count hat hev⟩
  | polled hat hi => exact .inr ⟨hbusy, advances_polled hat hi⟩
  | release hat hready => exact .inr ⟨hbusy, advances_release hat hready⟩
  | hold hat hready => exact .inr ⟨hbusy, advances_hold hat hready⟩
  | signal hat => exact .inr ⟨hbusy, advances_signal hat⟩
  | signalled hat hi => exact .inr ⟨hbusy, advances_signalled hat hi⟩
  | complete => exact .inl rfl
  | incomplete hat hcomplete => exact .inr ⟨hbusy, advances_incomplete hat hcomplete⟩
  | finish hat => exact absurd hat (hpc _)
  | finished hat => exact absurd hat (hpc _)

theorem barrierStep_blocked (hpc : ∀ i, s.gpu.core.pc ≠ .signalDone i)
    (hs : barrierStep L.toGpuSize L.depths.barrierSignal L.totalWarps s.gpu.start s.gpu.core
      s.gpu.ports = none) : ¬ s.gpu.canBarrier := by
  unfold barrierStep at hs
  split at hs
  · split at hs
    · exact absurd hs (by simp)
    · split at hs
      · dsimp only at hs
        split at hs <;> exact absurd hs (by simp)
      · exact absurd hs (by simp)
  · split at hs
    · split at hs <;> exact absurd hs (by simp)
    · exact absurd hs (by simp)
  · split at hs <;> exact absurd hs (by simp)
  · next i hat =>
    split at hs
    · next hi =>
      rw [Option.map_eq_none_iff, push] at hs
      split at hs
      · exact absurd hs (by simp)
      · next hfull =>
        unfold Gpu.canBarrier
        rw [hat]
        dsimp only
        rw [dif_pos hi]
        exact hfull
    · exact absurd hs (by simp)
  · split at hs <;> exact absurd hs (by simp)
  · next i hat => exact absurd hat (hpc i)

end Turns

end RiscvGpgpu.Hls
