import RiscvGpgpu.Golden.Scheduling

/-!
# When the kernel counts as complete

`isKernelComplete` looks at the scheduler's queues only. A warp that waits at a barrier is in none
of them, so it is reported as complete as soon as no warp is left to dispatch.
`kernelComplete_sound`: the report is right at every wait of the process as long as each kernel
stops at one barrier at most (`LaunchSafe`). The warps resumed from that barrier run to their end
before the process waits again.
-/

namespace RiscvGpgpu.Golden

namespace GpgpuTop

variable {K : Config} {g : GpgpuTop} {tr : List TopEvent}

@[simp] theorem completedSince_built (ctx : WarpContext) :
    completedSince (tr ++ [.built ctx]) = completedSince tr := by
  simp [completedSince]

@[simp] theorem completedSince_complete (warpId : WarpId) :
    completedSince (tr ++ [.complete warpId]) = completedSince tr ++ [warpId] := by
  simp [completedSince]

@[simp] theorem completedSince_launched : completedSince (tr ++ [.launched]) = [] := by
  simp [completedSince]

theorem completedSince_completes (warpIds : List WarpId) :
    completedSince (tr ++ warpIds.map .complete) = completedSince tr ++ warpIds := by
  induction warpIds generalizing tr with
  | nil => simp
  | cons warpId warpIds ih =>
    rw [List.map_cons, List.append_cons, ih, completedSince_complete, ← List.append_cons]

/-! ## The invariant -/

/-- Every warp of the launch is queued, waits at the barrier, or is complete. -/
structure Accounted (K : Config) (tr : List TopEvent) (g : GpgpuTop) (bq : List StalledWarp) :
    Prop where
  stalled : ∀ i, g.scheduler.stalledQueues i = []
  valid : ∀ id ∈ g.scheduler.queued K.toConfig, id ≠ WarpScheduler.invalidWarpId
  launched : ∀ id ∈ g.launchedWarps, id ∈ g.scheduler.queued K.toConfig ∨
    (∃ sw ∈ bq, sw.id = id) ∨ id ∈ completedSince tr

/-- How far the kernel is. -/
inductive Phase (K : Config) (g : GpgpuTop) (bq : List StalledWarp) : Prop where
  | noBarrier (hleft : barriersLeft g.kernelProgram = 0) (hbq : bq = [])
  | oneBarrier (hleft : barriersLeft g.kernelProgram = 1)
      (hcount : (g.scheduler.queued K.toConfig).length + bq.length = g.totalWarps.toNat)
      (hpast : ∀ sw ∈ bq, barriersLeft (sw.program.drop sw.ctx.pc) = 0)
  | finished (hqueued : g.scheduler.queued K.toConfig = []) (hbq : bq = [])

theorem Accounted.congr {g' : GpgpuTop} {bq : List StalledWarp} (h : Accounted K tr g bq)
    (hdata : g'.launchData = g.launchData) (hsched : g'.scheduler = g.scheduler) :
    Accounted K tr g' bq where
  stalled := by
    rw [hsched]
    exact h.stalled
  valid := by
    rw [hsched]
    exact h.valid
  launched := by
    rw [hsched, launchedWarps_congr hdata]
    exact h.launched

theorem Phase.congr {g' : GpgpuTop} {bq : List StalledWarp} (h : Phase K g bq)
    (hdata : g'.launchData = g.launchData) (hsched : g'.scheduler = g.scheduler) :
    Phase K g' bq := by
  obtain ⟨hprog, -, -, htotal⟩ := by simpa only [launchData, Prod.mk.injEq] using hdata
  cases h with
  | noBarrier hleft hbq => exact .noBarrier (hprog ▸ hleft) hbq
  | oneBarrier hleft hcount hpast =>
    exact .oneBarrier (hprog ▸ hleft) (by rwa [hsched, htotal]) hpast
  | finished hqueued hbq => exact .finished (hsched ▸ hqueued) hbq

structure TurnInv (K : Config) (tr : List TopEvent) (s : Turn) : Prop where
  accounted : Accounted K (tr ++ s.events) s.top s.barrierQueue
  phase : Phase K s.top s.barrierQueue

theorem TurnInv.dispatched {s s' : Turn} {warpId : WarpId} (h : TurnInv K tr s)
    (hd : Dispatched K s s' warpId) : TurnInv K tr s' := by
  obtain ⟨hacc, hphase⟩ := h
  have hmem : ∀ id, id ∈ s.top.scheduler.queued K.toConfig ↔
      id = warpId ∨ id ∈ s'.top.scheduler.queued K.toConfig := fun id => by
    rw [hd.queued.mem_iff, List.mem_cons]
  have hwarp : warpId ∈ s.top.scheduler.queued K.toConfig := (hmem warpId).2 (.inl rfl)
  have hst : ∀ i, s'.top.scheduler.stalledQueues i = [] := fun i => by
    rw [hd.stalled]
    exact hacc.stalled i
  have hvalid : ∀ id ∈ s'.top.scheduler.queued K.toConfig, id ≠ WarpScheduler.invalidWarpId :=
    fun id hid => hacc.valid id ((hmem id).2 (.inr hid))
  obtain ⟨hprog, -, -, htotal⟩ := by simpa only [launchData, Prod.mk.injEq] using hd.data
  rcases hd.result with ⟨hid, -, -⟩ | ⟨-, hleft, hbq, hev⟩ | ⟨-, sw, hsw, hleft, hbq, hev⟩
  · exact absurd hid (hacc.valid warpId hwarp)
  · -- the warp completed
    have hcompl : completedSince (tr ++ s'.events) =
        completedSince (tr ++ s.events) ++ [warpId] := by
      rw [hev, ← List.append_assoc, List.append_cons, completedSince_complete,
        completedSince_built]
    refine ⟨⟨hst, hvalid, fun id hid => ?_⟩, ?_⟩
    · rw [launchedWarps_congr hd.data] at hid
      rw [hbq, hcompl, List.mem_append, List.mem_singleton]
      rcases hacc.launched id hid with hq | hw | hc
      · rcases (hmem id).1 hq with rfl | hq
        · exact .inr (.inr (.inr rfl))
        · exact .inl hq
      · exact .inr (.inl hw)
      · exact .inr (.inr (.inl hc))
    · cases hphase with
      | noBarrier _ hempty => exact .noBarrier (hprog ▸ hleft) (hbq.trans hempty)
      | oneBarrier hone => exact absurd (hleft.symm.trans hone) (by decide)
      | finished hqueued => exact absurd (hqueued ▸ hwarp) List.not_mem_nil
  · -- the warp stopped at a barrier
    have hcompl : completedSince (tr ++ s'.events) = completedSince (tr ++ s.events) := by
      rw [hev, ← List.append_assoc, completedSince_built]
    refine ⟨⟨hst, hvalid, fun id hid => ?_⟩, ?_⟩
    · rw [launchedWarps_congr hd.data] at hid
      rw [hbq, hcompl]
      rcases hacc.launched id hid with hq | ⟨w, hw, hwid⟩ | hc
      · rcases (hmem id).1 hq with rfl | hq
        · exact .inr (.inl ⟨sw, List.mem_append_right _ (List.mem_singleton.2 rfl), hsw⟩)
        · exact .inl hq
      · exact .inr (.inl ⟨w, List.mem_append_left _ hw, hwid⟩)
      · exact .inr (.inr hc)
    · cases hphase with
      | noBarrier hzero => omega
      | oneBarrier hone hcount hpast =>
        refine .oneBarrier (hprog ▸ hone) ?_ fun w hw => ?_
        · have hlen := hd.queued.length_eq
          rw [hbq, htotal, List.length_append, List.length_singleton]
          rw [List.length_cons] at hlen
          omega
        · rw [hbq, List.mem_append, List.mem_singleton] at hw
          rcases hw with hw | rfl
          · exact hpast w hw
          · omega
      | finished hqueued => exact absurd (hqueued ▸ hwarp) List.not_mem_nil

/-! ## The barrier -/

/-- Warps with no barrier left all complete when they are resumed. -/
theorem resumeWarps_complete (sws : List StalledWarp)
    (h : ∀ sw ∈ sws, barriersLeft (sw.program.drop sw.ctx.pc) = 0) (s : Turn) :
    ∃ g, sws.foldl (resumeWarp K) s =
        ⟨g, s.barrierQueue, s.events ++ (sws.map StalledWarp.id).map .complete⟩ ∧
      g.launchData = s.top.launchData ∧ g.scheduler = s.top.scheduler := by
  induction sws generalizing s with
  | nil => exact ⟨s.top, by simp, rfl, rfl⟩
  | cons sw sws ih =>
    have hstop := runWarp_stops (K := K) sw.cuId sw.program sw.ctx s.top
    rw [StopsAtBarrier, if_pos (h sw List.mem_cons_self)] at hstop
    have hnot : (s.top.runWarp K sw.cuId sw.program sw.ctx).1.ctx.state ≠ .stalled := by
      rw [hstop]
      decide
    have hone : resumeWarp K s sw = ⟨(s.top.runWarp K sw.cuId sw.program sw.ctx).2,
        s.barrierQueue, s.events ++ [.complete sw.id]⟩ := if_neg hnot
    obtain ⟨g, hg, hdata, hsched⟩ :=
      ih (fun w hw => h w (List.mem_cons_of_mem _ hw)) (resumeWarp K s sw)
    rw [hone] at hg hdata hsched
    refine ⟨g, ?_, hdata, hsched⟩
    rw [List.foldl_cons, hone, hg, List.map_cons, List.map_cons, ← List.append_cons]

theorem Accounted.isComplete_iff {bq : List StalledWarp} (h : Accounted K tr g bq) :
    g.scheduler.isComplete K.toConfig = true ↔ g.scheduler.queued K.toConfig = [] :=
  WarpScheduler.isComplete_iff h.stalled

/-- After the barrier check no warp waits for nobody. -/
theorem TurnInv.barrierCheck {s : Turn} (h : TurnInv K tr s) :
    TurnInv K tr (barrierCheck K s) ∧
      ((barrierCheck K s).top.scheduler.queued K.toConfig = [] →
        (barrierCheck K s).barrierQueue = []) := by
  unfold GpgpuTop.barrierCheck
  cases hbq : s.barrierQueue with
  | nil => exact ⟨h, fun _ => hbq⟩
  | cons sw rest =>
    dsimp only
    rw [← hbq]
    split_ifs with hfire
    · -- the barrier fires
      have hpast : ∀ w ∈ s.barrierQueue, barriersLeft (w.program.drop w.ctx.pc) = 0 := by
        cases h.phase with
        | noBarrier _ hempty => exact absurd (hbq.symm.trans hempty) (by simp)
        | oneBarrier _ _ hpast => exact hpast
        | finished _ hempty => exact absurd (hbq.symm.trans hempty) (by simp)
      obtain ⟨g, hg, hdata, hsched⟩ := resumeWarps_complete (K := K) s.barrierQueue hpast
        ⟨s.top.clearBarriers K sw.bid, [], s.events⟩
      rw [hg]
      have hqueued : g.scheduler.queued K.toConfig = [] := by
        rw [hsched]
        exact h.accounted.isComplete_iff.1 hfire.1
      refine ⟨⟨⟨?_, ?_, fun id hid => ?_⟩, .finished hqueued rfl⟩, fun _ => rfl⟩
      · rw [hsched]
        exact h.accounted.stalled
      · rw [hqueued]
        exact fun _ hid => absurd hid List.not_mem_nil
      · rw [launchedWarps_congr hdata] at hid
        dsimp only
        rw [← List.append_assoc, completedSince_completes, List.mem_append]
        rcases h.accounted.launched id hid with hq | ⟨w, hw, rfl⟩ | hc
        · rw [h.accounted.isComplete_iff.1 hfire.1] at hq
          exact absurd hq List.not_mem_nil
        · exact .inr (.inr (.inr (List.mem_map_of_mem hw)))
        · exact .inr (.inr (.inl hc))
    · -- somebody is still to come
      refine ⟨h, fun hqueued => ?_⟩
      cases h.phase with
      | noBarrier _ hempty => exact hempty
      | oneBarrier _ hcount _ =>
        rw [hqueued, List.length_nil, Nat.zero_add] at hcount
        exact absurd ⟨h.accounted.isComplete_iff.2 hqueued, hcount⟩ hfire
      | finished _ hempty => exact hempty

/-! ## Runs -/

/-- A launch whose warps stop at one barrier at most: the kernel before is complete, or none of its
warps waits at a barrier and the new program has none; and the warp ids stay below
`INVALID_WARP_ID`. -/
def LaunchSafe (K : Config) (g : GpgpuTop) : TopAction → Prop
  | .launch gridX gridY program _ =>
    g.scheduler.kernelWarpCounter.toNat + (gridX * gridY).toNat < 2 ^ 32 ∧
      ((g.isKernelComplete K = true ∧ (gridX * gridY = 0 ∨ barriersLeft program ≤ 1)) ∨
        (g.barrierQueue.isEmpty = true ∧ barriersLeft program = 0))
  | .resume => True

instance (g : GpgpuTop) (a : TopAction) : Decidable (LaunchSafe K g a) := by
  unfold LaunchSafe
  cases a <;> infer_instance

structure WaitInv (K : Config) (tr : List TopEvent) (g : GpgpuTop) : Prop where
  accounted : Accounted K tr g g.barrierQueue
  phase : Phase K g g.barrierQueue
  waiting : g.scheduler.queued K.toConfig = [] → g.barrierQueue = []

theorem waitInv_reset (memory : MemoryHierarchy) : WaitInv K [] (reset memory) where
  accounted := {
    stalled := fun _ => rfl
    valid := fun _ hid => absurd (List.mem_flatMap.1 hid).choose_spec.2 List.not_mem_nil
    launched := fun _ hid => absurd hid List.not_mem_nil }
  phase := .finished (List.flatMap_eq_nil_iff.2 fun _ _ => rfl) rfl
  waiting := fun _ => rfl

theorem WaitInv.launch (h : WaitInv K tr g) {gridX gridY : BitVec 32} {program : List Instruction}
    {offset : BitVec 32} (hsafe : LaunchSafe K g (.launch gridX gridY program offset)) :
    WaitInv K (tr ++ [.launched]) (g.launchKernel K gridX gridY program offset) := by
  obtain ⟨hids, hcases⟩ := hsafe
  have hsub := WarpScheduler.submitKernel_submitted K.toConfig gridX gridY g.scheduler
  have hbq : g.barrierQueue = [] := by
    rcases hcases with ⟨hcomplete, -⟩ | ⟨hempty, -⟩
    · exact h.waiting (h.accounted.isComplete_iff.1 hcomplete)
    · exact List.isEmpty_iff.1 hempty
  have hbq' : (g.launchKernel K gridX gridY program offset).barrierQueue = [] := hbq
  refine ⟨⟨fun i => ?_, fun id hid => ?_, fun id hid => ?_⟩, ?_, fun _ => hbq'⟩
  · exact (congrFun hsub.stalled i).trans (h.accounted.stalled i)
  · rcases List.mem_append.1 (hsub.queued.mem_iff.1 hid) with hold | hnew
    · exact h.accounted.valid id hold
    · exact WarpScheduler.nextWarps_valid hids id hnew
  · exact .inl (hsub.queued.mem_iff.2 (List.mem_append_right _ hid))
  · rw [hbq']
    rcases hcases with ⟨hcomplete, hzero | hone⟩ | ⟨-, hnone⟩
    · refine .finished ?_ rfl
      have hold := h.accounted.isComplete_iff.1 hcomplete
      have hperm := hsub.queued
      rw [hold, hzero] at hperm
      exact hperm.eq_nil
    · by_cases hb : barriersLeft program = 0
      · exact .noBarrier hb rfl
      · refine .oneBarrier (show barriersLeft program = 1 by omega) ?_
          fun _ hw => absurd hw List.not_mem_nil
        have hlen := hsub.queued.length_eq
        rw [h.accounted.isComplete_iff.1 hcomplete, List.nil_append, WarpScheduler.nextWarps,
          List.length_map, List.length_range] at hlen
        exact hlen
    · exact .noBarrier hnone rfl

theorem WaitInv.loopTurn {g' : GpgpuTop} {bq : List StalledWarp} {ev : List TopEvent}
    (hacc : Accounted K tr g bq) (hphase : Phase K g bq)
    (h : GpgpuTop.loopTurn K g bq = (g', ev)) : WaitInv K (tr ++ ev) g' := by
  unfold GpgpuTop.loopTurn at h
  split_ifs at h with hgo
  · obtain ⟨rfl, rfl⟩ := Prod.mk.inj h
    have hstart : TurnInv K tr ⟨g, bq, []⟩ := ⟨by simpa using hacc, hphase⟩
    have hfan : TurnInv K tr (fanOut K ⟨g, bq, []⟩) :=
      fanOut_induction (fun _ _ _ hs hd => hs.dispatched hd) hstart
    obtain ⟨hinv, hwait⟩ := hfan.barrierCheck
    exact ⟨hinv.accounted.congr rfl rfl, hinv.phase.congr rfl rfl, hwait⟩
  · obtain ⟨rfl, rfl⟩ := Prod.mk.inj h
    have hbq : bq = [] := by
      by_contra hne
      exact hgo (by simp [hne])
    subst hbq
    rw [List.append_nil]
    exact ⟨hacc.congr rfl rfl, hphase.congr rfl rfl, fun _ => rfl⟩

theorem WaitInv.step (h : WaitInv K tr g) {a : TopAction} {g' : GpgpuTop} {ev : List TopEvent}
    (hsafe : LaunchSafe K g a) (hs : step K g a = some (g', ev)) : WaitInv K (tr ++ ev) g' := by
  cases a with
  | launch gridX gridY program offset =>
    obtain ⟨rfl, rfl⟩ := Prod.mk.inj (Option.some.inj hs)
    exact h.launch hsafe
  | resume =>
    obtain ⟨hacc, hphase, -⟩ := h
    replace hs : g.resume K = some (g', ev) := hs
    unfold resume at hs
    unfold barrierQueue at hacc hphase
    cases hp : g.process with
    | idle =>
      rw [hp] at hs hacc hphase
      dsimp only at hs hacc hphase
      split_ifs at hs
      have hturn := Option.some.inj hs
      refine .loopTurn ?_ ?_ hturn
      · exact hacc.congr rfl rfl
      · exact hphase.congr rfl rfl
    | running bq =>
      rw [hp] at hs hacc hphase
      have hturn := Option.some.inj hs
      refine .loopTurn ?_ ?_ hturn
      · exact hacc.congr rfl rfl
      · exact hphase.congr rfl rfl

/-- No warp waits in a scheduler queue or at the barrier, and all of the launch are complete. -/
def AllComplete (K : Config) (g : GpgpuTop) (tr : List TopEvent) : Prop :=
  g.scheduler.queued K.toConfig = [] ∧ g.barrierQueue = [] ∧
    ∀ id ∈ g.launchedWarps, id ∈ completedSince tr

/-- In runs of safe launches a kernel reported complete is complete. -/
theorem kernelComplete_sound (h : ((transition K).filter (LaunchSafe K)).Run (fun _ => True) g tr)
    (hc : g.isKernelComplete K = true) : AllComplete K g tr := by
  have hinv : WaitInv K tr g := by
    refine h.invariant (fun g tr => WaitInv K tr g) ?_ ?_
    · rintro _ ⟨memory, rfl⟩ -
      exact waitInv_reset memory
    · intro s tr a s' ev _ ih hs _
      obtain ⟨hsafe, hstep⟩ := Transition.filter_step hs
      exact ih.step hsafe hstep
  have hqueued := hinv.accounted.isComplete_iff.1 hc
  have hbq := hinv.waiting hqueued
  refine ⟨hqueued, hbq, fun id hid => ?_⟩
  rcases hinv.accounted.launched id hid with hq | ⟨sw, hsw, -⟩ | hdone
  · exact absurd (hqueued ▸ hq) List.not_mem_nil
  · exact absurd (hbq ▸ hsw) List.not_mem_nil
  · exact hdone

/-- Two warps that meet at a barrier, and the process up to the wait behind it. -/
theorem kernelComplete_sound_oneBarrier :
    ∃ g tr, g.isKernelComplete oneCu = true ∧ g.launchedWarps = [0, 1] ∧
      AllComplete oneCu g tr := by
  let T := (transition oneCu).filter (LaunchSafe oneCu)
  let acts : List TopAction := [.launch 2 1 [⟨.barrier, 0, 0, 0, 0⟩, ⟨.halt, 0, 0, 0, 0⟩] 0,
    .resume, .resume]
  have hrun : (T.exec (fun _ => True) (reset emptyMemory) acts).any (fun r =>
      r.1.isKernelComplete oneCu && decide (r.1.launchedWarps = [0, 1])) = true := by
    decide +kernel
  obtain ⟨⟨g, tr⟩, hexec, hc⟩ := (Option.any_eq_true _ _).1 hrun
  obtain ⟨hcomplete, hwarps⟩ := (Bool.and_eq_true _ _ ▸ hc)
  have hinit : T.Run (fun _ => True) (reset emptyMemory) [] := .init ⟨_, rfl⟩ trivial
  exact ⟨g, _, hcomplete, of_decide_eq_true hwarps,
    kernelComplete_sound (hinit.exec acts hexec) hcomplete⟩

/-- One warp that stops at two barriers waits at the second one when the process waits. -/
theorem not_kernelComplete_sound : ¬ ∀ (K : Config) (g : GpgpuTop) (tr : List TopEvent),
    (transition K).Run (fun _ => True) g tr → g.isKernelComplete K = true →
      AllComplete K g tr := by
  intro h
  let acts : List TopAction :=
    [.launch 1 1 [⟨.barrier, 0, 0, 0, 0⟩, ⟨.barrier, 0, 0, 0, 0⟩, ⟨.halt, 0, 0, 0, 0⟩] 0, .resume]
  have hrun : ((transition oneCu).exec (fun _ => True) (reset emptyMemory) acts).any (fun r =>
      r.1.isKernelComplete oneCu && !r.1.barrierQueue.isEmpty) = true := by
    decide +kernel
  obtain ⟨⟨g, tr⟩, hexec, hc⟩ := (Option.any_eq_true _ _).1 hrun
  obtain ⟨hcomplete, hwaits⟩ := (Bool.and_eq_true _ _ ▸ hc)
  have hinit : (transition oneCu).Run (fun _ => True) (reset emptyMemory) [] :=
    .init ⟨_, rfl⟩ trivial
  obtain ⟨-, hbq, -⟩ := h oneCu g _ (hinit.exec acts hexec) hcomplete
  rw [hbq] at hwaits
  exact absurd hwaits (by decide)

end GpgpuTop

end RiscvGpgpu.Golden
