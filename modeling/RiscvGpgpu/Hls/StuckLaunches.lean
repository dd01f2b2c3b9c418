import RiscvGpgpu.Hls.Quiescence

/-!
# Stuck launches

A host that raises `start` and clears it when it has seen `busy`. `busy` comes from `barrierCoreN`
alone, so that `start` may be low again before `programLoader` and the schedulers have taken the
launch. `notStuck` names the steps under which the top comes to rest only with the launch done.
-/

namespace RiscvGpgpu.Hls

open Launch

/-- The documented host, for one launch. -/
def busyHost : HostProtocol where
  mayDrop h := h.sawBusy
  mayRaise h := h.launches == 0

/-- The launch is within capacity. -/
def FittingStep {B : Build} (_ : Top B) : TopAction B.numCus → Prop
  | .raise a => a.totalWarps.toNat ≤ B.capacity
  | _ => True

/-- Where nothing moves any more with `start` low, the launch has been done. -/
def NotStuck {B : Build} (s : Top B) : Prop :=
  s.host.launches ≠ 0 → s.start = false → s.Quiescent busyHost →
    s.core.busy = false ∧ s.core.done = true

/-- The scheduler has taken the launch, or it has read `start` high and its token is there. -/
def Cu.Taken (cu : Cu) : Prop :=
  cu.scheduler.busyCuScheduler = true ∨ cu.scheduler.pc = .armed ∧ 0 < cu.loaded

instance (cu : Cu) : Decidable cu.Taken := inferInstanceAs (Decidable (_ ∨ _ ∧ _))

/-- The launch has warps, `start` is cleared only when every CU has taken it, or when it is done,
and `barrierCoreN` accepts it once. -/
def TakenStep {B : Build} (s : Top B) : TopAction B.numCus → Prop
  | .raise a => 0 < a.totalWarps.toNat
  | .drop => s.core.done = true ∨ ∀ c, (s.cus c).Taken
  | .barrier => s.Accepts → s.host.accepted = 0
  | _ => True

instance {B : Build} (s : Top B) (act : TopAction B.numCus) : Decidable (FittingStep s act) :=
  match act with
  | .raise a => inferInstanceAs (Decidable (a.totalWarps.toNat ≤ B.capacity))
  | .drop | .sample | .loader | .scheduler _ | .pipeline _ | .barrier | .arbiter | .memory =>
    inferInstanceAs (Decidable True)

instance {B : Build} (s : Top B) (act : TopAction B.numCus) : Decidable (TakenStep s act) :=
  match act with
  | .raise a => inferInstanceAs (Decidable (0 < a.totalWarps.toNat))
  | .drop => inferInstanceAs (Decidable (s.core.done = true ∨ ∀ c, (s.cus c).Taken))
  | .barrier => inferInstanceAs (Decidable (s.Accepts → s.host.accepted = 0))
  | .sample | .loader | .scheduler _ | .pipeline _ | .arbiter | .memory =>
    inferInstanceAs (Decidable True)

/-- Every stream of the build holds something. -/
def Build.Buffered (B : Build) : Prop := ∀ a store, Hls.Buffered (B.launch a store) B.side

/-! ## The invariant -/

/-- The launch has been raised and is not done. -/
structure Raised {B : Build} (s : Top B) : Prop where
  fits : s.args.totalWarps.toNat ≤ B.capacity
  pos : 0 < s.args.totalWarps.toNat
  alive : Alive B.side (s.system s.args)
  progress : ∃ tr taken sent seen, Progress s tr taken sent seen
  notDone : s.core.done = false
  accepted : s.core.busy = true → 1 ≤ s.host.accepted
  saw : s.host.sawBusy = true → s.core.busy = true
  low : s.start = false → s.core.busy = true ∧ ∀ c, (s.cus c).Taken
  launches : s.host.launches ≠ 0

/-- The launch is done, and `barrierCoreN` takes no other. -/
structure Ended {B : Build} (s : Top B) : Prop where
  busy : s.core.busy = false
  done : s.core.done = true
  pc : s.core.pc = .head ∨ ∃ i, s.core.pc = .signalDone i
  accepted : 1 ≤ s.host.accepted
  launches : s.host.launches ≠ 0

/-- How far the host's launch is. -/
inductive LaunchStage {B : Build} (s : Top B) : Prop where
  | before (hq : Quiet s) (hflow : Flowing B.side (s.system s.args)) (hl : s.host.launches = 0)
  | raised (h : Raised s)
  | ended (h : Ended s)

section Steps

variable {B : Build} {s s' : Top B} {act : TopAction B.numCus} {ev : List FlatEvent}

/-- A queued warp is one of the launch, whose words are in the store. -/
theorem Progress.held {tr : List Event} {taken sent : Fin B.numCus → Bool}
    {seen : Fin B.numCus → ℕ} (h : Progress s tr taken sent seen) (c : Fin B.numCus)
    (hd : (s.cus c).dispatch ≠ []) :
    HoldsTo s.args maxProgramLen (s.stores c) := by
  obtain ⟨job, hjob⟩ := h.cus c
  have htaken : taken c = true := by
    cases hjob.flight with
    | nothing hnone => exact absurd hnone hd
    | queued => exact (hjob.jobReady _ rfl).1
    | running _ hnone => exact absurd hnone hd
    | waiting _ hnone => exact absurd hnone hd
    | reported hnone => exact absurd hnone hd
  have htokens := h.tokens c
  rw [htaken] at htokens
  refine h.holds c ?_
  by_contra hnot
  rw [Bool.not_eq_true] at hnot
  rw [hnot] at htokens
  simp at htokens

/-- What a step without a launch leaves alone. -/
theorem step_launches {H : HostProtocol} (hact : ∀ args, act ≠ .raise args)
    (hs : s.step H act = some (s', ev)) :
    s'.host.launches = s.host.launches ∧ s'.args = s.args := by
  cases act with
  | raise args => exact absurd rfl (hact args)
  | drop =>
    dsimp only [Top.step, Top.drop] at hs
    split at hs
    · obtain ⟨rfl, -⟩ := Prod.mk.inj (Option.some.inj hs)
      exact ⟨rfl, rfl⟩
    · exact absurd hs (by simp)
  | sample =>
    obtain ⟨rfl, -⟩ := Prod.mk.inj (Option.some.inj hs)
    exact ⟨rfl, rfl⟩
  | barrier =>
    obtain ⟨r, -, heq⟩ := Option.map_eq_some_iff.1 hs
    split at heq <;> obtain ⟨rfl, -⟩ := Prod.mk.inj heq <;> exact ⟨rfl, rfl⟩
  | loader | scheduler | pipeline | arbiter | memory =>
    obtain ⟨⟨-, hhost, hargs, -⟩, -⟩ := step_inner rfl hs
    exact ⟨by rw [hhost], hargs⟩

/-! ## The start of the launch -/

theorem Quiet.launchInv (h : Quiet s) (a : LaunchArgs) :
    ∃ tr, LaunchInv (B.launch a a.store) (s.system a).gpu tr := by
  refine ⟨[], (LaunchInv.reset (s := ⟨false, fun c => Gpu.resetCu (s.cus c).regs, {}⟩)
    ⟨rfl, fun c => ⟨_, rfl⟩⟩).congr h.core fun c => ?_⟩
  have hc := h.cus c
  exact ⟨hc.scheduler, hc.pipeline, hc.dispatch, hc.status, hc.port⟩

theorem Quiet.flowing (h : Quiet s) (hbuf : B.Buffered) (hflow : Flowing B.side (s.system s.args))
    (hact : ∀ args, act ≠ .raise args) (hs : s.step busyHost act = some (s', ev)) :
    Flowing B.side (s'.system s'.args) := by
  rw [(step_launches hact hs).2]
  have hheld (c : Fin B.numCus) (hd : (s.cus c).dispatch ≠ []) :
      HoldsTo s.args maxProgramLen (s.stores c) := absurd (h.cus c).dispatch hd
  obtain hsame | ⟨b, tr, hstep⟩ := Top.step_system rfl hheld hact hs
  · exact hflow.congr hsame
  · exact hflow.step (hbuf _ _) hstep

/-- The host raises the launch. -/
theorem Quiet.raised (h : Quiet s) (hflow : Flowing B.side (s.system s.args)) {a : LaunchArgs}
    (hfits : a.totalWarps.toNat ≤ B.capacity) (hpos : 0 < a.totalWarps.toNat)
    (hs : s.raise busyHost a = some (s', ev)) : Raised s' := by
  unfold Top.raise at hs
  split at hs
  · obtain ⟨rfl, -⟩ := Prod.mk.inj (Option.some.inj hs)
    refine ⟨hfits, hpos, ?_, ⟨_, _, _, _, h.raise rfl rfl rfl⟩, congrArg BarrierCore.done h.core,
      fun hb => ?_, by simp, by simp, Nat.succ_ne_zero _⟩
    · have halive : Alive B.side (s.system a) := ⟨hflow.setArgs, h.launchInv a⟩
      exact halive.congr ⟨rfl, fun c => ⟨rfl, rfl, rfl, rfl, rfl, rfl, rfl⟩, rfl⟩
    · exact absurd (hb.symm.trans (congrArg BarrierCore.busy h.core)) (by simp)
  · exact absurd hs (by simp)

/-! ## The launch under way -/

theorem ProgramLoader.loaded_le {a : LaunchArgs} {start : Bool} {ld ld' : ProgramLoader}
    {p p' : ProgramLoader.Ports B.numCus} (hs : ld.step B a start p = some (ld', p', ev))
    (c : Fin B.numCus) : p.loaded c ≤ p'.loaded c := by
  cases ProgramLoader.step_turns hs with
  | @token c' =>
    by_cases hc : c = c'
    · subst hc
      simp
    · simp [hc]
  | store =>
    split <;> exact Nat.le_refl _
  | enter | reset | stored | skip | seed | seeded | rest => exact Nat.le_refl _

/-- A scheduler that has taken the launch, or is about to, stays with it. -/
theorem Cu.Taken.scheduler {L : Launch} {c : L.Cus} {owed : ℕ} {tr : List Event} {v : CuView}
    {cu cu' : Cu} {start : Bool} {ev : List Event} (h : cu.Taken)
    (hinv : CuInv L c false owed tr v cu) (hs : cu.schedulerStep L c start = some (cu', ev)) :
    cu'.Taken := by
  obtain hrun | ⟨hpc, hloaded⟩ := h
  · exact .inl (hinv.schedulerStep_work hrun hs).1
  · obtain ⟨n, hn⟩ := Nat.exists_eq_succ_of_ne_zero (Nat.ne_of_gt hloaded)
    unfold Cu.schedulerStep at hs
    simp only [hpc, hn] at hs
    obtain ⟨rfl, -⟩ := Prod.mk.inj (Option.some.inj hs)
    exact .inl rfl

theorem Cu.Taken.congr {cu cu' : Cu} (h : cu.Taken) (hscheduler : cu'.scheduler = cu.scheduler)
    (hloaded : cu.loaded ≤ cu'.loaded) : cu'.Taken := by
  unfold Cu.Taken at h ⊢
  rw [hscheduler]
  exact h.imp_right fun h => ⟨h.1, Nat.lt_of_lt_of_le h.2 hloaded⟩

theorem Raised.held (h : Raised s) (c : Fin B.numCus) (hd : (s.cus c).dispatch ≠ []) :
    HoldsTo s.args maxProgramLen (s.stores c) := by
  obtain ⟨tr, taken, sent, seen, hp⟩ := h.progress
  exact hp.held c hd

theorem Raised.alive_step (h : Raised s) (hbuf : B.Buffered) (hact : ∀ args, act ≠ .raise args)
    (hs : s.step busyHost act = some (s', ev)) : Alive B.side (s'.system s'.args) := by
  rw [(step_launches hact hs).2]
  obtain hsame | ⟨b, tr, hstep⟩ := Top.step_system rfl h.held hact hs
  · exact h.alive.congr hsame
  · refine h.alive.step (hbuf _ _) h.fits (fun hdone => ?_) hstep
    exact absurd (h.notDone.symm.trans hdone) Bool.false_ne_true

/-- No step takes a CU out of the launch. -/
theorem Raised.taken (h : Raised s) (hact : act.isInner = true)
    (hs : s.step busyHost act = some (s', ev)) (c : Fin B.numCus) (ht : (s.cus c).Taken) :
    (s'.cus c).Taken := by
  cases act with
  | raise | drop | sample | barrier => exact absurd hact (by simp [TopAction.isInner])
  | loader =>
    obtain ⟨⟨ld, p, ev'⟩, hr, heq⟩ := Option.map_eq_some_iff.1 hs
    obtain ⟨rfl, -⟩ := Prod.mk.inj heq
    exact ht.congr rfl (ProgramLoader.loaded_le hr c)
  | scheduler c' =>
    obtain ⟨⟨cu, ev'⟩, hr, heq⟩ := Option.map_eq_some_iff.1 hs
    obtain ⟨rfl, -⟩ := Prod.mk.inj heq
    by_cases hc : c = c'
    · subst hc
      obtain ⟨tr, v, g, hview⟩ := h.alive.launch
      have hcu := hview.cus c
      rw [show (s.system s.args).gpu.core.done = false from h.notDone] at hcu
      rw [schedulerStep_store s.args.store] at hr
      rw [show (s.setCu c cu).cus c = cu from Function.update_self ..]
      exact ht.scheduler hcu hr
    · rw [show (s.setCu c' cu).cus c = s.cus c from Function.update_of_ne hc ..]
      exact ht
  | pipeline c' =>
    have hset {t : Top B} {cu : Cu} (hcus : t.cus = s.cus)
        (hscheduler : cu.scheduler = (s.cus c').scheduler)
        (hloaded : cu.loaded = (s.cus c').loaded) : ((t.setCu c' cu).cus c).Taken := by
      unfold Top.setCu
      by_cases hc : c = c'
      · subst hc
        simp only [Function.update_self]
        exact ht.congr hscheduler (Nat.le_of_eq hloaded.symm)
      · simp only [Function.update_of_ne hc, hcus]
        exact ht
    dsimp only [Top.step, Top.pipelineStep] at hs
    split at hs
    · obtain ⟨rfl, -⟩ := Prod.mk.inj (Option.some.inj hs)
      exact ht
    · obtain ⟨rfl, -⟩ := Prod.mk.inj (Option.some.inj hs)
      exact hset rfl rfl rfl
    · obtain ⟨⟨cu, ev'⟩, hr, heq⟩ := Option.map_eq_some_iff.1 hs
      obtain ⟨rfl, -⟩ := Prod.mk.inj heq
      exact hset rfl (pipelineStep_scheduler hr) (pipelineStep_loaded hr)
  | arbiter =>
    obtain ⟨r, -, heq⟩ := Option.map_eq_some_iff.1 hs
    obtain ⟨rfl, -⟩ := Prod.mk.inj heq
    exact ht
  | memory =>
    obtain ⟨r, -, heq⟩ := Option.map_eq_some_iff.1 hs
    obtain ⟨rfl, -⟩ := Prod.mk.inj heq
    exact ht

theorem Raised.inner (h : Raised s) (hbuf : B.Buffered) (hact : act.isInner = true)
    (hs : s.step busyHost act = some (s', ev)) : Raised s' := by
  have hraise (args : LaunchArgs) : act ≠ .raise args := by
    rintro rfl
    exact absurd hact (by simp [TopAction.isInner])
  obtain ⟨⟨hcore, hhost, hargs, hstart⟩, -⟩ := step_inner hact hs
  obtain ⟨tr, taken, sent, seen, hp⟩ := h.progress
  obtain ⟨taken', sent', hp'⟩ := hp.inner hact hs
  refine ⟨by rw [hargs]; exact h.fits, by rw [hargs]; exact h.pos, h.alive_step hbuf hraise hs,
    ⟨_, _, _, _, hp'⟩, by rw [hcore]; exact h.notDone, by rw [hcore, hhost]; exact h.accepted,
    by rw [hcore, hhost]; exact h.saw, fun hlow => ?_, by rw [hhost]; exact h.launches⟩
  rw [hstart] at hlow
  rw [hcore]
  exact ⟨(h.low hlow).1, fun c => h.taken hact hs c ((h.low hlow).2 c)⟩

/-- What a step of `barrierCoreN` makes of a launch within capacity that is not done. -/
theorem barrierStep_notDone {G : GpuSize} {depth : ℕ} {totalWarps : WarpId} {start : Bool}
    {core core' : BarrierCore} {ports ports' : Fin G.numCus → BarrierPort}
    (hfits : totalWarps.toNat ≤ G.capacity) (hdone : core.done = false)
    (hs : Hls.barrierStep G depth totalWarps start core ports = some (core', ports')) :
    (core.pc = .completeCheck ∧ core'.busy = false ∧ core'.done = true ∧
        core'.pc = .signalDone 0) ∨
      core'.done = false ∧ (core'.busy = core.busy ∨
        (core.pc = .head ∧ core.busy = false ∧ start = true) ∧ core'.busy = true) := by
  cases barrierStep_moves hs with
  | complete hpc => exact .inl ⟨hpc, rfl, rfl, rfl⟩
  | accept hpc hb hstart => exact .inr ⟨hdone, .inr ⟨⟨hpc, hb, hstart⟩, rfl⟩⟩
  | reject _ _ _ hover => exact absurd hfits (Nat.not_le_of_lt hover)
  | poll | idle | pass | count | polled | release | hold | signal | signalled | incomplete | finish
  | finished => exact .inr ⟨hdone, .inl rfl⟩

theorem Raised.barrier (h : Raised s) (hbuf : B.Buffered)
    (hs : s.step busyHost .barrier = some (s', ev)) : LaunchStage s' := by
  have hraise (args : LaunchArgs) : (.barrier : TopAction B.numCus) ≠ .raise args := by simp
  have halive := h.alive_step hbuf hraise hs
  obtain ⟨hlaunches, hargs⟩ := step_launches hraise hs
  obtain ⟨tr, taken, sent, seen, hp⟩ := h.progress
  obtain ⟨⟨core, ports⟩, hr, heq⟩ := Option.map_eq_some_iff.1 hs
  obtain ⟨seen', hp', -⟩ := hp.barrier hr
  -- the step apart from the count of acceptances
  obtain ⟨hcore, hstart, hsaw, hle, htaken, hprogress⟩ : s'.core = core ∧ s'.start = s.start ∧
      s'.host.sawBusy = s.host.sawBusy ∧
      (if s.Accepts then s.host.accepted + 1 else s.host.accepted) = s'.host.accepted ∧
      (∀ c, (s.cus c).Taken → (s'.cus c).Taken) ∧ Progress s' tr taken sent seen' := by
    split at heq
    · next hacc =>
      obtain ⟨rfl, -⟩ := Prod.mk.inj heq
      exact ⟨rfl, rfl, rfl, if_pos hacc, fun _ => id,
        hp'.congr rfl (fun _ => ⟨rfl, rfl, rfl, rfl, rfl, rfl⟩) rfl rfl rfl rfl⟩
    · next hacc =>
      obtain ⟨rfl, -⟩ := Prod.mk.inj heq
      exact ⟨rfl, rfl, rfl, if_neg hacc, fun _ => id, hp'⟩
  have hmono : s.host.accepted ≤ s'.host.accepted := by
    rw [← hle]
    split <;> omega
  obtain ⟨hpc, hb, hd, hpc'⟩ | ⟨hd, hbusy⟩ := barrierStep_notDone h.fits h.notDone hr
  · have hold := hp.busy_of_pc (by simp [hpc]) (by simp [hpc])
    exact .ended ⟨by rw [hcore]; exact hb, by rw [hcore]; exact hd,
      by rw [hcore]; exact .inr ⟨0, hpc'⟩, Nat.le_trans (h.accepted hold) hmono,
      by rw [hlaunches]; exact h.launches⟩
  · refine .raised ⟨by rw [hargs]; exact h.fits, by rw [hargs]; exact h.pos, halive,
      ⟨_, _, _, _, hprogress⟩, by rw [hcore]; exact hd, fun hb => ?_, fun hs => ?_, fun hlow => ?_,
      by rw [hlaunches]; exact h.launches⟩
    · rw [hcore] at hb
      obtain hsame | ⟨hacc, -⟩ := hbusy
      · exact Nat.le_trans (h.accepted (hsame.symm.trans hb)) hmono
      · have hacc : s.Accepts := hacc
        rw [← hle, if_pos hacc]
        exact Nat.le_add_left _ _
    · rw [hsaw] at hs
      rw [hcore]
      obtain hsame | ⟨-, hb⟩ := hbusy
      · exact hsame.trans (h.saw hs)
      · exact hb
    · rw [hstart] at hlow
      rw [hcore]
      refine ⟨?_, fun c => htaken c ((h.low hlow).2 c)⟩
      obtain hsame | ⟨-, hb⟩ := hbusy
      · exact hsame.trans (h.low hlow).1
      · exact hb

/-- The host clears `start`. -/
theorem Raised.drop (h : Raised s) (hbuf : B.Buffered)
    (hok : s.core.done = true ∨ ∀ c, (s.cus c).Taken)
    (hs : s.step busyHost .drop = some (s', ev)) : Raised s' := by
  have halive := h.alive_step hbuf (by simp) hs
  obtain ⟨tr, taken, sent, seen, hp⟩ := h.progress
  have htaken := hok.resolve_left (by rw [h.notDone]; exact Bool.false_ne_true)
  dsimp only [Top.step, Top.drop] at hs
  split at hs
  · next hmay =>
    obtain ⟨rfl, -⟩ := Prod.mk.inj (Option.some.inj hs)
    exact ⟨h.fits, h.pos, halive, ⟨_, _, _, _, hp.drop⟩, h.notDone, h.accepted, h.saw,
      fun _ => ⟨h.saw hmay.2, htaken⟩, h.launches⟩
  · exact absurd hs (by simp)

/-- The host reads the status. -/
theorem Raised.sample (h : Raised s) (hbuf : B.Buffered) : Raised s.sample := by
  have hs : s.step busyHost .sample = some (s.sample, []) := rfl
  have halive := h.alive_step hbuf (by simp) hs
  obtain ⟨tr, taken, sent, seen, hp⟩ := h.progress
  refine ⟨h.fits, h.pos, halive, ⟨tr, taken, sent, seen,
    hp.congr rfl (fun _ => ⟨rfl, rfl, rfl, rfl, rfl, rfl⟩) rfl rfl rfl rfl⟩, h.notDone, h.accepted,
    fun hsaw => ?_, h.low, h.launches⟩
  obtain hsaw | hb := (Bool.or_eq_true _ _).mp hsaw
  · exact h.saw hsaw
  · exact hb

/-! ## Behind the launch -/

/-- A launch that is done stays done. -/
theorem Ended.step (h : Ended s) (hok : TakenStep s act)
    (hs : s.step busyHost act = some (s', ev)) : Ended s' := by
  have hcongr (hcore : s'.core = s.core) (hhost : s'.host.accepted = s.host.accepted)
      (hlaunches : s'.host.launches = s.host.launches) : Ended s' :=
    ⟨by rw [hcore]; exact h.busy, by rw [hcore]; exact h.done, by rw [hcore]; exact h.pc,
      by rw [hhost]; exact h.accepted, by rw [hlaunches]; exact h.launches⟩
  cases act with
  | raise a =>
    dsimp only [Top.step, Top.raise] at hs
    split at hs
    · next hmay =>
      have hzero : s.host.launches = 0 := by simpa [busyHost] using hmay.2
      exact absurd hzero h.launches
    · exact absurd hs (by simp)
  | drop =>
    dsimp only [Top.step, Top.drop] at hs
    split at hs
    · obtain ⟨rfl, -⟩ := Prod.mk.inj (Option.some.inj hs)
      exact hcongr rfl rfl rfl
    · exact absurd hs (by simp)
  | sample =>
    obtain ⟨rfl, -⟩ := Prod.mk.inj (Option.some.inj hs)
    exact hcongr rfl rfl rfl
  | loader | scheduler | pipeline | arbiter | memory =>
    obtain ⟨⟨hcore, hhost, -, -⟩, -⟩ := step_inner rfl hs
    exact hcongr hcore (by rw [hhost]) (by rw [hhost])
  | barrier =>
    have hacc : ¬ s.Accepts := fun hacc => by
      have hzero := hok hacc
      have hone := h.accepted
      omega
    obtain ⟨⟨core, ports⟩, hr, heq⟩ := Option.map_eq_some_iff.1 hs
    rw [if_neg hacc] at heq
    obtain ⟨rfl, -⟩ := Prod.mk.inj heq
    have hnot {pc : BarrierPc} (hat : s.core.pc = pc) (hhead : pc ≠ .head)
        (hsignal : ∀ i, pc ≠ .signalDone i) : False := by
      obtain hpc | ⟨i, hpc⟩ := h.pc
      · exact hhead (hat.symm.trans hpc)
      · exact hsignal i (hat.symm.trans hpc)
    cases barrierStep_moves hr with
    | poll _ hb => exact absurd (h.busy.symm.trans hb) (by simp)
    | idle => exact ⟨h.busy, h.done, h.pc, h.accepted, h.launches⟩
    | reject hpc hb hstart | accept hpc hb hstart => exact absurd ⟨hpc, hb, hstart⟩ hacc
    | finish => exact ⟨h.busy, h.done, .inr ⟨_, rfl⟩, h.accepted, h.launches⟩
    | finished => exact ⟨h.busy, h.done, .inl rfl, h.accepted, h.launches⟩
    | pass hpc | count hpc | polled hpc | release hpc | hold hpc | signal hpc | signalled hpc
    | complete hpc | incomplete hpc => exact (hnot hpc (by simp) (by simp)).elim

/-! ## Main result -/

theorem LaunchStage.step (h : LaunchStage s) (hbuf : B.Buffered) (hfits : FittingStep s act)
    (hok : TakenStep s act) (hs : s.step busyHost act = some (s', ev)) : LaunchStage s' := by
  cases h with
  | ended h => exact .ended (h.step hok hs)
  | before hq hflow hl =>
    cases act with
    | raise a => exact .raised (hq.raised hflow hfits hok hs)
    | drop | sample | barrier | loader | scheduler | pipeline | arbiter | memory =>
      exact .before (hq.step (by simp) hs) (hq.flowing hbuf hflow (by simp) hs)
        ((step_launches (by simp) hs).1.trans hl)
  | raised h =>
    cases act with
    | raise a =>
      dsimp only [Top.step, Top.raise] at hs
      split at hs
      · next hmay =>
        have hzero : s.host.launches = 0 := by simpa [busyHost] using hmay.2
        exact absurd hzero h.launches
      · exact absurd hs (by simp)
    | drop => exact .raised (h.drop hbuf hok hs)
    | sample =>
      obtain ⟨rfl, -⟩ := Prod.mk.inj (Option.some.inj hs)
      exact .raised (h.sample hbuf)
    | barrier => exact h.barrier hbuf hs
    | loader | scheduler | pipeline | arbiter | memory => exact .raised (h.inner hbuf rfl hs)

/-- In a quiescent state every CU that is to take the launch has taken it. -/
theorem Raised.ongoing (h : Raised s) (hlow : s.start = false) (hquiet : s.Quiescent busyHost) :
    Ongoing s.args s := by
  obtain ⟨hbusy, htaken⟩ := h.low hlow
  refine ⟨rfl, h.alive, ⟨hlow, hbusy, fun c => ?_⟩, h.notDone, h.held⟩
  refine (htaken c).resolve_right ?_
  rintro ⟨hpc, hloaded⟩
  obtain ⟨n, hn⟩ := Nat.exists_eq_succ_of_ne_zero (Nat.ne_of_gt hloaded)
  obtain ⟨cu, hstep, hcu⟩ : ∃ cu, (s.cus c).schedulerStep (B.launch s.args (s.stores c)) c s.start =
      some (cu, []) ∧ cu.loaded = n := by
    unfold Cu.schedulerStep
    simp only [hpc, hn]
    exact ⟨_, rfl, rfl⟩
  have hs : s.step busyHost (.scheduler c) = some (s.setCu c cu, _) :=
    Option.map_eq_some_iff.2 ⟨_, hstep, rfl⟩
  have hdata := data_cu (hquiet.data rfl hs) c
  have hsame : ((s.setCu c cu).cus c).loaded = (s.cus c).loaded := (congrArg Cu.loaded hdata :)
  rw [show (s.setCu c cu).cus c = cu from Function.update_self .., hcu, hn] at hsame
  omega

theorem LaunchStage.settled (h : LaunchStage s) (hbuf : B.Buffered) : NotStuck s := by
  intro hl hlow hquiet
  cases h with
  | before _ _ hzero => exact absurd hzero hl
  | raised h =>
    exact absurd hquiet ((h.ongoing hlow hquiet).not_quiescent ⟨hbuf _ _, h.pos, h.fits⟩)
  | ended h => exact ⟨h.busy, h.done⟩

/-- A launch with warps that every CU has taken before `start` is cleared, and that
`barrierCoreN` accepts once, does not get stuck. -/
theorem notStuck {tr : List FlatEvent} (hbuf : B.Buffered)
    (h : (((topSystem B busyHost).filter FittingStep).filter TakenStep).Run (fun _ => True) s tr) :
    NotStuck s := by
  suffices hstage : LaunchStage s from hstage.settled hbuf
  refine h.invariant (fun s _ => LaunchStage s) (fun s hreset _ => ?_) ?_
  · refine .before (Quiet.reset hreset) (Flowing.reset ?_) (by rw [hreset.2.1])
    obtain ⟨-, -, -, -, -, hcore, hcus, mem, hside⟩ := hreset
    exact ⟨⟨hcore, hcus⟩, by rw [show (s.system s.args).side = _ from hside]; simp⟩
  · intro s tr act s' ev _ hstage hs _
    obtain ⟨hok, hs⟩ := Transition.filter_step hs
    obtain ⟨hfits, hs⟩ := Transition.filter_step hs
    exact hstage.step hbuf hfits hok hs

end Steps

theorem oneSlot_buffered : oneSlot.Buffered := fun _ _ =>
  ⟨Nat.two_pos, Nat.two_pos, Nat.two_pos, Nat.two_pos, Nat.one_pos, Nat.two_pos, Nat.one_pos,
    Nat.one_pos⟩

/-- The launch of a warp that is done, and everybody at rest. -/
theorem notStuck_oneSlot : ∃ (s : Top oneSlot) (tr : List FlatEvent),
    (((topSystem oneSlot busyHost).filter FittingStep).filter TakenStep).Run (fun _ => True) s tr ∧
      s.host.launches = 1 ∧ s.start = false ∧ s.Quiescent busyHost ∧ s.core.busy = false ∧
      s.core.done = true := by
  have hinit : (((topSystem oneSlot busyHost).filter FittingStep).filter TakenStep).Run
    (fun _ => True) (Top.zeroed oneSlot) [] := .init (Top.zeroed_isReset _) trivial
  have hrun := hinit.follow (haltThen 0 ++ List.replicate 4 (.scheduler 0))
  rw [List.nil_append] at hrun
  have hof (r : Top oneSlot × List FlatEvent)
      (hrun : (((topSystem oneSlot busyHost).filter FittingStep).filter TakenStep).Run
        (fun _ => True) r.1 r.2)
      (hreached : (r.1.host.launches == 1 && !r.1.start && decide r.1.AtRest) = true) :
      ∃ (s : Top oneSlot) (tr : List FlatEvent),
        (((topSystem oneSlot busyHost).filter FittingStep).filter TakenStep).Run
          (fun _ => True) s tr ∧ s.host.launches = 1 ∧ s.start = false ∧ s.Quiescent busyHost ∧
          s.core.busy = false ∧ s.core.done = true := by
    simp only [Bool.and_eq_true, beq_iff_eq, Bool.not_eq_true', decide_eq_true_eq] at hreached
    obtain ⟨⟨hlaunches, hlow⟩, hrest⟩ := hreached
    refine ⟨_, _, hrun, hlaunches, hlow, hrest.quiescent, ?_⟩
    exact notStuck oneSlot_buffered hrun (by rw [hlaunches]; decide) hlow hrest.quiescent
  exact hof _ hrun (by decide +kernel)

/-- The host clears `start` as soon as it has read `busy`, before the loader has begun. -/
theorem not_notStuck : ¬ ∀ (B : Build) (s : Top B) (tr : List FlatEvent), B.Buffered →
    ((topSystem B busyHost).filter FittingStep).Run (fun _ => True) s tr → NotStuck s := by
  intro h
  obtain ⟨r, hr, hrest, hbusy, hlow, hlaunches⟩ : ∃ r,
      ((topSystem oneSlot busyHost).filter FittingStep).exec (fun _ => True) (Top.zeroed oneSlot)
        [.raise (haltArgs 1), .barrier, .sample, .drop] = some r ∧ r.1.AtRest ∧
      r.1.core.busy = true ∧ r.1.start = false ∧ r.1.host.launches = 1 :=
    ⟨_, rfl, by decide, rfl, rfl, rfl⟩
  have hinit : ((topSystem oneSlot busyHost).filter FittingStep).Run (fun _ => True)
    (Top.zeroed oneSlot) [] := .init (Top.zeroed_isReset _) trivial
  have hidle := h oneSlot _ _ oneSlot_buffered (hinit.exec _ hr) (by rw [hlaunches]; decide) hlow
    hrest.quiescent
  exact absurd (hbusy.symm.trans hidle.1) (by simp)

end RiscvGpgpu.Hls
