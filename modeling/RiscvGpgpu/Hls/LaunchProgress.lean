import RiscvGpgpu.Hls.Completion
import RiscvGpgpu.Hls.Loading
import RiscvGpgpu.Hls.LaunchInvariant

/-!
# The progress of a launch

`Progress` joins the CUs, the loader and the arbiter in one launch of the flat top: each CU launches
once, on the token of this launch, and `barrierCoreN` counts the completions of this launch.
-/

namespace RiscvGpgpu.Hls

open Launch

/-- The launch at hand; `Progress` does not depend on the program. -/
abbrev Build.plain (B : Build) (a : LaunchArgs) : Launch := B.launch a (Vector.replicate _ 0)

section Plain

variable {B : Build} {a : LaunchArgs} {c : Fin B.numCus} {taken : Bool} {seen : ℕ}
  {job : Option SlotId} {tr : List Event} {cu : Cu} {store store' : ProgramStore}

theorem JobAt.setStore (h : JobAt (B.launch a store) c cu job) :
    JobAt (B.launch a store') c cu job := by
  cases h with
  | nothing h1 h2 h3 => exact .nothing h1 h2 h3
  | queued hid h1 h2 h3 => exact .queued hid h1 h2 h3
  | running hid h1 h2 h3 => exact .running hid h1 h2 h3
  | waiting hid h1 h2 h3 => exact .waiting hid h1 h2 h3
  | reported h1 h2 h3 => exact .reported h1 h2 h3

theorem CuLaunch.setStore (h : CuLaunch (B.launch a store) c taken seen job tr cu) :
    CuLaunch (B.launch a store') c taken seen job tr cu :=
  ⟨h.flight.setStore, h.jobReady, h.busyCu, h.eventJob, h.residents, h.others, h.count, h.doneTr,
    h.statusTr⟩

/-- A CU whose launch is over, or that has not launched, is ready for the next launch. -/
theorem CuLaunch.next {a' : LaunchArgs} (h : CuLaunch (B.plain a) c taken seen job tr cu)
    (hover : taken = false ∨ seen = ((B.plain a).residents c).card) :
    CuLaunch (B.plain a') c false 0 none [] cu := by
  have hdone (ht : taken = true) (slot : SlotId) (hres : (B.plain a).Resident c slot) :
      (cu.scheduler.slots slot).state = .done := by
    obtain hf | hseen := hover
    · exact absurd (ht.symm.trans hf) (by simp)
    · exact (h.all_done hseen hres).2
  have hjob : job = none := by
    cases hj : job with
    | none => rfl
    | some slot =>
      obtain ⟨ht, hres, hready⟩ := h.jobReady slot hj
      exact absurd (hready.symm.trans (hdone ht slot hres)) (by decide)
  subst hjob
  obtain ⟨hd, hp, hs⟩ : cu.dispatch = [] ∧ cu.pipeline = .idle ∧ cu.status = [] := by
    cases h.flight with
    | nothing hd hp hs => exact ⟨hd, hp, hs⟩
  refine ⟨.nothing hd hp hs, by simp, h.busyCu, h.eventJob, by simp,
    fun slot hlt _ => ?_, ?_, by simp, by simp [hs]⟩
  · by_cases hres : taken = true ∧ (B.plain a).Resident c slot
    · rw [hdone hres.1 slot hres.2]
      exact ⟨by decide, by decide⟩
    · rw [not_and_or, Bool.not_eq_true] at hres
      exact h.others slot hlt hres
  · have hcount := h.count
    obtain hf | hseen := hover
    · rw [if_neg (by simp [hf])] at hcount
      simp
      omega
    · have hle := h.seen_le
      simp
      omega

end Plain

/-- Every warp has been counted. -/
def AllSeen (L : Launch) (seen : L.Cus → ℕ) : Prop := ∀ c, seen c = (L.residents c).card

/-- What `barrierCoreN` makes of the launch. -/
inductive CorePhase (L : Launch) (core : BarrierCore) (seen : L.Cus → ℕ) : Prop where
  | waiting (hb : core.busy = false) (hpc : core.pc = .head ∨ ∃ i, core.pc = .signalDone i)
      (hseen : ∀ c, seen c = 0)
  | counting (hb : core.busy = true) (hpc : ∀ i, core.pc ≠ .signalDone i)
      (hcap : L.totalWarps.toNat ≤ L.capacity) (htotal : core.counts.totalWarps = L.totalWarps)
      (hcount : core.counts.doneCount = BitVec.ofNat 32 (∑ c, seen c))
  | complete (hseen : AllSeen L seen)
      (hb : core.busy = false → core.pc = .head ∨ ∃ i, core.pc = .signalDone i)
      (hpc : ∀ i, core.pc = .signalDone i → core.busy = false)

/-- The state of a launch whose events so far are `tr`. -/
structure Progress {B : Build} (s : Top B) (tr : List Event) (taken sent : Fin B.numCus → Bool)
    (seen : Fin B.numCus → ℕ) : Prop where
  cus : ∀ c, ∃ job, CuLaunch (B.plain s.args) c (taken c) (seen c) job tr (s.cus c)
  tokens : ∀ c, (s.cus c).loaded + (taken c).toNat = (sent c).toNat
  loader : s.loader.Stage B s.args s.start s.stores sent
  holds : ∀ c, sent c = true → HoldsTo s.args maxProgramLen (s.stores c)
  core : CorePhase (B.plain s.args) s.core seen

section Steps

variable {B : Build} {s : Top B} {tr ev : List Event} {taken sent : Fin B.numCus → Bool}
  {seen : Fin B.numCus → ℕ}

/-- A CU with a token has not launched. -/
theorem Progress.token (h : Progress s tr taken sent seen) {c : Fin B.numCus}
    (hc : 0 < (s.cus c).loaded) : taken c = false ∧ sent c = true ∧ (s.cus c).loaded = 1 := by
  have ht := h.tokens c
  cases hk : taken c <;> cases hn : sent c <;> rw [hk, hn] at ht <;> simp at ht
  · omega
  · exact ⟨rfl, rfl, ht⟩
  · omega

/-! ## The CUs -/

/-- A CU changes, and takes its token or not. -/
theorem Progress.setCu (h : Progress s tr taken sent seen) {c : Fin B.numCus} {cu : Cu}
    {t : Bool} (hcu : ∃ job, CuLaunch (B.plain s.args) c t (seen c) job (tr ++ ev) cu)
    (htoken : cu.loaded + t.toNat = (s.cus c).loaded + (taken c).toNat) :
    Progress (s.setCu c cu) (tr ++ ev) (Function.update taken c t) sent seen where
  cus c' := by
    by_cases hc : c' = c
    · rw [hc]
      simpa [Top.setCu] using hcu
    · obtain ⟨job, hjob⟩ := h.cus c'
      exact ⟨job, by simpa [Top.setCu, hc] using hjob.append ev⟩
  tokens c' := by
    by_cases hc : c' = c
    · rw [hc]
      simpa [Top.setCu] using htoken.trans (h.tokens c)
    · simpa [Top.setCu, hc] using h.tokens c'
  loader := h.loader
  holds := h.holds
  core := h.core

theorem Progress.scheduler (h : Progress s tr taken sent seen) {c : Fin B.numCus} {cu : Cu}
    (hs : (s.cus c).schedulerStep (B.launch s.args (s.stores c)) c s.start = some (cu, ev)) :
    (cu.loaded = (s.cus c).loaded ∧ Progress (s.setCu c cu) (tr ++ ev) taken sent seen) ∨
      (cu.loaded + 1 = (s.cus c).loaded ∧ ev = [] ∧
        Progress (s.setCu c cu) tr (Function.update taken c true) sent seen) := by
  obtain ⟨job, hjob⟩ := h.cus c
  obtain ⟨hl, hcu⟩ | ⟨hl, rfl, hcu⟩ :=
    hjob.setStore.schedulerStep (fun hpos => (h.token hpos).1) hs
  · refine .inl ⟨hl, ?_⟩
    obtain ⟨job', hjob'⟩ := hcu
    have hset : Progress (s.setCu c cu) (tr ++ ev) (Function.update taken c (taken c)) sent seen :=
      h.setCu ⟨job', hjob'.setStore⟩ (by rw [hl])
    rwa [Function.update_eq_self] at hset
  · refine .inr ⟨hl, rfl, ?_⟩
    obtain ⟨job', hjob'⟩ := hcu
    have htoken := h.token (c := c) (by omega)
    have hset : Progress (s.setCu c cu) (tr ++ []) (Function.update taken c true) sent seen := by
      refine h.setCu ⟨job', ?_⟩ ?_
      · rw [List.append_nil]
        exact hjob'.setStore
      · rw [htoken.1]
        simp
        omega
    rwa [List.append_nil] at hset

/-- What `Progress` does not look at. -/
theorem Progress.congr (h : Progress s tr taken sent seen) {s' : Top B} (hargs : s'.args = s.args)
    (hcus : ∀ c, (s'.cus c).scheduler = (s.cus c).scheduler ∧
      (s'.cus c).pipeline = (s.cus c).pipeline ∧ (s'.cus c).dispatch = (s.cus c).dispatch ∧
      (s'.cus c).status = (s.cus c).status ∧ (s'.cus c).port = (s.cus c).port ∧
      (s'.cus c).loaded = (s.cus c).loaded)
    (hstart : s'.start = s.start) (hloader : s'.loader = s.loader) (hstores : s'.stores = s.stores)
    (hcore : s'.core = s.core) : Progress s' tr taken sent seen where
  cus c := by
    obtain ⟨job, hjob⟩ := h.cus c
    obtain ⟨h1, h2, h3, h4, h5, -⟩ := hcus c
    rw [hargs]
    exact ⟨job, hjob.congr h1 (hjob.flight.congr h3 h2 h4) (fun st hst => by rwa [h4] at hst)
      (by rw [h5])⟩
  tokens c := by
    rw [(hcus c).2.2.2.2.2]
    exact h.tokens c
  loader := by
    rw [hargs, hstart, hstores, hloader]
    exact h.loader
  holds := by
    rw [hargs, hstores]
    exact h.holds
  core := by
    rw [hargs, hcore]
    exact h.core

theorem pipelineStep_loaded {L : Launch} {c : L.Cus} {cu cu' : Cu}
    (hs : cu.pipelineStep L c = some (cu', ev)) : cu'.loaded = cu.loaded := by
  unfold Cu.pipelineStep at hs
  split at hs
  · split at hs <;> obtain ⟨rfl, -⟩ := Prod.mk.inj (Option.some.inj hs) <;> rfl
  · obtain ⟨queue, -, heq⟩ := Option.map_eq_some_iff.1 hs
    obtain ⟨rfl, -⟩ := Prod.mk.inj heq
    rfl
  · obtain ⟨queue, -, heq⟩ := Option.map_eq_some_iff.1 hs
    obtain ⟨rfl, -⟩ := Prod.mk.inj heq
    rfl
  · split at hs
    · exact absurd hs (by simp)
    · obtain ⟨rfl, -⟩ := Prod.mk.inj (Option.some.inj hs)
      rfl

theorem Progress.pipeline (h : Progress s tr taken sent seen) {c : Fin B.numCus} {cu : Cu}
    (hs : (s.cus c).pipelineStep (B.launch s.args (s.stores c)) c = some (cu, ev)) :
    Progress (s.setCu c cu) (tr ++ ev) taken sent seen := by
  obtain ⟨job, hjob⟩ := h.cus c
  have := h.setCu (t := taken c) ⟨job, (hjob.setStore.pipelineStep hs).setStore⟩
    (by rw [pipelineStep_loaded hs])
  rwa [Function.update_eq_self] at this

/-! ## The loader -/

theorem Progress.loaderStep (h : Progress s tr taken sent seen) {ld : ProgramLoader}
    {p : ProgramLoader.Ports B.numCus} {ev : List FlatEvent}
    (hs : s.loader.step B s.args s.start s.loaderPorts = some (ld, p, ev)) :
    ∃ sent', Progress (s.withLoader ld p) tr taken sent' seen ∧
      ∀ c, sent c = true → sent' c = true := by
  have hstage : s.loader.Stage B s.args s.start s.loaderPorts.stores sent := h.loader
  obtain ⟨sent', hmoves⟩ := hstage.step hs
  refine ⟨sent', ⟨fun c => ?_, fun c => ?_, hmoves.stage, fun c hc => ?_, h.core⟩, hmoves.mono⟩
  · obtain ⟨job, hjob⟩ := h.cus c
    exact ⟨job, hjob.congr rfl (hjob.flight.congr rfl rfl rfl) (fun _ => id) rfl⟩
  · have htokens := h.tokens c
    have hmove := hmoves.tokens c
    simp only [Top.loaderPorts] at hmove
    show p.loaded c + (taken c).toNat = (sent' c).toNat
    omega
  · by_cases hold : sent c = true
    · show HoldsTo s.args maxProgramLen (p.stores c)
      rw [hmoves.stores c hold]
      exact h.holds c hold
    · exact hmoves.fresh c (by simpa using hold) hc

/-! ## The arbiter -/

/-- What a step of `barrierCoreN` does to its bits. -/
theorem barrierStep_status {G : GpuSize} {depth : ℕ} {totalWarps : WarpId} {start : Bool}
    {core core' : BarrierCore} {ports ports' : Fin G.numCus → BarrierPort}
    (hs : Hls.barrierStep G depth totalWarps start core ports = some (core', ports')) :
    ((core.pc = .head ∧ core.busy = false ∧ start = true) ∧ core'.pc = .head ∧
      core'.done = core.done ∧
      if G.capacity < totalWarps.toNat then core'.busy = false ∧ core'.fault = true
      else core'.fault = core.fault) ∨
    (¬ (core.pc = .head ∧ core.busy = false ∧ start = true) ∧ core'.fault = core.fault ∧
      (core'.busy = true → core.busy = true) ∧
      ((core.pc = .head → core.busy = false → core' = core) ∧ core'.done = core.done ∨
        core.pc = .completeCheck ∧ core'.done = true)) := by
  have hother {core' : BarrierCore} (hpc : core.pc ≠ .head) (hf : core'.fault = core.fault)
      (hb : core'.busy = true → core.busy = true) (hd : core'.done = core.done) :
      ¬ (core.pc = .head ∧ core.busy = false ∧ start = true) ∧ core'.fault = core.fault ∧
        (core'.busy = true → core.busy = true) ∧
        ((core.pc = .head → core.busy = false → core' = core) ∧ core'.done = core.done ∨
          core.pc = .completeCheck ∧ core'.done = true) :=
    ⟨fun h => hpc h.1, hf, hb, .inl ⟨fun h => absurd h hpc, hd⟩⟩
  cases barrierStep_moves hs with
  | poll hpc hb => exact .inr ⟨by simp [hb], rfl, id, .inl ⟨by simp [hb], rfl⟩⟩
  | idle hpc hb hstart => exact .inr ⟨by simp [hstart], rfl, id, .inl ⟨fun _ _ => rfl, rfl⟩⟩
  | reject hpc hb hstart hover =>
    refine .inl ⟨⟨hpc, hb, hstart⟩, hpc, rfl, ?_⟩
    rw [if_pos hover]
    exact ⟨hb, rfl⟩
  | accept hpc hb hstart hfits =>
    refine .inl ⟨⟨hpc, hb, hstart⟩, hpc, rfl, ?_⟩
    rw [if_neg (Nat.not_lt.2 hfits)]
  | complete hpc => exact .inr ⟨by simp [hpc], rfl, by simp, .inr ⟨hpc, rfl⟩⟩
  | pass hpc | count hpc | polled hpc | release hpc | hold hpc | signal hpc | signalled hpc
  | incomplete hpc | finish hpc | finished hpc => exact .inr (hother (by simp [hpc]) rfl id rfl)

/-- The state after a step of `barrierCoreN`. -/
def Top.withBarrier (s : Top B) (core : BarrierCore) (ports : Fin B.numCus → BarrierPort) : Top B :=
  { s with
    core := core
    cus := fun c => { s.cus c with port := ports c } }

/-- The arbiter moves on, or sends a signal. -/
theorem Progress.setCore (h : Progress s tr taken sent seen) {core : BarrierCore}
    {ports : Fin B.numCus → BarrierPort} (hports : ∀ c, (ports c).events = (s.cus c).port.events)
    (hcore : CorePhase (B.plain s.args) core seen) :
    Progress (s.withBarrier core ports) tr taken sent seen where
  cus c := by
    obtain ⟨job, hjob⟩ := h.cus c
    exact ⟨job, hjob.setPort (hports c)⟩
  tokens := h.tokens
  loader := h.loader
  holds := h.holds
  core := hcore

/-- A signal leaves the events of every CU. -/
theorem update_signals_events {N : ℕ} (ports : Fin N → BarrierPort) (c c' : Fin N)
    (signals : List BarrierSignal) :
    (Function.update ports c { ports c with signals := signals } c').events =
    (ports c').events := by
  by_cases hc : c' = c
  · rw [hc, Function.update_self]
  · rw [Function.update_of_ne hc]

theorem sum_update_add {N : ℕ} (seen : Fin N → ℕ) (c : Fin N) (n : ℕ) :
    ∑ c', Function.update seen c (seen c + n) c' = (∑ c', seen c') + n := by
  rw [Finset.sum_update_of_mem (Finset.mem_univ _), ← Finset.add_sum_erase _ _ (Finset.mem_univ c),
    Finset.sdiff_singleton_eq_erase]
  omega

/-- The arbiter counts an event. -/
theorem Progress.poll (h : Progress s tr taken sent seen) {c : Fin B.numCus} {core : BarrierCore}
    {code : WarpStatusCode} {rest : List WarpStatusCode}
    (hev : (s.cus c).port.events = code :: rest)
    (hcore : CorePhase (B.plain s.args) core
      (Function.update seen c (seen c + if code = .complete then 1 else 0))) :
    Progress (s.withBarrier core
      (Function.update s.ports c { (s.cus c).port with events := rest })) tr taken sent
      (Function.update seen c (seen c + if code = .complete then 1 else 0)) where
  cus c' := by
    by_cases hc : c' = c
    · rw [hc]
      obtain ⟨job, hjob⟩ := h.cus c
      refine ⟨job, ?_⟩
      simpa [Top.withBarrier] using hjob.poll hev
    · obtain ⟨job, hjob⟩ := h.cus c'
      refine ⟨job, ?_⟩
      simpa [Top.withBarrier, Top.ports, hc] using hjob
  tokens := h.tokens
  loader := h.loader
  holds := h.holds
  core := hcore

/-- No completion is left behind the last one. -/
theorem Progress.seen_stays (h : Progress s tr taken sent seen) {c : Fin B.numCus}
    {code : WarpStatusCode} {rest : List WarpStatusCode}
    (hev : (s.cus c).port.events = code :: rest) (hall : AllSeen (B.plain s.args) seen) :
    Function.update seen c (seen c + if code = .complete then 1 else 0) = seen := by
  have hcode : code ≠ .complete := by
    rintro rfl
    obtain ⟨job, hjob⟩ := h.cus c
    have hle := hjob.seen_le
    have hseen := hall c
    have hpos : 0 < (s.cus c).eventsInFlight .complete := by
      simp only [Cu.eventsInFlight, hev, List.count_cons_self]
      omega
    omega
  rw [if_neg hcode, Nat.add_zero, Function.update_eq_self]

theorem Progress.idle (h : Progress s tr taken sent seen) (hb : s.core.busy = false) :
    s.core.pc = .head ∨ ∃ i, s.core.pc = .signalDone i := by
  obtain ⟨-, hpc, -⟩ | ⟨hb', -⟩ | ⟨-, hpc, -⟩ := h.core
  · exact hpc
  · exact absurd (hb'.symm.trans hb) (by simp)
  · exact hpc hb

theorem Progress.busy_of_pc (h : Progress s tr taken sent seen) (hhead : s.core.pc ≠ .head)
    (hdone : ∀ i, s.core.pc ≠ .signalDone i) : s.core.busy = true := by
  by_contra hb
  rw [Bool.not_eq_true] at hb
  obtain hpc | ⟨i, hpc⟩ := h.idle hb
  · exact hhead hpc
  · exact hdone i hpc

theorem Progress.idle_of_pc (h : Progress s tr taken sent seen) {i : ℕ}
    (hpc : s.core.pc = .signalDone i) : s.core.busy = false := by
  obtain ⟨hb, -⟩ | ⟨-, hnot, -⟩ | ⟨-, -, hb⟩ := h.core
  · exact hb
  · exact absurd hpc (hnot i)
  · exact hb i hpc

/-- `barrierCoreN` takes the launch on to `core` and `ports`, and has counted every warp if it is
done there. -/
def GoesOn (s : Top B) (tr : List Event) (taken sent : Fin B.numCus → Bool)
    (seen : Fin B.numCus → ℕ) (core : BarrierCore) (ports : Fin B.numCus → BarrierPort) : Prop :=
  ∃ seen', Progress (s.withBarrier core ports) tr taken sent seen' ∧
    (AllSeen (B.plain s.args) seen → AllSeen (B.plain s.args) seen') ∧
    (s.core.busy = true ∧ core.busy = false ∨ s.core.done = false ∧ core.done = true →
      AllSeen (B.plain s.args) seen')

/-- The arbiter keeps its counters, and stays busy or not. -/
theorem Progress.goesOn (h : Progress s tr taken sent seen) {core : BarrierCore}
    {ports : Fin B.numCus → BarrierPort} (hports : ∀ c, (ports c).events = (s.cus c).port.events)
    (hb : core.busy = s.core.busy) (hd : core.done = s.core.done)
    (htotal : core.counts.totalWarps = s.core.counts.totalWarps)
    (hcount : core.counts.doneCount = s.core.counts.doneCount)
    (hidle : s.core.busy = false → core.pc = .head ∨ ∃ i, core.pc = .signalDone i)
    (hbusy : s.core.busy = true → ∀ i, core.pc ≠ .signalDone i) :
    GoesOn s tr taken sent seen core ports := by
  refine ⟨seen, h.setCore hports ?_, id, ?_⟩
  · obtain ⟨h1, -, h3⟩ | ⟨h1, -, h3, h4, h5⟩ | ⟨h1, -, -⟩ := h.core
    · exact .waiting (hb.trans h1) (hidle h1) h3
    · exact .counting (hb.trans h1) (hbusy h1) h3 (htotal.trans h4) (hcount.trans h5)
    · refine .complete h1 (fun hb' => hidle (hb.symm.trans hb')) fun i hpc => ?_
      rw [hb]
      by_contra hb'
      exact hbusy (by simpa using hb') i hpc
  · rw [hb, hd]
    rintro (⟨h1, h2⟩ | ⟨h1, h2⟩)
    · exact absurd (h1.symm.trans h2) (by simp)
    · exact absurd (h1.symm.trans h2) (by simp)

theorem Progress.goesOn_busy (h : Progress s tr taken sent seen) (hb : s.core.busy = true)
    {pc : BarrierPc} {counts : BarrierState} {ports : Fin B.numCus → BarrierPort}
    (hports : ∀ c, (ports c).events = (s.cus c).port.events)
    (htotal : counts.totalWarps = s.core.counts.totalWarps)
    (hcount : counts.doneCount = s.core.counts.doneCount) (hpc : ∀ i, pc ≠ .signalDone i) :
    GoesOn s tr taken sent seen { s.core with pc := pc, counts := counts } ports :=
  h.goesOn hports rfl rfl htotal hcount (fun hb' => absurd (hb.symm.trans hb') (by simp))
    fun _ => hpc

/-- A launch over capacity changes nothing that the launch at hand depends on. -/
theorem Progress.reject (h : Progress s tr taken sent seen) (hpc : s.core.pc = .head)
    (hb : s.core.busy = false) (counts : BarrierState) (fault : Bool) :
    GoesOn s tr taken sent seen { s.core with counts := counts, fault := fault } s.ports := by
  refine ⟨seen, h.setCore (fun _ => rfl) ?_, id, by simp [hb]⟩
  obtain ⟨-, -, hseen⟩ | ⟨hb', -⟩ | ⟨hall, -⟩ := h.core
  · exact .waiting hb (.inl hpc) hseen
  · exact absurd (hb'.symm.trans hb) (by simp)
  · exact .complete hall (fun _ => .inl hpc) (by simp [hpc])

theorem Progress.accept (h : Progress s tr taken sent seen) (hpc : s.core.pc = .head)
    (hb : s.core.busy = false) (hfits : s.args.totalWarps.toNat ≤ B.capacity) :
    GoesOn s tr taken sent seen
      { s.core with counts := barrierLaunch B.toGpuSize s.args.totalWarps, busy := true }
      s.ports := by
  refine ⟨seen, h.setCore (fun _ => rfl) ?_, id, by simp [hb]⟩
  obtain ⟨-, -, hseen⟩ | ⟨hb', -⟩ | ⟨hall, -⟩ := h.core
  · exact .counting rfl (by simp [hpc]) hfits rfl (by simp [barrierLaunch, hseen])
  · exact absurd (hb'.symm.trans hb) (by simp)
  · exact .complete hall (fun hb' => absurd hb' (by simp)) (by simp [hpc])

/-- The arbiter counts the event of a CU. -/
theorem Progress.count (h : Progress s tr taken sent seen) {c : Fin B.numCus}
    {code : WarpStatusCode} {rest : List WarpStatusCode} (hpc : s.core.pc = .pollCuEvents c)
    (hev : (s.cus c).port.events = code :: rest) :
    GoesOn s tr taken sent seen
      { s.core with counts := barrierOnEvent s.core.counts code, pc := .pollCuEvents (c + 1) }
      (Function.update s.ports c { (s.cus c).port with events := rest }) := by
  have hb := h.busy_of_pc (by simp [hpc]) (by simp [hpc])
  refine ⟨_, h.poll hev ?_, fun hall => ?_, ?_⟩
  · obtain ⟨hb', -⟩ | ⟨-, -, hcap, htotal, hcount⟩ | ⟨hall, -⟩ := h.core
    · exact absurd (hb'.symm.trans hb) (by simp)
    · have hsum : (∑ c' : (B.plain s.args).Cus, Function.update seen c
          (seen c + if code = .complete then 1 else 0) c') =
          (∑ c', seen c') + if code = .complete then 1 else 0 :=
        sum_update_add seen c _
      refine .counting hb (by simp) hcap (by cases code <;> exact htotal) ?_
      rw [hsum]
      cases code with
      | complete =>
        simp only [barrierOnEvent, hcount, if_true]
        exact BitVec.eq_of_toNat_eq (by simp [BitVec.toNat_add])
      | stalledAtBarrier => exact hcount
    · rw [h.seen_stays hev hall]
      exact .complete hall (fun hb' => absurd (hb.symm.trans hb') (by simp)) (by simp)
  · rwa [h.seen_stays hev hall]
  · rintro (⟨-, hb'⟩ | ⟨hd, hd'⟩)
    · exact absurd (hb.symm.trans hb') (by simp)
    · cases code <;> exact absurd (hd.symm.trans hd') (by simp)

/-- The arbiter is done. -/
theorem Progress.complete (h : Progress s tr taken sent seen) (hpc : s.core.pc = .completeCheck)
    (hcomplete : barrierKernelComplete s.core.counts = true) :
    GoesOn s tr taken sent seen { s.core with busy := false, done := true, pc := .signalDone 0 }
      s.ports := by
  have hb := h.busy_of_pc (by simp [hpc]) (by simp [hpc])
  have hall : AllSeen (B.plain s.args) seen := by
    obtain ⟨hb', -⟩ | ⟨-, -, hcap, htotal, hcount⟩ | ⟨hall, -⟩ := h.core
    · exact absurd (hb'.symm.trans hb) (by simp)
    · simp only [barrierKernelComplete, Bool.and_eq_true, decide_eq_true_eq] at hcomplete
      have hle (c : (B.plain s.args).Cus) : seen c ≤ ((B.plain s.args).residents c).card := by
        obtain ⟨job, hjob⟩ := h.cus c
        exact le_trans (Nat.le_add_right _ _) hjob.seen_le
      refine eq_residents_of_sum hcap hle (sum_eq_of_ofNat hcap hle ?_)
      rw [← hcount, hcomplete.2, htotal]
    · exact hall
  exact ⟨seen, h.setCore (fun _ => rfl) (.complete hall (fun _ => .inr ⟨0, rfl⟩) fun _ _ => rfl),
    fun _ => hall, fun _ => hall⟩

/-- `barrierCoreN` takes the launch on, and is done only when every warp has been counted. -/
theorem Progress.barrier (h : Progress s tr taken sent seen) {core : BarrierCore}
    {ports : Fin B.numCus → BarrierPort}
    (hs : Hls.barrierStep B.toGpuSize B.depths.barrierSignal s.args.totalWarps s.start s.core
      s.ports = some (core, ports)) :
    ∃ seen', Progress (s.withBarrier core ports) tr taken sent seen' ∧
      (AllSeen (B.plain s.args) seen → AllSeen (B.plain s.args) seen') ∧
      (s.core.busy = true ∧ core.busy = false ∨ s.core.done = false ∧ core.done = true →
        AllSeen (B.plain s.args) seen') := by
  cases barrierStep_moves hs with
  | poll hpc hb => exact h.goesOn_busy hb (fun _ => rfl) rfl rfl (by simp)
  | idle hpc hb => exact h.goesOn (fun _ => rfl) rfl rfl rfl rfl (fun _ => .inl hpc) (by simp [hpc])
  | reject hpc hb => exact h.reject hpc hb _ _
  | accept hpc hb _ hfits => exact h.accept hpc hb hfits
  | count hpc hev => exact h.count hpc hev
  | complete hpc hcomplete => exact h.complete hpc hcomplete
  | signal hpc =>
    have hb := h.busy_of_pc (by simp [hpc]) (by simp [hpc])
    exact h.goesOn_busy hb (fun c' => update_signals_events _ _ c' _) rfl rfl (by simp)
  | pass hpc | polled hpc | release hpc | hold hpc | signalled hpc | incomplete hpc =>
    have hb := h.busy_of_pc (by simp [hpc]) (by simp [hpc])
    exact h.goesOn_busy hb (fun _ => rfl) rfl rfl (by simp)
  | @finish c hpc =>
    have hb := h.idle_of_pc hpc
    exact h.goesOn (fun c' => update_signals_events _ _ c' _) rfl rfl rfl rfl
      (fun _ => .inr ⟨c + 1, rfl⟩) fun hb' => absurd (hb.symm.trans hb') (by simp)
  | finished hpc =>
    exact h.goesOn (fun _ => rfl) rfl rfl rfl rfl (fun _ => .inl rfl) (by simp)

end Steps

/-! ## The other processes -/

def FlatEvent.warpEvent : FlatEvent → Option Event
  | warp e => some e
  | _ => none

/-- The events of the schedulers and the pipelines. -/
def warpEvents (ev : List FlatEvent) : List Event := ev.filterMap FlatEvent.warpEvent

@[simp] theorem warpEvents_append (ev ev' : List FlatEvent) :
    warpEvents (ev ++ ev') = warpEvents ev ++ warpEvents ev' := List.filterMap_append

@[simp] theorem warpEvents_warp (ev : List Event) : warpEvents (ev.map .warp) = ev := by
  unfold warpEvents
  rw [List.filterMap_map]
  exact List.filterMap_some

@[simp] theorem warpEvents_mem (ev : List MemEvent) : warpEvents (ev.map .mem) = [] := by
  unfold warpEvents
  rw [List.filterMap_map]
  exact List.filterMap_eq_nil_iff.2 fun _ _ => rfl

/-- What the processes of a launch do, apart from `barrierCoreN`. -/
def FlatEvent.isInner : FlatEvent → Bool
  | raised _ => false
  | dropped => false
  | accepted _ => false
  | _ => true

/-- The steps of the loader, the CUs and the memory side. -/
def TopAction.isInner {N : ℕ} : TopAction N → Bool
  | loader => true
  | scheduler _ => true
  | pipeline _ => true
  | arbiter => true
  | memory => true
  | _ => false

theorem ProgramLoader.step_events {B : Build} {a : LaunchArgs} {start : Bool}
    {ld ld' : ProgramLoader}
    {p p' : Ports B.numCus} {ev : List FlatEvent} (hs : ld.step B a start p = some (ld', p', ev)) :
    warpEvents ev = [] ∧ ∀ e ∈ ev, e.isInner = true := by
  cases ProgramLoader.step_turns hs with
  | seed => exact ⟨rfl, by simp [FlatEvent.isInner]⟩
  | token => exact ⟨rfl, by simp [FlatEvent.isInner]⟩
  | enter | reset | store | stored | skip | seeded | rest => exact ⟨rfl, by simp⟩

section Inner

variable {B : Build} {H : HostProtocol} {s s' : Top B} {ev : List FlatEvent}
  {a : TopAction B.numCus}

/-- A step of a CU, the loader or the memory leaves `barrierCoreN`, the host and its wires. -/
structure SameLaunch (s s' : Top B) : Prop where
  core : s'.core = s.core
  host : s'.host = s.host
  args : s'.args = s.args
  start : s'.start = s.start

theorem pipelineEvents_inner (c : Fin B.numCus) :
    warpEvents (s.pipelineEvents c) = [] ∧ ∀ e ∈ s.pipelineEvents c, e.isInner = true := by
  unfold Top.pipelineEvents
  split
  · exact ⟨rfl, by simp [FlatEvent.isInner]⟩
  · refine ⟨warpEvents_mem _, fun e he => ?_⟩
    obtain ⟨e', -, rfl⟩ := List.mem_map.1 he
    rfl

theorem step_inner (ha : a.isInner = true) (hs : s.step H a = some (s', ev)) :
    SameLaunch s s' ∧ ∀ e ∈ ev, e.isInner = true := by
  have hmem (ev : List MemEvent) : ∀ e ∈ ev.map FlatEvent.mem, e.isInner = true := fun e he => by
    obtain ⟨e', -, rfl⟩ := List.mem_map.1 he
    rfl
  have hwarp (ev : List Event) : ∀ e ∈ ev.map FlatEvent.warp, e.isInner = true := fun e he => by
    obtain ⟨e', -, rfl⟩ := List.mem_map.1 he
    rfl
  cases a with
  | raise => exact absurd ha (by simp [TopAction.isInner])
  | drop => exact absurd ha (by simp [TopAction.isInner])
  | sample => exact absurd ha (by simp [TopAction.isInner])
  | barrier => exact absurd ha (by simp [TopAction.isInner])
  | loader =>
    obtain ⟨⟨ld, p, ev'⟩, hstep, heq⟩ := Option.map_eq_some_iff.1 hs
    obtain ⟨rfl, rfl⟩ := Prod.mk.inj heq
    exact ⟨⟨rfl, rfl, rfl, rfl⟩, (ProgramLoader.step_events hstep).2⟩
  | scheduler c =>
    obtain ⟨⟨cu, ev'⟩, hstep, heq⟩ := Option.map_eq_some_iff.1 hs
    obtain ⟨rfl, rfl⟩ := Prod.mk.inj heq
    refine ⟨⟨rfl, rfl, rfl, rfl⟩, fun e he => ?_⟩
    obtain he | he := List.mem_append.1 he
    · split at he
      · obtain rfl := List.mem_singleton.1 he
        rfl
      · exact absurd he (by simp)
    · exact hwarp _ e he
  | pipeline c =>
    have hexec (hs : s.execStep c = some (s', ev)) :
        SameLaunch s s' ∧ ∀ e ∈ ev, e.isInner = true := by
      obtain ⟨⟨cu, ev'⟩, hstep, heq⟩ := Option.map_eq_some_iff.1 hs
      obtain ⟨rfl, rfl⟩ := Prod.mk.inj heq
      refine ⟨⟨rfl, rfl, rfl, rfl⟩, fun e he => ?_⟩
      obtain he | he := List.mem_append.1 he
      · exact (pipelineEvents_inner c).2 e he
      · exact hwarp _ e he
    dsimp only [Top.step, Top.pipelineStep] at hs
    split at hs
    · obtain ⟨rfl, rfl⟩ := Prod.mk.inj (Option.some.inj hs)
      exact ⟨⟨rfl, rfl, rfl, rfl⟩, by simp⟩
    · obtain ⟨rfl, rfl⟩ := Prod.mk.inj (Option.some.inj hs)
      exact ⟨⟨rfl, rfl, rfl, rfl⟩, by simp [FlatEvent.isInner]⟩
    · exact hexec hs
  | arbiter =>
    obtain ⟨⟨arbiter, p, ev'⟩, hstep, heq⟩ := Option.map_eq_some_iff.1 hs
    obtain ⟨rfl, rfl⟩ := Prod.mk.inj heq
    exact ⟨⟨rfl, rfl, rfl, rfl⟩, hmem _⟩
  | memory =>
    obtain ⟨⟨side, ev'⟩, hstep, heq⟩ := Option.map_eq_some_iff.1 hs
    obtain ⟨rfl, rfl⟩ := Prod.mk.inj heq
    exact ⟨⟨rfl, rfl, rfl, rfl⟩, hmem _⟩

theorem Progress.pipelineStep {tr : List Event} {taken sent : Fin B.numCus → Bool}
    {seen : Fin B.numCus → ℕ} {c : Fin B.numCus} (h : Progress s tr taken sent seen)
    (hs : s.pipelineStep c = some (s', ev)) :
    Progress s' (tr ++ warpEvents ev) taken sent seen := by
  have hexec (hs : s.execStep c = some (s', ev)) :
      Progress s' (tr ++ warpEvents ev) taken sent seen := by
    obtain ⟨⟨cu, ev'⟩, hstep, heq⟩ := Option.map_eq_some_iff.1 hs
    obtain ⟨rfl, rfl⟩ := Prod.mk.inj heq
    rw [warpEvents_append, (pipelineEvents_inner c).1, warpEvents_warp, List.nil_append]
    exact (h.pipeline hstep).congr rfl (fun _ => ⟨rfl, rfl, rfl, rfl, rfl, rfl⟩) rfl rfl rfl rfl
  unfold Top.pipelineStep at hs
  split at hs
  · obtain ⟨rfl, rfl⟩ := Prod.mk.inj (Option.some.inj hs)
    rw [show warpEvents [] = [] from rfl, List.append_nil]
    exact h.congr rfl (fun _ => ⟨rfl, rfl, rfl, rfl, rfl, rfl⟩) rfl rfl rfl rfl
  · obtain ⟨rfl, rfl⟩ := Prod.mk.inj (Option.some.inj hs)
    rw [show warpEvents [_] = [] from rfl, List.append_nil]
    refine h.congr rfl (fun c' => ?_) rfl rfl rfl rfl
    by_cases hc : c' = c
    · rw [hc]
      simp [Top.setCu]
    · simp [Top.setCu, hc]
  · exact hexec hs

theorem Progress.inner {tr : List Event} {taken sent : Fin B.numCus → Bool}
    {seen : Fin B.numCus → ℕ}
    (h : Progress s tr taken sent seen) (ha : a.isInner = true)
    (hs : s.step H a = some (s', ev)) :
    ∃ taken' sent', Progress s' (tr ++ warpEvents ev) taken' sent' seen := by
  cases a with
  | raise => exact absurd ha (by simp [TopAction.isInner])
  | drop => exact absurd ha (by simp [TopAction.isInner])
  | sample => exact absurd ha (by simp [TopAction.isInner])
  | barrier => exact absurd ha (by simp [TopAction.isInner])
  | loader =>
    obtain ⟨⟨ld, p, ev'⟩, hstep, heq⟩ := Option.map_eq_some_iff.1 hs
    obtain ⟨rfl, rfl⟩ := Prod.mk.inj heq
    obtain ⟨sent', hp, -⟩ := h.loaderStep hstep
    rw [(ProgramLoader.step_events hstep).1, List.append_nil]
    exact ⟨taken, sent', hp⟩
  | scheduler c =>
    obtain ⟨⟨cu, ev'⟩, hstep, heq⟩ := Option.map_eq_some_iff.1 hs
    obtain ⟨rfl, rfl⟩ := Prod.mk.inj heq
    obtain ⟨hl, hp⟩ | ⟨hl, rfl, hp⟩ := h.scheduler hstep
    · dsimp only
      rw [if_neg (by omega), List.nil_append, warpEvents_warp]
      exact ⟨taken, sent, hp⟩
    · dsimp only
      rw [if_pos (by omega), warpEvents_append, warpEvents_warp,
        show warpEvents [.tokenTaken c] = [] from rfl, List.append_nil, List.append_nil]
      exact ⟨_, sent, hp⟩
  | pipeline c => exact ⟨taken, sent, h.pipelineStep hs⟩
  | arbiter =>
    obtain ⟨⟨arbiter, p, ev'⟩, hstep, heq⟩ := Option.map_eq_some_iff.1 hs
    obtain ⟨rfl, rfl⟩ := Prod.mk.inj heq
    rw [warpEvents_mem, List.append_nil]
    exact ⟨taken, sent, h.congr rfl (fun _ => ⟨rfl, rfl, rfl, rfl, rfl, rfl⟩) rfl rfl rfl rfl⟩
  | memory =>
    obtain ⟨⟨side, ev'⟩, hstep, heq⟩ := Option.map_eq_some_iff.1 hs
    obtain ⟨rfl, rfl⟩ := Prod.mk.inj heq
    rw [warpEvents_mem, List.append_nil]
    exact ⟨taken, sent, h.congr rfl (fun _ => ⟨rfl, rfl, rfl, rfl, rfl, rfl⟩) rfl rfl rfl rfl⟩

end Inner

/-- The host drops `start`. -/
theorem Progress.drop {B : Build} {s : Top B} {tr : List Event} {taken sent : Fin B.numCus → Bool}
    {seen : Fin B.numCus → ℕ} (h : Progress s tr taken sent seen) :
    Progress { s with start := false } tr taken sent seen where
  cus := h.cus
  tokens := h.tokens
  loader := by
    obtain ⟨h1, h2, h3, h4, h5⟩ | ⟨-, hld⟩ | ⟨hfin, hsent⟩ := h.loader
    · exact .pass h1 h2 h3 h4 h5
    · exact .over rfl hld
    · exact .stale hfin hsent
  holds := h.holds
  core := h.core

/-! ## Before the first launch -/

/-- Nothing has happened on a CU; its registers and its memory streams are not looked at. -/
structure CuQuiet (cu : Cu) : Prop where
  scheduler : cu.scheduler = ⟨.head, fun _ => {}, false, false⟩
  pipeline : cu.pipeline = .idle
  dispatch : cu.dispatch = []
  status : cu.status = []
  port : cu.port = ⟨[], []⟩
  loaded : cu.loaded = 0

/-- No launch has been raised yet. -/
structure Quiet {B : Build} (s : Top B) : Prop where
  start : s.start = false
  core : s.core = {}
  loader : s.loader = {}
  seeds : ∀ c, s.seeds c = []
  cus : ∀ c, CuQuiet (s.cus c)

section Quiet

variable {B : Build} {H : HostProtocol} {s s' : Top B} {ev : List FlatEvent}
  {a : TopAction B.numCus}

theorem Quiet.reset (h : s.IsReset) : Quiet s := by
  obtain ⟨hstart, -, hloader, hseeds, -, hcore, hcus, -⟩ := h
  refine ⟨hstart, hcore, hloader, hseeds, fun c => ?_⟩
  obtain ⟨regs, hcu⟩ := hcus c
  rw [hcu]
  exact ⟨rfl, rfl, rfl, rfl, rfl, rfl⟩

theorem CuQuiet.congr {cu cu' : Cu} (h : CuQuiet cu) (h1 : cu'.scheduler = cu.scheduler)
    (h2 : cu'.pipeline = cu.pipeline) (h3 : cu'.dispatch = cu.dispatch)
    (h4 : cu'.status = cu.status) (h5 : cu'.port = cu.port) (h6 : cu'.loaded = cu.loaded) :
    CuQuiet cu' :=
  ⟨h1.trans h.scheduler, h2.trans h.pipeline, h3.trans h.dispatch, h4.trans h.status,
    h5.trans h.port, h6.trans h.loaded⟩

theorem Quiet.setCu (h : Quiet s) {c : Fin B.numCus} {cu : Cu} (hcu : CuQuiet cu) :
    Quiet (s.setCu c cu) where
  start := h.start
  core := h.core
  loader := h.loader
  seeds := h.seeds
  cus c' := by
    by_cases hc : c' = c
    · rw [hc]
      simpa [Top.setCu] using hcu
    · simpa [Top.setCu, hc] using h.cus c'

/-- Nothing happens before the first launch. -/
theorem Quiet.step (h : Quiet s) (ha : ∀ args, a ≠ .raise args)
    (hs : s.step H a = some (s', ev)) : Quiet s' := by
  cases a with
  | raise args => exact absurd rfl (ha args)
  | drop =>
    dsimp only [Top.step, Top.drop] at hs
    rw [if_neg (by simp [h.start])] at hs
    exact absurd hs (by simp)
  | sample =>
    obtain ⟨rfl, -⟩ := Prod.mk.inj (Option.some.inj hs)
    exact ⟨h.start, h.core, h.loader, h.seeds, h.cus⟩
  | loader =>
    obtain ⟨⟨ld, p, ev'⟩, hstep, heq⟩ := Option.map_eq_some_iff.1 hs
    obtain ⟨rfl, rfl⟩ := Prod.mk.inj heq
    rw [h.loader, h.start] at hstep
    obtain ⟨rfl, rfl, -⟩ : _ ∧ _ ∧ _ := by simpa [ProgramLoader.step] using hstep
    exact ⟨h.start, h.core, rfl, h.seeds, fun c => (h.cus c).congr rfl rfl rfl rfl rfl rfl⟩
  | scheduler c =>
    obtain ⟨⟨cu, ev'⟩, hstep, heq⟩ := Option.map_eq_some_iff.1 hs
    obtain ⟨rfl, rfl⟩ := Prod.mk.inj heq
    unfold Cu.schedulerStep at hstep
    rw [(h.cus c).scheduler, h.start] at hstep
    obtain ⟨rfl, -⟩ : _ ∧ _ := by simpa using hstep
    exact h.setCu (h.cus c)
  | pipeline c =>
    dsimp only [Top.step, Top.pipelineStep] at hs
    rw [(h.cus c).pipeline, h.seeds c] at hs
    split at hs
    · obtain ⟨rfl, -⟩ := Prod.mk.inj (Option.some.inj hs)
      exact ⟨h.start, h.core, h.loader, h.seeds, h.cus⟩
    · next hseed => exact absurd hseed (by simp)
    · obtain ⟨⟨cu, ev'⟩, hstep, heq⟩ := Option.map_eq_some_iff.1 hs
      obtain ⟨rfl, -⟩ := Prod.mk.inj heq
      unfold Cu.pipelineStep at hstep
      rw [(h.cus c).pipeline] at hstep
      dsimp only at hstep
      rw [(h.cus c).dispatch] at hstep
      obtain ⟨rfl, -⟩ := Prod.mk.inj (Option.some.inj hstep)
      have := h.setCu (h.cus c) (c := c)
      exact ⟨this.start, this.core, this.loader, this.seeds, this.cus⟩
  | barrier =>
    obtain ⟨⟨core, ports⟩, hstep, heq⟩ := Option.map_eq_some_iff.1 hs
    rw [if_neg (by simp [Top.Accepts, h.start])] at heq
    obtain ⟨rfl, -⟩ := Prod.mk.inj heq
    unfold Hls.barrierStep at hstep
    rw [h.core, h.start] at hstep
    obtain ⟨rfl, rfl⟩ : _ ∧ _ := by simpa using hstep
    exact ⟨h.start, rfl, h.loader, h.seeds, fun c => (h.cus c).congr rfl rfl rfl rfl rfl rfl⟩
  | arbiter =>
    obtain ⟨⟨arbiter, p, ev'⟩, -, heq⟩ := Option.map_eq_some_iff.1 hs
    obtain ⟨rfl, rfl⟩ := Prod.mk.inj heq
    exact ⟨h.start, h.core, h.loader, h.seeds, fun c => (h.cus c).congr rfl rfl rfl rfl rfl rfl⟩
  | memory =>
    obtain ⟨⟨side, ev'⟩, -, heq⟩ := Option.map_eq_some_iff.1 hs
    obtain ⟨rfl, rfl⟩ := Prod.mk.inj heq
    exact ⟨h.start, h.core, h.loader, h.seeds, h.cus⟩

theorem CuQuiet.cuLaunch {cu : Cu} (h : CuQuiet cu) (L : Launch) (c : L.Cus) :
    CuLaunch L c false 0 none [] cu where
  flight := .nothing h.dispatch h.pipeline h.status
  jobReady := by simp
  busyCu := by simp [h.scheduler]
  eventJob := by simp
  residents := by simp
  others := by simp [h.scheduler]
  count := by simp [Cu.eventsInFlight, h.scheduler, h.port]
  doneTr := by simp
  statusTr := by simp [h.status]

/-- The first launch begins. -/
theorem Quiet.raise (h : Quiet s) (hcore : s'.core = s.core) (hloader : s'.loader = s.loader)
    (hcus : s'.cus = s.cus) :
    Progress s' [] (fun _ => false) (fun _ => false) (fun _ => 0) where
  cus c := ⟨none, by
    rw [hcus]
    exact (h.cus c).cuLaunch _ c⟩
  tokens c := by
    rw [hcus, (h.cus c).loaded]
    rfl
  loader := by
    rw [hloader, h.loader]
    exact .pass (fun c => by simp) (fun _ => ⟨rfl, rfl, rfl, rfl⟩) (by simp)
      (fun c i _ hi => absurd hi (by simp)) (by simp)
  holds := by simp
  core := by
    rw [hcore, h.core]
    exact .waiting rfl (.inl rfl) fun _ => rfl

end Quiet

end RiscvGpgpu.Hls
