import RiscvGpgpu.Hls.LaunchState

/-!
# The steps of one CU

Every step of `schedulerCore` and of the compute pipeline keeps `CuInv`, moves at most one warp to
its next situation, and counts nothing at the arbiter.
-/

namespace RiscvGpgpu.Hls

open Launch

/-- What a step of CU `c` is allowed to do. -/
def CuStep (L : Launch) (c : L.Cus) (done : Bool) (owed : ℕ) (tr : List Event) (v : CuView)
    (cu cu' : Cu) (ev : List Event) : Prop :=
  ∃ v', CuInv L c done owed (tr ++ ev) v' cu' ∧ v'.stalledSeen = v.stalledSeen ∧
    v'.doneSeen = v.doneSeen ∧ v'.wave + cu'.releases = v.wave + cu.releases ∧
    ∀ e ∈ ev, ∃ slot, L.Resident c slot ∧ e.warpId = L.warpIdOf c slot

section Steps

variable {L : Launch} {c : L.Cus} {done : Bool} {owed : ℕ} {tr : List Event} {v : CuView}
  {cu cu' : Cu}

theorem Launch.InFlight.congr {g : ℕ} {job : Option (SlotId × Bool)} (h : L.InFlight c g cu job)
    (hp : cu'.pipeline = cu.pipeline) (hd : cu'.dispatch = cu.dispatch)
    (hs : cu'.status = cu.status) : L.InFlight c g cu' job := by
  cases h with
  | nothing h1 h2 h3 => exact .nothing (hd.trans h1) (hp.trans h2) (hs.trans h3)
  | queued hjob h1 h2 h3 => exact .queued hjob (hd.trans h1) (hp.trans h2) (hs.trans h3)
  | running hjob h1 h2 hst h3 => exact .running hjob (hd.trans h1) (hp.trans h2) hst (hs.trans h3)
  | waiting hjob h1 h2 hst h3 => exact .waiting hjob (hd.trans h1) (hp.trans h2) hst (hs.trans h3)
  | reported h1 h2 h3 => exact .reported (hd.trans h1) (hp.trans h2) (hs.trans h3)

/-- The warp in flight moves from one process to the next. -/
theorem CuInv.setFlight (h : CuInv L c done owed tr v cu) (hsch : cu'.scheduler = cu.scheduler)
    (hport : cu'.port = cu.port) (hflight : L.InFlight c v.wave cu' v.job) :
    CuInv L c done owed tr v cu' where
  slots := by rw [hsch]; exact h.slots
  phase := by rw [hsch]; exact h.phase
  flight := hflight
  job := h.job
  busyCu := by rw [hsch]; exact h.busyCu
  eventJob := by rw [hsch]; exact h.eventJob
  stalledCode := h.stalledCode
  doneCode := h.doneCode
  warps := h.warps
  stalledCount := by
    unfold Cu.eventsInFlight Cu.releases
    rw [hsch, hport]
    exact h.stalledCount
  doneCount := by
    unfold Cu.eventsInFlight
    rw [hsch, hport]
    exact h.doneCount
  oneRelease := by unfold Cu.releases; rw [hport]; exact h.oneRelease
  releaseStalled := by unfold Cu.releases; rw [hport]; exact h.releaseStalled
  signals := by rw [hport]; exact h.signals

/-- `CuInv` does not depend on the registers, the loader's tokens and the memory streams. -/
theorem CuInv.congr (h : CuInv L c done owed tr v cu) (hsch : cu'.scheduler = cu.scheduler)
    (hp : cu'.pipeline = cu.pipeline) (hd : cu'.dispatch = cu.dispatch)
    (hs : cu'.status = cu.status) (hport : cu'.port = cu.port) : CuInv L c done owed tr v cu' :=
  h.setFlight hsch hport (h.flight.congr hp hd hs)

/-- A step that leaves the view alone. -/
theorem CuInv.cuStep (h : CuInv L c done owed tr v cu') (hrel : cu'.releases = cu.releases) :
    CuStep L c done owed tr v cu cu' [] :=
  ⟨v, by rwa [List.append_nil], rfl, rfl, by rw [hrel], by simp⟩

/-- The scheduler moves on without an event in hand before or after. -/
theorem CuInv.movePc (h : CuInv L c done owed tr v cu) {pc : SchedulerPc}
    (hold : ∀ code, cu.scheduler.pc ≠ .event code) (hnew : ∀ code, pc ≠ .event code)
    (hphase : Phase L c done { cu.scheduler with pc := pc } v) :
    CuInv L c done owed tr v (cu.setScheduler { cu.scheduler with pc := pc }) where
  slots := h.slots
  phase := hphase
  flight := h.flight.congr rfl rfl rfl
  job := h.job
  busyCu := by
    have := h.busyCu
    simp only [hold, exists_false, or_false] at this
    simpa [Cu.setScheduler, hnew] using this
  eventJob := fun code hpc => absurd hpc (hnew code)
  stalledCode := h.stalledCode
  doneCode := h.doneCode
  warps := h.warps
  stalledCount := by
    have := h.stalledCount
    simpa [Cu.eventsInFlight, Cu.releases, Cu.setScheduler, hold, hnew] using this
  doneCount := by
    have := h.doneCount
    simpa [Cu.eventsInFlight, Cu.setScheduler, hold, hnew] using this
  oneRelease := h.oneRelease
  releaseStalled := h.releaseStalled
  signals := h.signals

/-! ## The slots of a view -/

theorem CuInv.notInFlight (h : CuInv L c done owed tr v cu) (hjob : v.job = none) {slot : SlotId}
    (hres : L.Resident c slot) (r : Bool) : v.situation slot ≠ .inFlight r := by
  intro hsit
  have := (h.job slot r).2 ⟨hres, hsit⟩
  rw [hjob] at this
  exact absurd this (by simp)

/-- A ready slot holds a resident that is waiting or in flight. -/
theorem slotsOf_ready {slot : SlotId} (h : (L.slotsOf c v slot).state = .ready) :
    v.launched = true ∧ L.Resident c slot ∧
      (v.situation slot = .waiting ∨ ∃ r, v.situation slot = .inFlight r) := by
  unfold slotsOf at h
  split at h
  · next hl =>
    refine ⟨hl.1, hl.2, ?_⟩
    cases hsit : v.situation slot with
    | waiting => exact .inl rfl
    | inFlight r => exact .inr ⟨r, rfl⟩
    | stalled => rw [hsit] at h; exact absurd h (by simp [slotOf])
    | done => rw [hsit] at h; exact absurd h (by simp [slotOf])
  · exact absurd h (by simp)

/-- The view with the situation of one warp replaced. -/
def CuView.setSituation (v : CuView) (slot : SlotId) (sit : Situation) : CuView :=
  { v with situation := Function.update v.situation slot sit }

theorem slotsOf_setSituation (hl : v.launched = true) {slot : SlotId} (hres : L.Resident c slot)
    (sit : Situation) (job : Option (SlotId × Bool)) :
    L.slotsOf c { v.setSituation slot sit with job := job } =
      Function.update (L.slotsOf c v) slot (L.slotOf c slot v.wave sit) := by
  funext s
  unfold slotsOf CuView.setSituation
  by_cases hs : s = slot
  · subst hs
    simp [hl, hres]
  · rw [Function.update_of_ne hs]
    simp [hs]

theorem countIn_setSituation {slot : SlotId} (hres : L.Resident c slot) {sit : Situation}
    (sit' : Situation) (job : Option (SlotId × Bool)) (hold : v.situation slot ≠ sit') :
    L.countIn c { v.setSituation slot sit with job := job } sit' =
      L.countIn c v sit' + if sit = sit' then 1 else 0 := by
  unfold countIn CuView.setSituation
  dsimp only
  by_cases heq : sit = sit'
  · subst heq
    rw [if_pos rfl]
    have hins : (L.residents c).filter (fun s => Function.update v.situation slot sit s = sit) =
        insert slot ((L.residents c).filter fun s => v.situation s = sit) := by
      ext s
      by_cases hs : s = slot
      · subst hs
        simp [hres]
      · simp [hs]
    rw [hins, Finset.card_insert_of_notMem]
    simp [hold]
  · rw [if_neg heq, Nat.add_zero]
    congr 1
    refine Finset.filter_congr fun s _ => ?_
    by_cases hs : s = slot
    · subst hs
      simp [heq, hold]
    · simp [hs]

/-! ## Dispatch -/

theorem nextReadySlot_waiting (h : CuInv L c done owed tr v cu)
    (hbusy : cu.scheduler.busyCu = false)
    (hslot : nextReadySlot L.toGpuSize cu.scheduler.slots ≠ L.invalidSlot) :
    v.launched = true ∧ L.Resident c (nextReadySlot L.toGpuSize cu.scheduler.slots) ∧
      v.situation (nextReadySlot L.toGpuSize cu.scheduler.slots) = .waiting := by
  obtain ⟨-, hready⟩ := nextReadySlot_ready hslot
  rw [h.slots] at hready
  obtain ⟨hl, hres, hsit⟩ := slotsOf_ready hready
  rw [← h.slots] at hres hsit
  have hjob : v.job = none := by
    have hnot := mt h.busyCu.2 (by rw [hbusy]; exact Bool.false_ne_true)
    exact Option.not_isSome_iff_eq_none.1 fun hs => hnot (.inl hs)
  obtain hsit | ⟨r, hsit⟩ := hsit
  · exact ⟨hl, hres, hsit⟩
  · exact absurd hsit (h.notInFlight hjob hres r)

/-! ## One warp moves on -/

/-- Events of other warps do not matter to a warp. -/
theorem Launch.WarpEvents.frame {slot : SlotId} {g : ℕ} {sit : Situation} {ev : List Event}
    (h : L.WarpEvents c slot g sit tr) (hev : ∀ e ∈ ev, e.warpId ≠ L.warpIdOf c slot) :
    L.WarpEvents c slot g sit (tr ++ ev) := by
  obtain ⟨hf, hb, hl⟩ := events_frame tr hev
  exact ⟨hf.trans h.fresh, hb.trans h.barriers, by rw [hl, hb]; exact h.resumePc⟩

section WarpEvents

variable {slot : SlotId} {g : ℕ} {d : WarpDispatch} {status : WarpStatus}

theorem Launch.WarpEvents.dispatched (h : L.WarpEvents c slot g .waiting tr)
    (hid : d.warpId = L.warpIdOf c slot) (hfresh : d.freshLaunch = decide (g = 0)) :
    L.WarpEvents c slot g (.inFlight false) (tr ++ [.dispatched d]) := by
  obtain ⟨hf, hb, hl⟩ := events_dispatched tr d
  rw [hid] at hf hb hl
  refine ⟨?_, hb.trans h.barriers, by rw [hl, hb]; exact h.resumePc⟩
  rw [hf, h.fresh, hfresh]
  by_cases hg : g = 0 <;> simp [slotOf, hg]

theorem Launch.WarpEvents.finished (h : L.WarpEvents c slot g (.inFlight false) tr)
    (hid : d.warpId = L.warpIdOf c slot) (hcode : status.code = (L.waveStatus g).code)
    (hpc : status.resumePc = L.wavePc (g + 1)) :
    L.WarpEvents c slot g (.inFlight true) (tr ++ [.finished d status]) := by
  obtain ⟨hf, hb, hl⟩ := events_finished tr d status
  have hbarriers := h.barriers
  have hresume := h.resumePc
  rw [barriersOf_inFlight_false] at hbarriers
  rw [hid] at hf hb hl
  rw [hbarriers] at hb hresume
  refine ⟨hf.trans h.fresh, ?_, ?_⟩
  · rw [hb, hcode, barriersOf_inFlight_true]
    split <;> rfl
  · rw [hl, hb, hcode]
    split
    · simp [hpc]
    · exact hresume

theorem Launch.WarpEvents.recorded (h : L.WarpEvents c slot g (.inFlight true) tr) :
    L.WarpEvents c slot g (L.outcome g) tr := by
  obtain ⟨hfresh, hbarriers, hpc⟩ := h
  rw [barriersOf_inFlight_true] at hbarriers
  obtain ⟨ho, hcode⟩ | ⟨ho, hcode⟩ := L.outcome_cases g <;> rw [ho]
  · exact ⟨hfresh, by simpa [hcode] using hbarriers, hpc⟩
  · exact ⟨hfresh, by simpa [hcode] using hbarriers, hpc⟩

theorem Launch.WarpEvents.released (h : L.WarpEvents c slot g .stalled tr) :
    L.WarpEvents c slot (g + 1) .waiting tr :=
  ⟨h.fresh, h.barriers, h.resumePc⟩

end WarpEvents

/-- A warp without a stall or a result yet takes a new situation, and the step touches nothing
else. -/
theorem CuInv.setWarp {ev : List Event} {slot : SlotId} {sit : Situation}
    {job : Option (SlotId × Bool)} (h : CuInv L c done owed tr v cu) (hl : v.launched = true)
    (hres : L.Resident c slot) (hstalled : v.situation slot ≠ .stalled)
    (hdone : v.situation slot ≠ .done)
    (hslots : cu'.scheduler.slots =
      Function.update cu.scheduler.slots slot (L.slotOf c slot v.wave sit))
    (hphase : Phase L c done cu'.scheduler { v.setSituation slot sit with job := job })
    (hflight : L.InFlight c v.wave cu' job)
    (hold : v.job = none ∨ ∃ r, v.job = some (slot, r))
    (hjob : (job = none ∧ ∀ r, sit ≠ .inFlight r) ∨ ∃ r, job = some (slot, r) ∧ sit = .inFlight r)
    (hbusy : cu'.scheduler.busyCu = true ↔
      job.isSome = true ∨ ∃ code, cu'.scheduler.pc = .event code)
    (heventJob : ∀ code, cu'.scheduler.pc = .event code → job = none)
    (hcode : (sit = .stalled → (L.waveStatus v.wave).code = .stalledAtBarrier) ∧
      (sit = .done → (L.waveStatus v.wave).code = .complete))
    (hwarp : L.WarpEvents c slot v.wave sit (tr ++ ev))
    (hev : ∀ e ∈ ev, e.warpId = L.warpIdOf c slot)
    (hevS : cu'.eventsInFlight .stalledAtBarrier =
      cu.eventsInFlight .stalledAtBarrier + if sit = .stalled then 1 else 0)
    (hevD : cu'.eventsInFlight .complete =
      cu.eventsInFlight .complete + if sit = .done then 1 else 0)
    (hsig : cu'.port.signals = cu.port.signals) :
    CuInv L c done owed (tr ++ ev) { v.setSituation slot sit with job := job } cu' := by
  have hrel : cu'.releases = cu.releases := by unfold Cu.releases; rw [hsig]
  have hnone : cu.releases + owed = 0 :=
    not_not.1 fun hne => hstalled (h.releaseStalled hne slot hres)
  have hother (s : SlotId) (hs : s ≠ slot) :
      ({ v.setSituation slot sit with job := job } : CuView).situation s = v.situation s :=
    Function.update_of_ne hs _ _
  have hself : ({ v.setSituation slot sit with job := job } : CuView).situation slot = sit :=
    Function.update_self _ _ _
  refine ⟨?_, hphase, hflight, fun s r => ?_, hbusy, heventJob, fun s hs hsit => ?_,
    fun s hs hsit => ?_, fun s hs => ?_, ?_, ?_, ?_, ?_, ?_⟩
  · rw [hslots, h.slots, slotsOf_setSituation hl hres]
  · by_cases hs : s = slot
    · subst hs
      rw [hself]
      obtain ⟨rfl, hne⟩ | ⟨r', rfl, rfl⟩ := hjob
      · simp [hne r]
      · simp [hres]
    · rw [hother s hs, ← h.job s r]
      obtain ⟨rfl, -⟩ | ⟨r', rfl, -⟩ := hjob <;> obtain hv | ⟨r'', hv⟩ := hold <;>
        simp [hv, Ne.symm hs]
  · by_cases heq : s = slot
    · subst heq
      exact hcode.1 (hself.symm.trans hsit)
    · exact h.stalledCode s hs ((hother s heq).symm.trans hsit)
  · by_cases heq : s = slot
    · subst heq
      exact hcode.2 (hself.symm.trans hsit)
    · exact h.doneCode s hs ((hother s heq).symm.trans hsit)
  · by_cases heq : s = slot
    · subst heq
      rw [hself]
      exact hwarp
    · rw [hother s heq]
      refine (h.warps s hs).frame fun e he hid => heq ?_
      exact (warpIdOf_inj ((hev e he).symm.trans hid)).2.symm
  · have hcount := h.stalledCount
    rw [if_pos hnone] at hcount
    rw [hrel, if_pos hnone, hevS, countIn_setSituation hres _ _ hstalled, ← hcount]
    exact (Nat.add_assoc _ _ _).symm
  · rw [hevD, countIn_setSituation hres _ _ hdone, ← h.doneCount]
    exact (Nat.add_assoc _ _ _).symm
  · rw [hrel]
    exact h.oneRelease
  · rw [hrel]
    exact fun hne => absurd hnone hne
  · rw [hsig]
    exact h.signals

/-! ## The scheduler's steps -/

theorem CuInv.dispatchRound {ev : List Event} (h : CuInv L c done owed tr v cu)
    (hpc : cu.scheduler.pc = .head) (hrun : cu.scheduler.busyCuScheduler = true)
    (hs : cu.dispatchRound L = some (cu', ev)) : CuStep L c done owed tr v cu cu' ev := by
  have hlaunched : v.launched = true := by
    obtain ⟨-, hb, -⟩ | ⟨hl, -⟩ | ⟨hl, -⟩ := h.phase
    · exact absurd (hrun.symm.trans hb) (by simp)
    · exact hl
    · exact hl
  unfold Cu.dispatchRound at hs
  dsimp only at hs
  split at hs
  · next hgo =>
    simp only [Bool.and_eq_true, Bool.not_eq_true', bne_iff_ne] at hgo
    obtain ⟨queue, hq, heq⟩ := Option.map_eq_some_iff.1 hs
    obtain ⟨rfl, rfl⟩ := Prod.mk.inj heq
    obtain rfl := push_eq_some hq
    set slot := nextReadySlot L.toGpuSize cu.scheduler.slots with hslot
    obtain ⟨-, hres, hsit⟩ := nextReadySlot_waiting h hgo.1 hgo.2
    have hval : cu.scheduler.slots slot = L.slotOf c slot v.wave .waiting := by
      rw [h.slots, slotsOf, if_pos ⟨hlaunched, hres⟩, hsit]
    have hnone : v.job = none := by
      have hnot := mt h.busyCu.2 (by rw [hgo.1]; exact Bool.false_ne_true)
      exact Option.not_isSome_iff_eq_none.1 fun hs => hnot (.inl hs)
    obtain ⟨hd, hp, hst⟩ : cu.dispatch = [] ∧ cu.pipeline = .idle ∧ cu.status = [] := by
      have hflight := h.flight
      rw [hnone] at hflight
      cases hflight with
      | nothing hd hp hs => exact ⟨hd, hp, hs⟩
    have hw := h.warps slot hres
    rw [hsit] at hw
    have hjob : L.IsJob c v.wave (buildDispatch cu.scheduler.slots slot).1 slot := by
      refine ⟨rfl, ?_, ?_⟩ <;> simp [buildDispatch, hval, slotOf]
    have hfresh : (buildDispatch cu.scheduler.slots slot).1.freshLaunch = decide (v.wave = 0) := by
      simp [buildDispatch, hval, slotOf]
    refine ⟨{ v.setSituation slot (.inFlight false) with job := some (slot, false) },
      h.setWarp hlaunched hres (by rw [hsit]; decide) (by rw [hsit]; decide) ?_
        (.running hlaunched hrun (by simp)) (.queued hjob ?_ hp hst) (.inl hnone)
        (.inr ⟨false, rfl, rfl⟩) (by simp) (by simp) ⟨by simp, by simp⟩
        (hw.dispatched hjob.warpId hfresh) ?_ ?_ ?_ rfl, rfl, rfl, rfl, ?_⟩
    · simp [buildDispatch, hval, slotOf]
    · simp [hd]
    · simpa [Event.warpId] using hjob.warpId
    · simp [Cu.eventsInFlight, hpc]
    · simp [Cu.eventsInFlight, hpc]
    · simpa [Event.warpId] using ⟨slot, hres, hjob.warpId⟩
  · obtain ⟨rfl, rfl⟩ := Prod.mk.inj (Option.some.inj hs)
    refine CuInv.cuStep (h.movePc (by simp [hpc]) (by simp) ?_) rfl
    exact .running hlaunched hrun (by simp)

theorem CuInv.launched (h : CuInv L c done owed tr v cu)
    (hrun : cu.scheduler.busyCuScheduler = true) : v.launched = true := by
  obtain ⟨-, hb, -⟩ | ⟨hl, -⟩ | ⟨hl, -⟩ := h.phase
  · exact absurd (hrun.symm.trans hb) (by simp)
  · exact hl
  · exact hl

/-- Behind the head of its loop the scheduler is running. -/
theorem CuInv.running (h : CuInv L c done owed tr v cu) (hhead : cu.scheduler.pc ≠ .head)
    (harmed : cu.scheduler.pc ≠ .armed) :
    v.launched = true ∧ cu.scheduler.busyCuScheduler = true := by
  obtain ⟨-, -, hpc, -⟩ | ⟨hl, hb, -⟩ | ⟨-, -, hpc, -⟩ := h.phase
  · exact absurd hpc (by simp [hhead, harmed])
  · exact ⟨hl, hb⟩
  · exact absurd hpc hhead

theorem CuInv.readStatus (h : CuInv L c done owed tr v cu) (hpc : cu.scheduler.pc = .status) :
    CuStep L c done owed tr v cu cu.readStatus [] := by
  obtain ⟨hl, hrun⟩ := h.running (by simp [hpc]) (by simp [hpc])
  unfold Cu.readStatus
  split
  · exact CuInv.cuStep (h.movePc (by simp [hpc]) (by simp) (.running hl hrun (by simp))) rfl
  · next status rest hst =>
    obtain ⟨slot, hjob, hdispatch, hpipe, rfl, rfl⟩ : ∃ slot, v.job = some (slot, true) ∧
        cu.dispatch = [] ∧ cu.pipeline = .idle ∧ rest = [] ∧
        status = { L.waveStatus v.wave with slotId := slot } := by
      have hflight := h.flight
      generalize hj : v.job = job at hflight
      cases hflight with
      | nothing _ _ hs => exact absurd (hst.symm.trans hs) (by simp)
      | queued _ _ _ hs => exact absurd (hst.symm.trans hs) (by simp)
      | running _ _ _ _ hs => exact absurd (hst.symm.trans hs) (by simp)
      | waiting _ _ _ _ hs => exact absurd (hst.symm.trans hs) (by simp)
      | @reported slot hd hp hs =>
        obtain ⟨hstatus, hrest⟩ := List.cons.inj (hst.symm.trans hs)
        exact ⟨slot, rfl, hd, hp, hrest, hstatus⟩
    obtain ⟨hres, hsit⟩ := (h.job slot true).1 hjob
    have hw := h.warps slot hres
    rw [hsit] at hw
    have hval : cu.scheduler.slots slot = L.slotOf c slot v.wave (.inFlight true) := by
      rw [h.slots, slotsOf, if_pos ⟨hl, hres⟩, hsit]
    have hbusy : cu.scheduler.busyCu = true := h.busyCu.2 (.inl (by rw [hjob]; rfl))
    have hslots : recordResult cu.scheduler.slots slot { L.waveStatus v.wave with slotId := slot } =
        Function.update cu.scheduler.slots slot (L.slotOf c slot v.wave (L.outcome v.wave)) := by
      rw [recordResult, hval, slotWithResult_waveStatus]
    refine ⟨{ v.setSituation slot (L.outcome v.wave) with job := none },
      h.setWarp hl hres (by rw [hsit]; decide) (by rw [hsit]; decide) hslots
        (.running hl hrun (by simp)) (.nothing hdispatch hpipe rfl) (.inr ⟨true, hjob⟩)
        (.inl ⟨rfl, ?_⟩) (by simp [hbusy]) (by simp) ?_ (by rw [List.append_nil]; exact hw.recorded)
        (by simp) ?_ ?_ rfl, rfl, rfl, rfl, by simp⟩
    all_goals
      obtain ⟨ho, hcode⟩ | ⟨ho, hcode⟩ := L.outcome_cases v.wave <;> rw [ho]
    all_goals simp [hcode, Cu.eventsInFlight, hpc]

theorem CuInv.sendEvent {code : WarpStatusCode} {queue : List WarpStatusCode}
    (h : CuInv L c done owed tr v cu) (hpc : cu.scheduler.pc = .event code)
    (hq : queue = cu.port.events ++ [code]) :
    CuStep L c done owed tr v cu ((cu.setEvents queue).setScheduler
      { cu.scheduler with busyCu := false, pc := .signal }) [] := by
  obtain ⟨hl, hrun⟩ := h.running (by simp [hpc]) (by simp [hpc])
  have hjob := h.eventJob code hpc
  have hev (code' : WarpStatusCode) : ((cu.setEvents queue).setScheduler
      { cu.scheduler with busyCu := false, pc := .signal }).eventsInFlight code' =
        cu.eventsInFlight code' := by
    subst hq
    by_cases hc : code = code' <;>
      simp [Cu.eventsInFlight, Cu.setEvents, Cu.setScheduler, hpc, hc]
  refine CuInv.cuStep ⟨h.slots, .running hl hrun (by simp [Cu.setScheduler]),
    h.flight.congr rfl rfl rfl,
    h.job, ?_, by simp [Cu.setScheduler], h.stalledCode, h.doneCode, h.warps, ?_, ?_, h.oneRelease,
    h.releaseStalled, h.signals⟩ rfl
  · simp [Cu.setScheduler, hjob]
  · rw [hev]
    exact h.stalledCount
  · rw [hev]
    exact h.doneCount

/-- A release takes the stalled slots of a wave to the next. -/
theorem releaseBarrierSlots_slotsOf
    (hall : ∀ slot, L.Resident c slot → v.situation slot = .stalled) :
    releaseBarrierSlots L.toGpuSize (L.slotsOf c v) =
      L.slotsOf c { v with wave := v.wave + 1, situation := fun _ => .waiting } := by
  funext slot
  unfold releaseBarrierSlots slotsOf
  by_cases hres : v.launched ∧ L.Resident c slot
  · rw [if_pos hres, if_pos hres.2.1, if_pos hres, hall slot hres.2]
    rfl
  · rw [if_neg hres, if_neg hres]
    split <;> rfl

theorem CuInv.readRelease {rest : List BarrierSignal} (h : CuInv L c done owed tr v cu)
    (hpc : cu.scheduler.pc = .signal) (hsig : cu.port.signals = releaseSignal :: rest) :
    CuStep L c done owed tr v cu (cu.readSignal L) [] := by
  obtain ⟨hl, hrun⟩ := h.running (by simp [hpc]) (by simp [hpc])
  have hcu : cu.readSignal L = { cu with
      port := { cu.port with signals := rest }
      scheduler := ⟨.head, releaseBarrierSlots L.toGpuSize cu.scheduler.slots, true,
        cu.scheduler.busyCu⟩ } := by
    unfold Cu.readSignal
    rw [hsig]
    simp [releaseSignal, hrun]
  have hrel : cu.releases = rest.count releaseSignal + 1 := by
    rw [Cu.releases, hsig, List.count_cons_self]
  have hne : cu.releases + owed ≠ 0 := by omega
  have hall := h.releaseStalled hne
  have hjob : v.job = none := by
    cases hj : v.job with
    | none => rfl
    | some p =>
      obtain ⟨hres, hsit⟩ := (h.job p.1 p.2).1 hj
      exact absurd (hsit.symm.trans (hall _ hres)) (by simp)
  have hS := h.stalledCount
  rw [if_neg hne] at hS
  have hD := h.doneCount
  have hDzero : L.countIn c v .done = 0 := by
    unfold countIn
    rw [Finset.card_eq_zero, Finset.filter_eq_empty_iff]
    intro slot hslot hsit
    exact absurd (hsit.symm.trans (hall slot (mem_residents.1 hslot))) (by simp)
  have hzero (sit : Situation) (hsit : sit ≠ .waiting) :
      L.countIn c { v with wave := v.wave + 1, situation := fun _ => .waiting } sit = 0 := by
    unfold countIn
    rw [Finset.card_eq_zero, Finset.filter_eq_empty_iff]
    exact fun _ _ heq => hsit heq.symm
  have hbusy := h.busyCu
  rw [hjob, hpc] at hbusy
  have hflight := h.flight
  rw [hjob] at hflight
  rw [hcu]
  refine ⟨{ v with wave := v.wave + 1, situation := fun _ => .waiting }, ?_, rfl, rfl, ?_, by simp⟩
  · rw [List.append_nil]
    refine ⟨?_, .running hl rfl (by simp), ?_, fun slot r => ?_, ?_, by simp, fun slot _ hsit => ?_,
      fun slot _ hsit => ?_, fun slot hres => ?_, ?_, ?_, fun slot hres => ?_,
      fun hne' slot hres => ?_,
      fun sig hmem => ?_⟩
    · simp only [h.slots]
      exact releaseBarrierSlots_slotsOf hall
    · rw [hjob]
      cases hflight with
      | nothing hd hp hs => exact .nothing hd hp hs
    · simp [hjob]
    · simpa [hjob] using hbusy
    · exact absurd hsit (by simp)
    · exact absurd hsit (by simp)
    · have hw := h.warps slot hres
      rw [hall slot hres] at hw
      exact hw.released
    · have hev : cu.eventsInFlight .stalledAtBarrier = 0 := by omega
      rw [hzero .stalled (by simp), ite_self]
      simp only [Cu.eventsInFlight, hpc] at hev ⊢
      simp at hev ⊢
      omega
    · rw [hzero .done (by simp)]
      simp only [Cu.eventsInFlight, hpc] at hD ⊢
      simp at hD ⊢
      omega
    · have := h.oneRelease slot hres
      simp only [Cu.releases] at this ⊢
      rw [hsig, List.count_cons_self] at this
      omega
    · have := h.oneRelease slot hres
      rw [hrel] at this
      exact absurd (by simp only [Cu.releases]; omega) hne'
    · exact h.signals sig (by rw [hsig]; exact List.mem_cons_of_mem _ hmem)
  · simp only [Cu.releases] at hrel ⊢
    rw [hrel]
    omega

theorem CuInv.readDone {rest : List BarrierSignal} (h : CuInv L c done owed tr v cu)
    (hpc : cu.scheduler.pc = .signal) (hsig : cu.port.signals = doneSignal :: rest) :
    CuStep L c done owed tr v cu (cu.readSignal L) [] := by
  obtain ⟨hl, hrun⟩ := h.running (by simp [hpc]) (by simp [hpc])
  have hdone : done = true := by
    obtain hs | hs := h.signals doneSignal (by rw [hsig]; exact List.mem_cons_self)
    · exact absurd hs (by decide)
    · exact hs.2
  have hcu : cu.readSignal L = { cu with
      port := { cu.port with signals := rest }
      scheduler := { cu.scheduler with busyCuScheduler := false, pc := .head } } := by
    unfold Cu.readSignal
    rw [hsig]
    simp [doneSignal]
  have hrel : ∀ cu' : Cu, cu'.port.signals = rest → cu'.releases = cu.releases := by
    intro cu' hcu'
    rw [Cu.releases, Cu.releases, hcu', hsig, List.count_cons_of_ne (by decide)]
  have hev (code : WarpStatusCode) : (cu.readSignal L).eventsInFlight code =
      cu.eventsInFlight code := by
    rw [hcu]
    simp [Cu.eventsInFlight, hpc]
  have hbusy := h.busyCu
  rw [hcu] at hev ⊢
  refine CuInv.cuStep ⟨h.slots, .finished hl rfl rfl hdone, h.flight.congr rfl rfl rfl, h.job, ?_,
    by simp, h.stalledCode, h.doneCode, h.warps, ?_, ?_, ?_, ?_, fun sig hmem => ?_⟩ (hrel _ rfl)
  · simpa [hpc] using hbusy
  · rw [hev, hrel _ rfl]
    exact h.stalledCount
  · rw [hev]
    exact h.doneCount
  · rw [hrel _ rfl]
    exact h.oneRelease
  · rw [hrel _ rfl]
    exact h.releaseStalled
  · exact h.signals sig (by rw [hsig]; exact List.mem_cons_of_mem _ hmem)

theorem CuInv.readSignal (h : CuInv L c done owed tr v cu) (hpc : cu.scheduler.pc = .signal) :
    CuStep L c done owed tr v cu (cu.readSignal L) [] := by
  obtain ⟨hl, hrun⟩ := h.running (by simp [hpc]) (by simp [hpc])
  cases hsig : cu.port.signals with
  | nil =>
    unfold Cu.readSignal
    rw [hsig]
    exact CuInv.cuStep (h.movePc (by simp [hpc]) (by simp) (.running hl hrun (by simp))) rfl
  | cons sig rest =>
    obtain rfl | ⟨rfl, -⟩ := h.signals sig (by rw [hsig]; exact List.mem_cons_self)
    · exact h.readRelease hpc hsig
    · exact h.readDone hpc hsig

/-- Before its launch a CU has nothing in its slots, and its warps wait for wave 0. -/
theorem CuInv.idle (h : CuInv L c done owed tr v cu)
    (hpc : cu.scheduler.pc = .armed ∨
      (cu.scheduler.busyCuScheduler = false ∧ done = false)) :
    v.launched = false ∧ cu.scheduler.busyCuScheduler = false ∧
      ∀ slot, L.Resident c slot → v.wave = 0 ∧ v.situation slot = .waiting := by
  obtain ⟨hl, hb, -, -, hwait⟩ | ⟨-, hb, hne⟩ | ⟨-, hb, hhead, hd⟩ := h.phase
  · exact ⟨hl, hb, hwait⟩
  · obtain harmed | ⟨hnb, -⟩ := hpc
    · exact absurd harmed hne
    · exact absurd (hb.symm.trans hnb) (by simp)
  · obtain harmed | ⟨-, hnd⟩ := hpc
    · exact absurd (hhead.symm.trans harmed) (by simp)
    · exact absurd (hd.symm.trans hnd) (by simp)

theorem launchSlots_slotsOf (hl : v.launched = false)
    (hwait : ∀ slot, L.Resident c slot → v.wave = 0 ∧ v.situation slot = .waiting) :
    launchSlots L.toGpuSize (L.slotsOf c v) (cuId c) L.totalWarps L.warpIdOffset =
      L.slotsOf c { v with launched := true } := by
  funext slot
  have hempty : L.slotsOf c v slot = {} := by
    rw [slotsOf, if_neg fun hres => absurd (hl.symm.trans hres.1) (by simp)]
  rw [launchSlots_eq, hempty, slotsOf]
  by_cases hres : L.Resident c slot
  · obtain ⟨hw, hsit⟩ := hwait slot hres
    rw [if_pos hres.1, if_pos hres, if_pos ⟨rfl, hres⟩, hw, hsit]
    rfl
  · have hne : ¬ (true = true ∧ L.Resident c slot) := fun hr => hres hr.2
    rw [if_neg hres, if_neg hne]
    split <;> rfl

theorem CuInv.launch {n : ℕ} (h : CuInv L c done owed tr v cu) (hpc : cu.scheduler.pc = .armed) :
    CuStep L c done owed tr v cu { cu with
      loaded := n
      scheduler := ⟨.head, launchSlots L.toGpuSize cu.scheduler.slots (cuId c) L.totalWarps
        L.warpIdOffset, true, false⟩ } [] := by
  obtain ⟨hl, hb, hwait⟩ := h.idle (.inl hpc)
  have hjob : v.job = none := by
    obtain ⟨-, -, -, hjob, -⟩ | ⟨-, -, hne⟩ | ⟨-, -, hhead, -⟩ := h.phase
    · exact hjob
    · exact absurd hpc hne
    · exact absurd (hhead.symm.trans hpc) (by simp)
  have hS := h.stalledCount
  have hD := h.doneCount
  refine ⟨{ v with launched := true }, ?_, rfl, rfl, rfl, by simp⟩
  rw [List.append_nil]
  refine ⟨?_, .running rfl rfl (by simp), h.flight.congr rfl rfl rfl, h.job, ?_, by simp,
    h.stalledCode, h.doneCode, h.warps, ?_, ?_, h.oneRelease, h.releaseStalled, h.signals⟩
  · simp only [h.slots]
    exact launchSlots_slotsOf hl hwait
  · simp [hjob]
  · simpa [Cu.eventsInFlight, Cu.releases, countIn, hpc] using hS
  · simpa [Cu.eventsInFlight, countIn, hpc] using hD

/-- Every step of `schedulerCore` keeps the invariant. -/
theorem CuInv.schedulerStep {ev : List Event} {start : Bool} (h : CuInv L c done owed tr v cu)
    (hstart : start = true → done = false) (hs : cu.schedulerStep L c start = some (cu', ev)) :
    CuStep L c done owed tr v cu cu' ev := by
  unfold Cu.schedulerStep at hs
  dsimp only at hs
  split at hs
  · next hpc =>
    split at hs
    · next hrun => exact h.dispatchRound hpc hrun hs
    · next hidle =>
      rw [Bool.not_eq_true] at hidle
      split at hs
      · next hgo =>
        obtain ⟨rfl, rfl⟩ := Prod.mk.inj (Option.some.inj hs)
        simp only [Bool.and_eq_true] at hgo
        obtain ⟨hl, hb, hjob, hwait⟩ : v.launched = false ∧
            cu.scheduler.busyCuScheduler = false ∧ v.job = none ∧
            ∀ slot, L.Resident c slot → v.wave = 0 ∧ v.situation slot = .waiting := by
          obtain ⟨hl, hb, -, hjob, hwait⟩ | ⟨-, hb, -⟩ | ⟨-, -, -, hd⟩ := h.phase
          · exact ⟨hl, hb, hjob, hwait⟩
          · exact absurd (hb.symm.trans hidle) (by simp)
          · exact absurd ((hstart hgo.1).symm.trans hd) (by simp)
        exact CuInv.cuStep (h.movePc (by simp [hpc]) (by simp)
          (.idle hl hb (.inr rfl) hjob hwait)) rfl
      · obtain ⟨rfl, rfl⟩ := Prod.mk.inj (Option.some.inj hs)
        exact CuInv.cuStep h rfl
  · next hpc =>
    split at hs
    · obtain ⟨rfl, rfl⟩ := Prod.mk.inj (Option.some.inj hs)
      obtain ⟨hl, hb, -, hjob, hwait⟩ | ⟨-, -, hne⟩ | ⟨-, -, hhead, -⟩ := h.phase
      · exact CuInv.cuStep (h.movePc (by simp [hpc]) (by simp)
          (.idle hl hb (.inl rfl) hjob hwait)) rfl
      · exact absurd hpc hne
      · exact absurd (hhead.symm.trans hpc) (by simp)
    · obtain ⟨rfl, rfl⟩ := Prod.mk.inj (Option.some.inj hs)
      exact h.launch hpc
  · next hpc =>
    obtain ⟨rfl, rfl⟩ := Prod.mk.inj (Option.some.inj hs)
    exact h.readStatus hpc
  · next code hpc =>
    obtain ⟨queue, hq, heq⟩ := Option.map_eq_some_iff.1 hs
    obtain ⟨rfl, rfl⟩ := Prod.mk.inj heq
    exact h.sendEvent hpc (push_eq_some hq)
  · next hpc =>
    obtain ⟨rfl, rfl⟩ := Prod.mk.inj (Option.some.inj hs)
    exact h.readSignal hpc

/-! ## The pipeline's steps -/

/-- A pipeline reports the status of its run. -/
theorem CuInv.sendResult {d : WarpDispatch} {result : WarpResult}
    (h : CuInv L c done owed tr v cu) (hp : cu.pipeline = .running d (.ret result)) :
    CuStep L c done owed tr v cu
      { cu.setRegs d.slotId result.regs with
        status := cu.status ++ [{ result.status with slotId := d.slotId }]
        pipeline := .idle }
      [.finished d { result.status with slotId := d.slotId }] := by
  have hflight := h.flight
  obtain ⟨slot, hv, hjob, hd, hstatus, hst⟩ : ∃ slot, v.job = some (slot, false) ∧
      L.IsJob c v.wave d slot ∧ cu.dispatch = [] ∧ result.status = L.waveStatus v.wave ∧
      cu.status = [] := by
    generalize v.job = job at hflight ⊢
    cases hflight with
    | nothing _ hp' => exact absurd (hp.symm.trans hp') (by simp)
    | queued _ _ hp' => exact absurd (hp.symm.trans hp') (by simp)
    | running hjob hd hp' hleaf hst =>
      obtain ⟨rfl, rfl⟩ := Pipeline.running.inj (hp.symm.trans hp')
      exact ⟨_, rfl, hjob, hd, hleaf, hst⟩
    | waiting _ _ hp' => exact absurd (hp.symm.trans hp') (by simp)
    | reported _ hp' => exact absurd (hp.symm.trans hp') (by simp)
  obtain ⟨hres, hsit⟩ := (h.job slot false).1 hv
  have hw := h.warps slot hres
  rw [hsit] at hw
  have hbusy : cu.scheduler.busyCu = true := h.busyCu.2 (.inl (by rw [hv]; rfl))
  have hevent (code : WarpStatusCode) : cu.scheduler.pc ≠ .event code := fun hpc => by
    have hnone := h.eventJob code hpc
    rw [hv] at hnone
    exact absurd hnone (by simp)
  obtain ⟨hl, hphase⟩ : v.launched = true ∧ Phase L c done cu.scheduler
      { v.setSituation slot (.inFlight true) with job := some (slot, true) } := by
    obtain ⟨-, -, -, hnone, -⟩ | ⟨hl, hb, hpc⟩ | ⟨hl, hb, hpc, hd⟩ := h.phase
    · exact absurd (hv.symm.trans hnone) (by simp)
    · exact ⟨hl, .running hl hb hpc⟩
    · exact ⟨hl, .finished hl hb hpc hd⟩
  have hval : cu.scheduler.slots slot = L.slotOf c slot v.wave (.inFlight false) := by
    rw [h.slots, slotsOf, if_pos ⟨hl, hres⟩, hsit]
  refine ⟨{ v.setSituation slot (.inFlight true) with job := some (slot, true) },
    h.setWarp hl hres (by rw [hsit]; decide) (by rw [hsit]; decide) ?_ hphase
      (.reported hd rfl ?_) (.inr ⟨false, hv⟩) (.inr ⟨true, rfl, rfl⟩)
      (by simp [Cu.setRegs, hbusy])
      (fun code hpc => absurd hpc (hevent code)) ⟨by simp, by simp⟩
      (hw.finished hjob.warpId ?_ ?_) ?_ rfl rfl rfl, rfl, rfl, rfl, ?_⟩
  · have hsame : L.slotOf c slot v.wave (.inFlight true) =
        L.slotOf c slot v.wave (.inFlight false) := rfl
    rw [hsame, ← hval, Function.update_eq_self]
    rfl
  · simp [hst, hstatus, hjob.slotId]
  · simp [hstatus]
  · simp only [hstatus]
    rfl
  · simpa [Event.warpId] using hjob.warpId
  · simpa [Event.warpId] using ⟨slot, hres, hjob.warpId⟩

/-- Every step of the compute pipeline keeps the invariant. -/
theorem CuInv.pipelineStep {ev : List Event} (h : CuInv L c done owed tr v cu)
    (hs : cu.pipelineStep L c = some (cu', ev)) : CuStep L c done owed tr v cu cu' ev := by
  have hflight := h.flight
  unfold Cu.pipelineStep at hs
  split at hs
  · next hp =>
    split at hs
    · obtain ⟨rfl, rfl⟩ := Prod.mk.inj (Option.some.inj hs)
      exact CuInv.cuStep h rfl
    · next d rest hd =>
      obtain ⟨rfl, rfl⟩ := Prod.mk.inj (Option.some.inj hs)
      refine CuInv.cuStep (h.setFlight rfl rfl ?_) rfl
      generalize v.job = job at hflight ⊢
      cases hflight with
      | nothing hd' => exact absurd (hd.symm.trans hd') (by simp)
      | queued hjob hd' hp' hst =>
        obtain ⟨rfl, rfl⟩ := List.cons.inj (hd.symm.trans hd')
        refine .running hjob rfl rfl ?_ hst
        have hleaf := L.execute_status c d (cu.regs d.slotId)
        rw [hjob.resumePc] at hleaf
        exact hleaf
      | running _ hd' => exact absurd (hd.symm.trans hd') (by simp)
      | waiting _ hd' => exact absurd (hd.symm.trans hd') (by simp)
      | reported hd' => exact absurd (hd.symm.trans hd') (by simp)
  · next d req k hp =>
    obtain ⟨queue, hq, heq⟩ := Option.map_eq_some_iff.1 hs
    obtain ⟨rfl, rfl⟩ := Prod.mk.inj heq
    refine CuInv.cuStep (h.setFlight rfl rfl ?_) rfl
    generalize v.job = job at hflight ⊢
    cases hflight with
    | nothing _ hp' => exact absurd (hp.symm.trans hp') (by simp)
    | queued _ _ hp' => exact absurd (hp.symm.trans hp') (by simp)
    | running hjob hd hp' hleaf hst =>
      obtain ⟨rfl, rfl⟩ := Pipeline.running.inj (hp.symm.trans hp')
      exact .waiting hjob hd rfl hleaf hst
    | waiting _ _ hp' => exact absurd (hp.symm.trans hp') (by simp)
    | reported _ hp' => exact absurd (hp.symm.trans hp') (by simp)
  · next d result hp =>
    obtain ⟨queue, hq, heq⟩ := Option.map_eq_some_iff.1 hs
    obtain ⟨rfl, rfl⟩ := Prod.mk.inj heq
    obtain rfl := push_eq_some hq
    exact h.sendResult hp
  · next d k hp =>
    split at hs
    · exact absurd hs (by simp)
    · next resp rest hr =>
      obtain ⟨rfl, rfl⟩ := Prod.mk.inj (Option.some.inj hs)
      refine CuInv.cuStep (h.setFlight rfl rfl ?_) rfl
      generalize v.job = job at hflight ⊢
      cases hflight with
      | nothing _ hp' => exact absurd (hp.symm.trans hp') (by simp)
      | queued _ _ hp' => exact absurd (hp.symm.trans hp') (by simp)
      | running _ _ hp' => exact absurd (hp.symm.trans hp') (by simp)
      | waiting hjob hd hp' hleaf hst =>
        obtain ⟨rfl, rfl⟩ := Pipeline.waiting.inj (hp.symm.trans hp')
        exact .running hjob hd rfl (hleaf resp) hst
      | reported _ hp' => exact absurd (hp.symm.trans hp') (by simp)

end Steps

end RiscvGpgpu.Hls
