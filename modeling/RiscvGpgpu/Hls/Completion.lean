import RiscvGpgpu.Hls.LaunchState
import RiscvGpgpu.Hls.ProgramLoader

/-!
# Completion

When `barrierCoreN` has counted as many completions as there are warps, every warp has completed.
`CuLaunch` follows the slots of one CU through a launch, whatever the barriers, the signals and
`start` do: it asks only that a CU launches its slots once.
-/

namespace RiscvGpgpu.Hls

open Launch

/-- The warp has reported `COMPLETE`. -/
def Completed (tr : List Event) (id : WarpId) : Prop :=
  ∃ d status, .finished d status ∈ tr ∧ d.warpId = id ∧ status.code = .complete

theorem Completed.append {tr : List Event} {id : WarpId} (h : Completed tr id) (ev : List Event) :
    Completed (tr ++ ev) id := by
  obtain ⟨d, status, hmem, hid, hcode⟩ := h
  exact ⟨d, status, List.mem_append_left _ hmem, hid, hcode⟩

/-- Where the warp in flight is. -/
inductive JobAt (L : Launch) (c : L.Cus) (cu : Cu) : Option SlotId → Prop where
  | nothing (hd : cu.dispatch = []) (hp : cu.pipeline = .idle) (hs : cu.status = []) :
      JobAt L c cu none
  | queued {d : WarpDispatch} (hid : d.warpId = L.warpIdOf c d.slotId) (hd : cu.dispatch = [d])
      (hp : cu.pipeline = .idle) (hs : cu.status = []) : JobAt L c cu (some d.slotId)
  | running {d : WarpDispatch} {p : Interact MemReq MemResp WarpResult}
      (hid : d.warpId = L.warpIdOf c d.slotId) (hd : cu.dispatch = [])
      (hp : cu.pipeline = .running d p) (hs : cu.status = []) : JobAt L c cu (some d.slotId)
  | waiting {d : WarpDispatch} {k : MemResp → Interact MemReq MemResp WarpResult}
      (hid : d.warpId = L.warpIdOf c d.slotId) (hd : cu.dispatch = [])
      (hp : cu.pipeline = .waiting d k) (hs : cu.status = []) : JobAt L c cu (some d.slotId)
  | reported {st : WarpStatus} (hd : cu.dispatch = []) (hp : cu.pipeline = .idle)
      (hs : cu.status = [st]) : JobAt L c cu (some st.slotId)

/-- The slots of the residents that are done. -/
def doneSlots (L : Launch) (c : L.Cus) (slots : Slots) : Finset SlotId :=
  (L.residents c).filter fun slot => (slots slot).state = .done

/-- A CU in a launch: `taken` says that it has launched its slots, `seen` how many of its
completions the arbiter has counted, and `tr` is what has happened in the launch. -/
structure CuLaunch (L : Launch) (c : L.Cus) (taken : Bool) (seen : ℕ) (job : Option SlotId)
    (tr : List Event) (cu : Cu) : Prop where
  flight : JobAt L c cu job
  jobReady : ∀ slot, job = some slot → taken = true ∧ L.Resident c slot ∧
    (cu.scheduler.slots slot).state = .ready
  busyCu : cu.scheduler.busyCu = true ↔ job.isSome = true ∨ ∃ code, cu.scheduler.pc = .event code
  eventJob : ∀ code, cu.scheduler.pc = .event code → job = none
  residents : taken = true → ∀ slot, L.Resident c slot → (cu.scheduler.slots slot).state ≠ .empty ∧
    (cu.scheduler.slots slot).warpId = L.warpIdOf c slot
  others : ∀ slot, slot.toNat < L.maxWarpsPerCu → taken = false ∨ ¬ L.Resident c slot →
    (cu.scheduler.slots slot).state ≠ .ready ∧ (cu.scheduler.slots slot).state ≠ .stalled
  count : seen + cu.eventsInFlight .complete =
    if taken = true then (doneSlots L c cu.scheduler.slots).card else 0
  doneTr : taken = true → ∀ slot, L.Resident c slot → (cu.scheduler.slots slot).state = .done →
    Completed tr (L.warpIdOf c slot)
  statusTr : ∀ st ∈ cu.status, st.code = .complete → Completed tr (L.warpIdOf c st.slotId)

section Steps

variable {L : Launch} {c : L.Cus} {taken : Bool} {seen : ℕ} {job : Option SlotId}
  {tr ev : List Event} {cu cu' : Cu}

theorem JobAt.congr (h : JobAt L c cu job) (hd : cu'.dispatch = cu.dispatch)
    (hp : cu'.pipeline = cu.pipeline) (hs : cu'.status = cu.status) : JobAt L c cu' job := by
  cases h with
  | nothing h1 h2 h3 => exact .nothing (hd.trans h1) (hp.trans h2) (hs.trans h3)
  | queued hid h1 h2 h3 => exact .queued hid (hd.trans h1) (hp.trans h2) (hs.trans h3)
  | running hid h1 h2 h3 => exact .running hid (hd.trans h1) (hp.trans h2) (hs.trans h3)
  | waiting hid h1 h2 h3 => exact .waiting hid (hd.trans h1) (hp.trans h2) (hs.trans h3)
  | reported h1 h2 h3 => exact .reported (hd.trans h1) (hp.trans h2) (hs.trans h3)

/-- Registers, tokens, memory streams and signals do not matter. -/
theorem CuLaunch.congr (h : CuLaunch L c taken seen job tr cu) (hsch : cu'.scheduler = cu.scheduler)
    (hflight : JobAt L c cu' job) (hs : ∀ st ∈ cu'.status, st ∈ cu.status)
    (hev : cu'.port.events = cu.port.events) : CuLaunch L c taken seen job tr cu' where
  flight := hflight
  jobReady := by rw [hsch]; exact h.jobReady
  busyCu := by rw [hsch]; exact h.busyCu
  eventJob := by rw [hsch]; exact h.eventJob
  residents := by rw [hsch]; exact h.residents
  others := by rw [hsch]; exact h.others
  count := by
    unfold Cu.eventsInFlight
    rw [hsch, hev]
    exact h.count
  doneTr := by rw [hsch]; exact h.doneTr
  statusTr st hst := h.statusTr st (hs st hst)

theorem CuLaunch.append (h : CuLaunch L c taken seen job tr cu) (ev : List Event) :
    CuLaunch L c taken seen job (tr ++ ev) cu :=
  { h with
    doneTr := fun ht slot hres hd => (h.doneTr ht slot hres hd).append ev
    statusTr := fun st hst hc => (h.statusTr st hst hc).append ev }

theorem CuLaunch.free (h : CuLaunch L c taken seen job tr cu)
    (hbusy : cu.scheduler.busyCu = false) : job = none ∧ ∀ code, cu.scheduler.pc ≠ .event code := by
  have hnot := mt h.busyCu.2 (by rw [hbusy]; exact Bool.false_ne_true)
  refine ⟨Option.not_isSome_iff_eq_none.1 fun hs => hnot (.inl hs), fun code hpc => ?_⟩
  exact hnot (.inr ⟨code, hpc⟩)

/-- The loop moves on with the same slots. -/
theorem CuLaunch.movePc (h : CuLaunch L c taken seen job tr cu) {core : SchedulerCore}
    {port : BarrierPort} (hslots : core.slots = cu.scheduler.slots)
    (hbusy : core.busyCu = cu.scheduler.busyCu) (hev : port.events = cu.port.events)
    (hold : ∀ code, cu.scheduler.pc ≠ .event code) (hnew : ∀ code, core.pc ≠ .event code) :
    CuLaunch L c taken seen job tr { cu with scheduler := core, port := port } where
  flight := h.flight.congr rfl rfl rfl
  jobReady := by dsimp only; rw [hslots]; exact h.jobReady
  busyCu := by
    have := h.busyCu
    simp only [hold, exists_false, or_false] at this
    simpa [hbusy, hnew] using this
  eventJob := fun code hpc => absurd hpc (hnew code)
  residents := by dsimp only; rw [hslots]; exact h.residents
  others := by dsimp only; rw [hslots]; exact h.others
  count := by
    have := h.count
    simpa [Cu.eventsInFlight, hold, hnew, hslots, hev] using this
  doneTr := by dsimp only; rw [hslots]; exact h.doneTr
  statusTr := h.statusTr

/-- The arbiter takes an event off the stream. -/
theorem CuLaunch.poll {code : WarpStatusCode} {rest : List WarpStatusCode}
    (h : CuLaunch L c taken seen job tr cu) (hev : cu.port.events = code :: rest) :
    CuLaunch L c taken (seen + if code = .complete then 1 else 0) job tr
      { cu with port := { cu.port with events := rest } } :=
  { h with
    flight := h.flight.congr rfl rfl rfl
    count := by
      rw [← h.count]
      simp only [Cu.eventsInFlight, hev, List.count_cons]
      cases code <;> simp
      omega }

theorem CuLaunch.setPort {port : BarrierPort} (h : CuLaunch L c taken seen job tr cu)
    (hev : port.events = cu.port.events) :
    CuLaunch L c taken seen job tr { cu with port := port } :=
  h.congr rfl (h.flight.congr rfl rfl rfl) (fun _ => id) hev

/-- No more completions are counted than there are residents. -/
theorem CuLaunch.seen_le (h : CuLaunch L c taken seen job tr cu) :
    seen + cu.eventsInFlight .complete ≤ (L.residents c).card := by
  rw [h.count]
  split
  · exact Finset.card_filter_le _ _
  · exact Nat.zero_le _

/-- A CU whose residents are all counted has launched them, and they are done. -/
theorem CuLaunch.all_done (h : CuLaunch L c taken seen job tr cu)
    (hseen : seen = (L.residents c).card) {slot : SlotId} (hres : L.Resident c slot) :
    taken = true ∧ (cu.scheduler.slots slot).state = .done := by
  have hpos : 0 < (L.residents c).card := Finset.card_pos.2 ⟨slot, mem_residents.2 hres⟩
  have hle : (doneSlots L c cu.scheduler.slots).card ≤ (L.residents c).card :=
    Finset.card_filter_le _ _
  have hcount := h.count
  split at hcount
  · next ht =>
    have hcard : ((L.residents c).filter fun s => (cu.scheduler.slots s).state = .done).card =
        (L.residents c).card := by
      rw [doneSlots] at hle hcount
      omega
    exact ⟨ht, Finset.filter_card_eq hcard slot (mem_residents.2 hres)⟩
  · omega

/-! ## The scheduler -/

theorem doneSlots_update {slots : Slots} {slot : SlotId} {w : WarpSlot}
    (hres : L.Resident c slot) (hold : (slots slot).state ≠ .done) :
    (doneSlots L c (Function.update slots slot w)).card =
      (doneSlots L c slots).card + if w.state = .done then 1 else 0 := by
  unfold doneSlots
  by_cases hw : w.state = .done
  · have hins : (L.residents c).filter
        (fun s => (Function.update slots slot w s).state = .done) =
        insert slot ((L.residents c).filter fun s => (slots s).state = .done) := by
      ext s
      by_cases hs : s = slot
      · subst hs
        simp [hres, hw]
      · simp [hs]
    rw [hins, Finset.card_insert_of_notMem (by simp [hold]), if_pos hw]
  · rw [if_neg hw, Nat.add_zero]
    congr 1
    refine Finset.filter_congr fun s _ => ?_
    by_cases hs : s = slot
    · subst hs
      simp [hw, hold]
    · simp [hs]

theorem doneSlots_congr {slots slots' : Slots}
    (h : ∀ slot, L.Resident c slot → ((slots' slot).state = .done ↔ (slots slot).state = .done)) :
    doneSlots L c slots' = doneSlots L c slots := by
  unfold doneSlots
  exact Finset.filter_congr fun slot hslot => h slot (mem_residents.1 hslot)

theorem CuLaunch.dispatchRound (h : CuLaunch L c taken seen job tr cu)
    (hpc : cu.scheduler.pc = .head) (hs : cu.dispatchRound L = some (cu', ev)) :
    ∃ job', CuLaunch L c taken seen job' (tr ++ ev) cu' := by
  unfold Cu.dispatchRound at hs
  dsimp only at hs
  split at hs
  · next hgo =>
    simp only [Bool.and_eq_true, Bool.not_eq_true', bne_iff_ne] at hgo
    obtain ⟨queue, hq, heq⟩ := Option.map_eq_some_iff.1 hs
    obtain ⟨rfl, rfl⟩ := Prod.mk.inj heq
    obtain rfl := push_eq_some hq
    obtain ⟨rfl, -⟩ := h.free hgo.1
    obtain ⟨hlt, hready⟩ := nextReadySlot_ready hgo.2
    set slot := nextReadySlot L.toGpuSize cu.scheduler.slots with hslot
    have hres : taken = true ∧ L.Resident c slot := by
      by_contra hnot
      refine (h.others slot hlt ?_).1 hready
      rw [not_and_or, Bool.not_eq_true] at hnot
      exact hnot
    obtain ⟨hd, hp, hst⟩ : cu.dispatch = [] ∧ cu.pipeline = .idle ∧ cu.status = [] := by
      cases h.flight with
      | nothing hd hp hs => exact ⟨hd, hp, hs⟩
    have hstate (s : SlotId) : ((buildDispatch cu.scheduler.slots slot).2 s).state =
        (cu.scheduler.slots s).state ∧ ((buildDispatch cu.scheduler.slots slot).2 s).warpId =
        (cu.scheduler.slots s).warpId := by
      unfold buildDispatch
      by_cases hs : s = slot
      · subst hs
        simp
      · simp [hs]
    have hd' : cu.dispatch ++ [(buildDispatch cu.scheduler.slots slot).1] =
        [(buildDispatch cu.scheduler.slots slot).1] := by rw [hd]; rfl
    refine ⟨some slot, .queued (d := (buildDispatch cu.scheduler.slots slot).1)
      (h.residents hres.1 slot hres.2).2 hd' hp hst, ?_, by simp, by simp, ?_, ?_, ?_, ?_, ?_⟩
    · rintro s hs
      obtain rfl := Option.some.inj hs
      exact ⟨hres.1, hres.2, (hstate slot).1.trans hready⟩
    · intro ht s hres'
      dsimp only
      rw [(hstate s).1, (hstate s).2]
      exact h.residents ht s hres'
    · intro s hlt' hnot
      dsimp only
      rw [(hstate s).1]
      exact h.others s hlt' hnot
    · have hcount := h.count
      dsimp only
      have hdone : doneSlots L c _ = doneSlots L c cu.scheduler.slots :=
        doneSlots_congr fun s _ => by rw [(hstate s).1]
      rw [hdone]
      simpa [Cu.eventsInFlight, hpc] using hcount
    · intro ht s hres' hdone
      dsimp only at hdone
      rw [(hstate s).1] at hdone
      exact (h.doneTr ht s hres' hdone).append _
    · exact fun st hst' hc => (h.statusTr st hst' hc).append _
  · obtain ⟨rfl, rfl⟩ := Prod.mk.inj (Option.some.inj hs)
    rw [List.append_nil]
    exact ⟨job, h.movePc rfl rfl rfl (by simp [hpc]) (by simp)⟩

theorem CuLaunch.readStatus (h : CuLaunch L c taken seen job tr cu)
    (hpc : cu.scheduler.pc = .status) : ∃ job', CuLaunch L c taken seen job' tr cu.readStatus := by
  unfold Cu.readStatus
  split
  · exact ⟨job, h.movePc rfl rfl rfl (by simp [hpc]) (by simp)⟩
  · next st rest hst =>
    obtain ⟨rfl, hd, hp, rfl⟩ : job = some st.slotId ∧ cu.dispatch = [] ∧ cu.pipeline = .idle ∧
        rest = [] := by
      cases h.flight with
      | nothing _ _ hs => exact absurd (hst.symm.trans hs) (by simp)
      | queued _ _ _ hs => exact absurd (hst.symm.trans hs) (by simp)
      | running _ _ _ hs => exact absurd (hst.symm.trans hs) (by simp)
      | waiting _ _ _ hs => exact absurd (hst.symm.trans hs) (by simp)
      | reported hd hp hs =>
        obtain ⟨rfl, hrest⟩ := List.cons.inj (hst.symm.trans hs)
        exact ⟨rfl, hd, hp, hrest⟩
    obtain ⟨ht, hres, hready⟩ := h.jobReady _ rfl
    have hbusy : cu.scheduler.busyCu = true := h.busyCu.2 (.inl rfl)
    have hmem : st ∈ cu.status := by rw [hst]; exact List.mem_cons_self
    have hnew : (slotWithResult (cu.scheduler.slots st.slotId) st).state =
        (if st.code = .complete then .done else .stalled) ∧
        (slotWithResult (cu.scheduler.slots st.slotId) st).warpId =
          (cu.scheduler.slots st.slotId).warpId := by
      unfold slotWithResult
      cases hcode : st.code <;> exact ⟨rfl, rfl⟩
    refine ⟨none, .nothing hd hp rfl, by simp, by simp [hbusy], by simp, ?_, ?_, ?_, ?_, by simp⟩
    · intro _ s hres'
      have hold := h.residents ht s hres'
      by_cases hs : s = st.slotId
      · subst hs
        simp only [recordResult, Function.update_self]
        refine ⟨?_, hnew.2.trans hold.2⟩
        rw [hnew.1]
        split <;> simp
      · simpa [recordResult, hs] using hold
    · intro s hlt hnot
      have hs : s ≠ st.slotId := by
        rintro rfl
        obtain hnt | hnr := hnot
        · exact absurd (ht.symm.trans hnt) (by simp)
        · exact hnr hres
      simpa [recordResult, hs] using h.others s hlt hnot
    · have hcount := h.count
      rw [if_pos ht] at hcount ⊢
      simp only [recordResult]
      rw [doneSlots_update hres (by rw [hready]; decide), hnew.1]
      simp only [Cu.eventsInFlight, hpc] at hcount ⊢
      cases hcode : st.code <;> simp at hcount ⊢ <;> omega
    · intro _ s hres' hdone
      by_cases hs : s = st.slotId
      · subst hs
        simp only [recordResult, Function.update_self] at hdone
        rw [hnew.1] at hdone
        refine h.statusTr st hmem ?_
        by_contra hne
        rw [if_neg hne] at hdone
        exact absurd hdone (by decide)
      · simp only [recordResult, Function.update_of_ne hs] at hdone
        exact h.doneTr ht s hres' hdone

theorem CuLaunch.sendEvent {code : WarpStatusCode} {queue : List WarpStatusCode}
    (h : CuLaunch L c taken seen job tr cu) (hpc : cu.scheduler.pc = .event code)
    (hq : queue = cu.port.events ++ [code]) :
    CuLaunch L c taken seen job tr ((cu.setEvents queue).setScheduler
      { cu.scheduler with busyCu := false, pc := .signal }) where
  flight := h.flight.congr rfl rfl rfl
  jobReady := h.jobReady
  busyCu := by simp [Cu.setScheduler, h.eventJob code hpc]
  eventJob := by simp [Cu.setScheduler]
  residents := h.residents
  others := h.others
  count := by
    have hcount := h.count
    subst hq
    simp only [Cu.eventsInFlight, Cu.setEvents, Cu.setScheduler, hpc] at hcount ⊢
    rw [← hcount]
    cases code <;> simp
  doneTr := h.doneTr
  statusTr := h.statusTr

/-- A release makes stalled slots ready and leaves the others. -/
theorem releasedSlot_state (w : WarpSlot) :
    ((releasedSlot w).state = w.state ∨ w.state = .stalled ∧ (releasedSlot w).state = .ready) ∧
      (releasedSlot w).warpId = w.warpId := by
  unfold releasedSlot
  split
  · next h => exact ⟨.inr ⟨h, rfl⟩, rfl⟩
  · exact ⟨.inl rfl, rfl⟩

theorem CuLaunch.setSlots (h : CuLaunch L c taken seen job tr cu) {core : SchedulerCore}
    {port : BarrierPort}
    (hslots : core.slots = cu.scheduler.slots ∨
      core.slots = releaseBarrierSlots L.toGpuSize cu.scheduler.slots)
    (hbusy : core.busyCu = cu.scheduler.busyCu) (hev : port.events = cu.port.events)
    (hold : ∀ code, cu.scheduler.pc ≠ .event code) (hnew : ∀ code, core.pc ≠ .event code) :
    CuLaunch L c taken seen job tr { cu with scheduler := core, port := port } := by
  obtain hslots | hslots := hslots
  · exact h.movePc hslots hbusy hev hold hnew
  · have hstate (s : SlotId) :
        ((core.slots s).state = (cu.scheduler.slots s).state ∨
          (cu.scheduler.slots s).state = .stalled ∧ (core.slots s).state = .ready) ∧
        (core.slots s).warpId = (cu.scheduler.slots s).warpId := by
      rw [hslots]
      unfold releaseBarrierSlots
      split
      · exact releasedSlot_state _
      · exact ⟨.inl rfl, rfl⟩
    have hdone (s : SlotId) :
        (core.slots s).state = .done ↔ (cu.scheduler.slots s).state = .done := by
      obtain ⟨heq | ⟨h1, h2⟩, -⟩ := hstate s
      · rw [heq]
      · simp [h1, h2]
    have hbusyCu := h.busyCu
    simp only [hold, exists_false, or_false] at hbusyCu
    refine ⟨h.flight.congr rfl rfl rfl, fun s hs => ?_, by simpa [hbusy, hnew] using hbusyCu,
      fun code hpc => absurd hpc (hnew code), fun ht s hres => ?_, fun s hlt hnot => ?_, ?_,
      fun ht s hres hd => h.doneTr ht s hres ((hdone s).1 hd), h.statusTr⟩
    · obtain ⟨ht, hres, hready⟩ := h.jobReady s hs
      refine ⟨ht, hres, ?_⟩
      obtain ⟨heq | ⟨h1, -⟩, -⟩ := hstate s
      · exact heq.trans hready
      · exact absurd (hready.symm.trans h1) (by decide)
    · obtain ⟨hne, hid⟩ := h.residents ht s hres
      refine ⟨?_, (hstate s).2.trans hid⟩
      obtain ⟨heq | ⟨-, h2⟩, -⟩ := hstate s
      · dsimp only
        rwa [heq]
      · dsimp only
        rw [h2]
        decide
    · obtain ⟨h1, h2⟩ := h.others s hlt hnot
      obtain ⟨heq | ⟨hst, -⟩, -⟩ := hstate s
      · dsimp only
        rw [heq]
        exact ⟨h1, h2⟩
      · exact absurd hst h2
    · have hcount := h.count
      have hsame : doneSlots L c _ = doneSlots L c cu.scheduler.slots :=
        doneSlots_congr fun s _ => hdone s
      rw [hsame]
      simpa [Cu.eventsInFlight, hold, hnew, hev] using hcount

theorem CuLaunch.launch {n : ℕ} (h : CuLaunch L c false seen job tr cu)
    (hpc : cu.scheduler.pc = .armed) :
    CuLaunch L c true seen none tr { cu with
      loaded := n
      scheduler := ⟨.head, launchSlots L.toGpuSize cu.scheduler.slots (cuId c) L.totalWarps
        L.warpIdOffset, true, false⟩ } := by
  have hjob : job = none := by
    cases hj : job with
    | none => rfl
    | some slot => exact absurd (h.jobReady slot hj).1 (by simp)
  subst hjob
  have hcount := h.count
  rw [if_neg Bool.false_ne_true] at hcount
  have hready (s : SlotId) (hres : L.Resident c s) :
      launchSlots L.toGpuSize cu.scheduler.slots (cuId c) L.totalWarps L.warpIdOffset s =
        ⟨L.warpIdOf c s, 0, 0, .ready, true⟩ := by
    rw [launchSlots_eq, if_pos hres.1, if_pos hres]
  refine ⟨h.flight.congr rfl rfl rfl, by simp, by simp, by simp, fun _ s hres => ?_,
    fun s hlt hnot => ?_, ?_, fun _ s hres hd => ?_, h.statusTr⟩
  · dsimp only
    rw [hready s hres]
    exact ⟨by simp, rfl⟩
  · have hres : ¬ L.Resident c s := by
      obtain hf | hn := hnot
      · exact absurd hf (by simp)
      · exact hn
    simp only [launchSlots_eq, if_pos hlt, if_neg hres]
    exact ⟨by simp, by simp⟩
  · have hempty : doneSlots L c (launchSlots L.toGpuSize cu.scheduler.slots (cuId c) L.totalWarps
        L.warpIdOffset) = ∅ := by
      unfold doneSlots
      rw [Finset.filter_eq_empty_iff]
      intro s hs
      rw [hready s (mem_residents.1 hs)]
      simp
    rw [hempty]
    simpa [Cu.eventsInFlight, hpc] using hcount
  · simp only [hready s hres] at hd
    exact absurd hd (by decide)

/-- A step of the scheduler: it takes a token or not. -/
theorem CuLaunch.schedulerStep {start : Bool} (h : CuLaunch L c taken seen job tr cu)
    (htoken : 0 < cu.loaded → taken = false) (hs : cu.schedulerStep L c start = some (cu', ev)) :
    (cu'.loaded = cu.loaded ∧ ∃ job', CuLaunch L c taken seen job' (tr ++ ev) cu') ∨
      (cu'.loaded + 1 = cu.loaded ∧ ev = [] ∧ (∃ job', CuLaunch L c true seen job' tr cu')) := by
  unfold Cu.schedulerStep at hs
  dsimp only at hs
  split at hs
  · next hpc =>
    split at hs
    · refine .inl ⟨?_, h.dispatchRound hpc hs⟩
      unfold Cu.dispatchRound at hs
      dsimp only at hs
      split at hs
      · obtain ⟨queue, -, heq⟩ := Option.map_eq_some_iff.1 hs
        obtain ⟨rfl, -⟩ := Prod.mk.inj heq
        rfl
      · obtain ⟨rfl, -⟩ := Prod.mk.inj (Option.some.inj hs)
        rfl
    · split at hs <;> obtain ⟨rfl, rfl⟩ := Prod.mk.inj (Option.some.inj hs) <;>
        rw [List.append_nil]
      · exact .inl ⟨rfl, job, h.movePc rfl rfl rfl (by simp [hpc]) (by simp)⟩
      · exact .inl ⟨rfl, job, h⟩
  · next hpc =>
    split at hs
    · obtain ⟨rfl, rfl⟩ := Prod.mk.inj (Option.some.inj hs)
      rw [List.append_nil]
      exact .inl ⟨rfl, job, h.movePc rfl rfl rfl (by simp [hpc]) (by simp)⟩
    · next n hn =>
      obtain ⟨rfl, rfl⟩ := Prod.mk.inj (Option.some.inj hs)
      obtain rfl := htoken (by omega)
      exact .inr ⟨hn.symm, rfl, none, h.launch hpc⟩
  · next hpc =>
    obtain ⟨rfl, rfl⟩ := Prod.mk.inj (Option.some.inj hs)
    rw [List.append_nil]
    refine .inl ⟨?_, h.readStatus hpc⟩
    unfold Cu.readStatus
    split <;> rfl
  · next code hpc =>
    obtain ⟨queue, hq, heq⟩ := Option.map_eq_some_iff.1 hs
    obtain ⟨rfl, rfl⟩ := Prod.mk.inj heq
    rw [List.append_nil]
    exact .inl ⟨rfl, job, h.sendEvent hpc (push_eq_some hq)⟩
  · next hpc =>
    obtain ⟨rfl, rfl⟩ := Prod.mk.inj (Option.some.inj hs)
    rw [List.append_nil]
    unfold Cu.readSignal
    split
    · exact .inl ⟨rfl, job, h.movePc rfl rfl rfl (by simp [hpc]) (by simp)⟩
    · next signal rest hsig =>
      refine .inl ⟨rfl, job, h.setSlots ?_ rfl rfl (by simp [hpc]) (by simp)⟩
      dsimp only
      split
      · exact .inr rfl
      · exact .inl rfl

/-! ## The pipeline -/

theorem CuLaunch.pipelineStep (h : CuLaunch L c taken seen job tr cu)
    (hs : cu.pipelineStep L c = some (cu', ev)) : CuLaunch L c taken seen job (tr ++ ev) cu' := by
  have hflight := h.flight
  unfold Cu.pipelineStep at hs
  split at hs
  · next hp =>
    split at hs
    · obtain ⟨rfl, rfl⟩ := Prod.mk.inj (Option.some.inj hs)
      exact h.append _
    · next d rest hd =>
      obtain ⟨rfl, rfl⟩ := Prod.mk.inj (Option.some.inj hs)
      rw [List.append_nil]
      refine h.congr rfl ?_ (fun _ => id) rfl
      cases hflight with
      | nothing hd' => exact absurd (hd.symm.trans hd') (by simp)
      | queued hid hd' _ hst =>
        obtain ⟨rfl, rfl⟩ := List.cons.inj (hd.symm.trans hd')
        exact .running hid rfl rfl hst
      | running _ hd' => exact absurd (hd.symm.trans hd') (by simp)
      | waiting _ hd' => exact absurd (hd.symm.trans hd') (by simp)
      | reported hd' => exact absurd (hd.symm.trans hd') (by simp)
  · next d req k hp =>
    obtain ⟨queue, -, heq⟩ := Option.map_eq_some_iff.1 hs
    obtain ⟨rfl, rfl⟩ := Prod.mk.inj heq
    rw [List.append_nil]
    refine h.congr rfl ?_ (fun _ => id) rfl
    cases hflight with
    | nothing _ hp' => exact absurd (hp.symm.trans hp') (by simp)
    | queued _ _ hp' => exact absurd (hp.symm.trans hp') (by simp)
    | running hid hd hp' hst =>
      obtain ⟨rfl, -⟩ := Pipeline.running.inj (hp.symm.trans hp')
      exact .waiting hid hd rfl hst
    | waiting _ _ hp' => exact absurd (hp.symm.trans hp') (by simp)
    | reported _ hp' => exact absurd (hp.symm.trans hp') (by simp)
  · next d result hp =>
    obtain ⟨queue, hq, heq⟩ := Option.map_eq_some_iff.1 hs
    obtain ⟨rfl, rfl⟩ := Prod.mk.inj heq
    obtain rfl := push_eq_some hq
    obtain ⟨rfl, hid, hd, hst⟩ : job = some d.slotId ∧ d.warpId = L.warpIdOf c d.slotId ∧
        cu.dispatch = [] ∧ cu.status = [] := by
      cases hflight with
      | nothing _ hp' => exact absurd (hp.symm.trans hp') (by simp)
      | queued _ _ hp' => exact absurd (hp.symm.trans hp') (by simp)
      | running hid hd hp' hst =>
        obtain ⟨rfl, -⟩ := Pipeline.running.inj (hp.symm.trans hp')
        exact ⟨rfl, hid, hd, hst⟩
      | waiting _ _ hp' => exact absurd (hp.symm.trans hp') (by simp)
      | reported _ hp' => exact absurd (hp.symm.trans hp') (by simp)
    have happ := h.append [.finished d { result.status with slotId := d.slotId }]
    refine { happ with flight := ?_, statusTr := fun st hmem hc => ?_ }
    · exact @JobAt.reported _ _ _ { result.status with slotId := d.slotId } hd rfl (by
        rw [hst]
        rfl)
    · rw [hst] at hmem
      obtain rfl := List.mem_singleton.1 hmem
      exact ⟨d, _, List.mem_append_right _ (List.mem_singleton_self _), hid, hc⟩
  · next d k hp =>
    split at hs
    · exact absurd hs (by simp)
    · next resp rest hr =>
      obtain ⟨rfl, rfl⟩ := Prod.mk.inj (Option.some.inj hs)
      rw [List.append_nil]
      refine h.congr rfl ?_ (fun _ => id) rfl
      cases hflight with
      | nothing _ hp' => exact absurd (hp.symm.trans hp') (by simp)
      | queued _ _ hp' => exact absurd (hp.symm.trans hp') (by simp)
      | running _ _ hp' => exact absurd (hp.symm.trans hp') (by simp)
      | waiting hid hd hp' hst =>
        obtain ⟨rfl, -⟩ := Pipeline.waiting.inj (hp.symm.trans hp')
        exact .running hid hd rfl hst
      | reported _ hp' => exact absurd (hp.symm.trans hp') (by simp)

end Steps

end RiscvGpgpu.Hls
