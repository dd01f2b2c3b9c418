import RiscvGpgpu.Hls.LaunchInvariant
import RiscvGpgpu.Hls.SoloLaunch

/-!
# The order of the dispatches of a CU

Whatever the processes of a launch do in between, each CU dispatches its warps in the order of
`Launch.schedule`, and its pipeline takes them up in that order. `Ordered` says how far it is.
-/

namespace RiscvGpgpu.Hls

open Launch

/-! ## Dispatches in a trace and in a CU -/

namespace Launch

variable (L : Launch) (c : L.Cus)

def dispatchedBy? : Event → Option WarpDispatch
  | .dispatched d => if d.warpId = L.warpIdOf c d.slotId then some d else none
  | .finished _ _ => none

def finishedBy? : Event → Option WarpDispatch
  | .dispatched _ => none
  | .finished d _ => if d.warpId = L.warpIdOf c d.slotId then some d else none

/-- The dispatches of a CU, in order. -/
def dispatchedBy (tr : List Event) : List WarpDispatch := tr.filterMap (L.dispatchedBy? c)

/-- The dispatches that the pipeline of a CU has executed, in order. -/
def finishedBy (tr : List Event) : List WarpDispatch := tr.filterMap (L.finishedBy? c)

end Launch

def Pipeline.job : Pipeline → List WarpDispatch
  | idle => []
  | running d _ => [d]
  | waiting d _ => [d]

namespace Cu

variable (cu : Cu) (slot : SlotId)

/-- The dispatches that are not executed yet, oldest first. -/
def jobs : List WarpDispatch := cu.pipeline.job ++ cu.dispatch

/-- The slots of the warps in flight. -/
def jobSlots : List SlotId :=
  cu.jobs.map WarpDispatch.slotId ++ cu.status.map WarpStatus.slotId

/-- The warp of the slot waits for its dispatch in this wave. -/
def Waits : Prop :=
  (cu.scheduler.slots slot).state ≠ .stalled ∧ (cu.scheduler.slots slot).state ≠ .done ∧
    slot ∉ cu.jobSlots

/-- The warp of the slot has executed the barrier that ends this wave. -/
def stallsAhead : ℕ :=
  (if (cu.scheduler.slots slot).state = .stalled then 1 else 0) +
    cu.status.countP fun status =>
      decide (status.slotId = slot) && decide (status.code = .stalledAtBarrier)

end Cu

section Views

variable {L : Launch} {c : L.Cus} {done : Bool} {owed : ℕ} {tr : List Event} {v : CuView}
  {cu cu' : Cu}

theorem Launch.InFlight.jobSlots {g : ℕ} {job : Option (SlotId × Bool)}
    (h : L.InFlight c g cu job) : cu.jobSlots = job.toList.map Prod.fst := by
  unfold Cu.jobSlots Cu.jobs Pipeline.job
  cases h with
  | nothing hd hp hs => simp [hd, hp, hs]
  | queued hjob hd hp hs => simp [hd, hp, hs, hjob.slotId]
  | running hjob hd hp _ hs => simp [hd, hp, hs, hjob.slotId]
  | waiting hjob hd hp _ hs => simp [hd, hp, hs, hjob.slotId]
  | reported hd hp hs => simp [hd, hp, hs]

theorem Launch.InFlight.status {g : ℕ} {job : Option (SlotId × Bool)}
    (h : L.InFlight c g cu job) : cu.status = [] ∨ ∃ slot, job = some (slot, true) ∧
      cu.status = [{ L.waveStatus g with slotId := slot }] := by
  cases h with
  | nothing _ _ hs => exact .inl hs
  | queued _ _ _ hs => exact .inl hs
  | running _ _ _ _ hs => exact .inl hs
  | waiting _ _ _ _ hs => exact .inl hs
  | @reported slot _ _ hs => exact .inr ⟨slot, rfl, hs⟩

theorem CuInv.mem_jobSlots (h : CuInv L c done owed tr v cu) {slot : SlotId}
    (hres : L.Resident c slot) : slot ∈ cu.jobSlots ↔ ∃ r, v.situation slot = .inFlight r := by
  rw [h.flight.jobSlots]
  constructor
  · intro hmem
    obtain ⟨⟨slot', r⟩, hjob, rfl⟩ := List.mem_map.1 hmem
    exact ⟨r, ((h.job _ r).1 (Option.mem_toList.1 hjob)).2⟩
  · rintro ⟨r, hsit⟩
    exact List.mem_map.2 ⟨(slot, r), Option.mem_toList.2 ((h.job slot r).2 ⟨hres, hsit⟩), rfl⟩

/-- The state of a resident slot, once the CU has launched. -/
theorem CuInv.slot_eq (h : CuInv L c done owed tr v cu) (hl : v.launched = true) {slot : SlotId}
    (hres : L.Resident c slot) :
    cu.scheduler.slots slot = L.slotOf c slot v.wave (v.situation slot) := by
  rw [h.slots, slotsOf, if_pos ⟨hl, hres⟩]

/-- Before its launch a CU has no warps in its slots. -/
theorem CuInv.unlaunched (h : CuInv L c done owed tr v cu) (hl : v.launched = false)
    {slot : SlotId} (hres : L.Resident c slot) :
    v.situation slot = .waiting ∧ v.wave = 0 ∧ cu.scheduler.slots slot = {} := by
  refine ⟨?_, ?_, by rw [h.slots, slotsOf, if_neg fun hr => absurd (hl.symm.trans hr.1) (by simp)]⟩
  · obtain ⟨-, -, -, -, hwait⟩ | ⟨hl', -⟩ | ⟨hl', -⟩ := h.phase
    · exact (hwait slot hres).2
    · exact absurd (hl.symm.trans hl') (by simp)
    · exact absurd (hl.symm.trans hl') (by simp)
  · obtain ⟨-, -, -, -, hwait⟩ | ⟨hl', -⟩ | ⟨hl', -⟩ := h.phase
    · exact (hwait slot hres).1
    · exact absurd (hl.symm.trans hl') (by simp)
    · exact absurd (hl.symm.trans hl') (by simp)

theorem CuInv.waits_iff (h : CuInv L c done owed tr v cu) {slot : SlotId}
    (hres : L.Resident c slot) : cu.Waits slot ↔ v.situation slot = .waiting := by
  unfold Cu.Waits
  rw [h.mem_jobSlots hres]
  cases hl : v.launched with
  | false =>
    obtain ⟨hsit, -, hslot⟩ := h.unlaunched hl hres
    simp [hsit, hslot]
  | true =>
    rw [h.slot_eq hl hres]
    cases v.situation slot <;> simp [slotOf]

/-- The wave a CU is in can be read off the barriers of each of its warps. -/
theorem CuInv.barriers_eq (h : CuInv L c done owed tr v cu) {slot : SlotId}
    (hres : L.Resident c slot) :
    barriersExecuted tr (L.warpIdOf c slot) = v.wave + cu.stallsAhead slot := by
  have hstatus (hsit : v.situation slot ≠ .inFlight true) : (cu.status.countP fun status =>
      decide (status.slotId = slot) && decide (status.code = .stalledAtBarrier)) = 0 := by
    rw [List.countP_eq_zero]
    intro status hmem hboth
    obtain hnil | ⟨slot', hjob, hone⟩ := h.flight.status
    · rw [hnil] at hmem
      exact absurd hmem List.not_mem_nil
    · rw [hone, List.mem_singleton] at hmem
      rw [hmem] at hboth
      simp only [Bool.and_eq_true, decide_eq_true_eq] at hboth
      obtain ⟨-, hin⟩ := (h.job slot' true).1 hjob
      exact hsit (hboth.1 ▸ hin)
  rw [(h.warps slot hres).barriers]
  unfold Cu.stallsAhead
  cases hl : v.launched with
  | false =>
    obtain ⟨hsit, -, hslot⟩ := h.unlaunched hl hres
    rw [hstatus (by simp [hsit]), hsit, hslot]
    simp
  | true =>
    rw [h.slot_eq hl hres]
    cases hsit : v.situation slot with
    | waiting => simp [hstatus (by simp [hsit]), slotOf]
    | stalled => simp [hstatus (by simp [hsit]), slotOf]
    | done => simp [hstatus (by simp [hsit]), slotOf]
    | inFlight r =>
      cases r with
      | false => simp [hstatus (by simp [hsit]), slotOf]
      | true =>
        have hjob := (h.job slot true).2 ⟨hres, hsit⟩
        have hst : cu.status = [{ L.waveStatus v.wave with slotId := slot }] := by
          have hflight := h.flight
          rw [hjob] at hflight
          cases hflight with
          | reported _ _ hs => exact hs
        rw [barriersOf_inFlight_true]
        cases hcode : (L.waveStatus v.wave).code <;> simp [slotOf, hst, hcode]

end Views

/-! ## How far a CU is -/

/-- A CU has dispatched the first `k` warps of wave `g`, and all of the waves before. -/
structure Ordered (L : Launch) (c : L.Cus) (cu : Cu) (tr : List Event) (g k : ℕ) : Prop where
  dispatched : L.dispatchedBy c tr = L.scheduleTo c g k
  jobs : L.dispatchedBy c tr = L.finishedBy c tr ++ cu.jobs
  le : k ≤ (L.residentSlots c).length
  waits : ∀ i (hi : i < (L.residentSlots c).length),
    cu.Waits ((L.residentSlots c).get ⟨i, hi⟩) ↔ k ≤ i
  barriers : ∀ slot, L.Resident c slot →
    barriersExecuted tr (L.warpIdOf c slot) = g + cu.stallsAhead slot
  reached : ∀ g' < g, (L.waveStatus g').code = .stalledAtBarrier

section Steps

variable {L : Launch} {c : L.Cus} {done : Bool} {owed g k : ℕ} {tr ev : List Event} {v : CuView}
  {cu cu' : Cu}

theorem resident_get (i : Fin (L.residentSlots c).length) :
    L.Resident c ((L.residentSlots c).get i) := mem_residentSlots.1 (List.get_mem _ _)

/-- The wave of a view is the one it has come to. -/
theorem Ordered.wave (h : Ordered L c cu tr g k) (hv : CuInv L c done owed tr v cu) {slot : SlotId}
    (hres : L.Resident c slot) : v.wave = g := by
  have h1 := h.barriers slot hres
  have h2 := hv.barriers_eq hres
  omega

theorem Ordered.reset (regs : SlotId → RegFile) : Ordered L c (Gpu.resetCu regs) [] 0 0 where
  dispatched := rfl
  jobs := rfl
  le := Nat.zero_le _
  waits i hi := by simp [Cu.Waits, Gpu.resetCu, Cu.jobSlots, Cu.jobs, Pipeline.job]
  barriers slot hres := by simp [Cu.stallsAhead, Gpu.resetCu, barriersExecuted]
  reached g' hg' := absurd hg' (Nat.not_lt_zero _)

section Events

variable (L c tr)

theorem dispatchedBy_dispatched (g : ℕ) (slot : SlotId) :
    L.dispatchedBy c (tr ++ [.dispatched (L.waveDispatch c g slot)]) =
      L.dispatchedBy c tr ++ [L.waveDispatch c g slot] := by
  unfold dispatchedBy
  rw [List.filterMap_append]
  congr 1
  simp [dispatchedBy?, waveDispatch]

theorem finishedBy_dispatched (d : WarpDispatch) :
    L.finishedBy c (tr ++ [.dispatched d]) = L.finishedBy c tr := by
  unfold finishedBy
  rw [List.filterMap_append]
  exact List.append_nil _

theorem barriersExecuted_dispatched (d : WarpDispatch) (id : WarpId) :
    barriersExecuted (tr ++ [.dispatched d]) id = barriersExecuted tr id := by
  simp [barriersExecuted, isStall]

end Events

theorem by?_of_ne {e : Event} (h : ∀ slot, e.warpId ≠ L.warpIdOf c slot) :
    L.dispatchedBy? c e = none ∧ L.finishedBy? c e = none := by
  cases e with
  | dispatched d => exact ⟨if_neg (h d.slotId), rfl⟩
  | finished d status => exact ⟨rfl, if_neg (h d.slotId)⟩

/-- Steps that move no warp of the CU. -/
theorem Ordered.frame (h : Ordered L c cu tr g k)
    (hstate : ∀ slot, L.Resident c slot →
      ((cu'.scheduler.slots slot).state = .stalled ↔ (cu.scheduler.slots slot).state = .stalled) ∧
      ((cu'.scheduler.slots slot).state = .done ↔ (cu.scheduler.slots slot).state = .done))
    (hjobs : cu'.jobs = cu.jobs) (hstatus : cu'.status = cu.status)
    (hev : ∀ e ∈ ev, ∀ slot, e.warpId ≠ L.warpIdOf c slot) : Ordered L c cu' (tr ++ ev) g k := by
  have hnone : L.dispatchedBy c (tr ++ ev) = L.dispatchedBy c tr ∧
      L.finishedBy c (tr ++ ev) = L.finishedBy c tr := by
    unfold dispatchedBy finishedBy
    rw [List.filterMap_append, List.filterMap_append,
      List.filterMap_eq_nil_iff.2 fun e he => (by?_of_ne (hev e he)).1,
      List.filterMap_eq_nil_iff.2 fun e he => (by?_of_ne (hev e he)).2]
    exact ⟨List.append_nil _, List.append_nil _⟩
  have hslots : cu'.jobSlots = cu.jobSlots := by
    unfold Cu.jobSlots
    rw [hjobs, hstatus]
  refine ⟨hnone.1.trans h.dispatched, ?_, h.le, fun i hi => ?_, fun slot hres => ?_, h.reached⟩
  · rw [hnone.1, hnone.2, hjobs]
    exact h.jobs
  · obtain ⟨hstalled, hdone⟩ := hstate _ (resident_get ⟨i, hi⟩)
    rw [← h.waits i hi, Cu.Waits, Cu.Waits, hslots]
    exact and_congr (not_congr hstalled) (and_congr (not_congr hdone) Iff.rfl)
  · rw [(events_frame tr fun e he => hev e he slot).2.1, h.barriers slot hres, Cu.stallsAhead,
      Cu.stallsAhead, hstatus, if_congr (hstate slot hres).1 rfl rfl]

/-- Steps without an event that leave slots, jobs and statuses alone. -/
theorem Ordered.same (h : Ordered L c cu tr g k)
    (hslots : cu'.scheduler.slots = cu.scheduler.slots) (hjobs : cu'.jobs = cu.jobs)
    (hstatus : cu'.status = cu.status) : Ordered L c cu' (tr ++ []) g k :=
  h.frame (fun slot _ => by rw [hslots]; exact ⟨Iff.rfl, Iff.rfl⟩) hjobs hstatus (by simp)

/-! ### The steps of the scheduler -/

/-- A running CU with nothing in flight finds the lowest slot that waits. -/
theorem Ordered.nextReadySlot_eq (h : Ordered L c cu tr g k) (hv : CuInv L c done owed tr v cu)
    (hbusy : cu.scheduler.busyCu = false)
    (hslot : nextReadySlot L.toGpuSize cu.scheduler.slots ≠ L.invalidSlot) :
    ∃ hk : k < (L.residentSlots c).length,
      nextReadySlot L.toGpuSize cu.scheduler.slots = (L.residentSlots c).get ⟨k, hk⟩ := by
  obtain ⟨hl, hres, hsit⟩ := nextReadySlot_waiting hv hbusy hslot
  have hfound : L.slotIds.find? (fun slot => decide ((cu.scheduler.slots slot).state = .ready)) =
      some (nextReadySlot L.toGpuSize cu.scheduler.slots) := by
    unfold nextReadySlot at hslot ⊢
    cases hf : L.slotIds.find? fun slot => (cu.scheduler.slots slot).state = .ready with
    | none => exact absurd (by rw [hf]; rfl) hslot
    | some slot => rfl
  have hfind : (L.residentSlots c).find?
      (fun slot => decide ((cu.scheduler.slots slot).state = .ready)) =
        some (nextReadySlot L.toGpuSize cu.scheduler.slots) := by
    unfold residentSlots
    rw [List.find?_filter, ← hfound]
    congr 1
    funext slot
    by_cases hready : (cu.scheduler.slots slot).state = .ready
    · have hslot := hready
      rw [hv.slots] at hslot
      simp [(slotsOf_ready hslot).2.1, hready]
    · simp [hready]
  obtain ⟨-, i, hi, heq, hbefore⟩ := List.find?_eq_some_iff_getElem.1 hfind
  have hki : k ≤ i := (h.waits i hi).1 ((hv.waits_iff (resident_get ⟨i, hi⟩)).2 (by
    rw [List.get_eq_getElem, heq, hsit]))
  have hk : k < (L.residentSlots c).length := by omega
  refine ⟨hk, ?_⟩
  obtain rfl : k = i := by
    by_contra hne
    have hwaits := (h.waits k hk).2 le_rfl
    rw [hv.waits_iff (resident_get ⟨k, hk⟩)] at hwaits
    have hnot := hbefore k (by omega)
    have hstate := hv.slot_eq hl (resident_get ⟨k, hk⟩)
    rw [hwaits] at hstate
    rw [List.get_eq_getElem] at hstate
    simp [hstate, slotOf] at hnot
  exact heq.symm

theorem Ordered.dispatchRound (h : Ordered L c cu tr g k) (hv : CuInv L c done owed tr v cu)
    (hs : cu.dispatchRound L = some (cu', ev)) : ∃ k', Ordered L c cu' (tr ++ ev) g k' := by
  unfold Cu.dispatchRound at hs
  dsimp only at hs
  split at hs
  · next hgo =>
    simp only [Bool.and_eq_true, Bool.not_eq_true', bne_iff_ne] at hgo
    obtain ⟨queue, hq, heq⟩ := Option.map_eq_some_iff.1 hs
    obtain ⟨rfl, rfl⟩ := Prod.mk.inj heq
    obtain rfl := push_eq_some hq
    obtain ⟨hk, hnext⟩ := h.nextReadySlot_eq hv hgo.1 hgo.2
    obtain ⟨hl, hres, hsit⟩ := nextReadySlot_waiting hv hgo.1 hgo.2
    set slot := nextReadySlot L.toGpuSize cu.scheduler.slots with hslot
    have hval : cu.scheduler.slots slot = L.slotOf c slot g .waiting := by
      rw [hv.slot_eq hl hres, hsit, h.wave hv hres]
    have hd : (buildDispatch cu.scheduler.slots slot).1 = L.waveDispatch c g slot := by
      simp [buildDispatch, hval, slotOf, waveDispatch]
    have hstate (x : SlotId) : ((buildDispatch cu.scheduler.slots slot).2 x).state =
        (cu.scheduler.slots x).state := by
      by_cases hx : x = slot
      · subst hx
        simp [buildDispatch]
      · simp [buildDispatch, hx]
    have hempty : cu.jobSlots = [] := by
      have hnot := mt hv.busyCu.2 (by rw [hgo.1]; exact Bool.false_ne_true)
      have hnone : v.job = none := Option.not_isSome_iff_eq_none.1 fun hs => hnot (.inl hs)
      rw [hv.flight.jobSlots, hnone]
      rfl
    rw [hd]
    refine ⟨k + 1, ?_, ?_, hk, fun i hi => ?_, fun x hx => ?_, h.reached⟩
    · rw [dispatchedBy_dispatched, h.dispatched, scheduleTo_succ hk, hnext]
    · rw [dispatchedBy_dispatched, finishedBy_dispatched, h.jobs, List.append_assoc]
      simp [Cu.jobs]
    · obtain ⟨hp, hdispatch, hstatus⟩ : cu.pipeline.job = [] ∧ cu.dispatch = [] ∧
          cu.status = [] := by simpa [Cu.jobSlots, Cu.jobs] using hempty
      have hold := h.waits i hi
      have hslots : (L.residentSlots c).get ⟨i, hi⟩ = slot ↔ i = k := by
        rw [hnext, nodup_residentSlots.get_inj_iff, Fin.mk.injEq]
      simp only [Cu.Waits, hempty, List.not_mem_nil, not_false_eq_true, and_true] at hold
      simp only [Cu.Waits, hstate, Cu.jobSlots, Cu.jobs, hp, hdispatch, hstatus, List.nil_append,
        List.map_cons, List.map_nil, List.append_nil, List.mem_singleton, ← and_assoc, hold,
        waveDispatch, hslots]
      omega
    · rw [barriersExecuted_dispatched, h.barriers x hx]
      simp only [Cu.stallsAhead, hstate]
  · obtain ⟨rfl, rfl⟩ := Prod.mk.inj (Option.some.inj hs)
    exact ⟨k, h.same rfl rfl rfl⟩

/-- The status of a warp in flight is recorded in its slot. -/
theorem Ordered.recorded {status : WarpStatus} (h : Ordered L c cu tr g k)
    (hst : cu.status = [status]) (hready : (cu.scheduler.slots status.slotId).state = .ready)
    (hself : (cu'.scheduler.slots status.slotId).state =
      if status.code = .stalledAtBarrier then .stalled else .done)
    (hother : ∀ x, x ≠ status.slotId → cu'.scheduler.slots x = cu.scheduler.slots x)
    (hjobs : cu'.jobs = cu.jobs) (hstatus : cu'.status = []) :
    Ordered L c cu' (tr ++ []) g k := by
  rw [List.append_nil]
  refine ⟨h.dispatched, hjobs ▸ h.jobs, h.le, fun i hi => ?_, fun x hx => ?_, h.reached⟩
  · rw [← h.waits i hi]
    unfold Cu.Waits Cu.jobSlots
    rw [hjobs, hst, hstatus]
    by_cases hx : (L.residentSlots c).get ⟨i, hi⟩ = status.slotId
    · -- it does not wait, before or after
      rw [hx, hself]
      split <;> simp
    · rw [hother _ hx, List.map_nil, List.append_nil, List.map_singleton, List.mem_append,
        List.mem_singleton, or_iff_left hx]
  · rw [h.barriers x hx]
    unfold Cu.stallsAhead
    rw [hst, hstatus]
    by_cases hx : x = status.slotId
    · subst hx
      rw [hself, hready]
      by_cases hcode : status.code = .stalledAtBarrier <;> simp [hcode]
    · rw [hother x hx]
      simp [Ne.symm hx]

theorem Ordered.readStatus (h : Ordered L c cu tr g k) (hv : CuInv L c done owed tr v cu)
    (hpc : cu.scheduler.pc = .status) : Ordered L c cu.readStatus (tr ++ []) g k := by
  obtain ⟨hl, -⟩ := hv.running (by simp [hpc]) (by simp [hpc])
  unfold Cu.readStatus
  split
  · exact h.same rfl rfl rfl
  · next status rest hst =>
    obtain hnil | ⟨slot, hjob, hone⟩ := hv.flight.status
    · exact absurd (hst.symm.trans hnil) (by simp)
    obtain ⟨hstatus, rfl⟩ := List.cons.inj (hst.symm.trans hone)
    obtain ⟨hres, hsit⟩ := (hv.job slot true).1 hjob
    have hslot : status.slotId = slot := by rw [hstatus]
    have hval := hv.slot_eq hl hres
    rw [hsit] at hval
    refine h.recorded hst (by rw [hslot, hval]; rfl) ?_ (fun x hx => Function.update_of_ne hx _ _)
      rfl rfl
    simp only [recordResult, Function.update_self, slotWithResult]
    cases status.code <;> rfl

/-- A release takes the CU to the next wave. -/
theorem Ordered.released (h : Ordered L c cu tr g k) (hv : CuInv L c done owed tr v cu)
    (hall : ∀ slot, L.Resident c slot → v.situation slot = .stalled) (hl : v.launched = true)
    (hready : ∀ slot, L.Resident c slot → (cu'.scheduler.slots slot).state = .ready)
    (hjobs : cu'.jobs = cu.jobs) (hstatus : cu'.status = cu.status) :
    ∃ g' k', Ordered L c cu' (tr ++ []) g' k' := by
  rw [List.append_nil]
  have hwaits (i : ℕ) (hi : i < (L.residentSlots c).length) :
      ¬ cu.Waits ((L.residentSlots c).get ⟨i, hi⟩) := by
    rw [hv.waits_iff (resident_get ⟨i, hi⟩), hall _ (resident_get ⟨i, hi⟩)]
    simp
  obtain hnone | hsome : (L.residentSlots c).length = 0 ∨ 0 < (L.residentSlots c).length := by omega
  · have hres (slot : SlotId) : ¬ L.Resident c slot := fun hr => by
      have := List.length_pos_of_mem (mem_residentSlots.2 hr)
      omega
    exact ⟨g, k, h.dispatched, hjobs ▸ h.jobs, h.le, fun i hi => absurd hi (by omega),
      fun slot hr => absurd hr (hres slot), h.reached⟩
  · obtain rfl : k = (L.residentSlots c).length := by
      have hle := h.le
      by_contra hne
      exact hwaits k (by omega) ((h.waits k (by omega)).2 le_rfl)
    have hfirst := resident_get (L := L) (c := c) ⟨0, hsome⟩
    have hcode := hv.stalledCode _ hfirst (hall _ hfirst)
    rw [h.wave hv hfirst] at hcode
    have hslots : cu'.jobSlots = cu.jobSlots := by
      unfold Cu.jobSlots
      rw [hjobs, hstatus]
    refine ⟨g + 1, 0, h.dispatched.trans (scheduleTo_full g), hjobs ▸ h.jobs, Nat.zero_le _,
      fun i hi => ?_, fun slot hr => ?_, fun g' hg' => ?_⟩
    · have hres := resident_get (L := L) (c := c) ⟨i, hi⟩
      refine iff_of_true ⟨by rw [hready _ hres]; simp, by rw [hready _ hres]; simp, ?_⟩
        (Nat.zero_le _)
      rw [hslots, hv.mem_jobSlots hres, hall _ hres]
      simp
    · have hstall := h.barriers slot hr
      have hval := hv.slot_eq hl hr
      rw [hall slot hr] at hval
      unfold Cu.stallsAhead at hstall ⊢
      rw [hready slot hr, hstatus]
      rw [hval] at hstall
      simp only [slotOf, if_true] at hstall
      rw [hstall]
      simp
      omega
    · obtain hlt | rfl := Nat.lt_succ_iff_lt_or_eq.1 hg'
      · exact h.reached g' hlt
      · exact hcode

theorem Ordered.readSignal (h : Ordered L c cu tr g k) (hv : CuInv L c done owed tr v cu)
    (hpc : cu.scheduler.pc = .signal) :
    ∃ g' k', Ordered L c (cu.readSignal L) (tr ++ []) g' k' := by
  obtain ⟨hl, -⟩ := hv.running (by simp [hpc]) (by simp [hpc])
  cases hsig : cu.port.signals with
  | nil => exact ⟨g, k, h.same (by simp [Cu.readSignal, hsig, Cu.setScheduler])
      (by simp [Cu.readSignal, hsig, Cu.setScheduler, Cu.jobs])
      (by simp [Cu.readSignal, hsig, Cu.setScheduler])⟩
  | cons sig rest =>
    obtain rfl | ⟨rfl, -⟩ := hv.signals sig (by rw [hsig]; exact List.mem_cons_self)
    · have hne : cu.releases + owed ≠ 0 := by
        rw [Cu.releases, hsig, List.count_cons_self]
        omega
      have hall := hv.releaseStalled hne
      refine h.released hv hall hl (fun slot hr => ?_) (by simp [Cu.readSignal, hsig, Cu.jobs])
        (by simp [Cu.readSignal, hsig])
      have hval := hv.slot_eq hl hr
      rw [hall slot hr] at hval
      simp [Cu.readSignal, hsig, releaseSignal, releaseBarrierSlots, releasedSlot, hr.1, hval,
        slotOf]
    · exact ⟨g, k, h.same (by simp [Cu.readSignal, hsig, doneSignal])
        (by simp [Cu.readSignal, hsig, Cu.jobs]) (by simp [Cu.readSignal, hsig])⟩

theorem Ordered.schedulerStep {start : Bool} (h : Ordered L c cu tr g k)
    (hv : CuInv L c done owed tr v cu) (hs : cu.schedulerStep L c start = some (cu', ev)) :
    ∃ g' k', Ordered L c cu' (tr ++ ev) g' k' := by
  unfold Cu.schedulerStep at hs
  dsimp only at hs
  split at hs
  · split at hs
    · exact ⟨g, h.dispatchRound hv hs⟩
    · split at hs <;> obtain ⟨rfl, rfl⟩ := Prod.mk.inj (Option.some.inj hs) <;>
        exact ⟨g, k, h.same rfl rfl rfl⟩
  · next hpc =>
    split at hs
    · obtain ⟨rfl, rfl⟩ := Prod.mk.inj (Option.some.inj hs)
      exact ⟨g, k, h.same rfl rfl rfl⟩
    · obtain ⟨rfl, rfl⟩ := Prod.mk.inj (Option.some.inj hs)
      obtain ⟨hl, -, hwait⟩ := hv.idle (.inl hpc)
      refine ⟨g, k, h.frame (fun slot hr => ?_) rfl rfl (by simp)⟩
      obtain ⟨-, -, hempty⟩ := hv.unlaunched hl hr
      have hlaunched : launchSlots L.toGpuSize cu.scheduler.slots (cuId c) L.totalWarps
          L.warpIdOffset slot = ⟨L.warpIdOf c slot, 0, 0, .ready, true⟩ := by
        rw [launchSlots_eq, if_pos hr.1, if_pos hr]
      dsimp only
      rw [hlaunched, hempty]
      simp
  · next hpc =>
    obtain ⟨rfl, rfl⟩ := Prod.mk.inj (Option.some.inj hs)
    exact ⟨g, k, h.readStatus hv hpc⟩
  · obtain ⟨queue, -, heq⟩ := Option.map_eq_some_iff.1 hs
    obtain ⟨rfl, rfl⟩ := Prod.mk.inj heq
    exact ⟨g, k, h.same rfl rfl rfl⟩
  · next hpc =>
    obtain ⟨rfl, rfl⟩ := Prod.mk.inj (Option.some.inj hs)
    exact h.readSignal hv hpc

/-! ### The steps of the pipeline -/

/-- The pipeline executes the oldest dispatch to its end. -/
theorem Ordered.finished {d : WarpDispatch} {status : WarpStatus} (h : Ordered L c cu tr g k)
    (hid : d.warpId = L.warpIdOf c d.slotId) (hjobs : cu.jobs = d :: cu'.jobs)
    (hnil : cu'.jobs = []) (hst : cu.status = []) (hstatus : cu'.status = [status])
    (hslot : status.slotId = d.slotId) (hslots : cu'.scheduler.slots = cu.scheduler.slots) :
    Ordered L c cu' (tr ++ [.finished d status]) g k := by
  have hdispatched : L.dispatchedBy c (tr ++ [.finished d status]) = L.dispatchedBy c tr := by
    unfold dispatchedBy
    rw [List.filterMap_append]
    exact List.append_nil _
  have hfinished : L.finishedBy c (tr ++ [.finished d status]) = L.finishedBy c tr ++ [d] := by
    unfold finishedBy
    rw [List.filterMap_append]
    congr 1
    simp [finishedBy?, hid]
  have hjobSlots : cu'.jobSlots = cu.jobSlots := by
    unfold Cu.jobSlots
    rw [hjobs, hnil, hst, hstatus]
    simp [hslot]
  refine ⟨hdispatched.trans h.dispatched, ?_, h.le, fun i hi => ?_, fun slot hr => ?_, h.reached⟩
  · rw [hdispatched, hfinished, h.jobs, hjobs, List.append_assoc]
    rfl
  · rw [← h.waits i hi, Cu.Waits, Cu.Waits, hslots, hjobSlots]
  · have hold := h.barriers slot hr
    have hcount : barriersExecuted (tr ++ [.finished d status]) (L.warpIdOf c slot) =
        barriersExecuted tr (L.warpIdOf c slot) +
          if status.slotId = slot ∧ status.code = .stalledAtBarrier then 1 else 0 := by
      have hsame : d.warpId = L.warpIdOf c slot ↔ status.slotId = slot := by
        rw [hid, hslot]
        exact ⟨fun heq => (warpIdOf_inj heq).2, fun heq => by rw [heq]⟩
      rw [barriersExecuted, List.countP_append, List.countP_singleton, barriersExecuted]
      simp [isStall, hsame]
    rw [hcount, hold]
    unfold Cu.stallsAhead
    rw [hslots, hst, hstatus, List.countP_singleton]
    simp
    omega

theorem Ordered.pipelineStep (h : Ordered L c cu tr g k) (hv : CuInv L c done owed tr v cu)
    (hs : cu.pipelineStep L c = some (cu', ev)) : Ordered L c cu' (tr ++ ev) g k := by
  have hflight := hv.flight
  unfold Cu.pipelineStep at hs
  split at hs
  · next hp =>
    split at hs
    · obtain ⟨rfl, rfl⟩ := Prod.mk.inj (Option.some.inj hs)
      exact h.same rfl rfl rfl
    · next d rest hd =>
      obtain ⟨rfl, rfl⟩ := Prod.mk.inj (Option.some.inj hs)
      exact h.same rfl (by simp [Cu.jobs, Pipeline.job, hp, hd]) rfl
  · next d req k hp =>
    obtain ⟨queue, hq, heq⟩ := Option.map_eq_some_iff.1 hs
    obtain ⟨rfl, rfl⟩ := Prod.mk.inj heq
    exact h.same rfl (by simp [Cu.jobs, Pipeline.job, hp]) rfl
  · next d result hp =>
    obtain ⟨queue, hq, heq⟩ := Option.map_eq_some_iff.1 hs
    obtain ⟨rfl, rfl⟩ := Prod.mk.inj heq
    obtain rfl := push_eq_some hq
    obtain ⟨slot, hjob, hd, hst⟩ : ∃ slot, L.IsJob c v.wave d slot ∧ cu.dispatch = [] ∧
        cu.status = [] := by
      generalize v.job = job at hflight
      cases hflight with
      | nothing _ hp' => exact absurd (hp.symm.trans hp') (by simp)
      | queued _ _ hp' => exact absurd (hp.symm.trans hp') (by simp)
      | running hjob hd hp' _ hst =>
        obtain ⟨rfl, rfl⟩ := Pipeline.running.inj (hp.symm.trans hp')
        exact ⟨_, hjob, hd, hst⟩
      | waiting _ _ hp' => exact absurd (hp.symm.trans hp') (by simp)
      | reported _ hp' => exact absurd (hp.symm.trans hp') (by simp)
    exact h.finished (by rw [hjob.warpId, hjob.slotId])
      (by simp [Cu.jobs, Cu.setRegs, Pipeline.job, hp, hd])
      (by simp [Cu.jobs, Cu.setRegs, Pipeline.job, hd]) hst (by simp [hst]) rfl rfl
  · next d k hp =>
    split at hs
    · exact absurd hs (by simp)
    · obtain ⟨rfl, rfl⟩ := Prod.mk.inj (Option.some.inj hs)
      exact h.same rfl (by simp [Cu.jobs, Pipeline.job, hp]) rfl

end Steps

/-! ## Runs -/

section Runs

variable {L : Launch} {s : Gpu L} {tr : List Event}

/-- Events of one CU are not events of another. -/
theorem Ordered.other {c c' : L.Cus} {cu : Cu} {g k : ℕ} {ev : List Event}
    (h : Ordered L c cu tr g k) (hc : c' ≠ c)
    (hev : ∀ e ∈ ev, ∃ slot, L.Resident c' slot ∧ e.warpId = L.warpIdOf c' slot) :
    Ordered L c cu (tr ++ ev) g k :=
  h.frame (fun _ _ => ⟨Iff.rfl, Iff.rfl⟩) rfl rfl fun e he slot hid => by
    obtain ⟨slot', -, hid'⟩ := hev e he
    exact hc (warpIdOf_inj (hid'.symm.trans hid)).1

theorem ordered_setCu {c : L.Cus} {cu : Cu} {ev : List Event}
    (h : ∀ c, ∃ g k, Ordered L c (s.cus c) tr g k)
    (hcu : ∃ g k, Ordered L c cu (tr ++ ev) g k)
    (hev : ∀ e ∈ ev, ∃ slot, L.Resident c slot ∧ e.warpId = L.warpIdOf c slot) (c' : L.Cus) :
    ∃ g k, Ordered L c' ((s.setCu c cu).cus c') (tr ++ ev) g k := by
  by_cases hc : c' = c
  · subst hc
    simpa [Gpu.setCu] using hcu
  · obtain ⟨g, k, hord⟩ := h c'
    rw [setCu_of_ne _ hc]
    exact ⟨g, k, hord.other (Ne.symm hc) hev⟩

/-- In every run each CU dispatches in the order of its schedule. -/
theorem ordered_run (h : LaunchRun L s tr) (hcap : L.totalWarps.toNat ≤ L.capacity) :
    ∀ c, ∃ g k, Ordered L c (s.cus c) tr g k := by
  refine h.invariant (fun s tr => ∀ c, ∃ g k, Ordered L c (s.cus c) tr g k)
    (fun s hreset _ c => ?_) fun s tr a s' ev hrun hinv hs hone => ?_
  · obtain ⟨regs, hcu⟩ := hreset.2 c
    exact ⟨0, 0, hcu ▸ Ordered.reset regs⟩
  · obtain ⟨v, g₀, hv⟩ := LaunchInv.run hrun hcap
    cases a with
    | setStart b =>
      obtain ⟨rfl, rfl⟩ := Prod.mk.inj (Option.some.inj hs)
      exact fun c => by rw [List.append_nil]; exact hinv c
    | programLoaded c =>
      simp only [gpuSystem, Gpu.step] at hs
      split at hs
      · obtain ⟨rfl, rfl⟩ := Prod.mk.inj (Option.some.inj hs)
        obtain ⟨g, k, hord⟩ := hinv c
        exact ordered_setCu hinv ⟨g, k, hord.same rfl rfl rfl⟩ (by simp)
      · exact absurd hs (by simp)
    | scheduler c =>
      obtain ⟨r, hr, heq⟩ := Option.map_eq_some_iff.1 hs
      obtain ⟨rfl, rfl⟩ := Prod.mk.inj heq
      obtain ⟨g, k, hord⟩ := hinv c
      have hstart : s.start = true → s.core.done = false := fun hst => by
        cases hd : s.core.done with
        | false => rfl
        | true => exact absurd (hst.symm.trans (hrun.holds hd)) (by simp)
      obtain ⟨-, -, -, -, -, hev⟩ := (hv.cus c).schedulerStep hstart hr
      exact ordered_setCu hinv (hord.schedulerStep (hv.cus c) hr) hev
    | pipeline c =>
      obtain ⟨r, hr, heq⟩ := Option.map_eq_some_iff.1 hs
      obtain ⟨rfl, rfl⟩ := Prod.mk.inj heq
      obtain ⟨g, k, hord⟩ := hinv c
      obtain ⟨-, -, -, -, -, hev⟩ := (hv.cus c).pipelineStep hr
      exact ordered_setCu hinv ⟨g, k, hord.pipelineStep (hv.cus c) hr⟩ hev
    | barrier =>
      obtain ⟨r, -, heq⟩ := Option.map_eq_some_iff.1 hs
      obtain ⟨rfl, rfl⟩ := Prod.mk.inj heq
      intro c
      obtain ⟨g, k, hord⟩ := hinv c
      exact ⟨g, k, hord.same rfl rfl rfl⟩
    | takeRequest c =>
      simp only [gpuSystem, Gpu.step] at hs
      split at hs
      · exact absurd hs (by simp)
      · obtain ⟨rfl, rfl⟩ := Prod.mk.inj (Option.some.inj hs)
        obtain ⟨g, k, hord⟩ := hinv c
        exact ordered_setCu hinv ⟨g, k, hord.same rfl rfl rfl⟩ (by simp)
    | giveResponse c resp =>
      obtain ⟨r, -, heq⟩ := Option.map_eq_some_iff.1 hs
      obtain ⟨rfl, rfl⟩ := Prod.mk.inj heq
      obtain ⟨g, k, hord⟩ := hinv c
      exact ordered_setCu hinv ⟨g, k, hord.same rfl rfl rfl⟩ (by simp)

end Runs

end RiscvGpgpu.Hls
