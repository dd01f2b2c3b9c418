import RiscvGpgpu.Hls.Waves

/-!
# The state of a launch

What a launch is about, away from streams and counters: every warp is waiting for its dispatch, in
flight, stalled or done, and all warps of a CU are in one wave. `CuInv` reads this off the processes
and streams of a CU and off the events so far.
-/

namespace RiscvGpgpu.Hls

/-! ## Events of a warp -/

def isFreshDispatch (id : WarpId) : Event → Bool
  | .dispatched d => d.warpId = id && d.freshLaunch
  | .finished _ _ => false

def isStall (id : WarpId) : Event → Bool
  | .dispatched _ => false
  | .finished d status => d.warpId = id && status.code = .stalledAtBarrier

/-- The resume pc of a stall of the warp. -/
def stallPc (id : WarpId) : Event → Option (BitVec 16)
  | .dispatched _ => none
  | .finished d status =>
    if d.warpId = id ∧ status.code = .stalledAtBarrier then some status.resumePc else none

/-- How often the warp has been dispatched afresh. -/
def freshDispatches (tr : List Event) (id : WarpId) : ℕ := tr.countP (isFreshDispatch id)

/-- How many `BARRIER`s the warp has executed. -/
def barriersExecuted (tr : List Event) (id : WarpId) : ℕ := tr.countP (isStall id)

/-- The resume pc of the last `STALLED` result of the warp. -/
def lastResumePc (tr : List Event) (id : WarpId) : Option (BitVec 16) :=
  (tr.filterMap (stallPc id)).getLast?

section Events

variable {tr ev : List Event} {id : WarpId}

variable (tr) in
/-- Events of other warps change nothing. -/
theorem events_frame (h : ∀ e ∈ ev, e.warpId ≠ id) :
    freshDispatches (tr ++ ev) id = freshDispatches tr id ∧
      barriersExecuted (tr ++ ev) id = barriersExecuted tr id ∧
      lastResumePc (tr ++ ev) id = lastResumePc tr id := by
  have hfresh : ev.countP (isFreshDispatch id) = 0 := by
    rw [List.countP_eq_zero]
    intro e he
    have := h e he
    cases e <;> simp_all [isFreshDispatch, Event.warpId]
  have hstall : ev.countP (isStall id) = 0 := by
    rw [List.countP_eq_zero]
    intro e he
    have := h e he
    cases e <;> simp_all [isStall, Event.warpId]
  have hpc : ev.filterMap (stallPc id) = [] := by
    rw [List.filterMap_eq_nil_iff]
    intro e he
    have := h e he
    cases e <;> simp_all [stallPc, Event.warpId]
  refine ⟨?_, ?_, ?_⟩
  · rw [freshDispatches, List.countP_append, hfresh, Nat.add_zero, freshDispatches]
  · rw [barriersExecuted, List.countP_append, hstall, Nat.add_zero, barriersExecuted]
  · rw [lastResumePc, List.filterMap_append, hpc, List.append_nil, lastResumePc]

variable (tr) in
theorem events_dispatched (d : WarpDispatch) :
    freshDispatches (tr ++ [.dispatched d]) d.warpId =
        freshDispatches tr d.warpId + (if d.freshLaunch then 1 else 0) ∧
      barriersExecuted (tr ++ [.dispatched d]) d.warpId = barriersExecuted tr d.warpId ∧
      lastResumePc (tr ++ [.dispatched d]) d.warpId = lastResumePc tr d.warpId := by
  refine ⟨?_, ?_, ?_⟩
  · rw [freshDispatches, List.countP_append, freshDispatches]
    cases hf : d.freshLaunch <;> simp [isFreshDispatch, hf]
  · simp [barriersExecuted, isStall]
  · simp [lastResumePc, stallPc]

variable (tr) in
theorem events_finished (d : WarpDispatch) (status : WarpStatus) :
    freshDispatches (tr ++ [.finished d status]) d.warpId = freshDispatches tr d.warpId ∧
      barriersExecuted (tr ++ [.finished d status]) d.warpId =
        barriersExecuted tr d.warpId + (if status.code = .stalledAtBarrier then 1 else 0) ∧
      lastResumePc (tr ++ [.finished d status]) d.warpId =
        if status.code = .stalledAtBarrier then some status.resumePc
        else lastResumePc tr d.warpId := by
  refine ⟨?_, ?_, ?_⟩
  · simp [freshDispatches, isFreshDispatch]
  · rw [barriersExecuted, List.countP_append, barriersExecuted]
    cases hc : status.code <;> simp [isStall, hc]
  · cases hc : status.code <;> simp [lastResumePc, stallPc, hc]

end Events

/-! ## Situations -/

/-- What becomes of a warp within a wave; in flight, its status may be reported already. -/
inductive Situation where
  | waiting
  | inFlight (reported : Bool)
  | stalled
  | done
  deriving DecidableEq, Repr

/-- A CU, as a launch sees it: the wave its warps are in, their situations, the warp in flight, and
how many stalls of this wave and completions the barrier arbiter has counted. -/
structure CuView where
  launched : Bool
  wave : ℕ
  situation : SlotId → Situation
  job : Option (SlotId × Bool)
  stalledSeen : ℕ
  doneSeen : ℕ

namespace Launch

variable (L : Launch)

/-- The barrier that wave `g` has behind it. -/
def waveBarrier : ℕ → BarrierId
  | 0 => 0
  | g + 1 => (L.waveStatus g).barrierId

/-- The slot of a warp in wave `g`. -/
def slotOf (c : L.Cus) (slot : SlotId) (g : ℕ) : Situation → WarpSlot
  | .waiting => ⟨L.warpIdOf c slot, L.wavePc g, L.waveBarrier g, .ready, g = 0⟩
  | .inFlight _ => ⟨L.warpIdOf c slot, L.wavePc g, L.waveBarrier g, .ready, false⟩
  | .stalled => ⟨L.warpIdOf c slot, L.wavePc (g + 1), L.waveBarrier (g + 1), .stalled, false⟩
  | .done => ⟨L.warpIdOf c slot, L.wavePc g, L.waveBarrier g, .done, false⟩

/-- The slots of a CU. -/
def slotsOf (c : L.Cus) (v : CuView) : Slots := fun slot =>
  if v.launched ∧ L.Resident c slot then L.slotOf c slot v.wave (v.situation slot) else {}

/-- The barriers a warp has executed in wave `g`. -/
def barriersOf (g : ℕ) : Situation → ℕ
  | .waiting | .inFlight false | .done => g
  | .inFlight true => if (L.waveStatus g).code = .stalledAtBarrier then g + 1 else g
  | .stalled => g + 1

@[simp] theorem barriersOf_waiting (g : ℕ) : L.barriersOf g .waiting = g := rfl

@[simp] theorem barriersOf_inFlight_false (g : ℕ) : L.barriersOf g (.inFlight false) = g := rfl

@[simp] theorem barriersOf_inFlight_true (g : ℕ) : L.barriersOf g (.inFlight true) =
    if (L.waveStatus g).code = .stalledAtBarrier then g + 1 else g := rfl

@[simp] theorem barriersOf_stalled (g : ℕ) : L.barriersOf g .stalled = g + 1 := rfl

@[simp] theorem barriersOf_done (g : ℕ) : L.barriersOf g .done = g := rfl

/-- The situation of a warp after wave `g`. -/
def outcome (g : ℕ) : Situation :=
  if (L.waveStatus g).code = .stalledAtBarrier then .stalled else .done

theorem outcome_cases (g : ℕ) :
    (L.outcome g = .stalled ∧ (L.waveStatus g).code = .stalledAtBarrier) ∨
      (L.outcome g = .done ∧ (L.waveStatus g).code = .complete) := by
  unfold outcome
  cases (L.waveStatus g).code with
  | complete => exact .inr ⟨rfl, rfl⟩
  | stalledAtBarrier => exact .inl ⟨rfl, rfl⟩

/-- Recording the result of a wave ends the wave for the warp. -/
theorem slotWithResult_waveStatus (c : L.Cus) (slot : SlotId) (g : ℕ) :
    slotWithResult (L.slotOf c slot g (.inFlight true)) { L.waveStatus g with slotId := slot } =
      L.slotOf c slot g (L.outcome g) := by
  unfold slotWithResult
  obtain ⟨ho, hcode⟩ | ⟨ho, hcode⟩ := L.outcome_cases g <;> rw [ho] <;> simp only [hcode] <;> rfl

/-- The events of a warp fit its situation. -/
structure WarpEvents (c : L.Cus) (slot : SlotId) (g : ℕ) (sit : Situation) (tr : List Event) :
    Prop where
  fresh : freshDispatches tr (L.warpIdOf c slot) = if (L.slotOf c slot g sit).fresh then 0 else 1
  barriers : barriersExecuted tr (L.warpIdOf c slot) = L.barriersOf g sit
  resumePc : lastResumePc tr (L.warpIdOf c slot) =
    if barriersExecuted tr (L.warpIdOf c slot) = 0 then none
    else some (L.wavePc (barriersExecuted tr (L.warpIdOf c slot)))

/-- A dispatch of the warp of a slot in wave `g`. -/
structure IsJob (c : L.Cus) (g : ℕ) (d : WarpDispatch) (slot : SlotId) : Prop where
  slotId : d.slotId = slot
  warpId : d.warpId = L.warpIdOf c slot
  resumePc : d.resumePc = L.wavePc g

/-- Where the warp in flight is. -/
inductive InFlight (c : L.Cus) (g : ℕ) (cu : Cu) : Option (SlotId × Bool) → Prop where
  | nothing (hd : cu.dispatch = []) (hp : cu.pipeline = .idle) (hs : cu.status = []) :
      InFlight c g cu none
  | queued {slot : SlotId} {d : WarpDispatch} (hjob : L.IsJob c g d slot) (hd : cu.dispatch = [d])
      (hp : cu.pipeline = .idle) (hs : cu.status = []) : InFlight c g cu (some (slot, false))
  | running {slot : SlotId} {d : WarpDispatch} {p : Interact MemReq MemResp WarpResult}
      (hjob : L.IsJob c g d slot) (hd : cu.dispatch = []) (hp : cu.pipeline = .running d p)
      (hstatus : p.AllLeaves fun r => r.status = L.waveStatus g) (hs : cu.status = []) :
      InFlight c g cu (some (slot, false))
  | waiting {slot : SlotId} {d : WarpDispatch} {k : MemResp → Interact MemReq MemResp WarpResult}
      (hjob : L.IsJob c g d slot) (hd : cu.dispatch = []) (hp : cu.pipeline = .waiting d k)
      (hstatus : ∀ resp, (k resp).AllLeaves fun r => r.status = L.waveStatus g)
      (hs : cu.status = []) : InFlight c g cu (some (slot, false))
  | reported {slot : SlotId} (hd : cu.dispatch = []) (hp : cu.pipeline = .idle)
      (hs : cu.status = [{ L.waveStatus g with slotId := slot }]) :
      InFlight c g cu (some (slot, true))

/-- The warps of a CU in a situation. -/
def countIn (c : L.Cus) (v : CuView) (sit : Situation) : ℕ :=
  ((L.residents c).filter fun slot => v.situation slot = sit).card

end Launch

/-! ## Signals and events between a CU and the arbiter -/

/-- The events of a code on their way to the arbiter. -/
def Cu.eventsInFlight (cu : Cu) (code : WarpStatusCode) : ℕ :=
  cu.port.events.count code + if cu.scheduler.pc = .event code then 1 else 0

/-- The releases on their way to the CU. -/
def Cu.releases (cu : Cu) : ℕ := cu.port.signals.count releaseSignal

/-- The releases that `barrierCoreN` is about to send to the CU. -/
def BarrierCore.owed (core : BarrierCore) (c : ℕ) : ℕ :=
  match core.pc with
  | .signalRelease i => if i ≤ c then 1 else 0
  | _ => 0

/-- How far the scheduler of a CU is. -/
inductive Phase (L : Launch) (c : L.Cus) (done : Bool) (core : SchedulerCore) (v : CuView) :
    Prop where
  | idle (hl : v.launched = false) (hb : core.busyCuScheduler = false)
      (hpc : core.pc = .head ∨ core.pc = .armed) (hjob : v.job = none)
      (hwait : ∀ slot, L.Resident c slot → v.wave = 0 ∧ v.situation slot = .waiting)
  | running (hl : v.launched = true) (hb : core.busyCuScheduler = true) (hpc : core.pc ≠ .armed)
  | finished (hl : v.launched = true) (hb : core.busyCuScheduler = false) (hpc : core.pc = .head)
      (hdone : done = true)

/-- A CU is as its view says, with `owed` more releases to come and `done` the arbiter's. -/
structure CuInv (L : Launch) (c : L.Cus) (done : Bool) (owed : ℕ) (tr : List Event) (v : CuView)
    (cu : Cu) : Prop where
  slots : cu.scheduler.slots = L.slotsOf c v
  phase : Phase L c done cu.scheduler v
  flight : L.InFlight c v.wave cu v.job
  job : ∀ slot r, v.job = some (slot, r) ↔ L.Resident c slot ∧ v.situation slot = .inFlight r
  busyCu : cu.scheduler.busyCu = true ↔ v.job.isSome = true ∨ ∃ code, cu.scheduler.pc = .event code
  eventJob : ∀ code, cu.scheduler.pc = .event code → v.job = none
  stalledCode : ∀ slot, L.Resident c slot → v.situation slot = .stalled →
    (L.waveStatus v.wave).code = .stalledAtBarrier
  doneCode : ∀ slot, L.Resident c slot → v.situation slot = .done →
    (L.waveStatus v.wave).code = .complete
  warps : ∀ slot, L.Resident c slot → L.WarpEvents c slot v.wave (v.situation slot) tr
  stalledCount : v.stalledSeen + cu.eventsInFlight .stalledAtBarrier =
    if cu.releases + owed = 0 then L.countIn c v .stalled else 0
  doneCount : v.doneSeen + cu.eventsInFlight .complete = L.countIn c v .done
  oneRelease : ∀ slot, L.Resident c slot → cu.releases + owed ≤ 1
  releaseStalled : cu.releases + owed ≠ 0 → ∀ slot, L.Resident c slot → v.situation slot = .stalled
  signals : ∀ sig ∈ cu.port.signals, sig = releaseSignal ∨ sig = doneSignal ∧ done = true

end RiscvGpgpu.Hls
