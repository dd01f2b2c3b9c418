import RiscvGpgpu.Hls.LaunchResult
import RiscvGpgpu.Hls.LaunchTurns

/-!
# A launch comes to its end

Once all CUs have launched, every fair schedule of the processes of the flat top raises `done`
(`launch_completes`). As long as it is not raised some process can act: the streams between the
arbiter and the memory pipeline are never all full at once (`Unjammed`), and warps that all wait
have all arrived at the barrier (`Stuck.false`).
-/

namespace RiscvGpgpu.Hls

open Launch

/-! ## The memory side is not jammed -/

theorem push_length_le {α : Type} {depth : ℕ} {queue queue' : List α} {x : α}
    (h : push depth queue x = some queue') : queue'.length ≤ depth := by
  unfold push at h
  split at h
  · next hlt =>
    obtain rfl := Option.some.inj h
    rw [List.length_append, List.length_singleton]
    exact hlt
  · exact absurd h (by simp)

/-- The arbiter reads a response between two writes of requests, so that the responses have room
whenever it may find the requests full. -/
structure Unjammed (D : SideDepths) (side : MemorySide) : Prop where
  reqOut : side.reqOut.length ≤ D.reqOut
  respIn : side.respIn.length ≤ D.respIn
  room : side.arbiter.pc ≠ .route → side.reqOut.length = D.reqOut →
    ∀ resp, side.process = .respond resp → side.respIn.length < D.respIn

section Unjammed

variable {L : Launch} {D : SideDepths} {m : MemorySubsystem} {mem : GlobalMem}
  {regs : L.Cus → SlotId → RegFile} {s s' : System L} {tr : List TopEvent}

theorem Unjammed.arbiter {arb : MemArbiter} {p : ArbiterPorts L.numCus} {ev : List MemEvent}
    (h : Unjammed D s.side) (hD : Buffered L D)
    (hs : arbiterStep L.numCus D.reqOut L.depths.memResp s.side.arbiter s.ports =
      some (arb, p, ev)) : Unjammed D (s.withArbiter arb p).side := by
  cases arbiterStep_turns hs with
  | forward _ hq => exact ⟨push_length_le hq, h.respIn, fun hne => absurd rfl hne⟩
  | quiet _ hq =>
    refine ⟨h.reqOut, h.respIn, fun _ _ _ _ => ?_⟩
    show s.side.respIn.length < D.respIn
    rw [show s.side.respIn = [] from hq]
    exact hD.respIn
  | @route resp rest _ hq =>
    have hle := h.respIn
    rw [show s.side.respIn = resp :: rest from hq, List.length_cons] at hle
    exact ⟨h.reqOut, Nat.le_of_succ_le hle, fun _ _ _ _ => hle⟩
  | miss hpc | grant hpc | scanned hpc | deliver hpc =>
    exact ⟨h.reqOut, h.respIn, fun _ => h.room (by rw [hpc]; simp)⟩

theorem Unjammed.memory {side : MemorySide} {ev : List MemEvent} (h : Unjammed D s.side)
    (hs : s.side.memoryStep D = some (side, ev)) : Unjammed D side := by
  unfold MemorySide.memoryStep at hs
  split at hs
  · split at hs
    · exact absurd hs (by simp)
    · next req rest hcons =>
      obtain ⟨rfl, -⟩ := Prod.mk.inj (Option.some.inj hs)
      have hle := h.reqOut
      rw [hcons, List.length_cons] at hle
      exact ⟨Nat.le_of_succ_le hle, h.respIn, fun _ hfull => absurd hfull (Nat.ne_of_lt hle)⟩
  · obtain ⟨queue, hq, heq⟩ := Option.map_eq_some_iff.1 hs
    obtain ⟨rfl, -⟩ := Prod.mk.inj heq
    exact ⟨h.reqOut, push_length_le hq, fun _ _ _ hproc => absurd hproc (by simp)⟩

theorem FreshRun.unjammed (h : FreshRun L D m mem regs s tr) (hD : Buffered L D) :
    Unjammed D s.side := by
  induction h with
  | init h _ =>
    refine ⟨?_, ?_, fun _ _ resp hproc => absurd (h.process.symm.trans hproc) (by simp)⟩
    · rw [h.reqOut]
      exact Nat.zero_le _
    · rw [h.respIn]
      exact Nat.zero_le _
  | step a _ hs _ ih =>
    cases a with
    | gpu a =>
      obtain ⟨-, -, -, hside⟩ := gpu_step hs
      rw [hside]
      exact ih
    | arbiter =>
      obtain ⟨⟨arb, p, ev⟩, hr, heq⟩ := Option.map_eq_some_iff.1 hs
      obtain ⟨rfl, -⟩ := Prod.mk.inj heq
      exact ih.arbiter hD hr
    | memory =>
      obtain ⟨⟨side, ev⟩, hr, heq⟩ := Option.map_eq_some_iff.1 hs
      obtain ⟨rfl, -⟩ := Prod.mk.inj heq
      exact ih.memory hr

theorem FreshRun.bounded (h : FreshRun L D m mem regs s tr) (c : L.Cus) :
    (s.gpu.cus c).pipeline.Bounded := by
  have hrun := h.gpu
  generalize s.gpu = gpu at hrun ⊢
  generalize warpTrace tr = tr' at hrun
  refine hrun.invariant (fun gpu _ => ∀ c, (gpu.cus c).pipeline.Bounded) (fun gpu hreset _ c => ?_)
    (fun gpu _ a gpu' _ _ hall hs _ c => ?_) c
  · obtain ⟨regs, hcu⟩ := hreset.2 c
    rw [hcu]
    trivial
  · have hset {c' : L.Cus} {cu : Cu} (hcu : cu.pipeline.Bounded) :
        ((gpu.setCu c' cu).cus c).pipeline.Bounded := by
      by_cases hc : c = c'
      · subst hc
        rw [setCu_self]
        exact hcu
      · rw [setCu_of_ne _ hc]
        exact hall c
    cases a with
    | setStart b =>
      obtain ⟨rfl, -⟩ := Prod.mk.inj (Option.some.inj hs)
      exact hall c
    | programLoaded c' =>
      have hs : gpu.step (.programLoaded c') = some (gpu', _) := hs
      unfold Gpu.step at hs
      dsimp only at hs
      split at hs
      · obtain ⟨rfl, -⟩ := Prod.mk.inj (Option.some.inj hs)
        exact hset (hall c')
      · exact absurd hs (by simp)
    | scheduler c' =>
      obtain ⟨r, hr, heq⟩ := Option.map_eq_some_iff.1 hs
      obtain ⟨rfl, -⟩ := Prod.mk.inj heq
      obtain ⟨-, -, hp⟩ := schedulerStep_frame hr
      refine hset ?_
      rw [hp]
      exact hall c'
    | pipeline c' =>
      obtain ⟨r, hr, heq⟩ := Option.map_eq_some_iff.1 hs
      obtain ⟨rfl, -⟩ := Prod.mk.inj heq
      exact hset ((hall c').step hr)
    | barrier =>
      obtain ⟨r, -, heq⟩ := Option.map_eq_some_iff.1 hs
      obtain ⟨rfl, -⟩ := Prod.mk.inj heq
      exact hall c
    | takeRequest c' =>
      have hs : gpu.step (.takeRequest c') = some (gpu', _) := hs
      unfold Gpu.step at hs
      dsimp only at hs
      split at hs
      · exact absurd hs (by simp)
      · obtain ⟨rfl, -⟩ := Prod.mk.inj (Option.some.inj hs)
        exact hset (hall c')
    | giveResponse c' resp =>
      obtain ⟨r, -, heq⟩ := Option.map_eq_some_iff.1 hs
      obtain ⟨rfl, -⟩ := Prod.mk.inj heq
      exact hset (hall c')

end Unjammed

/-! ## Somebody can act -/

/-- No process can act. -/
def Stuck {L : Launch} (D : SideDepths) (s : System L) : Prop :=
  ∀ a : SystemAction L, a.isProcess → ¬ s.can D a

section Stuck

variable {L : Launch} {D : SideDepths} {s : System L} {tr : List Event} {v : L.Cus → CuView}
  {g : ℕ}

/-- No scheduler is held up at the write of an event: the arbiter would be held up by a CU that
does not read its release, and whose warps have all been counted. -/
theorem Stuck.not_event (h : Stuck D s) (hD : Buffered L D) (hview : ViewInv L s.gpu tr v g)
    (hdone : s.gpu.core.done = false) (c : L.Cus) (code : WarpStatusCode) :
    (s.gpu.cus c).scheduler.pc ≠ .event code := by
  intro hpc
  have hev : (s.gpu.cus c).port.events ≠ [] := by
    intro hempty
    have hsched : ¬ (s.gpu.cus c).canSchedule L := h (.gpu (.scheduler c)) trivial
    unfold Cu.canSchedule at hsched
    rw [hpc, hempty] at hsched
    exact hsched hD.barrierEvents
  have hbarrier : ¬ s.gpu.canBarrier := h (.gpu .barrier) trivial
  obtain ⟨i, hi, hat⟩ : ∃ i, i < L.numCus ∧ s.gpu.core.pc = .signalRelease i := by
    by_contra hnone
    exact hbarrier ((Gpu.canBarrier_iff fun i hi hat => hnone ⟨i, hi, hat⟩).2
      (.inl ⟨c, Nat.zero_le _, hev⟩))
  have hsignals : (s.gpu.cus ⟨i, hi⟩).port.signals ≠ [] := by
    intro hempty
    unfold Gpu.canBarrier at hbarrier
    rw [hat] at hbarrier
    dsimp only at hbarrier
    rw [dif_pos hi, hempty] at hbarrier
    exact hbarrier hD.barrierSignal
  obtain ⟨code', hpc'⟩ : ∃ code', (s.gpu.cus ⟨i, hi⟩).scheduler.pc = .event code' := by
    by_contra hnone
    have hsched : ¬ (s.gpu.cus ⟨i, hi⟩).canSchedule L := h (.gpu (.scheduler ⟨i, hi⟩)) trivial
    unfold Cu.canSchedule at hsched
    split at hsched
    · next code' hpc' => exact hnone ⟨code', hpc'⟩
    · exact hsched (.inr (.inr hsignals))
  have hcu := hview.cus ⟨i, hi⟩
  have hreleases : (s.gpu.cus ⟨i, hi⟩).releases + s.gpu.core.owed (⟨i, hi⟩ : L.Cus) ≠ 0 := by
    obtain ⟨signal, hmem⟩ := List.exists_mem_of_ne_nil _ hsignals
    have hrelease : signal = releaseSignal := by
      obtain hr | ⟨-, hd⟩ := hcu.signals signal hmem
      · exact hr
      · exact absurd (hdone.symm.trans hd) Bool.false_ne_true
    rw [hrelease] at hmem
    have hpos : 0 < (s.gpu.cus ⟨i, hi⟩).releases := List.count_pos_iff.2 hmem
    omega
  have hstalled := hcu.stalledCount
  rw [if_neg hreleases] at hstalled
  have hnone : L.countIn ⟨i, hi⟩ (v ⟨i, hi⟩) .done = 0 := by
    unfold countIn
    rw [Finset.card_eq_zero, Finset.filter_eq_empty_iff]
    intro slot hslot hsit
    have := hcu.releaseStalled hreleases slot (mem_residents.1 hslot)
    rw [hsit] at this
    exact absurd this (by decide)
  have hcounts := hcu.doneCount
  rw [hnone] at hcounts
  have hflight : 1 ≤ (s.gpu.cus ⟨i, hi⟩).eventsInFlight code' := by
    unfold Cu.eventsInFlight
    rw [if_pos hpc']
    exact Nat.le_add_left _ _
  cases code' <;> omega

/-- No pipeline waits for a response. -/
theorem Stuck.not_waiting (h : Stuck D s) (hD : Buffered L D) {tr : List MemEvent}
    (hside : SideInv s tr) (hroom : Unjammed D s.side) (c : L.Cus) :
    (s.gpu.cus c).pipeline.isWaiting = false := by
  rw [Bool.eq_false_iff]
  intro hwaiting
  have hone := hside.outstanding c
  rw [hwaiting, if_pos rfl] at hone
  have harbiter : ¬ s.canArbitrate D := h .arbiter trivial
  have hmemory : ¬ s.side.canServe D := h .memory trivial
  have hresp : (s.gpu.cus c).memResp = [] := by
    have hpipe : ¬ (s.gpu.cus c).canProceed := h (.gpu (.pipeline c)) trivial
    unfold Cu.canProceed at hpipe
    cases hp : (s.gpu.cus c).pipeline with
    | idle => rw [hp] at hwaiting; exact absurd hwaiting Bool.false_ne_true
    | running d p => rw [hp] at hwaiting; exact absurd hwaiting Bool.false_ne_true
    | waiting d k =>
      rw [hp] at hpipe
      exact not_not.1 hpipe
  -- away from `forward` and `deliver` nothing is left on the memory side
  have hloop (hpc : ∀ idx req, s.side.arbiter.pc ≠ .forward idx req)
      (hpc' : ∀ resp, s.side.arbiter.pc ≠ .deliver resp)
      (hnone : ¬ (s.side.respIn ≠ [] ∨ s.RequestFrom 0)) : False := by
    have hrespIn : s.side.respIn = [] := by
      by_contra hne
      exact hnone (.inl hne)
    have hmemReq : (s.gpu.cus c).memReq = [] := by
      by_contra hne
      exact hnone (.inr ⟨c, hne, Nat.zero_le _⟩)
    have hforward : s.side.forwarding (cuId c) = [] := by
      unfold MemorySide.forwarding
      split
      · next idx req hat => exact absurd hat (hpc idx req)
      · rfl
    have hdeliver : s.side.delivering (cuId c) = [] := by
      unfold MemorySide.delivering
      split
      · next resp hat => exact absurd hat (hpc' resp)
      · rfl
    unfold MemorySide.canServe at hmemory
    cases hproc : s.side.process with
    | respond resp =>
      rw [hproc, hrespIn] at hmemory
      exact hmemory hD.respIn
    | ready =>
      rw [hproc] at hmemory
      have hreqOut : s.side.reqOut = [] := not_not.1 hmemory
      have hzero : (s.pendingReqs c).length + (s.pendingResps c).length = 0 := by
        simp [System.pendingReqs, System.pendingResps, MemorySide.reqsFor, MemorySide.respsFor,
          MemorySide.responding, hforward, hdeliver, hproc, hreqOut, hrespIn, hmemReq, hresp]
      omega
  unfold System.canArbitrate at harbiter
  cases hat : s.side.arbiter.pc with
  | scan i =>
    rw [hat] at harbiter
    exact hloop (by simp [hat]) (by simp [hat]) harbiter
  | route =>
    rw [hat] at harbiter
    exact hloop (by simp [hat]) (by simp [hat]) harbiter
  | deliver resp =>
    rw [hat] at harbiter
    exact harbiter trivial
  | forward idx req =>
    rw [hat] at harbiter
    have hfull : s.side.reqOut.length = D.reqOut :=
      Nat.le_antisymm hroom.reqOut (Nat.le_of_not_lt harbiter)
    unfold MemorySide.canServe at hmemory
    cases hproc : s.side.process with
    | respond resp =>
      rw [hproc] at hmemory
      exact hmemory (hroom.room (by simp [hat]) hfull resp hproc)
    | ready =>
      rw [hproc] at hmemory
      have hpos := hD.reqOut
      rw [← hfull, not_not.1 hmemory] at hpos
      exact absurd hpos (Nat.lt_irrefl 0)

/-- A scheduler that cannot act has read all it was sent. -/
theorem Stuck.drained (h : Stuck D s) (hD : Buffered L D) (hview : ViewInv L s.gpu tr v g)
    (hdone : s.gpu.core.done = false) (c : L.Cus) :
    (s.gpu.cus c).mayDispatch L = false ∧ (s.gpu.cus c).status = [] ∧
      (s.gpu.cus c).port.signals = [] := by
  have hsched : ¬ (s.gpu.cus c).canSchedule L := h (.gpu (.scheduler c)) trivial
  unfold Cu.canSchedule at hsched
  split at hsched
  · next code hpc => exact absurd hpc (h.not_event hD hview hdone c code)
  · refine ⟨?_, ?_, ?_⟩
    · exact Bool.eq_false_iff.2 fun hmay => hsched (.inl hmay)
    · exact not_not.1 fun hne => hsched (.inr (.inl hne))
    · exact not_not.1 fun hne => hsched (.inr (.inr hne))

/-- No warp is in flight. -/
theorem Stuck.no_job (h : Stuck D s) (hD : Buffered L D) (hview : ViewInv L s.gpu tr v g)
    (hdone : s.gpu.core.done = false) {tr' : List MemEvent} (hside : SideInv s tr')
    (hroom : Unjammed D s.side) (c : L.Cus) : (v c).job = none := by
  have hpipe : ¬ (s.gpu.cus c).canProceed := h (.gpu (.pipeline c)) trivial
  have hwaiting := h.not_waiting hD hside hroom c
  obtain ⟨-, hstatus, -⟩ := h.drained hD hview hdone c
  have hflight := (hview.cus c).flight
  unfold Cu.canProceed at hpipe
  generalize (v c).job = job at hflight ⊢
  cases hflight with
  | nothing => rfl
  | queued _ hd hp _ =>
    rw [hp, hd] at hpipe
    exact absurd (List.cons_ne_nil _ _) hpipe
  | running _ _ hp _ _ =>
    rw [hp] at hpipe
    exact absurd trivial hpipe
  | waiting _ _ hp _ _ =>
    rw [hp] at hwaiting
    exact absurd hwaiting.symm Bool.false_ne_true
  | reported _ _ hs =>
    rw [hs] at hstatus
    exact absurd hstatus (List.cons_ne_nil _ _)

/-- A ready slot is found. -/
theorem nextReadySlot_ne_invalid {G : GpuSize} {slots : Slots} {slot : SlotId}
    (hslot : slot.toNat < G.maxWarpsPerCu) (hready : (slots slot).state = .ready) :
    nextReadySlot G slots ≠ G.invalidSlot := by
  unfold nextReadySlot
  cases hf : G.slotIds.find? fun slot => (slots slot).state = .ready with
  | none =>
    rw [List.find?_eq_none] at hf
    exact absurd (decide_eq_true hready) (hf slot (mem_slotIds.2 hslot))
  | some slot' =>
    rintro rfl
    exact invalidSlot_not_mem (List.mem_of_find?_eq_some hf)

/-- Every warp has stalled or is done. -/
theorem Stuck.settled (h : Stuck D s) (hD : Buffered L D) (hview : ViewInv L s.gpu tr v g)
    (hdone : s.gpu.core.done = false) {tr' : List MemEvent} (hside : SideInv s tr')
    (hroom : Unjammed D s.side)
    (hrun : ∀ c, (s.gpu.cus c).scheduler.busyCuScheduler = true) {c : L.Cus} {slot : SlotId}
    (hres : L.Resident c slot) :
    (v c).situation slot = .stalled ∨ (v c).situation slot = .done := by
  have hcu := hview.cus c
  have hjob := h.no_job hD hview hdone hside hroom c
  cases hsit : (v c).situation slot with
  | stalled => exact .inl rfl
  | done => exact .inr rfl
  | inFlight r => exact absurd hsit (hcu.notInFlight hjob hres r)
  | waiting =>
    have hready : ((s.gpu.cus c).scheduler.slots slot).state = .ready := by
      rw [hcu.slots, slotsOf, if_pos ⟨hcu.launched (hrun c), hres⟩, hsit]
      rfl
    have hfree : (s.gpu.cus c).scheduler.busyCu = false := by
      rw [Bool.eq_false_iff]
      intro hbusy
      obtain hsome | ⟨code, hpc⟩ := hcu.busyCu.1 hbusy
      · rw [hjob] at hsome
        exact absurd hsome Bool.false_ne_true
      · exact h.not_event hD hview hdone c code hpc
    obtain ⟨hmay, -, -⟩ := h.drained hD hview hdone c
    have hslot := nextReadySlot_ne_invalid hres.1 hready
    rw [Cu.mayDispatch, hfree, Bool.not_false, Bool.true_and, bne_eq_false_iff_eq] at hmay
    exact absurd hmay hslot

/-- The arbiter has nothing to poll, to release or to declare. -/
theorem Stuck.loop (h : Stuck D s) (hD : Buffered L D) (hview : ViewInv L s.gpu tr v g)
    (hdone : s.gpu.core.done = false) :
    (∀ i, i < L.numCus → s.gpu.core.pc ≠ .signalRelease i) ∧ ¬ s.gpu.LoopHas := by
  have hbarrier : ¬ s.gpu.canBarrier := h (.gpu .barrier) trivial
  have hpc (i : ℕ) (hi : i < L.numCus) : s.gpu.core.pc ≠ .signalRelease i := by
    intro hat
    obtain ⟨-, -, hsignals⟩ := h.drained hD hview hdone ⟨i, hi⟩
    unfold Gpu.canBarrier at hbarrier
    rw [hat] at hbarrier
    dsimp only at hbarrier
    rw [dif_pos hi, hsignals] at hbarrier
    exact hbarrier hD.barrierSignal
  exact ⟨hpc, fun hloop => hbarrier ((Gpu.canBarrier_iff hpc).2 hloop)⟩

/-- The counters are those of the CUs, which are all in one wave. -/
theorem Stuck.counted (h : Stuck D s) (hD : Buffered L D) (hview : ViewInv L s.gpu tr v g)
    (hdone : s.gpu.core.done = false) (c : L.Cus) :
    (v c).wave = g ∧ (v c).stalledSeen = L.countIn c (v c) .stalled ∧
      (v c).doneSeen = L.countIn c (v c) .done := by
  obtain ⟨hpc, hloop⟩ := h.loop hD hview hdone
  obtain ⟨-, -, hsignals⟩ := h.drained hD hview hdone c
  have hevents : (s.gpu.cus c).port.events = [] :=
    not_not.1 fun hne => hloop (.inl ⟨c, Nat.zero_le _, hne⟩)
  have hflight (code : WarpStatusCode) : (s.gpu.cus c).eventsInFlight code = 0 := by
    unfold Cu.eventsInFlight
    rw [hevents, if_neg (h.not_event hD hview hdone c code)]
    rfl
  have hreleases : (s.gpu.cus c).releases = 0 := by
    unfold Cu.releases
    rw [hsignals]
    rfl
  have howed : s.gpu.core.owed c = 0 := by
    unfold BarrierCore.owed
    split
    · next i hat =>
      rw [if_neg fun hle => hpc i (Nat.lt_of_le_of_lt hle c.isLt) hat]
    · rfl
  have hcu := hview.cus c
  have hwave := hview.waves c
  have hstalled := hcu.stalledCount
  have hcounts := hcu.doneCount
  rw [hreleases, howed, if_pos rfl, hflight] at hstalled
  rw [hflight] at hcounts
  exact ⟨by omega, by omega, by omega⟩

/-- All residents in one situation are counted in it. -/
theorem countIn_eq_card {c : L.Cus} {w : CuView} {sit : Situation}
    (hall : ∀ slot, L.Resident c slot → w.situation slot = sit) :
    L.countIn c w sit = (L.residents c).card := by
  unfold countIn
  rw [Finset.filter_true_of_mem fun slot hslot => hall slot (mem_residents.1 hslot)]

/-- As long as `done` is not raised, the launch is not stuck. -/
theorem Stuck.false (h : Stuck D s) (hD : Buffered L D) (hview : ViewInv L s.gpu tr v g)
    (hdone : s.gpu.core.done = false) {tr' : List MemEvent} (hside : SideInv s tr')
    (hroom : Unjammed D s.side) (hlaunched : Launched s.gpu)
    (hcap : L.totalWarps.toNat ≤ L.capacity) (hpos : 0 < L.totalWarps.toNat) : False := by
  obtain ⟨-, hloop⟩ := h.loop hD hview hdone
  have htotal := hview.core.totalWarps (.inl hlaunched.busy)
  have hne : s.gpu.core.counts.totalWarps ≠ 0 := by
    rw [htotal]
    intro hzero
    rw [hzero] at hpos
    exact absurd hpos (Nat.lt_irrefl 0)
  have hsum (seen : CuView → ℕ) (hseen : ∀ c, seen (v c) = (L.residents c).card) :
      BitVec.ofNat 32 (∑ c, seen (v c)) = L.totalWarps := by
    rw [Finset.sum_congr rfl fun c _ => hseen c, sum_residents hcap]
    exact BitVec.ofNat_toNat _ _
  have hwave (c : L.Cus) := (h.counted hD hview hdone c).1
  cases hcode : (L.waveStatus g).code with
  | complete =>
    have hall (c : L.Cus) (slot : SlotId) (hres : L.Resident c slot) :
        (v c).situation slot = .done := by
      refine (h.settled hD hview hdone hside hroom hlaunched.cus hres).resolve_left fun hsit => ?_
      have := (hview.cus c).stalledCode slot hres hsit
      rw [hwave, hcode] at this
      exact absurd this (by decide)
    refine hloop (.inr (.inr ?_))
    unfold barrierKernelComplete
    rw [Bool.and_eq_true, decide_eq_true_eq, decide_eq_true_eq]
    refine ⟨hne, ?_⟩
    rw [hview.core.doneCount, htotal]
    refine hsum CuView.doneSeen fun c => ?_
    rw [(h.counted hD hview hdone c).2.2, countIn_eq_card (hall c)]
  | stalledAtBarrier =>
    have hall (c : L.Cus) (slot : SlotId) (hres : L.Resident c slot) :
        (v c).situation slot = .stalled := by
      refine (h.settled hD hview hdone hside hroom hlaunched.cus hres).resolve_right fun hsit => ?_
      have := (hview.cus c).doneCode slot hres hsit
      rw [hwave, hcode] at this
      exact absurd this (by decide)
    refine hloop (.inr (.inl ?_))
    unfold barrierReleaseReady
    rw [Bool.and_eq_true, decide_eq_true_eq, decide_eq_true_eq]
    refine ⟨hne, ?_⟩
    rw [hview.core.stalledCount, htotal]
    refine hsum CuView.stalledSeen fun c => ?_
    rw [(h.counted hD hview hdone c).2.1, countIn_eq_card (hall c)]

end Stuck

/-! ## Main result -/

section Main

variable {L : Launch} {D : SideDepths} {m : MemorySubsystem} {mem : GlobalMem}
  {regs : L.Cus → SlotId → RegFile} {s s' : System L}

/-- What a schedule reaches. -/
structure Finished (L : Launch) (D : SideDepths) (m : MemorySubsystem) (mem : GlobalMem)
    (regs : L.Cus → SlotId → RegFile) (s : System L) : Prop where
  run : ∃ tr, FreshRun L D m mem regs s tr
  done : s.gpu.core.done = true

/-- A turn of `a` ends the launch, or it goes on and the turn does work or is idle. -/
def EndsOrAdvances (L : Launch) (D : SideDepths) (m : MemorySubsystem) (mem : GlobalMem)
    (regs : L.Cus → SlotId → RegFile) (a : SystemAction L) (s : System L) : Prop :=
  Finished L D m mem regs ((freshSystem L D m mem regs).turn s a) ∨
    Underway L D m mem regs ((freshSystem L D m mem regs).turn s a) ∧
      Advances D a s ((freshSystem L D m mem regs).turn s a)

/-- A process that has to wait. -/
theorem Underway.blocked {a : SystemAction L} (h : Underway L D m mem regs s)
    (hs : s.step D a = none) (hcan : ¬ s.can D a) : EndsOrAdvances L D m mem regs a s := by
  have hturn : (freshSystem L D m mem regs).turn s a = s := Transition.turn_none hs
  unfold EndsOrAdvances
  rw [hturn]
  exact .inr ⟨h, .inr ⟨Nat.le_refl _, .stay hcan⟩⟩

theorem Underway.enabled {a : SystemAction L} {ev : List TopEvent}
    (h : Underway L D m mem regs s) (hs : s.step D a = some (s', ev)) (hl : Launched s'.gpu)
    (hadv : Advances D a s s') : EndsOrAdvances L D m mem regs a s := by
  have hturn : (freshSystem L D m mem regs).turn s a = s' := Transition.turn_some hs
  unfold EndsOrAdvances
  rw [hturn]
  obtain ⟨tr, hrun⟩ := h.run
  exact .inr ⟨⟨⟨_, .step a hrun hs fun _ => hl.start⟩, hl⟩, hadv⟩

theorem Underway.view (h : Underway L D m mem regs s) (hcap : L.totalWarps.toNat ≤ L.capacity) :
    s.gpu.core.done = false ∧ ∃ tr v g, ViewInv L s.gpu tr v g := by
  obtain ⟨tr, hrun⟩ := h.run
  obtain ⟨v, g, hview⟩ := LaunchInv.run hrun.gpu hcap
  refine ⟨?_, _, v, g, hview⟩
  rw [Bool.eq_false_iff]
  intro hdone
  exact absurd ((hview.core.done hdone).1.symm.trans h.launched.busy) Bool.false_ne_true

theorem Launched.setCu {gpu : Gpu L} {c : L.Cus} {cu : Cu} (h : Launched gpu)
    (hcu : cu.scheduler.busyCuScheduler = true) : Launched (gpu.setCu c cu) := by
  refine ⟨h.start, h.busy, fun c' => ?_⟩
  by_cases hc : c' = c
  · subst hc
    rw [setCu_self]
    exact hcu
  · rw [setCu_of_ne _ hc]
    exact h.cus c'

theorem setCu_same (gpu : Gpu L) (c : L.Cus) : gpu.setCu c (gpu.cus c) = gpu := by
  refine gpu_ext rfl rfl fun c' => ?_
  by_cases hc : c' = c
  · subst hc
    rw [setCu_self]
  · rw [setCu_of_ne _ hc]

theorem Underway.scheduler (h : Underway L D m mem regs s)
    (hcap : L.totalWarps.toNat ≤ L.capacity) (hD : Buffered L D) (c : L.Cus) :
    EndsOrAdvances L D m mem regs (.gpu (.scheduler c)) s := by
  obtain ⟨hdone, tr, v, g, hview⟩ := h.view hcap
  have hcu := hview.cus c
  rw [hdone] at hcu
  have hrun := h.launched.cus c
  cases hr : (s.gpu.cus c).schedulerStep L c s.gpu.start with
  | none =>
    refine h.blocked (by simp [System.step, Gpu.step, hr]) fun hcan => ?_
    obtain ⟨code, hpc, hfull⟩ := hcu.schedulerStep_blocked hrun hD.dispatch hr
    have hcan : (s.gpu.cus c).canSchedule L := hcan
    unfold Cu.canSchedule at hcan
    rw [hpc] at hcan
    exact hfull hcan
  | some r =>
    obtain ⟨cu, ev⟩ := r
    obtain ⟨hrun', hwork⟩ := hcu.schedulerStep_work hrun hr
    have hs : s.step D (.gpu (.scheduler c)) =
        some ({ s with gpu := s.gpu.setCu c cu }, ev.map .warp ++ []) := by
      simp [System.step, Gpu.step, hr, System.gpuEvents]
    refine h.enabled hs (h.launched.setCu hrun') ?_
    have hsum := work_setCu (s := s) c cu
    obtain hless | ⟨pc, hpass, rfl⟩ := hwork
    · exact .inl (by omega)
    · rw [hpass.work] at hsum
      exact .inr ⟨by omega, idle_scheduler hpass⟩

theorem Underway.pipeline (h : Underway L D m mem regs s)
    (hcap : L.totalWarps.toNat ≤ L.capacity) (hD : Buffered L D) (c : L.Cus) :
    EndsOrAdvances L D m mem regs (.gpu (.pipeline c)) s := by
  obtain ⟨-, tr, v, g, hview⟩ := h.view hcap
  obtain ⟨tr', hfresh⟩ := h.run
  cases hr : (s.gpu.cus c).pipelineStep L c with
  | none =>
    refine h.blocked (by simp [System.step, Gpu.step, hr]) fun hcan => ?_
    have hreqs (hnot : (s.gpu.cus c).pipeline.isWaiting = false) : (s.gpu.cus c).memReq = [] := by
      have hone := hfresh.side.outstanding c
      rw [hnot, if_neg Bool.false_ne_true, System.pendingReqs, List.length_append] at hone
      exact List.length_eq_zero_iff.1 (by omega)
    obtain ⟨d, k, hp, hempty⟩ :=
      (hview.cus c).pipelineStep_blocked hD.status hD.memReq hreqs hr
    have hcan : (s.gpu.cus c).canProceed := hcan
    unfold Cu.canProceed at hcan
    rw [hp] at hcan
    exact hcan hempty
  | some r =>
    obtain ⟨cu, ev⟩ := r
    have hs : s.step D (.gpu (.pipeline c)) = some ({ s with gpu := s.gpu.setCu c cu },
        ev.map .warp ++ (s.gpuEvents (.pipeline c)).map .mem) := by
      simp [System.step, Gpu.step, hr]
    have hrun : cu.scheduler.busyCuScheduler = true := by
      rw [pipelineStep_scheduler hr]
      exact h.launched.cus c
    refine h.enabled hs (h.launched.setCu hrun) ?_
    have hsum := work_setCu (s := s) c cu
    obtain hless | ⟨rfl, hp, hempty⟩ := pipelineStep_work (hfresh.bounded c) hr
    · exact .inl (by omega)
    · rw [setCu_same]
      refine .inr ⟨Nat.le_refl _, .stay fun hcan => ?_⟩
      have hcan : (s.gpu.cus c).canProceed := hcan
      unfold Cu.canProceed at hcan
      rw [hp] at hcan
      exact hcan hempty

theorem Underway.barrier (h : Underway L D m mem regs s)
    (hcap : L.totalWarps.toNat ≤ L.capacity) : EndsOrAdvances L D m mem regs (.gpu .barrier) s := by
  obtain ⟨hdone, tr, v, g, hview⟩ := h.view hcap
  obtain ⟨tr', hfresh⟩ := h.run
  have hpc (i : ℕ) : s.gpu.core.pc ≠ .signalDone i := by
    intro hat
    exact absurd (hdone.symm.trans (hview.core.signalDone i hat)) Bool.false_ne_true
  cases hr : barrierStep L.toGpuSize L.depths.barrierSignal L.totalWarps s.gpu.start s.gpu.core
      s.gpu.ports with
  | none =>
    exact h.blocked (by simp [System.step, Gpu.step, hr]) (barrierStep_blocked hpc hr)
  | some r =>
    obtain ⟨core, ports⟩ := r
    have hs : s.step D (.gpu .barrier) =
        some ({ s with gpu := s.gpu.withBarrier core ports }, []) := by
      simp [System.step, Gpu.step, hr, System.gpuEvents]
    obtain hend | ⟨hbusy, hadv⟩ := barrierStep_advances h.launched.busy hpc hr
    · have hturn : (freshSystem L D m mem regs).turn s (.gpu .barrier) = _ :=
        Transition.turn_some hs
      left
      rw [hturn]
      exact ⟨⟨_, .step (.gpu .barrier) hfresh hs fun _ => h.launched.start⟩, hend⟩
    · exact h.enabled hs ⟨h.launched.start, hbusy, h.launched.cus⟩ hadv

theorem Underway.arbiter (h : Underway L D m mem regs s) (hD : Buffered L D) :
    EndsOrAdvances L D m mem regs .arbiter s := by
  obtain ⟨tr, hfresh⟩ := h.run
  cases hr : arbiterStep L.numCus D.reqOut L.depths.memResp s.side.arbiter s.ports with
  | none =>
    exact h.blocked (by simp [System.step, hr]) (arbiterStep_blocked hfresh.side hD hr)
  | some r =>
    obtain ⟨arb, p, ev⟩ := r
    have hs : s.step D .arbiter = some (s.withArbiter arb p, ev.map .mem) := by
      simp [System.step, hr]
    exact h.enabled hs ⟨h.launched.start, h.launched.busy, h.launched.cus⟩
      (arbiterStep_advances hfresh.side hr)

theorem Underway.memory (h : Underway L D m mem regs s) :
    EndsOrAdvances L D m mem regs .memory s := by
  cases hr : s.side.memoryStep D with
  | none => exact h.blocked (by simp [System.step, hr]) (memoryStep_blocked hr)
  | some r =>
    obtain ⟨side, ev⟩ := r
    have hs : s.step D .memory = some ({ s with side := side }, ev.map .mem) := by
      simp [System.step, hr]
    exact h.enabled hs h.launched (.inl (memoryStep_work hr))

/-- The processes make progress until `done` is raised. -/
theorem launch_progress (hD : Buffered L D) (hcap : L.totalWarps.toNat ≤ L.capacity)
    (hpos : 0 < L.totalWarps.toNat) :
    Transition.Progress (freshSystem L D m mem regs) SystemAction.isProcess SystemAction.isProcess
      (Underway L D m mem regs) (Finished L D m mem regs) System.work (System.can D)
      System.dist where
  someone s h _ := by
    by_contra hnone
    have hstuck : Stuck D s := fun a ha hcan => hnone ⟨a, ha, hcan⟩
    obtain ⟨hdone, _, v, g, hview⟩ := h.view hcap
    obtain ⟨tr, hfresh⟩ := h.run
    exact hstuck.false hD hview hdone hfresh.side (hfresh.unjammed hD) h.launched hcap hpos
  step s a h _ ha := by
    cases a with
    | gpu a =>
      cases a with
      | scheduler c => exact h.scheduler hcap hD c
      | pipeline c => exact h.pipeline hcap hD c
      | barrier => exact h.barrier hcap
      | _ => exact absurd ha id
    | arbiter => exact h.arbiter hD
    | memory => exact h.memory

/-- From any state in which all CUs have launched and `start` is low again, every fair schedule of
the processes raises `done`, and every warp has then completed. -/
theorem launch_completes {tr : List TopEvent} {σ : ℕ → SystemAction L}
    (h : FreshRun L D m mem regs s tr) (hlaunched : Launched s.gpu) (hD : Buffered L D)
    (hcap : L.totalWarps.toNat ≤ L.capacity) (hpos : 0 < L.totalWarps.toNat)
    (hproc : ∀ n, (σ n).isProcess) (hfair : Transition.Fair SystemAction.isProcess σ) :
    ∃ n tr', FreshRun L D m mem regs ((freshSystem L D m mem regs).turns σ s n) tr' ∧
      ((freshSystem L D m mem regs).turns σ s n).gpu.core.done = true ∧
        ∀ c, L.finishedBy c (warpTrace tr') = L.schedule c := by
  obtain ⟨n, hfinished⟩ := (launch_progress hD hcap hpos).reaches hproc hfair ⟨⟨tr, h⟩, hlaunched⟩
  obtain ⟨tr', hrun⟩ := hfinished.run
  exact ⟨n, tr', hrun, hfinished.done, fun c => (hrun.complete hcap hfinished.done c).2⟩

end Main

/-! ### Two CUs that store, in turn -/

theorem mem_launchRound {L : Launch} {a : SystemAction L} : a ∈ launchRound L ↔ a.isProcess := by
  cases a with
  | gpu a => cases a <;> simp [launchRound, SystemAction.isProcess]
  | arbiter => simp [launchRound, SystemAction.isProcess]
  | memory => simp [launchRound, SystemAction.isProcess]

/-- Both CUs have launched. -/
def twoStoresLaunched : System twoStores × List TopEvent :=
  followLaunch twoStores ⟨1, 1⟩ emptySubsystem (fun _ => 0) twoStoresRegs
    (launchActions 0 (launchRound _))

def twoStoresSchedule : ℕ → SystemAction twoStores :=
  Transition.roundRobin (launchRound twoStores) (by decide)

theorem launch_completes_twoStores : ∃ n tr',
    FreshRun twoStores ⟨1, 1⟩ emptySubsystem (fun _ => 0) twoStoresRegs
        ((freshSystem twoStores ⟨1, 1⟩ emptySubsystem (fun _ => 0) twoStoresRegs).turns
          twoStoresSchedule twoStoresLaunched.1 n) tr' ∧
      ((freshSystem twoStores ⟨1, 1⟩ emptySubsystem (fun _ => 0) twoStoresRegs).turns
        twoStoresSchedule twoStoresLaunched.1 n).gpu.core.done = true ∧
      ∀ c, twoStores.finishedBy c (warpTrace tr') = twoStores.schedule c :=
  launch_completes (freshRun_followLaunch _)
    ⟨by decide +kernel, by decide +kernel, by decide +kernel⟩
    ⟨by decide, by decide, by decide, by decide, by decide, by decide, by decide, by decide⟩
    (by decide) (by decide) (fun n => mem_launchRound.1 (Transition.roundRobin_mem _ n))
    fun a ha => Transition.fair_roundRobin _ a (mem_launchRound.2 ha)

end RiscvGpgpu.Hls
