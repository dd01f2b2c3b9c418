import RiscvGpgpu.Hls.FreshRuns

/-!
# What a launch computes

In every run of the flat top from fresh caches, each CU does what it does alone on flat memory
(`Launch.solo`), if no CU stores to a global word that another one accesses. Neither the order of
the processes, nor the arbitration, nor the caches can be seen in the registers or in the memory.
-/

namespace RiscvGpgpu.Hls

open Launch

/-! ## One CU against its run alone -/

namespace Launch

variable (L : Launch) (c : L.Cus)

/-- Where the pipeline is in the dispatch that comes after the run `solo`. -/
def Carries (mem : GlobalMem) (solo : Solo) (issued : List MemReq) : Pipeline → Prop
  | .idle => issued = solo.log
  | .running d p => p.serve (flatServer mem) issued =
      (L.execute c d (solo.regs d.slotId)).serve (flatServer mem) solo.log
  | .waiting d k => ∃ pre req, issued = pre ++ [req] ∧
      (k (flatRequest (flatAfter mem pre) req).1).serve (flatServer mem) issued =
        (L.execute c d (solo.regs d.slotId)).serve (flatServer mem) solo.log

end Launch

/-- The CU has issued the requests and computed the registers that it does alone. -/
structure Conforms (L : Launch) (c : L.Cus) (mem : GlobalMem) (regs : SlotId → RegFile) (cu : Cu)
    (issued : List MemReq) (finished : List WarpDispatch) : Prop where
  sameRegs : cu.regs = (L.soloRun c mem regs finished).regs
  carries : L.Carries c mem (L.soloRun c mem regs finished) issued cu.pipeline

section Conforms

variable {L : Launch} {c : L.Cus} {mem : GlobalMem} {regs : SlotId → RegFile} {cu cu' : Cu}
  {issued : List MemReq} {finished : List WarpDispatch} {ev : List Event}

theorem Conforms.congr (h : Conforms L c mem regs cu issued finished) (hregs : cu'.regs = cu.regs)
    (hp : cu'.pipeline = cu.pipeline) : Conforms L c mem regs cu' issued finished :=
  ⟨hregs.trans h.sameRegs, by rw [hp]; exact h.carries⟩

/-- A CU never asks for more than it does alone. -/
theorem Conforms.issued_initial {ds : List WarpDispatch}
    (h : Conforms L c mem regs cu issued finished) (hds : finished ++ cu.jobs <+: ds) :
    issued <+: (L.soloRun c mem regs ds).log := by
  have hcarries := h.carries
  have hlog {d : WarpDispatch} (hd : cu.pipeline.job = [d]) :
      ((L.execute c d ((L.soloRun c mem regs finished).regs d.slotId)).serve (flatServer mem)
        (L.soloRun c mem regs finished).log).1 <+: (L.soloRun c mem regs ds).log := by
    rw [Cu.jobs, hd, ← List.append_assoc] at hds
    have hprefix : (L.soloRun c mem regs (finished ++ [d])).log <+: (L.soloRun c mem regs ds).log :=
      soloRun_log_prefix ((List.prefix_append _ _).trans hds)
    rwa [soloRun_concat] at hprefix
  cases hp : cu.pipeline with
  | idle =>
    rw [hp] at hcarries
    rw [show issued = _ from hcarries]
    exact soloRun_log_prefix ((List.prefix_append _ _).trans hds)
  | running d p =>
    rw [hp] at hcarries hlog
    have hserve : p.serve (flatServer mem) issued = _ := hcarries
    have hmore := prefix_serve mem issued p
    rw [hserve] at hmore
    exact hmore.trans (hlog rfl)
  | waiting d k =>
    rw [hp] at hcarries hlog
    obtain ⟨pre, req, -, hserve⟩ := hcarries
    have hmore := prefix_serve mem issued (k (flatRequest (flatAfter mem pre) req).1)
    rw [hserve] at hmore
    exact hmore.trans (hlog rfl)

/-- A step of the pipeline follows the run alone, if the response it reads is that of flat
memory. -/
theorem Conforms.pipelineStep (h : Conforms L c mem regs cu issued finished)
    (hs : cu.pipelineStep L c = some (cu', ev))
    (hresp : ∀ pre req resp rest, issued = pre ++ [req] → cu.pipeline.isWaiting = true →
      cu.memResp = resp :: rest → resp = (flatRequest (flatAfter mem pre) req).1)
    (hid : ∀ d ∈ cu.pipeline.job, d.warpId = L.warpIdOf c d.slotId) :
    Conforms L c mem regs cu' (issued ++ issuedBy (System.pipelineEvents c cu) c)
      (finished ++ L.finishedBy c ev) := by
  have hcarries := h.carries
  unfold Cu.pipelineStep at hs
  unfold System.pipelineEvents
  split at hs
  · next hp =>
    rw [hp] at hcarries ⊢
    dsimp only
    rw [show issued ++ issuedBy [] c = issued from List.append_nil _]
    split at hs
    · obtain ⟨rfl, rfl⟩ := Prod.mk.inj (Option.some.inj hs)
      rwa [show finished ++ L.finishedBy c [] = finished from List.append_nil _]
    · next d rest hd =>
      obtain ⟨rfl, rfl⟩ := Prod.mk.inj (Option.some.inj hs)
      rw [show finished ++ L.finishedBy c [] = finished from List.append_nil _]
      refine ⟨h.sameRegs, ?_⟩
      show Interact.serve _ issued (L.execute c d (cu.regs d.slotId)) = _
      rw [show issued = _ from hcarries, h.sameRegs]
  · next d req k hp =>
    obtain ⟨queue, hq, heq⟩ := Option.map_eq_some_iff.1 hs
    obtain ⟨rfl, rfl⟩ := Prod.mk.inj heq
    rw [hp] at hcarries ⊢
    rw [show finished ++ L.finishedBy c [] = finished from List.append_nil _]
    simp only [issuedBy_issued, if_true]
    exact ⟨h.sameRegs, issued, req, rfl, hcarries⟩
  · next d result hp =>
    obtain ⟨queue, hq, heq⟩ := Option.map_eq_some_iff.1 hs
    obtain ⟨rfl, rfl⟩ := Prod.mk.inj heq
    rw [hp] at hcarries hid ⊢
    have hdid : d.warpId = L.warpIdOf c d.slotId := hid d (List.mem_singleton.2 rfl)
    have hfin : L.finishedBy c [.finished d { result.status with slotId := d.slotId }] = [d] := by
      simp [finishedBy, finishedBy?, hdid]
    have hserve : (issued, result) =
        (L.execute c d ((L.soloRun c mem regs finished).regs d.slotId)).serve (flatServer mem)
          (L.soloRun c mem regs finished).log := hcarries
    rw [hfin]
    refine ⟨?_, ?_⟩
    · rw [soloRun_concat, soloDispatch, ← hserve, ← h.sameRegs]
      rfl
    · show issued ++ _ = _
      rw [soloRun_concat, soloDispatch, ← hserve]
      exact List.append_nil _
  · next d k hp =>
    split at hs
    · exact absurd hs (by simp)
    · next resp rest hq =>
      obtain ⟨rfl, rfl⟩ := Prod.mk.inj (Option.some.inj hs)
      rw [hp] at hcarries hresp ⊢
      rw [hq]
      rw [show finished ++ L.finishedBy c [] = finished from List.append_nil _]
      obtain ⟨pre, req, hissued, hserve⟩ := hcarries
      rw [hresp pre req resp rest hissued rfl hq]
      simp only [issuedBy_received, List.append_nil]
      exact ⟨h.sameRegs, hserve⟩

end Conforms

/-! ## Requests and responses -/

section Run

variable {L : Launch} {D : SideDepths} {m : MemorySubsystem} {mem : GlobalMem}
  {regs : L.Cus → SlotId → RegFile} {s : System L} {tr : List TopEvent}

/-- Every CU is in step with its run alone. -/
def AllConform (mem : GlobalMem) (regs : L.Cus → SlotId → RegFile) (s : System L)
    (tr : List TopEvent) : Prop :=
  ∀ c, Conforms L c (flatInit mem) (regs c) (s.gpu.cus c) (issuedBy (memEvents tr) c)
    (L.finishedBy c (warpTrace tr))

/-- What the CUs have asked for is what they ask for alone. -/
theorem AllConform.issued_initial (h : AllConform mem regs s tr)
    (hrun : FreshRun L D m mem regs s tr) (hcap : L.totalWarps.toNat ≤ L.capacity) (c : L.Cus) :
    issuedBy (memEvents tr) c <+: (L.solo c mem (regs c)).log := by
  obtain ⟨g, k, hord⟩ := ordered_run hrun.gpu hcap c
  refine (h c).issued_initial ?_
  rw [← hord.jobs, hord.dispatched]
  exact scheduleTo_prefix hord.reached

theorem AllConform.served_subset (h : AllConform mem regs s tr)
    (hrun : FreshRun L D m mem regs s tr) (hcap : L.totalWarps.toNat ≤ L.capacity) :
    servedReqs (memEvents tr) ⊆ L.soloRequests mem regs := by
  intro req hreq
  obtain ⟨⟨req, resp⟩, hserved, rfl⟩ := List.mem_map.1 hreq
  obtain ⟨e, he, hsome⟩ := List.mem_filterMap.1 hserved
  obtain ⟨rfl⟩ : e = .served req resp := by
    cases e <;> simp_all [MemEvent.served?]
  obtain ⟨c, hc⟩ := hrun.side.served req resp he
  rw [mem_soloRequests]
  refine ⟨c, (h.issued_initial hrun hcap c).subset ?_⟩
  rw [hrun.side.reqs c, map_fst_servedFor]
  exact List.mem_append_left _ (List.mem_filter.2 ⟨hreq, decide_eq_true hc⟩)

/-- Each CU is answered as by flat memory. -/
theorem FreshRun.responses (hrun : FreshRun L D m mem regs s tr)
    (hiso : Isolated (servedReqs (memEvents tr))) (id : CuId) :
    (servedFor (memEvents tr) id).map Prod.snd =
      flatResponses (flatInit mem) (requestsOf id (servedReqs (memEvents tr))) := by
  rw [← List.append_nil (servedReqs _)] at hiso
  have hall := ((servesOwn_reset m mem _).run (coherent_reset m mem noneStale) hiso).2 id
  rw [servedFor_eq, hrun.serves.responses]
  exact hall

/-- The response on its way to a CU that waits is that of flat memory. -/
theorem FreshRun.response (hrun : FreshRun L D m mem regs s tr)
    (hiso : Isolated (servedReqs (memEvents tr))) {c : L.Cus} {pre : List MemReq}
    {req : MemReq} {resp : MemResp} {rest : List MemResp}
    (hissued : issuedBy (memEvents tr) c = pre ++ [req])
    (hwait : (s.gpu.cus c).pipeline.isWaiting = true)
    (hq : (s.gpu.cus c).memResp = resp :: rest) :
    resp = (flatRequest (flatAfter (flatInit mem) pre) req).1 := by
  have hout := hrun.side.outstanding c
  have hresps : s.pendingResps c = resp :: (rest ++ s.side.respsFor (cuId c)) := by
    rw [System.pendingResps, hq, List.cons_append]
  rw [if_pos hwait, hresps, List.length_cons] at hout
  have hnone : s.pendingReqs c = [] := List.length_eq_zero_iff.1 (by omega)
  have hrest : rest ++ s.side.respsFor (cuId c) = [] := List.length_eq_zero_iff.1 (by omega)
  have hreqs := hrun.side.reqs c
  rw [hnone, List.append_nil, hissued, map_fst_servedFor] at hreqs
  have hall := hrun.responses hiso (cuId c)
  rw [hrun.side.resps c, hresps, hrest, ← hreqs, flatResponses_concat] at hall
  exact (List.append_inj' hall rfl).2 |> List.cons.inj |>.1

/-- Steps that neither issue a request nor finish a dispatch. -/
theorem AllConform.frame {s' : System L} {ev : List TopEvent} (h : AllConform mem regs s tr)
    (hregs : ∀ c, (s'.gpu.cus c).regs = (s.gpu.cus c).regs)
    (hp : ∀ c, (s'.gpu.cus c).pipeline = (s.gpu.cus c).pipeline)
    (hissued : ∀ c : L.Cus, issuedBy (memEvents ev) c = [])
    (hfin : ∀ c, L.finishedBy c (warpTrace ev) = []) : AllConform mem regs s' (tr ++ ev) := by
  intro c
  have hfins : L.finishedBy c (warpTrace tr ++ warpTrace ev) = L.finishedBy c (warpTrace tr) := by
    have := hfin c
    unfold finishedBy at this ⊢
    rw [List.filterMap_append, this, List.append_nil]
  rw [memEvents_append, warpTrace_append, issuedBy_append, hissued, List.append_nil, hfins]
  exact (h c).congr (hregs c) (hp c)

/-- A scheduler has dispatches to tell of, and leaves the registers alone. -/
theorem schedulerStep_regs (c' : L.Cus) {c : L.Cus} {cu cu' : Cu} {start : Bool} {ev : List Event}
    (hs : cu.schedulerStep L c start = some (cu', ev)) :
    cu'.regs = cu.regs ∧ L.finishedBy c' ev = [] := by
  unfold Cu.schedulerStep at hs
  dsimp only at hs
  split at hs
  · split at hs
    · unfold Cu.dispatchRound at hs
      dsimp only at hs
      split at hs
      · obtain ⟨queue, -, heq⟩ := Option.map_eq_some_iff.1 hs
        obtain ⟨rfl, rfl⟩ := Prod.mk.inj heq
        exact ⟨rfl, rfl⟩
      · obtain ⟨rfl, rfl⟩ := Prod.mk.inj (Option.some.inj hs)
        exact ⟨rfl, rfl⟩
    · split at hs <;> obtain ⟨rfl, rfl⟩ := Prod.mk.inj (Option.some.inj hs) <;> exact ⟨rfl, rfl⟩
  · split at hs <;> obtain ⟨rfl, rfl⟩ := Prod.mk.inj (Option.some.inj hs) <;> exact ⟨rfl, rfl⟩
  · obtain ⟨rfl, rfl⟩ := Prod.mk.inj (Option.some.inj hs)
    unfold Cu.readStatus
    split <;> exact ⟨rfl, rfl⟩
  · obtain ⟨queue, -, heq⟩ := Option.map_eq_some_iff.1 hs
    obtain ⟨rfl, rfl⟩ := Prod.mk.inj heq
    exact ⟨rfl, rfl⟩
  · obtain ⟨rfl, rfl⟩ := Prod.mk.inj (Option.some.inj hs)
    unfold Cu.readSignal
    split <;> exact ⟨rfl, rfl⟩

/-- A CU leaves what the others have issued and finished. -/
theorem pipelineStep_other (cu : Cu) {c c' : L.Cus} {ev : List Event} (hc : c' ≠ c)
    (hev : ∀ e ∈ ev, ∃ slot, L.Resident c slot ∧ e.warpId = L.warpIdOf c slot) :
    issuedBy (System.pipelineEvents c cu) c' = [] ∧ L.finishedBy c' ev = [] := by
  have hne : (c : ℕ) ≠ c' := fun heq => hc (Fin.ext heq.symm)
  constructor
  · unfold System.pipelineEvents
    split
    · rw [issuedBy_issued, if_neg hne]
    · rfl
    · rfl
  · refine List.filterMap_eq_nil_iff.2 fun e he => (by?_of_ne fun slot hid => ?_).2
    obtain ⟨slot', -, hid'⟩ := hev e he
    exact hc (warpIdOf_inj (hid.symm.trans hid')).1

/-- The warp in the pipeline is the one that lives in its slot. -/
theorem CuInv.job_warpId {c : L.Cus} {done : Bool} {owed : ℕ} {tr : List Event} {v : CuView}
    {cu : Cu} (h : CuInv L c done owed tr v cu) :
    ∀ d ∈ cu.pipeline.job, d.warpId = L.warpIdOf c d.slotId := by
  intro d hd
  have hflight := h.flight
  generalize v.job = job at hflight
  cases hflight with
  | nothing _ hp => simp [hp, Pipeline.job] at hd
  | queued _ _ hp => simp [hp, Pipeline.job] at hd
  | running hjob _ hp =>
    obtain rfl : d = _ := by simpa [hp, Pipeline.job] using hd
    rw [hjob.warpId, hjob.slotId]
  | waiting hjob _ hp =>
    obtain rfl : d = _ := by simpa [hp, Pipeline.job] using hd
    rw [hjob.warpId, hjob.slotId]
  | reported _ hp => simp [hp, Pipeline.job] at hd

/-- The memory answers requests, and issues none. -/
theorem memory_issuedBy {side side' : MemorySide} {ev : List MemEvent} (c : L.Cus)
    (hs : side.memoryStep D = some (side', ev)) : issuedBy ev c = [] := by
  unfold MemorySide.memoryStep at hs
  split at hs
  · split at hs
    · exact absurd hs (by simp)
    · obtain ⟨-, rfl⟩ := Prod.mk.inj (Option.some.inj hs)
      rfl
  · obtain ⟨queue, -, heq⟩ := Option.map_eq_some_iff.1 hs
    obtain ⟨-, rfl⟩ := Prod.mk.inj heq
    rfl

theorem setCu_keeps {gpu : Gpu L} {c : L.Cus} {cu : Cu} (hregs : cu.regs = (gpu.cus c).regs)
    (hp : cu.pipeline = (gpu.cus c).pipeline) (c' : L.Cus) :
    ((gpu.setCu c cu).cus c').regs = (gpu.cus c').regs ∧
      ((gpu.setCu c cu).cus c').pipeline = (gpu.cus c').pipeline := by
  by_cases hc : c' = c
  · subst hc
    rw [setCu_self]
    exact ⟨hregs, hp⟩
  · rw [setCu_of_ne _ hc]
    exact ⟨rfl, rfl⟩

/-- A pipeline keeps in step with its run alone, and the other CUs with theirs. -/
theorem AllConform.pipelineStep {c : L.Cus} {cu : Cu} {ev : List Event}
    (h : AllConform mem regs s tr) (hrun : FreshRun L D m mem regs s tr)
    (hcap : L.totalWarps.toNat ≤ L.capacity) (hiso : Isolated (servedReqs (memEvents tr)))
    (hs : (s.gpu.cus c).pipelineStep L c = some (cu, ev)) (c' : L.Cus) :
    Conforms L c' (flatInit mem) (regs c') ((s.gpu.setCu c cu).cus c')
      (issuedBy (memEvents tr) c' ++ issuedBy (System.pipelineEvents c (s.gpu.cus c)) c')
      (L.finishedBy c' (warpTrace tr) ++ L.finishedBy c' ev) := by
  obtain ⟨v, g, hv⟩ := LaunchInv.run hrun.gpu hcap
  by_cases hc : c' = c
  · subst hc
    rw [setCu_self]
    exact (h c').pipelineStep hs
      (fun pre req resp rest hissued hwait hq => hrun.response hiso hissued hwait hq)
      (hv.cus c').job_warpId
  · obtain ⟨-, -, -, -, -, hev⟩ := (hv.cus c).pipelineStep hs
    obtain ⟨hissued, hfin⟩ := pipelineStep_other (s.gpu.cus c) hc hev
    rw [setCu_of_ne _ hc, hissued, hfin, List.append_nil, List.append_nil]
    exact h c'

/-- A step of the CUs and of `barrierCoreN`. -/
theorem AllConform.gpu {a : Action L} {s' : System L} {ev : List Event}
    (h : AllConform mem regs s tr) (hrun : FreshRun L D m mem regs s tr)
    (hcap : L.totalWarps.toNat ≤ L.capacity) (hiso : Isolated (servedReqs (memEvents tr)))
    (htake : ∀ c, a ≠ .takeRequest c) (hgive : ∀ c resp, a ≠ .giveResponse c resp)
    (hs : s.gpu.step a = some (s'.gpu, ev)) :
    AllConform mem regs s' (tr ++ (ev.map .warp ++ (s.gpuEvents a).map .mem)) := by
  have hevents (c : L.Cus) : issuedBy (memEvents (ev.map .warp ++ (s.gpuEvents a).map .mem)) c =
      issuedBy (s.gpuEvents a) c := by
    rw [memEvents_append, memEvents_warp, memEvents_mem, List.nil_append]
  have hwarps : warpTrace (ev.map .warp ++ (s.gpuEvents a).map .mem) = ev := by
    rw [warpTrace_append, warpTrace_warp, warpTrace_mem, List.append_nil]
  have hquiet (hnone : s.gpuEvents a = [])
      (hcus : ∀ c, (s'.gpu.cus c).regs = (s.gpu.cus c).regs ∧
        (s'.gpu.cus c).pipeline = (s.gpu.cus c).pipeline)
      (hfin : ∀ c, L.finishedBy c ev = []) :
      AllConform mem regs s' (tr ++ (ev.map .warp ++ (s.gpuEvents a).map .mem)) := by
    refine h.frame (fun c => (hcus c).1) (fun c => (hcus c).2) (fun c => ?_) fun c => ?_
    · rw [hevents, hnone]
      rfl
    · rw [hwarps]
      exact hfin c
  cases a with
  | takeRequest c => exact absurd rfl (htake c)
  | giveResponse c resp => exact absurd rfl (hgive c resp)
  | setStart b =>
    obtain ⟨hgpu, rfl⟩ := Prod.mk.inj (Option.some.inj hs)
    exact hquiet rfl (fun c => by rw [← hgpu]; exact ⟨rfl, rfl⟩) fun c => rfl
  | programLoaded c =>
    unfold Gpu.step at hs
    dsimp only at hs
    split at hs
    · obtain ⟨hgpu, rfl⟩ := Prod.mk.inj (Option.some.inj hs)
      exact hquiet rfl (hgpu ▸ setCu_keeps rfl rfl) fun c => rfl
    · exact absurd hs (by simp)
  | scheduler c =>
    obtain ⟨⟨cu, ev⟩, hr, heq⟩ := Option.map_eq_some_iff.1 hs
    obtain ⟨hgpu, rfl⟩ := Prod.mk.inj heq
    have hp := (schedulerStep_frame hr).2.2
    exact hquiet rfl (hgpu ▸ setCu_keeps (schedulerStep_regs c hr).1 hp)
      fun c' => (schedulerStep_regs c' hr).2
  | barrier =>
    obtain ⟨⟨core, ports⟩, -, heq⟩ := Option.map_eq_some_iff.1 hs
    obtain ⟨hgpu, rfl⟩ := Prod.mk.inj heq
    exact hquiet rfl (fun c => by rw [← hgpu]; exact ⟨rfl, rfl⟩) fun c => rfl
  | pipeline c =>
    obtain ⟨⟨cu, ev⟩, hr, heq⟩ := Option.map_eq_some_iff.1 hs
    obtain ⟨hgpu, rfl⟩ := Prod.mk.inj heq
    intro c'
    have happend : L.finishedBy c' (warpTrace tr ++ ev) =
        L.finishedBy c' (warpTrace tr) ++ L.finishedBy c' ev := List.filterMap_append ..
    rw [memEvents_append, warpTrace_append, issuedBy_append, hevents, hwarps, happend, ← hgpu]
    exact h.pipelineStep hrun hcap hiso hr c'

/-- A step keeps the CUs in step with their runs alone, if the requests served before it are
isolated. -/
theorem AllConform.step {a : SystemAction L} {s' : System L} {ev : List TopEvent}
    (h : AllConform mem regs s tr) (hrun : FreshRun L D m mem regs s tr)
    (hcap : L.totalWarps.toNat ≤ L.capacity) (hiso : Isolated (servedReqs (memEvents tr)))
    (hs : s.step D a = some (s', ev)) : AllConform mem regs s' (tr ++ ev) := by
  cases a with
  | gpu a =>
    obtain ⟨ev', hr, rfl, -⟩ := gpu_step hs
    refine h.gpu hrun hcap hiso ?_ ?_ hr
    · rintro c rfl
      exact absurd hs (by simp [System.step])
    · rintro c resp rfl
      exact absurd hs (by simp [System.step])
  | arbiter =>
    obtain ⟨⟨arb, p, ev⟩, hr, heq⟩ := Option.map_eq_some_iff.1 hs
    obtain ⟨rfl, rfl⟩ := Prod.mk.inj heq
    refine h.frame (fun _ => rfl) (fun _ => rfl) (fun c => ?_) fun c => ?_
    · rw [memEvents_mem]
      refine List.filterMap_eq_nil_iff.2 fun e he => ?_
      obtain ⟨c', req, rfl⟩ := arbiter_events hr e he
      rfl
    · rw [warpTrace_mem]
      rfl
  | memory =>
    obtain ⟨⟨side, ev⟩, hr, heq⟩ := Option.map_eq_some_iff.1 hs
    obtain ⟨rfl, rfl⟩ := Prod.mk.inj heq
    refine h.frame (fun _ => rfl) (fun _ => rfl) (fun c => ?_) fun c => ?_
    · rw [memEvents_mem]
      exact memory_issuedBy c hr
    · rw [warpTrace_mem]
      rfl

theorem allConform_fresh (hfresh : System.Fresh m mem regs s) : AllConform mem regs s [] := by
  intro c
  rw [hfresh.cus c]
  exact ⟨rfl, rfl⟩

/-- The run lemma of `AllConform.step`, where the CUs share nothing alone. -/
theorem FreshRun.allConform (h : FreshRun L D m mem regs s tr)
    (hcap : L.totalWarps.toNat ≤ L.capacity) (hfree : L.NoSharing mem regs) :
    AllConform mem regs s tr := by
  refine h.invariant (fun s tr => AllConform mem regs s tr)
    (fun s hfresh _ => allConform_fresh hfresh) fun s tr a s' ev hrun hinv hs _ => ?_
  exact hinv.step hrun hcap (Isolated.subset hfree (hinv.served_subset hrun hcap)) hs

/-- The run lemma of `AllConform.step`, where they share nothing in the run. -/
theorem FreshRun.allConform_of_isolated (h : FreshRun L D m mem regs s tr)
    (hcap : L.totalWarps.toNat ≤ L.capacity) (hiso : Isolated (servedReqs (memEvents tr))) :
    AllConform mem regs s tr := by
  refine h.invariant (fun s tr => Isolated (servedReqs (memEvents tr)) → AllConform mem regs s tr)
    (fun s hfresh _ _ => allConform_fresh hfresh) (fun s tr a s' ev hrun hinv hs _ hiso => ?_) hiso
  have hbefore : Isolated (servedReqs (memEvents tr)) := by
    refine Isolated.subset hiso ?_
    rw [memEvents_append]
    exact (servedReqs_mono _ _).subset
  exact (hinv hbefore).step hrun hcap hbefore hs

/-! ## The end -/

/-- With `done` up, a CU has executed its schedule. -/
theorem FreshRun.complete (h : FreshRun L D m mem regs s tr)
    (hcap : L.totalWarps.toNat ≤ L.capacity) (hdone : s.gpu.core.done = true) (c : L.Cus) :
    (s.gpu.cus c).pipeline = .idle ∧ L.finishedBy c (warpTrace tr) = L.schedule c := by
  obtain ⟨v, g₀, hv⟩ := LaunchInv.run h.gpu hcap
  obtain ⟨g, k, hord⟩ := ordered_run h.gpu hcap c
  have hdoneAll {slot : SlotId} (hres : L.Resident c slot) : (v c).situation slot = .done :=
    hv.all_done hcap (hv.core.done hdone).2 hres
  have hnone : (v c).job = none := by
    cases hj : (v c).job with
    | none => rfl
    | some p =>
      obtain ⟨hres, hsit⟩ := ((hv.cus c).job p.1 p.2).1 hj
      exact absurd (hsit.symm.trans (hdoneAll hres)) (by simp)
  obtain ⟨hd, hp⟩ : (s.gpu.cus c).dispatch = [] ∧ (s.gpu.cus c).pipeline = .idle := by
    have hflight := (hv.cus c).flight
    rw [hnone] at hflight
    cases hflight with
    | nothing hd hp => exact ⟨hd, hp⟩
  refine ⟨hp, ?_⟩
  have hjobs := hord.jobs
  rw [Cu.jobs, hp, hd, Pipeline.job, List.append_nil, List.append_nil, hord.dispatched] at hjobs
  rw [← hjobs]
  obtain hempty | hsome : (L.residentSlots c).length = 0 ∨
    0 < (L.residentSlots c).length := by omega
  · have hwave (g : ℕ) : L.waveSchedule c g = [] := by
      rw [waveSchedule, List.length_eq_zero_iff.1 hempty, List.map_nil]
    have hnil (gs : List ℕ) : gs.flatMap (L.waveSchedule c) = [] :=
      List.flatMap_eq_nil_iff.2 fun g _ => hwave g
    rw [scheduleTo, schedule, hnil, hnil, hwave, List.take_nil, List.append_nil]
  · have hfirst := resident_get (L := L) (c := c) ⟨0, hsome⟩
    have hcode := (hv.cus c).doneCode _ hfirst (hdoneAll hfirst)
    rw [hord.wave (hv.cus c) hfirst] at hcode
    obtain rfl : k = (L.residentSlots c).length := by
      have hle := hord.le
      by_contra hne
      have hwaits := (hord.waits k (by omega)).2 le_rfl
      rw [(hv.cus c).waits_iff (resident_get ⟨k, by omega⟩)] at hwaits
      exact absurd (hwaits.symm.trans (hdoneAll (resident_get ⟨k, by omega⟩))) (by simp)
    rw [scheduleTo_full, eq_lastWave hord.reached hcode]
    exact List.append_nil _

theorem flatResponses_mono {mem : GlobalMem} {reqs reqs' : List MemReq} (h : reqs <+: reqs') :
    flatResponses mem reqs <+: flatResponses mem reqs' := by
  obtain ⟨rest, rfl⟩ := h
  induction rest using List.reverseRecOn with
  | nil => rw [List.append_nil]
  | append_singleton rest req ih =>
    rw [← List.append_assoc, flatResponses_concat]
    exact ih.trans (List.prefix_append _ _)

/-- A run does on every CU what the CU does alone, and with `done` up it has done all of it. -/
structure FollowsSolo (mem : GlobalMem) (regs : L.Cus → SlotId → RegFile) (s : System L)
    (tr : List TopEvent) : Prop where
  dispatched : ∀ c, L.dispatchedBy c (warpTrace tr) <+: L.schedule c
  issued : ∀ c : L.Cus, issuedBy (memEvents tr) c <+: (L.solo c mem (regs c)).log
  received : ∀ c : L.Cus, receivedBy (memEvents tr) c <+:
    flatResponses (flatInit mem) (L.solo c mem (regs c)).log
  registers : s.gpu.core.done = true → ∀ c, (s.gpu.cus c).regs = (L.solo c mem (regs c)).regs
  memory : s.gpu.core.done = true → s.side.mem.2 = L.soloMemory mem regs
  scratchpads : s.gpu.core.done = true → ∀ c (word : BitVec 32),
    word.toNat * 4 < sharedMemSizeBytes → s.side.mem.1.sharedMem (cuId c) word =
      flatAfter (flatInit mem) (L.solo c mem (regs c)).log word

/-- With `done` up, the memory has served what a CU asks for alone. -/
theorem AllConform.served_done (hconf : AllConform mem regs s tr)
    (h : FreshRun L D m mem regs s tr) (hcap : L.totalWarps.toNat ≤ L.capacity)
    (hdone : s.gpu.core.done = true) (c : L.Cus) :
    requestsOf (cuId c) (servedReqs (memEvents tr)) = (L.solo c mem (regs c)).log := by
  obtain ⟨hp, hfin⟩ := h.complete hcap hdone c
  have hcarries := (hconf c).carries
  rw [hp, hfin] at hcarries
  have hlog : issuedBy (memEvents tr) c = (L.solo c mem (regs c)).log := hcarries
  rw [← map_fst_servedFor, ← hlog]
  exact ((h.side.toArbitrated c).settled (by rw [hp]; rfl)).1.symm

theorem AllConform.soloRequests_subset (hconf : AllConform mem regs s tr)
    (h : FreshRun L D m mem regs s tr) (hcap : L.totalWarps.toNat ≤ L.capacity)
    (hdone : s.gpu.core.done = true) :
    L.soloRequests mem regs ⊆ servedReqs (memEvents tr) := by
  intro req hreq
  obtain ⟨c, hc⟩ := mem_soloRequests.1 hreq
  rw [← hconf.served_done h hcap hdone c] at hc
  exact (List.mem_filter.1 hc).1

/-- A run whose CUs are in step with their runs alone, and share nothing. -/
theorem AllConform.followsSolo (hconf : AllConform mem regs s tr)
    (h : FreshRun L D m mem regs s tr) (hcap : L.totalWarps.toNat ≤ L.capacity)
    (hiso : Isolated (servedReqs (memEvents tr))) : FollowsSolo mem regs s tr := by
  have hserved (hdone : s.gpu.core.done = true) (c : L.Cus) :
      requestsOf (cuId c) (servedReqs (memEvents tr)) = (L.solo c mem (regs c)).log :=
    hconf.served_done h hcap hdone c
  have hsubset : servedReqs (memEvents tr) ⊆ L.soloRequests mem regs := hconf.served_subset h hcap
  have hmem : s.side.mem = stateAfter (m.reset, mem) (servedReqs (memEvents tr)) := h.serves.mem
  have hall (hdone : s.gpu.core.done = true) {req : MemReq} (hreq : req ∈ L.soloRequests mem regs) :
      ∃ c : L.Cus, req.cuId = cuId c ∧ req ∈ servedReqs (memEvents tr) := by
    obtain ⟨c, hc⟩ := mem_soloRequests.1 hreq
    rw [← hserved hdone c] at hc
    obtain ⟨hmem, hid⟩ := List.mem_filter.1 hc
    exact ⟨c, of_decide_eq_true hid, hmem⟩
  refine ⟨fun c => ?_, hconf.issued_initial h hcap, fun c => ?_, fun hdone c => ?_, fun hdone => ?_,
    fun hdone c word hword => ?_⟩
  · obtain ⟨g, k, hord⟩ := ordered_run h.gpu hcap c
    rw [hord.dispatched]
    exact scheduleTo_prefix hord.reached
  · have hissued := hconf.issued_initial h hcap c
    rw [h.side.reqs c, map_fst_servedFor] at hissued
    refine .trans ?_ (flatResponses_mono ((List.prefix_append _ _).trans hissued))
    rw [← h.responses hiso, h.side.resps c]
    exact List.prefix_append _ _
  · rw [(hconf c).sameRegs, (h.complete hcap hdone c).2]
    rfl
  · funext word
    unfold soloMemory
    split
    · next store hfind =>
      have hstore := List.find?_some hfind
      simp only [Bool.and_eq_true, decide_eq_true_eq] at hstore
      obtain ⟨hg, -, rfl⟩ := hstore
      obtain ⟨c, hid, hreq⟩ := hall hdone (List.mem_of_find?_eq_some hfind)
      have hlast := stateAfter_accessed m mem hiso hreq
      rw [if_pos hg, hid, hserved hdone c] at hlast
      rw [hmem, hlast, hid, requestsOf_soloRequests]
    · next hfind =>
      rw [List.find?_eq_none] at hfind
      rw [hmem]
      refine stateAfter_frame fun req hreq hg hw => ?_
      have hnot := hfind req (hsubset hreq)
      simp [hg, hw] at hnot
  · rw [hmem]
    have hlocal {req : MemReq} (hw : reqWord req = word) : isGlobal req = false := by
      unfold isGlobal isSharedMemoryAddress
      rw [← reqWord_mul_four, hw]
      simpa using hword
    by_cases hstored : ∃ req ∈ servedReqs (memEvents tr), req.cuId = cuId c ∧ writesWord req word
    · obtain ⟨req, hreq, hid, -, rfl⟩ := hstored
      have hlast := stateAfter_accessed m mem hiso hreq
      rw [hlocal rfl, if_neg Bool.false_ne_true, hid, hserved hdone c] at hlast
      exact hlast
    · rw [sharedMem_frame fun req hreq hid hw => hstored ⟨req, hreq, hid, hw⟩,
        ← hserved hdone c, flatAfter_frame fun req hreq hw => ?_]
      · rw [flatInit, if_pos hword]
        rfl
      · obtain ⟨hreq, hid⟩ := List.mem_filter.1 hreq
        exact hstored ⟨req, hreq, of_decide_eq_true hid, hw⟩

/-- In every run of a launch without sharing, whatever the order of the steps. -/
theorem FreshRun.followsSolo (h : FreshRun L D m mem regs s tr)
    (hcap : L.totalWarps.toNat ≤ L.capacity) (hfree : L.NoSharing mem regs) :
    FollowsSolo mem regs s tr := by
  have hconf := h.allConform hcap hfree
  exact hconf.followsSolo h hcap (Isolated.subset hfree (hconf.served_subset h hcap))

/-! ## Main result -/

/-- A launch without sharing leaves the same registers and the same memory, whatever the order of
the steps, the depths of the streams outside the top, and the contents of the caches before reset:
those that each CU computes alone. -/
theorem launch_deterministic {D' : SideDepths} {m' : MemorySubsystem} {s' : System L}
    {tr' : List TopEvent} (hcap : L.totalWarps.toNat ≤ L.capacity) (hfree : L.NoSharing mem regs)
    (h : FreshRun L D m mem regs s tr) (h' : FreshRun L D' m' mem regs s' tr') :
    FollowsSolo mem regs s tr ∧ (s.gpu.core.done = true → s'.gpu.core.done = true →
      (∀ c : L.Cus, (s.gpu.cus c).regs = (s'.gpu.cus c).regs) ∧ s.side.mem.2 = s'.side.mem.2 ∧
        ∀ (c : L.Cus) (word : BitVec 32), word.toNat * 4 < sharedMemSizeBytes →
          s.side.mem.1.sharedMem (cuId c) word = s'.side.mem.1.sharedMem (cuId c) word) := by
  have hs := h.followsSolo hcap hfree
  have hs' := h'.followsSolo hcap hfree
  refine ⟨hs, fun hdone hdone' => ⟨fun c => ?_, ?_, fun c word hword => ?_⟩⟩
  · rw [hs.registers hdone c, hs'.registers hdone' c]
  · rw [hs.memory hdone, hs'.memory hdone']
  · rw [hs.scratchpads hdone c word hword, hs'.scratchpads hdone' c word hword]

end Run

/-! ### Two CUs that store -/

/-- Two CUs of one slot, each with a warp whose lane 0 stores a word and loads it. -/
def twoStores : Launch where
  toGpuSize := twoCus
  depths := ⟨2, 2, 2, 2, 1, 2, 1⟩
  fp := ⟨fun a _ => a, fun a _ => a, fun a _ => a, fun a _ _ => a⟩
  vectorOps := true
  program := programStore [encodeInstruction .vbranch 0 1 0 0, encodeInstruction .sw 0 2 3 0,
    encodeInstruction .lw 4 2 0 0, encodeInstruction .halt 0 0 0 0]
  programLen := 4
  totalWarps := 2
  warpIdOffset := 0

/-- Each CU has a word of its own. -/
def twoStoresRegs (c : twoStores.Cus) : SlotId → RegFile := fun _ t r =>
  if r = 1 then if (t : ℕ) = 0 then 0 else 1
  else if r = 2 then 0x10000 + BitVec.ofNat 32 (4 * (c : ℕ))
  else if r = 3 then 7 + BitVec.ofNat 32 (c : ℕ)
  else 0

def twoStoresRun (depth : ℕ) (round : List (SystemAction twoStores)) :
    System twoStores × List TopEvent :=
  followLaunch twoStores ⟨depth, depth⟩ emptySubsystem (fun _ => 0) twoStoresRegs
    (launchActions 30 round)

theorem freshRun_twoStores (depth : ℕ) (round : List (SystemAction twoStores)) :
    FreshRun twoStores ⟨depth, depth⟩ emptySubsystem (fun _ => 0) twoStoresRegs
      (twoStoresRun depth round).1 (twoStoresRun depth round).2 := freshRun_followLaunch _

/-- The processes in one order, and in the other one over deeper streams. -/
theorem launch_deterministic_twoStores :
    (twoStoresRun 1 (launchRound _)).1.gpu.core.done = true ∧
      (twoStoresRun 2 (launchRound _).reverse).1.gpu.core.done = true ∧
      (twoStoresRun 1 (launchRound _)).1.side.mem.2 =
        (twoStoresRun 2 (launchRound _).reverse).1.side.mem.2 := by
  have hdone : (twoStoresRun 1 (launchRound _)).1.gpu.core.done = true := by decide +kernel
  have hdone' : (twoStoresRun 2 (launchRound _).reverse).1.gpu.core.done = true := by decide +kernel
  exact ⟨hdone, hdone', ((launch_deterministic (by decide) (by decide +kernel)
    (freshRun_twoStores 1 _) (freshRun_twoStores 2 _)).2 hdone hdone').2.1⟩

end RiscvGpgpu.Hls
