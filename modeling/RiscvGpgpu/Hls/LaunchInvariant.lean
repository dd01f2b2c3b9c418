import RiscvGpgpu.Hls.CuSteps

/-!
# The invariant of a launch

`LaunchInv` joins the views of the CUs: each is as many waves behind the arbiter as it has releases
to come, and the arbiter's counters are the stalls and completions it has taken off the streams.
Every step keeps it.
-/

namespace RiscvGpgpu.Hls

open Launch

/-- The process `barrierCoreN` in a launch: its counters, and what it has come to. -/
structure CoreInv (L : Launch) (core : BarrierCore) (stalled finished : ℕ) : Prop where
  stalledCount : core.counts.stalledCount = BitVec.ofNat 32 stalled
  doneCount : core.counts.doneCount = BitVec.ofNat 32 finished
  totalWarps : core.busy = true ∨ core.done = true → core.counts.totalWarps = L.totalWarps
  notStarted : core.busy = false → core.done = false → stalled = 0 ∧ finished = 0
  busy : core.pc ≠ .head → (∀ i, core.pc ≠ .signalDone i) → core.busy = true
  signalDone : ∀ i, core.pc = .signalDone i → core.done = true
  done : core.done = true → core.busy = false ∧ finished = L.totalWarps.toNat

/-- The state is as the views say, after `g` releases. -/
structure ViewInv (L : Launch) (s : Gpu L) (tr : List Event) (v : L.Cus → CuView) (g : ℕ) :
    Prop where
  cus : ∀ c, CuInv L c s.core.done (s.core.owed c) tr (v c) (s.cus c)
  waves : ∀ c, (v c).wave + (s.cus c).releases + s.core.owed c = g
  core : CoreInv L s.core (∑ c, (v c).stalledSeen) (∑ c, (v c).doneSeen)

def LaunchInv (L : Launch) (s : Gpu L) (tr : List Event) : Prop := ∃ v g, ViewInv L s tr v g

section Steps

variable {L : Launch} {s : Gpu L} {tr : List Event} {v : L.Cus → CuView} {g : ℕ}

theorem LaunchInv.reset (h : s.IsReset) : LaunchInv L s [] := by
  obtain ⟨hcore, hcus⟩ := h
  refine ⟨fun _ => ⟨false, 0, fun _ => .waiting, none, 0, 0⟩, 0, fun c => ?_, fun c => ?_, ?_⟩
  · obtain ⟨regs, hcu⟩ := hcus c
    rw [hcore, hcu]
    refine ⟨?_, .idle rfl rfl (.inl rfl) rfl fun _ _ => ⟨rfl, rfl⟩, .nothing rfl rfl rfl, by simp,
      by simp [Gpu.resetCu], by simp, by simp, by simp, fun slot _ => ⟨rfl, rfl, rfl⟩,
      ?_, ?_, ?_, ?_,
      by simp [Gpu.resetCu]⟩
    · funext slot
      simp [Gpu.resetCu, slotsOf]
    · simp [Cu.eventsInFlight, Cu.releases, Gpu.resetCu, BarrierCore.owed, countIn]
    · simp [Cu.eventsInFlight, Gpu.resetCu, countIn]
    · simp [Cu.releases, Gpu.resetCu, BarrierCore.owed]
    · simp [Cu.releases, Gpu.resetCu, BarrierCore.owed]
  · obtain ⟨regs, hcu⟩ := hcus c
    rw [hcore, hcu]
    simp [Cu.releases, Gpu.resetCu, BarrierCore.owed]
  · rw [hcore]
    refine ⟨by simp, by simp, by simp, by simp, by simp, by simp, by simp⟩

/-! ## Steps of one CU -/

/-- Events of one CU do not matter to the others. -/
theorem CuInv.frame {c c' : L.Cus} {done : Bool} {owed : ℕ} {w : CuView} {cu : Cu}
    {ev : List Event} (h : CuInv L c done owed tr w cu)
    (hev : ∀ e ∈ ev, ∃ slot, L.Resident c' slot ∧ e.warpId = L.warpIdOf c' slot) (hne : c' ≠ c) :
    CuInv L c done owed (tr ++ ev) w cu :=
  { h with
    warps := fun slot hres => (h.warps slot hres).frame fun e he hid => by
      obtain ⟨slot', -, hid'⟩ := hev e he
      exact hne (warpIdOf_inj (hid'.symm.trans hid)).1 }

theorem sum_update (f : CuView → ℕ) (c : L.Cus) (w : CuView) :
    ∑ c', f (Function.update v c w c') + f (v c) = ∑ c', f (v c') + f w := by
  rw [← Finset.add_sum_erase _ _ (Finset.mem_univ c),
    ← Finset.add_sum_erase _ (fun c' => f (v c')) (Finset.mem_univ c), Function.update_self]
  have hrest : ∑ c' ∈ Finset.univ.erase c, f (Function.update v c w c') =
      ∑ c' ∈ Finset.univ.erase c, f (v c') :=
    Finset.sum_congr rfl fun c' hc => by rw [Function.update_of_ne (Finset.ne_of_mem_erase hc)]
  omega

theorem ViewInv.setCu {c : L.Cus} {cu' : Cu} {ev : List Event} (h : ViewInv L s tr v g)
    (hstep : CuStep L c s.core.done (s.core.owed c) tr (v c) (s.cus c) cu' ev) :
    LaunchInv L (s.setCu c cu') (tr ++ ev) := by
  obtain ⟨w, hw, hS, hD, hwave, hev⟩ := hstep
  have hsum (f : CuView → ℕ) (hf : f w = f (v c)) :
      ∑ c', f (Function.update v c w c') = ∑ c', f (v c') := by
    have := sum_update (v := v) f c w
    omega
  refine ⟨Function.update v c w, g, fun c' => ?_, fun c' => ?_, ?_⟩
  · by_cases hc : c' = c
    · subst hc
      simpa [Gpu.setCu] using hw
    · simpa [Gpu.setCu, hc] using (h.cus c').frame hev (Ne.symm hc)
  · by_cases hc : c' = c
    · subst hc
      have hold := h.waves c'
      simp only [Gpu.setCu, Function.update_self]
      omega
    · simpa [Gpu.setCu, hc] using h.waves c'
  · rw [hsum CuView.stalledSeen hS, hsum CuView.doneSeen hD]
    exact h.core

/-! ## Steps of the arbiter -/

/-- The streams between a CU and the arbiter change, and nothing else. -/
theorem CuInv.setPort {c : L.Cus} {done done' : Bool} {owed owed' : ℕ} {w : CuView} {cu : Cu}
    (h : CuInv L c done owed tr w cu) (port : BarrierPort) {stalledSeen doneSeen : ℕ}
    (hpend : ({ cu with port := port } : Cu).releases + owed' = cu.releases + owed)
    (hS : stalledSeen + ({ cu with port := port } : Cu).eventsInFlight .stalledAtBarrier =
      w.stalledSeen + cu.eventsInFlight .stalledAtBarrier)
    (hD : doneSeen + ({ cu with port := port } : Cu).eventsInFlight .complete =
      w.doneSeen + cu.eventsInFlight .complete)
    (hsig : ∀ sig ∈ port.signals, sig = releaseSignal ∨ sig = doneSignal ∧ done' = true)
    (hdone : done = true → done' = true) :
    CuInv L c done' owed' tr { w with stalledSeen := stalledSeen, doneSeen := doneSeen }
      { cu with port := port } where
  slots := h.slots
  phase := by
    obtain ⟨h1, h2, h3, h4, h5⟩ | ⟨h1, h2, h3⟩ | ⟨h1, h2, h3, h4⟩ := h.phase
    · exact .idle h1 h2 h3 h4 h5
    · exact .running h1 h2 h3
    · exact .finished h1 h2 h3 (hdone h4)
  flight := h.flight.congr rfl rfl rfl
  job := h.job
  busyCu := h.busyCu
  eventJob := h.eventJob
  stalledCode := h.stalledCode
  doneCode := h.doneCode
  warps := h.warps
  stalledCount := by
    dsimp only
    rw [hpend, hS]
    exact h.stalledCount
  doneCount := by
    dsimp only
    rw [hD]
    exact h.doneCount
  oneRelease := by rw [hpend]; exact h.oneRelease
  releaseStalled := by rw [hpend]; exact h.releaseStalled
  signals := hsig

/-- The arbiter moves on, and owes no CU more or less. -/
theorem ViewInv.setCore {core : BarrierCore} (h : ViewInv L s tr v g)
    (hdone : s.core.done = true → core.done = true)
    (howed : ∀ c : L.Cus, core.owed c = s.core.owed c)
    (hcore : CoreInv L core (∑ c, (v c).stalledSeen) (∑ c, (v c).doneSeen)) :
    LaunchInv L (s.withBarrier core s.ports) tr := by
  refine ⟨v, g, fun c => ?_, fun c => ?_, hcore⟩
  · exact (h.cus c).setPort (s.cus c).port (by rw [← howed c]; rfl) rfl rfl
      (fun sig hs => ((h.cus c).signals sig hs).imp_right fun hs => ⟨hs.1, hdone hs.2⟩) hdone
  · have := h.waves c
    rw [← howed c] at this
    exact this

theorem withBarrier_cus_self (core : BarrierCore) (c : L.Cus) (port : BarrierPort) :
    (s.withBarrier core (Function.update s.ports c port)).cus c =
    { s.cus c with port := port } := by
  simp [Gpu.withBarrier]

theorem withBarrier_cus_of_ne (core : BarrierCore) {c c' : L.Cus} (port : BarrierPort)
    (hc : c' ≠ c) : (s.withBarrier core (Function.update s.ports c port)).cus c' = s.cus c' := by
  simp only [Gpu.withBarrier, Function.update_of_ne hc]
  rfl

/-- The arbiter takes an event from one CU or sends it a signal. -/
theorem ViewInv.setPort {c : L.Cus} {core : BarrierCore} {port : BarrierPort}
    (h : ViewInv L s tr v g) (stalledSeen doneSeen : ℕ)
    (hdone : core.done = s.core.done) (howed : ∀ c', c' ≠ c → core.owed c' = s.core.owed c')
    (hpend : ({ s.cus c with port := port } : Cu).releases + core.owed c =
      (s.cus c).releases + s.core.owed c)
    (hS : stalledSeen + ({ s.cus c with port := port } : Cu).eventsInFlight .stalledAtBarrier =
      (v c).stalledSeen + (s.cus c).eventsInFlight .stalledAtBarrier)
    (hD : doneSeen + ({ s.cus c with port := port } : Cu).eventsInFlight .complete =
      (v c).doneSeen + (s.cus c).eventsInFlight .complete)
    (hsig : ∀ sig ∈ port.signals, sig = releaseSignal ∨ sig = doneSignal ∧ s.core.done = true)
    (hcore : ∀ stalled finished, stalled + (v c).stalledSeen =
      ∑ c', (v c').stalledSeen + stalledSeen →
      finished + (v c).doneSeen = ∑ c', (v c').doneSeen + doneSeen →
        CoreInv L core stalled finished) :
    LaunchInv L (s.withBarrier core (Function.update s.ports c port)) tr := by
  refine ⟨Function.update v c { v c with stalledSeen := stalledSeen, doneSeen := doneSeen }, g,
    fun c' => ?_, fun c' => ?_, hcore _ _ ?_ ?_⟩
  · rw [show (s.withBarrier core (Function.update s.ports c port)).core = core from rfl, hdone]
    by_cases hc : c' = c
    · subst hc
      rw [withBarrier_cus_self, Function.update_self]
      exact (h.cus c').setPort port hpend hS hD hsig id
    · rw [withBarrier_cus_of_ne _ _ hc, Function.update_of_ne hc, howed c' hc]
      exact h.cus c'
  · rw [show (s.withBarrier core (Function.update s.ports c port)).core = core from rfl]
    by_cases hc : c' = c
    · subst hc
      have hold := h.waves c'
      rw [withBarrier_cus_self, Function.update_self]
      dsimp only at hpend ⊢
      omega
    · rw [withBarrier_cus_of_ne _ _ hc, Function.update_of_ne hc, howed c' hc]
      exact h.waves c'
  · exact sum_update CuView.stalledSeen c _
  · exact sum_update CuView.doneSeen c _

/-! ## Counting -/

theorem countIn_le (c : L.Cus) (w : CuView) (sit : Situation) :
    L.countIn c w sit ≤ (L.residents c).card := Finset.card_filter_le _ _

/-- A count that reaches the residents has them all. -/
theorem all_of_countIn {c : L.Cus} {w : CuView} {sit : Situation}
    (h : L.countIn c w sit = (L.residents c).card) {slot : SlotId} (hres : L.Resident c slot) :
    w.situation slot = sit :=
  Finset.filter_card_eq h slot (mem_residents.2 hres)

theorem CuInv.stalledSeen_le {c : L.Cus} {done : Bool} {owed : ℕ} {w : CuView} {cu : Cu}
    (h : CuInv L c done owed tr w cu) :
    w.stalledSeen + cu.eventsInFlight .stalledAtBarrier ≤ (L.residents c).card := by
  rw [h.stalledCount]
  split
  · exact countIn_le c w _
  · exact Nat.zero_le _

theorem CuInv.doneSeen_le {c : L.Cus} {done : Bool} {owed : ℕ} {w : CuView} {cu : Cu}
    (h : CuInv L c done owed tr w cu) :
    w.doneSeen + cu.eventsInFlight .complete ≤ (L.residents c).card := by
  rw [h.doneCount]
  exact countIn_le c w _

/-- A per-CU count whose sum is the number of warps is the number of residents in each CU. -/
theorem eq_residents_of_sum (hcap : L.totalWarps.toNat ≤ L.capacity) {f : L.Cus → ℕ}
    (hle : ∀ c, f c ≤ (L.residents c).card) (hsum : ∑ c, f c = L.totalWarps.toNat) (c : L.Cus) :
    f c = (L.residents c).card := by
  rw [← sum_residents hcap] at hsum
  exact (Finset.sum_eq_sum_iff_of_le fun c _ => hle c).1 hsum c (Finset.mem_univ c)

/-- The counters do not wrap. -/
theorem sum_eq_of_ofNat (hcap : L.totalWarps.toNat ≤ L.capacity) {f : L.Cus → ℕ}
    (hle : ∀ c, f c ≤ (L.residents c).card)
    (h : BitVec.ofNat 32 (∑ c, f c) = L.totalWarps) : ∑ c, f c = L.totalWarps.toNat := by
  have hsum : ∑ c, f c ≤ L.totalWarps.toNat := by
    rw [← sum_residents hcap]
    exact Finset.sum_le_sum fun c _ => hle c
  have hlt := L.totalWarps.isLt
  rw [← h, BitVec.toNat_ofNat, Nat.mod_eq_of_lt (by omega)]

/-- The counter is full: every warp is stalled, in the same wave, and nothing is on its way. -/
theorem ViewInv.all_stalled (h : ViewInv L s tr v g) (hcap : L.totalWarps.toNat ≤ L.capacity)
    (hready : barrierReleaseReady s.core.counts = true) (hbusy : s.core.busy = true) (c : L.Cus) :
    (∀ slot, L.Resident c slot → (v c).situation slot = .stalled ∧
      (s.cus c).releases + s.core.owed c = 0) ∧
      (v c).stalledSeen = (L.residents c).card ∧
      (s.cus c).eventsInFlight .stalledAtBarrier = 0 := by
  have heq : BitVec.ofNat 32 (∑ c, (v c).stalledSeen) = L.totalWarps := by
    simp only [barrierReleaseReady, Bool.and_eq_true, decide_eq_true_eq] at hready
    rw [← h.core.stalledCount, hready.2, h.core.totalWarps (.inl hbusy)]
  have hle (c : L.Cus) : (v c).stalledSeen ≤ (L.residents c).card :=
    le_trans (Nat.le_add_right _ _) (h.cus c).stalledSeen_le
  have hseen := eq_residents_of_sum hcap hle (sum_eq_of_ofNat hcap hle heq) c
  have hcount := (h.cus c).stalledCount
  have hbound := (h.cus c).stalledSeen_le
  refine ⟨fun slot hres => ?_, hseen, by omega⟩
  have hpos : 0 < (L.residents c).card := Finset.card_pos.2 ⟨slot, mem_residents.2 hres⟩
  split at hcount
  · next hzero => exact ⟨all_of_countIn (by have := countIn_le c (v c) .stalled; omega) hres, hzero⟩
  · omega

/-- The number of completions is full: every warp is done. -/
theorem ViewInv.all_done (h : ViewInv L s tr v g) (hcap : L.totalWarps.toNat ≤ L.capacity)
    (hsum : ∑ c, (v c).doneSeen = L.totalWarps.toNat) {c : L.Cus} {slot : SlotId}
    (hres : L.Resident c slot) : (v c).situation slot = .done := by
  have hseen := eq_residents_of_sum hcap
    (fun c => le_trans (Nat.le_add_right _ _) (h.cus c).doneSeen_le) hsum c
  have hcount := (h.cus c).doneCount
  have := countIn_le c (v c) .done
  exact all_of_countIn (by omega) hres

/-! ## The steps of `barrierCoreN` -/

/-- The arbiter decides to release: every CU is owed a release. -/
theorem ViewInv.release (h : ViewInv L s tr v g) (hcap : L.totalWarps.toNat ≤ L.capacity)
    (hpc : s.core.pc = .releaseCheck) (hready : barrierReleaseReady s.core.counts = true) :
    LaunchInv L (s.withBarrier { s.core with
      counts := barrierAcknowledgeRelease s.core.counts, pc := .signalRelease 0 } s.ports) tr := by
  have hbusy := h.core.busy (by simp [hpc]) (by simp [hpc])
  have hall := h.all_stalled hcap hready hbusy
  have howed (c : ℕ) : s.core.owed c = 0 := by simp [BarrierCore.owed, hpc]
  refine ⟨fun c => { v c with stalledSeen := 0 }, g + 1, fun c => ?_, fun c => ?_, ?_⟩
  · have hc := h.cus c
    obtain ⟨hstalled, -, hev⟩ := hall c
    change CuInv L c s.core.done 1 tr _ (s.cus c)
    refine { hc with
      phase := ?_, stalledCount := ?_, doneCount := hc.doneCount, oneRelease := fun slot hres => ?_
      releaseStalled := fun _ slot hres => (hstalled slot hres).1 }
    · obtain ⟨h1, h2, h3, h4, h5⟩ | ⟨h1, h2, h3⟩ | ⟨h1, h2, h3, h4⟩ := hc.phase
      · exact .idle h1 h2 h3 h4 h5
      · exact .running h1 h2 h3
      · exact .finished h1 h2 h3 h4
    · rw [hev]
      simp
    · have hzero := (hstalled slot hres).2
      omega
  · have hw := h.waves c
    rw [howed] at hw
    change (v c).wave + (s.cus c).releases + 1 = g + 1
    omega
  · have hcore := h.core
    rw [Finset.sum_const_zero]
    refine ⟨rfl, hcore.doneCount, hcore.totalWarps, ?_, fun _ _ => hbusy, by simp [Gpu.withBarrier],
      hcore.done⟩
    intro hb
    exact absurd (hbusy.symm.trans hb) (by simp)

/-- The arbiter takes an event off a stream. -/
theorem ViewInv.poll (h : ViewInv L s tr v g) {c : L.Cus} (hpc : s.core.pc = .pollCuEvents c)
    {code : WarpStatusCode} {rest : List WarpStatusCode}
    (hev : (s.cus c).port.events = code :: rest) :
    LaunchInv L (s.withBarrier { s.core with
        counts := barrierOnEvent s.core.counts code, pc := .pollCuEvents (c + 1) }
      (Function.update s.ports c { (s.cus c).port with events := rest })) tr := by
  have hbusy := h.core.busy (by simp [hpc]) (by simp [hpc])
  have hcore := h.core
  have hcount (code' : WarpStatusCode) : (s.cus c).eventsInFlight code' =
      ({ s.cus c with port := { (s.cus c).port with events := rest } } : Cu).eventsInFlight code' +
        if code = code' then 1 else 0 := by
    simp only [Cu.eventsInFlight, hev]
    by_cases hc : code = code'
    · subst hc
      rw [List.count_cons_self, if_pos rfl]
      omega
    · rw [List.count_cons_of_ne hc, if_neg hc]
      omega
  refine h.setPort ((v c).stalledSeen + if code = .stalledAtBarrier then 1 else 0)
    ((v c).doneSeen + if code = .complete then 1 else 0) rfl
    (by simp [BarrierCore.owed, hpc]) (by simp [BarrierCore.owed, hpc, Cu.releases]) ?_ ?_
    (h.cus c).signals fun stalled finished hS hD => ?_
  · rw [hcount .stalledAtBarrier]
    omega
  · rw [hcount .complete]
    omega
  · have hS' : stalled = ∑ c', (v c').stalledSeen + if code = .stalledAtBarrier then 1 else 0 := by
      omega
    have hD' : finished = ∑ c', (v c').doneSeen + if code = .complete then 1 else 0 := by omega
    refine ⟨?_, ?_, fun hb => ?_, fun hb => absurd (hbusy.symm.trans hb) (by simp),
      fun _ _ => hbusy,
      by simp, fun hd => absurd ((hcore.done hd).1.symm.trans hbusy) (by simp)⟩
    · rw [hS']
      cases code <;> simp [barrierOnEvent, hcore.stalledCount, BitVec.ofNat_add]
    · rw [hD']
      cases code <;> simp [barrierOnEvent, hcore.doneCount, BitVec.ofNat_add]
    · have htotal := hcore.totalWarps hb
      cases code <;> exact htotal

/-- The arbiter sends a release it owes. -/
theorem ViewInv.sendRelease (h : ViewInv L s tr v g) {c : L.Cus}
    (hpc : s.core.pc = .signalRelease c) :
    LaunchInv L (s.withBarrier { s.core with pc := .signalRelease (c + 1) }
      (Function.update s.ports c
        { (s.cus c).port with signals := (s.cus c).port.signals ++ [releaseSignal] })) tr := by
  have hbusy := h.core.busy (by simp [hpc]) (by simp [hpc])
  have hcore := h.core
  refine h.setPort (v c).stalledSeen (v c).doneSeen rfl
    (fun c' hc => ?_) ?_ rfl rfl (fun sig hs => ?_) fun stalled finished hS hD => ?_
  · have hne : (c' : ℕ) ≠ c := fun heq => hc (Fin.ext heq)
    simp only [BarrierCore.owed, hpc]
    split <;> split <;> omega
  · simp [BarrierCore.owed, hpc, Cu.releases]
  · obtain hs | hs := List.mem_append.1 hs
    · exact (h.cus c).signals sig hs
    · exact .inl (List.mem_singleton.1 hs)
  · obtain rfl : stalled = ∑ c', (v c').stalledSeen := by omega
    obtain rfl : finished = ∑ c', (v c').doneSeen := by omega
    exact ⟨hcore.stalledCount, hcore.doneCount, hcore.totalWarps, hcore.notStarted,
      fun _ _ => hbusy, by simp, hcore.done⟩

/-- The arbiter tells a CU that the kernel is done. -/
theorem ViewInv.sendDone (h : ViewInv L s tr v g) {c : L.Cus} (hpc : s.core.pc = .signalDone c) :
    LaunchInv L (s.withBarrier { s.core with pc := .signalDone (c + 1) }
      (Function.update s.ports c
        { (s.cus c).port with signals := (s.cus c).port.signals ++ [doneSignal] })) tr := by
  have hdone := h.core.signalDone c hpc
  have hcore := h.core
  refine h.setPort (v c).stalledSeen (v c).doneSeen rfl
    (fun c' hc => ?_) ?_ rfl rfl (fun sig hs => ?_) fun stalled finished hS hD => ?_
  · simp [BarrierCore.owed, hpc]
  · have hne : doneSignal ≠ releaseSignal := by decide
    simp [BarrierCore.owed, hpc, Cu.releases, hne]
  · obtain hs | hs := List.mem_append.1 hs
    · exact (h.cus c).signals sig hs
    · exact .inr ⟨List.mem_singleton.1 hs, hdone⟩
  · obtain rfl : stalled = ∑ c', (v c').stalledSeen := by omega
    obtain rfl : finished = ∑ c', (v c').doneSeen := by omega
    exact ⟨hcore.stalledCount, hcore.doneCount, hcore.totalWarps, hcore.notStarted,
      fun _ hnot => absurd rfl (hnot _), fun _ _ => hdone, hcore.done⟩

/-- The arbiter moves on while it is busy. -/
theorem ViewInv.goOn (h : ViewInv L s tr v g) (hbusy : s.core.busy = true) {pc : BarrierPc}
    (howed : ∀ c : L.Cus, ({ s.core with pc := pc } : BarrierCore).owed c = s.core.owed c)
    (hpc : ∀ i, pc ≠ .signalDone i) :
    LaunchInv L (s.withBarrier { s.core with pc := pc } s.ports) tr :=
  h.setCore id howed ⟨h.core.stalledCount, h.core.doneCount, h.core.totalWarps, h.core.notStarted,
    fun _ _ => hbusy, fun i hi => absurd hi (hpc i), h.core.done⟩

/-- The launch: with `start` high there was no launch before. -/
theorem ViewInv.accept (h : ViewInv L s tr v g) (hlaunch : OneLaunch s) (hpc : s.core.pc = .head)
    (hb : s.core.busy = false) (hstart : s.start = true) :
    LaunchInv L (s.withBarrier
      { s.core with counts := barrierLaunch L.toGpuSize L.totalWarps, busy := true }
      s.ports) tr := by
  have hdone : s.core.done = false := by
    by_contra hd
    rw [Bool.not_eq_false] at hd
    exact absurd ((hlaunch hd).symm.trans hstart) (by simp)
  obtain ⟨hS, hD⟩ := h.core.notStarted hb hdone
  exact h.setCore id (by simp [BarrierCore.owed, hpc]) ⟨by rw [hS]; rfl, by rw [hD]; rfl,
    fun _ => rfl, by simp, fun hne _ => absurd hpc hne, fun i hi => by simp [hpc] at hi,
    fun hd => absurd (hdone.symm.trans hd) (by simp)⟩

/-- The arbiter has counted every warp. -/
theorem ViewInv.complete (h : ViewInv L s tr v g) (hcap : L.totalWarps.toNat ≤ L.capacity)
    (hpc : s.core.pc = .completeCheck)
    (hcomplete : barrierKernelComplete s.core.counts = true) :
    LaunchInv L (s.withBarrier { s.core with busy := false, done := true, pc := .signalDone 0 }
      s.ports) tr := by
  have hbusy := h.core.busy (by simp [hpc]) (by simp [hpc])
  simp only [barrierKernelComplete, Bool.and_eq_true, decide_eq_true_eq] at hcomplete
  have hsum : ∑ c, (v c).doneSeen = L.totalWarps.toNat := by
    refine sum_eq_of_ofNat hcap
      (fun c => le_trans (Nat.le_add_right _ _) (h.cus c).doneSeen_le) ?_
    rw [← h.core.doneCount, hcomplete.2, h.core.totalWarps (.inl hbusy)]
  exact h.setCore (fun _ => rfl) (by simp [BarrierCore.owed, hpc]) ⟨h.core.stalledCount,
    h.core.doneCount, fun _ => h.core.totalWarps (.inl hbusy), by simp,
    fun _ hnot => absurd rfl (hnot 0), fun _ _ => rfl, fun _ => ⟨rfl, hsum⟩⟩

/-- Every step of `barrierCoreN` keeps the invariant. -/
theorem LaunchInv.barrier {core : BarrierCore} {ports : L.Cus → BarrierPort}
    (h : LaunchInv L s tr) (hcap : L.totalWarps.toNat ≤ L.capacity)
    (hlaunch : OneLaunch s)
    (hs : barrierStep L.toGpuSize L.depths.barrierSignal L.totalWarps s.start s.core s.ports =
      some (core, ports)) : LaunchInv L (s.withBarrier core ports) tr := by
  obtain ⟨v, g, h⟩ := h
  have hcore := h.core
  have hbusy (hhead : s.core.pc ≠ .head) (hdone : ∀ i, s.core.pc ≠ .signalDone i) :
      s.core.busy = true := hcore.busy hhead hdone
  cases barrierStep_moves hs with
  | poll hpc hb => exact h.goOn hb (by simp [BarrierCore.owed, hpc]) (by simp)
  | idle => exact h.setCore id (fun _ => rfl) hcore
  | reject _ _ _ hover => exact absurd hcap (Nat.not_le.2 hover)
  | accept hpc hb hstart => exact h.accept hlaunch hpc hb hstart
  | count hpc hev => exact h.poll hpc hev
  | release hpc hready => exact h.release hcap hpc hready
  | signal hpc => exact h.sendRelease hpc
  | signalled hpc hc =>
    refine h.goOn (hbusy (by simp [hpc]) (by simp [hpc])) (fun c' => ?_) (by simp)
    have hlt := c'.isLt
    simp only [BarrierCore.owed, hpc]
    rw [if_neg (by omega)]
  | complete hpc hcomplete => exact h.complete hcap hpc hcomplete
  | pass hpc | polled hpc | hold hpc | incomplete hpc =>
    exact h.goOn (hbusy (by simp [hpc]) (by simp [hpc])) (by simp [BarrierCore.owed, hpc]) (by simp)
  | finish hpc => exact h.sendDone hpc
  | finished hpc =>
    exact h.setCore id (by simp [BarrierCore.owed, hpc]) ⟨hcore.stalledCount, hcore.doneCount,
      hcore.totalWarps, hcore.notStarted, fun hne => absurd rfl hne, by simp, hcore.done⟩

/-! ## Runs -/

theorem LaunchInv.step {s' : Gpu L} {ev : List Event} {a : Action L} (h : LaunchInv L s tr)
    (hcap : L.totalWarps.toNat ≤ L.capacity) (hlaunch : OneLaunch s)
    (hs : s.step a = some (s', ev)) : LaunchInv L s' (tr ++ ev) := by
  cases a with
  | setStart b =>
    obtain ⟨rfl, rfl⟩ := Prod.mk.inj (Option.some.inj hs)
    obtain ⟨v, g, h⟩ := h
    rw [List.append_nil]
    exact ⟨v, g, h.cus, h.waves, h.core⟩
  | programLoaded c =>
    obtain ⟨v, g, h⟩ := h
    unfold Gpu.step at hs
    dsimp only at hs
    split at hs
    · obtain ⟨rfl, rfl⟩ := Prod.mk.inj (Option.some.inj hs)
      refine h.setCu (CuInv.cuStep ?_ rfl)
      exact (h.cus c).congr rfl rfl rfl rfl rfl
    · exact absurd hs (by simp)
  | scheduler c =>
    obtain ⟨v, g, h⟩ := h
    obtain ⟨r, hr, heq⟩ := Option.map_eq_some_iff.1 hs
    obtain ⟨rfl, rfl⟩ := Prod.mk.inj heq
    refine h.setCu ((h.cus c).schedulerStep (fun hstart => ?_) hr)
    by_contra hd
    rw [Bool.not_eq_false] at hd
    exact absurd ((hlaunch hd).symm.trans hstart) (by simp)
  | pipeline c =>
    obtain ⟨v, g, h⟩ := h
    obtain ⟨r, hr, heq⟩ := Option.map_eq_some_iff.1 hs
    obtain ⟨rfl, rfl⟩ := Prod.mk.inj heq
    exact h.setCu ((h.cus c).pipelineStep hr)
  | barrier =>
    obtain ⟨r, hr, heq⟩ := Option.map_eq_some_iff.1 hs
    obtain ⟨rfl, rfl⟩ := Prod.mk.inj heq
    rw [List.append_nil]
    exact h.barrier hcap hlaunch hr
  | takeRequest c =>
    obtain ⟨v, g, h⟩ := h
    unfold Gpu.step at hs
    dsimp only at hs
    split at hs
    · exact absurd hs (by simp)
    · obtain ⟨rfl, rfl⟩ := Prod.mk.inj (Option.some.inj hs)
      refine h.setCu (CuInv.cuStep ?_ rfl)
      exact (h.cus c).congr rfl rfl rfl rfl rfl
  | giveResponse c resp =>
    obtain ⟨v, g, h⟩ := h
    obtain ⟨r, hr, heq⟩ := Option.map_eq_some_iff.1 hs
    obtain ⟨rfl, rfl⟩ := Prod.mk.inj heq
    refine h.setCu (CuInv.cuStep ?_ rfl)
    exact (h.cus c).congr rfl rfl rfl rfl rfl

/-- The invariant holds in every state of a launch. -/
theorem LaunchInv.run (h : LaunchRun L s tr) (hcap : L.totalWarps.toNat ≤ L.capacity) :
    LaunchInv L s tr :=
  h.invariant (LaunchInv L) (fun _ hreset _ => .reset hreset)
    fun _ _ _ _ _ hrun hinv hs _ => hinv.step hcap hrun.holds hs

end Steps

end RiscvGpgpu.Hls
