import RiscvGpgpu.Hls.LaunchInvariant
import RiscvGpgpu.Hls.WarpRun

/-!
# Barrier safety and exactly-once execution

What `LaunchInv` says about the processes themselves. A release is issued only when every warp
waits at one barrier, so that no warp runs past a barrier before all others have come to it; and
every warp is launched once, resumed where it stalled, and done when the kernel is.
-/

namespace RiscvGpgpu.Hls

open Launch

section Statements

variable {L : Launch} (s : Gpu L) (tr : List Event)

/-- The next step of `barrierCoreN` issues a release. -/
def IssuesRelease : Prop := s.core.pc = .releaseCheck ∧ barrierReleaseReady s.core.counts = true

/-- The compute pipeline of a CU is inside `executeOneWarp`. -/
def Executing (c : L.Cus) (d : WarpDispatch) : Prop :=
  (∃ p, (s.cus c).pipeline = .running d p) ∨ ∃ k, (s.cus c).pipeline = .waiting d k

/-- The warp id of the `w`-th warp of the launch. -/
def Launch.warpId (L : Launch) (w : ℕ) : WarpId := L.warpIdOffset + BitVec.ofNat 32 w

def Gpu.slot (c : L.Cus) (slot : SlotId) : WarpSlot := (s.cus c).scheduler.slots slot

/-- The slots of a CU in a state. -/
def Gpu.slotsIn (c : L.Cus) (state : SlotState) : ℕ :=
  (Finset.univ.filter fun slot => (s.slot c slot).state = state).card

/-- A release on its way to a CU. -/
def Gpu.releaseInFlight (c : L.Cus) : Prop := (s.cus c).releases + s.core.owed c ≠ 0

instance (c : L.Cus) : Decidable (s.releaseInFlight c) := inferInstanceAs (Decidable (_ ≠ _))

/-- What the barrier promises of a state of a launch. -/
structure BarrierSafe : Prop where
  /-- A release is issued only when all warps are stalled alike. -/
  release : IssuesRelease s → ∃ pc barrierId, ∀ w < L.totalWarps.toNat, ∃ c slot,
    L.localWarp c slot = w ∧ s.slot c slot = ⟨L.warpId w, pc, barrierId, .stalled, false⟩
  /-- No warp is past a barrier that another warp has not executed. -/
  barriers : ∀ c d, Executing s c d → ∀ w < L.totalWarps.toNat,
    barriersExecuted tr d.warpId ≤ barriersExecuted tr (L.warpId w)
  stalledCount : s.core.counts.stalledCount.toNat +
      ∑ c, (s.cus c).eventsInFlight .stalledAtBarrier =
    ∑ c, if s.releaseInFlight c then 0 else s.slotsIn c .stalled
  doneCount : s.core.counts.doneCount.toNat + ∑ c, (s.cus c).eventsInFlight .complete =
    ∑ c, s.slotsIn c .done

/-- The `w`-th warp of the launch lives in the slot. -/
def Gpu.Occupies (c : L.Cus) (slot : SlotId) (w : ℕ) : Prop :=
  (s.slot c slot).state ≠ .empty ∧ (s.slot c slot).warpId = L.warpId w

/-- Every warp of the launch is executed once. -/
structure ExactlyOnce : Prop where
  fresh : ∀ w < L.totalWarps.toNat, freshDispatches tr (L.warpId w) ≤ 1
  /-- A warp has a slot once its CU has launched, and never a second one. -/
  oneSlot : ∀ w < L.totalWarps.toNat, ∃ c slot,
    ((s.cus c).scheduler.busyCuScheduler = true → s.Occupies c slot w) ∧
      ∀ c' slot', s.Occupies c' slot' w → c' = c ∧ slot' = slot
  /-- A slot in use holds a warp of the launch. -/
  occupied : ∀ c slot, (s.slot c slot).state ≠ .empty →
    ∃ w < L.totalWarps.toNat, (s.slot c slot).warpId = L.warpId w
  outstanding : ∀ c, (s.cus c).dispatch.length +
    (match (s.cus c).pipeline with | .idle => 0 | _ => 1) + (s.cus c).status.length ≤ 1
  /-- A warp is resumed where its last stall says. -/
  resume : ∀ pre d post, tr = pre ++ .dispatched d :: post → d.freshLaunch = false →
    lastResumePc pre d.warpId = some d.resumePc
  /-- With `done` up every warp has been launched and is done. -/
  done : s.core.done = true → ∀ w < L.totalWarps.toNat,
    freshDispatches tr (L.warpId w) = 1 ∧ ∃ c slot, s.Occupies c slot w ∧
      (s.slot c slot).state = .done

end Statements

section Views

variable {L : Launch} {s : Gpu L} {tr : List Event} {v : L.Cus → CuView} {g : ℕ}

theorem warpId_localWarp (c : L.Cus) (slot : SlotId) :
    L.warpId (L.localWarp c slot) = L.warpIdOf c slot := rfl

theorem ViewInv.slot_eq (h : ViewInv L s tr v g) (c : L.Cus) (slot : SlotId) :
    s.slot c slot = if (v c).launched ∧ L.Resident c slot then
      L.slotOf c slot (v c).wave ((v c).situation slot) else {} := by
  rw [Gpu.slot, (h.cus c).slots, slotsOf]

/-- A CU that has not launched has its warps waiting. -/
theorem ViewInv.launched_of_ne_waiting (h : ViewInv L s tr v g) {c : L.Cus} {slot : SlotId}
    (hres : L.Resident c slot) (hsit : (v c).situation slot ≠ .waiting) :
    (v c).launched = true := by
  obtain ⟨-, -, -, -, hwait⟩ | ⟨hl, -⟩ | ⟨hl, -⟩ := (h.cus c).phase
  · exact absurd (hwait slot hres).2 hsit
  · exact hl
  · exact hl

/-- The slots in a state are the warps in a situation. -/
theorem ViewInv.slotsIn_eq (h : ViewInv L s tr v g) (c : L.Cus) {state : SlotState}
    {sit : Situation} (hne : sit ≠ .waiting) (hempty : state ≠ .empty)
    (hiff : ∀ slot g sit', (L.slotOf c slot g sit').state = state ↔ sit' = sit) :
    s.slotsIn c state = L.countIn c (v c) sit := by
  unfold Gpu.slotsIn countIn residents
  rw [Finset.filter_filter]
  congr 1
  refine Finset.filter_congr fun slot _ => ?_
  rw [h.slot_eq]
  constructor
  · intro hst
    split at hst
    · next hl => exact ⟨hl.2, (hiff _ _ _).1 hst⟩
    · exact absurd hst.symm hempty
  · rintro ⟨hres, hsit⟩
    have hl := h.launched_of_ne_waiting hres (by rw [hsit]; exact hne)
    rw [if_pos ⟨hl, hres⟩]
    exact (hiff _ _ _).2 hsit

theorem ViewInv.stalled_slotsIn (h : ViewInv L s tr v g) (c : L.Cus) :
    s.slotsIn c .stalled = L.countIn c (v c) .stalled :=
  h.slotsIn_eq c (by decide) (by decide) fun slot g sit => by cases sit <;> simp [slotOf]

theorem ViewInv.done_slotsIn (h : ViewInv L s tr v g) (c : L.Cus) :
    s.slotsIn c .done = L.countIn c (v c) .done :=
  h.slotsIn_eq c (by decide) (by decide) fun slot g sit => by cases sit <;> simp [slotOf]

/-- The counters are below the number of warps. -/
theorem sum_toNat (hcap : L.totalWarps.toNat ≤ L.capacity) {f : L.Cus → ℕ} {count : WarpId}
    (hle : ∀ c, f c ≤ (L.residents c).card) (h : count = BitVec.ofNat 32 (∑ c, f c)) :
    count.toNat = ∑ c, f c := by
  have hsum : ∑ c, f c ≤ L.totalWarps.toNat := by
    rw [← sum_residents hcap]
    exact Finset.sum_le_sum fun c _ => hle c
  have hlt := L.totalWarps.isLt
  rw [h, BitVec.toNat_ofNat, Nat.mod_eq_of_lt (by omega)]

/-- The warp in the pipeline has executed the barriers of its CU's wave. -/
theorem ViewInv.executing (h : ViewInv L s tr v g) {c : L.Cus} {d : WarpDispatch}
    (hexec : Executing s c d) : barriersExecuted tr d.warpId = (v c).wave := by
  have hflight := (h.cus c).flight
  have hjob := (h.cus c).job
  obtain ⟨slot, hv, hd⟩ : ∃ slot, (v c).job = some (slot, false) ∧
      L.IsJob c (v c).wave d slot := by
    generalize (v c).job = job at hflight ⊢
    cases hflight with
    | nothing _ hp => obtain ⟨p, he⟩ | ⟨k, he⟩ := hexec <;> simp [hp] at he
    | queued _ _ hp => obtain ⟨p, he⟩ | ⟨k, he⟩ := hexec <;> simp [hp] at he
    | running hj _ hp =>
      obtain ⟨p, he⟩ | ⟨k, he⟩ := hexec
      · obtain ⟨rfl, -⟩ := Pipeline.running.inj (hp.symm.trans he)
        exact ⟨_, rfl, hj⟩
      · simp [hp] at he
    | waiting hj _ hp =>
      obtain ⟨p, he⟩ | ⟨k, he⟩ := hexec
      · simp [hp] at he
      · obtain ⟨rfl, -⟩ := Pipeline.waiting.inj (hp.symm.trans he)
        exact ⟨_, rfl, hj⟩
    | reported _ hp => obtain ⟨p, he⟩ | ⟨k, he⟩ := hexec <;> simp [hp] at he
  obtain ⟨hres, hsit⟩ := (hjob slot false).1 hv
  have hw := ((h.cus c).warps slot hres).barriers
  rw [hsit, barriersOf_inFlight_false] at hw
  rw [hd.warpId, hw]

/-- Every warp has executed as many barriers as there were releases, or is about to be released
from the last. -/
theorem ViewInv.le_barriers (h : ViewInv L s tr v g) {c : L.Cus} {slot : SlotId}
    (hres : L.Resident c slot) : g ≤ barriersExecuted tr (L.warpIdOf c slot) := by
  have hc := h.cus c
  have hwave := h.waves c
  rw [(hc.warps slot hres).barriers]
  by_cases hrel : (s.cus c).releases + s.core.owed c = 0
  · have hge : (v c).wave ≤ L.barriersOf (v c).wave ((v c).situation slot) := by
      unfold barriersOf
      split
      · exact le_refl _
      · exact le_refl _
      · exact le_refl _
      · split <;> omega
      · omega
    omega
  · have hone := hc.oneRelease slot hres
    rw [hc.releaseStalled hrel slot hres, barriersOf_stalled]
    omega

end Views

/-! ## Barrier safety -/

theorem barrierSafe {L : Launch} {s : Gpu L} {tr : List Event} (h : LaunchRun L s tr)
    (hcap : L.totalWarps.toNat ≤ L.capacity) : BarrierSafe s tr := by
  obtain ⟨v, g, h⟩ := LaunchInv.run h hcap
  refine ⟨fun hissue => ?_, fun c d hexec w hw => ?_, ?_, ?_⟩
  · have hbusy := h.core.busy (by simp [hissue.1]) (by simp [hissue.1])
    refine ⟨L.wavePc (g + 1), L.waveBarrier (g + 1), fun w hw => ?_⟩
    obtain ⟨c, slot, hres, rfl⟩ := exists_resident hcap hw
    obtain ⟨hsit, hzero⟩ := (h.all_stalled hcap hissue.2 hbusy c).1 slot hres
    have hl := h.launched_of_ne_waiting hres (by rw [hsit]; decide)
    have hwave : (v c).wave = g := by
      have := h.waves c
      omega
    refine ⟨c, slot, rfl, ?_⟩
    rw [h.slot_eq, if_pos ⟨hl, hres⟩, hsit, hwave]
    rfl
  · obtain ⟨c', slot, hres, rfl⟩ := exists_resident hcap hw
    have hwave := h.waves c
    rw [h.executing hexec, warpId_localWarp]
    exact le_trans (by omega) (h.le_barriers hres)
  · rw [sum_toNat hcap (fun c => le_trans (Nat.le_add_right _ _) (h.cus c).stalledSeen_le)
      h.core.stalledCount, ← Finset.sum_add_distrib]
    refine Finset.sum_congr rfl fun c _ => ?_
    rw [(h.cus c).stalledCount, h.stalled_slotsIn]
    by_cases hrel : (s.cus c).releases + s.core.owed c = 0
    · rw [if_pos hrel, if_neg fun hne : s.releaseInFlight c => hne hrel]
    · rw [if_neg hrel, if_pos (show s.releaseInFlight c from hrel)]
  · rw [sum_toNat hcap (fun c => le_trans (Nat.le_add_right _ _) (h.cus c).doneSeen_le)
      h.core.doneCount, ← Finset.sum_add_distrib]
    refine Finset.sum_congr rfl fun c _ => ?_
    rw [(h.cus c).doneCount, h.done_slotsIn]

/-! ### Two warps that meet at one barrier -/

/-- Two CUs of one slot, each with a warp that runs `BARRIER 5; HALT`. -/
def twoWarps : Launch where
  toGpuSize := twoCus
  depths := ⟨2, 2, 2, 2, 1, 2, 1⟩
  fp := ⟨fun a _ => a, fun a _ => a, fun a _ => a, fun a _ _ => a⟩
  vectorOps := true
  program := programStore [encodeInstruction .barrier 0 0 0 5, encodeInstruction .halt 0 0 0 0]
  programLen := 2
  totalWarps := 2
  warpIdOffset := 0

/-- Reset, with `start` high and all registers zero. -/
def startedGpu (L : Launch) : Gpu L := ⟨true, fun _ => Gpu.resetCu fun _ _ _ => 0, {}⟩

/-- Every process takes a step. -/
def oneRound : List (Action twoWarps) :=
  ((List.finRange 2).flatMap fun c => [.scheduler c, .pipeline c]) ++ [.barrier]

/-- Two rounds with `start` high, then `n` with `start` low. -/
def twoWarpsActions (n : ℕ) : List (Action twoWarps) :=
  ((List.finRange 2).map fun c => .programLoaded c) ++ oneRound ++ oneRound ++
    .setStart false :: (List.replicate n oneRound).flatten

def twoWarpsRun (n : ℕ) : Option (Gpu twoWarps × List Event) :=
  (gpuSystem twoWarps).exec OneLaunch (startedGpu twoWarps) (twoWarpsActions n)

theorem launchRun_twoWarps {n : ℕ} {r : Gpu twoWarps × List Event} (h : twoWarpsRun n = some r) :
    LaunchRun twoWarps r.1 r.2 := by
  have hinit : LaunchRun twoWarps (startedGpu twoWarps) [] :=
    .init ⟨rfl, fun _ => ⟨_, rfl⟩⟩ fun h => absurd h Bool.false_ne_true
  have := hinit.exec _ h
  rwa [List.nil_append] at this

theorem barrierSafe_twoWarps : ∃ r, twoWarpsRun 9 = some r ∧ IssuesRelease r.1 ∧
    BarrierSafe r.1 r.2 := by
  have hrun : (twoWarpsRun 9).any (fun r => decide (r.1.core.pc = .releaseCheck) &&
      barrierReleaseReady r.1.core.counts) = true := by decide +kernel
  obtain ⟨r, hr, hissue⟩ := (Option.any_eq_true _ _).1 hrun
  simp only [Bool.and_eq_true, decide_eq_true_eq] at hissue
  exact ⟨r, hr, hissue, barrierSafe (launchRun_twoWarps hr) (by decide)⟩

/-! ## Exactly-once execution -/

section ExactlyOnce

variable {L : Launch} {s : Gpu L} {tr : List Event} {v : L.Cus → CuView} {g : ℕ}

theorem ViewInv.occupies (h : ViewInv L s tr v g) {c : L.Cus} {slot : SlotId}
    (hstate : (s.slot c slot).state ≠ .empty) :
    L.Resident c slot ∧ (s.slot c slot).warpId = L.warpIdOf c slot := by
  rw [h.slot_eq] at hstate ⊢
  split at hstate
  · next hl =>
    rw [if_pos hl]
    refine ⟨hl.2, ?_⟩
    cases (v c).situation slot <;> rfl
  · exact absurd rfl hstate

theorem ViewInv.oneSlot (h : ViewInv L s tr v g) {c : L.Cus} {slot : SlotId}
    (hres : L.Resident c slot) :
    ((s.cus c).scheduler.busyCuScheduler = true → s.Occupies c slot (L.localWarp c slot)) ∧
      ∀ c' slot', s.Occupies c' slot' (L.localWarp c slot) → c' = c ∧ slot' = slot := by
  refine ⟨fun hbusy => ?_, fun c' slot' hocc => ?_⟩
  · have hl := (h.cus c).launched hbusy
    unfold Gpu.Occupies
    rw [h.slot_eq, if_pos ⟨hl, hres⟩]
    cases (v c).situation slot <;> exact ⟨by simp [slotOf], rfl⟩
  · obtain ⟨-, hid⟩ := h.occupies hocc.1
    exact warpIdOf_inj (hid.symm.trans hocc.2)

theorem Launch.InFlight.outstanding {c : L.Cus} {cu : Cu} {job : Option (SlotId × Bool)}
    (h : L.InFlight c g cu job) : cu.dispatch.length +
      (match cu.pipeline with | .idle => 0 | _ => 1) + cu.status.length ≤ 1 := by
  cases h with
  | nothing hd hp hs => simp [hd, hp, hs]
  | queued _ hd hp hs => simp [hd, hp, hs]
  | running _ hd hp _ hs => simp [hd, hp, hs]
  | waiting _ hd hp _ hs => simp [hd, hp, hs]
  | reported hd hp hs => simp [hd, hp, hs]

/-- A step emits at most one event, and a dispatch carries what the last stall of its warp says. -/
theorem CuInv.emits {c : L.Cus} {done : Bool} {owed : ℕ} {w : CuView} {cu cu' : Cu} {start : Bool}
    {ev : List Event} (h : CuInv L c done owed tr w cu)
    (hs : cu.schedulerStep L c start = some (cu', ev)) :
    ev = [] ∨ ∃ d, ev = [.dispatched d] ∧
      (d.freshLaunch = false → lastResumePc tr d.warpId = some d.resumePc) := by
  unfold Cu.schedulerStep at hs
  dsimp only at hs
  split at hs
  · split at hs
    · unfold Cu.dispatchRound at hs
      dsimp only at hs
      split at hs
      · next hgo =>
        simp only [Bool.and_eq_true, Bool.not_eq_true', bne_iff_ne] at hgo
        obtain ⟨queue, -, heq⟩ := Option.map_eq_some_iff.1 hs
        obtain ⟨-, rfl⟩ := Prod.mk.inj heq
        obtain ⟨hl, hres, hsit⟩ := nextReadySlot_waiting h hgo.1 hgo.2
        set slot := nextReadySlot L.toGpuSize cu.scheduler.slots
        have hval : cu.scheduler.slots slot = L.slotOf c slot w.wave .waiting := by
          rw [h.slots, slotsOf, if_pos ⟨hl, hres⟩, hsit]
        have hw := h.warps slot hres
        rw [hsit] at hw
        refine .inr ⟨_, rfl, fun hfresh => ?_⟩
        have hpc := hw.resumePc
        rw [hw.barriers, barriersOf_waiting] at hpc
        simp only [buildDispatch, hval, slotOf, decide_eq_false_iff_not] at hfresh ⊢
        rw [hpc, if_neg hfresh]
      · exact .inl (Prod.mk.inj (Option.some.inj hs)).2.symm
    · split at hs <;> exact .inl (Prod.mk.inj (Option.some.inj hs)).2.symm
  · split at hs <;> exact .inl (Prod.mk.inj (Option.some.inj hs)).2.symm
  · exact .inl (Prod.mk.inj (Option.some.inj hs)).2.symm
  · obtain ⟨queue, -, heq⟩ := Option.map_eq_some_iff.1 hs
    exact .inl (Prod.mk.inj heq).2.symm
  · exact .inl (Prod.mk.inj (Option.some.inj hs)).2.symm

theorem pipelineStep_emits {c : L.Cus} {cu cu' : Cu} {ev : List Event}
    (hs : cu.pipelineStep L c = some (cu', ev)) :
    ev = [] ∨ ∃ d status, ev = [.finished d status] := by
  unfold Cu.pipelineStep at hs
  split at hs
  · split at hs <;> exact .inl (Prod.mk.inj (Option.some.inj hs)).2.symm
  · obtain ⟨queue, -, heq⟩ := Option.map_eq_some_iff.1 hs
    exact .inl (Prod.mk.inj heq).2.symm
  · obtain ⟨queue, -, heq⟩ := Option.map_eq_some_iff.1 hs
    exact .inr ⟨_, _, (Prod.mk.inj heq).2.symm⟩
  · split at hs
    · exact absurd hs (by simp)
    · exact .inl (Prod.mk.inj (Option.some.inj hs)).2.symm

/-- Every resume dispatch so far carries what the last stall of its warp said. -/
def ResumesWhereStalled (tr : List Event) : Prop :=
  ∀ pre d post, tr = pre ++ .dispatched d :: post → d.freshLaunch = false →
    lastResumePc pre d.warpId = some d.resumePc

theorem ResumesWhereStalled.concat (h : ResumesWhereStalled tr) {e : Event}
    (he : ∀ d, e = .dispatched d → d.freshLaunch = false →
      lastResumePc tr d.warpId = some d.resumePc) : ResumesWhereStalled (tr ++ [e]) := by
  intro pre d post heq hfresh
  obtain ⟨rfl, hd⟩ | ⟨post', hsplit⟩ := List.append_singleton_split heq
  · exact he d hd.symm hfresh
  · exact h pre d post' hsplit hfresh

theorem resumesWhereStalled (h : LaunchRun L s tr) (hcap : L.totalWarps.toNat ≤ L.capacity) :
    ResumesWhereStalled tr := by
  refine h.invariant (fun _ tr => ResumesWhereStalled tr) (fun s _ _ pre d post heq => ?_)
    fun s tr a s' ev hrun hinv hs _ => ?_
  · exact absurd heq (by simp)
  · have hskip (hnil : ev = []) : ResumesWhereStalled (tr ++ ev) := by
      rwa [hnil, List.append_nil]
    cases a with
    | setStart b => exact hskip (Prod.mk.inj (Option.some.inj hs)).2.symm
    | programLoaded c =>
      simp only [gpuSystem, Gpu.step] at hs
      split at hs
      · exact hskip (Prod.mk.inj (Option.some.inj hs)).2.symm
      · exact absurd hs (by simp)
    | scheduler c =>
      obtain ⟨v, g, hv⟩ := LaunchInv.run hrun hcap
      obtain ⟨r, hr, heq⟩ := Option.map_eq_some_iff.1 hs
      obtain ⟨-, rfl⟩ := Prod.mk.inj heq
      obtain hnil | ⟨d, hev, hd⟩ := (hv.cus c).emits hr
      · exact hskip hnil
      · rw [hev]
        refine hinv.concat fun d' hd' hfresh => ?_
        obtain rfl := Event.dispatched.inj hd'
        exact hd hfresh
    | pipeline c =>
      obtain ⟨r, hr, heq⟩ := Option.map_eq_some_iff.1 hs
      obtain ⟨-, rfl⟩ := Prod.mk.inj heq
      obtain hnil | ⟨d, status, hev⟩ := pipelineStep_emits hr
      · exact hskip hnil
      · rw [hev]
        exact hinv.concat fun d' hd' => absurd hd' (by simp)
    | barrier =>
      obtain ⟨r, -, heq⟩ := Option.map_eq_some_iff.1 hs
      exact hskip (Prod.mk.inj heq).2.symm
    | takeRequest c =>
      simp only [gpuSystem, Gpu.step] at hs
      split at hs
      · exact absurd hs (by simp)
      · exact hskip (Prod.mk.inj (Option.some.inj hs)).2.symm
    | giveResponse c resp =>
      obtain ⟨r, -, heq⟩ := Option.map_eq_some_iff.1 hs
      exact hskip (Prod.mk.inj heq).2.symm

theorem exactlyOnce (h : LaunchRun L s tr) (hcap : L.totalWarps.toNat ≤ L.capacity) :
    ExactlyOnce s tr := by
  have hresume := resumesWhereStalled h hcap
  obtain ⟨v, g, h⟩ := LaunchInv.run h hcap
  refine ⟨fun w hw => ?_, fun w hw => ?_, fun c slot hstate => ?_,
    fun c => (h.cus c).flight.outstanding, hresume, fun hdone w hw => ?_⟩
  · obtain ⟨c, slot, hres, rfl⟩ := exists_resident hcap hw
    rw [warpId_localWarp, ((h.cus c).warps slot hres).fresh]
    split <;> omega
  · obtain ⟨c, slot, hres, rfl⟩ := exists_resident hcap hw
    exact ⟨c, slot, h.oneSlot hres⟩
  · obtain ⟨hres, hid⟩ := h.occupies hstate
    exact ⟨L.localWarp c slot, hres.2, hid⟩
  · obtain ⟨c, slot, hres, rfl⟩ := exists_resident hcap hw
    have hsit := h.all_done hcap (h.core.done hdone).2 hres
    have hl := h.launched_of_ne_waiting hres (by rw [hsit]; decide)
    have hval : s.slot c slot = L.slotOf c slot (v c).wave .done := by
      rw [h.slot_eq, if_pos ⟨hl, hres⟩, hsit]
    have hfresh := ((h.cus c).warps slot hres).fresh
    rw [hsit] at hfresh
    refine ⟨hfresh, c, slot, ⟨?_, ?_⟩, ?_⟩ <;> rw [hval]
    · simp [slotOf]
    · rfl
    · rfl

theorem exactlyOnce_twoWarps : ∃ r, twoWarpsRun 26 = some r ∧ r.1.core.done = true ∧
    ExactlyOnce r.1 r.2 := by
  have hrun : (twoWarpsRun 26).any (fun r => r.1.core.done) = true := by decide +kernel
  obtain ⟨r, hr, hdone⟩ := (Option.any_eq_true _ _).1 hrun
  exact ⟨r, hr, hdone, exactlyOnce (launchRun_twoWarps hr) (by decide)⟩

end ExactlyOnce

end RiscvGpgpu.Hls
