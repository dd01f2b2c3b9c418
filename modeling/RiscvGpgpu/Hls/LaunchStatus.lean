import RiscvGpgpu.Hls.Pulses

/-!
# The status of a launch

A host that raises `start`, drops it after it has seen `busy`, `done` or `fault`, and raises it
again after `done` or `fault`. `barrierCoreN` sets `done` and `fault` and never clears them, and
samples the level of `start`. `statusCorrect` names the steps under which the status is still that
of the latest launch.
-/

namespace RiscvGpgpu.Hls

def FlatEvent.isAccepted : FlatEvent → Bool
  | accepted _ => true
  | _ => false

def FlatEvent.isDropped : FlatEvent → Bool
  | dropped => true
  | _ => false

namespace Pulse

variable (p : Pulse)

/-- How often `barrierCoreN` has accepted the launch. -/
def acceptances : ℕ := p.events.countP FlatEvent.isAccepted

/-- The host has dropped `start`. -/
def isOver : Bool := p.events.any FlatEvent.isDropped

end Pulse

/-- The launch that `barrierCoreN` has accepted last. -/
def latest (ps : List Pulse) : Option Pulse := ps.find? fun p => decide (0 < p.acceptances)

/-- The host of the documentation. -/
def statusHost : HostProtocol where
  mayDrop h := h.sawBusy || h.sawDone || h.sawFault
  mayRaise h := h.launches == 0 || h.sawDone || h.sawFault

/-- All warps of a launch have completed during its pulse. -/
def Pulse.AllCompleted (p : Pulse) : Prop :=
  ∀ w < p.args.totalWarps.toNat,
    Completed p.warpEvents (p.args.warpIdOffset + BitVec.ofNat 32 w)

/-- The status is that of the latest launch, and a pulse is a launch. -/
structure StatusCorrect {B : Build} (s : Top B) (tr : List FlatEvent) : Prop where
  done : ∀ p, latest (pulses tr) = some p → s.core.done = true → p.AllCompleted
  fault : ∀ p, latest (pulses tr) = some p →
    (s.core.fault = true ↔ B.capacity < p.args.totalWarps.toNat)
  atMostOnce : ∀ p ∈ pulses tr, p.acceptances ≤ 1
  once : ∀ p ∈ pulses tr, p.isOver = true → p.acceptances = 1

/-- The bits of `barrierCoreN` at the start of a launch: none is set, or those that the launch is
going to set, or `done` before a launch without warps. -/
def BitsFit {B : Build} (s : Top B) : Prop :=
  (s.core.done = false ∧ s.core.fault = false) ∨
  (s.core.done = false ∧ s.core.fault = true ∧ B.capacity < s.args.totalWarps.toNat) ∨
  (s.core.done = true ∧ s.core.fault = false ∧ s.args.totalWarps = 0)

instance {B : Build} (s : Top B) : Decidable (BitsFit s) :=
  inferInstanceAs (Decidable (_ ∨ _ ∨ _))

/-- `barrierCoreN` reads `start` high at the head of its loop once in each pulse, with bits that
fit. -/
def StatusStep {B : Build} (s : Top B) : TopAction B.numCus → Prop
  | .barrier => s.Accepts → s.host.accepted = 0 ∧ BitsFit s
  | .drop => 1 ≤ s.host.accepted
  | _ => True

instance {B : Build} (s : Top B) (a : TopAction B.numCus) : Decidable (StatusStep s a) :=
  match a with
  | .barrier => inferInstanceAs (Decidable (_ → _ ∧ BitsFit s))
  | .drop => inferInstanceAs (Decidable (1 ≤ s.host.accepted))
  | .raise _ | .sample | .loader | .scheduler _ | .pipeline _ | .arbiter | .memory =>
    inferInstanceAs (Decidable True)

/-! ## Pulses -/

section Pulses

variable {p : Pulse} {older ps : List Pulse} {ev : List FlatEvent} {Q : Pulse → Prop}

@[simp] theorem extend_acceptances :
    (p.extend ev).acceptances = p.acceptances + ev.countP FlatEvent.isAccepted :=
  List.countP_append

@[simp] theorem extend_isOver :
    (p.extend ev).isOver = (p.isOver || ev.any FlatEvent.isDropped) := List.any_append

theorem Pulse.AllCompleted.extend (h : p.AllCompleted) (ev : List FlatEvent) :
    (p.extend ev).AllCompleted := fun w hw => by
  rw [extend_warpEvents]
  exact (h w hw).append _

/-- Inner events are no acceptances and no drops. -/
theorem inner_counts (h : ∀ e ∈ ev, e.isInner = true) :
    ev.countP FlatEvent.isAccepted = 0 ∧ ev.any FlatEvent.isDropped = false ∧
      ∀ e ∈ ev, e.isRaised = false := by
  refine ⟨List.countP_eq_zero.2 fun e he => ?_, List.any_eq_false.2 fun e he => ?_, fun e he => ?_⟩
  all_goals
    have hinner := h e he
    cases e <;> simp_all [FlatEvent.isInner, FlatEvent.isAccepted, FlatEvent.isDropped,
      FlatEvent.isRaised]

/-- The launch accepted last has a property. -/
def LatestIs (Q : Pulse → Prop) (ps : List Pulse) : Prop := ∃ p, latest ps = some p ∧ Q p

theorem LatestIs.skip (h : LatestIs Q ps) (a : LaunchArgs) : LatestIs Q (⟨a, []⟩ :: ps) := by
  obtain ⟨p, hp, hQ⟩ := h
  refine ⟨p, ?_, hQ⟩
  unfold latest at hp ⊢
  rw [List.find?_cons_of_neg (by simp [Pulse.acceptances])]
  exact hp

theorem latest_cons (h : 0 < p.acceptances) : latest (p :: older) = some p := by
  unfold latest
  rw [List.find?_cons_of_pos (by simpa using h)]

theorem latest_cons_of_zero (h : p.acceptances = 0) : latest (p :: older) = latest older := by
  unfold latest
  rw [List.find?_cons_of_neg (by simp [h])]

theorem LatestIs.extend (h : LatestIs Q (p :: older)) {p' : Pulse}
    (hacc : p'.acceptances = p.acceptances) (hQ : Q p → Q p') : LatestIs Q (p' :: older) := by
  obtain ⟨q, hq, hQq⟩ := h
  by_cases hp : p.acceptances = 0
  · rw [latest_cons_of_zero hp] at hq
    exact ⟨q, by rw [latest_cons_of_zero (hacc.trans hp), hq], hQq⟩
  · rw [latest_cons (by omega)] at hq
    obtain rfl := Option.some.inj hq
    exact ⟨p', latest_cons (by omega), hQ hQq⟩

end Pulses

/-! ## The invariant -/

section Invariant

variable {B : Build} {s s' : Top B} {ps : List Pulse} {tr ev : List FlatEvent}

/-- The pulses so far: each one before the last was accepted once. -/
inductive Pulsing (s : Top B) : List Pulse → Prop where
  | none : Pulsing s []
  | pulse {p : Pulse} {older : List Pulse} (hargs : p.args = s.args)
      (hacc : p.acceptances = s.host.accepted) (hle : s.host.accepted ≤ 1)
      (hlow : s.start = false → s.host.accepted = 1) (hover : p.isOver = true → s.start = false)
      (holder : ∀ q ∈ older, q.acceptances = 1) (hl : s.host.launches ≠ 0) :
      Pulsing s (p :: older)

/-- How far `barrierCoreN` is. A good launch is accepted only as the first one. -/
inductive StatusMode (s : Top B) (ps : List Pulse) : Prop where
  | quiet (hq : Quiet s) (hps : ps = [])
  | first {ev : List FlatEvent} {taken sent : Fin B.numCus → Bool} {seen : Fin B.numCus → ℕ}
      (hps : ps = [⟨s.args, ev⟩]) (hacc : s.host.accepted = 0) (hb : s.core.busy = false)
      (hd : s.core.done = false) (hf : s.core.fault = false)
      (hp : Progress s (warpEvents ev) taken sent seen)
  | faulty (hpc : s.core.pc = .head) (hb : s.core.busy = false) (hd : s.core.done = false)
      (hf : s.core.fault = true)
      (hl : LatestIs (fun p => B.capacity < p.args.totalWarps.toNat) ps)
  | good {ev : List FlatEvent} {taken sent : Fin B.numCus → Bool} {seen : Fin B.numCus → ℕ}
      (hps : ps = [⟨s.args, ev⟩]) (hacc : s.host.accepted = 1) (hf : s.core.fault = false)
      (hcap : s.args.totalWarps.toNat ≤ B.capacity)
      (hp : Progress s (warpEvents ev) taken sent seen)
      (hd : s.core.done = true → AllSeen (B.plain s.args) seen)
  | after (hd : s.core.done = true) (hf : s.core.fault = false)
      (hl : LatestIs (fun p => p.args.totalWarps.toNat ≤ B.capacity ∧ p.AllCompleted) ps)

structure StatusInv (s : Top B) (tr : List FlatEvent) : Prop where
  pulsing : Pulsing s (pulses tr)
  mode : StatusMode s (pulses tr)
  sawDone : s.host.sawDone = true → s.core.done = true
  sawFault : s.host.sawFault = true → s.core.fault = true

/-- When every warp has been counted, every warp has completed. -/
theorem Progress.all_completed {ev : List FlatEvent} {taken sent : Fin B.numCus → Bool}
    {seen : Fin B.numCus → ℕ} (h : Progress s (warpEvents ev) taken sent seen)
    (hcap : s.args.totalWarps.toNat ≤ B.capacity) (hall : AllSeen (B.plain s.args) seen) :
    Pulse.AllCompleted ⟨s.args, ev⟩ := by
  intro w hw
  obtain ⟨c, slot, hres, rfl⟩ := Launch.exists_resident (L := B.plain s.args) hcap hw
  obtain ⟨job, hjob⟩ := h.cus c
  obtain ⟨ht, hd⟩ := hjob.all_done (hall c) hres
  exact hjob.doneTr ht slot hres hd

/-! ## One step -/

/-- A step without `barrierCoreN` or the host. -/
theorem StatusMode.inner {H : HostProtocol} {a : TopAction B.numCus} (h : StatusMode s ps)
    (ha : a.isInner = true) (hs : s.step H a = some (s', ev)) :
    StatusMode s' (ev.foldl addEvent ps) := by
  obtain ⟨⟨hcore, hhost, hargs, -⟩, hinner⟩ := step_inner ha hs
  obtain ⟨hacc, -, hraised⟩ := inner_counts hinner
  have hlatest {Q : Pulse → Prop} (hl : LatestIs Q ps) (hQ : ∀ p : Pulse, Q p → Q (p.extend ev)) :
      LatestIs Q (ev.foldl addEvent ps) := by
    cases ps with
    | nil => exact absurd hl (by simp [LatestIs, latest])
    | cons p older =>
      rw [foldl_addEvent hraised]
      exact hl.extend (by rw [extend_acceptances, hacc, Nat.add_zero]) (hQ p)
  cases h with
  | quiet hq hps =>
    refine .quiet (hq.step ?_ hs) (by rw [hps, foldl_addEvent_nil hraised])
    rintro args rfl
    exact absurd ha (by simp [TopAction.isInner])
  | first hps hacc' hb hd hf hp =>
    obtain ⟨taken', sent', hp'⟩ := hp.inner ha hs
    rw [← warpEvents_append] at hp'
    refine .first ?_ (by rwa [hhost]) (by rwa [hcore]) (by rwa [hcore]) (by rwa [hcore]) hp'
    rw [hps, foldl_addEvent hraised, hargs]
    rfl
  | faulty hpc hb hd hf hl =>
    exact .faulty (by rwa [hcore]) (by rwa [hcore]) (by rwa [hcore]) (by rwa [hcore])
      (hlatest hl fun p => id)
  | good hps hacc' hf hcap hp hd =>
    obtain ⟨taken', sent', hp'⟩ := hp.inner ha hs
    rw [← warpEvents_append] at hp'
    refine .good ?_ (by rwa [hhost]) (by rwa [hcore]) (by rwa [hargs]) hp' (by rwa [hcore, hargs])
    rw [hps, foldl_addEvent hraised, hargs]
    rfl
  | after hd hf hl =>
    exact .after (by rwa [hcore]) (by rwa [hcore])
      (hlatest hl fun p hp => ⟨hp.1, hp.2.extend ev⟩)

/-- `barrierCoreN` accepts a launch. -/
theorem StatusMode.accept (h : StatusMode s ps) (hpulse : Pulsing s ps) (hacc : s.Accepts)
    (hok : s.host.accepted = 0 ∧ BitsFit s) (hs : s.barrierStep = some (s', ev)) :
    StatusMode s' (ev.foldl addEvent ps) := by
  obtain ⟨⟨core, ports⟩, hstep, heq⟩ := Option.map_eq_some_iff.1 hs
  rw [if_pos hacc] at heq
  obtain ⟨rfl, rfl⟩ := Prod.mk.inj heq
  obtain ⟨-, hpc, hdone, hfault⟩ : _ ∧ core.pc = .head ∧ core.done = s.core.done ∧ _ := by
    obtain h | ⟨hnot, -⟩ := barrierStep_status hstep
    · exact h
    · exact absurd hacc hnot
  have hraised : ∀ e ∈ [FlatEvent.accepted s.args], e.isRaised = false := by
    simp [FlatEvent.isRaised]
  -- the launch at hand is now the one accepted last
  have hlatest {Q : Pulse → Prop} (hQ : ∀ p : Pulse, p.args = s.args → Q p) (hps : ps ≠ []) :
      LatestIs Q ([FlatEvent.accepted s.args].foldl addEvent ps) := by
    cases hpulse with
    | none => exact absurd rfl hps
    | @pulse p older hargs =>
      rw [foldl_addEvent hraised]
      exact ⟨_, latest_cons (by simp [FlatEvent.isAccepted]), hQ _ hargs⟩
  cases h with
  | quiet hq => exact absurd (hq.start.symm.trans hacc.2.2) (by simp)
  | @first ev' taken sent seen hps hacc' hb hd hf hp =>
    split_ifs at hfault with hover
    · refine .faulty hpc hfault.1 (hdone.trans hd) hfault.2 (hlatest (fun p hargs => ?_) ?_)
      · rwa [hargs]
      · simp [hps]
    · obtain ⟨seen', hp', hall⟩ := hp.barrier hstep
      refine @StatusMode.good _ _ _ (ev' ++ [.accepted s.args]) taken sent seen' ?_ ?_
        (hfault.trans hf) (not_lt.1 hover) ?_ fun h => hall.2 (.inr ⟨hd, h⟩)
      · rw [hps, foldl_addEvent hraised]
        rfl
      · dsimp only
        rw [hacc']
      · rw [warpEvents_append, show warpEvents [.accepted s.args] = [] from rfl, List.append_nil]
        exact hp'.congr rfl (fun _ => ⟨rfl, rfl, rfl, rfl, rfl, rfl⟩) rfl rfl rfl rfl
  | faulty hpc' hb hd hf hl =>
    have hover : B.capacity < s.args.totalWarps.toNat := by
      obtain ⟨-, h⟩ | ⟨-, -, h⟩ | ⟨h, -⟩ := hok.2
      · exact absurd (hf.symm.trans h) (by simp)
      · exact h
      · exact absurd (hd.symm.trans h) (by simp)
    rw [if_pos hover] at hfault
    refine .faulty hpc hfault.1 (hdone.trans hd) hfault.2 (hlatest (fun p hargs => ?_) ?_)
    · rwa [hargs]
    · rintro rfl
      exact absurd hl (by simp [LatestIs, latest])
  | good hps hacc' => exact absurd (hok.1.symm.trans hacc') (by simp)
  | after hd hf hl =>
    have hzero : s.args.totalWarps = 0 := by
      obtain ⟨h, -⟩ | ⟨h, -⟩ | ⟨-, -, h⟩ := hok.2
      · exact absurd (hd.symm.trans h) (by simp)
      · exact absurd (hd.symm.trans h) (by simp)
      · exact h
    rw [if_neg (by simp [hzero])] at hfault
    refine .after (hdone.trans hd) (hfault.trans hf) (hlatest (fun p hargs => ?_) ?_)
    · unfold Pulse.AllCompleted
      rw [hargs, hzero]
      exact ⟨Nat.zero_le _, fun w hw => absurd hw (by simp)⟩
    · rintro rfl
      exact absurd hl (by simp [LatestIs, latest])

/-- `barrierCoreN` makes another step. -/
theorem StatusMode.barrier (h : StatusMode s ps) (hacc : ¬ s.Accepts)
    (hs : s.barrierStep = some (s', ev)) : StatusMode s' (ev.foldl addEvent ps) := by
  obtain ⟨⟨core, ports⟩, hstep, heq⟩ := Option.map_eq_some_iff.1 hs
  rw [if_neg hacc] at heq
  obtain ⟨rfl, rfl⟩ := Prod.mk.inj heq
  obtain ⟨hfault, -, hdone⟩ : core.fault = s.core.fault ∧ _ := by
    obtain ⟨h, -⟩ | ⟨-, h⟩ := barrierStep_status hstep
    · exact absurd h hacc
    · exact h
  rw [List.foldl_nil]
  cases h with
  | quiet hq hps =>
    exact .quiet (hq.step (H := statusHost) (a := .barrier) (by simp) hs) hps
  | first hps hacc' hb hd hf hp =>
    obtain ⟨seen', hp', -⟩ := hp.barrier hstep
    obtain ⟨hsame, hd'⟩ | ⟨hpc, -⟩ := hdone
    · refine .first hps hacc' ?_ (hd'.trans hd) (hfault.trans hf) hp'
      obtain hpc | ⟨i, hpc⟩ := hp.idle hb
      · rw [hsame hpc hb]
        exact hb
      · unfold Hls.barrierStep at hstep
        rw [hpc] at hstep
        dsimp only at hstep
        split at hstep
        · obtain ⟨signals, -, heq⟩ := Option.map_eq_some_iff.1 hstep
          obtain ⟨rfl, -⟩ := Prod.mk.inj heq
          exact hb
        · obtain ⟨rfl, -⟩ := Prod.mk.inj (Option.some.inj hstep)
          exact hb
    · obtain hpc' | ⟨i, hpc'⟩ := hp.idle hb
      · exact absurd (hpc.symm.trans hpc') (by simp)
      · exact absurd (hpc.symm.trans hpc') (by simp)
  | faulty hpc hb hd hf hl =>
    obtain ⟨hsame, -⟩ | ⟨hpc', -⟩ := hdone
    · rw [hsame hpc hb]
      exact .faulty hpc hb hd hf hl
    · exact absurd (hpc.symm.trans hpc') (by simp)
  | good hps hacc' hf hcap hp hd =>
    obtain ⟨seen', hp', hall⟩ := hp.barrier hstep
    refine .good hps hacc' (hfault.trans hf) hcap hp' fun hd' => ?_
    by_cases hold : s.core.done = true
    · exact hall.1 (hd hold)
    · exact hall.2 (.inr ⟨by simpa using hold, hd'⟩)
  | after hd hf hl =>
    refine .after ?_ (hfault.trans hf) hl
    obtain ⟨-, hd'⟩ | ⟨-, hd'⟩ := hdone
    · exact hd'.trans hd
    · exact hd'

/-- The host raises `start`. -/
theorem StatusMode.raise (h : StatusMode s ps) (hpulse : Pulsing s ps) {a : LaunchArgs}
    (hdone : s.host.sawDone = true → s.core.done = true)
    (hfault : s.host.sawFault = true → s.core.fault = true)
    (hs : s.raise statusHost a = some (s', ev)) :
    StatusMode s' (ev.foldl addEvent ps) := by
  unfold Top.raise at hs
  split at hs
  · next hok =>
    obtain ⟨rfl, rfl⟩ := Prod.mk.inj (Option.some.inj hs)
    obtain ⟨hlow, hmay⟩ := hok
    show StatusMode _ (⟨a, []⟩ :: ps)
    cases h with
    | quiet hq hps =>
      subst hps
      exact .first rfl rfl (congrArg BarrierCore.busy hq.core) (congrArg BarrierCore.done hq.core)
        (congrArg BarrierCore.fault hq.core) (hq.raise rfl rfl rfl)
    | first hps hacc =>
      subst hps
      cases hpulse with
      | pulse _ _ _ hlow' => exact absurd (hacc.symm.trans (hlow' hlow)) (by simp)
    | faulty hpc hb hd hf hl => exact .faulty hpc hb hd hf (hl.skip a)
    | @good ev' _ _ _ hps hacc hf hcap hp hd =>
      have hdone' : s.core.done = true := by
        simp only [statusHost, Bool.or_eq_true, beq_iff_eq] at hmay
        obtain (hz | hsaw) | hsaw := hmay
        · subst hps
          cases hpulse with
          | pulse _ _ _ _ _ _ hl => exact absurd hz hl
        · exact hdone hsaw
        · exact absurd (hf.symm.trans (hfault hsaw)) (by simp)
      subst hps
      refine .after hdone' hf (LatestIs.skip ⟨⟨s.args, ev'⟩, latest_cons ?_, hcap, ?_⟩ a)
      · cases hpulse with
        | pulse _ hacc' => omega
      · exact hp.all_completed hcap (hd hdone')
    | after hd hf hl => exact .after hd hf (hl.skip a)
  · exact absurd hs (by simp)

/-- The host drops `start`. -/
theorem StatusMode.drop (h : StatusMode s ps) (hok : 1 ≤ s.host.accepted)
    (hs : s.drop statusHost = some (s', ev)) : StatusMode s' (ev.foldl addEvent ps) := by
  unfold Top.drop at hs
  split at hs
  · next hhigh =>
    obtain ⟨rfl, rfl⟩ := Prod.mk.inj (Option.some.inj hs)
    have hraised : ∀ e ∈ [FlatEvent.dropped], e.isRaised = false := by simp [FlatEvent.isRaised]
    have hlatest {Q : Pulse → Prop} (hl : LatestIs Q ps)
        (hQ : ∀ p : Pulse, Q p → Q (p.extend [.dropped])) :
        LatestIs Q ([FlatEvent.dropped].foldl addEvent ps) := by
      cases ps with
      | nil => exact absurd hl (by simp [LatestIs, latest])
      | cons p older =>
        rw [foldl_addEvent hraised]
        exact hl.extend (by simp [FlatEvent.isAccepted]) (hQ p)
    cases h with
    | quiet hq => exact absurd (hq.start.symm.trans hhigh.1) (by simp)
    | first hps hacc => omega
    | faulty hpc hb hd hf hl => exact .faulty hpc hb hd hf (hlatest hl fun p => id)
    | @good ev' taken sent _ hps hacc hf hcap hp hd =>
      refine @StatusMode.good _ _ _ (ev' ++ [.dropped]) taken sent _ ?_ hacc hf hcap ?_ hd
      · rw [hps, foldl_addEvent hraised]
        rfl
      · rw [warpEvents_append, show warpEvents [.dropped] = [] from rfl, List.append_nil]
        exact hp.drop
    | after hd hf hl => exact .after hd hf (hlatest hl fun p hp => ⟨hp.1, hp.2.extend _⟩)
  · exact absurd hs (by simp)

/-- The host reads the status. -/
theorem StatusMode.sample (h : StatusMode s ps) : StatusMode s.sample ps := by
  cases h with
  | quiet hq hps => exact .quiet ⟨hq.start, hq.core, hq.loader, hq.seeds, hq.cus⟩ hps
  | first hps hacc hb hd hf hp =>
    exact .first hps hacc hb hd hf
      (hp.congr rfl (fun _ => ⟨rfl, rfl, rfl, rfl, rfl, rfl⟩) rfl rfl rfl rfl)
  | faulty hpc hb hd hf hl => exact .faulty hpc hb hd hf hl
  | good hps hacc hf hcap hp hd =>
    exact .good hps hacc hf hcap
      (hp.congr rfl (fun _ => ⟨rfl, rfl, rfl, rfl, rfl, rfl⟩) rfl rfl rfl rfl) hd
  | after hd hf hl => exact .after hd hf hl

/-- A step of a kept pulse. -/
theorem Pulsing.keep {p : Pulse} {older : List Pulse} (h : Pulsing s (p :: older))
    (hraised : ∀ e ∈ ev, e.isRaised = false) (hargs : s'.args = s.args)
    (hacc : s'.host.accepted = s.host.accepted + ev.countP FlatEvent.isAccepted)
    (hle : s'.host.accepted ≤ 1) (hlow : s'.start = false → s'.host.accepted = 1)
    (hover : (p.isOver || ev.any FlatEvent.isDropped) = true → s'.start = false)
    (hl : s'.host.launches = s.host.launches) : Pulsing s' (ev.foldl addEvent (p :: older)) := by
  cases h with
  | pulse hargs' hacc' _ _ _ holder hl' =>
    rw [foldl_addEvent hraised]
    exact .pulse (hargs'.trans hargs.symm) (by rw [extend_acceptances, hacc', hacc]) hle hlow
      (by rwa [extend_isOver]) holder (by rwa [hl])

/-- A step that leaves the host and its wires. -/
theorem Pulsing.same (h : Pulsing s ps) (hraised : ∀ e ∈ ev, e.isRaised = false)
    (hargs : s'.args = s.args)
    (hhost : s'.host.accepted = s.host.accepted ∧ s'.host.launches = s.host.launches)
    (hstart : s'.start = s.start) (hacc : ev.countP FlatEvent.isAccepted = 0)
    (hdrop : ev.any FlatEvent.isDropped = false) : Pulsing s' (ev.foldl addEvent ps) := by
  cases h with
  | none =>
    rw [foldl_addEvent_nil hraised]
    exact .none
  | pulse hargs' hacc' hle hlow hover holder hl =>
    refine (Pulsing.pulse hargs' hacc' hle hlow hover holder hl).keep hraised hargs
      (by rw [hhost.1, hacc, Nat.add_zero]) (by rwa [hhost.1]) (by rwa [hstart, hhost.1])
      (fun h => ?_) hhost.2
    rw [hdrop, Bool.or_false] at h
    rw [hstart]
    exact hover h

/-- A step with no events. -/
theorem Pulsing.still (h : Pulsing s ps) (hargs : s'.args = s.args)
    (hhost : s'.host.accepted = s.host.accepted ∧ s'.host.launches = s.host.launches)
    (hstart : s'.start = s.start) : Pulsing s' ps := by
  have hsame : Pulsing s' ([].foldl addEvent ps) := h.same (by simp) hargs hhost hstart rfl rfl
  exact hsame

theorem StatusInv.inner {a : TopAction B.numCus} (h : StatusInv s tr) (ha : a.isInner = true)
    (hs : s.step statusHost a = some (s', ev)) : StatusInv s' (tr ++ ev) := by
  obtain ⟨hpulse, hmode, hdone, hfault⟩ := h
  obtain ⟨⟨hcore, hhost, hargs, hstart⟩, hev⟩ := step_inner ha hs
  obtain ⟨hacc, hdrop, hraised⟩ := inner_counts hev
  refine ⟨?_, ?_, by rwa [hhost, hcore], by rwa [hhost, hcore]⟩
  · rw [pulses_append]
    exact hpulse.same hraised hargs (by simp [hhost]) hstart hacc hdrop
  · rw [pulses_append]
    exact hmode.inner ha hs

/-- A new pulse stands before the pulses that are over. -/
theorem StatusInv.raise {a : LaunchArgs} (h : StatusInv s tr)
    (hs : s.step statusHost (.raise a) = some (s', ev)) : StatusInv s' (tr ++ ev) := by
  obtain ⟨hpulse, hmode, hdone, hfault⟩ := h
  have hmode' := hmode.raise hpulse hdone hfault hs
  dsimp only [Top.step, Top.raise] at hs
  split at hs
  · next hmay =>
    obtain ⟨rfl, rfl⟩ := Prod.mk.inj (Option.some.inj hs)
    refine ⟨?_, by rwa [pulses_append], by simp, by simp⟩
    rw [pulses_append]
    refine .pulse rfl rfl (Nat.zero_le _) (by simp) (by simp [Pulse.isOver])
      (fun q hq => ?_) (Nat.succ_ne_zero _)
    generalize pulses tr = ps at hpulse hq
    cases hpulse with
    | none => exact absurd hq (by simp)
    | pulse _ hacc _ hlow _ holder =>
      obtain rfl | hq := List.mem_cons.1 hq
      · exact hacc.trans (hlow hmay.1)
      · exact holder q hq
  · exact absurd hs (by simp)

/-- With `start` high there has been a pulse. -/
theorem StatusMode.pulses_ne_nil {ps : List Pulse} (h : StatusMode s ps) (hstart : s.start = true) :
    ps ≠ [] := by
  rintro rfl
  cases h with
  | quiet hq => exact absurd (hq.start.symm.trans hstart) (by simp)
  | first hps => exact absurd hps (by simp)
  | faulty _ _ _ _ hl => exact absurd hl (by simp [LatestIs, latest])
  | good hps => exact absurd hps (by simp)
  | after _ _ hl => exact absurd hl (by simp [LatestIs, latest])

theorem StatusInv.drop (h : StatusInv s tr) (hok : 1 ≤ s.host.accepted)
    (hs : s.step statusHost .drop = some (s', ev)) : StatusInv s' (tr ++ ev) := by
  obtain ⟨hpulse, hmode, hdone, hfault⟩ := h
  have hmode' := hmode.drop hok hs
  dsimp only [Top.step, Top.drop] at hs
  split at hs
  · next hmay =>
    have hps := hmode.pulses_ne_nil hmay.1
    obtain ⟨rfl, rfl⟩ := Prod.mk.inj (Option.some.inj hs)
    refine ⟨?_, by rwa [pulses_append], hdone, hfault⟩
    rw [pulses_append]
    generalize pulses tr = ps at *
    cases hpulse with
    | none => exact absurd rfl hps
    | pulse hargs hacc hle hlow hover holder hl =>
      refine (Pulsing.pulse hargs hacc hle hlow hover holder hl).keep
        (by simp [FlatEvent.isRaised]) rfl ?_ hle (fun _ => ?_) (fun _ => rfl) rfl
      · simp [FlatEvent.isAccepted]
      · show s.host.accepted = 1
        omega
  · exact absurd hs (by simp)

theorem StatusInv.sample (h : StatusInv s tr) : StatusInv s.sample tr := by
  refine ⟨h.pulsing.still rfl ⟨rfl, rfl⟩ rfl, h.mode.sample, ?_, ?_⟩
  · simp only [Top.sample, Bool.or_eq_true]
    rintro (hsaw | hd)
    · exact h.sawDone hsaw
    · exact hd
  · simp only [Top.sample, Bool.or_eq_true]
    rintro (hsaw | hf)
    · exact h.sawFault hsaw
    · exact hf

/-- `barrierCoreN` clears neither `done` nor `fault`. -/
theorem barrierStep_mono {G : GpuSize} {depth : ℕ} {totalWarps : WarpId} {start : Bool}
    {core core' : BarrierCore} {ports ports' : Fin G.numCus → BarrierPort}
    (hs : Hls.barrierStep G depth totalWarps start core ports = some (core', ports')) :
    (core.done = true → core'.done = true) ∧ (core.fault = true → core'.fault = true) := by
  obtain ⟨-, -, hd, hf⟩ | ⟨-, hf, -, hd⟩ := barrierStep_status hs
  · refine ⟨fun h => hd.trans h, fun h => ?_⟩
    split_ifs at hf
    · exact hf.2
    · exact hf.trans h
  · refine ⟨fun h => ?_, fun h => hf.trans h⟩
    obtain ⟨-, hd⟩ | ⟨-, hd⟩ := hd
    · exact hd.trans h
    · exact hd

theorem StatusInv.barrier (h : StatusInv s tr)
    (hok : s.Accepts → s.host.accepted = 0 ∧ BitsFit s)
    (hs : s.barrierStep = some (s', ev)) : StatusInv s' (tr ++ ev) := by
  obtain ⟨hpulse, hmode, hdone, hfault⟩ := h
  have hmode' : StatusMode s' (ev.foldl addEvent (pulses tr)) := by
    by_cases hacc : s.Accepts
    · exact hmode.accept hpulse hacc (hok hacc) hs
    · exact hmode.barrier hacc hs
  obtain ⟨⟨core, ports⟩, hstep, heq⟩ := Option.map_eq_some_iff.1 hs
  have hmono := barrierStep_mono hstep
  split_ifs at heq with hacc
  · obtain ⟨rfl, rfl⟩ := Prod.mk.inj heq
    refine ⟨?_, by rwa [pulses_append], fun h => hmono.1 (hdone h), fun h => hmono.2 (hfault h)⟩
    rw [pulses_append]
    have hps := hmode.pulses_ne_nil hacc.2.2
    have hzero := (hok hacc).1
    generalize pulses tr = ps at *
    cases hpulse with
    | none => exact absurd rfl hps
    | pulse hargs hacc' hle hlow hover holder hl =>
      refine (Pulsing.pulse hargs hacc' hle hlow hover holder hl).keep
        (by simp [FlatEvent.isRaised]) rfl rfl ?_ (fun _ => ?_) (fun h => ?_) rfl
      · show s.host.accepted + 1 ≤ 1
        omega
      · show s.host.accepted + 1 = 1
        omega
      · simp only [List.any_cons, FlatEvent.isDropped, List.any_nil, Bool.or_false] at h
        exact hover h
  · obtain ⟨rfl, rfl⟩ := Prod.mk.inj heq
    refine ⟨?_, by rwa [pulses_append], fun h => hmono.1 (hdone h), fun h => hmono.2 (hfault h)⟩
    rw [List.append_nil]
    exact hpulse.still rfl ⟨rfl, rfl⟩ rfl

theorem StatusInv.step {a : TopAction B.numCus} (h : StatusInv s tr) (hok : StatusStep s a)
    (hs : s.step statusHost a = some (s', ev)) : StatusInv s' (tr ++ ev) := by
  cases a with
  | raise a => exact h.raise hs
  | drop => exact h.drop hok hs
  | sample =>
    obtain ⟨rfl, rfl⟩ := Prod.mk.inj (Option.some.inj hs)
    rw [List.append_nil]
    exact h.sample
  | barrier => exact h.barrier hok hs
  | loader => exact h.inner rfl hs
  | scheduler c => exact h.inner rfl hs
  | pipeline c => exact h.inner rfl hs
  | arbiter => exact h.inner rfl hs
  | memory => exact h.inner rfl hs

theorem StatusInv.reset (h : s.IsReset) : StatusInv s [] where
  pulsing := .none
  mode := .quiet (Quiet.reset h) rfl
  sawDone := by simp [h.2.1]
  sawFault := by simp [h.2.1]

theorem StatusInv.correct (h : StatusInv s tr) : StatusCorrect s tr := by
  obtain ⟨hpulse, hmode, -, -⟩ := h
  generalize hps : pulses tr = ps at hpulse hmode
  have hcount : (∀ p ∈ ps, p.acceptances ≤ 1) ∧ ∀ p ∈ ps, p.isOver = true → p.acceptances = 1 := by
    cases hpulse with
    | none => simp
    | pulse hargs hacc hle hlow hover holder =>
      refine ⟨fun q hq => ?_, fun q hq hq' => ?_⟩
      · obtain rfl | hq := List.mem_cons.1 hq
        · omega
        · exact (holder q hq).le
      · obtain rfl | hq := List.mem_cons.1 hq
        · exact hacc.trans (hlow (hover hq'))
        · exact holder q hq
  have hlatest {Q : Pulse → Prop} (hl : LatestIs Q ps) {p : Pulse} (hp : latest ps = some p) :
      Q p := by
    obtain ⟨q, hq, hQ⟩ := hl
    obtain rfl := Option.some.inj (hq.symm.trans hp)
    exact hQ
  suffices h : (∀ p, latest ps = some p → s.core.done = true → p.AllCompleted) ∧
      ∀ p, latest ps = some p → (s.core.fault = true ↔ B.capacity < p.args.totalWarps.toNat) from
    ⟨by rw [hps]; exact h.1, by rw [hps]; exact h.2, by rw [hps]; exact hcount.1,
      by rw [hps]; exact hcount.2⟩
  cases hmode with
  | quiet _ hnil =>
    subst hnil
    exact ⟨by simp [latest], by simp [latest]⟩
  | @first ev _ _ _ hone hacc =>
    subst hone
    have hnone : latest [⟨s.args, ev⟩] = none := by
      cases hpulse with
      | pulse _ hacc' => exact latest_cons_of_zero (hacc'.trans hacc)
    exact ⟨by simp [hnone], by simp [hnone]⟩
  | faulty _ _ hd hf hl =>
    exact ⟨fun p _ hd' => absurd (hd.symm.trans hd') (by simp),
      fun p hp => ⟨fun _ => hlatest hl hp, fun _ => hf⟩⟩
  | @good ev _ _ _ hone hacc hf hcap hp hd =>
    subst hone
    have hl : LatestIs (fun p => p.args = s.args ∧
        (s.core.done = true → p.AllCompleted)) [⟨s.args, ev⟩] := by
      refine ⟨_, latest_cons ?_, rfl, fun hd' => hp.all_completed hcap (hd hd')⟩
      cases hpulse with
      | pulse _ hacc' => omega
    refine ⟨fun p hp => (hlatest hl hp).2, fun p hp => ?_⟩
    rw [(hlatest hl hp).1, hf]
    simp only [Bool.false_eq_true, false_iff, not_lt]
    exact hcap
  | after hd hf hl =>
    refine ⟨fun p hp _ => (hlatest hl hp).2, fun p hp => ?_⟩
    rw [hf]
    simp only [Bool.false_eq_true, false_iff, not_lt]
    exact (hlatest hl hp).1

end Invariant

/-- While `barrierCoreN` reads `start` high once in each pulse, with bits that fit, the status is
that of the latest launch. -/
theorem statusCorrect {B : Build} {s : Top B} {tr : List FlatEvent}
    (h : ((topSystem B statusHost).filter StatusStep).Run (fun _ => True) s tr) :
    StatusCorrect s tr := by
  refine StatusInv.correct (h.invariant StatusInv (fun s hs _ => StatusInv.reset hs) ?_)
  intro s tr a s' ev _ hinv hs _
  obtain ⟨hok, hs⟩ := Transition.filter_step hs
  exact hinv.step hok hs

/-- A launch of one warp that is done, and one without warps that is accepted. -/
theorem statusCorrect_oneSlot : ∃ (s : Top oneSlot) (tr : List FlatEvent),
    ((topSystem oneSlot statusHost).filter StatusStep).Run (fun _ => True) s tr ∧
      s.core.done = true ∧ s.host.launches = 2 ∧ s.host.accepted = 1 ∧ StatusCorrect s tr := by
  have hinit : ((topSystem oneSlot statusHost).filter StatusStep).Run (fun _ => True)
    (Top.zeroed oneSlot) [] := .init (Top.zeroed_isReset _) trivial
  have hrun := hinit.follow (haltThen 0)
  rw [List.nil_append] at hrun
  have hof (r : Top oneSlot × List FlatEvent)
      (hrun : ((topSystem oneSlot statusHost).filter StatusStep).Run (fun _ => True) r.1 r.2)
      (hreached : (r.1.core.done && r.1.host.launches == 2 && r.1.host.accepted == 1) = true) :
      ∃ (s : Top oneSlot) (tr : List FlatEvent),
        ((topSystem oneSlot statusHost).filter StatusStep).Run (fun _ => True) s tr ∧
          s.core.done = true ∧ s.host.launches = 2 ∧ s.host.accepted = 1 ∧ StatusCorrect s tr := by
    simp only [Bool.and_eq_true, beq_iff_eq] at hreached
    obtain ⟨⟨hdone, hlaunches⟩, haccepted⟩ := hreached
    exact ⟨_, _, hrun, hdone, hlaunches, haccepted, statusCorrect hrun⟩
  exact hof _ hrun (by decide +kernel)

/-- The fault of an over-capacity launch is still up behind the acceptance of a good one. -/
theorem not_statusCorrect : ¬ ∀ (B : Build) (s : Top B) (tr : List FlatEvent),
    (topSystem B statusHost).Run (fun _ => True) s tr → StatusCorrect s tr := by
  intro h
  obtain ⟨r, hr, hfault, hlatest⟩ : ∃ r, (topSystem oneSlot statusHost).exec (fun _ => True)
      (Top.zeroed oneSlot) [.raise (haltArgs 2), .barrier, .sample, .drop, .raise (haltArgs 1),
        .barrier] = some r ∧ r.1.core.fault = true ∧
      latest (pulses r.2) = some ⟨haltArgs 1, [.accepted (haltArgs 1)]⟩ := ⟨_, rfl, rfl, rfl⟩
  have hinit : (topSystem oneSlot statusHost).Run (fun _ => True) (Top.zeroed oneSlot) [] :=
    .init (Top.zeroed_isReset _) trivial
  have hcorrect := h oneSlot _ _ (hinit.exec _ hr)
  rw [List.nil_append] at hcorrect
  exact absurd ((hcorrect.fault _ hlatest).1 hfault) (by decide)

end RiscvGpgpu.Hls
