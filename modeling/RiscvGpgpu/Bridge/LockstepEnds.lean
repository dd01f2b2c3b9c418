import RiscvGpgpu.Bridge.LoopEnds

/-!
# The end of the lockstep loop

Between the turns of groups, a group that is active has a thread that has not halted, and the
threads of the others are retired. A turn that makes no progress changes nothing, and finds every
thread of an active group blocked at a barrier that is not complete.
-/

namespace RiscvGpgpu.Bridge

open Golden (HostFloat BinaryUnit)

section Flags

variable {F : HostFloat} {L : Launch} {t t' : WarpTurn} {i j : ℕ} {w : Worker} {s s' : Simulation}

/-- Whether a worker is active, and whether it has halted. -/
def Simulation.flags (s : Simulation) (j : ℕ) : Option (Bool × Bool) :=
  (s.workers[j]?).map fun w => (w.active, w.cu.halted)

theorem flags_of (hw : s.workers[j]? = some w) : s.flags j = some (w.active, w.cu.halted) := by
  unfold Simulation.flags
  rw [hw]
  rfl

theorem exists_of_flags {a h : Bool} (hflags : s.flags j = some (a, h)) :
    ∃ w, s.workers[j]? = some w ∧ w.active = a ∧ w.cu.halted = h := by
  obtain ⟨w, hw, heq⟩ := Option.map_eq_some_iff.1 hflags
  obtain ⟨rfl, rfl⟩ := Prod.mk.inj heq
  exact ⟨w, hw, rfl, rfl⟩

theorem running_iff : Running s ↔ ∀ j, s.flags j ≠ some (true, true) := by
  constructor
  · intro h j hflags
    obtain ⟨w, hw, hactive, hhalted⟩ := exists_of_flags hflags
    exact Bool.false_ne_true ((h j w hw hactive).symm.trans hhalted)
  · intro h j w hw hactive
    rw [← Bool.not_eq_true]
    intro hhalted
    exact h j (by rw [flags_of hw, hactive, hhalted])

theorem flags_set_ne {v : Worker} (hws : s'.workers = s.workers.set i v)
    (hne : j ≠ i) : s'.flags j = s.flags j := by
  unfold Simulation.flags
  rw [hws, List.getElem?_set_ne (Ne.symm hne)]

/-! ## Visits -/

theorem warpStep_flags (h : warpStep F L t i = some t') (hne : j ≠ i) :
    t'.sim.flags j = t.sim.flags j := by
  unfold warpStep at h
  obtain ⟨w, hw, h⟩ := Option.bind_eq_some_iff.1 h
  split_ifs at h
  · obtain ⟨sim, hsim, h⟩ := Option.bind_eq_some_iff.1 h
    obtain ⟨cu, mem, -, rfl⟩ := stepWorker_some hw hsim
    rw [← Option.some.inj h]
    exact flags_set_ne rfl hne
  · rw [← Option.some.inj h]

theorem releaseBlock_flags (s : Simulation) (b : Golden.BlockId) (k : Word) (j : ℕ) :
    (s.releaseBlock b k).flags j = s.flags j := by
  unfold Simulation.flags
  rw [getElem?_release, Option.map_map]
  refine Option.map_congr fun w _ => ?_
  rw [Function.comp_apply]
  split_ifs
  · rcases releaseBarrier_cases w.cu k with ⟨-, -, heq⟩ | ⟨-, heq⟩ <;> rw [heq]
  · rfl

/-- The second part of a group's turn, for one worker. -/
theorem warpRelease_cases (h : warpRelease L t i = some t') :
    ∃ w, t.sim.workers[i]? = some w ∧
      (t' = t ∧ ((w.active = true ∧ w.cu.blocked = true) →
          t.sim.arrived w.blockId w.cu.barrierId ≠ L.threadsPerBlock.toNat) ∨
        t' = ⟨t.sim.releaseBlock w.blockId w.cu.barrierId, true⟩) := by
  unfold warpRelease at h
  obtain ⟨w, hw, h⟩ := Option.bind_eq_some_iff.1 h
  refine ⟨w, hw, ?_⟩
  split_ifs at h with hstay
  · refine .inl ⟨(Option.some.inj h).symm, ?_⟩
    rintro ⟨hactive, hblocked⟩
    rw [hactive, BinaryUnit.isBlocked, hblocked] at hstay
    exact absurd hstay (by decide)
  · unfold Simulation.releaseIfComplete at h
    split_ifs at h with harrived
    · exact .inr (by rw [← Option.some.inj h, Bool.or_true])
    · exact .inl ⟨by rw [← Option.some.inj h, Bool.or_false], fun _ => harrived⟩

theorem warpRelease_flags (h : warpRelease L t i = some t') (j : ℕ) :
    t'.sim.flags j = t.sim.flags j := by
  obtain ⟨w, -, ⟨rfl, -⟩ | rfl⟩ := warpRelease_cases h
  · rfl
  · exact releaseBlock_flags _ _ _ j

/-- A worker that has halted is retired, and no other one changes. -/
theorem warpRetire_flags {t t' : Simulation × Bool} (h : warpRetire t i = some t') :
    t'.1.flags i ≠ some (true, true) ∧
      (∀ j, j ≠ i ∨ t.1.flags j = some (true, false) → t'.1.flags j = t.1.flags j) ∧
      (t'.2 = false → t.2 = false ∨ t'.1.flags i = some (true, false)) := by
  unfold warpRetire at h
  obtain ⟨w, hw, h⟩ := Option.bind_eq_some_iff.1 h
  have hflags := flags_of hw
  split_ifs at h with hactive hcomplete
  · have hoff : w.active = false := by simpa using hactive
    rw [← Option.some.inj h]
    refine ⟨?_, fun _ _ => rfl, .inl⟩
    rw [hflags, hoff]
    simp
  · have hws := retire_workers hw
    rw [← Option.some.inj h]
    have hnow : (t.1.retire i).workers[i]? = some { w with active := false } := by
      rw [hws, List.getElem?_set_self', hw]
      rfl
    refine ⟨?_, fun j hj => ?_, .inl⟩
    · rw [flags_of hnow]
      simp
    · by_cases hij : j = i
      · subst hij
        have hhalted : w.cu.halted = true := hcomplete
        rw [hflags, hhalted] at hj
        simp at hj
      · exact flags_set_ne hws hij
  · have hgoes : w.cu.halted = false := Bool.not_eq_true _ ▸ hcomplete
    have hon : w.active = true := by simpa using hactive
    rw [← Option.some.inj h]
    dsimp only
    rw [hflags, hgoes, hon]
    exact ⟨by simp, fun _ _ => rfl, fun _ => .inr rfl⟩

/-! ## Passes -/

theorem foldlM_warpStep_flags {is : List ℕ} (h : is.foldlM (warpStep F L) t = some t')
    (hj : j ∉ is) : t'.sim.flags j = t.sim.flags j := by
  induction is generalizing t with
  | nil => rw [← Option.some.inj h]
  | cons i is ih =>
    rw [List.foldlM_cons] at h
    obtain ⟨u, hu, h⟩ := Option.bind_eq_some_iff.1 h
    rw [ih h fun hmem => hj (List.mem_cons_of_mem _ hmem),
      warpStep_flags hu (List.ne_of_not_mem_cons hj)]

theorem foldlM_warpRelease_flags {is : List ℕ} (h : is.foldlM (warpRelease L) t = some t') (j : ℕ) :
    t'.sim.flags j = t.sim.flags j := by
  induction is generalizing t with
  | nil => rw [← Option.some.inj h]
  | cons i is ih =>
    rw [List.foldlM_cons] at h
    obtain ⟨u, hu, h⟩ := Option.bind_eq_some_iff.1 h
    rw [ih h, warpRelease_flags hu]

/-- After the last part of a group's turn no thread of the group has halted and is active, and one
of them goes on unless all are done. -/
theorem foldlM_warpRetire_flags {is : List ℕ} {t t' : Simulation × Bool}
    (h : is.foldlM warpRetire t = some t') :
    (∀ j, t.1.flags j ≠ some (true, true) ∨ j ∈ is → t'.1.flags j ≠ some (true, true)) ∧
      (∀ j, j ∉ is ∨ t.1.flags j = some (true, false) → t'.1.flags j = t.1.flags j) ∧
      (t'.2 = false → t.2 = false ∨ ∃ j ∈ is, t'.1.flags j = some (true, false)) := by
  induction is generalizing t with
  | nil =>
    obtain rfl := Option.some.inj h
    exact ⟨fun j hj => hj.resolve_right List.not_mem_nil, fun _ _ => rfl, .inl⟩
  | cons i is ih =>
    rw [List.foldlM_cons] at h
    obtain ⟨u, hu, h⟩ := Option.bind_eq_some_iff.1 h
    obtain ⟨hone, hothers, hdone⟩ := warpRetire_flags hu
    obtain ⟨hall, hothers', hdone'⟩ := ih h
    refine ⟨fun j hj => ?_, fun j hj => ?_, fun hfalse => ?_⟩
    · by_cases hij : j = i
      · exact hall j (.inl (hij ▸ hone))
      · refine hall j (hj.imp (fun hne => ?_) fun hmem => (List.mem_cons.1 hmem).resolve_left hij)
        rwa [hothers j (.inl hij)]
    · have hfst := hothers j (hj.imp_left fun hmem => List.ne_of_not_mem_cons hmem)
      rw [← hfst]
      exact hothers' j (hj.imp (fun hmem hmem' => hmem (List.mem_cons_of_mem _ hmem'))
        fun hgoes => hfst.trans hgoes)
    · rcases hdone' hfalse with hu' | ⟨j, hj, hgoes⟩
      · rcases hdone hu' with hfalse' | hgoes
        · exact .inl hfalse'
        · exact .inr ⟨i, List.mem_cons_self, (hothers' i (.inr hgoes)).trans hgoes⟩
      · exact .inr ⟨j, List.mem_cons_of_mem _ hj, hgoes⟩

/-- A turn of a group leaves the other threads active, and its own ones settled. -/
theorem warpGroupTurn_flags {wg wg' : WarpGroup} (h : warpGroupTurn F L t wg = some (t', wg'))
    (hrunning : Running t.sim) :
    Running t'.sim ∧ (∀ j, j ∉ wg.threads → t'.sim.flags j = t.sim.flags j) ∧
      (wg'.active = true → ∃ j ∈ wg'.threads, t'.sim.flags j = some (true, false)) := by
  unfold warpGroupTurn at h
  obtain ⟨t₁, h₁, h⟩ := Option.bind_eq_some_iff.1 h
  obtain ⟨t₂, h₂, h⟩ := Option.bind_eq_some_iff.1 h
  obtain ⟨t₃, h₃, h⟩ := Option.bind_eq_some_iff.1 h
  obtain ⟨rfl, rfl⟩ := Prod.mk.inj (Option.some.inj h)
  obtain ⟨hall, hothers, hdone⟩ := foldlM_warpRetire_flags h₃
  have hsame : ∀ j, j ∉ wg.threads → t₂.sim.flags j = t.sim.flags j := fun j hj =>
    (foldlM_warpRelease_flags h₂ j).trans (foldlM_warpStep_flags h₁ hj)
  refine ⟨running_iff.2 fun j => hall j ?_, fun j hj => (hothers j (.inl hj)).trans (hsame j hj),
    fun hactive => ?_⟩
  · by_cases hj : j ∈ wg.threads
    · exact .inr hj
    · refine .inl ?_
      show t₂.sim.flags j ≠ _
      rw [hsame j hj]
      exact running_iff.1 hrunning j
  · exact (hdone (by simpa using hactive)).resolve_left (by simp)

end Flags

/-! ## Turns -/

/-- The groups that are active have a thread that goes on. -/
def GroupsAlive (s : Simulation) (wgs : List WarpGroup) : Prop :=
  ∀ wg ∈ wgs, wg.active = true → ∃ j ∈ wg.threads, s.flags j = some (true, false)

/-- No two groups have a thread in common. -/
def Apart (wgs : List WarpGroup) : Prop :=
  wgs.Pairwise fun wg wg' => ∀ j ∈ wg.threads, j ∉ wg'.threads

section Turns

variable {F : HostFloat} {L : Launch} {t t' : WarpTurn} {wgs wgs' : List WarpGroup}

theorem warpTurn_flags (h : warpTurn F L wgs t = some (t', wgs')) (hapart : Apart wgs)
    (hrunning : Running t.sim) (halive : GroupsAlive t.sim wgs) :
    Running t'.sim ∧ GroupsAlive t'.sim wgs' ∧
      ∀ j, (∀ wg ∈ wgs, j ∉ wg.threads) → t'.sim.flags j = t.sim.flags j := by
  induction wgs generalizing t wgs' with
  | nil =>
    obtain ⟨rfl, rfl⟩ := Prod.mk.inj (Option.some.inj h)
    exact ⟨hrunning, halive, fun _ _ => rfl⟩
  | cons wg wgs ih =>
    obtain ⟨hfst, hrest⟩ := List.pairwise_cons.1 hapart
    have htail : GroupsAlive t.sim wgs := fun v hv => halive v (List.mem_cons_of_mem _ hv)
    unfold warpTurn at h
    split_ifs at h with hoff
    · obtain ⟨⟨u, vs⟩, hu, h⟩ := Option.bind_eq_some_iff.1 h
      obtain ⟨rfl, rfl⟩ := Prod.mk.inj (Option.some.inj h)
      obtain ⟨hrun, hvs, hsame⟩ := ih hu hrest hrunning htail
      refine ⟨hrun, fun v hv hactive => ?_, fun j hj => hsame j fun v hv =>
        hj v (List.mem_cons_of_mem _ hv)⟩
      rcases List.mem_cons.1 hv with rfl | hv
      · rw [hactive] at hoff
        exact absurd hoff (by decide)
      · exact hvs v hv hactive
    · obtain ⟨⟨u, x⟩, hu, h⟩ := Option.bind_eq_some_iff.1 h
      obtain ⟨⟨y, vs⟩, hy, h⟩ := Option.bind_eq_some_iff.1 h
      obtain ⟨rfl, rfl⟩ := Prod.mk.inj (Option.some.inj h)
      obtain ⟨hrun, hothers, hx⟩ := warpGroupTurn_flags hu hrunning
      have hthreads := (warpGroupTurn_retired hu).1
      have hmid : GroupsAlive u.sim wgs := by
        intro v hv hactive
        obtain ⟨j, hj, hgoes⟩ := htail v hv hactive
        exact ⟨j, hj, (hothers j fun hmem => hfst v hv j hmem hj).trans hgoes⟩
      obtain ⟨hrun', hvs, hsame⟩ := ih hy hrest hrun hmid
      refine ⟨hrun', fun v hv hactive => ?_, fun j hj => ?_⟩
      · rcases List.mem_cons.1 hv with rfl | hv
        · obtain ⟨j, hj, hgoes⟩ := hx hactive
          refine ⟨j, hj, (hsame j fun v hv hmem => ?_).trans hgoes⟩
          exact hfst v hv j (hthreads ▸ hj) hmem
        · exact hvs v hv hactive
      · rw [hsame j fun v hv => hj v (List.mem_cons_of_mem _ hv)]
        exact hothers j (hj wg List.mem_cons_self)

/-! ### Turns without progress -/

/-- A pass that makes no progress, from its visits. -/
theorem foldlM_idle {f : WarpTurn → ℕ → Option WarpTurn} {Q : WarpTurn → ℕ → Prop}
    (hf : ∀ t i t', f t i = some t' → t'.madeProgress = false → t' = t ∧ Q t i) {is : List ℕ}
    (h : is.foldlM f t = some t') (hidle : t'.madeProgress = false) :
    t' = t ∧ ∀ i ∈ is, Q t i := by
  induction is generalizing t with
  | nil => exact ⟨(Option.some.inj h).symm, fun i hi => absurd hi List.not_mem_nil⟩
  | cons i is ih =>
    rw [List.foldlM_cons] at h
    obtain ⟨u, hu, h⟩ := Option.bind_eq_some_iff.1 h
    obtain ⟨rfl, his⟩ := ih h
    obtain ⟨rfl, hi⟩ := hf _ _ _ hu hidle
    refine ⟨rfl, fun j hj => ?_⟩
    rcases List.mem_cons.1 hj with rfl | hj
    · exact hi
    · exact his j hj

theorem warpStep_idle (t : WarpTurn) (i : ℕ) (t' : WarpTurn) (h : warpStep F L t i = some t')
    (hidle : t'.madeProgress = false) : t' = t ∧ ∀ w, t.sim.workers[i]? = some w →
      w.active = true → w.cu.halted = false → w.cu.blocked = true := by
  unfold warpStep at h
  obtain ⟨w, hw, h⟩ := Option.bind_eq_some_iff.1 h
  split_ifs at h with hgo
  · obtain ⟨sim, -, h⟩ := Option.bind_eq_some_iff.1 h
    rw [← Option.some.inj h] at hidle
    exact absurd hidle.symm Bool.false_ne_true
  · refine ⟨(Option.some.inj h).symm, fun v hv hactive hhalted => ?_⟩
    obtain rfl := Option.some.inj (hw.symm.trans hv)
    rw [hactive, BinaryUnit.isComplete, hhalted] at hgo
    simpa [BinaryUnit.isBlocked] using hgo

theorem warpRelease_idle (t : WarpTurn) (i : ℕ) (t' : WarpTurn) (h : warpRelease L t i = some t')
    (hidle : t'.madeProgress = false) : t' = t ∧ ∀ w, t.sim.workers[i]? = some w →
      w.active = true → w.cu.blocked = true →
        t.sim.arrived w.blockId w.cu.barrierId ≠ L.threadsPerBlock.toNat := by
  obtain ⟨w, hw, ⟨rfl, hstuck⟩ | rfl⟩ := warpRelease_cases h
  · refine ⟨rfl, fun v hv hactive hblocked => ?_⟩
    obtain rfl := Option.some.inj (hw.symm.trans hv)
    exact hstuck ⟨hactive, hblocked⟩
  · exact absurd hidle.symm Bool.false_ne_true

theorem foldlM_warpRetire_idle {is : List ℕ} {t t' : Simulation × Bool}
    (h : is.foldlM warpRetire t = some t') (hrunning : Running t.1) : t'.1 = t.1 := by
  induction is generalizing t with
  | nil => rw [← Option.some.inj h]
  | cons i is ih =>
    rw [List.foldlM_cons] at h
    obtain ⟨u, hu, h⟩ := Option.bind_eq_some_iff.1 h
    have hsame : u.1 = t.1 := by
      unfold warpRetire at hu
      obtain ⟨w, hw, hu⟩ := Option.bind_eq_some_iff.1 hu
      split_ifs at hu with hactive hcomplete
      · rw [← Option.some.inj hu]
      · have hgoes := hrunning i w hw (by simpa using hactive)
        exact absurd (hgoes.symm.trans hcomplete) Bool.false_ne_true
      · rw [← Option.some.inj hu]
    rw [ih h (hsame ▸ hrunning), hsame]

/-- The threads of a group are blocked where they cannot be released. -/
def GroupStuck (L : Launch) (s : Simulation) (wg : WarpGroup) : Prop :=
  ∀ i ∈ wg.threads, ∀ w, s.workers[i]? = some w → w.active = true →
    w.cu.blocked = true ∧ s.arrived w.blockId w.cu.barrierId ≠ L.threadsPerBlock.toNat

theorem warpGroupTurn_idle {wg wg' : WarpGroup} (h : warpGroupTurn F L t wg = some (t', wg'))
    (hidle : t'.madeProgress = false) (hrunning : Running t.sim) :
    t' = t ∧ GroupStuck L t.sim wg := by
  unfold warpGroupTurn at h
  obtain ⟨t₁, h₁, h⟩ := Option.bind_eq_some_iff.1 h
  obtain ⟨t₂, h₂, h⟩ := Option.bind_eq_some_iff.1 h
  obtain ⟨t₃, h₃, h⟩ := Option.bind_eq_some_iff.1 h
  obtain ⟨rfl, -⟩ := Prod.mk.inj (Option.some.inj h)
  obtain ⟨rfl, hreleased⟩ := foldlM_idle warpRelease_idle h₂ hidle
  obtain ⟨rfl, hstepped⟩ := foldlM_idle warpStep_idle h₁ hidle
  have hsim := foldlM_warpRetire_idle h₃ hrunning
  refine ⟨by rw [hsim], fun i hi w hw hactive => ?_⟩
  have hblocked := hstepped i hi w hw hactive (hrunning i w hw hactive)
  exact ⟨hblocked, hreleased i hi w hw hactive hblocked⟩

theorem warpTurn_idle (h : warpTurn F L wgs t = some (t', wgs')) (hidle : t'.madeProgress = false)
    (hrunning : Running t.sim) :
    t' = t ∧ ∀ wg ∈ wgs, wg.active = true → GroupStuck L t.sim wg := by
  induction wgs generalizing t wgs' with
  | nil =>
    exact ⟨(Prod.mk.inj (Option.some.inj h)).1.symm, fun wg hwg => absurd hwg List.not_mem_nil⟩
  | cons wg wgs ih =>
    unfold warpTurn at h
    split_ifs at h with hoff
    · obtain ⟨⟨u, vs⟩, hu, h⟩ := Option.bind_eq_some_iff.1 h
      obtain ⟨rfl, -⟩ := Prod.mk.inj (Option.some.inj h)
      obtain ⟨rfl, hvs⟩ := ih hu hrunning
      refine ⟨rfl, fun v hv hactive => ?_⟩
      rcases List.mem_cons.1 hv with rfl | hv
      · rw [hactive] at hoff
        exact absurd hoff (by decide)
      · exact hvs v hv hactive
    · obtain ⟨⟨u, x⟩, hu, h⟩ := Option.bind_eq_some_iff.1 h
      obtain ⟨⟨y, vs⟩, hy, h⟩ := Option.bind_eq_some_iff.1 h
      obtain ⟨rfl, -⟩ := Prod.mk.inj (Option.some.inj h)
      obtain ⟨hrun, -, -⟩ := warpGroupTurn_flags hu hrunning
      obtain ⟨rfl, hvs⟩ := ih hy hrun
      obtain ⟨rfl, hwg⟩ := warpGroupTurn_idle hu hidle hrunning
      refine ⟨rfl, fun v hv hactive => ?_⟩
      rcases List.mem_cons.1 hv with rfl | hv
      · exact hwg
      · exact hvs v hv hactive

/-! ### The loop -/

theorem Apart.congr (h : Apart wgs)
    (hthreads : wgs'.map WarpGroup.threads = wgs.map WarpGroup.threads) : Apart wgs' := by
  unfold Apart at h ⊢
  rw [← List.pairwise_map (f := WarpGroup.threads) (R := fun is js => ∀ j ∈ is, j ∉ js)] at h ⊢
  rwa [hthreads]

/-- What holds between the turns of the lockstep loop. -/
structure InLockstep (s : Simulation) (wgs : List WarpGroup) : Prop where
  sane : Sane s
  running : Running s
  alive : GroupsAlive s wgs
  retired : GroupsRetired s wgs
  apart : Apart wgs
  all : ∀ i, i < s.workers.length → ∃ is ∈ wgs.map WarpGroup.threads, i ∈ is

variable {s s' : Simulation}

theorem InLockstep.turn (h : InLockstep s wgs)
    (hturn : warpTurn F L wgs ⟨s, false⟩ = some (t, wgs')) : InLockstep t.sim wgs' := by
  obtain ⟨hrunning, halive, -⟩ := warpTurn_flags hturn h.apart h.running h.alive
  obtain ⟨hthreads, hretired⟩ := warpTurn_retired hturn h.retired
  refine ⟨(sane_kept F L).warpTurn h.sane hturn, hrunning, halive, hretired,
    h.apart.congr hthreads, fun i hi => ?_⟩
  rw [hthreads]
  exact h.all i ((warpTurn_runs hturn : Runs L s t.sim).length ▸ hi)

/-- The lockstep loop ends where no thread can go on. -/
theorem warpLoop_stopped {turns : ℕ} {finished : Bool} (h : InLockstep s wgs)
    (hloop : warpLoop F L turns wgs s = some (finished, s')) : Stopped L finished s' := by
  induction turns generalizing wgs s with
  | zero => exact absurd hloop (by simp [warpLoop])
  | succ turns ih =>
    rw [warpLoop] at hloop
    obtain ⟨⟨t, next⟩, ht, hloop⟩ := Option.bind_eq_some_iff.1 hloop
    have hnext := h.turn ht
    dsimp only at hloop
    cases hactive : wgs.any WarpGroup.active with
    | false =>
      rw [hactive, if_pos Bool.not_false] at hloop
      obtain ⟨rfl, rfl⟩ := Prod.mk.inj (Option.some.inj hloop)
      have hhalted : ∀ (i : ℕ) (w : Worker), t.sim.workers[i]? = some w → w.cu.halted = true := by
        intro i w hw
        obtain ⟨is, his, hi⟩ := hnext.all i (List.getElem?_eq_some_iff.1 hw).1
        rw [(warpTurn_retired ht h.retired).1] at his
        obtain ⟨wg, hwg, rfl⟩ := List.mem_map.1 his
        have hoff : wg.active = false := by simpa using List.any_eq_false.1 hactive wg hwg
        have hretired := (h.retired wg hwg hoff i hi).runs (warpTurn_runs ht : Runs L s t.sim)
        exact (hnext.sane i w hw).1 (hretired w hw)
      exact ⟨fun i w hw => .inl (hhalted i w hw), iff_of_true rfl hhalted⟩
    | true =>
      rw [hactive, Bool.not_true, if_neg Bool.false_ne_true] at hloop
      cases hprogress : t.madeProgress with
      | true =>
        rw [hprogress, Bool.not_true, if_neg Bool.false_ne_true] at hloop
        exact ih hnext hloop
      | false =>
        rw [hprogress, if_pos Bool.not_false] at hloop
        obtain ⟨rfl, rfl⟩ := Prod.mk.inj (Option.some.inj hloop)
        obtain ⟨rfl, hstuck⟩ := warpTurn_idle ht hprogress h.running
        refine ⟨fun i w hw => ?_, iff_of_false Bool.false_ne_true fun hall => ?_⟩
        · obtain ⟨is, his, hi⟩ := h.all i (List.getElem?_eq_some_iff.1 hw).1
          obtain ⟨wg, hwg, rfl⟩ := List.mem_map.1 his
          cases hon : w.active with
          | false => exact .inl ((h.sane i w hw).1 hon)
          | true =>
            cases hwgon : wg.active with
            | false => exact absurd (hon.symm.trans (h.retired wg hwg hwgon i hi w hw)) (by decide)
            | true => exact .inr ⟨rfl, hstuck wg hwg hwgon i hi w hw hon⟩
        · obtain ⟨wg, hwg, hon⟩ := List.any_eq_true.1 hactive
          obtain ⟨j, -, hgoes⟩ := h.alive wg hwg hon
          obtain ⟨w, hw, -, hhalted⟩ := exists_of_flags hgoes
          exact Bool.false_ne_true (hhalted.symm.trans (hall j w hw))

end Turns

/-! ## The start of the loop -/

theorem le_groupPlaces {ns : List ℕ} {first : ℕ} {is : List ℕ} (his : is ∈ groupPlaces first ns)
    {i : ℕ} (hi : i ∈ is) : first ≤ i := by
  induction ns generalizing first with
  | nil => exact absurd his List.not_mem_nil
  | cons n ns ih =>
    rcases List.mem_cons.1 his with rfl | his
    · obtain ⟨d, -, rfl⟩ := List.mem_map.1 hi
      omega
    · exact le_trans (Nat.le_add_right _ _) (ih his)

theorem groupPlaces_apart (ns : List ℕ) (first : ℕ) :
    (groupPlaces first ns).Pairwise fun is js => ∀ j ∈ is, j ∉ js := by
  induction ns generalizing first with
  | nil => exact .nil
  | cons n ns ih =>
    refine List.pairwise_cons.2 ⟨fun js hjs j hj hmem => ?_, ih _⟩
    obtain ⟨d, hd, rfl⟩ := List.mem_map.1 hj
    have hle := le_groupPlaces hjs hmem
    have hlt := List.mem_range.1 hd
    omega

/-- Every place of a group is one of a worker, and a group that is not empty has a place. -/
theorem groupPlaces_workers {α : Type} {groups : List (List α)} {first : ℕ} {is : List ℕ}
    (his : is ∈ groupPlaces first (groups.map List.length)) :
    (∀ i ∈ is, i < first + groups.flatten.length) ∧ ((∀ g ∈ groups, g ≠ []) → ∃ i, i ∈ is) := by
  induction groups generalizing first with
  | nil => exact absurd his List.not_mem_nil
  | cons g gs ih =>
    rw [List.flatten_cons, List.length_append]
    rcases List.mem_cons.1 his with rfl | his
    · refine ⟨fun i hi => ?_, fun hne => ⟨first, List.mem_map.2 ⟨0, ?_, Nat.add_zero _⟩⟩⟩
      · obtain ⟨d, hd, rfl⟩ := List.mem_map.1 hi
        have hlt := List.mem_range.1 hd
        omega
      · exact List.mem_range.2 (List.length_pos_of_ne_nil (hne g List.mem_cons_self))
    · obtain ⟨hlt, hsome⟩ := ih his
      refine ⟨fun i hi => ?_, fun hne => hsome fun v hv => hne v (List.mem_cons_of_mem _ hv)⟩
      have hi := hlt i hi
      omega

/-- The groups as the loop starts with them. -/
def startGroups (groups : List (List Worker)) : List WarpGroup :=
  (groupPlaces 0 (groups.map List.length)).map fun threads => ⟨threads, true⟩

theorem startGroups_threads (groups : List (List Worker)) :
    (startGroups groups).map WarpGroup.threads = groupPlaces 0 (groups.map List.length) := by
  unfold startGroups
  rw [List.map_map]
  exact List.map_id _

/-- A worker that has not taken a step. -/
def Worker.Fresh (w : Worker) : Prop :=
  w.active = true ∧ w.cu.halted = false ∧ w.cu.blocked = false

theorem fresh_sane {s : Simulation} (h : ∀ w ∈ s.workers, w.Fresh) : Sane s ∧ Running s := by
  refine ⟨fun i w hw => ?_, fun i w hw _ => (h w (List.mem_of_getElem? hw)).2.1⟩
  obtain ⟨hactive, hhalted, hblocked⟩ := h w (List.mem_of_getElem? hw)
  refine ⟨fun hoff => absurd (hactive.symm.trans hoff) (by decide), fun _ => hhalted⟩

theorem InLockstep.start {groups : List (List Worker)} {mem : Golden.MemoryHierarchy}
    {ms : List Moment} (hfresh : ∀ w ∈ groups.flatten, w.Fresh) (hne : ∀ g ∈ groups, g ≠ []) :
    InLockstep ⟨mem, groups.flatten, ms⟩ (startGroups groups) := by
  obtain ⟨hsane, hrunning⟩ := fresh_sane (s := ⟨mem, groups.flatten, ms⟩) hfresh
  have hthreads := startGroups_threads groups
  refine ⟨hsane, hrunning, fun wg hwg _ => ?_, fun wg hwg hoff => ?_, ?_, fun i hi => ?_⟩
  · obtain ⟨is, his, rfl⟩ := List.mem_map.1 hwg
    obtain ⟨hlt, hsome⟩ := groupPlaces_workers his
    obtain ⟨i, hi⟩ := hsome hne
    have hw := List.getElem?_eq_getElem (Nat.zero_add _ ▸ hlt i hi)
    obtain ⟨hactive, hhalted, -⟩ := hfresh _ (List.mem_of_getElem? hw)
    refine ⟨i, hi, (flags_of hw).trans ?_⟩
    rw [hactive, hhalted]
  · obtain ⟨is, -, rfl⟩ := List.mem_map.1 hwg
    exact absurd hoff.symm Bool.false_ne_true
  · unfold Apart
    rw [← List.pairwise_map (f := WarpGroup.threads) (R := fun is js => ∀ j ∈ is, j ∉ js), hthreads]
    exact groupPlaces_apart _ _
  · rw [hthreads]
    exact exists_groupPlaces (Nat.zero_le i) (by rwa [Nat.zero_add])

end RiscvGpgpu.Bridge
