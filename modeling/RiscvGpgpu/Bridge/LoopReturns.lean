import RiscvGpgpu.Bridge.LockstepEnds

/-!
# The loops return

A turn that makes progress takes a step of a thread that has not halted, or releases a block. Where
the number of these is bounded and every step is defined, a loop with enough turns returns.
-/

namespace RiscvGpgpu.Bridge

open Golden (HostFloat BinaryUnit)

section Work

variable {F : HostFloat} {L : Launch} {s s' : Simulation} {i : ℕ} {w : Worker} {e : Event}

theorem work_record (ws : List Worker) :
    (s.record e ws).work = s.work + if Moment.works ⟨s.workers, e, ws⟩ then 1 else 0 := by
  unfold Simulation.work Simulation.record
  dsimp only
  rw [List.countP_append, List.countP_singleton]

theorem Runs.work_le (h : Runs L s s') : s.work ≤ s'.work := by
  induction h with
  | refl => exact le_rfl
  | tail _ hmove ih =>
    obtain ⟨e, hmove⟩ := hmove
    refine le_trans ih ?_
    unfold Simulation.work
    rw [hmove.trace, List.countP_append]
    exact Nat.le_add_right _ _

theorem stepWorker_work (hw : s.workers[i]? = some w) (hhalted : w.cu.halted = false)
    (h : s.stepWorker F L i = some s') : s'.work = s.work + 1 := by
  obtain ⟨cu, mem, -, rfl⟩ := stepWorker_some hw h
  rw [work_record, if_pos]
  · rfl
  · show (s.workers[i]?).any (fun w => !w.cu.halted) = true
    rw [hw, Option.any_some, hhalted]
    rfl

theorem releaseIfComplete_work (w : Worker) :
    s.work ≤ (s.releaseIfComplete L w).2.work ∧
      ((s.releaseIfComplete L w).1 = true → s.work < (s.releaseIfComplete L w).2.work) := by
  unfold Simulation.releaseIfComplete
  split_ifs
  · have hwork : (s.releaseBlock w.blockId w.cu.barrierId).work = s.work + 1 := work_record _
    dsimp only
    rw [hwork]
    exact ⟨Nat.le_succ _, fun _ => Nat.lt_succ_self _⟩
  · exact ⟨le_rfl, fun h => absurd h (by decide)⟩

theorem retire_work : (s.retire i).work = s.work := work_record _

/-- Between two turns or parts of a turn, each with the flag for progress. -/
def Works (t t' : Simulation × Bool) : Prop :=
  t.1.work ≤ t'.1.work ∧ (t'.2 = true → t.2 = true ∨ t.1.work < t'.1.work)

theorem Works.refl (t : Simulation × Bool) : Works t t := ⟨le_rfl, .inl⟩

theorem Works.trans {t t' t'' : Simulation × Bool} (h : Works t t') (h' : Works t' t'') :
    Works t t'' := by
  refine ⟨h.1.trans h'.1, fun hprogress => ?_⟩
  rcases h'.2 hprogress with hmid | hlt
  · exact (h.2 hmid).imp_right fun hlt => hlt.trans_le h'.1
  · exact .inr (h.1.trans_lt hlt)

end Work

/-! ## The scalar loop -/

section Scalar

variable {F : HostFloat} {L : Launch} {U i : ℕ} {t t' : ScalarTurn}

theorem scalarVisit_works (h : Running t.sim) (hvisit : scalarVisit F L t i = some t') :
    Works (t.sim, t.madeProgress) (t'.sim, t'.madeProgress) := by
  unfold scalarVisit at hvisit
  obtain ⟨w, hw, hvisit⟩ := Option.bind_eq_some_iff.1 hvisit
  split_ifs at hvisit with hactive hblocked
  · exact Option.some.inj hvisit ▸ .refl _
  · exact Option.some.inj hvisit ▸ .refl _
  · obtain ⟨sim, hsim, hvisit⟩ := Option.bind_eq_some_iff.1 hvisit
    obtain ⟨v, hv, hvisit⟩ := Option.bind_eq_some_iff.1 hvisit
    rw [← Option.some.inj hvisit]
    have hgoes := h i w hw (by simpa using hactive)
    have hstep : t.sim.work < sim.work := by
      rw [stepWorker_work hw hgoes hsim]
      exact Nat.lt_succ_self _
    have hrelease : sim.work ≤
        (if v.cu.isBlocked then (sim.releaseIfComplete L v).2 else sim).work := by
      split_ifs
      · exact (releaseIfComplete_work v).1
      · exact le_rfl
    dsimp only
    generalize (if v.cu.isBlocked then (sim.releaseIfComplete L v).2 else sim) = mid at hrelease ⊢
    have hlt : t.sim.work < (if v.cu.isComplete then mid.retire i else mid).work := by
      split_ifs
      · rw [retire_work]
        exact hstep.trans_le hrelease
      · exact hstep.trans_le hrelease
    exact ⟨hlt.le, fun _ => .inr hlt⟩

theorem scalarScan_works {is : List ℕ} (h : Settled L t.sim)
    (hscan : scalarScan F L U is t = some t') :
    Works (t.sim, t.madeProgress) (t'.sim, t'.madeProgress) := by
  induction is generalizing t with
  | nil => exact Option.some.inj hscan ▸ .refl _
  | cons i is ih =>
    unfold scalarScan at hscan
    split_ifs at hscan
    · obtain ⟨u, hu, hscan⟩ := Option.bind_eq_some_iff.1 hscan
      exact (scalarVisit_works h.running hu).trans (ih (h.scalarVisit hu) hscan)
    · exact Option.some.inj hscan ▸ .refl _

variable {P : Simulation → Prop} {n B : ℕ}

theorem scalarLoop_returns (hP : Kept F L P) (hlen : ∀ s, P s → s.workers.length = n)
    (hcan : ∀ s, P s → CanStep F L s) (hbound : ∀ s, P s → s.work ≤ B) {turns cursor : ℕ}
    {s : Simulation} (h : P s) (hs : Settled L s) (hturns : B < s.work + turns) :
    ∃ r, scalarLoop F L U turns cursor s = some r := by
  induction turns generalizing cursor s with
  | zero => exact absurd hturns (Nat.not_lt.2 (hbound s h))
  | succ turns ih =>
    obtain ⟨t, ht⟩ := scalarTurn_defined hP hlen hcan (U := U) h cursor
    rw [scalarLoop, ht]
    show ∃ r, (if (!t.anyActive) = true then some (true, t.sim)
      else if (!t.madeProgress) = true then some (false, t.sim)
      else scalarLoop F L U turns _ t.sim) = some r
    generalize (if 0 < s.workers.length then _ else _) = next
    split_ifs with hactive hprogress
    · exact ⟨_, rfl⟩
    · exact ⟨_, rfl⟩
    · have hworks := (scalarScan_works hs ht).2 (by simpa using hprogress)
      have hlt : s.work < t.sim.work := hworks.resolve_left Bool.false_ne_true
      exact ih (hP.scalarScan h ht) (hs.scalarScan ht) (by omega)

end Scalar

/-! ## The lockstep loop -/

section Lockstep

variable {F : HostFloat} {L : Launch} {i : ℕ} {t t' : WarpTurn}

theorem warpStep_works (h : warpStep F L t i = some t') :
    Works (t.sim, t.madeProgress) (t'.sim, t'.madeProgress) := by
  unfold warpStep at h
  obtain ⟨w, hw, h⟩ := Option.bind_eq_some_iff.1 h
  split_ifs at h with hgo
  · obtain ⟨sim, hsim, h⟩ := Option.bind_eq_some_iff.1 h
    rw [← Option.some.inj h]
    have hgoes : w.cu.halted = false := by
      simp only [Bool.and_eq_true, BinaryUnit.isComplete, Bool.not_eq_true'] at hgo
      exact hgo.1.2
    have hlt : t.sim.work < sim.work := by
      rw [stepWorker_work hw hgoes hsim]
      exact Nat.lt_succ_self _
    exact ⟨hlt.le, fun _ => .inr hlt⟩
  · exact Option.some.inj h ▸ .refl _

theorem warpRelease_works (h : warpRelease L t i = some t') :
    Works (t.sim, t.madeProgress) (t'.sim, t'.madeProgress) := by
  obtain ⟨w, -, ⟨rfl, -⟩ | rfl⟩ := warpRelease_cases h
  · exact .refl _
  · have hwork : (t.sim.releaseBlock w.blockId w.cu.barrierId).work = t.sim.work + 1 :=
      work_record _
    refine ⟨?_, fun _ => .inr ?_⟩
    all_goals
      dsimp only
      rw [hwork]
    · exact Nat.le_succ _
    · exact Nat.lt_succ_self _

theorem foldlM_works {β : Type} {f : β → ℕ → Option β} {g : β → Simulation × Bool}
    (hf : ∀ b i b', f b i = some b' → Works (g b) (g b')) {is : List ℕ} {b b' : β}
    (h : is.foldlM f b = some b') : Works (g b) (g b') := by
  induction is generalizing b with
  | nil => exact Option.some.inj h ▸ .refl _
  | cons i is ih =>
    rw [List.foldlM_cons] at h
    obtain ⟨u, hu, h⟩ := Option.bind_eq_some_iff.1 h
    exact (hf b i u hu).trans (ih h)

theorem warpGroupTurn_works {wg wg' : WarpGroup} (h : warpGroupTurn F L t wg = some (t', wg')) :
    Works (t.sim, t.madeProgress) (t'.sim, t'.madeProgress) := by
  unfold warpGroupTurn at h
  obtain ⟨t₁, h₁, h⟩ := Option.bind_eq_some_iff.1 h
  obtain ⟨t₂, h₂, h⟩ := Option.bind_eq_some_iff.1 h
  obtain ⟨t₃, h₃, h⟩ := Option.bind_eq_some_iff.1 h
  obtain ⟨rfl, -⟩ := Prod.mk.inj (Option.some.inj h)
  have hstep := foldlM_works (g := fun t : WarpTurn => (t.sim, t.madeProgress))
    (fun _ _ _ => warpStep_works) h₁
  have hrelease := foldlM_works (g := fun t : WarpTurn => (t.sim, t.madeProgress))
    (fun _ _ _ => warpRelease_works) h₂
  have hretire : t₂.sim.work ≤ t₃.1.work :=
    Runs.work_le (L := L) (foldlM_runs Prod.fst (fun _ _ _ => warpRetire_runs) h₃)
  exact (hstep.trans hrelease).trans ⟨hretire, .inl⟩

theorem warpTurn_works {wgs wgs' : List WarpGroup} (h : warpTurn F L wgs t = some (t', wgs')) :
    Works (t.sim, t.madeProgress) (t'.sim, t'.madeProgress) := by
  induction wgs generalizing t wgs' with
  | nil => exact (Prod.mk.inj (Option.some.inj h)).1 ▸ .refl _
  | cons wg wgs ih =>
    unfold warpTurn at h
    split_ifs at h
    · obtain ⟨⟨u, vs⟩, hu, h⟩ := Option.bind_eq_some_iff.1 h
      obtain ⟨rfl, -⟩ := Prod.mk.inj (Option.some.inj h)
      exact ih hu
    · obtain ⟨⟨u, x⟩, hu, h⟩ := Option.bind_eq_some_iff.1 h
      obtain ⟨⟨y, vs⟩, hy, h⟩ := Option.bind_eq_some_iff.1 h
      obtain ⟨rfl, -⟩ := Prod.mk.inj (Option.some.inj h)
      exact (warpGroupTurn_works hu).trans (ih hy)

variable {P : Simulation → Prop} {n B : ℕ}

theorem warpLoop_returns (hP : Kept F L P) (hlen : ∀ s, P s → s.workers.length = n)
    (hcan : ∀ s, P s → CanStep F L s) (hbound : ∀ s, P s → s.work ≤ B) {turns : ℕ}
    {wgs : List WarpGroup} {s : Simulation} (h : P s) (hs : GroupsRetired s wgs)
    (hwgs : ∀ is ∈ wgs.map WarpGroup.threads, ∀ i ∈ is, i < n) (hturns : B < s.work + turns) :
    ∃ r, warpLoop F L turns wgs s = some r := by
  induction turns generalizing wgs s with
  | zero => exact absurd hturns (Nat.not_lt.2 (hbound s h))
  | succ turns ih =>
    obtain ⟨t, next, ht⟩ := warpTurn_defined hP hlen hcan
      (fun wg hwg i hi => hwgs _ (List.mem_map_of_mem hwg) i hi) (t := ⟨s, false⟩) h
    rw [warpLoop, ht]
    show ∃ r, (if (!wgs.any WarpGroup.active) = true then some (true, t.sim)
      else if (!t.madeProgress) = true then some (false, t.sim)
      else warpLoop F L turns next t.sim) = some r
    split_ifs with hactive hprogress
    · exact ⟨_, rfl⟩
    · exact ⟨_, rfl⟩
    · have hworks := (warpTurn_works ht).2 (by simpa using hprogress)
      have hlt : s.work < t.sim.work := hworks.resolve_left Bool.false_ne_true
      obtain ⟨hthreads, hretired⟩ := warpTurn_retired ht hs
      exact ih (hP.warpTurn h ht) hretired (hthreads ▸ hwgs) (by omega)

end Lockstep

end RiscvGpgpu.Bridge
