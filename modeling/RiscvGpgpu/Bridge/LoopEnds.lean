import RiscvGpgpu.Bridge.Completion
import RiscvGpgpu.Bridge.LoopRules

/-!
# The ends of the loops

A loop ends where no thread can go on: every worker has halted or is blocked, and a blocked one is
at a barrier that its block has not all come to. It reports a deadlock exactly if some worker has
not halted (`Stopped`).
-/

namespace RiscvGpgpu.Bridge

open Golden (BlockId HostFloat BinaryUnit)

/-- No thread can go on. -/
structure Stopped (L : Launch) (finished : Bool) (s : Simulation) : Prop where
  stuck : ∀ (i : ℕ) (w : Worker), s.workers[i]? = some w → w.cu.halted = true ∨
    w.active = true ∧ w.cu.blocked = true ∧
      s.arrived w.blockId w.cu.barrierId ≠ L.threadsPerBlock.toNat
  finished : finished = true ↔ ∀ (i : ℕ) (w : Worker), s.workers[i]? = some w → w.cu.halted = true

/-- A worker is retired only when it has halted, and does not halt at a barrier. -/
def Sane (s : Simulation) : Prop := ∀ (i : ℕ) (w : Worker), s.workers[i]? = some w →
  (w.active = false → w.cu.halted = true) ∧ (w.cu.blocked = true → w.cu.halted = false)

/-- An active worker has not halted. -/
def Running (s : Simulation) : Prop := ∀ (i : ℕ) (w : Worker), s.workers[i]? = some w →
  w.active = true → w.cu.halted = false

/-- No block of a waiting worker is complete. -/
def Waiting (L : Launch) (s : Simulation) : Prop := ∀ (i : ℕ) (w : Worker),
  s.workers[i]? = some w → w.active = true → w.cu.blocked = true →
    s.arrived w.blockId w.cu.barrierId ≠ L.threadsPerBlock.toNat

section Workers

variable {F : HostFloat} {L : Launch} {s s' : Simulation} {i j : ℕ} {w w' v : Worker}

theorem getElem?_set_cases {ws : List Worker} (h : (ws.set i w)[j]? = some v) :
    j = i ∧ v = w ∨ j ≠ i ∧ ws[j]? = some v := by
  by_cases hij : j = i
  · subst hij
    rw [List.getElem?_set_self'] at h
    obtain ⟨u, -, rfl⟩ := Option.map_eq_some_iff.1 h
    exact .inl ⟨rfl, rfl⟩
  · rw [List.getElem?_set_ne (Ne.symm hij)] at h
    exact .inr ⟨hij, h⟩

/-- The retirement of a worker. -/
theorem retire_workers (hw : s.workers[i]? = some w) :
    (s.retire i).workers = s.workers.set i { w with active := false } := by
  show s.workers.modify i _ = _
  apply List.ext_getElem?
  intro j
  rw [List.getElem?_modify]
  by_cases hij : i = j
  · subst hij
    rw [List.getElem?_set_self', hw]
    simp
  · rw [List.getElem?_set_ne hij]
    simp [hij]

theorem getElem?_release {b : BlockId} {k : Word} :
    (s.releaseBlock b k).workers[j]? = (s.workers[j]?).map fun w =>
      if w.active && w.blockId == b then { w with cu := (w.cu.releaseBarrier k).2 } else w :=
  List.getElem?_map

/-- A release leaves a worker blocked, or unblocks it. -/
theorem releaseBarrier_cases (cu : BinaryUnit) (k : Word) :
    cu.blocked = true ∧ cu.barrierId = k ∧
        (cu.releaseBarrier k).2 = { cu with blocked := false } ∨
      ¬ (cu.blocked = true ∧ cu.barrierId = k) ∧ (cu.releaseBarrier k).2 = cu := by
  unfold BinaryUnit.releaseBarrier
  split_ifs with hstay
  · refine .inr ⟨?_, rfl⟩
    rintro ⟨hblocked, hid⟩
    rw [hblocked, hid, bne_self_eq_false] at hstay
    exact absurd hstay (by decide)
  · have hgo : cu.blocked = true ∧ cu.barrierId = k := by simpa using hstay
    exact .inl ⟨hgo.1, hgo.2, rfl⟩

/-- The workers at a barrier, when one that was not there has changed. -/
theorem arrived_set {b : BlockId} {k : Word} (hw : s.workers[i]? = some w)
    (hblocked : w.cu.blocked = false) (hws : s'.workers = s.workers.set i v) :
    s'.arrived b k = s.arrived b k +
      if v.active = true ∧ v.blockId = b ∧ v.cu.blocked = true ∧ v.cu.barrierId = k then 1
      else 0 := by
  obtain ⟨hi, hget⟩ := List.getElem?_eq_some_iff.1 hw
  unfold Simulation.arrived
  rw [hws, List.countP_set hi, hget]
  have hbefore : (w.active && w.blockId == b && w.cu.isBlocked && w.cu.barrierId == k) = false := by
    unfold BinaryUnit.isBlocked
    rw [hblocked, Bool.and_false, Bool.false_and]
  rw [hbefore, if_neg Bool.false_ne_true, Nat.sub_zero]
  congr 1
  simp [BinaryUnit.isBlocked, and_assoc]

/-- A release takes nobody from another barrier. -/
theorem arrived_release {b b' : BlockId} {k k' : Word} (hne : ¬ (b' = b ∧ k' = k)) :
    (s.releaseBlock b k).arrived b' k' = s.arrived b' k' := by
  unfold Simulation.arrived
  show (s.workers.map _).countP _ = _
  rw [List.countP_map]
  refine List.countP_congr fun w _ => ?_
  simp only [Function.comp_apply, Bool.and_eq_true, beq_iff_eq]
  by_cases hgo : w.active = true ∧ w.blockId = b
  · rw [if_pos hgo]
    rcases releaseBarrier_cases w.cu k with ⟨hblocked, hid, heq⟩ | ⟨-, heq⟩
    · rw [heq]
      dsimp only [BinaryUnit.isBlocked]
      constructor
      · rintro ⟨⟨-, hfalse⟩, -⟩
        exact absurd hfalse Bool.false_ne_true
      · rintro ⟨⟨⟨-, hb⟩, -⟩, hk⟩
        exact absurd ⟨hb.symm.trans hgo.2, hk.symm.trans hid⟩ hne
    · rw [heq]
  · rw [if_neg hgo]

end Workers

/-! ## What holds between visits -/

section Sane

variable {F : HostFloat} {L : Launch} {s s' : Simulation} {i : ℕ} {w : Worker}

/-- A unit that has taken a step is not blocked and halted at once. -/
theorem step_not_both {cu : BinaryUnit} {instr : Option Golden.RV32Instr}
    (h : w.cu.Steps instr cu) (hblocked : w.cu.blocked = false) :
    cu.blocked = true → cu.halted = false := by
  intro hnow
  rw [← Bool.not_eq_true]
  intro hhalted
  exact Bool.false_ne_true ((h.not_blocked hblocked hhalted).symm.trans hnow)

theorem sane_kept (F : HostFloat) (L : Launch) : Kept F L Sane where
  step := by
    intro s s' i w h hw hactive hblocked hstep j v hv
    obtain ⟨cu, mem, -, hcu, rfl⟩ := stepWorker_spec hw hblocked hstep
    rcases getElem?_set_cases hv with ⟨rfl, rfl⟩ | ⟨-, hv⟩
    · exact ⟨fun hoff => absurd (hactive.symm.trans hoff) (by decide), step_not_both hcu hblocked⟩
    · exact h j v hv
  release := by
    intro s i w h hw hactive hblocked harrived j v hv
    rw [getElem?_release] at hv
    obtain ⟨u, hu, rfl⟩ := Option.map_eq_some_iff.1 hv
    obtain ⟨hoff, hboth⟩ := h j u hu
    split_ifs
    · rcases releaseBarrier_cases u.cu w.cu.barrierId with ⟨-, -, heq⟩ | ⟨-, heq⟩
      · rw [heq]
        exact ⟨hoff, fun hfalse => absurd hfalse Bool.false_ne_true⟩
      · rw [heq]
        exact ⟨hoff, hboth⟩
    · exact ⟨hoff, hboth⟩
  retire := by
    intro s i w h hw hactive hhalted j v hv
    rw [retire_workers hw] at hv
    rcases getElem?_set_cases hv with ⟨rfl, rfl⟩ | ⟨-, hv⟩
    · exact ⟨fun _ => hhalted, (h _ w hw).2⟩
    · exact h j v hv

end Sane

/-! ## The scalar loop -/

section Scalar

variable {F : HostFloat} {L : Launch} {U : ℕ} {t t' : ScalarTurn} {i : ℕ}

/-- What holds between the visits of the scalar loop. -/
structure Settled (L : Launch) (s : Simulation) : Prop where
  running : Running s
  waiting : Waiting L s

variable {s s' : Simulation} {w : Worker}

/-- A worker that is not blocked changes, and is not blocked afterwards or has come to a barrier
that is not complete. -/
theorem Settled.set (h : Settled L s) (hw : s.workers[i]? = some w)
    (hblocked : w.cu.blocked = false)
    {v : Worker} (hws : s'.workers = s.workers.set i v)
    (hrunning : v.active = true → v.cu.halted = false)
    (hwaiting : v.active = true → v.cu.blocked = true →
      s'.arrived v.blockId v.cu.barrierId ≠ L.threadsPerBlock.toNat) : Settled L s' := by
  refine ⟨fun j u hu hactive => ?_, fun j u hu hactive hstop => ?_⟩
  · rw [hws] at hu
    rcases getElem?_set_cases hu with ⟨rfl, rfl⟩ | ⟨-, hu⟩
    · exact hrunning hactive
    · exact h.running j u hu hactive
  · rw [hws] at hu
    rcases getElem?_set_cases hu with ⟨rfl, rfl⟩ | ⟨-, hu⟩
    · exact hwaiting hactive hstop
    · by_cases hsame : v.active = true ∧ v.blockId = u.blockId ∧ v.cu.blocked = true ∧
          v.cu.barrierId = u.cu.barrierId
      · obtain ⟨hv, hb, hv', hk⟩ := hsame
        rw [← hb, ← hk]
        exact hwaiting hv hv'
      · rw [arrived_set hw hblocked hws, if_neg hsame, Nat.add_zero]
        exact h.waiting j u hu hactive hstop

/-- The workers of a barrier that is released go on, and no other barrier is complete. -/
theorem Settled.release (hrunning : Running s) {b : BlockId} {k : Word}
    (hwaiting : ∀ (j : ℕ) (u : Worker), s.workers[j]? = some u → u.active = true →
      u.cu.blocked = true → ¬ (u.blockId = b ∧ u.cu.barrierId = k) →
        s.arrived u.blockId u.cu.barrierId ≠ L.threadsPerBlock.toNat) :
    Settled L (s.releaseBlock b k) := by
  refine ⟨fun j u hu hactive => ?_, fun j u hu hactive hstop => ?_⟩
  all_goals
    rw [getElem?_release] at hu
    obtain ⟨v, hv, rfl⟩ := Option.map_eq_some_iff.1 hu
  · split_ifs at hactive ⊢
    · rcases releaseBarrier_cases v.cu k with ⟨-, -, heq⟩ | ⟨-, heq⟩ <;>
        · rw [heq]
          exact hrunning j v hv hactive
    · exact hrunning j v hv hactive
  · split_ifs at hactive hstop ⊢ with hgo
    · rcases releaseBarrier_cases v.cu k with ⟨-, -, heq⟩ | ⟨hnot, heq⟩
      · rw [heq] at hstop
        exact absurd hstop Bool.false_ne_true
      · rw [heq] at hstop ⊢
        have hne : ¬ (v.blockId = b ∧ v.cu.barrierId = k) := fun hsame => hnot ⟨hstop, hsame.2⟩
        rw [arrived_release hne]
        exact hwaiting j v hv hactive hstop hne
    · have hne : ¬ (v.blockId = b ∧ v.cu.barrierId = k) := by
        rintro ⟨hb, -⟩
        rw [hactive, hb, beq_self_eq_true] at hgo
        exact hgo rfl
      rw [arrived_release hne]
      exact hwaiting j v hv hactive hstop hne

theorem Settled.scalarVisit (h : Settled L t.sim) (hvisit : scalarVisit F L t i = some t') :
    Settled L t'.sim := by
  unfold Bridge.scalarVisit at hvisit
  obtain ⟨w, hw, hvisit⟩ := Option.bind_eq_some_iff.1 hvisit
  split_ifs at hvisit with hactive hblocked
  · exact Option.some.inj hvisit ▸ h
  · exact Option.some.inj hvisit ▸ h
  · obtain ⟨sim, hsim, hvisit⟩ := Option.bind_eq_some_iff.1 hvisit
    obtain ⟨v, hv, hvisit⟩ := Option.bind_eq_some_iff.1 hvisit
    rw [← Option.some.inj hvisit]
    have hactive : w.active = true := by simpa using hactive
    have hblocked : w.cu.blocked = false := by simpa [BinaryUnit.isBlocked] using hblocked
    obtain ⟨cu, mem, -, hcu, rfl⟩ := stepWorker_spec hw hblocked hsim
    obtain rfl := Option.some.inj ((getElem?_stepped hw).symm.trans hv)
    dsimp only
    by_cases hcomplete : cu.isComplete = true
    · -- the thread has ended, and is retired
      have hfree : cu.isBlocked = false := hcu.not_blocked hblocked hcomplete
      rw [hfree, if_neg Bool.false_ne_true, if_pos hcomplete]
      refine h.set hw hblocked (v := { w with cu := cu, active := false }) ?_ ?_ ?_
      · rw [retire_workers hv]
        exact List.set_set _
      · exact fun hoff => absurd hoff Bool.false_ne_true
      · exact fun hoff => absurd hoff Bool.false_ne_true
    · have hgoes : cu.halted = false := Bool.not_eq_true _ ▸ hcomplete
      rw [if_neg hcomplete]
      split_ifs with hstop
      · -- the thread has come to a barrier
        unfold Simulation.releaseIfComplete
        split_ifs with harrived
        · refine Settled.release ?_ fun j u hu hactive' hstop' hne => ?_
          · intro j u hu hactive'
            rcases getElem?_set_cases hu with ⟨rfl, rfl⟩ | ⟨-, hu⟩
            · exact hgoes
            · exact h.running j u hu hactive'
          · rcases getElem?_set_cases hu with ⟨rfl, rfl⟩ | ⟨-, hu⟩
            · exact absurd ⟨rfl, rfl⟩ hne
            · rw [arrived_set hw hblocked rfl, if_neg, Nat.add_zero]
              · exact h.waiting j u hu hactive' hstop'
              · rintro ⟨-, hb, -, hk⟩
                exact hne ⟨hb.symm, hk.symm⟩
        · exact h.set hw hblocked rfl (fun _ => hgoes) fun _ _ => harrived
      · have hfree : cu.blocked = false := by simpa [BinaryUnit.isBlocked] using hstop
        exact h.set hw hblocked rfl (fun _ => hgoes)
          fun _ hnow => absurd (hfree.symm.trans hnow) Bool.false_ne_true

theorem Settled.scalarScan {is : List ℕ} (h : Settled L t.sim)
    (hscan : scalarScan F L U is t = some t') : Settled L t'.sim := by
  induction is generalizing t with
  | nil => exact Option.some.inj hscan ▸ h
  | cons i is ih =>
    unfold Bridge.scalarScan at hscan
    split_ifs at hscan
    · obtain ⟨u, hu, hscan⟩ := Option.bind_eq_some_iff.1 hscan
      exact ih (h.scalarVisit hu) hscan
    · exact Option.some.inj hscan ▸ h

/-- A visit that makes no progress changes nothing. -/
theorem scalarVisit_blocked (hvisit : scalarVisit F L t i = some t')
    (hidle : t'.madeProgress = false) :
    t'.sim = t.sim ∧ t'.selected = t.selected ∧ (t.anyActive = true → t'.anyActive = true) ∧
      ∀ w, t.sim.workers[i]? = some w → w.active = true →
        w.cu.blocked = true ∧ t'.anyActive = true := by
  unfold scalarVisit at hvisit
  obtain ⟨w, hw, hvisit⟩ := Option.bind_eq_some_iff.1 hvisit
  split_ifs at hvisit with hactive hblocked
  · obtain rfl := Option.some.inj hvisit
    refine ⟨rfl, rfl, id, fun v hv hon => ?_⟩
    obtain rfl := Option.some.inj (hw.symm.trans hv)
    rw [hon] at hactive
    exact absurd hactive (by decide)
  · obtain rfl := Option.some.inj hvisit
    refine ⟨rfl, rfl, fun _ => rfl, fun v hv _ => ?_⟩
    obtain rfl := Option.some.inj (hw.symm.trans hv)
    exact ⟨hblocked, rfl⟩
  · obtain ⟨sim, -, hvisit⟩ := Option.bind_eq_some_iff.1 hvisit
    obtain ⟨v, -, hvisit⟩ := Option.bind_eq_some_iff.1 hvisit
    rw [← Option.some.inj hvisit] at hidle
    exact absurd hidle.symm Bool.false_ne_true

theorem scalarScan_progress {is : List ℕ} (hscan : scalarScan F L U is t = some t')
    (hprogress : t.madeProgress = true) : t'.madeProgress = true := by
  induction is generalizing t with
  | nil => rwa [← Option.some.inj hscan]
  | cons i is ih =>
    unfold scalarScan at hscan
    split_ifs at hscan
    · obtain ⟨u, hu, hscan⟩ := Option.bind_eq_some_iff.1 hscan
      refine ih hscan ?_
      unfold scalarVisit at hu
      obtain ⟨w, -, hu⟩ := Option.bind_eq_some_iff.1 hu
      split_ifs at hu
      · rwa [← Option.some.inj hu]
      · rw [← Option.some.inj hu]
        exact hprogress
      · obtain ⟨sim, -, hu⟩ := Option.bind_eq_some_iff.1 hu
        obtain ⟨v, -, hu⟩ := Option.bind_eq_some_iff.1 hu
        rw [← Option.some.inj hu]
    · rwa [← Option.some.inj hscan]

/-- A turn that knows of an active worker and makes no progress has found one. -/
theorem scalarScan_active {is : List ℕ} (hscan : scalarScan F L U is t = some t')
    (hactive : t'.anyActive = true) (hidle : t'.madeProgress = false) :
    t.anyActive = true ∨ ∃ (i : ℕ) (w : Worker), t.sim.workers[i]? = some w ∧ w.active = true := by
  induction is generalizing t with
  | nil => exact .inl (Option.some.inj hscan ▸ hactive)
  | cons i is ih =>
    unfold scalarScan at hscan
    split_ifs at hscan
    · obtain ⟨u, hu, hscan⟩ := Option.bind_eq_some_iff.1 hscan
      have hu' : u.madeProgress = false := by
        rw [← Bool.not_eq_true]
        intro hprogress
        exact Bool.false_ne_true (hidle.symm.trans (scalarScan_progress hscan hprogress))
      have hsim := (scalarVisit_blocked hu hu').1
      rcases ih hscan with hon | ⟨j, w, hw, hon⟩
      · unfold scalarVisit at hu
        obtain ⟨w, hw, hu⟩ := Option.bind_eq_some_iff.1 hu
        split_ifs at hu with hoff
        · exact .inl (Option.some.inj hu ▸ hon)
        · exact .inr ⟨i, w, hw, by simpa using hoff⟩
        · exact .inr ⟨i, w, hw, by simpa using hoff⟩
      · exact .inr ⟨j, w, hsim ▸ hw, hon⟩
    · exact .inl (Option.some.inj hscan ▸ hactive)

/-- A scan that makes no progress has come to all places, and every active worker is blocked. -/
theorem scalarScan_blocked {is : List ℕ} (hscan : scalarScan F L U is t = some t')
    (hroom : t.selected < U) (hidle : t'.madeProgress = false) :
    t'.sim = t.sim ∧ (t.anyActive = true → t'.anyActive = true) ∧
      ∀ i ∈ is, ∀ w, t.sim.workers[i]? = some w → w.active = true →
        w.cu.blocked = true ∧ t'.anyActive = true := by
  induction is generalizing t with
  | nil =>
    obtain rfl := Option.some.inj hscan
    exact ⟨rfl, id, fun i hi => absurd hi List.not_mem_nil⟩
  | cons i is ih =>
    unfold scalarScan at hscan
    rw [if_pos hroom] at hscan
    obtain ⟨u, hu, hscan⟩ := Option.bind_eq_some_iff.1 hscan
    have hu' : u.madeProgress = false := by
      rw [← Bool.not_eq_true]
      intro hprogress
      exact Bool.false_ne_true (hidle.symm.trans (scalarScan_progress hscan hprogress))
    obtain ⟨hsim, hselected, hactive, hi⟩ := scalarVisit_blocked hu hu'
    obtain ⟨hsim', hactive', his⟩ := ih hscan (hselected ▸ hroom)
    refine ⟨hsim'.trans hsim, fun hon => hactive' (hactive hon), fun j hj w hw hon => ?_⟩
    rcases List.mem_cons.1 hj with rfl | hj
    · obtain ⟨hblocked, hknown⟩ := hi w hw hon
      exact ⟨hblocked, hactive' hknown⟩
    · exact his j hj w (hsim ▸ hw) hon

theorem scalarTurn_blocked {cursor : ℕ} {s : Simulation} {t : ScalarTurn} (hU : 0 < U)
    (hturn : scalarTurn F L U cursor s = some t) (hidle : t.madeProgress = false) :
    t.sim = s ∧ ∀ (i : ℕ) (w : Worker), s.workers[i]? = some w → w.active = true →
      w.cu.blocked = true ∧ t.anyActive = true := by
  obtain ⟨hsim, -, hall⟩ := scalarScan_blocked hturn hU hidle
  refine ⟨hsim, fun i w hw => ?_⟩
  obtain ⟨d, hd, heq⟩ := exists_place cursor (List.getElem?_eq_some_iff.1 hw).1
  exact hall i (List.mem_map.2 ⟨d, List.mem_range.2 hd, heq⟩) w hw

/-- The scalar loop ends where no thread can go on. -/
theorem scalarLoop_stopped {turns cursor : ℕ} {s s' : Simulation} {finished : Bool} (hU : 0 < U)
    (hs : Sane s) (h : Settled L s)
    (hloop : scalarLoop F L U turns cursor s = some (finished, s')) : Stopped L finished s' := by
  induction turns generalizing cursor s with
  | zero => exact absurd hloop (by simp [scalarLoop])
  | succ turns ih =>
    rw [scalarLoop] at hloop
    obtain ⟨t, ht, hloop⟩ := Option.bind_eq_some_iff.1 hloop
    have hs' : Sane t.sim := (sane_kept F L).scalarScan hs ht
    have ht' : Settled L t.sim := h.scalarScan ht
    dsimp only at hloop
    cases hactive : t.anyActive with
    | false =>
      rw [hactive, if_pos Bool.not_false] at hloop
      obtain ⟨rfl, rfl⟩ := Prod.mk.inj (Option.some.inj hloop)
      obtain ⟨hsame, hretired⟩ := scalarTurn_idle hU ht hactive
      have hhalted : ∀ (i : ℕ) (w : Worker), t.sim.workers[i]? = some w → w.cu.halted = true :=
        fun i w hw => (hs' i w hw).1 (hretired i w (hsame ▸ hw))
      exact ⟨fun i w hw => .inl (hhalted i w hw), iff_of_true rfl hhalted⟩
    | true =>
      rw [hactive, Bool.not_true, if_neg Bool.false_ne_true] at hloop
      cases hprogress : t.madeProgress with
      | true =>
        rw [hprogress, Bool.not_true, if_neg Bool.false_ne_true] at hloop
        exact ih hs' ht' hloop
      | false =>
        rw [hprogress, if_pos Bool.not_false] at hloop
        obtain ⟨rfl, rfl⟩ := Prod.mk.inj (Option.some.inj hloop)
        obtain ⟨hsame, hblocked⟩ := scalarTurn_blocked hU ht hprogress
        refine ⟨fun i w hw => ?_, iff_of_false Bool.false_ne_true fun hall => ?_⟩
        · cases hon : w.active with
          | false => exact .inl ((hs' i w hw).1 hon)
          | true =>
            have hstop := (hblocked i w (hsame ▸ hw) hon).1
            exact .inr ⟨rfl, hstop, ht'.waiting i w hw hon hstop⟩
        · obtain hon | ⟨i, w, hw, hon⟩ := scalarScan_active ht hactive hprogress
          · exact Bool.false_ne_true hon
          rw [← hsame] at hw
          exact Bool.false_ne_true ((ht'.running i w hw hon).symm.trans (hall i w hw))

end Scalar

end RiscvGpgpu.Bridge
