import RiscvGpgpu.Bridge.KernelBridge

/-!
# Rounds of the scalar loop

A round starts its scan at a cursor that moves on by the number of active units, and whatever the
workers do meanwhile, the scan reaches that many places. So the rounds of a window reach every
worker, and no round comes to one twice.
-/

namespace RiscvGpgpu.Bridge

open Golden (HostFloat)

/-! ## What a simulation has done since -/

/-- A simulation after some more moments. -/
structure Simulation.Continues (s s' : Simulation) (ms : List Moment) : Prop where
  trace : s'.trace = s.trace ++ ms
  workers : s'.workers = (ms.getLast?.map Moment.after).getD s.workers
  length : s'.workers.length = s.workers.length

/-- The worker that a moment steps. -/
def Moment.stepped (m : Moment) : Option ℕ :=
  match m.event with
  | .step i _ => some i
  | _ => none

/-- The workers that are stepped, in order. -/
def steppedIn (ms : List Moment) : List ℕ := ms.filterMap Moment.stepped

/-- A worker is active and not blocked. -/
def Ready (ws : List Worker) (i : ℕ) : Prop :=
  ∃ w, ws[i]? = some w ∧ w.active = true ∧ w.cu.isBlocked = false

/-- A worker is ready at every moment. -/
def ReadyThroughout (ws : List Worker) (ms : List Moment) (i : ℕ) : Prop :=
  Ready ws i ∧ ∀ m ∈ ms, Ready m.before i ∧ Ready m.after i

namespace Simulation.Continues

variable {s s' s'' : Simulation} {ms ms' : List Moment}

theorem refl (s : Simulation) : s.Continues s [] := ⟨(List.append_nil _).symm, rfl, rfl⟩

theorem trans (h : s.Continues s' ms) (h' : s'.Continues s'' ms') :
    s.Continues s'' (ms ++ ms') := by
  refine ⟨?_, ?_, h'.length.trans h.length⟩
  · rw [h'.trace, h.trace, List.append_assoc]
  · rw [h'.workers, h.workers, List.getLast?_append]
    cases ms'.getLast? <;> rfl

theorem record (s : Simulation) (event : Event) {workers : List Worker}
    (h : workers.length = s.workers.length) :
    s.Continues (s.record event workers) [⟨s.workers, event, workers⟩] := ⟨rfl, rfl, h⟩

/-- A worker that is ready throughout is ready now. -/
theorem ready {i : ℕ} (h : s.Continues s' ms) (hready : ReadyThroughout s.workers ms i) :
    Ready s'.workers i := by
  rw [h.workers]
  cases hlast : ms.getLast? with
  | none => exact hready.1
  | some m => exact (hready.2 m (List.mem_of_getLast? hlast)).2

end Simulation.Continues

theorem ReadyThroughout.append_left {ws : List Worker} {ms ms' : List Moment} {i : ℕ}
    (h : ReadyThroughout ws (ms ++ ms') i) : ReadyThroughout ws ms i :=
  ⟨h.1, fun m hm => h.2 m (List.mem_append_left _ hm)⟩

theorem steppedIn_append (ms ms' : List Moment) :
    steppedIn (ms ++ ms') = steppedIn ms ++ steppedIn ms' := List.filterMap_append

/-! ## One worker -/

section Visit

variable {F : HostFloat} {L : Launch} {s s' : Simulation} {i : ℕ}

theorem stepWorker_continues (h : s.stepWorker F L i = some s') :
    ∃ ms, s.Continues s' ms ∧ steppedIn ms = [i] := by
  unfold Simulation.stepWorker at h
  obtain ⟨w, -, h⟩ := Option.bind_eq_some_iff.1 h
  obtain ⟨⟨cu, mem⟩, -, h⟩ := Option.bind_eq_some_iff.1 h
  obtain rfl := Option.some.inj h
  exact ⟨[⟨s.workers, _, _⟩], ⟨rfl, rfl, List.length_set⟩, rfl⟩

theorem releaseIfComplete_continues (s : Simulation) (L : Launch) (w : Worker) :
    ∃ ms, s.Continues (s.releaseIfComplete L w).2 ms ∧ steppedIn ms = [] := by
  unfold Simulation.releaseIfComplete
  split
  · exact ⟨_, .record s _ (List.length_map _), rfl⟩
  · exact ⟨[], .refl s, rfl⟩

theorem retire_continues (s : Simulation) (i : ℕ) :
    ∃ ms, s.Continues (s.retire i) ms ∧ steppedIn ms = [] :=
  ⟨_, .record s _ (List.length_modify _ _ _), rfl⟩

/-- What follows a step, a release of the block and a retirement, steps no worker. -/
theorem finish_continues (s : Simulation) (L : Launch) (w : Worker) (i : ℕ) :
    ∃ ms, s.Continues
      (if w.cu.isComplete then (if w.cu.isBlocked then (s.releaseIfComplete L w).2 else s).retire i
      else if w.cu.isBlocked then (s.releaseIfComplete L w).2 else s) ms ∧ steppedIn ms = [] := by
  have hrelease : ∃ ms, s.Continues
      (if w.cu.isBlocked then (s.releaseIfComplete L w).2 else s) ms ∧ steppedIn ms = [] := by
    split_ifs
    · exact releaseIfComplete_continues s L w
    · exact ⟨[], .refl s, rfl⟩
  obtain ⟨ms, hms, hnone⟩ := hrelease
  generalize (if w.cu.isBlocked then (s.releaseIfComplete L w).2 else s) = s' at hms ⊢
  split_ifs
  · obtain ⟨ms', hms', hnone'⟩ := retire_continues s' i
    exact ⟨ms ++ ms', hms.trans hms', by rw [steppedIn_append, hnone, hnone']; rfl⟩
  · exact ⟨ms, hms, hnone⟩

/-- A visit steps the worker if it is ready, and selects it then. -/
theorem scalarVisit_cases {t t' : ScalarTurn} (h : scalarVisit F L t i = some t') :
    ∃ ms, t.sim.Continues t'.sim ms ∧
      (t'.selected = t.selected ∧ steppedIn ms = [] ∧ ¬ Ready t.sim.workers i ∨
        t'.selected = t.selected + 1 ∧ steppedIn ms = [i]) := by
  unfold scalarVisit at h
  obtain ⟨w, hw, h⟩ := Option.bind_eq_some_iff.1 h
  have hnot : w.active = false ∨ w.cu.isBlocked = true → ¬ Ready t.sim.workers i := by
    rintro hw' ⟨v, hv, hactive, hblocked⟩
    obtain rfl := Option.some.inj (hw.symm.trans hv)
    rcases hw' with hw' | hw'
    · exact Bool.false_ne_true (hw'.symm.trans hactive)
    · exact Bool.false_ne_true (hblocked.symm.trans hw')
  split_ifs at h with hactive hblocked
  · obtain rfl := Option.some.inj h
    exact ⟨[], .refl _, .inl ⟨rfl, rfl, hnot (.inl (Bool.not_eq_true' _ ▸ hactive))⟩⟩
  · obtain rfl := Option.some.inj h
    exact ⟨[], .refl _, .inl ⟨rfl, rfl, hnot (.inr hblocked)⟩⟩
  · obtain ⟨sim, hsim, h⟩ := Option.bind_eq_some_iff.1 h
    obtain ⟨v, -, h⟩ := Option.bind_eq_some_iff.1 h
    obtain rfl := Option.some.inj h
    obtain ⟨ms, hms, hstepped⟩ := stepWorker_continues hsim
    obtain ⟨ms', hms', hnone⟩ := finish_continues sim L v i
    refine ⟨ms ++ ms', hms.trans hms', .inr ⟨rfl, ?_⟩⟩
    rw [steppedIn_append, hstepped, hnone, List.append_nil]

end Visit

/-! ## One round -/

section Scan

variable {F : HostFloat} {L : Launch} {U : ℕ}

/-- A scan steps some of the workers it comes to, none twice. -/
theorem scalarScan_continues {is : List ℕ} {t t' : ScalarTurn}
    (h : scalarScan F L U is t = some t') :
    ∃ ms, t.sim.Continues t'.sim ms ∧ (steppedIn ms).Sublist is := by
  induction is generalizing t with
  | nil =>
    obtain rfl := Option.some.inj h
    exact ⟨[], .refl _, List.Sublist.refl _⟩
  | cons i is ih =>
    unfold scalarScan at h
    split_ifs at h
    · obtain ⟨u, hu, h⟩ := Option.bind_eq_some_iff.1 h
      obtain ⟨ms, hms, hvisit⟩ := scalarVisit_cases hu
      obtain ⟨ms', hms', hsub⟩ := ih h
      refine ⟨ms ++ ms', hms.trans hms', ?_⟩
      rw [steppedIn_append]
      rcases hvisit with ⟨-, hnone, -⟩ | ⟨-, hone⟩
      · rw [hnone]
        exact hsub.cons i
      · rw [hone]
        exact hsub.cons_cons i
    · obtain rfl := Option.some.inj h
      exact ⟨[], .refl _, List.nil_sublist _⟩

/-- A scan comes to the workers for which there is room whatever it selects. -/
theorem scalarScan_steps {is : List ℕ} {t t' : ScalarTurn} {ms : List Moment}
    (h : scalarScan F L U is t = some t') (hms : t.sim.Continues t'.sim ms) {j i : ℕ}
    (hj : is[j]? = some i) (hroom : t.selected + j < U)
    (hready : ReadyThroughout t.sim.workers ms i) : i ∈ steppedIn ms := by
  induction is generalizing t j ms with
  | nil => exact absurd hj (by simp)
  | cons k is ih =>
    unfold scalarScan at h
    rw [if_pos (by omega)] at h
    obtain ⟨u, hu, h⟩ := Option.bind_eq_some_iff.1 h
    obtain ⟨ms₁, hms₁, hvisit⟩ := scalarVisit_cases hu
    obtain ⟨ms₂, hms₂, -⟩ := scalarScan_continues h
    have heq : ms = ms₁ ++ ms₂ :=
      List.append_cancel_left (hms.trace.symm.trans (hms₁.trans hms₂).trace)
    subst heq
    rw [steppedIn_append, List.mem_append]
    cases j with
    | zero =>
      obtain rfl := Option.some.inj hj
      rcases hvisit with ⟨-, -, hnot⟩ | ⟨-, hone⟩
      · exact absurd hready.1 hnot
      · rw [hone]
        exact .inl List.mem_cons_self
    | succ j =>
      have hselected : u.selected + j < U := by
        rcases hvisit with ⟨hsel, -, -⟩ | ⟨hsel, -⟩ <;> omega
      have hready₂ : ReadyThroughout u.sim.workers ms₂ i :=
        ⟨hms₁.ready hready.append_left, fun m hm => hready.2 m (List.mem_append_right _ hm)⟩
      exact .inr (ih h hms₂ hj hselected hready₂)

end Scan

/-! ## The rounds of the loop -/

/-- A round: the cursor, the simulation in front of it and what it does. -/
structure ScalarRound where
  cursor : ℕ
  before : Simulation
  turn : ScalarTurn

namespace ScalarRound

variable (r : ScalarRound)

/-- What has happened in the round. -/
def moments : List Moment := r.turn.sim.trace.drop r.before.trace.length

def stepped : List ℕ := steppedIn r.moments

/-- A worker is active and not blocked throughout the round. -/
def Runnable (i : ℕ) : Prop := ReadyThroughout r.before.workers r.moments i

end ScalarRound

section Rounds

variable (F : HostFloat) (L : Launch) (U : ℕ)

/-- The rounds of `scalarLoop`. -/
def scalarRounds : ℕ → ℕ → Simulation → List ScalarRound
  | 0, _, _ => []
  | turns + 1, workerCursor, sim =>
    match scalarTurn F L U workerCursor sim with
    | none => []
    | some t =>
      let totalWorkers := sim.workers.length
      let next := if 0 < totalWorkers then (workerCursor + U) % totalWorkers else workerCursor
      ⟨workerCursor, sim, t⟩ ::
        if t.anyActive && t.madeProgress then scalarRounds turns next t.sim else []

variable {F L U}

/-- The loop ends with its last round. -/
theorem scalarLoop_last {turns cursor : ℕ} {s s' : Simulation} {finished : Bool}
    (h : scalarLoop F L U turns cursor s = some (finished, s')) :
    ∃ r, (scalarRounds F L U turns cursor s).getLast? = some r ∧ r.turn.sim = s' := by
  induction turns generalizing cursor s with
  | zero => exact absurd h (by simp [scalarLoop])
  | succ turns ih =>
    rw [scalarLoop] at h
    obtain ⟨t, ht, h⟩ := Option.bind_eq_some_iff.1 h
    rw [scalarRounds, ht]
    dsimp only at h ⊢
    by_cases hon : (t.anyActive && t.madeProgress) = true
    · obtain ⟨hactive, hprogress⟩ := Bool.and_eq_true_iff.1 hon
      rw [hactive, hprogress, Bool.not_true, if_neg Bool.false_ne_true,
        if_neg Bool.false_ne_true] at h
      obtain ⟨r, hr, hsim⟩ := ih h
      rw [if_pos hon, List.getLast?_cons, hr]
      exact ⟨r, rfl, hsim⟩
    · have hend : t.sim = s' := by
        cases hactive : t.anyActive with
        | false =>
          rw [hactive, if_pos Bool.not_false] at h
          exact (Prod.mk.inj (Option.some.inj h)).2
        | true =>
          rw [hactive, Bool.true_and, Bool.not_eq_true] at hon
          rw [hactive, hon, Bool.not_true, if_neg Bool.false_ne_true, if_pos Bool.not_false] at h
          exact (Prod.mk.inj (Option.some.inj h)).2
      rw [if_neg hon]
      exact ⟨⟨cursor, s, t⟩, rfl, hend⟩

theorem scalarTurn_continues {cursor : ℕ} {s : Simulation} {t : ScalarTurn}
    (h : scalarTurn F L U cursor s = some t) :
    s.Continues t.sim (t.sim.trace.drop s.trace.length) ∧
      (steppedIn (t.sim.trace.drop s.trace.length)).Sublist
        ((List.range s.workers.length).map fun scanned =>
          (cursor + scanned) % s.workers.length) := by
  obtain ⟨ms, hms, hsub⟩ := scalarScan_continues h
  have heq : t.sim.trace.drop s.trace.length = ms := by rw [hms.trace, List.drop_left]
  rw [heq]
  exact ⟨hms, hsub⟩

/-- The places of a scan are different. -/
theorem nodup_places (cursor n : ℕ) :
    ((List.range n).map fun scanned => (cursor + scanned) % n).Nodup := by
  refine List.nodup_range.map_on ?_
  intro a ha b hb hab
  have ha := List.mem_range.1 ha
  have hb := List.mem_range.1 hb
  have hmod : a ≡ b [MOD n] := Nat.ModEq.add_left_cancel' cursor hab
  rwa [Nat.ModEq, Nat.mod_eq_of_lt ha, Nat.mod_eq_of_lt hb] at hmod

/-- What a round is, by its number. -/
theorem scalarRounds_get {turns cursor k : ℕ} {s : Simulation} {r : ScalarRound}
    (h : (scalarRounds F L U turns cursor s)[k]? = some r) :
    scalarTurn F L U r.cursor r.before = some r.turn ∧
      r.before.workers.length = s.workers.length ∧
      (0 < s.workers.length → r.cursor ≡ cursor + k * U [MOD s.workers.length]) := by
  induction turns generalizing cursor k s with
  | zero => exact absurd h (by simp [scalarRounds])
  | succ turns ih =>
    rw [scalarRounds] at h
    cases ht : scalarTurn F L U cursor s with
    | none =>
      rw [ht] at h
      exact absurd h (by simp)
    | some t =>
      rw [ht] at h
      dsimp only at h
      cases k with
      | zero =>
        obtain rfl := Option.some.inj h
        exact ⟨ht, rfl, fun _ => by rw [Nat.zero_mul]; rfl⟩
      | succ k =>
        rw [List.getElem?_cons_succ] at h
        by_cases hon : (t.anyActive && t.madeProgress) = true
        · rw [if_pos hon] at h
          obtain ⟨hturn, hlength, hcursor⟩ := ih h
          have hkeeps := (scalarTurn_continues ht).1.length
          rw [hkeeps] at hlength hcursor
          refine ⟨hturn, hlength, fun hpos => (hcursor hpos).trans ?_⟩
          rw [if_pos hpos, Nat.succ_mul, Nat.add_comm (k * U), ← Nat.add_assoc]
          exact (Nat.mod_modEq _ _).add_right _
        · rw [if_neg hon] at h
          exact absurd h (by simp)

/-! ## No worker starves -/

/-- What the rounds of a loop over `n` workers with `U` units owe them. -/
structure Fair (U n : ℕ) (rounds : List ScalarRound) : Prop where
  /-- A worker that can run throughout as many rounds as it takes to come to all is stepped. -/
  noStarvation : ∀ window, window <:+: rounds → window.length = (n + U - 1) / U →
    ∀ i < n, (∀ r ∈ window, r.Runnable i) → ∃ r ∈ window, i ∈ r.stepped
  once : ∀ r ∈ rounds, r.stepped.Nodup

/-- A round steps the runnable workers among the first `U` places of its scan. -/
theorem ScalarRound.steps {r : ScalarRound} {i j : ℕ}
    (h : scalarTurn F L U r.cursor r.before = some r.turn) (hj : j < U)
    (hn : j < r.before.workers.length) (hi : (r.cursor + j) % r.before.workers.length = i)
    (hrun : r.Runnable i) : i ∈ r.stepped := by
  refine scalarScan_steps h (scalarTurn_continues h).1 (j := j) ?_ ?_ hrun
  · rw [List.getElem?_map, List.getElem?_range hn, Option.map_some, hi]
  · rwa [Nat.zero_add]

/-- A scan that is not cut off comes to every place. -/
theorem exists_place {n : ℕ} (c : ℕ) {i : ℕ} (hi : i < n) : ∃ d < n, (c + d) % n = i := by
  refine ⟨(i + (n - c % n)) % n, Nat.mod_lt _ (by omega), ?_⟩
  have hc := Nat.mod_lt c (by omega : 0 < n)
  have hdiv := Nat.div_add_mod c n
  have hsum : c + (i + (n - c % n)) = i + n * (c / n + 1) := by
    rw [Nat.mul_succ]
    omega
  rw [Nat.add_mod_mod, hsum, Nat.add_mul_mod_self_left, Nat.mod_eq_of_lt hi]

/-- Cursors that go on by `U` come within `U` of every place. -/
theorem exists_round {n U : ℕ} (hU : 0 < U) (c : ℕ) {i : ℕ} (hi : i < n) :
    ∃ k < (n + U - 1) / U, ∃ j < U, j < n ∧ (c + k * U + j) % n = i := by
  obtain ⟨d, hd, hmod⟩ := exists_place c hi
  refine ⟨d / U, ?_, d % U, Nat.mod_lt d hU, ?_, ?_⟩
  · have hle : d / U ≤ (n - 1) / U := Nat.div_le_div_right (by omega)
    have hsucc : (n + U - 1) / U = (n - 1) / U + 1 := by
      rw [← Nat.add_div_right _ hU]
      congr 1
      omega
    omega
  · exact Nat.lt_of_le_of_lt (Nat.mod_le d U) hd
  · rw [Nat.add_assoc, Nat.mul_comm, Nat.div_add_mod, hmod]

theorem scalarRounds_fair {turns cursor : ℕ} {s : Simulation} (hU : 0 < U) :
    Fair U s.workers.length (scalarRounds F L U turns cursor s) := by
  refine ⟨?_, ?_⟩
  · rintro window ⟨pre, post, hrounds⟩ hlength i hi hrun
    obtain ⟨k, hk, j, hj, hjn, hmod⟩ := exists_round hU (cursor + pre.length * U) hi
    rw [← hlength] at hk
    have hget : (scalarRounds F L U turns cursor s)[pre.length + k]? = some window[k] := by
      rw [← hrounds]
      simp [List.getElem?_append, hk]
    obtain ⟨hturn, hworkers, hcursor⟩ := scalarRounds_get hget
    refine ⟨window[k], List.getElem_mem hk, ?_⟩
    apply ScalarRound.steps hturn hj (hworkers.symm ▸ hjn) ?_ (hrun _ (List.getElem_mem hk))
    rw [hworkers, ← hmod]
    have hadd := (hcursor (by omega)).add_right j
    rwa [Nat.add_mul, ← Nat.add_assoc] at hadd
  · intro r hr
    obtain ⟨k, hk⟩ := List.getElem?_of_mem hr
    have hsub := (scalarTurn_continues (scalarRounds_get hk).1).2
    exact hsub.nodup (nodup_places _ _)

/-- The scalar loop of the bridge starves no worker and steps none twice in a round. -/
theorem scalarLoop_fair (F : HostFloat) (C : Config) (L : Launch) (turns : ℕ) (s : Simulation) :
    Fair (activeUnits C s.workers.length) s.workers.length
      (scalarRounds F L (activeUnits C s.workers.length) turns 0 s) :=
  scalarRounds_fair (Nat.lt_of_lt_of_le Nat.zero_lt_one (Nat.le_max_left _ _))

end Rounds

end RiscvGpgpu.Bridge
