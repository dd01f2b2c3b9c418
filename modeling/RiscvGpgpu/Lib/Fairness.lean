import RiscvGpgpu.Lib.Transition

/-!
# Fair schedules

A schedule gives one process after the other a turn, in which the process takes its step if it can.
`Progress` is what makes a fair schedule reach a goal (`Progress.reaches`): a turn uses up work, or
it is idle and brings its process nearer to the place where it can act, and somebody can act as long
as the goal is not reached.
-/

namespace Transition

variable {S A E : Type}

/-- A turn of a process; nothing happens if its step is not enabled. -/
def turn (T : Transition S A E) (s : S) (a : A) : S := ((T.step s a).map Prod.fst).getD s

theorem turn_some {T : Transition S A E} {s s' : S} {a : A} {ev : List E}
    (h : T.step s a = some (s', ev)) : T.turn s a = s' := by
  rw [turn, h]
  rfl

theorem turn_none {T : Transition S A E} {s : S} {a : A} (h : T.step s a = none) :
    T.turn s a = s := by
  rw [turn, h]
  rfl

/-- The state after so many turns of a schedule. -/
def turns (T : Transition S A E) (σ : ℕ → A) (s : S) : ℕ → S
  | 0 => s
  | n + 1 => T.turn (turns T σ s n) (σ n)

/-- Each of the processes gets its turn again and again. -/
def Fair (procs : A → Prop) (σ : ℕ → A) : Prop := ∀ a, procs a → ∀ n, ∃ m, n ≤ m ∧ σ m = a

/-- One after the other, over and over. -/
def roundRobin (procs : List A) (h : procs ≠ []) (n : ℕ) : A :=
  procs.get ⟨n % procs.length, Nat.mod_lt _ (List.length_pos_iff.2 h)⟩

theorem roundRobin_mem {procs : List A} (h : procs ≠ []) (n : ℕ) : roundRobin procs h n ∈ procs :=
  List.get_mem _ _

theorem fair_roundRobin {procs : List A} (h : procs ≠ []) :
    Fair (· ∈ procs) (roundRobin procs h) := by
  intro a ha n
  obtain ⟨i, hi⟩ := List.get_of_mem ha
  refine ⟨procs.length * n + i, ?_, ?_⟩
  · have hpos := List.length_pos_iff.2 h
    exact Nat.le_add_right_of_le (Nat.le_mul_of_pos_left n hpos)
  · rw [← hi]
    unfold roundRobin
    congr 1
    refine Fin.ext ?_
    dsimp only
    rw [Nat.mul_add_mod, Nat.mod_eq_of_lt i.isLt]

/-- A turn of `a` that does no work: who could act still can, and `a` comes nearer to it. -/
structure Idle (can : S → A → Prop) (dist : S → A → ℕ) (a : A) (s s' : S) : Prop where
  keeps : ∀ b, can s b → can s' b
  others : ∀ b, b ≠ a → dist s' b = dist s b
  nearer : can s a → dist s' a < dist s a

/-- A turn without any effect is idle if its process cannot act. -/
theorem Idle.stay {can : S → A → Prop} {dist : S → A → ℕ} {a : A} {s : S} (h : ¬ can s a) :
    Idle can dist a s s :=
  ⟨fun _ hb => hb, fun _ _ => rfl, fun ha => absurd ha h⟩

/-- Turns of the allowed processes do work or are idle, until the goal is reached. -/
structure Progress (T : Transition S A E) (allowed procs : A → Prop) (Inv goal : S → Prop)
    (work : S → ℕ) (can : S → A → Prop) (dist : S → A → ℕ) : Prop where
  someone : ∀ s, Inv s → ¬ goal s → ∃ a, procs a ∧ can s a
  step : ∀ s a, Inv s → ¬ goal s → allowed a → goal (T.turn s a) ∨
    Inv (T.turn s a) ∧ (work (T.turn s a) < work s ∨
      work (T.turn s a) ≤ work s ∧ Idle can dist a s (T.turn s a))

section Reaches

variable {T : Transition S A E} {allowed procs : A → Prop} {Inv goal : S → Prop} {work : S → ℕ}
  {can : S → A → Prop} {dist : S → A → ℕ} {σ : ℕ → A} {s : S}

/-- Without the goal, all states of the schedule meet the invariant. -/
theorem Progress.inv (h : Progress T allowed procs Inv goal work can dist)
    (hallowed : ∀ n, allowed (σ n)) (hs : Inv s) (hnever : ∀ n, ¬ goal (T.turns σ s n)) (n : ℕ) :
    Inv (T.turns σ s n) := by
  induction n with
  | zero => exact hs
  | succ n ih =>
    obtain hgoal | ⟨hinv, -⟩ := h.step _ (σ n) ih (hnever n) (hallowed n)
    · exact absurd hgoal (hnever (n + 1))
    · exact hinv

/-- Idle turns alone bring the one who can act to the place where it does. -/
theorem Idle.not_forever {b : A} {n : ℕ} (hfair : ∀ n, ∃ m, n ≤ m ∧ σ m = b)
    (hidle : ∀ m, n ≤ m → Idle can dist (σ m) (T.turns σ s m) (T.turns σ s (m + 1))) :
    ¬ can (T.turns σ s n) b := by
  intro hcan
  have hcan (m : ℕ) (hm : n ≤ m) : can (T.turns σ s m) b := by
    induction hm with
    | refl => exact hcan
    | @step m hm ih => exact (hidle m hm).keeps b ih
  have hstep (m : ℕ) (hm : n ≤ m) :
      dist (T.turns σ s (m + 1)) b ≤ dist (T.turns σ s m) b := by
    by_cases hb : b = σ m
    · subst hb
      exact Nat.le_of_lt ((hidle m hm).nearer (hcan m hm))
    · exact Nat.le_of_eq ((hidle m hm).others b hb)
  have hmono (m m' : ℕ) (hm : n ≤ m) (hle : m ≤ m') :
      dist (T.turns σ s m') b ≤ dist (T.turns σ s m) b := by
    induction hle with
    | refl => exact Nat.le_refl _
    | @step m' hle ih => exact Nat.le_trans (hstep m' (Nat.le_trans hm hle)) ih
  -- every turn of `b` is a step nearer
  have hfalse (d : ℕ) : ∀ m, n ≤ m → dist (T.turns σ s m) b ≤ d → False := by
    induction d with
    | zero =>
      intro m hm hd
      obtain ⟨m', hle, rfl⟩ := hfair m
      have hn := Nat.le_trans hm hle
      have := (hidle m' hn).nearer (hcan m' hn)
      have := hmono m m' hm hle
      omega
    | succ d ih =>
      intro m hm hd
      obtain ⟨m', hle, rfl⟩ := hfair m
      have hn := Nat.le_trans hm hle
      have := (hidle m' hn).nearer (hcan m' hn)
      have := hmono m m' hm hle
      exact ih (m' + 1) (Nat.le_succ_of_le hn) (by omega)
  exact hfalse _ n (Nat.le_refl n) (Nat.le_refl _)

/-- A fair schedule reaches the goal. -/
theorem Progress.reaches (h : Progress T allowed procs Inv goal work can dist)
    (hallowed : ∀ n, allowed (σ n)) (hfair : Fair procs σ) (hs : Inv s) :
    ∃ n, goal (T.turns σ s n) := by
  by_contra hno
  have hnever : ∀ n, ¬ goal (T.turns σ s n) := fun n hgoal => hno ⟨n, hgoal⟩
  have hinv := h.inv hallowed hs hnever
  have hstep (n : ℕ) : work (T.turns σ s (n + 1)) < work (T.turns σ s n) ∨
      work (T.turns σ s (n + 1)) ≤ work (T.turns σ s n) ∧
        Idle can dist (σ n) (T.turns σ s n) (T.turns σ s (n + 1)) := by
    obtain hgoal | ⟨-, hturn⟩ := h.step _ (σ n) (hinv n) (hnever n) (hallowed n)
    · exact absurd hgoal (hnever (n + 1))
    · exact hturn
  have hmono (n m : ℕ) (hle : n ≤ m) : work (T.turns σ s m) ≤ work (T.turns σ s n) := by
    induction hle with
    | refl => exact Nat.le_refl _
    | @step m hle ih =>
      obtain hlt | ⟨hle', -⟩ := hstep m
      · exact Nat.le_trans (Nat.le_of_lt hlt) ih
      · exact Nat.le_trans hle' ih
  have hless (n : ℕ) : ∃ m, n ≤ m ∧ work (T.turns σ s m) < work (T.turns σ s n) := by
    by_contra hnone
    obtain ⟨b, hproc, hcan⟩ := h.someone _ (hinv n) (hnever n)
    have hidle (m : ℕ) (hm : n ≤ m) :
        Idle can dist (σ m) (T.turns σ s m) (T.turns σ s (m + 1)) := by
      obtain hlt | ⟨-, hidle⟩ := hstep m
      · exact absurd ⟨m + 1, Nat.le_succ_of_le hm, Nat.lt_of_lt_of_le hlt (hmono n m hm)⟩ hnone
      · exact hidle
    exact Idle.not_forever (hfair b hproc) hidle hcan
  have hfalse (w : ℕ) : ∀ n, work (T.turns σ s n) ≤ w → False := by
    induction w with
    | zero =>
      intro n hw
      obtain ⟨m, -, hlt⟩ := hless n
      omega
    | succ w ih =>
      intro n hw
      obtain ⟨m, -, hlt⟩ := hless n
      exact ih m (by omega)
  exact hfalse _ 0 (Nat.le_refl _)

end Reaches

end Transition
