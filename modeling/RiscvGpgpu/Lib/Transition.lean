import Mathlib.Tactic.Common

/-!
# Transition systems with traces

A `Transition` takes a state and an action to the next state, if the action is enabled, and to the
events the step emits. `Run` collects the events of every run whose states all meet a condition;
`Run.invariant` is the induction over runs, `filter` asks for a condition on the steps, `exec`
follows a list of actions, and `follow` passes over those of them that are not enabled.
-/

/-- A split of a list with a last element leaves it at the split or behind it. -/
theorem List.append_singleton_split {α : Type*} {xs pre post : List α} {last x : α}
    (h : xs ++ [last] = pre ++ x :: post) :
    (pre = xs ∧ x = last) ∨ ∃ post', xs = pre ++ x :: post' := by
  obtain rfl | ⟨post', y, rfl⟩ := List.eq_nil_or_concat post
  · obtain ⟨hpre, hx⟩ := List.append_inj' h rfl
    exact .inl ⟨hpre.symm, (List.singleton_inj.1 hx).symm⟩
  · have hcat : xs ++ [last] = (pre ++ x :: post') ++ [y] := by simpa using h
    exact .inr ⟨post', (List.append_inj' hcat rfl).1⟩

structure Transition (S A E : Type) where
  init : S → Prop
  step : S → A → Option (S × List E)

namespace Transition

variable {S A E S' A' : Type}

/-- The states reached by steps through states that meet `ok`, with the events emitted. -/
inductive Run (T : Transition S A E) (ok : S → Prop) : S → List E → Prop where
  | init {s : S} (h : T.init s) (hok : ok s) : Run T ok s []
  | step {s s' : S} {tr ev : List E} (a : A) (h : Run T ok s tr) (hs : T.step s a = some (s', ev))
      (hok : ok s') : Run T ok s' (tr ++ ev)

variable {T : Transition S A E} {P : S → Prop} {s : S} {tr : List E}

theorem Run.holds (h : Run T P s tr) : P s := by
  cases h with
  | init _ hok => exact hok
  | step _ _ _ hok => exact hok

/-- What holds initially and is kept by every step holds in every run. -/
theorem Run.invariant (Inv : S → List E → Prop) (hinit : ∀ s, T.init s → P s → Inv s [])
    (hstep : ∀ s tr a s' ev, Run T P s tr → Inv s tr → T.step s a = some (s', ev) → P s' →
      Inv s' (tr ++ ev)) (h : Run T P s tr) : Inv s tr := by
  induction h with
  | init h hok => exact hinit _ h hok
  | step a h hs hok ih => exact hstep _ _ a _ _ h ih hs hok

/-- The system whose steps all meet a condition on the state before them. -/
def filter (T : Transition S A E) (ok : S → A → Prop) [∀ s a, Decidable (ok s a)] :
    Transition S A E where
  init := T.init
  step s a := if ok s a then T.step s a else none

theorem filter_step {ok : S → A → Prop} [∀ s a, Decidable (ok s a)] {a : A} {r : S × List E}
    (h : (T.filter ok).step s a = some r) : ok s a ∧ T.step s a = some r := by
  unfold filter at h
  dsimp only at h
  split at h
  · next hok => exact ⟨hok, h⟩
  · exact absurd h (by simp)

/-- Take the actions one after the other, if all are enabled and lead to states that meet `P`. -/
def exec (T : Transition S A E) (P : S → Prop) [DecidablePred P] :
    S → List A → Option (S × List E)
  | s, [] => some (s, [])
  | s, a :: as =>
    match T.step s a with
    | some (s', ev) => if P s' then (exec T P s' as).map fun r => (r.1, ev ++ r.2) else none
    | none => none

theorem Run.exec [DecidablePred P] {r : S × List E} (as : List A) (h : Run T P s tr)
    (hr : T.exec P s as = some r) : Run T P r.1 (tr ++ r.2) := by
  induction as generalizing s tr r with
  | nil =>
    obtain rfl := Option.some.inj hr
    rwa [List.append_nil]
  | cons a as ih =>
    rw [Transition.exec] at hr
    split at hr
    · next s' ev hs =>
      split at hr
      · next hok =>
        obtain ⟨r', hr', rfl⟩ := Option.map_eq_some_iff.1 hr
        have hrun := ih (h.step a hs hok) hr'
        rwa [List.append_assoc] at hrun
      · exact absurd hr (by simp)
    · exact absurd hr (by simp)

/-- Take those of the actions that are enabled and lead to states that meet `P`. -/
def follow (T : Transition S A E) (P : S → Prop) [DecidablePred P] : S → List A → S × List E
  | s, [] => (s, [])
  | s, a :: as =>
    match T.step s a with
    | some (s', ev) =>
      if P s' then
        let r := follow T P s' as
        (r.1, ev ++ r.2)
      else follow T P s as
    | none => follow T P s as

theorem Run.follow [DecidablePred P] (as : List A) (h : Run T P s tr) :
    Run T P (T.follow P s as).1 (tr ++ (T.follow P s as).2) := by
  induction as generalizing s tr with
  | nil => simpa [Transition.follow] using h
  | cons a as ih =>
    unfold Transition.follow
    split
    · next s' ev hs =>
      split
      · next hok =>
        have hrun := ih (h.step a hs hok)
        rwa [List.append_assoc] at hrun
      · exact ih h
    · exact ih h

end Transition
