import Mathlib.Data.List.Induction
import Mathlib.Tactic.Common

/-!
# Sequences of calls

A component takes a call in a state to a result and a next state. `after` makes the calls of a list
one after the other, `Each` asks for a condition on every call in the state it finds, and
`after_induction` is the induction over such sequences, with the calls made so far as history.
-/

namespace Calls

variable {S C R : Type*} (step : C → S → R × S)

/-- The state after a list of calls. -/
def after (s : S) (cs : List C) : S := cs.foldl (fun s c => (step c s).2) s

@[simp] theorem after_nil (s : S) : after step s [] = s := rfl

@[simp] theorem after_append (s : S) (cs ds : List C) :
    after step s (cs ++ ds) = after step (after step s cs) ds := List.foldl_append

@[simp] theorem after_singleton (s : S) (c : C) : after step s [c] = (step c s).2 := rfl

/-- The calls of a list with their results. -/
def log (s : S) : List C → List (C × R)
  | [] => []
  | c :: cs => (c, (step c s).1) :: log (step c s).2 cs

theorem log_append (s : S) (cs ds : List C) :
    log step s (cs ++ ds) = log step s cs ++ log step (after step s cs) ds := by
  induction cs generalizing s with
  | nil => rfl
  | cons c cs ih => exact congrArg (_ :: ·) (ih _)

/-- Every call of the list meets `ok` in the state it finds. -/
def Each (ok : S → C → Prop) (s : S) (cs : List C) : Prop :=
  ∀ pre c post, cs = pre ++ c :: post → ok (after step s pre) c

variable {step} {ok : S → C → Prop} {s : S}

theorem Each.initial {cs ds : List C} (h : Each step ok s cs) (hp : ds <+: cs) :
    Each step ok s ds := by
  rintro pre c post rfl
  obtain ⟨rest, rfl⟩ := hp
  exact h pre c (post ++ rest) (by simp)

theorem Each.suffix {cs ds : List C} (h : Each step ok s (cs ++ ds)) :
    Each step ok (after step s cs) ds := by
  rintro pre c post rfl
  rw [← after_append]
  exact h (cs ++ pre) c post (by simp)

theorem each_nil : Each step ok s [] := fun _ _ _ h => absurd h (by simp)

theorem each_cons {c : C} {cs : List C} :
    Each step ok s (c :: cs) ↔ ok s c ∧ Each step ok (step c s).2 cs := by
  constructor
  · intro h
    have htail : Each step ok s ([c] ++ cs) := h
    exact ⟨h [] c cs rfl, htail.suffix⟩
  · rintro ⟨hc, hcs⟩ pre c' post heq
    cases pre with
    | nil =>
      obtain ⟨rfl, -⟩ := List.cons.inj heq
      exact hc
    | cons p pre =>
      obtain ⟨rfl, htail⟩ := List.cons.inj heq
      exact hcs pre c' post htail

theorem Each.last {cs : List C} {c : C} (h : Each step ok s (cs ++ [c])) :
    ok (after step s cs) c := h cs c [] rfl

/-- What holds before the first call and is kept by every call that meets `ok` holds after every
list of such calls. -/
theorem after_induction (Inv : List C → S → Prop) (hinit : Inv [] s)
    (hstep : ∀ pre c, ok (after step s pre) c → Inv pre (after step s pre) →
      Inv (pre ++ [c]) (step c (after step s pre)).2)
    {cs : List C} (hcs : Each step ok s cs) : Inv cs (after step s cs) := by
  induction cs using List.reverseRecOn with
  | nil => exact hinit
  | append_singleton cs c ih =>
    have hpre : Inv cs (after step s cs) := ih (hcs.initial (List.prefix_append cs [c]))
    rw [after_append]
    exact hstep cs c hcs.last hpre

/-- Two components that answer alike, and stay related, have the same log. -/
theorem log_eq {T : Type*} {stepT : C → T → R × T} {okT : T → C → Prop} (Rel : S → T → Prop)
    (hstep : ∀ s t c, Rel s t → okT t c →
      (step c s).1 = (stepT c t).1 ∧ Rel (step c s).2 (stepT c t).2)
    {t : T} (hrel : Rel s t) {cs : List C} (hcs : Each stepT okT t cs) :
    log step s cs = log stepT t cs := by
  induction cs generalizing s t with
  | nil => rfl
  | cons c cs ih =>
    obtain ⟨hc, hcs⟩ := each_cons.1 hcs
    obtain ⟨hres, hrel⟩ := hstep s t c hrel hc
    unfold log
    rw [hres, ih hrel hcs]

end Calls
