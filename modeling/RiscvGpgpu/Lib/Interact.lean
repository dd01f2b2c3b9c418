import Mathlib.Tactic.Common

/-!
# Programs that ask queries

`Interact Q A R` is a program that asks queries of type `Q`, resumes on each answer of type `A`
and ends with a result of type `R`. Such a program is given meaning by a *server*, a function
from its state and a query to an answer and the next state (`serve`); an answer function of the
whole query history is the server whose state is that history (`oracle`).

`Sim` relates two programs that ask related queries and resume on related answers, up to a
predicate `bad` on the results of the left one: once every continuation of the left program ends
in a bad result, nothing is asked of the right one. `Sim.serve` turns the relation into equality
of runs against related servers.
-/

/-- A program that asks queries and resumes on their answers. -/
inductive Interact (Q A R : Type) : Type where
  | ret (r : R)
  | ask (q : Q) (k : A → Interact Q A R)

namespace Interact

variable {Q A R R' S : Type}

/-- Sequential composition. -/
def bind (p : Interact Q A R) (f : R → Interact Q A R') : Interact Q A R' :=
  match p with
  | ret r => f r
  | ask q k => ask q fun a => (k a).bind f

/-- The result of a program passed through a function. -/
def map (f : R → R') (p : Interact Q A R) : Interact Q A R' := p.bind fun r => ret (f r)

@[simp] theorem ret_bind (r : R) (f : R → Interact Q A R') : (ret r).bind f = f r := rfl

@[simp] theorem ask_bind (q : Q) (k : A → Interact Q A R) (f : R → Interact Q A R') :
    (ask q k).bind f = ask q fun a => (k a).bind f := rfl

theorem bind_assoc {R'' : Type} (p : Interact Q A R) (f : R → Interact Q A R')
    (g : R' → Interact Q A R'') : (p.bind f).bind g = p.bind fun r => (f r).bind g := by
  induction p with
  | ret r => rfl
  | ask q k ih => simp [ih]

@[simp] theorem ret_map (r : R) (f : R → R') : (ret r : Interact Q A R).map f = ret (f r) := rfl

/-- Run a program against a server; the final server state and the result. -/
def serve (srv : S → Q → A × S) : S → Interact Q A R → S × R
  | s, ret r => (s, r)
  | s, ask q k => serve srv (srv s q).2 (k (srv s q).1)

@[simp] theorem serve_ret (srv : S → Q → A × S) (s : S) (r : R) :
    serve srv s (ret r) = (s, r) := rfl

@[simp] theorem serve_ask (srv : S → Q → A × S) (s : S) (q : Q) (k : A → Interact Q A R) :
    serve srv s (ask q k) = serve srv (srv s q).2 (k (srv s q).1) := rfl

theorem serve_bind (srv : S → Q → A × S) (s : S) (p : Interact Q A R)
    (f : R → Interact Q A R') :
    serve srv s (p.bind f) = serve srv (serve srv s p).1 (f (serve srv s p).2) := by
  induction p generalizing s with
  | ret r => rfl
  | ask q k ih => simp [ih]

theorem serve_map (srv : S → Q → A × S) (s : S) (p : Interact Q A R) (f : R → R') :
    serve srv s (p.map f) = ((serve srv s p).1, f (serve srv s p).2) := serve_bind _ _ _ _

/-- What every answer of the server keeps, a run of a program keeps. -/
theorem serve_keeps {I : S → Prop} {srv : S → Q → A × S} (hsrv : ∀ s q, I s → I (srv s q).2)
    (p : Interact Q A R) {s : S} (hs : I s) : I (p.serve srv s).1 := by
  induction p generalizing s with
  | ret r => exact hs
  | ask q k ih => exact ih _ (hsrv s q hs)

/-- The server that answers from the whole history of queries, newest last. -/
def oracle (ans : List Q → A) (h : List Q) (q : Q) : A × List Q := (ans (h ++ [q]), h ++ [q])

/-- The server without state. -/
def stateless (f : Q → A) (_ : Unit) (q : Q) : A × Unit := (f q, ())

/-! ## Facts about every possible result -/

/-- Every result the program can end with satisfies `P`. -/
def AllLeaves (P : R → Prop) : Interact Q A R → Prop
  | ret r => P r
  | ask _ k => ∀ a, AllLeaves P (k a)

theorem AllLeaves.serve {P : R → Prop} {p : Interact Q A R} (h : p.AllLeaves P)
    (srv : S → Q → A × S) (s : S) : P (p.serve srv s).2 := by
  induction p generalizing s with
  | ret r => exact h
  | ask q k ih => exact ih _ (h _) _

theorem AllLeaves.bind {P : R → Prop} {P' : R' → Prop} {p : Interact Q A R}
    {f : R → Interact Q A R'} (h : p.AllLeaves P) (hf : ∀ r, P r → (f r).AllLeaves P') :
    (p.bind f).AllLeaves P' := by
  induction p with
  | ret r => exact hf r h
  | ask q k ih => exact fun a => ih a (h a)

theorem AllLeaves.of_forall {P : R → Prop} (hP : ∀ r, P r) (p : Interact Q A R) :
    p.AllLeaves P := by
  induction p with
  | ret r => exact hP r
  | ask q k ih => exact ih

/-- Every query the program can ask satisfies `P`. -/
def AllAsks (P : Q → Prop) : Interact Q A R → Prop
  | ret _ => True
  | ask q k => P q ∧ ∀ a, AllAsks P (k a)

theorem AllAsks.bind {P : Q → Prop} {p : Interact Q A R} {f : R → Interact Q A R'}
    (h : p.AllAsks P) (hf : ∀ r, (f r).AllAsks P) : (p.bind f).AllAsks P := by
  induction p with
  | ret r => exact hf r
  | ask q k ih => exact ⟨h.1, fun a => ih a (h.2 a)⟩

/-! ## Simulation up to bad results -/

variable {Q' A' R₁ R₁' S' : Type}

/-- Related queries, related answers and related results, unless every result of the left
program is bad. -/
inductive Sim (RQ : Q → Q' → Prop) (RA : Q → A → A' → Prop) (RR : R → R' → Prop)
    (bad : R → Prop) : Interact Q A R → Interact Q' A' R' → Prop where
  | ret {r : R} {r' : R'} (h : RR r r') : Sim RQ RA RR bad (.ret r) (.ret r')
  | ask {q : Q} {q' : Q'} {k : A → Interact Q A R} {k' : A' → Interact Q' A' R'}
      (hq : RQ q q') (hk : ∀ a a', RA q a a' → Sim RQ RA RR bad (k a) (k' a')) :
      Sim RQ RA RR bad (.ask q k) (.ask q' k')
  | doomed {p : Interact Q A R} {p' : Interact Q' A' R'} (h : p.AllLeaves bad) :
      Sim RQ RA RR bad p p'

theorem Sim.bind {RQ : Q → Q' → Prop} {RA : Q → A → A' → Prop} {RR : R → R' → Prop}
    {bad : R → Prop} {RR₁ : R₁ → R₁' → Prop} {bad₁ : R₁ → Prop}
    {p : Interact Q A R} {p' : Interact Q' A' R'} {f : R → Interact Q A R₁}
    {f' : R' → Interact Q' A' R₁'} (h : Sim RQ RA RR bad p p')
    (hf : ∀ r r', RR r r' → Sim RQ RA RR₁ bad₁ (f r) (f' r'))
    (hbad : ∀ r, bad r → (f r).AllLeaves bad₁) :
    Sim RQ RA RR₁ bad₁ (p.bind f) (p'.bind f') := by
  induction h with
  | ret h => exact hf _ _ h
  | ask hq _ ih => exact .ask hq fun a a' ha => ih a a' ha
  | doomed h => exact .doomed (h.bind hbad)

/-- Related programs run in step against related servers, or the left result is bad. -/
theorem Sim.serve {RQ : Q → Q' → Prop} {RA : Q → A → A' → Prop} {RR : R → R' → Prop}
    {bad : R → Prop} {RS : S → S' → Prop} {srv : S → Q → A × S} {srv' : S' → Q' → A' × S'}
    (hsrv : ∀ s s' q q', RS s s' → RQ q q' →
      RA q (srv s q).1 (srv' s' q').1 ∧ RS (srv s q).2 (srv' s' q').2)
    {p : Interact Q A R} {p' : Interact Q' A' R'} (h : Sim RQ RA RR bad p p')
    {s : S} {s' : S'} (hs : RS s s') (hok : ¬ bad (p.serve srv s).2) :
    RS (p.serve srv s).1 (p'.serve srv' s').1 ∧ RR (p.serve srv s).2 (p'.serve srv' s').2 := by
  induction h generalizing s s' with
  | ret h => exact ⟨hs, h⟩
  | ask hq _ ih =>
    obtain ⟨ha, hs'⟩ := hsrv s s' _ _ hs hq
    exact ih _ _ ha hs' hok
  | doomed h => exact absurd (h.serve srv s) hok

end Interact
