import Mathlib.Order.Lattice.Nat
import RiscvGpgpu.Lib.Interact

/-!
# How much a program asks

`AsksAtMost` bounds the queries of a program over all answers. `asksLeft` is the least bound, and
`answersLeft` the least bound behind the answer that a program waits for; each query and each answer
takes one of them down (`answersLeft_lt`, `asksLeft_answer`).
-/

namespace Interact

variable {Q A R R' : Type}

/-- The program asks at most so many queries, whatever the answers are. -/
def AsksAtMost : Interact Q A R → ℕ → Prop
  | ret _, _ => True
  | ask _ _, 0 => False
  | ask _ k, n + 1 => ∀ a, AsksAtMost (k a) n

theorem AsksAtMost.mono {p : Interact Q A R} {n n' : ℕ} (h : p.AsksAtMost n) (hle : n ≤ n') :
    p.AsksAtMost n' := by
  induction p generalizing n n' with
  | ret r => trivial
  | ask q k ih =>
    cases n with
    | zero => exact h.elim
    | succ n =>
      cases n' with
      | zero => exact absurd hle (Nat.not_succ_le_zero n)
      | succ n' => exact fun a => ih a (h a) (Nat.le_of_succ_le_succ hle)

theorem AsksAtMost.bind {p : Interact Q A R} {f : R → Interact Q A R'} {m n : ℕ}
    (h : p.AsksAtMost m) (hf : ∀ r, (f r).AsksAtMost n) : (p.bind f).AsksAtMost (m + n) := by
  induction p generalizing m with
  | ret r => exact (hf r).mono (Nat.le_add_left n m)
  | ask q k ih =>
    cases m with
    | zero => exact h.elim
    | succ m =>
      rw [Nat.succ_add]
      exact fun a => ih a (h a)

/-- How many queries a program can still ask. -/
noncomputable def asksLeft (p : Interact Q A R) : ℕ := sInf {n | p.AsksAtMost n}

/-- How many queries a program can still ask behind the answer it waits for. -/
noncomputable def answersLeft (k : A → Interact Q A R) : ℕ := sInf {n | ∀ a, (k a).AsksAtMost n}

theorem asksLeft_le {p : Interact Q A R} {n : ℕ} (h : p.AsksAtMost n) : p.asksLeft ≤ n :=
  Nat.sInf_le h

theorem answersLeft_lt {q : Q} {k : A → Interact Q A R} {n : ℕ} (h : (ask q k).AsksAtMost n) :
    answersLeft k < (ask q k).asksLeft := by
  have hmem : (ask q k).AsksAtMost (ask q k).asksLeft :=
    Nat.sInf_mem (s := {n | (ask q k).AsksAtMost n}) ⟨n, h⟩
  cases hm : (ask q k).asksLeft with
  | zero =>
    rw [hm] at hmem
    exact hmem.elim
  | succ m =>
    rw [hm] at hmem
    exact Nat.lt_succ_of_le (Nat.sInf_le hmem)

theorem asksLeft_answer {k : A → Interact Q A R} {n : ℕ} (h : ∀ a, (k a).AsksAtMost n) (a : A) :
    (k a).asksLeft ≤ answersLeft k := by
  have hmem : ∀ a, (k a).AsksAtMost (answersLeft k) :=
    Nat.sInf_mem (s := {n | ∀ a, (k a).AsksAtMost n}) ⟨n, h⟩
  exact Nat.sInf_le (hmem a)

end Interact
