import Mathlib.Data.List.Basic
import Mathlib.Tactic.Common

/-!
# Histories

A history is the list of what has happened so far. `Throughout` asks for a condition on every entry
and the ones before it, and is kept by one more entry.
-/

namespace History

variable {α : Type} {P : List α → α → Prop} {p : α → Bool} {ms : List α} {m : α} {k : ℕ}

/-- Every entry meets the condition, with the entries before it. -/
def Throughout (P : List α → α → Prop) (ms : List α) : Prop :=
  ∀ pre m post, ms = pre ++ m :: post → P pre m

theorem throughout_nil : Throughout P [] := fun _ _ _ h => absurd h (by simp)

theorem throughout_snoc (h : Throughout P ms) (hm : P ms m) : Throughout P (ms ++ [m]) := by
  intro pre m' post heq
  rcases List.eq_nil_or_concat' post with rfl | ⟨rest, last, rfl⟩
  · obtain ⟨rfl, hlast⟩ := List.append_inj' heq rfl
    obtain rfl := List.singleton_inj.1 hlast
    exact hm
  · rw [← List.cons_append, ← List.append_assoc] at heq
    exact h pre m' rest (List.append_inj' heq rfl).1

/-- The entry of a kind that has `k` of them before it. -/
theorem exists_countP_eq (h : k < ms.countP p) :
    ∃ pre m post, ms = pre ++ m :: post ∧ p m = true ∧ pre.countP p = k := by
  induction ms generalizing k with
  | nil => exact absurd h (Nat.not_lt_zero k)
  | cons m ms ih =>
    by_cases hm : p m = true
    · rw [List.countP_cons_of_pos hm] at h
      cases k with
      | zero => exact ⟨[], m, ms, rfl, hm, rfl⟩
      | succ k =>
        obtain ⟨pre, m', post, rfl, hm', hk⟩ := ih (Nat.lt_of_succ_lt_succ h)
        exact ⟨m :: pre, m', post, rfl, hm', by rw [List.countP_cons_of_pos hm, hk]⟩
    · rw [List.countP_cons_of_neg hm] at h
      obtain ⟨pre, m', post, rfl, hm', hk⟩ := ih h
      exact ⟨m :: pre, m', post, rfl, hm', by rw [List.countP_cons_of_neg hm, hk]⟩

end History
