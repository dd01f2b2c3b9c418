import Mathlib.Data.List.FinRange
import Mathlib.Data.Nat.ModEq
import Mathlib.Tactic.Ring

/-!
# Boxes of cells and ranges in pieces

The cells of a box of three sides are numbered with the first coordinate fastest: `cell` and `index`
are inverse to each other. The other lemmas put the numbers below a bound together again from the
pieces that a loop takes them in.
-/

namespace Grid

/-! ## Cells -/

/-- The cell with number `i`, in a box whose first two sides are `a` and `b`. -/
def cell (a b i : ℕ) : ℕ × ℕ × ℕ := (i % a, i / a % b, i / (a * b))

/-- The number of a cell. -/
def index (a b : ℕ) (p : ℕ × ℕ × ℕ) : ℕ := p.1 + a * (p.2.1 + b * p.2.2)

theorem index_cell (a b i : ℕ) : index a b (cell a b i) = i := by
  unfold index cell
  rw [← Nat.div_div_eq_div_mul, Nat.mod_add_div, Nat.mod_add_div]

theorem cell_index {a b : ℕ} {p : ℕ × ℕ × ℕ} (hx : p.1 < a) (hy : p.2.1 < b) :
    cell a b (index a b p) = p := by
  have ha : 0 < a := by omega
  have hb : 0 < b := by omega
  have hdiv : index a b p / a = p.2.1 + b * p.2.2 := by
    unfold index
    rw [Nat.add_mul_div_left _ _ ha, Nat.div_eq_of_lt hx, Nat.zero_add]
  have hmod : index a b p % a = p.1 := by
    unfold index
    rw [Nat.add_mul_mod_self_left, Nat.mod_eq_of_lt hx]
  unfold cell
  rw [← Nat.div_div_eq_div_mul, hdiv, hmod, Nat.add_mul_mod_self_left, Nat.mod_eq_of_lt hy,
    Nat.add_mul_div_left _ _ hb, Nat.div_eq_of_lt hy, Nat.zero_add]

theorem cell_lt {a b c i : ℕ} (h : i < a * b * c) :
    (cell a b i).1 < a ∧ (cell a b i).2.1 < b ∧ (cell a b i).2.2 < c := by
  have hpos : 0 < a * b * c := by omega
  have hab : 0 < a * b := Nat.pos_of_mul_pos_right hpos
  have ha : 0 < a := Nat.pos_of_mul_pos_right hab
  have hb : 0 < b := Nat.pos_of_mul_pos_left hab
  exact ⟨Nat.mod_lt _ ha, Nat.mod_lt _ hb, Nat.div_lt_of_lt_mul h⟩

theorem index_lt {a b c : ℕ} {p : ℕ × ℕ × ℕ} (hx : p.1 < a) (hy : p.2.1 < b) (hz : p.2.2 < c) :
    index a b p < a * b * c := by
  unfold index
  have hrow : p.2.1 + b * p.2.2 < b * c := by
    calc p.2.1 + b * p.2.2 < b * 1 + b * p.2.2 := by omega
      _ = b * (p.2.2 + 1) := by ring
      _ ≤ b * c := Nat.mul_le_mul_left b hz
  calc p.1 + a * (p.2.1 + b * p.2.2) < a * 1 + a * (p.2.1 + b * p.2.2) := by omega
    _ = a * (p.2.1 + b * p.2.2 + 1) := by ring
    _ ≤ a * (b * c) := Nat.mul_le_mul_left a hrow
    _ = a * b * c := by ring

/-! ## Ranges in pieces -/

theorem flatMap_range_mul (n m : ℕ) :
    (List.range n).flatMap (fun b => (List.range m).map (b * m + ·)) = List.range (n * m) := by
  induction n with
  | zero => simp
  | succ n ih =>
    rw [List.range_succ, List.flatMap_append, ih, Nat.add_mul, Nat.one_mul, List.range_add]
    simp

/-- One loop over `n * m` numbers is two loops, one in the other. -/
theorem flatMap_range_divMod {α : Type*} (n m : ℕ) (f : ℕ → ℕ → List α) :
    (List.range (n * m)).flatMap (fun w => f (w / m) (w % m)) =
      (List.range n).flatMap fun b => (List.range m).flatMap (f b) := by
  rw [← flatMap_range_mul, List.flatMap_assoc]
  refine List.flatMap_congr fun b _ => ?_
  rw [List.flatMap_map]
  refine List.flatMap_congr fun j hj => ?_
  have hlt := List.mem_range.1 hj
  have hm : 0 < m := by omega
  rw [Nat.mul_comm b m, Nat.mul_add_div hm, Nat.div_eq_of_lt hlt, Nat.mul_add_mod,
    Nat.mod_eq_of_lt hlt, Nat.add_zero]

/-- Pieces of `s` numbers each, the last one with what is left below `n`. -/
theorem flatMap_range_chunks (k s n : ℕ) :
    (List.range k).flatMap (fun j => (List.range (min s (n - j * s))).map (j * s + ·)) =
      List.range (min (k * s) n) := by
  induction k with
  | zero => simp
  | succ k ih =>
    rw [List.range_succ, List.flatMap_append, ih]
    by_cases h : k * s ≤ n
    · have hsum : min ((k + 1) * s) n = k * s + min s (n - k * s) := by
        rw [Nat.add_mul, Nat.one_mul]
        omega
      rw [hsum, List.range_add, min_eq_left h]
      simp
    · have hnone : n - k * s = 0 := by omega
      have hfull : min ((k + 1) * s) n = min (k * s) n := by
        rw [Nat.add_mul, Nat.one_mul]
        omega
      rw [hfull, List.flatMap_singleton, hnone]
      simp

theorem takeWhile_range {p : ℕ → Bool} {s m : ℕ} (hp : ∀ t < s, p t = decide (t < m)) :
    (List.range s).takeWhile p = List.range (min s m) := by
  induction s with
  | zero => simp
  | succ s ih =>
    have hinit := ih fun t ht => hp t (by omega)
    rw [List.range_succ, List.takeWhile_append, hinit, List.length_range, List.length_range]
    by_cases h : s < m
    · have hlast : p s = true := by
        rw [hp s (by omega)]
        exact decide_eq_true h
      rw [if_pos (by omega), min_eq_left h, List.range_succ]
      simp [hlast]
    · by_cases heq : min s m = s
      · have hlast : p s = false := by
          rw [hp s (by omega)]
          exact decide_eq_false h
        have hmin : min (s + 1) m = s := by omega
        rw [if_pos heq, hmin]
        simp [hlast]
      · have hmin : min (s + 1) m = min s m := by omega
        rw [if_neg heq, hmin]

/-- A quotient is that of no more numbers than the divisor. -/
theorem countP_div_eq_le (m : ℕ) {n : ℕ} (hn : 0 < n) (q : ℕ) :
    (List.range m).countP (fun t => decide (t / n = q)) ≤ n := by
  have hsub : (List.range m).filter (fun t => decide (t / n = q)) ⊆ List.range' (q * n) n := by
    intro t ht
    have hq : t / n = q := by simpa using (List.mem_filter.1 ht).2
    have hdiv := Nat.div_add_mod t n
    have hmod := Nat.mod_lt t hn
    rw [hq, Nat.mul_comm] at hdiv
    exact List.mem_range'_1.2 ⟨by omega, by omega⟩
  have hle := (List.subperm_of_subset (List.nodup_range.filter _) hsub).length_le
  rwa [List.length_range', ← List.countP_eq_length_filter] at hle

/-- A quotient below `m` is that of exactly as many numbers as the divisor. -/
theorem countP_div_eq {m n q : ℕ} (hn : 0 < n) (hq : q < m) :
    (List.range (m * n)).countP (fun t => decide (t / n = q)) = n := by
  refine le_antisymm (countP_div_eq_le _ hn q) ?_
  have hsub : List.range' (q * n) n ⊆ (List.range (m * n)).filter fun t => decide (t / n = q) := by
    intro t ht
    obtain ⟨hle, hlt⟩ := List.mem_range'_1.1 ht
    have hmul : (q + 1) * n ≤ m * n := Nat.mul_le_mul_right n hq
    rw [Nat.add_mul, Nat.one_mul] at hmul
    refine List.mem_filter.2 ⟨List.mem_range.2 (by omega), decide_eq_true ?_⟩
    exact Nat.div_eq_of_lt_le hle (by rw [Nat.add_mul, Nat.one_mul]; exact hlt)
  have hle := (List.subperm_of_subset (List.nodup_range' ..) hsub).length_le
  rwa [List.length_range', ← List.countP_eq_length_filter] at hle

end Grid
