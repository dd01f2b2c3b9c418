import Mathlib.Data.List.Range
import Mathlib.Data.List.Nodup
import Mathlib.Tactic.Common

/-!
# Splitting a range evenly

`total` items go to `n` parties, each `total / n` of them and the first `total % n` one more, as
consecutive ranges. `parts` are the ranges that are not empty: joined they are `0, …, total - 1`
(`flatMap_parts`), and two parties differ by at most one item (`share_le_succ`).
-/

namespace Split

/-- The range of one party. -/
structure Part where
  index : ℕ
  offset : ℕ
  size : ℕ
  deriving DecidableEq

/-- What party `i` gets. -/
def share (total n i : ℕ) : ℕ := total / n + if i < total % n then 1 else 0

/-- What the parties before `i` get. -/
def start (total n : ℕ) : ℕ → ℕ
  | 0 => 0
  | i + 1 => start total n i + share total n i

/-- The ranges of the parties that get something. -/
def parts (total n : ℕ) : List Part :=
  (List.range n).filterMap fun i =>
    if share total n i = 0 then none else some ⟨i, start total n i, share total n i⟩

variable {total n : ℕ}

theorem share_le_succ (i j : ℕ) : share total n i ≤ share total n j + 1 := by
  unfold share
  split_ifs <;> omega

theorem start_eq (i : ℕ) : start total n i = i * (total / n) + min i (total % n) := by
  induction i with
  | zero => simp [start]
  | succ i ih =>
    rw [start, ih, share, Nat.add_one_mul]
    split_ifs <;> omega

theorem start_last (hn : 0 < n) : start total n n = total := by
  have hmod : total % n < n := Nat.mod_lt _ hn
  rw [start_eq, Nat.min_eq_right hmod.le]
  exact Nat.div_add_mod total n

theorem start_mono {i j : ℕ} (h : i ≤ j) : start total n i ≤ start total n j := by
  induction h with
  | refl => exact le_rfl
  | step _ ih => exact ih.trans (Nat.le_add_right _ _)

theorem start_add_share_le (hn : 0 < n) {i : ℕ} (hi : i < n) :
    start total n i + share total n i ≤ total := by
  have hlast : start total n (i + 1) ≤ start total n n := start_mono hi
  rwa [start_last hn] at hlast

/-- The ranges of the first `k` parties, joined. -/
theorem flatMap_shares (k : ℕ) :
    ((List.range k).flatMap fun i => List.range' (start total n i) (share total n i)) =
      List.range (start total n k) := by
  induction k with
  | zero => rfl
  | succ k ih =>
    rw [List.range_succ, List.flatMap_append, ih, List.flatMap_singleton, start,
      List.range_eq_range', List.range_eq_range', ← List.range'_append_1, Nat.zero_add]

/-- A property of the offset and the size of a range that the empty ranges add nothing to. -/
theorem flatMap_parts_eq {α : Type*} (f : ℕ → ℕ → ℕ → List α) (hf : ∀ i o, f i o 0 = []) :
    ((parts total n).flatMap fun p => f p.index p.offset p.size) =
      (List.range n).flatMap fun i => f i (start total n i) (share total n i) := by
  unfold parts
  induction List.range n with
  | nil => rfl
  | cons i is ih =>
    by_cases h : share total n i = 0
    · rw [List.filterMap_cons_none (by rw [if_pos h]), ih, List.flatMap_cons, h, hf,
        List.nil_append]
    · rw [List.filterMap_cons_some (by rw [if_neg h]), List.flatMap_cons, List.flatMap_cons, ih]

/-- The ranges are consecutive and cover `0, …, total - 1`. -/
theorem flatMap_parts (hn : 0 < n) :
    ((parts total n).flatMap fun p => List.range' p.offset p.size) = List.range total := by
  rw [flatMap_parts_eq (fun _ o s => List.range' o s) fun _ _ => rfl, flatMap_shares, start_last hn]

theorem mem_parts {p : Part} : p ∈ parts total n ↔
    p.index < n ∧ 0 < p.size ∧ p.offset = start total n p.index ∧
      p.size = share total n p.index := by
  rw [parts, List.mem_filterMap]
  constructor
  · rintro ⟨i, hi, hp⟩
    split_ifs at hp with h
    obtain rfl := Option.some.inj hp
    exact ⟨List.mem_range.1 hi, Nat.pos_of_ne_zero h, rfl, rfl⟩
  · obtain ⟨i, o, s⟩ := p
    rintro ⟨hi, hpos, ho, hs⟩
    dsimp only at hi hpos ho hs
    subst ho hs
    exact ⟨i, List.mem_range.2 hi, if_neg hpos.ne'⟩

theorem nodup_index : ((parts total n).map Part.index).Nodup := by
  have hmap : ((parts total n).map Part.index).Sublist (List.range n) := by
    unfold parts
    induction List.range n with
    | nil => exact List.Sublist.slnil
    | cons i is ih =>
      by_cases h : share total n i = 0
      · rw [List.filterMap_cons_none (by rw [if_pos h])]
        exact ih.cons _
      · rw [List.filterMap_cons_some (by rw [if_neg h])]
        exact ih.cons_cons _
  exact List.nodup_range.sublist hmap

/-! ## Acting on the parties that get something -/

/-- Each part changes the state of its party. -/
def applyParts {α : Type*} (f : Part → α → α) (ps : List Part) (s : ℕ → α) : ℕ → α :=
  ps.foldl (fun s p => Function.update s p.index (f p (s p.index))) s

theorem applyParts_of_notMem {α : Type*} (f : Part → α → α) (ps : List Part) (s : ℕ → α) {i : ℕ}
    (hi : i ∉ ps.map Part.index) : applyParts f ps s i = s i := by
  induction ps generalizing s with
  | nil => rfl
  | cons p ps ih =>
    obtain ⟨hne, hi⟩ := not_or.1 (fun h => hi (List.mem_cons.2 h))
    exact (ih _ hi).trans (Function.update_of_ne hne _ _)

theorem applyParts_of_mem {α : Type*} (f : Part → α → α) {ps : List Part}
    (hps : (ps.map Part.index).Nodup) (s : ℕ → α) {p : Part} (hp : p ∈ ps) :
    applyParts f ps s p.index = f p (s p.index) := by
  induction ps generalizing s with
  | nil => exact absurd hp List.not_mem_nil
  | cons q ps ih =>
    obtain ⟨hq, hps⟩ := List.nodup_cons.1 hps
    show applyParts f ps (Function.update s q.index (f q (s q.index))) p.index = _
    rcases List.mem_cons.1 hp with rfl | hp
    · rw [applyParts_of_notMem f ps _ hq, Function.update_self]
    · have hne : p.index ≠ q.index := fun h => hq (h ▸ List.mem_map_of_mem hp)
      rw [ih hps _ hp, Function.update_of_ne hne]

/-- What holds of a party before holds after if every part establishes it. -/
theorem applyParts_keeps {α : Type*} {P : α → Prop} {f : Part → α → α} (hf : ∀ p a, P (f p a))
    (ps : List Part) (s : ℕ → α) {i : ℕ} (h : P (s i)) : P (applyParts f ps s i) := by
  induction ps generalizing s with
  | nil => exact h
  | cons p ps ih =>
    refine ih (Function.update s p.index (f p (s p.index))) ?_
    by_cases hi : i = p.index
    · subst hi
      rw [Function.update_self]
      exact hf p _
    · rwa [Function.update_of_ne hi]

/-- What the parts of an even split do to the parties. -/
theorem applyParts_parts {α : Type*} (f : Part → α → α) (s : ℕ → α) {i : ℕ} (hi : i < n) :
    applyParts f (parts total n) s i =
      if share total n i = 0 then s i else f ⟨i, start total n i, share total n i⟩ (s i) := by
  split_ifs with h
  · refine applyParts_of_notMem f _ s fun hmem => ?_
    obtain ⟨p, hp, rfl⟩ := List.mem_map.1 hmem
    obtain ⟨-, hpos, -, hsize⟩ := mem_parts.1 hp
    omega
  · have hp : (⟨i, start total n i, share total n i⟩ : Part) ∈ parts total n :=
      mem_parts.2 ⟨hi, Nat.pos_of_ne_zero h, rfl, rfl⟩
    exact applyParts_of_mem f nodup_index s hp

/-- A loop that hands out the ranges in order, the offset being what it has handed out. -/
theorem filterMap_range'_succ (k m : ℕ) :
    ((List.range' k (m + 1)).filterMap fun i =>
        if share total n i = 0 then none else some (⟨i, start total n i, share total n i⟩ : Part)) =
      (if share total n k = 0 then [] else [⟨k, start total n k, share total n k⟩]) ++
        (List.range' (k + 1) m).filterMap fun i =>
          if share total n i = 0 then none else some ⟨i, start total n i, share total n i⟩ := by
  rw [List.range'_succ]
  split_ifs with h
  · rw [List.filterMap_cons_none (by rw [if_pos h]), List.nil_append]
  · rw [List.filterMap_cons_some (by rw [if_neg h]), List.singleton_append]

end Split
