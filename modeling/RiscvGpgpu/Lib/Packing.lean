import Mathlib.Data.Nat.Notation
import Mathlib.Tactic.Common

/-!
# Packed objects

Objects of given sizes, one behind the other in the order of a list.
-/

namespace Packing

variable {ν : Type} [DecidableEq ν] {size : ν → ℕ} {ns : List ν} {n m : ν} {i j : ℕ}

/-- What is in front of an object. -/
def before (size : ν → ℕ) : List ν → ν → ℕ
  | [], _ => 0
  | m :: ms, n => if m = n then 0 else size m + before size ms n

def total (size : ν → ℕ) : List ν → ℕ
  | [] => 0
  | m :: ms => size m + total size ms

theorem before_add_le (h : n ∈ ns) : before size ns n + size n ≤ total size ns := by
  induction ns with
  | nil => exact absurd h List.not_mem_nil
  | cons m ms ih =>
    rw [total, before]
    split_ifs with heq
    · rw [heq]
      omega
    · have hle := ih ((List.mem_cons.1 h).resolve_left (Ne.symm heq))
      omega

/-- Of two objects, one ends in front of the other. -/
theorem before_apart (hn : n ∈ ns) (hm : m ∈ ns) (hne : n ≠ m) :
    before size ns n + size n ≤ before size ns m ∨
      before size ns m + size m ≤ before size ns n := by
  induction ns with
  | nil => exact absurd hn List.not_mem_nil
  | cons k ks ih =>
    unfold before
    by_cases hkn : k = n
    · have hkm : k ≠ m := hkn ▸ hne
      rw [if_pos hkn, if_neg hkm, hkn]
      omega
    by_cases hkm : k = m
    · rw [if_neg hkn, if_pos hkm, hkm]
      omega
    rw [if_neg hkn, if_neg hkm]
    rcases ih ((List.mem_cons.1 hn).resolve_left (Ne.symm hkn))
      ((List.mem_cons.1 hm).resolve_left (Ne.symm hkm)) with h | h
    · left
      omega
    · right
      omega

theorem place_lt (hn : n ∈ ns) (hi : i < size n) : before size ns n + i < total size ns := by
  have hle : before size ns n + size n ≤ total size ns := before_add_le hn
  omega

/-- Two objects share no place. -/
theorem place_ne (hn : n ∈ ns) (hm : m ∈ ns) (hne : n ≠ m) (hi : i < size n) (hj : j < size m) :
    before size ns n + i ≠ before size ns m + j := by
  have hapart : before size ns n + size n ≤ before size ns m ∨
      before size ns m + size m ≤ before size ns n := before_apart hn hm hne
  rcases hapart with h | h
  · omega
  · omega

end Packing
