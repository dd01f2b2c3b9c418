import Mathlib.Logic.Function.Basic
import Mathlib.Tactic.Common

/-!
# Regions of addresses

A region is a start and a length. `Heap` is the invariant of an allocator that takes each region
from a watermark on and never moves the watermark back.
-/

namespace Regions

/-- The address is one of the region. -/
def Contains (r : ℕ × ℕ) (x : ℕ) : Prop := r.1 ≤ x ∧ x < r.1 + r.2

/-- No address is in both regions. -/
def Apart (r s : ℕ × ℕ) : Prop := ∀ x, Contains r x → ¬ Contains s x

theorem Apart.symm {r s : ℕ × ℕ} (h : Apart r s) : Apart s r := fun x hs hr => h x hr hs

theorem apart_of_le {r s : ℕ × ℕ} (h : r.1 + r.2 ≤ s.1) : Apart r s := by
  rintro x ⟨-, hr⟩ ⟨hs, -⟩
  omega

/-- Writes to regions that are apart, one after the other: each region has what was written to it,
and nothing else has changed. `Inv` is what the writes rely on. -/
theorem foldl_apart {S A V I : Type*} {write : S → I → S} {byte : S → A → V} {pos : A → ℕ}
    {region : I → ℕ × ℕ} {value : I → A → V} (Inv : S → Prop) {is : List I}
    (hwrite : ∀ i ∈ is, ∀ s, Inv s → Inv (write s i) ∧
      (∀ a, Contains (region i) (pos a) → byte (write s i) a = value i a) ∧
      ∀ a, ¬ Contains (region i) (pos a) → byte (write s i) a = byte s a)
    (hapart : is.Pairwise fun i j => Apart (region i) (region j)) {s : S} (hs : Inv s) :
    Inv (is.foldl write s) ∧
      (∀ i ∈ is, ∀ a, Contains (region i) (pos a) → byte (is.foldl write s) a = value i a) ∧
      ∀ a, (∀ i ∈ is, ¬ Contains (region i) (pos a)) → byte (is.foldl write s) a = byte s a := by
  induction is generalizing s with
  | nil => exact ⟨hs, fun i hi => absurd hi List.not_mem_nil, fun _ _ => rfl⟩
  | cons i is ih =>
    obtain ⟨hi, his⟩ := List.forall_mem_cons.1 hwrite
    obtain ⟨hfirst, hrest⟩ := List.pairwise_cons.1 hapart
    obtain ⟨hinv, hin, hout⟩ := hi s hs
    obtain ⟨hinv', hin', hout'⟩ := ih his hrest hinv
    rw [List.foldl_cons]
    refine ⟨hinv', List.forall_mem_cons.2 ⟨?_, hin'⟩, ?_⟩
    · intro a ha
      -- the later writes leave the first region alone
      rw [hout' a fun j hj => hfirst j hj (pos a) ha]
      exact hin a ha
    · intro a ha
      obtain ⟨hnot, hnots⟩ := List.forall_mem_cons.1 ha
      rw [hout' a hnots, hout a hnot]

variable {K : Type*}

/-- The live regions, by their keys, lie between the base and the watermark and are apart. -/
structure Heap (addr : K → ℕ) (live : K → ℕ → Prop) (base next : ℕ) : Prop where
  base_le : base ≤ next
  bounds : ∀ k n, live k n → base ≤ addr k ∧ addr k + n ≤ next
  apart : ∀ k l n m, live k n → live l m → k ≠ l → Apart (addr k, n) (addr l, m)

namespace Heap

variable {addr : K → ℕ} {live live' : K → ℕ → Prop} {base next next' : ℕ}

theorem init (addr : K → ℕ) (base : ℕ) : Heap addr (fun _ _ => False) base base :=
  ⟨Nat.le_refl base, fun _ _ h => h.elim, fun _ _ _ _ h => h.elim⟩

/-- Regions may be given up. -/
theorem mono (h : Heap addr live base next) (hsub : ∀ k n, live' k n → live k n) :
    Heap addr live' base next :=
  ⟨h.base_le, fun k n hk => h.bounds k n (hsub k n hk),
    fun k l n m hk hl => h.apart k l n m (hsub k n hk) (hsub l m hl)⟩

/-- A region from the watermark on may be added. -/
theorem allocate (h : Heap addr live base next) {k₀ : K} {n₀ : ℕ} (hk₀ : addr k₀ = next)
    (hnext : next + n₀ ≤ next')
    (hsub : ∀ k n, live' k n → live k n ∨ k = k₀ ∧ n = n₀) : Heap addr live' base next' := by
  have hbase := h.base_le
  refine ⟨by omega, fun k n hk => ?_, fun k l n m hk hl hne => ?_⟩
  · rcases hsub k n hk with hold | ⟨rfl, rfl⟩
    · obtain ⟨hlo, hhi⟩ := h.bounds k n hold
      exact ⟨hlo, by omega⟩
    · exact ⟨by omega, by omega⟩
  · rcases hsub k n hk with hkold | ⟨rfl, rfl⟩
    · rcases hsub l m hl with hlold | ⟨rfl, rfl⟩
      · exact h.apart k l n m hkold hlold hne
      · apply apart_of_le
        rw [hk₀]
        exact (h.bounds k n hkold).2
    · rcases hsub l m hl with hlold | ⟨rfl, rfl⟩
      · apply Apart.symm
        apply apart_of_le
        rw [hk₀]
        exact (h.bounds l m hlold).2
      · exact absurd rfl hne

end Heap

end Regions
