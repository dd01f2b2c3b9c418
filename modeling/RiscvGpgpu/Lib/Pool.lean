import Mathlib.Data.List.Nodup
import Mathlib.Data.List.Lookmap
import Mathlib.Data.List.Perm.Subperm

/-!
# Names on a pool

Names get the members of a pool in its order, each on its first use, and keep them. The map is the
list of its entries, the last one first.
-/

namespace Pool

structure Map (ν ρ : Type) where
  entries : List (ν × ρ) := []
  next : ℕ := 0
deriving DecidableEq, Repr

namespace Map

variable {ν ρ : Type} [DecidableEq ν] {pool : List ρ} {m m' : Map ν ρ} {n n' : ν} {r r' : ρ}

def find (m : Map ν ρ) (n : ν) : Option ρ := (m.entries.find? fun e => e.1 = n).map Prod.snd

/-- The member of a name, which is the next one of the pool if it has none; `none` when there is no
next one. -/
def assign (pool : List ρ) (m : Map ν ρ) (n : ν) : Option (ρ × Map ν ρ) :=
  match m.find n with
  | some r => some (r, m)
  | none => (pool[m.next]?).map fun r =>
      (r, { entries := (n, r) :: m.entries, next := m.next + 1 })

/-- The map was filled by `assign`. -/
structure Allocated (pool : List ρ) (m : Map ν ρ) : Prop where
  members : m.entries.map Prod.snd = (pool.take m.next).reverse
  next_le : m.next ≤ pool.length

/-- What a name has in `m` it has in `m'`. -/
def Extends (m m' : Map ν ρ) : Prop := ∀ n r, m.find n = some r → m'.find n = some r

theorem Extends.refl (m : Map ν ρ) : m.Extends m := fun _ _ h => h

theorem Extends.trans {m'' : Map ν ρ} (h : m.Extends m') (h' : m'.Extends m'') : m.Extends m'' :=
  fun n r hr => h' n r (h n r hr)

omit [DecidableEq ν] in
theorem allocated_empty (pool : List ρ) : Allocated pool ({} : Map ν ρ) where
  members := rfl
  next_le := Nat.zero_le _

theorem find_cons (m : Map ν ρ) (n n' : ν) (r : ρ) (k : ℕ) :
    find { entries := (n, r) :: m.entries, next := k } n' =
      if n = n' then some r else m.find n' := by
  unfold find
  rw [List.find?_cons]
  by_cases h : n = n'
  · simp [h]
  · simp [h]

theorem assign_eq_some (h : m.assign pool n = some (r, m')) :
    m.find n = some r ∧ m' = m ∨ m.find n = none ∧ pool[m.next]? = some r ∧
      m' = { entries := (n, r) :: m.entries, next := m.next + 1 } := by
  unfold assign at h
  cases hfind : m.find n with
  | some r₀ =>
    rw [hfind] at h
    obtain ⟨rfl, rfl⟩ := Prod.mk.inj (Option.some.inj h)
    exact .inl ⟨rfl, rfl⟩
  | none =>
    rw [hfind] at h
    obtain ⟨r₀, hr₀, heq⟩ := Option.map_eq_some_iff.1 h
    obtain ⟨rfl, rfl⟩ := Prod.mk.inj heq
    exact .inr ⟨rfl, hr₀, rfl⟩

theorem assign_find (h : m.assign pool n = some (r, m')) : m'.find n = some r := by
  rcases assign_eq_some h with ⟨hfind, rfl⟩ | ⟨-, -, rfl⟩
  · exact hfind
  · rw [find_cons, if_pos rfl]

theorem assign_extends (h : m.assign pool n = some (r, m')) : m.Extends m' := by
  rcases assign_eq_some h with ⟨-, rfl⟩ | ⟨hnone, -, rfl⟩
  · exact Extends.refl m'
  · intro n' r' hr'
    rw [find_cons, if_neg, hr']
    rintro rfl
    exact absurd (hnone.symm.trans hr') (by simp)

theorem assign_isSome (h : m.assign pool n = some (r, m')) :
    (m'.find n').isSome = true ↔ (m.find n').isSome = true ∨ n' = n := by
  rcases assign_eq_some h with ⟨hfind, rfl⟩ | ⟨-, -, rfl⟩
  · refine ⟨.inl, ?_⟩
    rintro (h | rfl)
    · exact h
    · rw [hfind]
      rfl
  · rw [find_cons]
    by_cases heq : n = n'
    · simp [heq]
    · rw [if_neg heq]
      exact (or_iff_left (Ne.symm heq)).symm

/-- While the pool has a next member, every name gets one. -/
theorem assign_of_lt (h : m.next < pool.length) :
    ∃ r m', m.assign pool n = some (r, m') ∧ m'.next ≤ m.next + 1 := by
  unfold assign
  cases m.find n with
  | some r => exact ⟨r, m, rfl, Nat.le_succ _⟩
  | none =>
    dsimp only
    rw [List.getElem?_eq_getElem h]
    exact ⟨_, _, rfl, Nat.le_refl _⟩

theorem assign_allocated (hm : m.Allocated pool) (h : m.assign pool n = some (r, m')) :
    m'.Allocated pool := by
  rcases assign_eq_some h with ⟨-, rfl⟩ | ⟨-, hget, rfl⟩
  · exact hm
  · obtain ⟨hlt, rfl⟩ := List.getElem?_eq_some_iff.1 hget
    constructor
    · rw [List.map_cons, hm.members, List.take_add_one, hget, List.reverse_append]
      rfl
    · exact hlt

/-- Every name has a member of the pool. -/
theorem Allocated.mem (hm : m.Allocated pool) (h : m.find n = some r) : r ∈ pool := by
  obtain ⟨e, he, rfl⟩ := Option.map_eq_some_iff.1 h
  have hmem : e.2 ∈ m.entries.map Prod.snd := List.mem_map_of_mem (List.mem_of_find?_eq_some he)
  rw [hm.members, List.mem_reverse] at hmem
  exact List.mem_of_mem_take hmem

/-- Two names do not share a member. -/
theorem Allocated.injective (hm : m.Allocated pool) (hpool : pool.Nodup) (h : m.find n = some r)
    (h' : m.find n' = some r) : n = n' := by
  have hnodup : (m.entries.map Prod.snd).Nodup := by
    rw [hm.members]
    exact List.nodup_reverse.2 ((List.take_sublist _ _).nodup hpool)
  obtain ⟨e, he, rfl⟩ := Option.map_eq_some_iff.1 h
  obtain ⟨e', he', heq⟩ := Option.map_eq_some_iff.1 h'
  have hsame : e = e' :=
    List.inj_on_of_nodup_map hnodup (List.mem_of_find?_eq_some he) (List.mem_of_find?_eq_some he')
      heq.symm
  have hn : e.1 = n := by simpa using List.find?_some he
  have hn' : e'.1 = n' := by simpa using List.find?_some he'
  rw [← hn, ← hn', hsame]

/-- No more names have a member than there are members. -/
theorem Allocated.length_le (hm : m.Allocated pool) {names : List ν} (hnodup : names.Nodup)
    (h : ∀ n ∈ names, (m.find n).isSome = true) : names.length ≤ pool.length := by
  have hsub : names ⊆ m.entries.map Prod.fst := by
    intro n hn
    obtain ⟨r, hr⟩ := Option.isSome_iff_exists.1 (h n hn)
    obtain ⟨e, he, -⟩ := Option.map_eq_some_iff.1 hr
    have hname : e.1 = n := by simpa using List.find?_some he
    exact hname ▸ List.mem_map_of_mem (List.mem_of_find?_eq_some he)
  calc names.length ≤ (m.entries.map Prod.fst).length :=
        (List.subperm_of_subset hnodup hsub).length_le
    _ = (m.entries.map Prod.snd).length := by rw [List.length_map, List.length_map]
    _ = (pool.take m.next).length := by rw [hm.members, List.length_reverse]
    _ ≤ pool.length := List.length_take_le' _ _

end Map

end Pool
