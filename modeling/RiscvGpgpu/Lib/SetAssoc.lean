import Mathlib.Data.List.FinRange
import Mathlib.Logic.Function.Basic

/-!
# Set-associative caches

A cache of `n` ways over sets `S`, with tags `T` and lines of words `V` indexed by `I`. An access
comes split into its set, its tag and its word index. `Unique` says that no set holds a tag twice,
`Agrees` that every valid word is the word of a backing memory, but for a set of stale ones; both
are followed through fills, write-through stores and stores that go past the cache.
-/

structure SetAssoc (n : ℕ) (S T I V : Type) where
  valid : Fin n → S → Bool
  tag : Fin n → S → T
  data : Fin n → S → I → V
  victim : S → Fin n

namespace SetAssoc

variable {n : ℕ} {S T I V : Type}

/-- Way `w` of set `s` is valid and has tag `t`. -/
def Holds (c : SetAssoc n S T I V) (w : Fin n) (s : S) (t : T) : Prop :=
  c.valid w s = true ∧ c.tag w s = t

instance [DecidableEq T] (c : SetAssoc n S T I V) (w : Fin n) (s : S) (t : T) :
    Decidable (c.Holds w s t) :=
  inferInstanceAs (Decidable (_ ∧ _))

/-- The last of the ways that hold the tag. -/
def lookup [DecidableEq T] (c : SetAssoc n S T I V) (s : S) (t : T) : Option (Fin n) :=
  (List.finRange n).foldl (fun r w => if c.Holds w s t then some w else r) none

/-- Replace the victim of a set by a line. -/
def fill [DecidableEq S] (c : SetAssoc n S T I V) (s : S) (t : T) (line : I → V)
    (next : Fin n) : SetAssoc n S T I V where
  valid := fun w' s' => if w' = c.victim s ∧ s' = s then true else c.valid w' s'
  tag := fun w' s' => if w' = c.victim s ∧ s' = s then t else c.tag w' s'
  data := fun w' s' => if w' = c.victim s ∧ s' = s then line else c.data w' s'
  victim := Function.update c.victim s next

/-- Replace one word of a resident line. -/
def write [DecidableEq S] [DecidableEq I] (c : SetAssoc n S T I V) (w : Fin n) (s : S) (i : I)
    (v : V) : SetAssoc n S T I V :=
  { c with data := fun w' s' i' => if w' = w ∧ s' = s ∧ i' = i then v else c.data w' s' i' }

/-- Invalidate every line. -/
def clear (c : SetAssoc n S T I V) (w : Fin n) : SetAssoc n S T I V :=
  { c with
    valid := fun _ _ => false
    victim := fun _ => w }

section Store

variable [DecidableEq S] [DecidableEq T] [DecidableEq I]

/-- Write through: update the word where it is resident, allocate nothing. -/
def store (c : SetAssoc n S T I V) (s : S) (t : T) (i : I) (v : V) : SetAssoc n S T I V :=
  match c.lookup s t with
  | some w => c.write w s i v
  | none => c

theorem store_of_lookup {c : SetAssoc n S T I V} {s : S} {t : T} {w : Fin n}
    (h : c.lookup s t = some w) (i : I) (v : V) : c.store s t i v = c.write w s i v := by
  rw [store, h]

theorem store_of_miss {c : SetAssoc n S T I V} {s : S} {t : T} (h : c.lookup s t = none) (i : I)
    (v : V) : c.store s t i v = c := by
  rw [store, h]

end Store

/-! ## Lookup -/

section Lookup

variable [DecidableEq T] {c : SetAssoc n S T I V} {s : S} {t : T} {w : Fin n}

theorem foldl_lookup (ws : List (Fin n)) (r : Option (Fin n)) :
    let res := ws.foldl (fun r w => if c.Holds w s t then some w else r) r
    (∀ w, res = some w → r = some w ∨ c.Holds w s t) ∧
      (res = none → r = none ∧ ∀ w ∈ ws, ¬ c.Holds w s t) := by
  induction ws generalizing r with
  | nil => exact ⟨fun w h => .inl h, fun h => ⟨h, by simp⟩⟩
  | cons x ws ih =>
    rw [List.foldl_cons]
    by_cases hx : c.Holds x s t
    · rw [if_pos hx]
      obtain ⟨hsome, hnone⟩ := ih (some x)
      refine ⟨fun w h => ?_, fun h => ?_⟩
      · obtain hw | hw := hsome w h
        · exact .inr (Option.some.inj hw ▸ hx)
        · exact .inr hw
      · exact absurd (hnone h).1 (by simp)
    · rw [if_neg hx]
      obtain ⟨hsome, hnone⟩ := ih r
      refine ⟨hsome, fun h => ⟨(hnone h).1, fun w hw => ?_⟩⟩
      obtain rfl | hw := List.mem_cons.1 hw
      · exact hx
      · exact (hnone h).2 w hw

theorem holds_of_lookup (h : c.lookup s t = some w) : c.Holds w s t :=
  ((foldl_lookup _ _).1 w h).resolve_left (by simp)

theorem not_holds_of_lookup (h : c.lookup s t = none) (w : Fin n) : ¬ c.Holds w s t :=
  ((foldl_lookup _ _).2 h).2 w (List.mem_finRange w)

end Lookup

/-! ## No tag twice -/

/-- Within a set no tag is held by two valid ways. -/
def Unique (c : SetAssoc n S T I V) : Prop :=
  ∀ s w w', c.valid w s = true → c.valid w' s = true → c.tag w s = c.tag w' s → w = w'

section Unique

variable {c : SetAssoc n S T I V} {s : S} {t : T}

theorem unique_clear (c : SetAssoc n S T I V) (w : Fin n) : (c.clear w).Unique :=
  fun _ _ _ h => absurd h Bool.false_ne_true

variable [DecidableEq S]

theorem Unique.write [DecidableEq I] (h : c.Unique) (w : Fin n) (s : S) (i : I) (v : V) :
    (c.write w s i v).Unique := h

variable [DecidableEq T]

/-- A fill after a miss brings no tag in twice. -/
theorem Unique.fill (h : c.Unique) (hmiss : c.lookup s t = none) (line : I → V) (next : Fin n) :
    (c.fill s t line next).Unique := by
  intro s' w w' hv hv' ht
  simp only [SetAssoc.fill] at hv hv' ht
  have hnot := not_holds_of_lookup hmiss
  by_cases hs : s' = s
  · subst hs
    by_cases hw : w = c.victim s' <;> by_cases hw' : w' = c.victim s'
    · rw [hw, hw']
    · simp only [hw, hw', and_true, if_true, and_self, if_false] at hv' ht
      exact absurd ⟨hv', ht.symm⟩ (hnot w')
    · simp only [hw, hw', and_true, if_true, and_self, if_false] at hv ht
      exact absurd ⟨hv, ht⟩ (hnot w)
    · simp only [hw, hw', if_false, false_and] at hv hv' ht
      exact h s' w w' hv hv' ht
  · simp only [hs, and_false, if_false] at hv hv' ht
    exact h s' w w' hv hv' ht

variable [DecidableEq I]

theorem Unique.store (h : c.Unique) (s : S) (t : T) (i : I) (v : V) : (c.store s t i v).Unique := by
  unfold SetAssoc.store
  split
  · exact h.write _ _ _ _
  · exact h

end Unique

/-! ## Agreement with a backing memory -/

/-- The memory with one word replaced. -/
def setWord [DecidableEq S] [DecidableEq T] [DecidableEq I] (mem : S → T → I → V)
    (s : S) (t : T) (i : I) (v : V) : S → T → I → V :=
  fun s' t' i' => if s' = s ∧ t' = t ∧ i' = i then v else mem s' t' i'

/-- Every valid word that is not stale is the memory's. -/
def Agrees (c : SetAssoc n S T I V) (mem : S → T → I → V) (stale : S → T → I → Prop) : Prop :=
  ∀ w s i, c.valid w s = true → ¬ stale s (c.tag w s) i → c.data w s i = mem s (c.tag w s) i

section Agrees

variable {c : SetAssoc n S T I V} {mem : S → T → I → V} {stale stale' : S → T → I → Prop} {s : S}
  {t : T} {i : I} {v : V}

theorem agrees_clear (c : SetAssoc n S T I V) (w : Fin n) (mem : S → T → I → V)
    (stale : S → T → I → Prop) : (c.clear w).Agrees mem stale :=
  fun _ _ _ h => absurd h Bool.false_ne_true

theorem Agrees.mono (h : c.Agrees mem stale) (hle : ∀ s t i, stale s t i → stale' s t i) :
    c.Agrees mem stale' :=
  fun w s i hv hs => h w s i hv fun hst => hs (hle _ _ _ hst)

variable [DecidableEq T]

theorem Agrees.of_lookup (h : c.Agrees mem stale) {w : Fin n} (hw : c.lookup s t = some w)
    (hs : ¬ stale s t i) : c.data w s i = mem s t i := by
  obtain ⟨hv, ht⟩ := holds_of_lookup hw
  have := h w s i hv (by rwa [ht])
  rwa [ht] at this

variable [DecidableEq S]

/-- After a miss, a fill with the memory's line refreshes all its words. -/
theorem Agrees.fill (h : c.Agrees mem stale) (hmiss : c.lookup s t = none) {line : I → V}
    (hline : ∀ i, line i = mem s t i) (next : Fin n) :
    (c.fill s t line next).Agrees mem fun s' t' i' => stale s' t' i' ∧ ¬ (s' = s ∧ t' = t) := by
  intro w s' i hv hs
  simp only [SetAssoc.fill] at hv hs ⊢
  by_cases hw : w = c.victim s ∧ s' = s
  · simp only [hw, and_self, if_true]
    exact hline i
  · rw [if_neg hw] at hv hs ⊢
    rw [if_neg hw]
    by_cases hst : stale s' (c.tag w s') i
    · -- a stale word of the line itself would have been a hit
      have hsame := not_not.1 fun hne => hs ⟨hst, hne⟩
      obtain ⟨rfl, ht⟩ := hsame
      exact absurd ⟨hv, ht⟩ (not_holds_of_lookup hmiss w)
    · exact h w s' i hv hst

variable [DecidableEq I]

/-- A write-through store refreshes its word. -/
theorem Agrees.store (h : c.Agrees mem stale) (hu : c.Unique) :
    (c.store s t i v).Agrees (setWord mem s t i v) fun s' t' i' =>
      stale s' t' i' ∧ ¬ (s' = s ∧ t' = t ∧ i' = i) := by
  intro w s' i' hv hs
  unfold setWord
  cases hl : c.lookup s t with
  | none =>
    rw [store_of_miss hl] at hv hs ⊢
    have hne : ¬ (s' = s ∧ c.tag w s' = t ∧ i' = i) := by
      rintro ⟨rfl, ht, rfl⟩
      exact not_holds_of_lookup hl w ⟨hv, ht⟩
    rw [if_neg hne]
    exact h w s' i' hv fun hst => hs ⟨hst, hne⟩
  | some w₀ =>
    rw [store_of_lookup hl] at hv hs ⊢
    change c.valid w s' = true at hv
    change ¬ (stale s' (c.tag w s') i' ∧ ¬ (s' = s ∧ c.tag w s' = t ∧ i' = i)) at hs
    change (if w = w₀ ∧ s' = s ∧ i' = i then v else c.data w s' i') =
      if s' = s ∧ c.tag w s' = t ∧ i' = i then v else mem s' (c.tag w s') i'
    obtain ⟨hv₀, ht₀⟩ := holds_of_lookup hl
    by_cases heq : w = w₀ ∧ s' = s ∧ i' = i
    · obtain ⟨rfl, rfl, rfl⟩ := heq
      simp [ht₀]
    · have hne : ¬ (s' = s ∧ c.tag w s' = t ∧ i' = i) := by
        rintro ⟨rfl, ht, rfl⟩
        exact heq ⟨hu s' w w₀ hv hv₀ (ht.trans ht₀.symm), rfl, rfl⟩
      rw [if_neg heq, if_neg hne]
      exact h w s' i' hv fun hst => hs ⟨hst, hne⟩

/-- A store past the cache makes its word stale. -/
theorem Agrees.store_past (h : c.Agrees mem stale) :
    c.Agrees (setWord mem s t i v) fun s' t' i' => stale s' t' i' ∨ (s' = s ∧ t' = t ∧ i' = i) := by
  intro w s' i' hv hs
  unfold setWord
  rw [if_neg (fun heq => hs (.inr heq))]
  exact h w s' i' hv fun hst => hs (.inl hst)

end Agrees

end SetAssoc
