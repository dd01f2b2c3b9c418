import RiscvGpgpu.Ptx.NegatedMinimum

/-!
# How the parser ends

Every loop of the parser takes a token, so the parser always ends. It throws on a number that is out
of range and otherwise returns a kernel with a name or an error with a text, unless it negates the
least 64-bit number.
-/

namespace RiscvGpgpu.Ptx

open Text (stoll)

/-- The parser returns a kernel with a name, or no kernel and an error. -/
def Total (stod : Stod) (text : List Char) : Prop :=
  ∃ k lastError, parse stod text = .returns k lastError ∧
    (k.name ≠ [] ∨ k.name = [] ∧ lastError ≠ [])

/-- Every number of the text can be converted. -/
def InRange (stod : Stod) (text : List Char) : Prop :=
  ∀ t ∈ lex text, (t.convert stod).isSome = true

/-- In the body of the first kernel the least 64-bit number is negated. -/
def NegatesMinimum (stod : Stod) (text : List Char) : Prop :=
  ∃ ts body, tokenize stod text = some ts ∧ EntryBodyAt {} ts body ∧ BodyNegates body

theorem isSome_mapM {α β : Type} {f : α → Option β} {l : List α} :
    (l.mapM f).isSome = true ↔ ∀ a ∈ l, (f a).isSome = true := by
  induction l with
  | nil => simp
  | cons a l ih =>
    rw [List.mapM_cons, List.forall_mem_cons, ← ih]
    cases f a with
    | none => simp
    | some b => cases l.mapM f <;> simp

theorem isSome_tokenize {stod : Stod} {text : List Char} :
    (tokenize stod text).isSome = true ↔ InRange stod text := by
  rw [tokenize, Option.isSome_map, isSome_mapM]
  rfl

theorem parse_throws {stod : Stod} {text : List Char} (h : ¬ InRange stod text) :
    parse stod text = .throws := by
  rw [← isSome_tokenize, Option.isSome_iff_ne_none, not_not] at h
  rw [parse, h]

/-- A text whose numbers are in range is parsed, unless the least 64-bit number is negated. -/
theorem parse_total {stod : Stod} {text : List Char} {ts : List Token}
    (hts : tokenize stod text = some ts) (hneg : parseEntry {} ts ≠ .undefined) :
    Total stod text := by
  have hreports := parseEntry_reports {} ts
  cases hentry : parseEntry {} ts with
  | ok k rest =>
    refine ⟨k, [], ?_, .inl (parseEntry_name (tokenize_word hts) hentry)⟩
    rw [parse, hts]
    dsimp only
    rw [hentry]
  | error message =>
    rw [hentry] at hreports
    refine ⟨{}, message, ?_, .inr ⟨rfl, hreports⟩⟩
    rw [parse, hts]
    dsimp only
    rw [hentry]
  | undefined => exact absurd hentry hneg

theorem parse_undefined {stod : Stod} {text : List Char} (h : NegatesMinimum stod text) :
    parse stod text = .undefined := by
  obtain ⟨ts, body, hts, hentry, hbody⟩ := h
  rw [parse, hts]
  dsimp only
  rw [parseEntry_eq_undefined_iff.2 ⟨body, hentry, hbody⟩]

/-- The parser is total exactly on the texts whose numbers are in range and in which it does not
negate the least number. -/
theorem total_iff_inRange_not_negates (stod : Stod) (text : List Char) :
    Total stod text ↔ InRange stod text ∧ ¬ NegatesMinimum stod text := by
  constructor
  · rintro ⟨k, lastError, hparse, -⟩
    constructor
    · apply by_contra
      intro hrange
      rw [parse_throws hrange] at hparse
      exact absurd hparse (by simp)
    · intro hneg
      rw [parse_undefined hneg] at hparse
      exact absurd hparse (by simp)
  · rintro ⟨hrange, hneg⟩
    obtain ⟨ts, hts⟩ := Option.isSome_iff_exists.1 (isSome_tokenize.2 hrange)
    apply parse_total hts
    intro hundefined
    obtain ⟨body, hentry, hbody⟩ := parseEntry_eq_undefined_iff.1 hundefined
    exact hneg ⟨ts, body, hts, hentry, hbody⟩

/-- The number 99999999999999999999 makes `std::stoll` throw, whatever `std::stod` does. -/
theorem not_total : ¬ ∃ stod : Stod, Total stod "99999999999999999999".toList := by
  rintro ⟨stod, k, lastError, hparse, -⟩
  have hlex : lex "99999999999999999999".toList =
      [{ type := .int, text := "99999999999999999999".toList }] := by
    show lex ('9' :: "9999999999999999999".toList) = _
    rw [lex, if_neg (by decide), if_neg (by decide), if_neg (by decide)]
    have hrest : (lexToken '9' "9999999999999999999".toList).2 = [] := by decide
    have htoken : (lexToken '9' "9999999999999999999".toList).1 =
        some { type := .int, text := "99999999999999999999".toList } := by decide
    rw [hrest, htoken, lex]
    rfl
  have hrange : ¬ InRange stod "99999999999999999999".toList := by
    intro hrange
    have hconvert := hrange _ (hlex ▸ List.mem_singleton_self _)
    have hstoll : stoll "99999999999999999999".toList = none := by decide
    rw [Token.convert, hstoll] at hconvert
    exact absurd hconvert Bool.false_ne_true
  rw [parse_throws hrange] at hparse
  exact absurd hparse (by simp)

end RiscvGpgpu.Ptx
