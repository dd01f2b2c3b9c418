import Mathlib.Algebra.Group.Int.Defs
import Mathlib.Algebra.Group.Nat.Defs
import Mathlib.Data.List.Basic
import Mathlib.Data.Int.Notation
import Mathlib.Tactic.Common

/-!
# Text

Strings as lists of characters. `find` gives what follows from the first occurrence of a pattern on,
`lines` what repeated `getline` yields, `words` what repeated `>>` yields, `stoull` a number as
`std::stoull` reads it.
-/

namespace Text

/-! ## Searching -/

/-- The rest of a text from the first occurrence of `pat` on. -/
def find (pat : List Char) : List Char → Option (List Char)
  | [] => if pat = [] then some [] else none
  | c :: cs => if pat.isPrefixOf (c :: cs) then some (c :: cs) else find pat cs

section Find

variable {pat u t : List Char} {c : Char}

/-- A pattern does not begin in a text without its first character. -/
theorem find_append_of_notMem (h : c ∉ u) : find (c :: pat) (u ++ t) = find (c :: pat) t := by
  induction u with
  | nil => rfl
  | cons d u ih =>
    rw [List.mem_cons, not_or] at h
    have hne : (c :: pat).isPrefixOf (d :: (u ++ t)) = false := by
      rw [List.isPrefixOf, beq_false_of_ne h.1, Bool.false_and]
    rw [List.cons_append, find, hne, if_neg (by simp), ih h.2]

theorem find_of_notMem (h : c ∉ t) : find (c :: pat) t = none := by
  have heq : find (c :: pat) (t ++ []) = find (c :: pat) [] := find_append_of_notMem h
  rwa [List.append_nil] at heq

theorem find_of_begins (ht : pat <+: t) : find pat t = some t := by
  cases t with
  | nil => rw [find, if_pos (List.prefix_nil.1 ht)]
  | cons c t => rw [find, if_pos (List.isPrefixOf_iff_prefix.2 ht)]

theorem find_cons_of_not_begins {t : List Char} (ht : ¬ pat <+: c :: t) :
    find pat (c :: t) = find pat t := by
  rw [find, if_neg (mt List.isPrefixOf_iff_prefix.1 ht)]

theorem find_suffix (h : find pat t = some u) : u <:+ t := by
  induction t with
  | nil =>
    unfold find at h
    split_ifs at h
    exact Option.some.inj h ▸ List.suffix_refl _
  | cons c t ih =>
    unfold find at h
    split_ifs at h
    · exact Option.some.inj h ▸ List.suffix_refl _
    · exact (ih h).trans (List.suffix_cons c t)

end Find

/-- A text up to the next `c`, if there is one. -/
def until? (c : Char) (t : List Char) : Option (List Char) :=
  if c ∈ t then some (t.takeWhile (· != c)) else none

theorem until?_append {c : Char} {u t : List Char} (h : c ∉ u) :
    until? c (u ++ c :: t) = some u := by
  have htake : (u ++ c :: t).takeWhile (· != c) = u := by
    rw [List.takeWhile_append_of_pos, List.takeWhile_cons_of_neg (by simp), List.append_nil]
    intro d hd
    exact bne_iff_ne.2 fun heq => h (heq ▸ hd)
  rw [until?, if_pos (by simp), htake]

/-- What stands before the next `c` is a part of the text without it. -/
theorem until?_some {c : Char} {u t : List Char} (h : until? c t = some u) :
    c ∉ u ∧ ∀ d ∈ u, d ∈ t := by
  unfold until? at h
  split_ifs at h
  obtain rfl := Option.some.inj h
  refine ⟨fun hc => ?_, fun d hd => (List.takeWhile_prefix _).subset hd⟩
  exact absurd (List.all_eq_true.1 List.all_takeWhile c hc) (by simp)

/-! ## Quoted pieces -/

/-- `"key"`. -/
def quoted (key : List Char) : List Char := '"' :: (key ++ ['"'])

section Quoted

variable {key u t : List Char}

theorem quoted_prefix_iff (hkey : '"' ∉ key) (hu : '"' ∉ u) :
    quoted key <+: '"' :: (u ++ '"' :: t) ↔ key = u := by
  constructor
  · rintro ⟨rest, heq⟩
    have htail : key ++ '"' :: rest = u ++ '"' :: t := by
      have happ : key ++ ['"'] ++ rest = u ++ '"' :: t := List.tail_eq_of_cons_eq heq
      rwa [List.append_assoc] at happ
    have hk := until?_append (t := rest) hkey
    rw [htail, until?_append hu] at hk
    exact (Option.some.inj hk).symm
  · rintro rfl
    exact ⟨t, by simp [quoted]⟩

/-- The key is not the piece, so it can begin at the closing quote at the earliest. -/
theorem find_quoted_of_ne (hkey : '"' ∉ key) (hu : '"' ∉ u) (hne : key ≠ u) :
    find (quoted key) ('"' :: (u ++ '"' :: t)) = find (quoted key) ('"' :: t) := by
  rw [find_cons_of_not_begins (mt (quoted_prefix_iff hkey hu).1 hne), quoted,
    find_append_of_notMem hu]

/-- With one quote left there is no room for a key. -/
theorem find_quoted_last (ht : '"' ∉ t) : find (quoted key) ('"' :: t) = none := by
  have hnot : ¬ quoted key <+: '"' :: t := by
    rintro ⟨rest, heq⟩
    have htail := List.tail_eq_of_cons_eq heq
    exact ht (htail ▸ by simp)
  rw [find_cons_of_not_begins hnot, quoted, find_of_notMem ht]

theorem find_quoted_self (hu : '"' ∉ u) :
    find (quoted u) ('"' :: (u ++ '"' :: t)) = some ('"' :: (u ++ '"' :: t)) :=
  find_of_begins ((quoted_prefix_iff hu hu).2 rfl)

end Quoted

/-! ## Lines and words -/

/-- The lines that `getline` yields; a line end at the end of the text begins no further line. -/
def lines : List Char → List (List Char)
  | [] => []
  | c :: cs =>
    if c = '\n' then [] :: lines cs
    else
      match lines cs with
      | [] => [[c]]
      | l :: ls => (c :: l) :: ls

theorem lines_append {l t : List Char} (hl : '\n' ∉ l) : lines (l ++ '\n' :: t) = l :: lines t := by
  induction l with
  | nil => rfl
  | cons c l ih =>
    rw [List.mem_cons, not_or] at hl
    rw [List.cons_append, lines, if_neg (Ne.symm hl.1), ih hl.2]

theorem notMem_lines {t : List Char} : ∀ l ∈ lines t, '\n' ∉ l := by
  induction t with
  | nil => exact fun _ h => absurd h (by simp [lines])
  | cons c t ih =>
    unfold lines
    split_ifs with hc
    · intro l hl
      rcases List.mem_cons.1 hl with rfl | hl
      · simp
      · exact ih l hl
    · split
      · intro l hl
        rw [List.mem_singleton.1 hl]
        simpa using Ne.symm hc
      · next l ls heq =>
        rw [heq] at ih
        intro k hk
        rcases List.mem_cons.1 hk with rfl | hk
        · rw [List.mem_cons, not_or]
          exact ⟨Ne.symm hc, ih l (by simp)⟩
        · exact ih k (by simp [hk])

/-- `isspace`. -/
def isSpace (c : Char) : Bool :=
  c = ' ' || c = '\t' || c = '\n' || c = '\x0b' || c = '\x0c' || c = '\r'

/-- The words that `>>` yields. -/
def words (t : List Char) : List (List Char) := (t.splitOnP isSpace).filter (· ≠ [])

def trim (t : List Char) : List Char :=
  ((t.dropWhile isSpace).reverse.dropWhile isSpace).reverse

/-! ## Numbers -/

/-- The digits behind the sign; out of range is an exception. -/
def stoullDigits (t : List Char) : Option (BitVec 64) :=
  let ds := t.takeWhile Char.isDigit
  if ds = [] then none
  else if Nat.ofDigitChars 10 ds 0 < 2 ^ 64 then some (BitVec.ofNat 64 (Nat.ofDigitChars 10 ds 0))
  else none

/-- `std::stoull`; a minus sign negates the number that follows. -/
def stoull (t : List Char) : Option (BitVec 64) :=
  match t.dropWhile isSpace with
  | '-' :: cs => (stoullDigits cs).map (-·)
  | '+' :: cs => stoullDigits cs
  | cs => stoullDigits cs

def isXDigit (c : Char) : Bool :=
  c.isDigit || ('a' ≤ c && c ≤ 'f') || ('A' ≤ c && c ≤ 'F')

/-- The value of a hexadecimal digit. -/
def xDigitValue (c : Char) : ℕ :=
  if c.isDigit then c.toNat - '0'.toNat
  else if 'a' ≤ c then c.toNat - 'a'.toNat + 10
  else c.toNat - 'A'.toNat + 10

def ofXDigits (ds : List Char) : ℕ := ds.foldl (fun v c => 16 * v + xDigitValue c) 0

/-- The digits behind the sign in base 0: the base is told by what they begin with. -/
def magnitude (t : List Char) : ℕ :=
  match t with
  | '0' :: x :: ds =>
    if (x = 'x' || x = 'X') && (ds.takeWhile isXDigit).length ≠ 0 then
      ofXDigits (ds.takeWhile isXDigit)
    else Nat.ofDigitChars 8 ((x :: ds).takeWhile fun c => '0' ≤ c && c ≤ '7') 0
  | ds => Nat.ofDigitChars 10 (ds.takeWhile Char.isDigit) 0

/-- `std::stoll` in base 0 of a text that begins with a digit, perhaps behind a minus sign; out of
range is an exception. -/
def stoll (t : List Char) : Option ℤ :=
  let v : ℤ :=
    match t with
    | '-' :: ds => -(magnitude ds : ℤ)
    | ds => magnitude ds
  if -2 ^ 63 ≤ v ∧ v < 2 ^ 63 then some v else none

/-- A number as `<<` prints it. -/
def decimal (n : ℕ) : List Char := Nat.toDigits 10 n

section Numbers

variable {n : ℕ} {t : List Char}

theorem isDigit_of_mem_decimal {c : Char} (h : c ∈ decimal n) : c.isDigit = true :=
  Nat.isDigit_of_mem_toDigits (by decide) (by decide) h

theorem notMem_decimal {c : Char} (hc : c.isDigit = false) : c ∉ decimal n := by
  intro h
  exact absurd (isDigit_of_mem_decimal h) (by simp [hc])

theorem takeWhile_decimal (ht : ∀ c ∈ t.head?, c.isDigit = false) :
    (decimal n ++ t).takeWhile Char.isDigit = decimal n := by
  rw [List.takeWhile_append_of_pos fun c hc => isDigit_of_mem_decimal hc]
  cases t with
  | nil => simp
  | cons c t => rw [List.takeWhile_cons_of_neg (by simp [ht c rfl]), List.append_nil]

theorem stoullDigits_decimal (hn : n < 2 ^ 64) (ht : ∀ c ∈ t.head?, c.isDigit = false) :
    stoullDigits (decimal n ++ t) = some (BitVec.ofNat 64 n) := by
  have hvalue : Nat.ofDigitChars 10 (decimal n) 0 = n := Nat.ofDigitChars_ten_toDigits
  have hne : decimal n ≠ [] := Nat.toDigits_ne_nil
  unfold stoullDigits
  rw [takeWhile_decimal ht]
  dsimp only
  rw [if_neg hne, hvalue, if_pos hn]

theorem not_isSpace_of_isDigit {c : Char} (h : c.isDigit = true) : isSpace c = false := by
  unfold isSpace
  simp only [Bool.or_eq_false_iff, decide_eq_false_iff_not]
  refine ⟨⟨⟨⟨⟨?_, ?_⟩, ?_⟩, ?_⟩, ?_⟩, ?_⟩ <;>
  · rintro rfl
    exact absurd h (by decide)

/-- Trimming takes the space off in front of a number, and nothing else. -/
theorem trim_space_decimal (ht : ∀ c ∈ t, isSpace c = false) :
    trim (' ' :: (decimal n ++ t)) = decimal n ++ t := by
  have hall : ∀ c ∈ decimal n ++ t, isSpace c = false := by
    intro c hc
    rcases List.mem_append.1 hc with hc | hc
    · exact not_isSpace_of_isDigit (isDigit_of_mem_decimal hc)
    · exact ht c hc
  have hdrop : ∀ l : List Char, (∀ c ∈ l, isSpace c = false) → l.dropWhile isSpace = l := by
    intro l hl
    cases l with
    | nil => rfl
    | cons c l => exact List.dropWhile_cons_of_neg (by simp [hl c List.mem_cons_self])
  unfold trim
  rw [List.dropWhile_cons_of_pos (by decide), hdrop _ hall,
    hdrop _ fun c hc => hall c (List.mem_reverse.1 hc), List.reverse_reverse]

/-- A number that is printed is read back. -/
theorem stoull_decimal (hn : n < 2 ^ 64) (ht : ∀ c ∈ t.head?, c.isDigit = false) :
    stoull (decimal n ++ t) = some (BitVec.ofNat 64 n) := by
  obtain ⟨c, cs, hcons⟩ := List.exists_cons_of_ne_nil (Nat.toDigits_ne_nil (b := 10) (n := n))
  have hdigit : c.isDigit = true := by
    refine isDigit_of_mem_decimal (n := n) ?_
    rw [decimal, hcons]
    exact List.mem_cons_self
  have hspace := not_isSpace_of_isDigit hdigit
  have hcons' : decimal n ++ t = c :: (cs ++ t) := by
    show Nat.toDigits 10 n ++ t = _
    rw [hcons, List.cons_append]
  have hread := stoullDigits_decimal hn ht
  unfold stoull
  rw [hcons', List.dropWhile_cons_of_neg (by simp [hspace]), ← hcons']
  split
  · next ds heq =>
    obtain ⟨rfl, -⟩ := List.cons.inj (hcons'.symm.trans heq)
    exact absurd hdigit (by decide)
  · next ds heq =>
    obtain ⟨rfl, -⟩ := List.cons.inj (hcons'.symm.trans heq)
    exact absurd hdigit (by decide)
  · exact hread

end Numbers

end Text
