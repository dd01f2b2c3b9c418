import RiscvGpgpu.Lib.Text
import Mathlib.Data.Nat.Basic

/-!
# The PTX parser

`ptx_parser.h` and `ptx_parser.cpp`. The cursor is the list of the tokens that are left. Doubles are
their bits and `std::stod` is a parameter; it may throw, and so may `std::stoll`. The negation of
the least 64-bit number is undefined.
-/

namespace RiscvGpgpu.Ptx

open Text (isSpace isXDigit stoll)

/-! ## The syntax tree -/

namespace PtxOperand

inductive Kind where
  | reg
  | specialReg
  | intImm
  | fltImm
  | label
  | memRef
deriving DecidableEq, Repr

end PtxOperand

/-- Registers, special registers and labels are without their `%` or `$`. -/
structure PtxOperand where
  kind : PtxOperand.Kind := .intImm
  name : List Char := []
  intVal : ℤ := 0
  fltVal : BitVec 64 := 0
  memBase : List Char := []
  paramName : List Char := []
  memOffset : ℤ := 0
deriving DecidableEq, Repr

structure PtxParam where
  space : List Char := []
  name : List Char := []
  pointerSpace : List Char := []
  index : BitVec 32 := 0
  alignment : BitVec 32 := 0
  isPointer : Bool := false
deriving DecidableEq, Repr

structure PtxRegDecl where
  regPrefix : List Char
  type : List Char
  count : BitVec 32
deriving DecidableEq, Repr

/-- A label definition if the label is not empty. -/
structure PtxInstr where
  label : List Char := []
  pred : List Char := []
  predNot : Bool := false
  op : List Char := []
  operands : List PtxOperand := []
deriving DecidableEq, Repr

structure PtxKernel where
  name : List Char := []
  addressSize : BitVec 32 := 32
  addressSizeSeen : Bool := false
  params : List PtxParam := []
  regDecls : List PtxRegDecl := []
  body : List PtxInstr := []
deriving DecidableEq, Repr

/-! ## Tokens -/

/-- Token types. -/
inductive TK where
  | word | percent | dollar
  | int | float
  | lparen | rparen
  | lbrace | rbrace
  | langle | rangle
  | lbracket | rbracket
  | comma | semicolon | colon
  | atSign | bang | plus | minus
  | endOfText
deriving DecidableEq, Repr

structure Token where
  type : TK
  text : List Char := []
  ival : ℤ := 0
  fval : BitVec 64 := 0
deriving DecidableEq, Repr

def isWordChar (c : Char) : Bool := c.isAlphanum || c = '_' || c = '.'

def isLabelChar (c : Char) : Bool := c.isAlphanum || c = '_'

/-- Behind a block comment. One that is not closed ends in front of the last character. -/
def skipBlockComment : List Char → List Char
  | '*' :: '/' :: cs => cs
  | [] => []
  | [c] => [c]
  | _ :: c :: cs => skipBlockComment (c :: cs)

/-- The fraction of a number, if it has one, and what follows. -/
def lexFraction : List Char → List Char × List Char
  | '.' :: cs => ('.' :: cs.takeWhile Char.isDigit, cs.dropWhile Char.isDigit)
  | cs => ([], cs)

/-- The exponent of a number, if it has one, and what follows. -/
def lexExponent : List Char → List Char × List Char
  | [] => ([], [])
  | c :: cs =>
    if c = 'e' || c = 'E' then
      match cs with
      | s :: ds =>
        if s = '+' || s = '-' then
          (c :: s :: ds.takeWhile Char.isDigit, ds.dropWhile Char.isDigit)
        else (c :: cs.takeWhile Char.isDigit, cs.dropWhile Char.isDigit)
      | [] => ([c], [])
    else ([], c :: cs)

/-- The digits of a number: whether it is a float, its text and what follows. -/
def lexDigits (cs : List Char) : Bool × List Char × List Char :=
  match cs with
  | '0' :: x :: ds =>
    if x = 'x' || x = 'X' then
      (false, '0' :: x :: ds.takeWhile isXDigit, ds.dropWhile isXDigit)
    else lexDecimal cs
  | _ => lexDecimal cs
where
  lexDecimal (cs : List Char) : Bool × List Char × List Char :=
    let ds := cs.takeWhile Char.isDigit
    let fraction := lexFraction (cs.dropWhile Char.isDigit)
    let exponent := lexExponent fraction.2
    (fraction.1 ≠ [] || exponent.1 ≠ [], ds ++ fraction.1 ++ exponent.1, exponent.2)

/-- A number with its sign. -/
def lexNumber (cs : List Char) : Bool × List Char × List Char :=
  match cs with
  | '-' :: ds => ((lexDigits ds).1, '-' :: (lexDigits ds).2.1, (lexDigits ds).2.2)
  | ds => lexDigits ds

/-- The type of a token of one character. -/
def punctuation (c : Char) : Option TK :=
  match c with
  | '(' => some .lparen
  | ')' => some .rparen
  | '\x7b' => some .lbrace
  | '\x7d' => some .rbrace
  | '<' => some .langle
  | '>' => some .rangle
  | '[' => some .lbracket
  | ']' => some .rbracket
  | ',' => some .comma
  | ';' => some .semicolon
  | ':' => some .colon
  | '@' => some .atSign
  | '!' => some .bang
  | '+' => some .plus
  | '-' => some .minus
  | _ => none

/-- A number begins here. -/
def startsNumber : List Char → Bool
  | '-' :: d :: _ => d.isDigit
  | c :: _ => c.isDigit
  | [] => false

/-- The token that begins here, with the number in it not yet converted, and what follows; a
character that begins none is skipped. -/
def lexToken (c : Char) (cs : List Char) : Option Token × List Char :=
  if c = '%' then (some { type := .percent, text := cs.takeWhile isWordChar },
    cs.dropWhile isWordChar)
  else if c = '$' then (some { type := .dollar, text := cs.takeWhile isLabelChar },
    cs.dropWhile isLabelChar)
  else if c.isAlpha || c = '_' || c = '.' then
    (some { type := .word, text := c :: cs.takeWhile isWordChar }, cs.dropWhile isWordChar)
  else if startsNumber (c :: cs) then
    let number := lexNumber (c :: cs)
    (some { type := if number.1 then .float else .int, text := number.2.1 }, number.2.2)
  else ((punctuation c).map fun type => { type := type, text := [c] }, cs)

theorem length_dropWhile_le (f : Char → Bool) (cs : List Char) :
    (cs.dropWhile f).length ≤ cs.length := (List.dropWhile_suffix f).length_le

theorem length_skipBlockComment (cs : List Char) :
    (skipBlockComment cs).length ≤ cs.length := by
  induction cs using skipBlockComment.induct with
  | case1 cs =>
    show cs.length ≤ cs.length + 1 + 1
    omega
  | case2 => exact Nat.le_refl _
  | case3 c => simp [skipBlockComment]
  | case4 c d cs hnot ih =>
    rw [skipBlockComment]
    · exact Nat.le_trans ih (Nat.le_succ _)
    · exact hnot

theorem length_lexFraction (cs : List Char) : (lexFraction cs).2.length ≤ cs.length := by
  unfold lexFraction
  split
  · exact Nat.le_trans (length_dropWhile_le _ _) (Nat.le_succ _)
  · exact le_rfl

theorem length_lexExponent (cs : List Char) : (lexExponent cs).2.length ≤ cs.length := by
  unfold lexExponent
  split
  · exact le_rfl
  · next c cs =>
    split_ifs
    · split
      · next s ds =>
        split_ifs
        · exact Nat.le_trans (length_dropWhile_le _ _) (Nat.le_add_right _ 2)
        · exact Nat.le_trans (length_dropWhile_le _ _) (Nat.le_succ _)
      · exact Nat.zero_le _
    · exact le_rfl

theorem length_lexDecimal {c : Char} {cs : List Char} (hc : c.isDigit = true) :
    (lexDigits.lexDecimal (c :: cs)).2.2.length < (c :: cs).length := by
  have hdrop : ((c :: cs).dropWhile Char.isDigit).length ≤ cs.length := by
    rw [List.dropWhile_cons_of_pos hc]
    exact length_dropWhile_le _ _
  exact Nat.lt_succ_of_le
    (Nat.le_trans (length_lexExponent _) (Nat.le_trans (length_lexFraction _) hdrop))

theorem length_lexDigits {c : Char} {cs : List Char} (hc : c.isDigit = true) :
    (lexDigits (c :: cs)).2.2.length < (c :: cs).length := by
  unfold lexDigits
  split
  · next x ds heq =>
    split_ifs
    · obtain ⟨rfl, rfl⟩ := List.cons.inj heq
      exact Nat.lt_succ_of_le (Nat.le_trans (length_dropWhile_le _ _) (Nat.le_succ _))
    · exact length_lexDecimal hc
  · exact length_lexDecimal hc

theorem length_lexNumber {cs : List Char} (h : startsNumber cs = true) :
    (lexNumber cs).2.2.length < cs.length := by
  unfold startsNumber at h
  split at h
  · next d ds => exact Nat.lt_trans (length_lexDigits h) (Nat.lt_succ_self _)
  · next c ds hnot =>
    unfold lexNumber
    split
    · next ds heq =>
      obtain ⟨rfl, rfl⟩ := List.cons.inj heq
      exact absurd h (by decide)
    · exact length_lexDigits h
  · exact absurd h (by decide)

theorem length_lexToken (c : Char) (cs : List Char) : (lexToken c cs).2.length ≤ cs.length := by
  unfold lexToken
  split_ifs with h₁ h₂ h₃ h₄
  · exact length_dropWhile_le _ _
  · exact length_dropWhile_le _ _
  · exact length_dropWhile_le _ _
  · exact Nat.le_of_lt_succ (length_lexNumber h₄)
  · exact le_rfl

/-- The tokens of a text, the numbers in them not yet converted. -/
def lex : List Char → List Token
  | [] => []
  | c :: cs =>
    if isSpace c then lex cs
    else if c = '/' && cs.head? = some '/' then lex (cs.dropWhile (· ≠ '\n'))
    else if c = '/' && cs.head? = some '*' then lex (skipBlockComment cs.tail)
    else (lexToken c cs).1.toList ++ lex (lexToken c cs).2
termination_by cs => cs.length
decreasing_by
  · exact Nat.lt_succ_self _
  · exact Nat.lt_succ_of_le (length_dropWhile_le _ _)
  · exact Nat.lt_succ_of_le (Nat.le_trans (length_skipBlockComment _) (by simp))
  · exact Nat.lt_succ_of_le (length_lexToken _ _)

/-- `std::stod`, on the bits of the double. -/
abbrev Stod := List Char → Option (BitVec 64)

/-- The conversion of the number in a token. -/
def Token.convert (stod : Stod) (t : Token) : Option Token :=
  match t.type with
  | .int => (stoll t.text).map fun v => { t with ival := v }
  | .float => (stod t.text).map fun v => { t with fval := v }
  | _ => some t

def endToken : Token := { type := .endOfText }

def tokenize (stod : Stod) (text : List Char) : Option (List Token) :=
  ((lex text).mapM (Token.convert stod)).map (· ++ [endToken])

/-! ## The cursor -/

def cur (ts : List Token) : Token := ts.headD endToken

/-- What a parse function does: it succeeds and leaves the cursor somewhere, it sets `error_`, or it
overflows a signed number. -/
inductive Parsed (α : Type) where
  | ok (a : α) (rest : List Token)
  | error (message : List Char)
  | undefined
deriving DecidableEq

/-- What is parsed next. -/
def Parsed.bind {α β : Type} (r : Parsed α) (f : α → List Token → Parsed β) : Parsed β :=
  match r with
  | .ok a rest => f a rest
  | .error message => .error message
  | .undefined => .undefined

theorem Parsed.bind_eq_ok {α β : Type} {r : Parsed α} {f : α → List Token → Parsed β} {b : β}
    {rest : List Token} (h : r.bind f = .ok b rest) :
    ∃ a mid, r = .ok a mid ∧ f a mid = .ok b rest := by
  cases r with
  | ok a mid => exact ⟨a, mid, rfl, h⟩
  | error message => exact absurd h (by simp [Parsed.bind])
  | undefined => exact absurd h (by simp [Parsed.bind])

/-- `if (cur().type == type) advance()`. -/
def skip (type : TK) (ts : List Token) : List Token := if (cur ts).type = type then ts.tail else ts

theorem skip_suffix (type : TK) (ts : List Token) : skip type ts <:+ ts := by
  unfold skip
  split
  · exact List.tail_suffix ts
  · exact List.suffix_refl ts

/-- `expect`. -/
def expect {α : Type} (type : TK) (hint : List Char) (a : α) (ts : List Token) : Parsed α :=
  if (cur ts).type ≠ type then
    .error ("Expected ".toList ++ hint ++ " but got '".toList ++ (cur ts).text ++ "'".toList)
  else .ok a ts.tail

/-- `-v` for a 64-bit `v`. -/
def neg64 (v : ℤ) : Option ℤ := if v = -2 ^ 63 then none else some (-v)

/-! ## Operands -/

/-- The end of `parseMemRef`. -/
def closeMemRef (op : PtxOperand) (ts : List Token) : Parsed PtxOperand :=
  if (cur ts).type ≠ .rbracket then
    .error "Expected closing ']' in memory reference".toList
  else .ok op ts.tail

def parseMemRef (ts : List Token) : Parsed PtxOperand :=
  let ts := ts.tail
  match (cur ts).type with
  | .percent =>
    let op : PtxOperand := { kind := .memRef, memBase := (cur ts).text }
    let ts := ts.tail
    match (cur ts).type with
    | .plus =>
      let ts := ts.tail
      if (cur ts).type ≠ .int then .error "Expected immediate memory offset".toList
      else closeMemRef { op with memOffset := (cur ts).ival } ts.tail
    | .minus =>
      let ts := ts.tail
      if (cur ts).type ≠ .int then .error "Expected immediate memory offset".toList
      else
        match neg64 (cur ts).ival with
        | none => .undefined
        | some offset => closeMemRef { op with memOffset := offset } ts.tail
    | .int =>
      if (cur ts).ival < 0 then closeMemRef { op with memOffset := (cur ts).ival } ts.tail
      else closeMemRef op ts
    | _ => closeMemRef op ts
  | .word =>
    let op : PtxOperand := { kind := .memRef, paramName := (cur ts).text }
    let ts := ts.tail
    match (cur ts).type with
    | .plus =>
      let ts := ts.tail
      if (cur ts).type ≠ .int then .error "Expected immediate memory offset".toList
      else closeMemRef { op with memOffset := (cur ts).ival } ts.tail
    | _ => closeMemRef op ts
  | _ => .error "Expected register or symbol in memory reference".toList

/-- The names that `parseOperand` takes for special registers. -/
def isSpecialReg (name : List Char) : Bool :=
  "tid.".toList.isPrefixOf name || "ctaid.".toList.isPrefixOf name ||
    "ntid.".toList.isPrefixOf name || name = "warpid".toList || name = "laneid".toList ||
    name = "nwarpid".toList

def parseOperand (ts : List Token) : Parsed PtxOperand :=
  match (cur ts).type with
  | .percent =>
    .ok { kind := if isSpecialReg (cur ts).text then .specialReg else .reg,
          name := (cur ts).text } ts.tail
  | .dollar => .ok { kind := .label, name := (cur ts).text } ts.tail
  | .lbracket => parseMemRef ts
  | .int => .ok { kind := .intImm, intVal := (cur ts).ival } ts.tail
  | .float => .ok { kind := .fltImm, fltVal := (cur ts).fval } ts.tail
  | .minus =>
    let ts := ts.tail
    match (cur ts).type with
    | .int =>
      match neg64 (cur ts).ival with
      | none => .undefined
      | some v => .ok { kind := .intImm, intVal := v } ts.tail
    | .float => .ok { kind := .fltImm, fltVal := (cur ts).fval ^^^ BitVec.intMin 64 } ts.tail
    | _ => .ok {} ts
  | .word => .ok { kind := .label, name := (cur ts).text } ts.tail
  | _ => .error ("Unsupported operand token: ".toList ++ (cur ts).text)

/-! ## Progress -/

theorem ne_nil_of_cur {ts : List Token} (h : (cur ts).type ≠ .endOfText) : ts ≠ [] := by
  rintro rfl
  exact h rfl

/-- A rest of what is behind the cursor is shorter than what is under it. -/
theorem length_lt_of_suffix {ts rest : List Token} (hcur : (cur ts).type ≠ .endOfText)
    (h : rest <:+ ts.tail) : rest.length < ts.length := by
  have hne := List.length_pos_iff.2 (ne_nil_of_cur hcur)
  have hle := h.length_le
  rw [List.length_tail] at hle
  omega

theorem closeMemRef_suffix {op op' : PtxOperand} {ts rest : List Token}
    (h : closeMemRef op ts = .ok op' rest) : rest <:+ ts := by
  unfold closeMemRef at h
  split_ifs at h
  obtain ⟨-, rfl⟩ := Parsed.ok.inj h
  exact List.tail_suffix ts

theorem parseMemRef_suffix {op : PtxOperand} {ts rest : List Token}
    (h : parseMemRef ts = .ok op rest) : rest <:+ ts.tail := by
  unfold parseMemRef at h
  dsimp only at h
  split at h
  · split at h
    · split_ifs at h
      exact (closeMemRef_suffix h).trans
        ((List.tail_suffix _).trans ((List.tail_suffix _).trans (List.tail_suffix _)))
    · split_ifs at h
      split at h
      · exact absurd h (by simp)
      · exact (closeMemRef_suffix h).trans
          ((List.tail_suffix _).trans ((List.tail_suffix _).trans (List.tail_suffix _)))
    · split_ifs at h
      · exact (closeMemRef_suffix h).trans ((List.tail_suffix _).trans (List.tail_suffix _))
      · exact (closeMemRef_suffix h).trans (List.tail_suffix _)
    · exact (closeMemRef_suffix h).trans (List.tail_suffix _)
  · split at h
    · split_ifs at h
      exact (closeMemRef_suffix h).trans
        ((List.tail_suffix _).trans ((List.tail_suffix _).trans (List.tail_suffix _)))
    · exact (closeMemRef_suffix h).trans (List.tail_suffix _)
  · exact absurd h (by simp)

theorem parseOperand_suffix {op : PtxOperand} {ts rest : List Token}
    (h : parseOperand ts = .ok op rest) : rest <:+ ts.tail := by
  have hnext : ∀ {a : PtxOperand}, Parsed.ok a ts.tail = .ok op rest → rest <:+ ts.tail := by
    intro a h
    obtain ⟨-, rfl⟩ := Parsed.ok.inj h
    exact List.suffix_refl _
  have hsecond : ∀ {a : PtxOperand}, Parsed.ok a ts.tail.tail = .ok op rest →
      rest <:+ ts.tail := by
    intro a h
    obtain ⟨-, rfl⟩ := Parsed.ok.inj h
    exact List.tail_suffix _
  unfold parseOperand at h
  split at h
  · exact hnext h
  · exact hnext h
  · exact parseMemRef_suffix h
  · exact hnext h
  · exact hnext h
  · dsimp only at h
    split at h
    · split at h
      · exact absurd h (by simp)
      · exact hsecond h
    · exact hsecond h
    · exact hnext h
  · exact hnext h
  · exact absurd h (by simp)

/-! ## Loops -/

/-- The body of a loop. It takes the token under the cursor at least. -/
structure Body (α : Type) where
  run : α → List Token → Parsed α
  advances : ∀ {a a' : α} {ts rest : List Token}, run a ts = .ok a' rest → rest <:+ ts.tail

/-- A loop that ends in front of the tokens `stop`, and at the end of the text. -/
def Body.loop {α : Type} (body : Body α) (stop : Token → Bool) (a : α) (ts : List Token) :
    Parsed α :=
  if _hend : stop (cur ts) = true ∨ (cur ts).type = .endOfText then .ok a ts
  else
    match _hrun : body.run a ts with
    | .ok a rest => body.loop stop a rest
    | .error message => .error message
    | .undefined => .undefined
termination_by ts.length
decreasing_by exact length_lt_of_suffix (fun h => _hend (.inr h)) (body.advances _hrun)

section Loop

variable {α : Type} {body : Body α} {stop : Token → Bool} {a a' : α} {ts rest : List Token}

theorem Body.loop_of_stop (h : stop (cur ts) = true ∨ (cur ts).type = .endOfText) :
    body.loop stop a ts = .ok a ts := by
  rw [Body.loop, dif_pos h]

theorem Body.loop_of_not_stop (h : ¬ (stop (cur ts) = true ∨ (cur ts).type = .endOfText)) :
    body.loop stop a ts = (body.run a ts).bind (body.loop stop) := by
  rw [Body.loop, dif_neg h]
  split
  · next a mid hrun => rw [hrun, Parsed.bind]
  · next message hrun => rw [hrun, Parsed.bind]
  · next hrun => rw [hrun, Parsed.bind]

/-- What holds of the cursor and of the value in front of a loop holds behind it. -/
theorem Body.loop_keeps {I : α → List Token → Prop}
    (hrun : ∀ {a a' : α} {ts rest : List Token}, I a ts → body.run a ts = .ok a' rest → I a' rest)
    (hI : I a ts) (h : body.loop stop a ts = .ok a' rest) : I a' rest := by
  induction hn : ts.length using Nat.strong_induction_on generalizing a ts with
  | _ n ih =>
    subst hn
    by_cases hend : stop (cur ts) = true ∨ (cur ts).type = .endOfText
    · rw [Body.loop_of_stop hend] at h
      obtain ⟨rfl, rfl⟩ := Parsed.ok.inj h
      exact hI
    · rw [Body.loop_of_not_stop hend] at h
      obtain ⟨b, mid, hb, hloop⟩ := Parsed.bind_eq_ok h
      have hlt := length_lt_of_suffix (fun h => hend (.inr h)) (body.advances hb)
      exact ih _ hlt (hrun hI hb) hloop rfl

theorem Body.loop_suffix (h : body.loop stop a ts = .ok a' rest) : rest <:+ ts := by
  apply Body.loop_keeps (I := fun _ rest => rest <:+ ts) ?_ (List.suffix_refl ts) h
  intro a a' mid rest hmid hrun
  exact (body.advances hrun).trans ((List.tail_suffix mid).trans hmid)

end Loop

/-! ## Instructions -/

def parseOperands : Body (List PtxOperand) where
  run ops ts := (parseOperand ts).bind fun op ts => .ok (ops ++ [op]) (skip .comma ts)
  advances := by
    intro ops ops' ts rest h
    obtain ⟨op, mid, hop, h⟩ := Parsed.bind_eq_ok h
    obtain ⟨-, rfl⟩ := Parsed.ok.inj h
    exact (skip_suffix _ _).trans (parseOperand_suffix hop)

/-- A token behind the operands. -/
def endsOperands (t : Token) : Bool := t.type = .semicolon || t.type = .rbrace

/-- The opcode and what follows it. -/
def parseOpcode (instr : PtxInstr) (ts : List Token) : Parsed PtxInstr :=
  if (cur ts).type ≠ .word then
    .error ("Expected opcode, got '".toList ++ (cur ts).text ++ "'".toList)
  else
    (parseOperands.loop endsOperands [] ts.tail).bind fun ops rest =>
      .ok { instr with op := (cur ts).text, operands := ops } (skip .semicolon rest)

def parseInstr (ts : List Token) : Parsed PtxInstr :=
  if (cur ts).type = .atSign then
    let ts := ts.tail
    let predNot := (cur ts).type = .bang
    let ts := skip .bang ts
    if (cur ts).type ≠ .percent then .error "Expected predicate register after @".toList
    else parseOpcode { predNot := predNot, pred := (cur ts).text } ts.tail
  else parseOpcode {} ts

theorem parseOpcode_suffix {instr instr' : PtxInstr} {ts rest : List Token}
    (h : parseOpcode instr ts = .ok instr' rest) : rest <:+ ts.tail := by
  unfold parseOpcode at h
  split_ifs at h
  obtain ⟨ops, mid, hops, h⟩ := Parsed.bind_eq_ok h
  obtain ⟨-, rfl⟩ := Parsed.ok.inj h
  exact (skip_suffix _ _).trans (Body.loop_suffix hops)

theorem parseInstr_suffix {instr : PtxInstr} {ts rest : List Token}
    (h : parseInstr ts = .ok instr rest) : rest <:+ ts.tail := by
  unfold parseInstr at h
  dsimp only at h
  split_ifs at h with hat hpercent
  · exact (parseOpcode_suffix h).trans
      ((List.tail_suffix _).trans ((List.tail_suffix _).trans (skip_suffix _ _)))
  · exact parseOpcode_suffix h

/-! ## Register declarations -/

/-- The type of a register declaration. -/
def regType (type : List Char) : Option (List Char) :=
  if type = ".pred".toList then some "pred".toList
  else if type = ".u32".toList ∨ type = ".b32".toList then some "u32".toList
  else if type = ".s32".toList then some "s32".toList
  else if type = ".f32".toList then some "f32".toList
  else if type = ".u64".toList ∨ type = ".b64".toList ∨ type = ".s64".toList then
    some "b64".toList
  else none

/-- The optional `<count>`. -/
def parseCount (ts : List Token) : BitVec 32 × List Token :=
  if (cur ts).type = .langle then
    let ts := ts.tail
    let count := if (cur ts).type = .int then BitVec.ofInt 32 (cur ts).ival else 0
    (count, skip .rangle (skip .int ts))
  else (1, ts)

theorem parseCount_suffix (ts : List Token) : (parseCount ts).2 <:+ ts := by
  unfold parseCount
  split
  · exact (skip_suffix _ _).trans ((skip_suffix _ _).trans (List.tail_suffix ts))
  · exact List.suffix_refl ts

def parseRegDecl (k : PtxKernel) (ts : List Token) : Parsed PtxKernel :=
  let ts := ts.tail
  if (cur ts).type ≠ .word then .error "Expected type in .reg decl".toList
  else
    match regType (cur ts).text with
    | none => .error ("Unsupported register type: ".toList ++ (cur ts).text)
    | some type =>
      let ts := ts.tail
      if (cur ts).type ≠ .percent then .error "Expected %reg in .reg decl".toList
      else
        let decl : PtxRegDecl :=
          { regPrefix := '%' :: (cur ts).text, type := type, count := (parseCount ts.tail).1 }
        .ok { k with regDecls := k.regDecls ++ [decl] } (skip .semicolon (parseCount ts.tail).2)

theorem parseRegDecl_ok {k k' : PtxKernel} {ts rest : List Token}
    (h : parseRegDecl k ts = .ok k' rest) : rest <:+ ts.tail ∧ k'.name = k.name := by
  unfold parseRegDecl at h
  dsimp only at h
  by_cases hword : (cur ts.tail).type ≠ .word
  · rw [if_pos hword] at h
    exact absurd h (by simp)
  rw [if_neg hword] at h
  cases htype : regType (cur ts.tail).text with
  | none =>
    rw [htype] at h
    exact absurd h (by simp)
  | some type =>
    rw [htype] at h
    dsimp only at h
    split_ifs at h with hpercent
    obtain ⟨rfl, rfl⟩ := Parsed.ok.inj h
    refine ⟨?_, rfl⟩
    exact (skip_suffix _ _).trans ((parseCount_suffix _).trans
      ((List.tail_suffix _).trans (List.tail_suffix _)))

/-! ## The body of a kernel -/

/-- Behind a directive that is not read. -/
def skipDirective (ts : List Token) : List Token :=
  skip .semicolon (ts.dropWhile fun t => !endsOperands t && t.type ≠ .endOfText)

/-- `peek`. -/
def peek (ts : List Token) : Token := cur ts.tail

/-- One round of the loop of `parseBody`. -/
def parseStatement (k : PtxKernel) (ts : List Token) : Parsed PtxKernel :=
  if (cur ts).type = .word ∧ (cur ts).text = ".reg".toList then parseRegDecl k ts
  else if (cur ts).type = .word ∧ (cur ts).text.head? = some '.' then .ok k (skipDirective ts)
  else if ((cur ts).type = .dollar ∨ (cur ts).type = .word) ∧ (peek ts).type = .colon then
    .ok { k with body := k.body ++ [{ label := (cur ts).text }] } ts.tail.tail
  else
    (parseInstr ts).bind fun instr ts => .ok { k with body := k.body ++ [instr] } ts

theorem skipDirective_suffix {ts : List Token} (h : (cur ts).type = .word) :
    skipDirective ts <:+ ts.tail := by
  apply (skip_suffix _ _).trans
  cases ts with
  | nil => exact List.suffix_refl _
  | cons t ts =>
    have ht : t.type = .word := h
    rw [List.dropWhile_cons_of_pos (by simp [endsOperands, ht])]
    exact List.dropWhile_suffix _

theorem parseStatement_ok {k k' : PtxKernel} {ts rest : List Token}
    (h : parseStatement k ts = .ok k' rest) : rest <:+ ts.tail ∧ k'.name = k.name := by
  unfold parseStatement at h
  split_ifs at h with hreg hdirective hlabel
  · exact parseRegDecl_ok h
  · obtain ⟨rfl, rfl⟩ := Parsed.ok.inj h
    exact ⟨skipDirective_suffix hdirective.1, rfl⟩
  · obtain ⟨rfl, rfl⟩ := Parsed.ok.inj h
    exact ⟨List.tail_suffix _, rfl⟩
  · obtain ⟨instr, mid, hinstr, h⟩ := Parsed.bind_eq_ok h
    obtain ⟨rfl, rfl⟩ := Parsed.ok.inj h
    exact ⟨parseInstr_suffix hinstr, rfl⟩

def parseBody : Body PtxKernel where
  run := parseStatement
  advances h := (parseStatement_ok h).1

def endsBody (t : Token) : Bool := t.type = .rbrace

/-! ## Parameters -/

/-- One attribute of a parameter. -/
def parseAttribute (p : PtxParam) (ts : List Token) : Parsed PtxParam :=
  if (cur ts).text = ".ptr".toList then .ok { p with isPointer := true } ts.tail
  else if (cur ts).text = ".global".toList ∨ (cur ts).text = ".shared".toList ∨
      (cur ts).text = ".local".toList ∨ (cur ts).text = ".const".toList then
    .ok { p with pointerSpace := (cur ts).text } ts.tail
  else if (cur ts).text = ".align".toList then
    let ts := ts.tail
    if (cur ts).type ≠ .int ∨ (cur ts).ival ≤ 0 then
      .error "Expected positive parameter alignment".toList
    else .ok { p with alignment := BitVec.ofInt 32 (cur ts).ival } ts.tail
  else .error ("Unsupported parameter attribute: ".toList ++ (cur ts).text)

def parseAttributes : Body PtxParam where
  run := parseAttribute
  advances := by
    intro p p' ts rest h
    unfold parseAttribute at h
    dsimp only at h
    split_ifs at h
    · exact (Parsed.ok.inj h).2 ▸ List.suffix_refl _
    · exact (Parsed.ok.inj h).2 ▸ List.suffix_refl _
    · exact (Parsed.ok.inj h).2 ▸ List.tail_suffix _

def endsAttributes (t : Token) : Bool := !(t.type = .word && t.text.head? = some '.')

/-- One parameter, behind the optional `.param`. -/
def parseParam (index : BitVec 32) (ts : List Token) : Parsed PtxParam :=
  if (cur ts).type ≠ .word then .error "Expected parameter type".toList
  else
    (parseAttributes.loop endsAttributes { index := index, space := (cur ts).text }
      ts.tail).bind fun p ts =>
      if (cur ts).type ≠ .word then .error "Expected param name".toList
      else .ok { p with name := (cur ts).text } ts.tail

/-- One round of the loop of `parseParams`; `idx` is the number of the parameters before it. -/
def parseNextParam (out : List PtxParam) (ts : List Token) : Parsed (List PtxParam) :=
  let afterSpace :=
    if (cur ts).type = .word ∧ (cur ts).text = ".param".toList then ts.tail else ts
  (parseParam (BitVec.ofNat 32 out.length) afterSpace).bind fun p ts =>
    .ok (out ++ [p]) (skip .comma ts)

theorem parseParam_suffix {index : BitVec 32} {p : PtxParam} {ts rest : List Token}
    (h : parseParam index ts = .ok p rest) : rest <:+ ts.tail := by
  unfold parseParam at h
  split_ifs at h
  obtain ⟨q, mid, hq, h⟩ := Parsed.bind_eq_ok h
  split_ifs at h
  obtain ⟨-, rfl⟩ := Parsed.ok.inj h
  exact (List.tail_suffix _).trans (Body.loop_suffix hq)

def parseParams : Body (List PtxParam) where
  run := parseNextParam
  advances := by
    intro out out' ts rest h
    obtain ⟨p, mid, hp, h⟩ := Parsed.bind_eq_ok h
    obtain ⟨-, rfl⟩ := Parsed.ok.inj h
    apply (skip_suffix _ _).trans
    apply (parseParam_suffix hp).trans
    split
    · exact List.tail_suffix _
    · exact List.suffix_refl _

def endsParams (t : Token) : Bool := t.type = .rparen

/-! ## Kernels -/

/-- The optional parameter list. -/
def parseParamList (k : PtxKernel) (ts : List Token) : Parsed PtxKernel :=
  if (cur ts).type = .lparen then
    (parseParams.loop endsParams k.params ts.tail).bind fun params ts =>
      expect .rparen "')'".toList { k with params := params } ts
  else .ok k ts

def parseKernel (k : PtxKernel) (ts : List Token) : Parsed PtxKernel :=
  if (cur ts).type ≠ .word then
    .error ("Expected kernel name after .entry, got '".toList ++ (cur ts).text ++ "'".toList)
  else
    (parseParamList { k with name := (cur ts).text } ts.tail).bind fun k ts =>
      let ts := ts.dropWhile fun t => t.type ≠ .lbrace && t.type ≠ .endOfText
      if (cur ts).type ≠ .lbrace then .error "Expected '\x7b'".toList
      else
        (parseBody.loop endsBody k ts.tail).bind fun k ts => expect .rbrace "'\x7d'".toList k ts

/-- The loop of `parse`: the first kernel behind the cursor. -/
def parseEntry (k : PtxKernel) : List Token → Parsed PtxKernel
  | [] => .error "No .entry found in PTX".toList
  | t :: ts =>
    if t.type = .endOfText then .error "No .entry found in PTX".toList
    else if t.type = .word ∧ t.text = ".address_size".toList then
      if (cur ts).type ≠ .int ∨ (cur ts).ival ≠ 32 ∧ (cur ts).ival ≠ 64 then
        .error ".address_size must be 32 or 64".toList
      else
        parseEntry
          { k with addressSize := BitVec.ofInt 32 (cur ts).ival, addressSizeSeen := true } ts.tail
    else if t.type = .word ∧ t.text = ".entry".toList then parseKernel k ts
    else parseEntry k ts
termination_by ts => ts.length
decreasing_by
  · rw [List.length_tail]
    exact Nat.lt_succ_of_le (Nat.sub_le _ _)
  · exact Nat.lt_succ_self _

/-- What becomes of a call of `parse`: it returns and leaves `lastError`, a number conversion
throws, or a signed number overflows. -/
inductive Outcome where
  | returns (kernel : PtxKernel) (lastError : List Char)
  | throws
  | undefined
deriving DecidableEq

def parse (stod : Stod) (text : List Char) : Outcome :=
  match tokenize stod text with
  | none => .throws
  | some ts =>
    match parseEntry {} ts with
    | .ok k _ => .returns k []
    | .error message => .returns {} message
    | .undefined => .undefined

end RiscvGpgpu.Ptx
