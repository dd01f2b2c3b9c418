import RiscvGpgpu.Ptx.ParserErrors

/-!
# The grammar of a kernel body

What may stand between two places of the cursor, rule by rule. A derivation carries the slips that
it makes, in order: a separator that is missing or too many, a `-` without a number. The grammar
proper is the one without slips; the parser takes a body with any of them.
-/

namespace RiscvGpgpu.Ptx

/-- What the parser lets pass. -/
inductive Slip where
  | missingComma
  | trailingComma
  | missingSemicolon
  | loneMinus
  | missingCount
  | missingAngle
deriving DecidableEq, Repr

/-- A statement of a body. -/
inductive Item where
  | reg (decl : PtxRegDecl)
  | directive
  | label (name : List Char)
  | instr (instr : PtxInstr)
deriving DecidableEq, Repr

def Item.regDecls : Item → List PtxRegDecl
  | .reg decl => [decl]
  | _ => []

/-- Labels count as instructions. -/
def Item.instrs : Item → List PtxInstr
  | .label name => [{ label := name }]
  | .instr i => [i]
  | _ => []

/-- The labels and instructions of a list of statements. -/
def instrsOf (items : List Item) : List PtxInstr := items.flatMap Item.instrs

def PtxKernel.addItems (k : PtxKernel) (items : List Item) : PtxKernel :=
  { k with regDecls := k.regDecls ++ items.flatMap Item.regDecls, body := k.body ++ instrsOf items }

/-! ## Rules -/

/-- The operands of an instruction end here. -/
def Ends (t : Token) : Prop := endsOperands t = true ∨ t.type = .endOfText

/-- A token that should be there. -/
inductive TokenAt (type : TK) (slip : Slip) : List Slip → List Token → List Token → Prop
  | present {t : Token} {rest : List Token} (h : t.type = type) :
      TokenAt type slip [] (t :: rest) rest
  | missing {ts : List Token} (h : (cur ts).type ≠ type) : TokenAt type slip [slip] ts ts

/-- `[%r]`, `[%r+n]`, `[%r-n]`, `[name]` and `[name+n]`. -/
inductive MemRefAt : List Token → PtxOperand → List Token → Prop
  | base {o p c : Token} {rest : List Token} (ho : o.type = .lbracket) (hp : p.type = .percent)
      (hc : c.type = .rbracket) :
      MemRefAt (o :: p :: c :: rest) { kind := .memRef, memBase := p.text } rest
  | plus {o p s n c : Token} {rest : List Token} (ho : o.type = .lbracket)
      (hp : p.type = .percent) (hs : s.type = .plus) (hn : n.type = .int)
      (hc : c.type = .rbracket) :
      MemRefAt (o :: p :: s :: n :: c :: rest)
        { kind := .memRef, memBase := p.text, memOffset := n.ival } rest
  | minus {o p s n c : Token} {rest : List Token} {v : ℤ} (ho : o.type = .lbracket)
      (hp : p.type = .percent) (hs : s.type = .minus) (hn : n.type = .int)
      (hv : neg64 n.ival = some v) (hc : c.type = .rbracket) :
      MemRefAt (o :: p :: s :: n :: c :: rest)
        { kind := .memRef, memBase := p.text, memOffset := v } rest
  | signed {o p n c : Token} {rest : List Token} (ho : o.type = .lbracket)
      (hp : p.type = .percent) (hn : n.type = .int) (hneg : n.ival < 0)
      (hc : c.type = .rbracket) :
      MemRefAt (o :: p :: n :: c :: rest)
        { kind := .memRef, memBase := p.text, memOffset := n.ival } rest
  | symbol {o w c : Token} {rest : List Token} (ho : o.type = .lbracket) (hw : w.type = .word)
      (hc : c.type = .rbracket) :
      MemRefAt (o :: w :: c :: rest) { kind := .memRef, paramName := w.text } rest
  | symbolPlus {o w s n c : Token} {rest : List Token} (ho : o.type = .lbracket)
      (hw : w.type = .word) (hs : s.type = .plus) (hn : n.type = .int) (hc : c.type = .rbracket) :
      MemRefAt (o :: w :: s :: n :: c :: rest)
        { kind := .memRef, paramName := w.text, memOffset := n.ival } rest

inductive OperandAt : List Slip → List Token → PtxOperand → List Token → Prop
  | reg {t : Token} {rest : List Token} (ht : t.type = .percent) :
      OperandAt [] (t :: rest)
        { kind := if isSpecialReg t.text then .specialReg else .reg, name := t.text } rest
  | label {t : Token} {rest : List Token} (ht : t.type = .dollar ∨ t.type = .word) :
      OperandAt [] (t :: rest) { kind := .label, name := t.text } rest
  | memRef {ts rest : List Token} {op : PtxOperand} (h : MemRefAt ts op rest) :
      OperandAt [] ts op rest
  | int {t : Token} {rest : List Token} (ht : t.type = .int) :
      OperandAt [] (t :: rest) { kind := .intImm, intVal := t.ival } rest
  | float {t : Token} {rest : List Token} (ht : t.type = .float) :
      OperandAt [] (t :: rest) { kind := .fltImm, fltVal := t.fval } rest
  | negInt {m t : Token} {rest : List Token} {v : ℤ} (hm : m.type = .minus) (ht : t.type = .int)
      (hv : neg64 t.ival = some v) :
      OperandAt [] (m :: t :: rest) { kind := .intImm, intVal := v } rest
  | negFloat {m t : Token} {rest : List Token} (hm : m.type = .minus) (ht : t.type = .float) :
      OperandAt [] (m :: t :: rest) { kind := .fltImm, fltVal := t.fval ^^^ BitVec.intMin 64 } rest
  | loneMinus {m : Token} {rest : List Token} (hm : m.type = .minus)
      (hint : (cur rest).type ≠ .int) (hfloat : (cur rest).type ≠ .float) :
      OperandAt [.loneMinus] (m :: rest) {} rest

/-- What stands behind an operand: a comma between two of them, and nothing behind the last one. -/
inductive SeparatorAt : List Slip → List Token → List Token → Prop
  | comma {c : Token} {rest : List Token} (hc : c.type = .comma) (h : ¬ Ends (cur rest)) :
      SeparatorAt [] (c :: rest) rest
  | last {ts : List Token} (h : Ends (cur ts)) : SeparatorAt [] ts ts
  | trailing {c : Token} {rest : List Token} (hc : c.type = .comma) (h : Ends (cur rest)) :
      SeparatorAt [.trailingComma] (c :: rest) rest
  | missing {ts : List Token} (hc : (cur ts).type ≠ .comma) (h : ¬ Ends (cur ts)) :
      SeparatorAt [.missingComma] ts ts

inductive OperandsAt : List Slip → List Token → List PtxOperand → List Token → Prop
  | nil {ts : List Token} (h : Ends (cur ts)) : OperandsAt [] ts [] ts
  | cons {s₁ s₂ s₃ : List Slip} {ts mid next rest : List Token} {op : PtxOperand}
      {ops : List PtxOperand} (hop : OperandAt s₁ ts op mid) (hsep : SeparatorAt s₂ mid next)
      (hops : OperandsAt s₃ next ops rest) :
      OperandsAt (s₁ ++ (s₂ ++ s₃)) ts (op :: ops) rest

/-- `opcode [operand {, operand}] ;`. -/
inductive OpcodeAt (guard : PtxInstr) : List Slip → List Token → PtxInstr → List Token → Prop
  | mk {s₁ s₂ : List Slip} {t : Token} {ts mid rest : List Token} {ops : List PtxOperand}
      (ht : t.type = .word) (hops : OperandsAt s₁ ts ops mid)
      (hend : TokenAt .semicolon .missingSemicolon s₂ mid rest) :
      OpcodeAt guard (s₁ ++ s₂) (t :: ts) { guard with op := t.text, operands := ops } rest

/-- An instruction with its predicate. -/
inductive InstrAt : List Slip → List Token → PtxInstr → List Token → Prop
  | plain {s : List Slip} {ts rest : List Token} {instr : PtxInstr}
      (h : OpcodeAt {} s ts instr rest) : InstrAt s ts instr rest
  | guarded {s : List Slip} {a p : Token} {ts rest : List Token} {instr : PtxInstr}
      (ha : a.type = .atSign) (hp : p.type = .percent)
      (h : OpcodeAt { pred := p.text } s ts instr rest) : InstrAt s (a :: p :: ts) instr rest
  | negated {s : List Slip} {a b p : Token} {ts rest : List Token} {instr : PtxInstr}
      (ha : a.type = .atSign) (hb : b.type = .bang) (hp : p.type = .percent)
      (h : OpcodeAt { pred := p.text, predNot := true } s ts instr rest) :
      InstrAt s (a :: b :: p :: ts) instr rest

/-- The optional `<count>`. -/
inductive CountAt : List Slip → List Token → BitVec 32 → List Token → Prop
  | none {ts : List Token} (h : (cur ts).type ≠ .langle) : CountAt [] ts 1 ts
  | count {s : List Slip} {l n : Token} {mid rest : List Token} (hl : l.type = .langle)
      (hn : n.type = .int) (hend : TokenAt .rangle .missingAngle s mid rest) :
      CountAt s (l :: n :: mid) (BitVec.ofInt 32 n.ival) rest
  | missing {s : List Slip} {l : Token} {mid rest : List Token} (hl : l.type = .langle)
      (hn : (cur mid).type ≠ .int) (hend : TokenAt .rangle .missingAngle s mid rest) :
      CountAt (.missingCount :: s) (l :: mid) 0 rest

/-- The word begins a directive. -/
def IsDirective (t : Token) : Prop := t.type = .word ∧ t.text.head? = some '.'

inductive StatementAt : List Slip → List Token → Item → List Token → Prop
  | reg {s₁ s₂ : List Slip} {t w p : Token} {ts mid rest : List Token} {type : List Char}
      {count : BitVec 32} (ht : t.type = .word) (htext : t.text = ".reg".toList)
      (hw : w.type = .word) (htype : regType w.text = some type) (hp : p.type = .percent)
      (hcount : CountAt s₁ ts count mid)
      (hend : TokenAt .semicolon .missingSemicolon s₂ mid rest) :
      StatementAt (s₁ ++ s₂) (t :: w :: p :: ts)
        (.reg { regPrefix := '%' :: p.text, type := type, count := count }) rest
  /-- Up to the next semicolon. -/
  | directive {t e : Token} {args rest : List Token} (ht : IsDirective t)
      (hreg : t.text ≠ ".reg".toList) (hargs : ∀ a ∈ args, ¬ Ends a) (he : e.type = .semicolon) :
      StatementAt [] (t :: (args ++ e :: rest)) .directive rest
  /-- The last one may be without. -/
  | lastDirective {t : Token} {args rest : List Token} (ht : IsDirective t)
      (hreg : t.text ≠ ".reg".toList) (hargs : ∀ a ∈ args, ¬ Ends a)
      (hrest : (cur rest).type = .rbrace ∨ (cur rest).type = .endOfText) :
      StatementAt [] (t :: (args ++ rest)) .directive rest
  | label {t c : Token} {rest : List Token} (ht : t.type = .dollar ∨ t.type = .word)
      (hname : ¬ IsDirective t) (hc : c.type = .colon) :
      StatementAt [] (t :: c :: rest) (.label t.text) rest
  | instr {s : List Slip} {ts rest : List Token} {instr : PtxInstr}
      (hop : ¬ IsDirective (cur ts)) (h : InstrAt s ts instr rest) :
      StatementAt s ts (.instr instr) rest

/-- Statements one after the other. -/
inductive StatementsAt : List Slip → List Token → List Item → List Token → Prop
  | nil {ts : List Token} : StatementsAt [] ts [] ts
  | cons {s₁ s₂ : List Slip} {ts mid rest : List Token} {item : Item} {items : List Item}
      (hitem : StatementAt s₁ ts item mid) (hitems : StatementsAt s₂ mid items rest) :
      StatementsAt (s₁ ++ s₂) ts (item :: items) rest

/-- A body ends here. -/
def EndsBody (t : Token) : Prop := endsBody t = true ∨ t.type = .endOfText

/-- The statements up to the closing brace. -/
def BodyAt (slips : List Slip) (ts : List Token) (items : List Item) (rest : List Token) : Prop :=
  StatementsAt slips ts items rest ∧ EndsBody (cur rest)

/-! ## The cursor -/

@[simp] theorem cur_cons (t : Token) (ts : List Token) : cur (t :: ts) = t := rfl

theorem exists_cons_of_cur {ts : List Token} {K : TK} (h : (cur ts).type = K)
    (hK : K ≠ .endOfText) : ∃ t rest, ts = t :: rest ∧ t.type = K := by
  cases ts with
  | nil => exact absurd h.symm hK
  | cons t rest => exact ⟨t, rest, rfl, h⟩

/-- A parse function that asks for a token has found it. -/
theorem of_guard {α : Type} {type : TK} (htype : type ≠ .endOfText) {ts rest : List Token}
    {message : List Char} {r : Parsed α} {a : α}
    (h : (if (cur ts).type ≠ type then .error message else r) = .ok a rest) :
    (∃ t ts', ts = t :: ts' ∧ t.type = type) ∧ r = .ok a rest := by
  by_cases ht : (cur ts).type = type
  · rw [if_neg (not_not.2 ht)] at h
    exact ⟨exists_cons_of_cur ht htype, h⟩
  · rw [if_pos ht] at h
    exact absurd h (by simp)

/-- The induction over the rounds of a loop. -/
theorem Body.loop_induction {α : Type} {body : Body α} {stop : Token → Bool}
    {P : α → List Token → α → List Token → Prop}
    (hstop : ∀ a ts, stop (cur ts) = true ∨ (cur ts).type = .endOfText → P a ts a ts)
    (hstep : ∀ a ts a' mid b rest, body.run a ts = .ok a' mid → P a' mid b rest → P a ts b rest)
    {a b : α} {ts rest : List Token} (h : body.loop stop a ts = .ok b rest) : P a ts b rest := by
  induction hn : ts.length using Nat.strong_induction_on generalizing a ts with
  | _ n ih =>
    subst hn
    by_cases hend : stop (cur ts) = true ∨ (cur ts).type = .endOfText
    · rw [Body.loop_of_stop hend] at h
      obtain ⟨rfl, rfl⟩ := Parsed.ok.inj h
      exact hstop a ts hend
    · rw [Body.loop_of_not_stop hend] at h
      obtain ⟨a', mid, hrun, hloop⟩ := Parsed.bind_eq_ok h
      have hlt := length_lt_of_suffix (fun h => hend (.inr h)) (body.advances hrun)
      exact hstep a ts a' mid b rest hrun (ih _ hlt hloop rfl)

section Tokens

variable {type : TK} {slip : Slip} {s : List Slip} {ts rest : List Token}

theorem tokenAt_skip (slip : Slip) (htype : type ≠ .endOfText) (ts : List Token) :
    ∃ s, TokenAt type slip s ts (skip type ts) := by
  unfold skip
  split_ifs with h
  · obtain ⟨t, rest, rfl, ht⟩ := exists_cons_of_cur h htype
    exact ⟨[], .present ht⟩
  · exact ⟨[slip], .missing h⟩

theorem TokenAt.skip_eq (h : TokenAt type slip s ts rest) : skip type ts = rest := by
  cases h with
  | present h => exact if_pos h
  | missing h => exact if_neg h

end Tokens

/-! ## Operands -/

section Operands

variable {s : List Slip} {ts rest : List Token} {op : PtxOperand} {ops : List PtxOperand}

theorem closeMemRef_ok {op' : PtxOperand} (h : closeMemRef op ts = .ok op' rest) :
    op' = op ∧ ∃ c, ts = c :: rest ∧ c.type = .rbracket := by
  obtain ⟨⟨c, ts, rfl, hc⟩, h⟩ := of_guard (by decide) h
  obtain ⟨rfl, rfl⟩ := Parsed.ok.inj h
  exact ⟨rfl, c, rfl, hc⟩

theorem memRefAt_of_parse {o : Token} (ho : o.type = .lbracket)
    (h : parseMemRef (o :: ts) = .ok op rest) : MemRefAt (o :: ts) op rest := by
  unfold parseMemRef at h
  dsimp only [List.tail_cons] at h
  split at h
  · next hp =>
    obtain ⟨p, ts, rfl, hp⟩ := exists_cons_of_cur hp (by decide)
    dsimp only [List.tail_cons] at h
    split at h
    · next hs =>
      obtain ⟨s, ts, rfl, hs⟩ := exists_cons_of_cur hs (by decide)
      dsimp only [List.tail_cons] at h
      obtain ⟨⟨n, ts, rfl, hn⟩, h⟩ := of_guard (by decide) h
      obtain ⟨rfl, c, rfl, hc⟩ := closeMemRef_ok h
      exact .plus ho hp hs hn hc
    · next hs =>
      obtain ⟨s, ts, rfl, hs⟩ := exists_cons_of_cur hs (by decide)
      dsimp only [List.tail_cons] at h
      obtain ⟨⟨n, ts, rfl, hn⟩, h⟩ := of_guard (by decide) h
      split at h
      · exact absurd h (by simp)
      · next v hv =>
        obtain ⟨rfl, c, rfl, hc⟩ := closeMemRef_ok h
        exact .minus ho hp hs hn hv hc
    · next hn =>
      obtain ⟨n, ts, rfl, hn⟩ := exists_cons_of_cur hn (by decide)
      by_cases hneg : n.ival < 0
      · simp only [cur_cons, hneg, if_true, List.tail_cons] at h
        obtain ⟨rfl, c, rfl, hc⟩ := closeMemRef_ok h
        exact .signed ho hp hn hneg hc
      · simp only [cur_cons, hneg, if_false] at h
        obtain ⟨-, c, heq, hc⟩ := closeMemRef_ok h
        obtain ⟨rfl, -⟩ := List.cons.inj heq
        exact absurd (hn.symm.trans hc) (by decide)
    · obtain ⟨rfl, c, rfl, hc⟩ := closeMemRef_ok h
      exact .base ho hp hc
  · next hw =>
    obtain ⟨w, ts, rfl, hw⟩ := exists_cons_of_cur hw (by decide)
    dsimp only [List.tail_cons] at h
    split at h
    · next hs =>
      obtain ⟨s, ts, rfl, hs⟩ := exists_cons_of_cur hs (by decide)
      dsimp only [List.tail_cons] at h
      obtain ⟨⟨n, ts, rfl, hn⟩, h⟩ := of_guard (by decide) h
      obtain ⟨rfl, c, rfl, hc⟩ := closeMemRef_ok h
      exact .symbolPlus ho hw hs hn hc
    · obtain ⟨rfl, c, rfl, hc⟩ := closeMemRef_ok h
      exact .symbol ho hw hc
  · exact absurd h (by simp)

theorem MemRefAt.parse (h : MemRefAt ts op rest) : parseOperand ts = .ok op rest := by
  cases h <;> simp [parseOperand, parseMemRef, closeMemRef, *]

theorem parseOperand_ok (h : parseOperand ts = .ok op rest) : ∃ s, OperandAt s ts op rest := by
  unfold parseOperand at h
  split at h
  · next ht =>
    obtain ⟨t, ts, rfl, ht⟩ := exists_cons_of_cur ht (by decide)
    obtain ⟨rfl, rfl⟩ := Parsed.ok.inj h
    exact ⟨_, .reg ht⟩
  · next ht =>
    obtain ⟨t, ts, rfl, ht⟩ := exists_cons_of_cur ht (by decide)
    obtain ⟨rfl, rfl⟩ := Parsed.ok.inj h
    exact ⟨_, .label (.inl ht)⟩
  · next ht =>
    obtain ⟨t, ts, rfl, ht⟩ := exists_cons_of_cur ht (by decide)
    exact ⟨_, .memRef (memRefAt_of_parse ht h)⟩
  · next ht =>
    obtain ⟨t, ts, rfl, ht⟩ := exists_cons_of_cur ht (by decide)
    obtain ⟨rfl, rfl⟩ := Parsed.ok.inj h
    exact ⟨_, .int ht⟩
  · next ht =>
    obtain ⟨t, ts, rfl, ht⟩ := exists_cons_of_cur ht (by decide)
    obtain ⟨rfl, rfl⟩ := Parsed.ok.inj h
    exact ⟨_, .float ht⟩
  · next hm =>
    obtain ⟨m, ts, rfl, hm⟩ := exists_cons_of_cur hm (by decide)
    dsimp only [List.tail_cons] at h
    split at h
    · next ht =>
      obtain ⟨t, ts, rfl, ht⟩ := exists_cons_of_cur ht (by decide)
      split at h
      · exact absurd h (by simp)
      · next v hv =>
        obtain ⟨rfl, rfl⟩ := Parsed.ok.inj h
        exact ⟨_, .negInt hm ht hv⟩
    · next ht =>
      obtain ⟨t, ts, rfl, ht⟩ := exists_cons_of_cur ht (by decide)
      obtain ⟨rfl, rfl⟩ := Parsed.ok.inj h
      exact ⟨_, .negFloat hm ht⟩
    · next hint hfloat =>
      obtain ⟨rfl, rfl⟩ := Parsed.ok.inj h
      exact ⟨_, .loneMinus hm hint hfloat⟩
  · next ht =>
    obtain ⟨t, ts, rfl, ht⟩ := exists_cons_of_cur ht (by decide)
    obtain ⟨rfl, rfl⟩ := Parsed.ok.inj h
    exact ⟨_, .label (.inr ht)⟩
  · exact absurd h (by simp)

theorem OperandAt.parse (h : OperandAt s ts op rest) : parseOperand ts = .ok op rest := by
  cases h with
  | reg ht =>
    simp only [parseOperand, cur_cons, ht, List.tail_cons]
    rfl
  | label ht =>
    rcases ht with ht | ht
    · simp [parseOperand, ht]
    · simp [parseOperand, ht]
  | memRef h => exact h.parse
  | int ht => simp [parseOperand, ht]
  | float ht => simp [parseOperand, ht]
  | negInt hm ht hv => simp [parseOperand, hm, ht, hv]
  | negFloat hm ht => simp [parseOperand, hm, ht]
  | loneMinus hm hint hfloat =>
    simp only [parseOperand, cur_cons, hm, List.tail_cons]

theorem separatorAt_skip (ts : List Token) : ∃ s, SeparatorAt s ts (skip .comma ts) := by
  unfold skip
  split_ifs with hc
  · obtain ⟨c, rest, rfl, hc⟩ := exists_cons_of_cur hc (by decide)
    by_cases hend : Ends (cur rest)
    · exact ⟨_, .trailing hc hend⟩
    · exact ⟨_, .comma hc hend⟩
  · by_cases hend : Ends (cur ts)
    · exact ⟨_, .last hend⟩
    · exact ⟨_, .missing hc hend⟩

theorem Ends.ne_comma {t : Token} (h : Ends t) : t.type ≠ .comma := by
  intro hc
  rcases h with h | h
  · simp [endsOperands, hc] at h
  · exact absurd (hc.symm.trans h) (by decide)

theorem SeparatorAt.skip_eq (h : SeparatorAt s ts rest) : skip .comma ts = rest := by
  cases h with
  | comma hc _ => exact if_pos hc
  | last h => exact if_neg h.ne_comma
  | trailing hc _ => exact if_pos hc
  | missing hc _ => exact if_neg hc

theorem OperandAt.not_ends (h : OperandAt s ts op rest) : ¬ Ends (cur ts) := by
  intro hend
  have hparse := h.parse
  rcases hend with hend | hend
  · unfold endsOperands at hend
    rw [Bool.or_eq_true, decide_eq_true_iff, decide_eq_true_iff] at hend
    rcases hend with hend | hend
    · simp [parseOperand, hend] at hparse
    · simp [parseOperand, hend] at hparse
  · simp [parseOperand, hend] at hparse

theorem OperandAt.ne_colon (h : OperandAt s ts op rest) : (cur ts).type ≠ .colon := by
  intro hcolon
  have hparse := h.parse
  simp [parseOperand, hcolon] at hparse

theorem operandsAt_of_loop {ops ops' : List PtxOperand}
    (h : parseOperands.loop endsOperands ops ts = .ok ops' rest) :
    ∃ s new, ops' = ops ++ new ∧ OperandsAt s ts new rest := by
  refine Body.loop_induction (P := fun ops ts ops' rest =>
    ∃ s new, ops' = ops ++ new ∧ OperandsAt s ts new rest) ?_ ?_ h
  · intro ops ts hend
    exact ⟨[], [], (List.append_nil ops).symm, .nil hend⟩
  · rintro ops ts ops₁ mid ops' rest hrun ⟨s₃, new, rfl, hops⟩
    obtain ⟨op, afterOp, hop, hrun⟩ := Parsed.bind_eq_ok hrun
    obtain ⟨rfl, rfl⟩ := Parsed.ok.inj hrun
    obtain ⟨s₁, hop⟩ := parseOperand_ok hop
    obtain ⟨s₂, hsep⟩ := separatorAt_skip afterOp
    exact ⟨_, op :: new, by rw [List.append_assoc]; rfl, .cons hop hsep hops⟩

theorem OperandsAt.loop (h : OperandsAt s ts ops rest) (before : List PtxOperand) :
    parseOperands.loop endsOperands before ts = .ok (before ++ ops) rest := by
  induction h generalizing before with
  | nil hend => rw [Body.loop_of_stop hend, List.append_nil]
  | @cons _ _ _ ts mid next rest op ops hop hsep _ ih =>
    have hrun : parseOperands.run before ts = .ok (before ++ [op]) next := by
      show (parseOperand ts).bind _ = _
      rw [hop.parse, Parsed.bind, hsep.skip_eq]
    rw [Body.loop_of_not_stop hop.not_ends, hrun, Parsed.bind, ih, List.append_assoc]
    rfl

end Operands

/-! ## Instructions -/

section Instructions

variable {s : List Slip} {ts rest : List Token} {guard instr : PtxInstr}

theorem opcodeAt_of_parse (h : parseOpcode guard ts = .ok instr rest) :
    ∃ s, OpcodeAt guard s ts instr rest := by
  obtain ⟨⟨t, ts, rfl, ht⟩, h⟩ := of_guard (by decide) h
  obtain ⟨ops, mid, hloop, h⟩ := Parsed.bind_eq_ok h
  obtain ⟨rfl, rfl⟩ := Parsed.ok.inj h
  obtain ⟨s₁, new, rfl, hops⟩ := operandsAt_of_loop hloop
  obtain ⟨s₂, hend⟩ := tokenAt_skip .missingSemicolon (by decide : TK.semicolon ≠ _) mid
  exact ⟨_, .mk ht hops hend⟩

theorem OpcodeAt.parse (h : OpcodeAt guard s ts instr rest) :
    parseOpcode guard ts = .ok instr rest := by
  obtain ⟨ht, hops, hend⟩ := h
  unfold parseOpcode
  rw [cur_cons, if_neg (not_not.2 ht), List.tail_cons, hops.loop, Parsed.bind, hend.skip_eq]
  rfl

theorem instrAt_of_parse (h : parseInstr ts = .ok instr rest) : ∃ s, InstrAt s ts instr rest := by
  unfold parseInstr at h
  by_cases hat : (cur ts).type = .atSign
  · rw [if_pos hat] at h
    obtain ⟨a, ts, rfl, ha⟩ := exists_cons_of_cur hat (by decide)
    obtain ⟨⟨p, ts', hskip, hp⟩, h⟩ := of_guard (by decide) h
    rw [List.tail_cons] at hskip h
    rw [hskip] at h
    by_cases hbang : (cur ts).type = .bang
    · obtain ⟨b, ts, rfl, hb⟩ := exists_cons_of_cur hbang (by decide)
      rw [skip, if_pos hbang, List.tail_cons] at hskip
      subst hskip
      have hnot : decide ((cur (b :: p :: ts')).type = .bang) = true := decide_eq_true hbang
      rw [hnot] at h
      obtain ⟨s, h⟩ := opcodeAt_of_parse h
      exact ⟨s, .negated ha hb hp h⟩
    · rw [skip, if_neg hbang] at hskip
      subst hskip
      have hnot : decide ((cur (p :: ts')).type = .bang) = false := decide_eq_false hbang
      rw [hnot] at h
      obtain ⟨s, h⟩ := opcodeAt_of_parse h
      exact ⟨s, .guarded ha hp h⟩
  · rw [if_neg hat] at h
    obtain ⟨s, h⟩ := opcodeAt_of_parse h
    exact ⟨s, .plain h⟩

theorem InstrAt.parse (h : InstrAt s ts instr rest) : parseInstr ts = .ok instr rest := by
  cases h with
  | plain h =>
    have hat : (cur ts).type ≠ .atSign := by
      obtain ⟨ht, -, -⟩ := h
      rw [cur_cons, ht]
      decide
    rw [parseInstr, if_neg hat, h.parse]
  | guarded ha hp h => simp [parseInstr, skip, ha, hp, h.parse]
  | negated ha hb hp h => simp [parseInstr, skip, ha, hb, hp, h.parse]

theorem InstrAt.cur_type (h : InstrAt s ts instr rest) :
    (cur ts).type = .atSign ∨ (cur ts).type = .word := by
  cases h with
  | plain h =>
    obtain ⟨ht, -, -⟩ := h
    exact .inr ht
  | guarded ha _ _ => exact .inl ha
  | negated ha _ _ _ => exact .inl ha

/-- An instruction is no label. -/
theorem InstrAt.peek_type (h : InstrAt s ts instr rest) (hword : (cur ts).type ≠ .atSign) :
    (peek ts).type ≠ .colon := by
  intro hcolon
  cases h with
  | plain h =>
    obtain ⟨-, hops, -⟩ := h
    cases hops with
    | nil hend =>
      rcases hend with hend | hend
      · simp_all [peek, endsOperands]
      · exact absurd (hcolon.symm.trans hend) (by decide)
    | cons hop _ _ => exact hop.ne_colon hcolon
  | guarded ha _ _ => exact hword ha
  | negated ha _ _ _ => exact hword ha

end Instructions

/-! ## Statements -/

section Statements

variable {s : List Slip} {ts rest : List Token} {item : Item} {items : List Item}

theorem countAt_parseCount (ts : List Token) :
    ∃ s, CountAt s ts (parseCount ts).1 (parseCount ts).2 := by
  unfold parseCount
  by_cases hl : (cur ts).type = .langle
  · rw [if_pos hl]
    obtain ⟨l, ts, rfl, hl⟩ := exists_cons_of_cur hl (by decide)
    dsimp only [List.tail_cons]
    by_cases hint : (cur ts).type = .int
    · obtain ⟨n, ts, rfl, hn⟩ := exists_cons_of_cur hint (by decide)
      obtain ⟨s, hend⟩ := tokenAt_skip .missingAngle (by decide : TK.rangle ≠ _) ts
      refine ⟨s, ?_⟩
      have hskip : skip .int (n :: ts) = ts := if_pos hint
      rw [if_pos hint, hskip]
      exact .count hl hn hend
    · obtain ⟨s, hend⟩ := tokenAt_skip .missingAngle (by decide : TK.rangle ≠ _) ts
      refine ⟨.missingCount :: s, ?_⟩
      have hskip : skip .int ts = ts := if_neg hint
      rw [if_neg hint, hskip]
      exact .missing hl hint hend
  · rw [if_neg hl]
    exact ⟨[], .none hl⟩

theorem CountAt.parseCount_eq {count : BitVec 32} (h : CountAt s ts count rest) :
    parseCount ts = (count, rest) := by
  cases h with
  | none h => exact if_neg h
  | count hl hn hend =>
    have hskip := hend.skip_eq
    simp [parseCount, skip, hl, hn] at hskip ⊢
    exact hskip
  | missing hl hn hend =>
    have hskip := hend.skip_eq
    simp [parseCount, skip, hl, hn] at hskip ⊢
    exact hskip

@[simp] theorem addItems_nil (k : PtxKernel) : k.addItems [] = k := by
  simp [PtxKernel.addItems, instrsOf]

theorem addItems_addItems (k : PtxKernel) (items items' : List Item) :
    (k.addItems items).addItems items' = k.addItems (items ++ items') := by
  simp [PtxKernel.addItems, instrsOf]

/-- A statement does not begin at the end of the body. -/
theorem StatementAt.not_endsBody (h : StatementAt s ts item rest) : ¬ EndsBody (cur ts) := by
  have hne : (cur ts).type ≠ .rbrace ∧ (cur ts).type ≠ .endOfText := by
    cases h with
    | reg ht => simp [ht]
    | directive ht => simp [ht.1]
    | lastDirective ht => simp [ht.1]
    | label ht => rcases ht with ht | ht <;> simp [ht]
    | instr _ h => rcases h.cur_type with ht | ht <;> simp [ht]
  rintro (hend | hend)
  · exact hne.1 (of_decide_eq_true hend)
  · exact hne.2 hend

theorem dropWhile_args {args : List Token} (hargs : ∀ a ∈ args, ¬ Ends a) (rest : List Token)
    (hrest : Ends (cur rest)) :
    ((args ++ rest).dropWhile fun t => !endsOperands t && t.type ≠ .endOfText) = rest := by
  have hnot : ∀ t, (!endsOperands t && t.type ≠ .endOfText) = true ↔ ¬ Ends t := by
    intro t
    unfold Ends
    rw [Bool.and_eq_true, Bool.not_eq_true', decide_eq_true_iff, not_or, Bool.not_eq_true]
  rw [List.dropWhile_append_of_pos fun a ha => (hnot a).2 (hargs a ha)]
  cases rest with
  | nil => rfl
  | cons t rest => exact List.dropWhile_cons_of_neg fun h => (hnot t).1 h hrest

/-- What is skipped for a directive that begins here. -/
theorem exists_args (ts : List Token) : ∃ args rest, ts = args ++ rest ∧
    (∀ a ∈ args, ¬ Ends a) ∧ Ends (cur rest) := by
  induction ts with
  | nil => exact ⟨[], [], rfl, fun a ha => absurd ha List.not_mem_nil, .inr rfl⟩
  | cons t ts ih =>
    by_cases hend : Ends t
    · exact ⟨[], t :: ts, rfl, fun a ha => absurd ha List.not_mem_nil, hend⟩
    · obtain ⟨args, rest, rfl, hargs, hrest⟩ := ih
      exact ⟨t :: args, rest, rfl, List.forall_mem_cons.2 ⟨hend, hargs⟩, hrest⟩

theorem not_ends_of_isDirective {t : Token} (h : IsDirective t) : ¬ Ends t := by
  rintro (hend | hend)
  · simp [endsOperands, h.1] at hend
  · exact absurd (h.1.symm.trans hend) (by decide)

theorem skipDirective_args {t : Token} {args rest : List Token} (ht : IsDirective t)
    (hargs : ∀ a ∈ args, ¬ Ends a) (hrest : Ends (cur rest)) :
    skipDirective (t :: (args ++ rest)) = skip .semicolon rest := by
  unfold skipDirective
  rw [← List.cons_append, dropWhile_args _ _ hrest]
  exact List.forall_mem_cons.2 ⟨not_ends_of_isDirective ht, hargs⟩

theorem statementAt_skipDirective {t : Token} (ts : List Token) (ht : IsDirective t)
    (hreg : t.text ≠ ".reg".toList) :
    StatementAt [] (t :: ts) .directive (skipDirective (t :: ts)) := by
  obtain ⟨args, rest, rfl, hargs, hrest⟩ := exists_args ts
  rw [skipDirective_args ht hargs hrest]
  by_cases hsemi : (cur rest).type = .semicolon
  · obtain ⟨e, rest, rfl, he⟩ := exists_cons_of_cur hsemi (by decide)
    rw [skip, if_pos hsemi]
    exact .directive ht hreg hargs he
  · rw [skip, if_neg hsemi]
    refine .lastDirective ht hreg hargs ?_
    rcases hrest with hend | hend
    · unfold endsOperands at hend
      rw [Bool.or_eq_true, decide_eq_true_iff, decide_eq_true_iff] at hend
      exact .inl (hend.resolve_left hsemi)
    · exact .inr hend

theorem regDecl_of_parse {k k' : PtxKernel} {t : Token} (ht : t.type = .word)
    (htext : t.text = ".reg".toList) (h : parseRegDecl k (t :: ts) = .ok k' rest) :
    ∃ s decl, StatementAt s (t :: ts) (.reg decl) rest ∧ k' = k.addItems [.reg decl] := by
  obtain ⟨⟨w, ts, hts, hw⟩, h⟩ := of_guard (by decide) h
  rw [List.tail_cons] at hts
  subst hts
  rw [List.tail_cons, cur_cons] at h
  cases htype : regType w.text with
  | none =>
    rw [htype] at h
    exact absurd h (by simp)
  | some type =>
    rw [htype] at h
    obtain ⟨⟨p, ts, hts, hp⟩, h⟩ := of_guard (by decide) h
    rw [List.tail_cons] at hts
    subst hts
    obtain ⟨rfl, rfl⟩ := Parsed.ok.inj h
    obtain ⟨s₁, hcount⟩ := countAt_parseCount ts
    obtain ⟨s₂, hend⟩ :=
      tokenAt_skip .missingSemicolon (by decide : TK.semicolon ≠ _) (parseCount ts).2
    refine ⟨_, _, .reg ht htext hw htype hp hcount hend, ?_⟩
    simp [PtxKernel.addItems, instrsOf, Item.regDecls, Item.instrs]

theorem statementAt_of_parse {k k' : PtxKernel} (h : parseStatement k ts = .ok k' rest) :
    ∃ s item, StatementAt s ts item rest ∧ k' = k.addItems [item] := by
  unfold parseStatement at h
  split_ifs at h with hreg hdirective hlabel
  · obtain ⟨t, ts, rfl, ht⟩ := exists_cons_of_cur hreg.1 (by decide)
    obtain ⟨s, decl, hst, rfl⟩ := regDecl_of_parse ht hreg.2 h
    exact ⟨s, _, hst, rfl⟩
  · obtain ⟨rfl, rfl⟩ := Parsed.ok.inj h
    obtain ⟨t, ts, rfl, ht⟩ := exists_cons_of_cur hdirective.1 (by decide)
    refine ⟨[], .directive, ?_, ?_⟩
    · exact statementAt_skipDirective ts hdirective fun htext => hreg ⟨ht, htext⟩
    · simp [PtxKernel.addItems, instrsOf, Item.regDecls, Item.instrs]
  · obtain ⟨rfl, rfl⟩ := Parsed.ok.inj h
    obtain ⟨t, ts, rfl, -⟩ : ∃ t rest, ts = t :: rest ∧ True := by
      cases ts with
      | nil => exact absurd hlabel.1 (by decide)
      | cons t ts => exact ⟨t, ts, rfl, trivial⟩
    obtain ⟨c, ts, hts, hc⟩ := exists_cons_of_cur hlabel.2 (by decide)
    rw [List.tail_cons] at hts
    subst hts
    refine ⟨[], _, .label hlabel.1 hdirective hc, ?_⟩
    simp [PtxKernel.addItems, instrsOf, Item.regDecls, Item.instrs]
  · obtain ⟨instr, mid, hinstr, h⟩ := Parsed.bind_eq_ok h
    obtain ⟨rfl, rfl⟩ := Parsed.ok.inj h
    obtain ⟨s, hinstr⟩ := instrAt_of_parse hinstr
    refine ⟨s, _, .instr hdirective hinstr, ?_⟩
    simp [PtxKernel.addItems, instrsOf, Item.regDecls, Item.instrs]

theorem isDirective_reg {t : Token} (ht : t.type = .word) (htext : t.text = ".reg".toList) :
    IsDirective t := ⟨ht, by rw [htext]; rfl⟩

instance : DecidablePred IsDirective := fun t =>
  inferInstanceAs (Decidable (t.type = .word ∧ t.text.head? = some '.'))

theorem parseStatement_eq (k : PtxKernel) (ts : List Token) : parseStatement k ts =
    if (cur ts).type = .word ∧ (cur ts).text = ".reg".toList then parseRegDecl k ts
    else if IsDirective (cur ts) then .ok k (skipDirective ts)
    else if ((cur ts).type = .dollar ∨ (cur ts).type = .word) ∧ (peek ts).type = .colon then
      .ok { k with body := k.body ++ [{ label := (cur ts).text }] } ts.tail.tail
    else
      (parseInstr ts).bind fun instr ts => .ok { k with body := k.body ++ [instr] } ts := rfl

theorem StatementAt.parse (h : StatementAt s ts item rest) (k : PtxKernel) :
    parseStatement k ts = .ok (k.addItems [item]) rest := by
  rw [parseStatement_eq]
  cases h with
  | reg ht htext hw htype hp hcount hend =>
    rw [if_pos ⟨ht, htext⟩]
    simp [parseRegDecl, hw, htype, hp, hcount.parseCount_eq, hend.skip_eq, PtxKernel.addItems,
      instrsOf, Item.regDecls, Item.instrs]
  | @directive t e args rest ht hreg hargs he =>
    have hend : Ends (cur (e :: rest)) := .inl (by simp [endsOperands, he])
    rw [cur_cons, if_neg fun h => hreg h.2, if_pos ht, skipDirective_args ht hargs hend]
    simp [skip, he, PtxKernel.addItems, instrsOf, Item.regDecls, Item.instrs]
  | @lastDirective t args rest ht hreg hargs hrest =>
    have hend : Ends (cur rest) := hrest.imp_left fun h => by simp [endsOperands, h]
    have hsemi : (cur rest).type ≠ .semicolon := by
      rcases hrest with h | h <;> simp [h]
    rw [cur_cons, if_neg fun h => hreg h.2, if_pos ht, skipDirective_args ht hargs hend]
    simp [skip, hsemi, PtxKernel.addItems, instrsOf, Item.regDecls, Item.instrs]
  | label ht hname hc =>
    rw [cur_cons, if_neg fun h => hname (isDirective_reg h.1 h.2), if_neg hname,
      if_pos ⟨ht, hc⟩]
    simp [PtxKernel.addItems, instrsOf, Item.regDecls, Item.instrs]
  | instr hop h =>
    have hlabel : ¬ (((cur ts).type = .dollar ∨ (cur ts).type = .word) ∧
        (peek ts).type = .colon) := by
      rintro ⟨ht, hcolon⟩
      refine h.peek_type ?_ hcolon
      rcases ht with ht | ht <;> simp [ht]
    rw [if_neg fun h => hop (isDirective_reg h.1 h.2), if_neg hop, if_neg hlabel, h.parse]
    simp [Parsed.bind, PtxKernel.addItems, instrsOf, Item.regDecls, Item.instrs]

/-- What `parseBody` makes of a list of tokens, by the grammar. -/
theorem bodyAt_of_loop {k k' : PtxKernel} (h : parseBody.loop endsBody k ts = .ok k' rest) :
    ∃ s items, BodyAt s ts items rest ∧ k' = k.addItems items := by
  refine Body.loop_induction (P := fun k ts k' rest =>
    ∃ s items, BodyAt s ts items rest ∧ k' = k.addItems items) ?_ ?_ h
  · intro k ts hend
    exact ⟨[], [], ⟨.nil, hend⟩, (addItems_nil k).symm⟩
  · rintro k ts k₁ mid k' rest hrun ⟨s₂, items, ⟨hitems, hend⟩, rfl⟩
    obtain ⟨s₁, item, hitem, rfl⟩ := statementAt_of_parse hrun
    exact ⟨_, item :: items, ⟨.cons hitem hitems, hend⟩, addItems_addItems k [item] items⟩

/-- The loop goes through the statements. -/
theorem StatementsAt.loop (h : StatementsAt s ts items rest) (k : PtxKernel) :
    parseBody.loop endsBody k ts = parseBody.loop endsBody (k.addItems items) rest := by
  induction h generalizing k with
  | nil => rw [addItems_nil]
  | @cons _ _ ts mid rest item items hitem _ ih =>
    have hrun : parseBody.run k ts = .ok (k.addItems [item]) mid := hitem.parse k
    rw [Body.loop_of_not_stop hitem.not_endsBody, hrun, Parsed.bind, ih, addItems_addItems]
    rfl

theorem BodyAt.loop (h : BodyAt s ts items rest) (k : PtxKernel) :
    parseBody.loop endsBody k ts = .ok (k.addItems items) rest := by
  obtain ⟨hitems, hend⟩ := h
  rw [hitems.loop, Body.loop_of_stop hend]

end Statements

/-! ## Slips -/

section Slips

variable {s s' : List Slip} {ts rest rest' : List Token}

instance : DecidablePred Ends := fun t =>
  inferInstanceAs (Decidable (endsOperands t = true ∨ t.type = .endOfText))

theorem TokenAt.slips {type : TK} {slip : Slip} (h : TokenAt type slip s ts rest) :
    s = if (cur ts).type = type then [] else [slip] := by
  cases h with
  | present h => exact (if_pos h).symm
  | missing h => exact (if_neg h).symm

theorem OperandAt.slips {op : PtxOperand} (h : OperandAt s ts op rest) :
    s = if (cur ts).type = .minus ∧ (peek ts).type ≠ .int ∧ (peek ts).type ≠ .float then
      [.loneMinus] else [] := by
  cases h with
  | reg ht => simp [ht]
  | label ht => rcases ht with ht | ht <;> simp [ht]
  | memRef h => cases h <;> simp [*]
  | int ht => simp [ht]
  | float ht => simp [ht]
  | negInt hm ht => simp [peek, ht]
  | negFloat hm ht => simp [peek, ht]
  | loneMinus hm hint hfloat => simp [peek, hm, hint, hfloat]

theorem SeparatorAt.slips (h : SeparatorAt s ts rest) :
    s = if (cur ts).type = .comma then (if Ends (peek ts) then [.trailingComma] else [])
      else if Ends (cur ts) then [] else [.missingComma] := by
  cases h with
  | comma hc h => simp [peek, hc, h]
  | last h => simp [h, h.ne_comma]
  | trailing hc h => simp [peek, hc, h]
  | missing hc h => simp [hc, h]

/-- The slips, and the end, of the operands are determined by the tokens. -/
theorem OperandsAt.unique {ops ops' : List PtxOperand} (h : OperandsAt s ts ops rest)
    (h' : OperandsAt s' ts ops' rest') : s = s' ∧ rest = rest' := by
  induction h generalizing s' ops' rest' with
  | nil hend =>
    cases h' with
    | nil _ => exact ⟨rfl, rfl⟩
    | cons hop _ _ => exact absurd hend hop.not_ends
  | cons hop hsep hops ih =>
    cases h' with
    | nil hend => exact absurd hend hop.not_ends
    | cons hop' hsep' hops' =>
      obtain ⟨rfl, rfl⟩ := Parsed.ok.inj (hop.parse.symm.trans hop'.parse)
      obtain rfl := hsep.skip_eq.symm.trans hsep'.skip_eq
      obtain ⟨hs, rfl⟩ := ih hops'
      exact ⟨by rw [hop.slips, hop'.slips, hsep.slips, hsep'.slips, hs], rfl⟩

theorem OpcodeAt.unique {guard guard' instr instr' : PtxInstr}
    (h : OpcodeAt guard s ts instr rest) (h' : OpcodeAt guard' s' ts instr' rest') : s = s' := by
  obtain ⟨-, hops, hend⟩ := h
  obtain ⟨-, hops', hend'⟩ := h'
  obtain ⟨rfl, rfl⟩ := hops.unique hops'
  rw [hend.slips, hend'.slips]

theorem OpcodeAt.cur_type {guard instr : PtxInstr} (h : OpcodeAt guard s ts instr rest) :
    (cur ts).type = .word := by
  obtain ⟨ht, -, -⟩ := h
  exact ht

theorem InstrAt.unique {instr instr' : PtxInstr} (h : InstrAt s ts instr rest)
    (h' : InstrAt s' ts instr' rest') : s = s' := by
  cases h with
  | plain h =>
    cases h' with
    | plain h' => exact h.unique h'
    | guarded ha _ _ => exact absurd (ha.symm.trans h.cur_type) (by decide)
    | negated ha _ _ _ => exact absurd (ha.symm.trans h.cur_type) (by decide)
  | guarded ha hp h =>
    cases h' with
    | plain h' => exact absurd (ha.symm.trans h'.cur_type) (by decide)
    | guarded _ _ h' => exact h.unique h'
    | negated _ hb _ _ => exact absurd (hb.symm.trans hp) (by decide)
  | negated ha hb hp h =>
    cases h' with
    | plain h' => exact absurd (ha.symm.trans h'.cur_type) (by decide)
    | guarded _ hp' _ => exact absurd (hb.symm.trans hp') (by decide)
    | negated _ _ _ h' => exact h.unique h'

theorem CountAt.unique {count count' : BitVec 32} (h : CountAt s ts count rest)
    (h' : CountAt s' ts count' rest') : s = s' := by
  cases h with
  | none hl =>
    cases h' with
    | none _ => rfl
    | count hl' _ _ => exact absurd hl' hl
    | missing hl' _ _ => exact absurd hl' hl
  | count hl hn hend =>
    cases h' with
    | none hl' => exact absurd hl hl'
    | count _ _ hend' => rw [hend.slips, hend'.slips]
    | missing _ hn' _ => exact absurd hn hn'
  | missing hl hn hend =>
    cases h' with
    | none hl' => exact absurd hl hl'
    | count _ hn' _ => exact absurd hn' hn
    | missing _ _ hend' => rw [hend.slips, hend'.slips]

theorem StatementAt.of_reg {item : Item} (h : StatementAt s ts item rest)
    (hword : (cur ts).type = .word) (hreg : (cur ts).text = ".reg".toList) :
    ∃ s₁ s₂ count mid, s = s₁ ++ s₂ ∧ CountAt s₁ ts.tail.tail.tail count mid ∧
      TokenAt .semicolon .missingSemicolon s₂ mid rest := by
  cases h with
  | reg _ _ _ _ _ hcount hend => exact ⟨_, _, _, _, rfl, hcount, hend⟩
  | directive _ hnot => exact absurd hreg hnot
  | lastDirective _ hnot => exact absurd hreg hnot
  | label _ hnot => exact absurd (isDirective_reg hword hreg) hnot
  | instr hnot => exact absurd (isDirective_reg hword hreg) hnot

theorem StatementAt.of_directive {item : Item} (h : StatementAt s ts item rest)
    (hdir : IsDirective (cur ts)) (hreg : (cur ts).text ≠ ".reg".toList) : s = [] := by
  cases h with
  | reg _ htext => exact absurd htext hreg
  | directive => rfl
  | lastDirective => rfl
  | label _ hnot => exact absurd hdir hnot
  | instr hnot => exact absurd hdir hnot

theorem StatementAt.of_not_directive {item : Item} (h : StatementAt s ts item rest)
    (hdir : ¬ IsDirective (cur ts)) :
    s = [] ∧ (cur ts).type ≠ .atSign ∧ (peek ts).type = .colon ∨
      ∃ instr, InstrAt s ts instr rest := by
  cases h with
  | reg ht htext => exact absurd (isDirective_reg ht htext) hdir
  | directive ht => exact absurd ht hdir
  | lastDirective ht => exact absurd ht hdir
  | label ht _ hc =>
    refine .inl ⟨rfl, ?_, hc⟩
    rcases ht with ht | ht <;> simp [ht]
  | instr _ h => exact .inr ⟨_, h⟩

/-- The slips of the statement under the cursor, and where it ends, are determined by the tokens. -/
theorem StatementAt.unique {item item' : Item} (h : StatementAt s ts item rest)
    (h' : StatementAt s' ts item' rest') : s = s' ∧ rest = rest' := by
  refine ⟨?_, (Parsed.ok.inj ((h.parse {}).symm.trans (h'.parse {}))).2⟩
  by_cases hdir : IsDirective (cur ts)
  · by_cases hreg : (cur ts).text = ".reg".toList
    · obtain ⟨s₁, s₂, count, mid, rfl, hcount, hend⟩ := h.of_reg hdir.1 hreg
      obtain ⟨s₁', s₂', count', mid', rfl, hcount', hend'⟩ := h'.of_reg hdir.1 hreg
      obtain ⟨-, rfl⟩ :=
        Prod.ext_iff.1 (hcount.parseCount_eq.symm.trans hcount'.parseCount_eq)
      rw [hcount.unique hcount', hend.slips, hend'.slips]
    · rw [h.of_directive hdir hreg, h'.of_directive hdir hreg]
  · rcases h.of_not_directive hdir with ⟨rfl, hat, hcolon⟩ | ⟨instr, hinstr⟩
    · rcases h'.of_not_directive hdir with ⟨rfl, -, -⟩ | ⟨instr', hinstr'⟩
      · rfl
      · exact absurd hcolon (hinstr'.peek_type hat)
    · rcases h'.of_not_directive hdir with ⟨rfl, hat, hcolon⟩ | ⟨instr', hinstr'⟩
      · exact absurd hcolon (hinstr.peek_type hat)
      · exact hinstr.unique hinstr'

theorem BodyAt.unique {items items' : List Item} (h : BodyAt s ts items rest)
    (h' : BodyAt s' ts items' rest') : s = s' := by
  obtain ⟨hitems, hend⟩ := h
  obtain ⟨hitems', hend'⟩ := h'
  induction hitems generalizing s' items' with
  | nil =>
    cases hitems' with
    | nil => rfl
    | cons hitem _ => exact absurd hend hitem.not_endsBody
  | cons hitem _ ih =>
    cases hitems' with
    | nil => exact absurd hend' hitem.not_endsBody
    | cons hitem' hitems' =>
      obtain ⟨rfl, rfl⟩ := hitem.unique hitem'
      rw [ih hend hitems']

end Slips

end RiscvGpgpu.Ptx
