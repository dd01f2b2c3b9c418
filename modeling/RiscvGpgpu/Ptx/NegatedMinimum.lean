import RiscvGpgpu.Ptx.BodyGrammar

/-!
# Where the parser negates the least number

`-cur().ival` overflows for the least 64-bit number. The parser comes to it at an operand behind a
`-`, or at an offset behind a `-`, in the body of the kernel that it takes; every other minus sign
it skips or reports.
-/

namespace RiscvGpgpu.Ptx

/-! ## Rules -/

/-- A minus sign and the least 64-bit number. -/
inductive NegatesMin : List Token → Prop
  | mk {m n : Token} {rest : List Token} (hm : m.type = .minus) (hn : n.type = .int)
      (hmin : n.ival = -2 ^ 63) : NegatesMin (m :: n :: rest)

/-- The operand here is `-n`, or `[%r-n]`, for the least `n`. -/
inductive OperandNegates : List Token → Prop
  | int {ts : List Token} (h : NegatesMin ts) : OperandNegates ts
  | offset {o p : Token} {ts : List Token} (ho : o.type = .lbracket) (hp : p.type = .percent)
      (h : NegatesMin ts) : OperandNegates (o :: p :: ts)

/-- One of the operands is, and the ones before it are operands. -/
inductive OperandsNegate : List Token → Prop
  | here {ts : List Token} (h : OperandNegates ts) : OperandsNegate ts
  | there {s₁ s₂ : List Slip} {ts mid next : List Token} {op : PtxOperand}
      (hop : OperandAt s₁ ts op mid) (hsep : SeparatorAt s₂ mid next) (h : OperandsNegate next) :
      OperandsNegate ts

inductive OpcodeNegates : List Token → Prop
  | mk {t : Token} {ts : List Token} (ht : t.type = .word) (h : OperandsNegate ts) :
      OpcodeNegates (t :: ts)

inductive InstrNegates : List Token → Prop
  | plain {ts : List Token} (h : OpcodeNegates ts) : InstrNegates ts
  | guarded {a p : Token} {ts : List Token} (ha : a.type = .atSign) (hp : p.type = .percent)
      (h : OpcodeNegates ts) : InstrNegates (a :: p :: ts)
  | negated {a b p : Token} {ts : List Token} (ha : a.type = .atSign) (hb : b.type = .bang)
      (hp : p.type = .percent) (h : OpcodeNegates ts) : InstrNegates (a :: b :: p :: ts)

/-- One of the statements is an instruction with such an operand, and the ones before it are
statements. -/
def BodyNegates (ts : List Token) : Prop :=
  ∃ s items mid, StatementsAt s ts items mid ∧ ¬ IsDirective (cur mid) ∧ InstrNegates mid

/-- A kernel name, its parameters and whatever is in front of the opening brace. -/
def KernelBodyAt (k : PtxKernel) (ts body : List Token) : Prop :=
  (cur ts).type = .word ∧ ∃ k' rest b,
    parseParamList { k with name := (cur ts).text } ts.tail = .ok k' rest ∧
    rest.dropWhile (fun t => t.type ≠ .lbrace && t.type ≠ .endOfText) = b :: body ∧
    b.type = .lbrace

/-- The body of the first kernel begins at `body`. -/
inductive EntryBodyAt : PtxKernel → List Token → List Token → Prop
  | addressSize {k : PtxKernel} {t : Token} {ts body : List Token} (ht : t.type = .word)
      (htext : t.text = ".address_size".toList) (hint : (cur ts).type = .int)
      (hval : (cur ts).ival = 32 ∨ (cur ts).ival = 64)
      (h : EntryBodyAt
        { k with addressSize := BitVec.ofInt 32 (cur ts).ival, addressSizeSeen := true }
        ts.tail body) :
      EntryBodyAt k (t :: ts) body
  | entry {k : PtxKernel} {t : Token} {ts body : List Token} (ht : t.type = .word)
      (htext : t.text = ".entry".toList) (h : KernelBodyAt k ts body) : EntryBodyAt k (t :: ts) body
  /-- Nothing else is looked at. -/
  | other {k : PtxKernel} {t : Token} {ts body : List Token} (hend : t.type ≠ .endOfText)
      (hsize : ¬ (t.type = .word ∧ t.text = ".address_size".toList))
      (hentry : ¬ (t.type = .word ∧ t.text = ".entry".toList)) (h : EntryBodyAt k ts body) :
      EntryBodyAt k (t :: ts) body

/-! ## Loops -/

section Undefined

variable {ts : List Token}

theorem Parsed.bind_eq_undefined {α β : Type} {r : Parsed α} {f : α → List Token → Parsed β} :
    r.bind f = .undefined ↔ r = .undefined ∨ ∃ a rest, r = .ok a rest ∧ f a rest = .undefined := by
  cases r with
  | ok a rest => simp [Parsed.bind]
  | error message => simp [Parsed.bind]
  | undefined => simp [Parsed.bind]

/-- What holds where a round is undefined, and in front of a round where it holds behind it, holds
in front of a loop that is undefined. -/
theorem Body.loop_undefined {α : Type} {body : Body α} {stop : Token → Bool}
    {P : List Token → Prop} (hhere : ∀ a ts, body.run a ts = .undefined → P ts)
    (hthere : ∀ a ts a' mid, body.run a ts = .ok a' mid → P mid → P ts) {a : α}
    (h : body.loop stop a ts = .undefined) : P ts := by
  induction hn : ts.length using Nat.strong_induction_on generalizing a ts with
  | _ n ih =>
    subst hn
    by_cases hend : stop (cur ts) = true ∨ (cur ts).type = .endOfText
    · rw [Body.loop_of_stop hend] at h
      exact absurd h (by simp)
    · rw [Body.loop_of_not_stop hend, Parsed.bind_eq_undefined] at h
      rcases h with hrun | ⟨a', mid, hrun, hloop⟩
      · exact hhere a ts hrun
      · have hlt := length_lt_of_suffix (fun h => hend (.inr h)) (body.advances hrun)
        exact hthere a ts a' mid hrun (ih _ hlt hloop rfl)

theorem Body.loop_ne_undefined {α : Type} {body : Body α} {stop : Token → Bool}
    (hrun : ∀ a ts, body.run a ts ≠ .undefined) (a : α) :
    body.loop stop a ts ≠ .undefined :=
  Body.loop_undefined (P := fun _ => False) hrun fun _ _ _ _ _ h => h

theorem neg64_eq_none_iff {v : ℤ} : neg64 v = none ↔ v = -2 ^ 63 := by
  unfold neg64
  by_cases h : v = -2 ^ 63
  · rw [if_pos h]
    exact iff_of_true rfl h
  · rw [if_neg h]
    exact iff_of_false (Option.some_ne_none _) h

/-! ## Operands -/

/-- A parse function that asks for a token and overflows has found it. -/
theorem Parsed.guard_eq_undefined {α : Type} {c : Prop} [Decidable c] {message : List Char}
    {r : Parsed α} :
    (if c then .error message else r) = .undefined ↔ ¬ c ∧ r = .undefined := by
  by_cases hc : c
  · rw [if_pos hc]
    exact iff_of_false (by simp) fun h => h.1 hc
  · rw [if_neg hc]
    exact (and_iff_right hc).symm

theorem closeMemRef_ne_undefined (op : PtxOperand) (ts : List Token) :
    closeMemRef op ts ≠ .undefined := by
  unfold closeMemRef
  split_ifs <;> simp

theorem offset_of_parse {o : Token} (ho : o.type = .lbracket)
    (h : parseMemRef (o :: ts) = .undefined) : OperandNegates (o :: ts) := by
  unfold parseMemRef at h
  dsimp only [List.tail_cons] at h
  split at h
  · next hp =>
    obtain ⟨p, ts, rfl, hp⟩ := exists_cons_of_cur hp (by decide)
    dsimp only [List.tail_cons] at h
    split at h
    · exact absurd (Parsed.guard_eq_undefined.1 h).2 (closeMemRef_ne_undefined _ _)
    · next hm =>
      obtain ⟨m, ts, rfl, hm⟩ := exists_cons_of_cur hm (by decide)
      dsimp only [List.tail_cons] at h
      obtain ⟨hint, h⟩ := Parsed.guard_eq_undefined.1 h
      obtain ⟨n, ts, rfl, hn⟩ := exists_cons_of_cur (not_not.1 hint) (by decide)
      split at h
      · next hnone => exact .offset ho hp (.mk hm hn (neg64_eq_none_iff.1 hnone))
      · exact absurd h (closeMemRef_ne_undefined _ _)
    · by_cases hsign : (cur ts).ival < 0
      · simp only [hsign, if_true] at h
        exact absurd h (closeMemRef_ne_undefined _ _)
      · simp only [hsign, if_false] at h
        exact absurd h (closeMemRef_ne_undefined _ _)
    · exact absurd h (closeMemRef_ne_undefined _ _)
  · split at h
    · exact absurd (Parsed.guard_eq_undefined.1 h).2 (closeMemRef_ne_undefined _ _)
    · exact absurd h (closeMemRef_ne_undefined _ _)
  · exact absurd h (by simp)

theorem parseOperand_eq_undefined_iff : parseOperand ts = .undefined ↔ OperandNegates ts := by
  constructor
  · intro h
    unfold parseOperand at h
    split at h
    case h_3 ho =>
      obtain ⟨o, ts, rfl, ho⟩ := exists_cons_of_cur ho (by decide)
      exact offset_of_parse ho h
    case h_6 hm =>
      obtain ⟨m, ts, rfl, hm⟩ := exists_cons_of_cur hm (by decide)
      dsimp only [List.tail_cons] at h
      split at h
      · next hn =>
        obtain ⟨n, ts, rfl, hn⟩ := exists_cons_of_cur hn (by decide)
        split at h
        · next hnone => exact .int (.mk hm hn (neg64_eq_none_iff.1 hnone))
        · exact absurd h (by simp)
      · exact absurd h (by simp)
      · exact absurd h (by simp)
    all_goals exact absurd h (by simp)
  · rintro (⟨⟨hm, hn, hmin⟩⟩ | ⟨ho, hp, ⟨hm, hn, hmin⟩⟩)
    · simp [parseOperand, hm, hn, neg64_eq_none_iff.2 hmin]
    · simp [parseOperand, parseMemRef, ho, hp, hm, hn, neg64_eq_none_iff.2 hmin]

theorem OperandNegates.not_ends (h : OperandNegates ts) : ¬ Ends (cur ts) := by
  rcases h with ⟨⟨hm, -, -⟩⟩ | ⟨ho, -, -⟩
  · simp [Ends, endsOperands, hm]
  · simp [Ends, endsOperands, ho]

theorem operands_eq_undefined_iff {ops : List PtxOperand} :
    parseOperands.loop endsOperands ops ts = .undefined ↔ OperandsNegate ts := by
  constructor
  · apply Body.loop_undefined
    · intro ops ts hrun
      rcases Parsed.bind_eq_undefined.1 hrun with hop | ⟨op, mid, -, h⟩
      · exact .here (parseOperand_eq_undefined_iff.1 hop)
      · exact absurd h (by simp)
    · intro ops ts ops' next hrun hnext
      obtain ⟨op, mid, hop, hrun⟩ := Parsed.bind_eq_ok hrun
      obtain ⟨-, rfl⟩ := Parsed.ok.inj hrun
      obtain ⟨s₁, hop⟩ := parseOperand_ok hop
      obtain ⟨s₂, hsep⟩ := separatorAt_skip mid
      exact .there hop hsep hnext
  · intro h
    induction h generalizing ops with
    | here h =>
      rw [Body.loop_of_not_stop h.not_ends, Parsed.bind_eq_undefined]
      left
      exact Parsed.bind_eq_undefined.2 (.inl (parseOperand_eq_undefined_iff.2 h))
    | @there _ _ ts mid next op hop hsep _ ih =>
      have hrun : parseOperands.run ops ts = .ok (ops ++ [op]) next := by
        show (parseOperand ts).bind _ = _
        rw [hop.parse, Parsed.bind, hsep.skip_eq]
      rw [Body.loop_of_not_stop hop.not_ends, hrun, Parsed.bind]
      exact ih

/-! ## Statements -/

theorem parseOpcode_eq_undefined_iff {instr : PtxInstr} :
    parseOpcode instr ts = .undefined ↔ OpcodeNegates ts := by
  constructor
  · intro h
    unfold parseOpcode at h
    obtain ⟨hword, h⟩ := Parsed.guard_eq_undefined.1 h
    obtain ⟨t, ts, rfl, ht⟩ := exists_cons_of_cur (not_not.1 hword) (by decide)
    rcases Parsed.bind_eq_undefined.1 h with hops | ⟨ops, rest, -, h⟩
    · exact .mk ht (operands_eq_undefined_iff.1 hops)
    · exact absurd h (by simp)
  · rintro ⟨ht, h⟩
    unfold parseOpcode
    rw [cur_cons, if_neg (not_not.2 ht), List.tail_cons]
    exact Parsed.bind_eq_undefined.2 (.inl (operands_eq_undefined_iff.2 h))

theorem OpcodeNegates.cur_type (h : OpcodeNegates ts) : (cur ts).type = .word := by
  obtain ⟨ht, -⟩ := h
  exact ht

theorem instrNegates_of_parse (h : parseInstr ts = .undefined) : InstrNegates ts := by
  unfold parseInstr at h
  dsimp only at h
  split_ifs at h with hat hpercent
  · obtain ⟨a, ts, rfl, ha⟩ := exists_cons_of_cur hat (by decide)
    rw [List.tail_cons] at hpercent h
    have hnegates := parseOpcode_eq_undefined_iff.1 h
    obtain ⟨p, rest, hskip, hp⟩ := exists_cons_of_cur (not_not.1 hpercent) (by decide)
    rw [hskip, List.tail_cons] at hnegates
    by_cases hbang : (cur ts).type = .bang
    · obtain ⟨b, ts, rfl, hb⟩ := exists_cons_of_cur hbang (by decide)
      rw [skip, if_pos hbang, List.tail_cons] at hskip
      subst hskip
      exact .negated ha hb hp hnegates
    · rw [skip, if_neg hbang] at hskip
      subst hskip
      exact .guarded ha hp hnegates
  · exact .plain (parseOpcode_eq_undefined_iff.1 h)

theorem parseInstr_eq_undefined_iff : parseInstr ts = .undefined ↔ InstrNegates ts := by
  refine ⟨instrNegates_of_parse, fun h => ?_⟩
  cases h with
  | plain h =>
    have hat : (cur ts).type ≠ .atSign := by
      rw [h.cur_type]
      decide
    rw [parseInstr, if_neg hat, parseOpcode_eq_undefined_iff.2 h]
  | guarded ha hp h => simp [parseInstr, skip, ha, hp, parseOpcode_eq_undefined_iff.2 h]
  | negated ha hb hp h => simp [parseInstr, skip, ha, hb, hp, parseOpcode_eq_undefined_iff.2 h]

theorem OperandsNegate.ne_colon (h : OperandsNegate ts) : (cur ts).type ≠ .colon := by
  cases h with
  | here h =>
    rcases h with ⟨⟨hm, -, -⟩⟩ | ⟨ho, -, -⟩
    · simp [hm]
    · simp [ho]
  | there hop _ _ => exact hop.ne_colon

/-- Such an instruction is no label. -/
theorem InstrNegates.not_label (h : InstrNegates ts) :
    ¬ (((cur ts).type = .dollar ∨ (cur ts).type = .word) ∧ (peek ts).type = .colon) := by
  rintro ⟨ht, hcolon⟩
  cases h with
  | plain h =>
    obtain ⟨-, h⟩ := h
    exact h.ne_colon hcolon
  | guarded ha => rcases ht with ht | ht <;> simp [ha] at ht
  | negated ha => rcases ht with ht | ht <;> simp [ha] at ht

theorem parseRegDecl_ne_undefined (k : PtxKernel) (ts : List Token) :
    parseRegDecl k ts ≠ .undefined := by
  unfold parseRegDecl
  dsimp only
  split_ifs
  · simp
  · split <;> simp
  · split <;> simp

theorem parseStatement_eq_undefined_iff {k : PtxKernel} :
    parseStatement k ts = .undefined ↔ ¬ IsDirective (cur ts) ∧ InstrNegates ts := by
  rw [parseStatement_eq]
  constructor
  · intro h
    split_ifs at h with hreg hdirective hlabel
    · exact absurd h (parseRegDecl_ne_undefined k ts)
    · rcases Parsed.bind_eq_undefined.1 h with hinstr | ⟨instr, rest, -, h⟩
      · exact ⟨hdirective, parseInstr_eq_undefined_iff.1 hinstr⟩
      · exact absurd h (by simp)
  · rintro ⟨hdirective, h⟩
    rw [if_neg fun hreg => hdirective (isDirective_reg hreg.1 hreg.2), if_neg hdirective,
      if_neg h.not_label]
    exact Parsed.bind_eq_undefined.2 (.inl (parseInstr_eq_undefined_iff.2 h))

theorem InstrNegates.not_endsBody (h : InstrNegates ts) : ¬ EndsBody (cur ts) := by
  have htype : (cur ts).type = .atSign ∨ (cur ts).type = .word := by
    cases h with
    | plain h => exact .inr h.cur_type
    | guarded ha => exact .inl ha
    | negated ha => exact .inl ha
  unfold EndsBody endsBody
  rcases htype with htype | htype <;> simp [htype]

theorem loop_eq_undefined_iff {k : PtxKernel} :
    parseBody.loop endsBody k ts = .undefined ↔ BodyNegates ts := by
  constructor
  · apply Body.loop_undefined
    · intro k ts hrun
      exact ⟨[], [], ts, .nil, parseStatement_eq_undefined_iff.1 hrun⟩
    · rintro k ts k' mid hrun ⟨s₂, items, rest, hitems, hnegates⟩
      obtain ⟨s₁, item, hitem, -⟩ := statementAt_of_parse hrun
      exact ⟨_, item :: items, rest, .cons hitem hitems, hnegates⟩
  · rintro ⟨s, items, mid, hitems, hdirective, hnegates⟩
    rw [hitems.loop, Body.loop_of_not_stop hnegates.not_endsBody, Parsed.bind_eq_undefined]
    exact .inl (parseStatement_eq_undefined_iff.2 ⟨hdirective, hnegates⟩)

/-! ## Kernels -/

theorem parseAttribute_ne_undefined (p : PtxParam) (ts : List Token) :
    parseAttribute p ts ≠ .undefined := by
  unfold parseAttribute
  dsimp only
  split_ifs <;> simp

theorem expect_ne_undefined {α : Type} (type : TK) (hint : List Char) (a : α) (ts : List Token) :
    expect type hint a ts ≠ .undefined := by
  unfold expect
  split_ifs <;> simp

theorem parseParam_ne_undefined (index : BitVec 32) (ts : List Token) :
    parseParam index ts ≠ .undefined := by
  unfold parseParam
  split_ifs
  · simp
  · rw [Ne, Parsed.bind_eq_undefined]
    rintro (h | ⟨p, rest, -, h⟩)
    · exact Body.loop_ne_undefined parseAttribute_ne_undefined _ h
    · split_ifs at h

theorem parseParamList_ne_undefined (k : PtxKernel) (ts : List Token) :
    parseParamList k ts ≠ .undefined := by
  unfold parseParamList
  split_ifs
  · rw [Ne, Parsed.bind_eq_undefined]
    rintro (h | ⟨params, rest, -, h⟩)
    · refine Body.loop_ne_undefined (fun out ts hrun => ?_) _ h
      rcases Parsed.bind_eq_undefined.1 hrun with hparam | ⟨p, rest, -, h⟩
      · exact parseParam_ne_undefined _ _ hparam
      · exact absurd h (by simp)
    · exact expect_ne_undefined _ _ _ _ h
  · simp

theorem parseKernel_eq_undefined_iff {k : PtxKernel} :
    parseKernel k ts = .undefined ↔ ∃ body, KernelBodyAt k ts body ∧ BodyNegates body := by
  constructor
  · intro h
    unfold parseKernel at h
    obtain ⟨hword, h⟩ := Parsed.guard_eq_undefined.1 h
    rcases Parsed.bind_eq_undefined.1 h with hparams | ⟨k', rest, hparams, h⟩
    · exact absurd hparams (parseParamList_ne_undefined _ _)
    · dsimp only at h
      split_ifs at h with hbrace
      obtain ⟨b, body, hdrop, hb⟩ := exists_cons_of_cur (not_not.1 hbrace) (by decide)
      rw [hdrop, List.tail_cons] at h
      rcases Parsed.bind_eq_undefined.1 h with hbody | ⟨k'', rest', -, h⟩
      · exact ⟨body, ⟨not_not.1 hword, k', rest, b, hparams, hdrop, hb⟩,
          loop_eq_undefined_iff.1 hbody⟩
      · exact absurd h (expect_ne_undefined _ _ _ _)
  · rintro ⟨body, ⟨hword, k', rest, b, hparams, hdrop, hb⟩, hbody⟩
    unfold parseKernel
    rw [if_neg (not_not.2 hword), hparams, Parsed.bind]
    dsimp only
    rw [hdrop, cur_cons, if_neg (not_not.2 hb), List.tail_cons]
    exact Parsed.bind_eq_undefined.2 (.inl (loop_eq_undefined_iff.2 hbody))

theorem parseEntry_eq_undefined_iff {k : PtxKernel} :
    parseEntry k ts = .undefined ↔ ∃ body, EntryBodyAt k ts body ∧ BodyNegates body := by
  induction k, ts using parseEntry.induct with
  | case1 k =>
    rw [parseEntry]
    refine iff_of_false (by simp) ?_
    rintro ⟨body, hentry, -⟩
    cases hentry
  | case2 k t ts hend =>
    rw [parseEntry, if_pos hend]
    refine iff_of_false (by simp) ?_
    rintro ⟨body, hentry, -⟩
    cases hentry with
    | addressSize ht => exact absurd (ht.symm.trans hend) (by decide)
    | entry ht => exact absurd (ht.symm.trans hend) (by decide)
    | other hnot => exact hnot hend
  | case3 k t ts hend hsize hbad =>
    rw [parseEntry, if_neg hend, if_pos hsize, if_pos hbad]
    refine iff_of_false (by simp) ?_
    rintro ⟨body, hentry, -⟩
    cases hentry with
    | addressSize _ _ hint hval =>
      rcases hbad with hbad | ⟨h32, h64⟩
      · exact hbad hint
      · exact hval.elim h32 h64
    | entry _ htext => exact absurd (htext.symm.trans hsize.2) (by decide)
    | other _ hnot => exact hnot hsize
  | case4 k t ts hend hsize hgood ih =>
    rw [parseEntry, if_neg hend, if_pos hsize, if_neg hgood, ih]
    refine exists_congr fun body => and_congr_left fun _ => ?_
    constructor
    · intro hentry
      rw [not_or, not_and_or, not_not, not_not, not_not] at hgood
      exact .addressSize hsize.1 hsize.2 hgood.1 hgood.2 hentry
    · intro hentry
      cases hentry with
      | addressSize _ _ _ _ h => exact h
      | entry _ htext => exact absurd (htext.symm.trans hsize.2) (by decide)
      | other _ hnot => exact absurd hsize hnot
  | case5 k t ts hend hsize hentry =>
    rw [parseEntry, if_neg hend, if_neg hsize, if_pos hentry, parseKernel_eq_undefined_iff]
    refine exists_congr fun body => and_congr_left fun _ => ?_
    constructor
    · exact .entry hentry.1 hentry.2
    · intro h
      cases h with
      | addressSize ht htext => exact absurd ⟨ht, htext⟩ hsize
      | entry _ _ h => exact h
      | other _ _ hnot => exact absurd hentry hnot
  | case6 k t ts hend hsize hentry ih =>
    rw [parseEntry, if_neg hend, if_neg hsize, if_neg hentry, ih]
    refine exists_congr fun body => and_congr_left fun _ => ?_
    constructor
    · exact .other hend hsize hentry
    · intro h
      cases h with
      | addressSize ht htext => exact absurd ⟨ht, htext⟩ hsize
      | entry ht htext => exact absurd ⟨ht, htext⟩ hentry
      | other _ _ _ h => exact h

end Undefined

/-! ## Texts without such a number -/

/-- The least 64-bit number does not stand behind a minus sign of its own. -/
def NoNegatedMinimum (ts : List Token) : Prop :=
  ∀ t u rest, t :: u :: rest <:+ ts → t.type = .minus → u.type = .int → u.ival ≠ -2 ^ 63

section Suffix

variable {ts rest : List Token}

theorem NoNegatedMinimum.not_negatesMin (h : NoNegatedMinimum ts) (hrest : rest <:+ ts) :
    ¬ NegatesMin rest := by
  rintro ⟨hm, hn, hmin⟩
  exact h _ _ _ hrest hm hn hmin

theorem OperandsNegate.exists_suffix (h : OperandsNegate ts) :
    ∃ rest, rest <:+ ts ∧ NegatesMin rest := by
  induction h with
  | here h =>
    cases h with
    | int h => exact ⟨_, List.suffix_refl _, h⟩
    | offset _ _ h => exact ⟨_, (List.suffix_cons _ _).trans (List.suffix_cons _ _), h⟩
  | there hop hsep _ ih =>
    obtain ⟨rest, hrest, hmin⟩ := ih
    have hmid := (parseOperand_suffix hop.parse).trans (List.tail_suffix _)
    exact ⟨rest, hrest.trans ((hsep.skip_eq ▸ skip_suffix _ _).trans hmid), hmin⟩

theorem OpcodeNegates.exists_suffix (h : OpcodeNegates ts) :
    ∃ rest, rest <:+ ts ∧ NegatesMin rest := by
  obtain ⟨-, h⟩ := h
  obtain ⟨rest, hrest, hmin⟩ := h.exists_suffix
  exact ⟨rest, hrest.trans (List.suffix_cons _ _), hmin⟩

theorem InstrNegates.exists_suffix (h : InstrNegates ts) :
    ∃ rest, rest <:+ ts ∧ NegatesMin rest := by
  cases h with
  | plain h => exact h.exists_suffix
  | @guarded a p ts _ _ h =>
    obtain ⟨rest, hrest, hmin⟩ := h.exists_suffix
    exact ⟨rest, hrest.trans (List.suffix_append [a, p] ts), hmin⟩
  | @negated a b p ts _ _ _ h =>
    obtain ⟨rest, hrest, hmin⟩ := h.exists_suffix
    exact ⟨rest, hrest.trans (List.suffix_append [a, b, p] ts), hmin⟩

theorem StatementsAt.suffix {s : List Slip} {items : List Item}
    (h : StatementsAt s ts items rest) : rest <:+ ts := by
  induction h with
  | nil => exact List.suffix_refl _
  | cons hitem _ ih =>
    exact ih.trans ((parseStatement_ok (hitem.parse {})).1.trans (List.tail_suffix _))

theorem NoNegatedMinimum.not_bodyNegates (h : NoNegatedMinimum ts) : ¬ BodyNegates ts := by
  rintro ⟨s, items, mid, hitems, -, hnegates⟩
  obtain ⟨rest, hrest, hmin⟩ := hnegates.exists_suffix
  exact h.not_negatesMin (hrest.trans hitems.suffix) hmin

end Suffix

end RiscvGpgpu.Ptx
