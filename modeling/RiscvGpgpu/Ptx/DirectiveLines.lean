import RiscvGpgpu.Ptx.BodyGrammar
import RiscvGpgpu.Ptx.TextLines

/-!
# Directives in a kernel body

`parseBody` skips a directive up to the next semicolon. The syntax of `.loc` has none, so the
statement behind it is lost. What deleting a line with a directive changes is said of the texts:
whole lines are tokenized on their own, and the statements in front of a directive do not depend on
it.
-/

namespace RiscvGpgpu.Ptx

/-! ## What a rule takes -/

section Taken

variable {s : List Slip} {ts rest : List Token}

theorem ends_iff {t : Token} :
    Ends t ↔ t.type = .semicolon ∨ t.type = .rbrace ∨ t.type = .endOfText := by
  unfold Ends endsOperands
  rw [Bool.or_eq_true, decide_eq_true_iff, decide_eq_true_iff, or_assoc]

/-- The tokens `u`, none of which is an end, are taken by the rule `R`, whatever is behind them, if
only `P` holds of it. -/
def Takes (R : List Token → List Token → Prop) (P : List Token → Prop) (ts rest : List Token) :
    Prop :=
  ∃ u, ts = u ++ rest ∧ (∀ t ∈ u, ¬ Ends t) ∧ ∀ rest', P rest' → R (u ++ rest') rest'

/-- The next token is of the same type. -/
def SameNext (rest rest' : List Token) : Prop := (cur rest').type = (cur rest).type

theorem SameNext.append (u : List Token) {rest' : List Token} (h : SameNext rest rest') :
    SameNext (u ++ rest) (u ++ rest') := by
  cases u with
  | nil => exact h
  | cons t u => exact rfl

theorem SameNext.ends {rest' : List Token} (h : SameNext rest rest') :
    Ends (cur rest') ↔ Ends (cur rest) := by
  rw [ends_iff, ends_iff, h]

theorem MemRefAt.takes {op : PtxOperand} (h : MemRefAt ts op rest) :
    Takes (MemRefAt · op ·) (fun _ => True) ts rest := by
  cases h with
  | @base o p c _ ho hp hc =>
    exact ⟨[o, p, c], rfl, by simp [ends_iff, ho, hp, hc], fun _ _ => .base ho hp hc⟩
  | @plus o p s n c _ ho hp hs hn hc =>
    exact ⟨[o, p, s, n, c], rfl, by simp [ends_iff, ho, hp, hs, hn, hc],
      fun _ _ => .plus ho hp hs hn hc⟩
  | @minus o p s n c _ _ ho hp hs hn hv hc =>
    exact ⟨[o, p, s, n, c], rfl, by simp [ends_iff, ho, hp, hs, hn, hc],
      fun _ _ => .minus ho hp hs hn hv hc⟩
  | @signed o p n c _ ho hp hn hneg hc =>
    exact ⟨[o, p, n, c], rfl, by simp [ends_iff, ho, hp, hn, hc],
      fun _ _ => .signed ho hp hn hneg hc⟩
  | @symbol o w c _ ho hw hc =>
    exact ⟨[o, w, c], rfl, by simp [ends_iff, ho, hw, hc], fun _ _ => .symbol ho hw hc⟩
  | @symbolPlus o w s n c _ ho hw hs hn hc =>
    exact ⟨[o, w, s, n, c], rfl, by simp [ends_iff, ho, hw, hs, hn, hc],
      fun _ _ => .symbolPlus ho hw hs hn hc⟩

theorem OperandAt.takes {op : PtxOperand} (h : OperandAt s ts op rest) :
    Takes (OperandAt s · op ·) (SameNext rest) ts rest := by
  cases h with
  | @reg t _ ht => exact ⟨[t], rfl, by simp [ends_iff, ht], fun _ _ => .reg ht⟩
  | @label t _ ht =>
    refine ⟨[t], rfl, ?_, fun _ _ => .label ht⟩
    rcases ht with ht | ht <;> simp [ends_iff, ht]
  | memRef h =>
    obtain ⟨u, rfl, hu, htakes⟩ := h.takes
    exact ⟨u, rfl, hu, fun rest' _ => .memRef (htakes rest' trivial)⟩
  | @int t _ ht => exact ⟨[t], rfl, by simp [ends_iff, ht], fun _ _ => .int ht⟩
  | @float t _ ht => exact ⟨[t], rfl, by simp [ends_iff, ht], fun _ _ => .float ht⟩
  | @negInt m t _ _ hm ht hv =>
    exact ⟨[m, t], rfl, by simp [ends_iff, hm, ht], fun _ _ => .negInt hm ht hv⟩
  | @negFloat m t _ hm ht =>
    exact ⟨[m, t], rfl, by simp [ends_iff, hm, ht], fun _ _ => .negFloat hm ht⟩
  | @loneMinus m _ hm hint hfloat =>
    refine ⟨[m], rfl, by simp [ends_iff, hm], fun _ hnext => .loneMinus hm ?_ ?_⟩
    · exact fun heq => hint (hnext.symm.trans heq)
    · exact fun heq => hfloat (hnext.symm.trans heq)

theorem SeparatorAt.takes (h : SeparatorAt s ts rest) :
    Takes (SeparatorAt s · ·) (SameNext rest) ts rest := by
  cases h with
  | @comma c _ hc h =>
    exact ⟨[c], rfl, by simp [ends_iff, hc], fun _ hnext => .comma hc (mt hnext.ends.1 h)⟩
  | last h => exact ⟨[], rfl, by simp, fun _ hnext => .last (hnext.ends.2 h)⟩
  | @trailing c _ hc h =>
    exact ⟨[c], rfl, by simp [ends_iff, hc], fun _ hnext => .trailing hc (hnext.ends.2 h)⟩
  | missing hc h =>
    refine ⟨[], rfl, by simp, fun _ hnext => .missing ?_ (mt hnext.ends.1 h)⟩
    exact fun heq => hc (hnext.symm.trans heq)

theorem OperandsAt.takes {ops : List PtxOperand} (h : OperandsAt s ts ops rest) :
    Takes (OperandsAt s · ops ·) (SameNext rest) ts rest := by
  induction h with
  | nil hend => exact ⟨[], rfl, by simp, fun _ hnext => .nil (hnext.ends.2 hend)⟩
  | cons hop hsep _ ih =>
    obtain ⟨u₃, rfl, hu₃, hops⟩ := ih
    obtain ⟨u₂, rfl, hu₂, hsep⟩ := hsep.takes
    obtain ⟨u₁, rfl, hu₁, hop⟩ := hop.takes
    have hu : ∀ t ∈ u₁ ++ (u₂ ++ u₃), ¬ Ends t :=
      List.forall_mem_append.2 ⟨hu₁, List.forall_mem_append.2 ⟨hu₂, hu₃⟩⟩
    refine ⟨u₁ ++ (u₂ ++ u₃), by simp, hu, ?_⟩
    intro rest' hnext
    rw [List.append_assoc, List.append_assoc]
    exact .cons (hop _ ((hnext.append u₃).append u₂)) (hsep _ (hnext.append u₃)) (hops _ hnext)

/-- A place where a statement may begin, or the body end. -/
def Starts (t : Token) : Prop :=
  t.type = .atSign ∨ t.type = .word ∨ t.type = .dollar ∨ t.type = .rbrace ∨ t.type = .endOfText

theorem Starts.ne {t : Token} (h : Starts t) : t.type ≠ .semicolon ∧ t.type ≠ .langle ∧
    t.type ≠ .int ∧ t.type ≠ .rangle := by
  rcases h with h | h | h | h | h <;> simp [h]

/-- Not a part of a `<count>`. -/
def NoCount (ts : List Token) : Prop :=
  (cur ts).type ≠ .langle ∧ (cur ts).type ≠ .int ∧ (cur ts).type ≠ .rangle

theorem CountAt.takes {count : BitVec 32} (h : CountAt s ts count rest) :
    Takes (CountAt s · count ·) NoCount ts rest := by
  cases h with
  | none _ => exact ⟨[], rfl, by simp, fun _ hnext => .none hnext.1⟩
  | @count _ l n _ _ hl hn hend =>
    cases hend with
    | @present r _ hr =>
      exact ⟨[l, n, r], rfl, by simp [ends_iff, hl, hn, hr], fun _ _ => .count hl hn (.present hr)⟩
    | missing _ =>
      exact ⟨[l, n], rfl, by simp [ends_iff, hl, hn],
        fun _ hnext => .count hl hn (.missing hnext.2.2)⟩
  | @missing _ l _ _ hl hn hend =>
    cases hend with
    | @present r _ hr =>
      exact ⟨[l, r], rfl, by simp [ends_iff, hl, hr], fun _ _ => .missing hl hn (.present hr)⟩
    | missing _ =>
      exact ⟨[l], rfl, by simp [ends_iff, hl],
        fun _ hnext => .missing hl hnext.2.1 (.missing hnext.2.2)⟩

/-- The tokens `u` and a semicolon behind them, or none, are taken by the rule `R`, whatever
statement is behind them, unless it stands at the end of the body. -/
def TakesStatement (R : List Token → List Token → Prop) (ts rest : List Token) : Prop :=
  ∃ u e, ts = u ++ (e ++ rest) ∧ u ≠ [] ∧ (∀ t ∈ u, ¬ Ends t) ∧
    (e = [] ∨ ∃ c, e = [c] ∧ c.type = .semicolon) ∧
    (¬ Ends (cur rest) → ∀ rest', Starts (cur rest') → R (u ++ (e ++ rest')) rest')

theorem TakesStatement.append {R R' : List Token → List Token → Prop}
    (h : TakesStatement R ts rest) (v : List Token) (hv : ∀ t ∈ v, ¬ Ends t)
    (hR : ∀ ts rest, R ts rest → R' (v ++ ts) rest) : TakesStatement R' (v ++ ts) rest := by
  obtain ⟨u, e, rfl, hne, hu, he, htakes⟩ := h
  refine ⟨v ++ u, e, (List.append_assoc ..).symm, List.append_ne_nil_of_right_ne_nil v hne,
    List.forall_mem_append.2 ⟨hv, hu⟩, he, ?_⟩
  intro hnot rest' hstarts
  rw [List.append_assoc]
  exact hR _ _ (htakes hnot rest' hstarts)

theorem OperandsAt.ends {ops : List PtxOperand} (h : OperandsAt s ts ops rest) :
    Ends (cur rest) := by
  induction h with
  | nil hend => exact hend
  | cons _ _ _ ih => exact ih

theorem OpcodeAt.takes {guard instr : PtxInstr} (h : OpcodeAt guard s ts instr rest) :
    TakesStatement (OpcodeAt guard s · instr ·) ts rest := by
  cases h with
  | @mk _ _ t _ _ _ ops ht hops hend =>
    obtain ⟨u, rfl, hu, htakes⟩ := hops.takes
    have htu : ∀ t' ∈ t :: u, ¬ Ends t' :=
      List.forall_mem_cons.2 ⟨by simp [ends_iff, ht], hu⟩
    cases hend with
    | @present c _ hc =>
      exact ⟨t :: u, [c], rfl, List.cons_ne_nil t u, htu, .inr ⟨c, rfl, hc⟩,
        fun _ _ _ => .mk ht (htakes (c :: _) rfl) (.present hc)⟩
    | missing _ =>
      exact ⟨t :: u, [], rfl, List.cons_ne_nil t u, htu, .inl rfl,
        fun hnot => absurd hops.ends hnot⟩

theorem InstrAt.takes {instr : PtxInstr} (h : InstrAt s ts instr rest) :
    TakesStatement (InstrAt s · instr ·) ts rest := by
  cases h with
  | plain h => exact h.takes.append [] (by simp) fun _ _ h => .plain h
  | @guarded a p _ _ _ ha hp h =>
    exact h.takes.append [a, p] (by simp [ends_iff, ha, hp]) fun _ _ h => .guarded ha hp h
  | @negated a b p _ _ _ ha hb hp h =>
    exact h.takes.append [a, b, p] (by simp [ends_iff, ha, hb, hp])
      fun _ _ h => .negated ha hb hp h

theorem TokenAt.takes (h : TokenAt .semicolon .missingSemicolon s ts rest) :
    ∃ e, ts = e ++ rest ∧ (e = [] ∨ ∃ c, e = [c] ∧ c.type = .semicolon) ∧
      ∀ rest', Starts (cur rest') →
        NoCount (e ++ rest') ∧ TokenAt .semicolon .missingSemicolon s (e ++ rest') rest' := by
  cases h with
  | @present c _ hc =>
    refine ⟨[c], rfl, .inr ⟨c, rfl, hc⟩, fun rest' _ => ⟨?_, .present hc⟩⟩
    simp [NoCount, hc]
  | missing _ =>
    exact ⟨[], rfl, .inl rfl, fun rest' hstarts => ⟨hstarts.ne.2, .missing hstarts.ne.1⟩⟩

theorem StatementAt.takes {item : Item} (h : StatementAt s ts item rest) :
    TakesStatement (StatementAt s · item ·) ts rest := by
  cases h with
  | @reg _ _ t w p _ _ _ _ _ ht htext hw htype hp hcount hend =>
    obtain ⟨e, rfl, he, hend⟩ := hend.takes
    obtain ⟨u, rfl, hu, hcount⟩ := hcount.takes
    have htaken : ∀ t' ∈ t :: w :: p :: u, ¬ Ends t' := by
      simpa [ends_iff, ht, hw, hp] using hu
    refine ⟨t :: w :: p :: u, e, rfl, List.cons_ne_nil _ _, htaken, he,
      fun _ rest' hstarts => ?_⟩
    obtain ⟨hnext, hend⟩ := hend rest' hstarts
    exact .reg ht htext hw htype hp (hcount _ hnext) hend
  | @directive t c args _ ht hreg hargs hc =>
    exact ⟨t :: args, [c], rfl, List.cons_ne_nil t args,
      List.forall_mem_cons.2 ⟨not_ends_of_isDirective ht, hargs⟩, .inr ⟨c, rfl, hc⟩,
      fun _ _ _ => .directive ht hreg hargs hc⟩
  | @lastDirective t args _ ht hreg hargs hrest =>
    exact ⟨t :: args, [], rfl, List.cons_ne_nil t args,
      List.forall_mem_cons.2 ⟨not_ends_of_isDirective ht, hargs⟩, .inl rfl,
      fun hnot => absurd (ends_iff.2 (.inr hrest)) hnot⟩
  | @label t c _ ht hname hc =>
    refine ⟨[t, c], [], rfl, List.cons_ne_nil _ _, ?_, .inl rfl,
      fun _ _ _ => .label ht hname hc⟩
    rcases ht with ht | ht <;> simp [ends_iff, ht, hc]
  | instr hop h =>
    obtain ⟨u, e, rfl, hne, hu, he, htakes⟩ := h.takes
    obtain ⟨t, u, rfl⟩ := List.exists_cons_of_ne_nil hne
    exact ⟨t :: u, e, rfl, hne, hu, he,
      fun hnot rest' hstarts => .instr hop (htakes hnot rest' hstarts)⟩

end Taken

/-! ## Statements one behind the other -/

section Statements

variable {s s' : List Slip} {ts mid rest rest' : List Token} {items items' : List Item}

theorem StatementAt.not_ends {item : Item} (h : StatementAt s ts item rest) : ¬ Ends (cur ts) := by
  obtain ⟨u, e, rfl, hne, hu, -⟩ := h.takes
  obtain ⟨t, u, rfl⟩ := List.exists_cons_of_ne_nil hne
  exact hu t List.mem_cons_self

theorem EndsBody.ends {t : Token} (h : EndsBody t) : Ends t := by
  rcases h with h | h
  · exact ends_iff.2 (.inr (.inl (of_decide_eq_true h)))
  · exact .inr h

theorem StatementsAt.append (h : StatementsAt s ts items mid)
    (h' : StatementsAt s' mid items' rest) : StatementsAt (s ++ s') ts (items ++ items') rest := by
  induction h with
  | nil => exact h'
  | cons hitem _ ih =>
    rw [List.append_assoc]
    exact .cons hitem (ih h')

theorem body_addItems (items : List Item) :
    (PtxKernel.addItems {} items).body = instrsOf items := List.nil_append _

/-- A body from a place inside of it on. -/
theorem BodyAt.from (h : BodyAt s ts items rest) (hmid : StatementsAt s' ts items' mid) :
    ∃ s'' items'', BodyAt s'' mid items'' rest ∧
      instrsOf items = instrsOf items' ++ instrsOf items'' := by
  have hloop := h.loop {}
  rw [hmid.loop] at hloop
  obtain ⟨s'', items'', hrest, heq⟩ := bodyAt_of_loop hloop
  refine ⟨s'', items'', hrest, ?_⟩
  have hbody := congrArg PtxKernel.body heq
  rw [addItems_addItems, body_addItems, body_addItems] at hbody
  rw [hbody]
  exact List.flatMap_append

end Statements

/-! ## One directive -/

/-- The tokens are one directive other than `.reg`, with its semicolon or without. -/
def DirectiveLine (dir : List Token) : Prop :=
  ∃ t args e, dir = t :: (args ++ e) ∧ IsDirective t ∧ t.text ≠ ".reg".toList ∧
    (∀ a ∈ args, ¬ Ends a) ∧ (e = [] ∨ ∃ c, e = [c] ∧ c.type = .semicolon)

section Directive

variable {s s' s'' : List Slip} {before dir after rest mid ts ts' v : List Token}
  {items items' items'' : List Item}

theorem DirectiveLine.not_endsBody (hdir : DirectiveLine dir) : ∀ t ∈ dir, ¬ EndsBody t := by
  obtain ⟨t, args, e, rfl, ht, -, hargs, he⟩ := hdir
  have hnot : ∀ a ∈ t :: args, ¬ EndsBody a := fun a ha hends =>
    (List.forall_mem_cons.2 ⟨not_ends_of_isDirective ht, hargs⟩ : ∀ a ∈ t :: args, ¬ Ends a) a ha
      hends.ends
  rw [← List.cons_append]
  refine List.forall_mem_append.2 ⟨hnot, ?_⟩
  rcases he with rfl | ⟨c, rfl, hc⟩
  · simp
  · simp [EndsBody, endsBody, hc]

end Directive

/-! ## The line of a text -/

section Lines

variable {stod : Stod} {pre line post : List Char}

theorem DirectiveLine.convert {l l' : List Token} (h : DirectiveLine l)
    (hl : l.mapM (Token.convert stod) = some l') : DirectiveLine l' := by
  obtain ⟨t, args, e, rfl, ht, hreg, hargs, he⟩ := h
  rw [List.mapM_cons] at hl
  obtain ⟨t', ht', hl⟩ := Option.bind_eq_some_iff.1 hl
  obtain ⟨ts, hts, hl⟩ := Option.bind_eq_some_iff.1 hl
  obtain rfl : t' :: ts = l' := Option.some.inj hl
  rw [List.mapM_append] at hts
  obtain ⟨args', hargs', hts⟩ := Option.bind_eq_some_iff.1 hts
  obtain ⟨e', he', hts⟩ := Option.bind_eq_some_iff.1 hts
  obtain rfl : args' ++ e' = ts := Option.some.inj hts
  obtain ⟨htype, htext⟩ := Token.convert_some ht'
  refine ⟨t', args', e', rfl, ?_, by rwa [htext], fun a ha => ?_, ?_⟩
  · unfold IsDirective
    rwa [htype, htext]
  · obtain ⟨b, hb, hconvert⟩ := exists_of_mem_mapM hargs' a ha
    have hnot := hargs b hb
    rw [ends_iff] at hnot ⊢
    rwa [(Token.convert_some hconvert).1]
  · rcases he with rfl | ⟨c, rfl, hc⟩
    · exact .inl (Option.some.inj he').symm
    · rw [List.mapM_cons] at he'
      obtain ⟨c', hc', he'⟩ := Option.bind_eq_some_iff.1 he'
      obtain rfl : [c'] = e' := Option.some.inj he'
      exact .inr ⟨c', rfl, by rwa [(Token.convert_some hc').1]⟩

end Lines

/-! ## A line of debug information -/

end RiscvGpgpu.Ptx
