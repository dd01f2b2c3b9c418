import RiscvGpgpu.Ptx.PtxParser

/-!
# What the parser reports

A parse function that fails sets an error text, and a kernel that is returned has the name of its
`.entry`.
-/

namespace RiscvGpgpu.Ptx

/-! ## Parse functions -/

/-- A parse function that fails sets `error_` to a text. -/
def Parsed.Reports {α : Type} : Parsed α → Prop
  | .error message => message ≠ []
  | _ => True

theorem Parsed.Reports.bind {α β : Type} {r : Parsed α} {f : α → List Token → Parsed β}
    (hr : r.Reports) (hf : ∀ a rest, r = .ok a rest → (f a rest).Reports) :
    (r.bind f).Reports := by
  cases r with
  | ok a rest => exact hf a rest rfl
  | error message => exact hr
  | undefined => trivial

theorem reports_error {α : Type} {c : Char} {message text : List Char} (h : message = c :: text) :
    (Parsed.error message : Parsed α).Reports := by
  rw [h]
  exact List.cons_ne_nil c text

theorem Body.loop_reports {α : Type} {body : Body α} {stop : Token → Bool}
    (hrun : ∀ a ts, (body.run a ts).Reports) {a : α} {ts : List Token} :
    (body.loop stop a ts).Reports := by
  induction hn : ts.length using Nat.strong_induction_on generalizing a ts with
  | _ n ih =>
    subst hn
    by_cases hend : stop (cur ts) = true ∨ (cur ts).type = .endOfText
    · rw [Body.loop_of_stop hend]
      trivial
    · rw [Body.loop_of_not_stop hend]
      apply (hrun a ts).bind
      intro b rest hb
      have hlt := length_lt_of_suffix (fun h => hend (.inr h)) (body.advances hb)
      exact ih _ hlt rfl

section Reports

variable {ts : List Token}

theorem closeMemRef_reports (op : PtxOperand) (ts : List Token) : (closeMemRef op ts).Reports := by
  unfold closeMemRef
  split_ifs
  · exact reports_error rfl
  · trivial

theorem parseMemRef_reports (ts : List Token) : (parseMemRef ts).Reports := by
  unfold parseMemRef
  dsimp only
  split
  · split
    · split_ifs
      · exact reports_error rfl
      · exact closeMemRef_reports _ _
    · split_ifs
      · exact reports_error rfl
      · split
        · trivial
        · exact closeMemRef_reports _ _
    · split_ifs
      · exact closeMemRef_reports _ _
      · exact closeMemRef_reports _ _
    · exact closeMemRef_reports _ _
  · split
    · split_ifs
      · exact reports_error rfl
      · exact closeMemRef_reports _ _
    · exact closeMemRef_reports _ _
  · exact reports_error rfl

theorem parseOperand_reports (ts : List Token) : (parseOperand ts).Reports := by
  unfold parseOperand
  split
  · trivial
  · trivial
  · exact parseMemRef_reports ts
  · trivial
  · trivial
  · dsimp only
    split
    · split
      · trivial
      · trivial
    · trivial
    · trivial
  · trivial
  · exact reports_error rfl

theorem parseOpcode_reports (instr : PtxInstr) (ts : List Token) :
    (parseOpcode instr ts).Reports := by
  unfold parseOpcode
  split_ifs
  · exact reports_error rfl
  · apply Parsed.Reports.bind
    · apply Body.loop_reports
      exact fun _ ts => (parseOperand_reports ts).bind fun _ _ _ => trivial
    · exact fun _ _ _ => trivial

theorem parseInstr_reports (ts : List Token) : (parseInstr ts).Reports := by
  unfold parseInstr
  dsimp only
  split_ifs
  · exact reports_error rfl
  · exact parseOpcode_reports _ _
  · exact parseOpcode_reports _ _

theorem parseRegDecl_reports (k : PtxKernel) (ts : List Token) : (parseRegDecl k ts).Reports := by
  unfold parseRegDecl
  dsimp only
  split_ifs
  · exact reports_error rfl
  · split
    · exact reports_error rfl
    · exact reports_error rfl
  · split
    · exact reports_error rfl
    · trivial

theorem parseStatement_reports (k : PtxKernel) (ts : List Token) :
    (parseStatement k ts).Reports := by
  unfold parseStatement
  split_ifs
  · exact parseRegDecl_reports k ts
  · trivial
  · trivial
  · exact (parseInstr_reports ts).bind fun _ _ _ => trivial

theorem parseAttribute_reports (p : PtxParam) (ts : List Token) :
    (parseAttribute p ts).Reports := by
  unfold parseAttribute
  dsimp only
  split_ifs
  · trivial
  · trivial
  · exact reports_error rfl
  · trivial
  · exact reports_error rfl

theorem parseParam_reports (index : BitVec 32) (ts : List Token) :
    (parseParam index ts).Reports := by
  unfold parseParam
  split_ifs
  · exact reports_error rfl
  · apply Parsed.Reports.bind
    · exact Body.loop_reports parseAttribute_reports
    · intro p rest _
      split_ifs
      · exact reports_error rfl
      · trivial

theorem expect_reports {α : Type} (type : TK) (hint : List Char) (a : α) (ts : List Token) :
    (expect type hint a ts).Reports := by
  unfold expect
  split_ifs
  · exact reports_error rfl
  · trivial

theorem parseParamList_reports (k : PtxKernel) (ts : List Token) :
    (parseParamList k ts).Reports := by
  unfold parseParamList
  split_ifs
  · apply Parsed.Reports.bind
    · apply Body.loop_reports
      exact fun _ _ => (parseParam_reports _ _).bind fun _ _ _ => trivial
    · exact fun params rest _ => expect_reports _ _ _ _
  · trivial

theorem parseKernel_reports (k : PtxKernel) (ts : List Token) : (parseKernel k ts).Reports := by
  unfold parseKernel
  split_ifs
  · exact reports_error rfl
  · apply (parseParamList_reports _ _).bind
    intro k rest _
    dsimp only
    split_ifs
    · exact reports_error rfl
    · apply Parsed.Reports.bind
      · exact Body.loop_reports parseStatement_reports
      · exact fun k rest _ => expect_reports _ _ _ _

theorem parseEntry_reports (k : PtxKernel) (ts : List Token) : (parseEntry k ts).Reports := by
  induction k, ts using parseEntry.induct with
  | case1 k =>
    rw [parseEntry]
    exact reports_error rfl
  | case2 k t ts hend =>
    rw [parseEntry, if_pos hend]
    exact reports_error rfl
  | case3 k t ts hend hsize hbad =>
    rw [parseEntry, if_neg hend, if_pos hsize, if_pos hbad]
    exact reports_error rfl
  | case4 k t ts hend hsize hgood ih =>
    rw [parseEntry, if_neg hend, if_pos hsize, if_neg hgood]
    exact ih
  | case5 k t ts hend hsize hentry =>
    rw [parseEntry, if_neg hend, if_neg hsize, if_pos hentry]
    exact parseKernel_reports k ts
  | case6 k t ts hend hsize hentry ih =>
    rw [parseEntry, if_neg hend, if_neg hsize, if_neg hentry]
    exact ih

/-! ## Names -/

theorem parseParamList_name {k k' : PtxKernel} {rest : List Token}
    (h : parseParamList k ts = .ok k' rest) : k'.name = k.name := by
  unfold parseParamList at h
  split_ifs at h
  · obtain ⟨params, mid, -, h⟩ := Parsed.bind_eq_ok h
    unfold expect at h
    split_ifs at h
    exact (Parsed.ok.inj h).1 ▸ rfl
  · exact (Parsed.ok.inj h).1 ▸ rfl

/-- A kernel has the name under the cursor. -/
theorem parseKernel_name {k k' : PtxKernel} {rest : List Token}
    (h : parseKernel k ts = .ok k' rest) : (cur ts).type = .word ∧ k'.name = (cur ts).text := by
  unfold parseKernel at h
  split_ifs at h with hword
  refine ⟨not_not.1 hword, ?_⟩
  obtain ⟨k₁, mid₁, hlist, h⟩ := Parsed.bind_eq_ok h
  dsimp only at h
  split_ifs at h
  obtain ⟨k₂, mid₂, hbody, h⟩ := Parsed.bind_eq_ok h
  have hbody_name : k₂.name = k₁.name :=
    Body.loop_keeps (I := fun k _ => k.name = k₁.name)
      (fun hI hrun => (parseStatement_ok hrun).2.trans hI) rfl hbody
  unfold expect at h
  split_ifs at h
  obtain ⟨rfl, -⟩ := Parsed.ok.inj h
  exact hbody_name.trans (parseParamList_name hlist)

theorem parseEntry_name {k k' : PtxKernel} {rest : List Token}
    (hwords : ∀ t ∈ ts, t.type = .word → t.text ≠ []) (h : parseEntry k ts = .ok k' rest) :
    k'.name ≠ [] := by
  induction k, ts using parseEntry.induct with
  | case1 k => exact absurd h (by simp [parseEntry])
  | case2 k t ts hend => exact absurd h (by simp [parseEntry, hend])
  | case3 k t ts hend hsize hbad =>
    rw [parseEntry, if_neg hend, if_pos hsize, if_pos hbad] at h
    exact absurd h (by simp)
  | case4 k t ts hend hsize hgood ih =>
    rw [parseEntry, if_neg hend, if_pos hsize, if_neg hgood] at h
    exact ih (fun u hu => hwords u (List.mem_cons_of_mem t (List.mem_of_mem_tail hu))) h
  | case5 k t ts hend hsize hentry =>
    rw [parseEntry, if_neg hend, if_neg hsize, if_pos hentry] at h
    obtain ⟨hword, hname⟩ := parseKernel_name h
    rw [hname]
    have hne : ts ≠ [] := ne_nil_of_cur (by simp [hword])
    obtain ⟨u, us, rfl⟩ := List.exists_cons_of_ne_nil hne
    exact hwords u (by simp) hword
  | case6 k t ts hend hsize hentry ih =>
    rw [parseEntry, if_neg hend, if_neg hsize, if_neg hentry] at h
    exact ih (fun u hu => hwords u (List.mem_cons_of_mem t hu)) h

end Reports

/-! ## Tokens -/

theorem lexToken_word {c : Char} {cs : List Char} {t : Token} (h : (lexToken c cs).1 = some t)
    (hword : t.type = .word) : t.text ≠ [] := by
  unfold lexToken at h
  split_ifs at h with h₁ h₂ h₃ h₄
  · obtain rfl := Option.some.inj h
    exact absurd hword (by simp)
  · obtain rfl := Option.some.inj h
    exact absurd hword (by simp)
  · obtain rfl := Option.some.inj h
    exact List.cons_ne_nil _ _
  · obtain rfl := Option.some.inj h
    dsimp only at hword
    split_ifs at hword
  · obtain ⟨type, -, rfl⟩ := Option.map_eq_some_iff.1 h
    exact List.cons_ne_nil _ _

theorem lex_word {text : List Char} {t : Token} (ht : t ∈ lex text) (hword : t.type = .word) :
    t.text ≠ [] := by
  induction text using lex.induct with
  | case1 => exact absurd ht (by simp [lex])
  | case2 c cs hspace ih =>
    rw [lex, if_pos hspace] at ht
    exact ih ht
  | case3 c cs hspace hline ih =>
    rw [lex, if_neg hspace, if_pos hline] at ht
    exact ih ht
  | case4 c cs hspace hline hblock ih =>
    rw [lex, if_neg hspace, if_neg hline, if_pos hblock] at ht
    exact ih ht
  | case5 c cs hspace hline hblock ih =>
    rw [lex, if_neg hspace, if_neg hline, if_neg hblock] at ht
    rcases List.mem_append.1 ht with hfirst | hrest
    · exact lexToken_word (Option.mem_toList.1 hfirst) hword
    · exact ih hrest

/-- A conversion changes the value of a token only. -/
theorem Token.convert_some {stod : Stod} {t t' : Token} (h : t.convert stod = some t') :
    t'.type = t.type ∧ t'.text = t.text := by
  unfold Token.convert at h
  split at h
  · obtain ⟨v, -, rfl⟩ := Option.map_eq_some_iff.1 h
    exact ⟨rfl, rfl⟩
  · obtain ⟨v, -, rfl⟩ := Option.map_eq_some_iff.1 h
    exact ⟨rfl, rfl⟩
  · obtain rfl := Option.some.inj h
    exact ⟨rfl, rfl⟩

section MapM

variable {α β : Type} {f : α → Option β} {l : List α}

theorem exists_of_mem_mapM {l' : List β} (h : l.mapM f = some l') :
    ∀ b ∈ l', ∃ a ∈ l, f a = some b := by
  induction l generalizing l' with
  | nil =>
    obtain rfl : [] = l' := Option.some.inj h
    exact fun b hb => absurd hb List.not_mem_nil
  | cons a l ih =>
    rw [List.mapM_cons] at h
    obtain ⟨b, hb, h⟩ := Option.bind_eq_some_iff.1 h
    obtain ⟨bs, hbs, h⟩ := Option.bind_eq_some_iff.1 h
    obtain rfl : b :: bs = l' := Option.some.inj h
    intro b' hb'
    rcases List.mem_cons.1 hb' with rfl | hrest
    · exact ⟨a, List.mem_cons_self, hb⟩
    · obtain ⟨a', ha', hfa⟩ := ih hbs b' hrest
      exact ⟨a', List.mem_cons_of_mem a ha', hfa⟩

end MapM

theorem tokenize_word {stod : Stod} {text : List Char} {ts : List Token}
    (h : tokenize stod text = some ts) : ∀ t ∈ ts, t.type = .word → t.text ≠ [] := by
  obtain ⟨converted, hconverted, rfl⟩ := Option.map_eq_some_iff.1 h
  intro t ht hword
  rcases List.mem_append.1 ht with hmem | hend
  · obtain ⟨u, hu, hut⟩ := exists_of_mem_mapM hconverted t hmem
    obtain ⟨htype, htext⟩ := Token.convert_some hut
    rw [htext]
    exact lex_word hu (htype ▸ hword)
  · obtain rfl := List.mem_singleton.1 hend
    exact absurd hword (by decide)

end RiscvGpgpu.Ptx
