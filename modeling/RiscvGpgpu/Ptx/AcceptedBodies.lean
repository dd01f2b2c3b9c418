import RiscvGpgpu.Ptx.NegatedMinimum

/-!
# The bodies that the parser takes

The parser takes a body with slips as it takes one without.
-/

namespace RiscvGpgpu.Ptx

/-- `parseBody` takes the grammar proper and nothing else. -/
structure AcceptsExactly (ts : List Token) : Prop where
  accepts : ∀ items rest, BodyAt [] ts items rest → ∀ k,
    parseBody.loop endsBody k ts = .ok (k.addItems items) rest
  rejects : (∀ items rest, ¬ BodyAt [] ts items rest) → ∀ k k' rest,
    parseBody.loop endsBody k ts ≠ .ok k' rest
  reports : (∀ items rest, ¬ BodyAt [] ts items rest) → NoNegatedMinimum ts → ∀ k,
    ∃ message, message ≠ [] ∧ parseBody.loop endsBody k ts = .error message

/-- The parser succeeds on a list of tokens if and only if it is a body, with slips or without. -/
theorem loop_eq_ok_iff {k k' : PtxKernel} {ts rest : List Token} :
    parseBody.loop endsBody k ts = .ok k' rest ↔
      ∃ s items, BodyAt s ts items rest ∧ k' = k.addItems items := by
  constructor
  · exact bodyAt_of_loop
  · rintro ⟨s, items, h, rfl⟩
    exact h.loop k

theorem AcceptsExactly.no_slips {ts : List Token} (h : AcceptsExactly ts) {s : List Slip}
    {items : List Item} {rest : List Token} (hbody : BodyAt s ts items rest) : s = [] := by
  by_contra hs
  refine h.rejects ?_ {} _ rest (hbody.loop {})
  intro items' rest' hproper
  exact hs (hbody.unique hproper)

/-- The parser takes the grammar and nothing else exactly on the lists of tokens that are no body
with slips. -/
theorem acceptsExactly_iff (ts : List Token) :
    AcceptsExactly ts ↔ ∀ s items rest, BodyAt s ts items rest → s = [] := by
  constructor
  · intro h s items rest hbody
    exact h.no_slips hbody
  · intro h
    have hrejects : (∀ items rest, ¬ BodyAt [] ts items rest) → ∀ k k' rest,
        parseBody.loop endsBody k ts ≠ .ok k' rest := by
      intro hnot k k' rest hok
      obtain ⟨s, items, hbody, -⟩ := bodyAt_of_loop hok
      obtain rfl := h s items rest hbody
      exact hnot items rest hbody
    refine ⟨fun items rest hbody k => hbody.loop k, hrejects, ?_⟩
    intro hnot hneg k
    have hreports : (parseBody.loop endsBody k ts).Reports :=
      Body.loop_reports parseStatement_reports
    cases hloop : parseBody.loop endsBody k ts with
    | ok k' rest => exact absurd hloop (hrejects hnot k k' rest)
    | error message =>
      rw [hloop] at hreports
      exact ⟨message, hreports, rfl⟩
    | undefined => exact absurd (loop_eq_undefined_iff.1 hloop) hneg.not_bodyNegates

/-- `add.u32 %r1 %r2; }` -/
def missingComma : List Token :=
  [{ type := .word, text := "add.u32".toList }, { type := .percent, text := "r1".toList },
    { type := .percent, text := "r2".toList }, { type := .semicolon, text := [';'] },
    { type := .rbrace, text := ['\x7d'] }]

theorem not_acceptsExactly_missingComma : ¬ AcceptsExactly missingComma := by
  intro h
  have hend : Ends (cur missingComma.tail.tail.tail) := by decide
  have hops : OperandsAt [.missingComma] missingComma.tail _ missingComma.tail.tail.tail :=
    .cons (.reg rfl) (.missing (by decide) (by decide))
      (.cons (.reg rfl) (.last hend) (.nil hend))
  have hinstr : InstrAt [.missingComma] missingComma _ _ := .plain (.mk rfl hops (.present rfl))
  have hbody : BodyAt [.missingComma] missingComma _ _ :=
    ⟨.cons (.instr (by decide) hinstr) .nil, .inl rfl⟩
  exact absurd (h.no_slips hbody) (by decide)

end RiscvGpgpu.Ptx
