import RiscvGpgpu.Ptx.Registers

/-!
# Comparisons and branches on them

`setp` on integers leaves 1 or 0 in the register of its predicate, and a branch on the predicate
goes by it.
-/

namespace RiscvGpgpu.Ptx

open Asm (Line Machine Next run)
open Rv32 (RegOp ImmOp ofBool)

/-! ## Instructions -/

inductive SetpType where
  | u32 | s32 | b32
deriving DecidableEq, Repr

def SetpType.text : SetpType → List Char
  | u32 => ".u32".toList
  | s32 => ".s32".toList
  | b32 => ".b32".toList

def Relation.text : Relation → List Char
  | lt => ".lt".toList
  | le => ".le".toList
  | gt => ".gt".toList
  | ge => ".ge".toList
  | eq => ".eq".toList
  | ne => ".ne".toList

/-- The second operand of a comparison. -/
inductive SetpSrc where
  | reg (name : List Char)
  | imm (v : ℤ)

def SetpSrc.operand : SetpSrc → PtxOperand
  | reg name => { kind := .reg, name := name }
  | imm v => { kind := .intImm, intVal := v }

/-- `setp` with a register as its first operand. A name in PTX is not empty. -/
structure Setp where
  rel : Relation
  type : SetpType
  dst : List Char
  a : List Char
  b : SetpSrc
  named : dst ≠ []

namespace Setp

def text (i : Setp) : List Char := "setp".toList ++ i.rel.text ++ i.type.text

def instr (i : Setp) : PtxInstr :=
  { op := i.text
    operands := [{ kind := .reg, name := i.dst }, { kind := .reg, name := i.a }, i.b.operand] }

/-- `@p bra label` or `@!p bra label`, where `p` is the destination. -/
def bra (i : Setp) (predNot : Bool) (label : List Char) : PtxInstr :=
  { pred := i.dst, predNot := predNot, op := "bra".toList,
    operands := [{ kind := .label, name := label }] }

def signed (i : Setp) : Bool := i.type = .s32

end Setp

/-! ## What PTX defines -/

def Relation.holds (signed : Bool) (a b : Rv32.Word) : Relation → Bool
  | lt => if signed then a.toInt < b.toInt else a.toNat < b.toNat
  | le => if signed then a.toInt ≤ b.toInt else a.toNat ≤ b.toNat
  | gt => if signed then b.toInt < a.toInt else b.toNat < a.toNat
  | ge => if signed then b.toInt ≤ a.toInt else b.toNat ≤ a.toNat
  | eq => a = b
  | ne => a ≠ b

def SetpSrc.value (ρ : List Char → Rv32.Word) : SetpSrc → Rv32.Word
  | reg name => ρ name
  | imm v => BitVec.ofInt 32 v

/-- The comparison holds for the values `ρ` of the registers. -/
def Setp.holds (ρ : List Char → Rv32.Word) (i : Setp) : Bool :=
  i.rel.holds i.signed (ρ i.a) (i.b.value ρ)

/-- The registers hold the values of the sources. -/
def Setp.Holds (ρ : List Char → Rv32.Word) (i : Setp) (s : RvEmitter) (m : Machine) : Prop :=
  m.get (s.intReg i.a) = ρ i.a ∧ ∀ name, i.b = .reg name → m.get (s.intReg name) = ρ name

/-- Behind the code for the comparison, the code for a branch on it goes where it should. -/
def Setp.BranchCorrect (ρ : List Char → Rv32.Word) (i : Setp) (s : RvEmitter) (m : Machine) :
    Prop :=
  ∀ predNot label, ∃ l, emitBra (i.bra predNot label) s = s.write l ∧
    l.next m = if i.holds ρ = predNot then .fall else .goto label

/-- The code for a comparison is right for the values `ρ` of the registers: if it can be assembled,
it leaves 1 or 0 in the predicate as the comparison holds or not and changes nothing else, and a
branch that follows goes by it. -/
def Setp.Correct (s : RvEmitter) (ρ : List Char → Rv32.Word) (i : Setp) : Prop :=
  ∃ s' ls, emitSetp i.instr s = some s' ∧ s'.out = s.out ++ ls ∧
    ((∀ l ∈ ls, l.encodable = true) → ∀ fpu m, i.Holds ρ s' m →
      (run fpu ls m).get (s'.intReg i.dst) = ofBool (i.holds ρ) ∧
      (∀ r, r ≠ s'.intReg i.dst → (run fpu ls m).get r = m.get r) ∧
      (run fpu ls m).f = m.f ∧ (run fpu ls m).mem = m.mem ∧
      i.BranchCorrect ρ s' (run fpu ls m))

/-! ## The lines -/

theorem Setp.text_dispatched (i : Setp) :
    (contains i.text ".f32".toList || contains i.text ".f64".toList) = false ∧
      intRelation i.text = some i.rel ∧ contains i.text ".s32".toList = i.signed := by
  obtain ⟨rel, type, dst, a, b, named⟩ := i
  have hall : ∀ rel : Relation, ∀ type : SetpType,
      let op := "setp".toList ++ rel.text ++ type.text
      (contains op ".f32".toList || contains op ".f64".toList) = false ∧
        intRelation op = some rel ∧
        contains op ".s32".toList = decide (type = SetpType.s32) := by
    intro rel type
    cases rel <;> cases type <;> decide
  exact hall rel type

/-- The lines of a comparison of registers. -/
def regLines (signed : Bool) (rd ra rb : Rv32.Reg) (rel : Relation) : List Line :=
  let less : RegOp := if signed then .slt else .sltu
  match rel with
  | .lt => [.reg less rd ra rb]
  | .ge => [.reg less rd ra rb, .imm .xori rd rd 1]
  | .gt => [.reg less rd rb ra]
  | .le => [.reg less rd rb ra, .imm .xori rd rd 1]
  | .eq => [.reg .xor rd ra rb, .seqz rd rd]
  | .ne => [.reg .xor rd ra rb, .snez rd rd]

/-- The lines of a comparison with an immediate. -/
def immLines (signed : Bool) (rd ra : Rv32.Reg) (v : ℤ) (rel : Relation) : List Line :=
  let less : ImmOp := if signed then .slti else .sltiu
  match rel with
  | .lt => [.imm less rd ra v]
  | .ge => [.imm less rd ra v, .imm .xori rd rd 1]
  | .gt => [.imm less rd ra (v + 1), .imm .xori rd rd 1]
  | .le => [.imm less rd ra (v + 1)]
  | .eq => [.imm .addi rd ra (-v), .seqz rd rd]
  | .ne => [.imm .addi rd ra (-v), .snez rd rd]

/-- No immediate that is emitted overflows. -/
def Relation.Defined (v : ℤ) : Relation → Prop
  | gt | le => v ≠ 2 ^ 63 - 1
  | eq | ne => v ≠ -2 ^ 63
  | lt | ge => True

section Lines

variable {s s' : RvEmitter} {op : List Char} {rel : Relation} {rd ra rb : Rv32.Reg} {v : ℤ}

/-- Some lines are written. -/
structure Writes (s s' : RvEmitter) (ls : List Line) : Prop where
  leads : s.error = [] → s.Leads s'
  error : s'.error = s.error
  out : s'.out = s.out ++ ls

theorem writes_one (s : RvEmitter) (l : Line) : Writes s (s.write l) [l] where
  leads h := (RvEmitter.Leads.refl h).write l
  error := rfl
  out := rfl

theorem writes_two (s : RvEmitter) (l l' : Line) : Writes s ((s.write l).write l') [l, l'] where
  leads h := ((RvEmitter.Leads.refl h).write l).write l'
  error := rfl
  out := by
    show (s.out ++ [l]) ++ [l'] = _
    rw [List.append_assoc]
    rfl

theorem emitRegSetp_writes (hrel : intRelation op = some rel) :
    Writes s (emitRegSetp op rd ra rb s)
      (regLines (contains op ".s32".toList) rd ra rb rel) := by
  unfold emitRegSetp
  rw [hrel]
  cases rel with
  | lt => exact writes_one _ _
  | gt => exact writes_one _ _
  | le => exact writes_two _ _ _
  | ge => exact writes_two _ _ _
  | eq => exact writes_two _ _ _
  | ne => exact writes_two _ _ _

theorem emitImmSetp_writes (hrel : intRelation op = some rel)
    (heq : emitImmSetp op v rd ra s = some s') :
    rel.Defined v ∧ Writes s s' (immLines (contains op ".s32".toList) rd ra v rel) := by
  unfold emitImmSetp at heq
  rw [hrel] at heq
  cases rel with
  | lt =>
    obtain rfl := Option.some.inj heq
    exact ⟨trivial, writes_one _ _⟩
  | ge =>
    obtain rfl := Option.some.inj heq
    exact ⟨trivial, writes_two _ _ _⟩
  | gt =>
    dsimp only at heq
    by_cases hmax : v = 2 ^ 63 - 1
    · rw [if_pos hmax] at heq
      exact absurd heq (by simp)
    · rw [if_neg hmax] at heq
      obtain rfl := Option.some.inj heq
      exact ⟨hmax, writes_two _ _ _⟩
  | le =>
    dsimp only at heq
    by_cases hmax : v = 2 ^ 63 - 1
    · rw [if_pos hmax] at heq
      exact absurd heq (by simp)
    · rw [if_neg hmax] at heq
      obtain rfl := Option.some.inj heq
      exact ⟨hmax, writes_one _ _⟩
  | eq =>
    obtain ⟨w, hw, rfl⟩ := Option.map_eq_some_iff.1 heq
    unfold neg64 at hw
    split_ifs at hw with hmin
    obtain rfl := Option.some.inj hw
    exact ⟨hmin, writes_two _ _ _⟩
  | ne =>
    obtain ⟨w, hw, rfl⟩ := Option.map_eq_some_iff.1 heq
    unfold neg64 at hw
    split_ifs at hw with hmin
    obtain rfl := Option.some.inj hw
    exact ⟨hmin, writes_two _ _ _⟩

theorem emitImmSetp_isSome (hrel : intRelation op = some rel) (hdefined : rel.Defined v) :
    (emitImmSetp op v rd ra s).isSome = true := by
  unfold emitImmSetp
  rw [hrel]
  cases rel with
  | lt => rfl
  | ge => rfl
  | gt =>
    dsimp only
    rw [if_neg hdefined]
    rfl
  | le =>
    dsimp only
    rw [if_neg hdefined]
    rfl
  | eq =>
    dsimp only
    rw [neg64, if_neg hdefined]
    rfl
  | ne =>
    dsimp only
    rw [neg64, if_neg hdefined]
    rfl

end Lines

section Setp

variable {i : Setp} {s s' : RvEmitter}

/-- The registers are allocated from left to right. -/
theorem emitSetp_eq (i : Setp) (s : RvEmitter) :
    emitSetp i.instr s =
      let preg := s.ireg i.dst
      let ra := preg.2.ireg i.a
      match i.b with
      | .imm v => emitImmSetp i.text v preg.1 ra.1 ra.2
      | .reg name =>
        let rb := ra.2.ireg name
        some (emitRegSetp i.text preg.1 ra.1 rb.1 rb.2) := by
  have hfloat : ¬ (contains i.text ".f32".toList || contains i.text ".f64".toList) = true := by
    rw [i.text_dispatched.1]
    exact Bool.false_ne_true
  let preg := s.ireg i.dst
  let ra := preg.2.ireg i.a
  show (if (contains i.text ".f32".toList || contains i.text ".f64".toList) = true then
      some (emitFloatSetp i.text i.a i.b.operand.name preg.1 preg.2)
    else if i.b.operand.kind = .intImm then
      emitImmSetp i.text i.b.operand.intVal preg.1 ra.1 ra.2
    else
      some (emitRegSetp i.text preg.1 ra.1 (ra.2.ireg i.b.operand.name).1
        (ra.2.ireg i.b.operand.name).2)) = _
  rw [if_neg hfloat]
  cases i.b with
  | imm v => rfl
  | reg name => rfl

/-- The lines behind `s` in `s'`, and the registers they name. -/
theorem emitSetp_spec (hs : s.Allocated) (heq : emitSetp i.instr s = some s') (h : s'.error = []) :
    s'.Allocated ∧ s'.HasInt i.dst ∧ s'.HasInt i.a ∧
      match i.b with
      | .reg name => s'.HasInt name ∧ s'.out = s.out ++
          regLines i.signed (s'.intReg i.dst) (s'.intReg i.a) (s'.intReg name) i.rel
      | .imm v => i.rel.Defined v ∧ s'.out = s.out ++
          immLines i.signed (s'.intReg i.dst) (s'.intReg i.a) v i.rel := by
  obtain ⟨-, hrel, hsigned⟩ := i.text_dispatched
  rw [emitSetp_eq] at heq
  dsimp only at heq
  cases hb : i.b with
  | imm v =>
    rw [hb] at heq
    obtain ⟨hdefined, hleads, herror, hout⟩ := emitImmSetp_writes hrel heq
    obtain ⟨hleads₂, hfind₂, hout₂⟩ := RvEmitter.ireg_spec (herror.symm.trans h)
    obtain ⟨hleads₁, hfind₁, hout₁⟩ := RvEmitter.ireg_spec hleads₂.no_error
    have hlast := hleads (herror.symm.trans h)
    obtain ⟨hdst, hrd⟩ := (hleads₂.trans hlast).find_int hfind₁
    obtain ⟨ha, hra⟩ := hlast.find_int hfind₂
    refine ⟨(hleads₁.trans (hleads₂.trans hlast)).allocated hs, hdst, ha, hdefined, ?_⟩
    rw [hout, hout₂, hout₁, hrd, hra, hsigned]
  | reg name =>
    rw [hb] at heq
    have heq' := Option.some.inj heq
    obtain ⟨hleads, herror, hout⟩ := heq' ▸ emitRegSetp_writes hrel
    obtain ⟨hleads₃, hfind₃, hout₃⟩ := RvEmitter.ireg_spec (herror.symm.trans h)
    obtain ⟨hleads₂, hfind₂, hout₂⟩ := RvEmitter.ireg_spec hleads₃.no_error
    obtain ⟨hleads₁, hfind₁, hout₁⟩ := RvEmitter.ireg_spec hleads₂.no_error
    have hlast := hleads (herror.symm.trans h)
    obtain ⟨hdst, hrd⟩ := (hleads₂.trans (hleads₃.trans hlast)).find_int hfind₁
    obtain ⟨ha, hra⟩ := (hleads₃.trans hlast).find_int hfind₂
    obtain ⟨hname, hrb⟩ := hlast.find_int hfind₃
    refine ⟨(hleads₁.trans (hleads₂.trans (hleads₃.trans hlast))).allocated hs, hdst, ha, hname, ?_⟩
    rw [hout, hout₃, hout₂, hout₁, hrd, hra, hrb, hsigned]

theorem emitSetp_isSome (i : Setp) (s : RvEmitter)
    (hdefined : ∀ v, i.b = .imm v → i.rel.Defined v) : (emitSetp i.instr s).isSome = true := by
  rw [emitSetp_eq]
  dsimp only
  cases hb : i.b with
  | imm v => exact emitImmSetp_isSome i.text_dispatched.2.1 (hdefined v hb)
  | reg name => rfl

end Setp

/-! ## Running the lines -/

theorem ofBool_xor_one (p : Bool) : ofBool p ^^^ BitVec.ofInt 32 1 = ofBool !p := by
  cases p <;> decide

theorem not_decide_lt {x y : ℤ} : (!decide (x < y)) = decide (y ≤ x) := by
  rw [← decide_not]
  exact decide_eq_decide.2 Int.not_lt

theorem not_decide_lt_nat {x y : ℕ} : (!decide (x < y)) = decide (y ≤ x) := by
  rw [← decide_not]
  exact decide_eq_decide.2 Nat.not_lt

section Running

variable {fpu : Asm.Fpu} {m : Machine} {rd ra rb r : Rv32.Reg} {signed : Bool} {rel : Relation}
  {v : ℤ}

theorem less_eval (signed : Bool) (a b : Rv32.Word) :
    (if signed then RegOp.slt else RegOp.sltu).eval a b =
    ofBool (Relation.lt.holds signed a b) := by
  cases signed <;> rfl

theorem lessImm_eval (signed : Bool) (a b : Rv32.Word) :
    (if signed then ImmOp.slti else ImmOp.sltiu).eval a b =
      ofBool (Relation.lt.holds signed a b) := by
  cases signed <;> rfl

theorem not_lt_holds (signed : Bool) (a b : Rv32.Word) :
    (!Relation.lt.holds signed a b) = Relation.ge.holds signed a b := by
  cases signed with
  | false => exact not_decide_lt_nat
  | true => exact not_decide_lt

/-- The lines of a comparison of registers leave 1 if it holds and 0 if not. -/
theorem get_regLines (hrd : rd ≠ 0) :
    (run fpu (regLines signed rd ra rb rel) m).get rd =
      ofBool (rel.holds signed (m.get ra) (m.get rb)) := by
  cases rel with
  | lt =>
    simp only [regLines, Asm.run_cons, Asm.run_nil, Line.exec]
    rw [Machine.get_set_self hrd, less_eval]
  | gt =>
    simp only [regLines, Asm.run_cons, Asm.run_nil, Line.exec]
    rw [Machine.get_set_self hrd, less_eval]
    cases signed <;> rfl
  | ge =>
    simp only [regLines, Asm.run_cons, Asm.run_nil, Line.exec]
    rw [Machine.get_set_self hrd, Machine.get_set_self hrd, less_eval, ← not_lt_holds]
    exact ofBool_xor_one _
  | le =>
    simp only [regLines, Asm.run_cons, Asm.run_nil, Line.exec]
    rw [Machine.get_set_self hrd, Machine.get_set_self hrd, less_eval]
    refine (ofBool_xor_one _).trans ?_
    rw [not_lt_holds]
    cases signed <;> rfl
  | eq =>
    simp only [regLines, Asm.run_cons, Asm.run_nil, Line.exec]
    rw [Machine.get_set_self hrd, Machine.get_set_self hrd]
    exact congrArg ofBool (decide_eq_decide.2 BitVec.xor_eq_zero_iff)
  | ne =>
    simp only [regLines, Asm.run_cons, Asm.run_nil, Line.exec]
    rw [Machine.get_set_self hrd, Machine.get_set_self hrd]
    exact congrArg ofBool (decide_eq_decide.2 (not_congr BitVec.xor_eq_zero_iff))

/-- The immediate `v + 1` in place of `v` is right: it does not wrap. -/
def NoWrap (signed : Bool) (v : ℤ) : Prop :=
  ∀ a : Rv32.Word, Relation.lt.holds signed a (BitVec.ofInt 32 (v + 1)) =
    Relation.le.holds signed a (BitVec.ofInt 32 v)

theorem get_immLines (hrd : rd ≠ 0) (hwrap : rel = .gt ∨ rel = .le → NoWrap signed v) :
    (run fpu (immLines signed rd ra v rel) m).get rd =
      ofBool (rel.holds signed (m.get ra) (BitVec.ofInt 32 v)) := by
  have hzero : ∀ a : Rv32.Word, a + BitVec.ofInt 32 (-v) = 0 ↔ a = BitVec.ofInt 32 v := by
    intro a
    rw [BitVec.ofInt_neg, ← BitVec.sub_eq_add_neg]
    rw [BitVec.sub_eq_iff_eq_add]
    exact iff_of_eq (congrArg (a = ·) (BitVec.zero_add _))
  cases rel with
  | lt =>
    simp only [immLines, Asm.run_cons, Asm.run_nil, Line.exec]
    rw [Machine.get_set_self hrd, lessImm_eval]
  | ge =>
    simp only [immLines, Asm.run_cons, Asm.run_nil, Line.exec]
    rw [Machine.get_set_self hrd, Machine.get_set_self hrd, lessImm_eval, ← not_lt_holds]
    exact ofBool_xor_one _
  | gt =>
    simp only [immLines, Asm.run_cons, Asm.run_nil, Line.exec]
    rw [Machine.get_set_self hrd, Machine.get_set_self hrd, lessImm_eval, hwrap (.inl rfl)]
    refine (ofBool_xor_one _).trans (congrArg ofBool ?_)
    cases signed with
    | false => exact (Bool.not_eq_eq_eq_not.2 not_decide_lt_nat.symm)
    | true => exact (Bool.not_eq_eq_eq_not.2 not_decide_lt.symm)
  | le =>
    simp only [immLines, Asm.run_cons, Asm.run_nil, Line.exec]
    rw [Machine.get_set_self hrd, lessImm_eval, hwrap (.inr rfl)]
  | eq =>
    simp only [immLines, Asm.run_cons, Asm.run_nil, Line.exec]
    rw [Machine.get_set_self hrd, Machine.get_set_self hrd]
    exact congrArg ofBool (decide_eq_decide.2 (hzero _))
  | ne =>
    simp only [immLines, Asm.run_cons, Asm.run_nil, Line.exec]
    rw [Machine.get_set_self hrd, Machine.get_set_self hrd]
    exact congrArg ofBool (decide_eq_decide.2 (not_congr (hzero _)))

/-- Both kinds of lines write `rd` only. -/
def WritesOnly (rd : Rv32.Reg) (l : Line) : Prop :=
  ∀ fpu m, ∃ w, l.exec fpu m = m.set rd w

theorem run_writesOnly {ls : List Line} (h : ∀ l ∈ ls, WritesOnly rd l) (fpu : Asm.Fpu)
    (m : Machine) :
    (∀ r, r ≠ rd → (run fpu ls m).get r = m.get r) ∧ (run fpu ls m).f = m.f ∧
      (run fpu ls m).mem = m.mem := by
  induction ls generalizing m with
  | nil => exact ⟨fun _ _ => rfl, rfl, rfl⟩
  | cons l ls ih =>
    obtain ⟨w, hw⟩ := h l List.mem_cons_self fpu m
    obtain ⟨hget, hf, hmem⟩ := ih (fun l' hl' => h l' (List.mem_cons_of_mem l hl')) (l.exec fpu m)
    rw [Asm.run_cons]
    refine ⟨fun r hr => ?_, ?_, ?_⟩
    · rw [hget r hr, hw, Machine.get_set_of_ne hr]
    · rw [hf, hw, Machine.set_f]
    · rw [hmem, hw, Machine.set_mem]

theorem regLines_writesOnly : ∀ l ∈ regLines signed rd ra rb rel, WritesOnly rd l := by
  intro l hl fpu m
  cases rel <;> simp only [regLines, List.mem_cons, List.not_mem_nil, or_false] at hl <;>
    (first | (subst hl; exact ⟨_, rfl⟩) | (rcases hl with rfl | rfl <;> exact ⟨_, rfl⟩))

theorem immLines_writesOnly : ∀ l ∈ immLines signed rd ra v rel, WritesOnly rd l := by
  intro l hl fpu m
  cases rel <;> simp only [immLines, List.mem_cons, List.not_mem_nil, or_false] at hl <;>
    (first | (subst hl; exact ⟨_, rfl⟩) | (rcases hl with rfl | rfl <;> exact ⟨_, rfl⟩))

end Running

/-! ## When the code is right -/

/-- The bounds of the immediates `v + 1` that can be encoded. -/
theorem fitsImm12_succ {v : ℤ} (h : Asm.fitsImm12 (v + 1) = true) :
    -2049 ≤ v ∧ v < 2047 ∨ 2 ^ 32 - 2049 ≤ v ∧ v < 2 ^ 32 - 1 := by
  simp only [Asm.fitsImm12, Bool.or_eq_true, Bool.and_eq_true, decide_eq_true_iff] at h
  omega

theorem noWrap_of_encodable {signed : Bool} {v : ℤ} (h : Asm.fitsImm12 (v + 1) = true)
    (hne : signed = true ∨ v ≠ -1) : NoWrap signed v := by
  have hbounds := fitsImm12_succ h
  intro a
  cases signed with
  | false =>
    have hv : v ≠ -1 := hne.resolve_left Bool.false_ne_true
    have hsucc : (BitVec.ofInt 32 (v + 1)).toNat = (BitVec.ofInt 32 v).toNat + 1 := by
      rw [BitVec.toNat_ofInt, BitVec.toNat_ofInt]
      omega
    show decide (a.toNat < (BitVec.ofInt 32 (v + 1)).toNat) = decide (a.toNat ≤ _)
    rw [hsucc]
    exact decide_eq_decide.2 Nat.lt_succ_iff
  | true =>
    have hsucc : (BitVec.ofInt 32 (v + 1)).toInt = (BitVec.ofInt 32 v).toInt + 1 := by
      rw [BitVec.toInt_ofInt, BitVec.toInt_ofInt]
      simp only [Int.bmod]
      omega
    show decide (a.toInt < (BitVec.ofInt 32 (v + 1)).toInt) = decide (a.toInt ≤ _)
    rw [hsucc]
    exact decide_eq_decide.2 Int.lt_add_one_iff

/-- The emitted immediates do not overflow, and an unsigned `gt` or `le` does not compare with
-1. -/
def Setp.Meets (i : Setp) : Prop :=
  ∀ v, i.b = .imm v →
    i.rel.Defined v ∧ (i.rel = .gt ∨ i.rel = .le → i.signed = true ∨ v ≠ -1)

section Correct

variable {i : Setp} {s : RvEmitter} {ρ : List Char → Rv32.Word}

theorem emitBra_eq (hdst : s.HasInt i.dst) (predNot : Bool) (label : List Char) :
    emitBra (i.bra predNot label) s =
      s.write (if predNot then .beqz (s.intReg i.dst) label
        else .bnez (s.intReg i.dst) label) := by
  have hireg : s.ireg i.dst = (s.intReg i.dst, s) := by
    unfold RvEmitter.ireg Pool.Map.assign
    rw [hdst]
  have hop : ¬ "bra".toList = "ret".toList := by decide
  unfold emitBra
  show (if "bra".toList = "ret".toList then _ else if i.dst = [] then _ else _) = _
  rw [if_neg hop, if_neg i.named]
  show (if predNot = true then (s.ireg i.dst).2.write (.beqz (s.ireg i.dst).1 label)
    else (s.ireg i.dst).2.write (.bnez (s.ireg i.dst).1 label)) = _
  rw [hireg]
  cases predNot <;> rfl

theorem branchCorrect {m : Machine} (hdst : s.HasInt i.dst)
    (hget : m.get (s.intReg i.dst) = ofBool (i.holds ρ)) : i.BranchCorrect ρ s m := by
  intro predNot label
  refine ⟨_, emitBra_eq hdst predNot label, ?_⟩
  have hzero : ∀ p : Bool, ofBool p = 0 ↔ p = false := by decide
  cases predNot with
  | false =>
    show (if m.get (s.intReg i.dst) ≠ 0 then Next.goto label else .fall) = _
    rw [hget, ite_not]
    exact if_congr (hzero _) rfl rfl
  | true =>
    show (if m.get (s.intReg i.dst) = 0 then Next.goto label else .fall) = _
    rw [hget]
    cases i.holds ρ <;> rfl

/-- The lines are right if they leave the truth value of the comparison. -/
theorem correct_of_get {s' : RvEmitter} {ls : List Line} (hemit : emitSetp i.instr s = some s')
    (hdst : s'.HasInt i.dst) (hout : s'.out = s.out ++ ls)
    (honly : ∀ l ∈ ls, WritesOnly (s'.intReg i.dst) l)
    (hget : (∀ l ∈ ls, l.encodable = true) → ∀ fpu m, i.Holds ρ s' m →
      (run fpu ls m).get (s'.intReg i.dst) = ofBool (i.holds ρ)) : i.Correct s ρ := by
  refine ⟨s', ls, hemit, hout, fun hencodable fpu m hm => ?_⟩
  obtain ⟨hframe, hf, hmem⟩ := run_writesOnly honly fpu m
  have hresult := hget hencodable fpu m hm
  exact ⟨hresult, hframe, hf, hmem, branchCorrect hdst hresult⟩

/-- Comparing with -1, the unsigned `gt` and `le` compare with 0 below and leave the wrong truth
value. -/
theorem get_immLines_neg_one {fpu : Asm.Fpu} {m : Machine} {rd ra : Rv32.Reg} {rel : Relation}
    (hrd : rd ≠ 0) (hrel : rel = .gt ∨ rel = .le) :
    (run fpu (immLines false rd ra (-1) rel) m).get rd ≠
      ofBool (rel.holds false (m.get ra) (BitVec.ofInt 32 (-1))) := by
  have hmax : (BitVec.ofInt 32 (-1)).toNat = 2 ^ 32 - 1 := by decide
  have hle : (m.get ra).toNat ≤ 2 ^ 32 - 1 := Nat.le_sub_one_of_lt (m.get ra).isLt
  have hbelow : Relation.lt.holds false (m.get ra) (BitVec.ofInt 32 (-1 + 1)) = false := by
    show decide ((m.get ra).toNat < 0) = false
    exact decide_eq_false (Nat.not_lt_zero _)
  rcases hrel with rfl | rfl
  · have hholds : Relation.gt.holds false (m.get ra) (BitVec.ofInt 32 (-1)) = false := by
      apply decide_eq_false
      rw [hmax]
      exact Nat.not_lt.2 hle
    simp only [immLines, Asm.run_cons, Asm.run_nil, Line.exec]
    rw [Machine.get_set_self hrd, Machine.get_set_self hrd, lessImm_eval, hbelow, hholds]
    decide
  · have hholds : Relation.le.holds false (m.get ra) (BitVec.ofInt 32 (-1)) = true := by
      apply decide_eq_true
      rw [hmax]
      exact hle
    simp only [immLines, Asm.run_cons, Asm.run_nil, Line.exec]
    rw [Machine.get_set_self hrd, lessImm_eval, hbelow, hholds]
    decide

/-- The code for an unsigned `gt` or `le` with -1 is wrong for all values. -/
theorem not_correct_neg_one (hs : s.Allocated)
    (haccept : ∀ s', emitSetp i.instr s = some s' → s'.error = []) (hb : i.b = .imm (-1))
    (hrel : i.rel = .gt ∨ i.rel = .le) (hsigned : i.signed = false) : ¬ i.Correct s ρ := by
  rintro ⟨s', ls, hemit, hout, hcorrect⟩
  obtain ⟨hs', hdst, ha, hspec⟩ := emitSetp_spec hs hemit (haccept s' hemit)
  rw [hb] at hspec
  obtain rfl := List.append_cancel_left (hout.symm.trans hspec.2)
  obtain ⟨x, hx⟩ := hs'.exists_machine
    (fun n (hn : n ∈ [i.a]) => List.mem_singleton.1 hn ▸ ha) ρ
  let m : Machine := ⟨x, fun _ => 0, fun _ => 0, .rne⟩
  have ham : m.get (s'.intReg i.a) = ρ i.a := hx _ _ _ i.a (List.mem_singleton_self _)
  have hvalues : i.Holds ρ s' m := by
    refine ⟨ham, fun name hname => ?_⟩
    rw [hb] at hname
    exact absurd hname (by simp)
  have hencodable : ∀ l ∈ immLines i.signed (s'.intReg i.dst) (s'.intReg i.a) (-1) i.rel,
      l.encodable = true := by
    rcases hrel with hrel | hrel
    · rw [hrel]
      simp [immLines, Line.encodable, Asm.fitsImm12]
    · rw [hrel]
      simp [immLines, Line.encodable, Asm.fitsImm12]
  obtain ⟨hget, -⟩ := hcorrect hencodable default m hvalues
  rw [hsigned] at hget
  apply get_immLines_neg_one (hs'.intReg_ne_zero hdst) hrel
  rw [hget, Setp.holds, hsigned, hb, ham]
  rfl

/-- The code for a comparison is right exactly when no emitted immediate overflows and an unsigned
`gt` or `le` does not compare with -1. -/
theorem Setp.correct_iff_meets (hs : s.Allocated)
    (haccept : ∀ s', emitSetp i.instr s = some s' → s'.error = []) :
    i.Correct s ρ ↔ i.Meets := by
  constructor
  · intro hcorrect v hv
    obtain ⟨s', hemit⟩ : ∃ s', emitSetp i.instr s = some s' :=
      hcorrect.imp fun _ ⟨_, hemit, _⟩ => hemit
    obtain ⟨-, -, -, hspec⟩ := emitSetp_spec hs hemit (haccept s' hemit)
    rw [hv] at hspec
    refine ⟨hspec.1, fun hrel => ?_⟩
    apply by_contra
    intro hwrap
    rw [not_or, not_not] at hwrap
    obtain ⟨hsigned, rfl⟩ := hwrap
    exact not_correct_neg_one hs haccept hv hrel (by simpa using hsigned) hcorrect
  · intro hmeets
    obtain ⟨s', hemit⟩ := Option.isSome_iff_exists.1
      (emitSetp_isSome i s fun v hv => (hmeets v hv).1)
    obtain ⟨hs', hdst, ha, hspec⟩ := emitSetp_spec hs hemit (haccept s' hemit)
    have hrd := hs'.intReg_ne_zero hdst
    cases hb : i.b with
    | reg name =>
      rw [hb] at hspec
      apply correct_of_get hemit hdst hspec.2 regLines_writesOnly
      rintro - fpu m ⟨ham, hbm⟩
      rw [get_regLines hrd, ham, hbm name hb, Setp.holds, hb]
      rfl
    | imm v =>
      rw [hb] at hspec
      apply correct_of_get hemit hdst hspec.2 immLines_writesOnly
      rintro hencodable fpu m ⟨ham, -⟩
      rw [get_immLines hrd, ham, Setp.holds, hb]
      · rfl
      · intro hrel
        apply noWrap_of_encodable _ ((hmeets v hb).2 hrel)
        rcases hrel with hrel | hrel
        · rw [hrel] at hencodable
          exact hencodable _ List.mem_cons_self
        · rw [hrel] at hencodable
          exact hencodable _ List.mem_cons_self

end Correct

/-- `setp.lt.u32 %p1, %r1, %r2` and `setp.gt.s32 %p1, %r1, 5`. -/
theorem Setp.correct_iff_meets_lt :
    (Setp.mk .lt .u32 "p1".toList "r1".toList (.reg "r2".toList) (by decide)).Correct {}
        (fun _ => 1) ∧
      (Setp.mk .gt .s32 "p1".toList "r1".toList (.imm 5) (by decide)).Correct {} (fun _ => 1) :=
  ⟨(Setp.correct_iff_meets allocated_default (fun _ => accepted_of_map (by decide))).2
      fun _ hv => absurd hv (by simp),
    (Setp.correct_iff_meets allocated_default (fun _ => accepted_of_map (by decide))).2
      fun _ hv => SetpSrc.imm.inj hv ▸
        ⟨(by decide : (5 : ℤ) ≠ 2 ^ 63 - 1), fun _ => .inl rfl⟩⟩

/-- `setp.gt.u32 %p1, %r1, -1` is never true and comes out true. -/
theorem Setp.not_correct_gt : ¬ ∀ (i : Setp) (s : RvEmitter) (ρ : List Char → Rv32.Word),
    s.Allocated → (∀ s', emitSetp i.instr s = some s' → s'.error = []) → i.Correct s ρ := by
  intro hall
  let i : Setp := ⟨.gt, .u32, "p1".toList, "r1".toList, .imm (-1), by decide⟩
  have haccept : ∀ s', emitSetp i.instr {} = some s' → s'.error = [] :=
    fun _ => accepted_of_map (by decide)
  exact not_correct_neg_one allocated_default haccept rfl (.inl rfl) rfl
    (hall i {} (fun _ => 0) allocated_default haccept)

end RiscvGpgpu.Ptx
