import RiscvGpgpu.Ptx.ArithConformance
import RiscvGpgpu.Ptx.CoreKernel

/-!
# The lines of core kernels

The lines that the emitter writes for a kernel, in terms of the registers that its names have at the
end: they are those of its instructions, one behind the other.
-/

namespace RiscvGpgpu.Ptx

open Asm (Line)
open Rv32 (RegOp)
open RvEmitter

/-! ## Sequences of emissions -/

section Settling

variable {s s' s'' : RvEmitter} {has has' : RvEmitter → Prop} {lines lines' : RvEmitter → List Line}
  {name : List Char} {operands : List PtxOperand} {idx : ℕ}

theorem Settles.trans (h : Settles s s' has lines) (h' : Settles s' s'' has' lines') :
    Settles s s'' (fun t => has t ∧ has' t) fun t => lines t ++ lines' t where
  leads := h.leads.trans h'.leads
  params := h'.params.trans h.params
  has t ht := ⟨h.has t (h'.leads.trans ht), h'.has t ht⟩
  out t ht := by
    rw [h'.out t ht, h.out t (h'.leads.trans ht), List.append_assoc]

theorem Settles.congr (h : Settles s s' has lines) (hhas : ∀ t, has t → has' t)
    (hlines : ∀ t, has t → lines t = lines' t) : Settles s s' has' lines' where
  leads := h.leads
  params := h.params
  has t ht := hhas t (h.has t ht)
  out t ht := by
    rw [h.out t ht, hlines t (h.has t ht)]

theorem settles_refl (h : s.error = []) : Settles s s (fun _ => True) fun _ => [] where
  leads := .refl h
  params := rfl
  has _ _ := trivial
  out _ _ := (List.append_nil _).symm

/-- The name keeps the register that it is given. -/
theorem settles_ireg (h : (s.ireg name).2.error = []) :
    Settles s (s.ireg name).2 (fun t => t.HasInt name ∧ t.intReg name = (s.ireg name).1)
      fun _ => [] := by
  obtain ⟨hleads, hfind, hout⟩ := ireg_spec h
  exact ⟨hleads, ireg_params, fun t ht => ht.find_int hfind,
    fun _ _ => hout.trans (List.append_nil _).symm⟩

theorem rarg_params : (rarg s operands idx).2.params = s.params := by
  unfold rarg
  split
  · split_ifs
    · exact ireg_params
    · rfl
  · rfl

end Settling

/-! ## The lines of an instruction -/

def AluOp.regOp : AluOp → RegOp
  | add => .add
  | sub => .sub
  | and => .and
  | or => .or
  | xor => .xor

/-- A number that is too big for `addi` goes through `t6`. -/
def addLines (d a : Rv32.Reg) (v : ℤ) : List Line :=
  if v < -2048 ∨ 2047 < v then [.li t6 v, .reg .add d a t6] else [.imm .addi d a v]

def AluOp.immLines (d a : Rv32.Reg) (v : ℤ) : AluOp → List Line
  | add => addLines d a v
  | sub => addLines d a (-v)
  | and => [.li t6 v, .reg .and d a t6]
  | or => [.li t6 v, .reg .or d a t6]
  | xor => [.li t6 v, .reg .xor d a t6]

def AluOp.lines (op : AluOp) (s : RvEmitter) (d a : Rv32.Reg) (b : Src) : List Line :=
  match b with
  | .reg name => [.reg op.regOp d a (s.intReg name)]
  | .imm v => op.immLines d a v.val

namespace Core

/-- The lines of an access. -/
def accessLines (access : Access) (s : RvEmitter) (address : Address) (value : Rv32.Reg)
    (offset : ℤ) :
    List Line :=
  MemInstr.baseLines s address ++
    [MemInstr.accessLine access false value (MemInstr.baseReg s address) offset]

def lines (params : List PtxParam) (s : RvEmitter) : Core → List Line
  | label name _ => [.label name]
  | ldParam _ dst param => [.mv (s.intReg dst.name) (argumentReg params param)]
  | movReg dst src => transferLines false false (s.intReg dst.name) (s.intReg src.name)
  | movImm dst v => [.li (s.intReg dst.name) v.val]
  | movPlace dst r axis _ => [.load .lw (s.intReg dst.name) ((4 * contextIndex r axis : ℕ) : ℤ) gp]
  | ld space _ dst base offset =>
    accessLines .ld s (space.address base.name) (s.intReg dst.name) offset
  | st space _ base offset src =>
    accessLines .st s (space.address base.name) (s.intReg src.name) offset
  | alu op _ dst a b => op.lines s (s.intReg dst.name) (s.intReg a.name) b
  | mulLo _ dst a b => [.reg .mul (s.intReg dst.name) (s.intReg a.name) (s.intReg b.name)]
  | setp rel type dst a b =>
    regLines (decide (type = .s32)) (s.intReg dst.name) (s.intReg a.name) (s.intReg b.name) rel
  | bra target => [.j target]
  | braIf pred predNot target =>
    if predNot then [.beqz (s.intReg pred.name) target] else [.bnez (s.intReg pred.name) target]
  | barSync id => [.word ((BitVec.ofInt 32 id <<< 20) ||| 0x0B)]
  | ret => [.ret]

/-- The registers of an instruction. -/
def names : Core → List (List Char)
  | ldParam _ dst _ | movImm dst _ | movPlace dst _ _ _ => [dst.name]
  | movReg dst src => [dst.name, src.name]
  | ld _ _ value base _ | st _ _ base _ value => [base.name, value.name]
  | alu _ _ dst a (.reg b) => [dst.name, a.name, b]
  | alu _ _ dst a (.imm _) => [dst.name, a.name]
  | mulLo _ dst a b | setp _ _ dst a b => [dst.name, a.name, b.name]
  | braIf pred _ _ => [pred.name]
  | label _ _ | bra _ | barSync _ | ret => []

/-- The emitter knows the parameter, or the barrier. -/
def Known (params : List PtxParam) : Core → Prop
  | ldParam _ _ param => HasArgument params param
  | barSync id => 0 ≤ id ∧ id ≤ 15
  | _ => True

/-- What the emitter gave to an instruction that it accepted. -/
def Has (params : List PtxParam) (i : Core) (s : RvEmitter) : Prop :=
  i.Known params ∧ ∀ n ∈ i.names, s.HasInt n

end Core

/-! ## Instruction by instruction -/

section Instructions

variable {s s' : RvEmitter} {i : Core} {dst src base a b pred : IntName} {offset : ℤ}

/-- The instruction gets its lines. -/
def Core.Settled (i : Core) (s s' : RvEmitter) : Prop :=
  Settles s s' (i.Has s.params) (i.lines s.params)

theorem settled_ldParam {type : WordType} {param : List Char}
    (hemit : emitInstr (Core.ldParam type dst param).instr s = some s') (herr : s'.error = []) :
    (Core.ldParam type dst param).Settled s s' := by
  obtain rfl := Option.some.inj ((emitInstr_ldParam_eq type.mem dst.name param s).symm.trans hemit)
  have hfound := hasArgument_of_accepted herr
  have hfloat : loadsFloat s ("ld.param".toList ++ type.mem.text) dst.name = false := by
    have hword := @loadsFloatIf_word type.mem (by cases type <;> rfl)
      (s.fregMap.find dst.name).isSome dst.name
    refine hword.trans ?_
    rw [dst.int, Bool.or_false]
    cases type <;> rfl
  rw [emitLdParam_eq hfound, hfloat] at herr ⊢
  refine (settles_emitValue (fun d => argumentLine false d _) herr).congr ?_ fun _ _ => rfl
  exact fun t ht => ⟨hfound, fun n hn => List.mem_singleton.1 hn ▸ ht⟩

theorem settled_movReg (hemit : emitInstr (Core.movReg dst src).instr s = some s')
    (herr : s'.error = []) : (Core.movReg dst src).Settled s s' := by
  have hfloat : namesFloat dst.name = false := dst.int
  have heq : emitInstr (Core.movReg dst src).instr s =
      some (emitPair s false src.name false dst.name fun n d => transferLines false false d n) := by
    refine (emitInstr_mov_eq .u32 dst.name _ s).trans (congrArg some ?_)
    refine (emitMov_reg _ dst.name src.name).trans ?_
    rw [hfloat, if_neg Bool.false_ne_true]
  obtain rfl := Option.some.inj (heq.symm.trans hemit)
  refine (settles_emitPair herr).congr ?_ fun _ _ => rfl
  rintro t ⟨hsrc, hdst⟩
  exact ⟨trivial, by simpa [Core.names] using ⟨hdst, hsrc⟩⟩

theorem settled_movImm {v : Imm32} (hemit : emitInstr (Core.movImm dst v).instr s = some s')
    (herr : s'.error = []) : (Core.movImm dst v).Settled s s' := by
  have heq := (emitInstr_mov_eq .u32 dst.name _ s).trans
    (congrArg some (emitMov_imm "mov.u32".toList dst.name v.val))
  obtain rfl := Option.some.inj (heq.symm.trans hemit)
  refine (settles_emitValue (fun d => .li d v.val) herr).congr ?_ fun _ _ => rfl
  exact fun t ht => ⟨trivial, fun n hn => List.mem_singleton.1 hn ▸ ht⟩

theorem settled_movPlace {r : PlaceReg} {axis : Axis} {known : r ≠ .nctaid}
    (hemit : emitInstr (Core.movPlace dst r axis known).instr s = some s') (herr : s'.error = []) :
    (Core.movPlace dst r axis known).Settled s s' := by
  have heq := (emitInstr_mov_eq .u32 dst.name _ s).trans
    (congrArg some (emitMov_place known "mov.u32".toList dst.name axis))
  obtain rfl := Option.some.inj (heq.symm.trans hemit)
  refine (settles_emitValue
    (fun d => .load .lw d ((4 * contextIndex r axis : ℕ) : ℤ) gp) herr).congr ?_ fun _ _ => rfl
  exact fun t ht => ⟨trivial, fun n hn => List.mem_singleton.1 hn ▸ ht⟩

def Core.memInstr (acc : Access) (space : Space) (type : WordType) (base : IntName) (offset : ℤ)
    (value : IntName) : MemInstr where
  toMemAccess := Core.access acc space type base offset value
  based := by
    cases space <;> exact fun h => base.named (Option.some.inj h)
  typed h := absurd h Bool.false_ne_true
  plain := by cases acc <;> cases space <;> cases type <;> rfl
  valid := by cases acc <;> cases space <;> cases type <;> rfl

theorem emitBase_params (s : RvEmitter) (address : Address) :
    (emitBase s address).2.params = s.params := by
  cases address with
  | global base => exact ireg_params
  | shared base =>
    unfold emitBase emitSharedBase
    dsimp only
    split_ifs
    · rfl
    · exact ireg_params
  | symbol name => rfl

theorem settles_emitBase {address : Address} (hbased : address.base ≠ some [])
    (h : (emitBase s address).2.error = []) :
    Settles s (emitBase s address).2
      (fun t => (∀ name, address.base = some name → t.HasInt name) ∧
        MemInstr.baseReg t address = (emitBase s address).1)
      fun t => MemInstr.baseLines t address := by
  obtain ⟨hleads, hbase, hreg, hout⟩ := emitBase_spec hbased h
  refine ⟨hleads, emitBase_params s address, fun t ht => ⟨fun name hname => ?_, ?_⟩, fun t ht => ?_⟩
  · exact (ht.find_int (hbase name hname)).1
  · rw [(baseLines_of_leads ht hbase).2, hreg]
  · rw [(baseLines_of_leads ht hbase).1, hout]

theorem settles_access {acc : Access} {space : Space} {type : WordType} {value : IntName}
    (hemit : emitInstr (Core.access acc space type base offset value).instr s = some s')
    (herr : s'.error = []) :
    Settles s s' (fun t => t.HasInt base.name ∧ t.HasInt value.name) fun t =>
      Core.accessLines acc t (space.address base.name) (t.intReg value.name) offset := by
  have hbased : (space.address base.name).base ≠ some [] :=
    (Core.memInstr acc space type base offset value).based
  have hname : (space.address base.name).base = some base.name := by cases space <;> rfl
  have hword : decide (type.mem = .f32) = false := by cases type <;> rfl
  have heq : emitInstr (Core.access acc space type base offset value).instr s =
      some (emitAccess acc (decide (type.mem = .f32)) value.name offset
        (emitBase s (space.address base.name)).1 (emitBase s (space.address base.name)).2) :=
    (Core.memInstr acc space type base offset value).emitInstr_eq
  rw [hword] at heq
  obtain rfl := Option.some.inj (heq.symm.trans hemit)
  have hvalue := settles_emitValue (c := false) (fun d => MemInstr.accessLine acc false d
    (emitBase s (space.address base.name)).1 offset) herr
  have hbase := settles_emitBase hbased hvalue.leads.no_error
  refine (hbase.trans hvalue).congr ?_ ?_
  · rintro t ⟨⟨hhas, -⟩, hhas'⟩
    exact ⟨hhas _ hname, hhas'⟩
  · rintro t ⟨⟨-, hreg⟩, -⟩
    rw [← hreg]
    rfl

theorem settled_ld {space : Space} {type : WordType}
    (hemit : emitInstr (Core.ld space type dst base offset).instr s = some s')
    (herr : s'.error = []) : (Core.ld space type dst base offset).Settled s s' := by
  refine (settles_access hemit herr).congr ?_ fun _ _ => rfl
  rintro t ⟨hbase, hdst⟩
  exact ⟨trivial, by simpa [Core.names] using ⟨hbase, hdst⟩⟩

theorem settled_st {space : Space} {type : WordType}
    (hemit : emitInstr (Core.st space type base offset src).instr s = some s')
    (herr : s'.error = []) : (Core.st space type base offset src).Settled s s' := by
  refine (settles_access hemit herr).congr ?_ fun _ _ => rfl
  rintro t ⟨hbase, hsrc⟩
  exact ⟨trivial, by simpa [Core.names] using ⟨hbase, hsrc⟩⟩

/-! ### Arithmetic -/

def AluOp.kind : AluOp → IntKind
  | add => .add
  | sub => .sub
  | and => .and
  | or => .or
  | xor => .xor

theorem emitInstr_alu (op : AluOp) (type : WordType) (dst a : IntName) (b : Src) :
    emitInstr (Core.alu op type dst a b).instr s =
      emitIntKind op.kind (decide (type = .s32)) (s.ireg dst.name).1
        (Core.alu op type dst a b).instr.operands (s.ireg dst.name).2 := by
  have hdispatched : Dispatched (op.text ++ type.text) op.kind (decide (type = .s32)) := by
    cases op <;> cases type <;> decide
  have harith : emitInstr (Core.alu op type dst a b).instr s =
      emitArith (Core.alu op type dst a b).instr s := by
    cases op <;> cases type <;> rfl
  exact harith.trans (emitArith_of_dispatched (by simp [Core.instr]) hdispatched)

theorem emitInstr_mulLo (type : WordType) (dst a b : IntName) :
    emitInstr (Core.mulLo type dst a b).instr s =
      emitIntKind .mul (decide (type = .s32)) (s.ireg dst.name).1
        (Core.mulLo type dst a b).instr.operands (s.ireg dst.name).2 := by
  have hdispatched : Dispatched ("mul.lo".toList ++ type.text) .mul (decide (type = .s32)) := by
    cases type <;> decide
  have harith : emitInstr (Core.mulLo type dst a b).instr s =
      emitArith (Core.mulLo type dst a b).instr s := by
    cases type <;> rfl
  exact harith.trans (emitArith_of_dispatched (by simp [Core.instr]) hdispatched)

section Sources

variable {operands : List PtxOperand} {x y : Src} {rd : Rv32.Reg} {op : RegOp} {v : ℤ}

theorem settles_emitRegReg (hx : operands[1]? = some x.operand) (hy : operands[2]? = some y.operand)
    (h : (emitRegReg op rd operands s).error = []) :
    Settles s (emitRegReg op rd operands s) (fun t => x.Has t ∧ y.Has t)
      fun t => [.reg op rd (x.register t) (y.register t)] := by
  obtain ⟨⟨hleads, hout⟩, hhasx, hhasy⟩ := emitRegReg_spec hx hy rfl h
  refine ⟨hleads, ?_, fun t ht => ⟨(ht.has hhasx).1, (ht.has hhasy).1⟩, fun t ht => ?_⟩
  · unfold emitRegReg
    split_ifs
    · rfl
    · exact rarg_params.trans rarg_params
  · rw [hout, (ht.has hhasx).2, (ht.has hhasy).2]

theorem settles_emitRegLi (hx : operands[1]? = some x.operand)
    (h : (emitRegLi op rd operands v s).error = []) :
    Settles s (emitRegLi op rd operands v s) (fun t => x.Has t)
      fun t => [.li t6 v, .reg op rd (x.register t) t6] := by
  obtain ⟨⟨hleads, hout⟩, hhas⟩ := emitRegLi_spec hx rfl h
  refine ⟨hleads, rarg_params, fun t ht => (ht.has hhas).1, fun t ht => ?_⟩
  rw [hout, (ht.has hhas).2]

theorem settles_emitAddImm (hx : operands[1]? = some x.operand)
    (h : (emitAddImm rd operands v s).error = []) :
    Settles s (emitAddImm rd operands v s) (fun t => x.Has t)
      fun t => addLines rd (x.register t) v := by
  obtain ⟨⟨hleads, hout⟩, hhas⟩ := emitAddImm_spec hx rfl h
  refine ⟨hleads, ?_, fun t ht => (ht.has hhas).1, fun t ht => ?_⟩
  · unfold emitAddImm emitRegLi
    split_ifs
    · exact rarg_params
    · exact rarg_params
  · rw [hout, ← (ht.has hhas).2]
    rfl

end Sources

/-- The lines for an immediate, whose negative fits. -/
theorem settles_aluImm {op : AluOp} {signed : Bool} {rd : Rv32.Reg} {operands : List PtxOperand}
    {x : Src} {v : Imm32} (hx : operands[1]? = some x.operand)
    (hv : immOperand operands = some v.val)
    (hemit : emitIntKind op.kind signed rd operands s = some s') (herr : s'.error = []) :
    Settles s s' (fun t => x.Has t) fun t => op.immLines rd (x.register t) v.val := by
  cases op with
  | add =>
    obtain rfl : emitAddImm rd operands v.val s = s' := by
      simpa [emitIntKind, AluOp.kind, hv] using hemit
    exact settles_emitAddImm hx herr
  | sub =>
    obtain rfl : emitAddImm rd operands (-v.val) s = s' := by
      have hbounds := v.bounds
      have hneg : neg64 v.val = some (-v.val) := if_neg (by omega)
      simpa [emitIntKind, AluOp.kind, hv, hneg] using hemit
    exact settles_emitAddImm hx herr
  | and | or | xor =>
    simp only [emitIntKind, AluOp.kind, hv, Option.some.injEq] at hemit
    subst hemit
    exact settles_emitRegLi hx herr

theorem settled_alu {op : AluOp} {type : WordType} {y : Src}
    (hemit : emitInstr (Core.alu op type dst a y).instr s = some s') (herr : s'.error = []) :
    (Core.alu op type dst a y).Settled s s' := by
  rw [emitInstr_alu] at hemit
  cases y with
  | reg name =>
    have heq : emitIntKind op.kind (decide (type = .s32)) (s.ireg dst.name).1
        (Core.alu op type dst a (.reg name)).instr.operands (s.ireg dst.name).2 =
          some (emitRegReg op.regOp (s.ireg dst.name).1
            (Core.alu op type dst a (.reg name)).instr.operands (s.ireg dst.name).2) := by
      cases op <;> rfl
    obtain rfl := Option.some.inj (heq.symm.trans hemit)
    have hlines := settles_emitRegReg (x := .reg a.name) (y := .reg name) rfl rfl herr
    refine ((settles_ireg hlines.leads.no_error).trans hlines).congr ?_ ?_
    · rintro t ⟨⟨hdst, -⟩, ha, hname⟩
      exact ⟨trivial, by simpa [Core.names] using ⟨hdst, ha, hname⟩⟩
    · rintro t ⟨⟨-, hreg⟩, -⟩
      rw [← hreg]
      rfl
  | imm v =>
    have hlines := settles_aluImm (x := .reg a.name) (v := v) rfl rfl hemit herr
    refine ((settles_ireg hlines.leads.no_error).trans hlines).congr ?_ ?_
    · rintro t ⟨⟨hdst, -⟩, ha⟩
      exact ⟨trivial, by simpa [Core.names] using ⟨hdst, ha⟩⟩
    · rintro t ⟨⟨-, hreg⟩, -⟩
      rw [← hreg]
      rfl

theorem settled_mulLo {type : WordType}
    (hemit : emitInstr (Core.mulLo type dst a b).instr s = some s') (herr : s'.error = []) :
    (Core.mulLo type dst a b).Settled s s' := by
  rw [emitInstr_mulLo] at hemit
  have heq : emitIntKind .mul (decide (type = .s32)) (s.ireg dst.name).1
      (Core.mulLo type dst a b).instr.operands (s.ireg dst.name).2 =
        some (emitRegReg .mul (s.ireg dst.name).1 (Core.mulLo type dst a b).instr.operands
          (s.ireg dst.name).2) := rfl
  obtain rfl := Option.some.inj (heq.symm.trans hemit)
  have hlines := settles_emitRegReg (x := .reg a.name) (y := .reg b.name) rfl rfl herr
  refine ((settles_ireg hlines.leads.no_error).trans hlines).congr ?_ ?_
  · rintro t ⟨⟨hdst, -⟩, ha, hb⟩
    exact ⟨trivial, by simpa [Core.names] using ⟨hdst, ha, hb⟩⟩
  · rintro t ⟨⟨-, hreg⟩, -⟩
    rw [← hreg]
    rfl

/-! ### Comparisons, branches and barriers -/

theorem settles_emitRegSetp {op : List Char} {rel : Relation} {preg ra rb : Rv32.Reg}
    (hrel : intRelation op = some rel) (h : (emitRegSetp op preg ra rb s).error = []) :
    Settles s (emitRegSetp op preg ra rb s) (fun _ => True)
      fun _ => regLines (contains op ".s32".toList) preg ra rb rel := by
  obtain ⟨hleads, herror, hout⟩ := @emitRegSetp_writes s op rel preg ra rb hrel
  refine ⟨hleads (herror.symm.trans h), ?_, fun _ _ => trivial, fun _ _ => hout⟩
  unfold emitRegSetp
  rw [hrel]
  cases rel <;> rfl

theorem settled_setp {rel : Relation} {type : SetpType}
    (hemit : emitInstr (Core.setp rel type dst a b).instr s = some s') (herr : s'.error = []) :
    (Core.setp rel type dst a b).Settled s s' := by
  obtain ⟨-, hrel, hsigned⟩ := (Core.comparison rel type dst a b).text_dispatched
  have hsetp : emitInstr (Core.setp rel type dst a b).instr s =
      emitSetp (Core.comparison rel type dst a b).instr s := by
    cases rel <;> cases type <;> rfl
  have heq := hsetp.trans (emitSetp_eq (Core.comparison rel type dst a b) s)
  obtain rfl := Option.some.inj (heq.symm.trans hemit)
  have hlines := settles_emitRegSetp hrel herr
  have hb := settles_ireg hlines.leads.no_error
  have ha := settles_ireg hb.leads.no_error
  have hdst := settles_ireg ha.leads.no_error
  refine (hdst.trans (ha.trans (hb.trans hlines))).congr ?_ ?_
  · rintro t ⟨⟨hdst, -⟩, ⟨ha, -⟩, ⟨hb, -⟩, -⟩
    exact ⟨trivial, by simpa [Core.names] using ⟨hdst, ha, hb⟩⟩
  · rintro t ⟨⟨-, hdst⟩, ⟨-, ha⟩, ⟨-, hb⟩, -⟩
    rw [List.nil_append, List.nil_append, List.nil_append, hsigned, ← hdst, ← ha, ← hb]
    rfl

theorem settled_bra {target : List Char}
    (hemit : emitInstr (Core.bra target).instr s = some s') (herr : s'.error = []) :
    (Core.bra target).Settled s s' := by
  have heq : emitInstr (Core.bra target).instr s = some (s.write (.j target)) := rfl
  obtain rfl := Option.some.inj (heq.symm.trans hemit)
  have hlines := settles_write (l := .j target) herr
  exact hlines.congr (fun t _ => ⟨trivial, by simp [Core.names]⟩) fun _ _ => rfl

theorem settled_braIf {predNot : Bool} {target : List Char}
    (hemit : emitInstr (Core.braIf pred predNot target).instr s = some s') (herr : s'.error = []) :
    (Core.braIf pred predNot target).Settled s s' := by
  have heq : emitInstr (Core.braIf pred predNot target).instr s =
      some ((s.ireg pred.name).2.write (if predNot then .beqz (s.ireg pred.name).1 target
        else .bnez (s.ireg pred.name).1 target)) := by
    have hret : (Core.braIf pred predNot target).instr.op ≠ "ret".toList :=
      (by decide : "bra".toList ≠ "ret".toList)
    refine congrArg some ((if_neg hret).trans ((if_neg pred.named).trans ?_))
    cases predNot <;> rfl
  obtain rfl := Option.some.inj (heq.symm.trans hemit)
  have hpred := @settles_ireg s pred.name herr
  refine (hpred.trans (settles_write herr)).congr ?_ ?_
  · rintro t ⟨⟨hpred, -⟩, -⟩
    exact ⟨trivial, by simpa [Core.names] using hpred⟩
  · rintro t ⟨⟨-, hreg⟩, -⟩
    rw [← hreg]
    cases predNot <;> rfl

theorem settled_barSync {id : ℤ} (hemit : emitInstr (Core.barSync id).instr s = some s')
    (herr : s'.error = []) : (Core.barSync id).Settled s s' := by
  have heq : emitInstr (Core.barSync id).instr s =
    some (emitBarSync (Core.barSync id).instr s) := rfl
  obtain rfl := Option.some.inj (heq.symm.trans hemit)
  by_cases hid : 0 ≤ id ∧ id ≤ 15
  · have hlines : emitBarSync (Core.barSync id).instr s =
        s.write (.word ((BitVec.ofInt 32 id <<< 20) ||| 0x0B)) :=
      if_neg (by simp [Core.instr]; omega)
    rw [hlines] at herr ⊢
    exact (settles_write herr).congr (fun t _ => ⟨hid, by simp [Core.names]⟩) fun _ _ => rfl
  · have hlines : emitBarSync (Core.barSync id).instr s =
        { s with
          error := "bar.sync requires one unpredicated immediate ID in range 0..15".toList } :=
      if_pos (by simp [Core.instr]; omega)
    rw [hlines] at herr
    exact absurd herr (List.cons_ne_nil _ _)

theorem settled_ret (hemit : emitInstr Core.ret.instr s = some s') (herr : s'.error = []) :
    Core.ret.Settled s s' := by
  have heq : emitInstr Core.ret.instr s = some (s.write .ret) := rfl
  obtain rfl := Option.some.inj (heq.symm.trans hemit)
  have hlines := settles_write (l := .ret) herr
  exact hlines.congr (fun t _ => ⟨trivial, by simp [Core.names]⟩) fun _ _ => rfl

/-- An instruction that is no label. -/
def Core.IsOp (i : Core) : Prop := i.instr.label = [] ∧ i.instr.op ≠ []

theorem Core.isOp_or_label (i : Core) : i.IsOp ∨ ∃ name named, i = .label name named := by
  cases i with
  | label name named => exact .inr ⟨name, named, rfl⟩
  | alu op type dst a b => exact .inl ⟨rfl, by cases op <;> exact List.cons_ne_nil _ _⟩
  | ld space type dst base offset | st space type base offset src =>
    exact .inl ⟨rfl, List.cons_ne_nil _ _⟩
  | _ => exact .inl ⟨rfl, List.cons_ne_nil _ _⟩

theorem Core.settled (hop : i.IsOp) (hemit : emitInstr i.instr s = some s') (herr : s'.error = []) :
    i.Settled s s' := by
  cases i with
  | label name named => exact absurd rfl hop.2
  | ldParam type dst param => exact settled_ldParam hemit herr
  | movReg dst src => exact settled_movReg hemit herr
  | movImm dst v => exact settled_movImm hemit herr
  | movPlace dst r axis known => exact settled_movPlace hemit herr
  | ld space type dst base offset => exact settled_ld hemit herr
  | st space type base offset src => exact settled_st hemit herr
  | alu op type dst a b => exact settled_alu hemit herr
  | mulLo type dst a b => exact settled_mulLo hemit herr
  | setp rel type dst a b => exact settled_setp hemit herr
  | bra target => exact settled_bra hemit herr
  | braIf pred predNot target => exact settled_braIf hemit herr
  | barSync id => exact settled_barSync hemit herr
  | ret => exact settled_ret hemit herr

end Instructions

/-! ## Kernels -/

/-- The lines of a body, one instruction behind the other. -/
theorem settles_body {s s' : RvEmitter} (body : List Core) (hs : s.error = [])
    (hemit : emitBody (body.map Core.instr) s = some s') (herr : s'.error = []) :
    Settles s s' (fun t => ∀ i ∈ body, i.Has s.params t)
      fun t => body.flatMap fun i => i.lines s.params t := by
  induction body generalizing s with
  | nil =>
    obtain rfl := Option.some.inj hemit
    exact (settles_refl hs).congr (fun t _ i hi => absurd hi List.not_mem_nil) fun _ _ => rfl
  | cons i body ih =>
    rw [List.map_cons, emitBody] at hemit
    obtain hop | ⟨name, named, rfl⟩ := i.isOp_or_label
    · rw [if_neg (not_not.2 hop.1), if_neg hop.2] at hemit
      cases hinstr : emitInstr i.instr s with
      | none =>
        rw [hinstr] at hemit
        exact absurd hemit (Option.some_ne_none s').symm
      | some t =>
        rw [hinstr] at hemit
        dsimp only at hemit
        by_cases ht : t.error = []
        · rw [if_pos ht] at hemit
          have hi := Core.settled hop hinstr ht
          have hbody := ih ht hemit
          rw [hi.params] at hbody
          refine (hi.trans hbody).congr ?_ fun _ _ => rfl
          rintro u ⟨hhas, hhas'⟩
          exact List.forall_mem_cons.2 ⟨hhas, hhas'⟩
        · rw [if_neg ht] at hemit
          obtain rfl := Option.some.inj hemit
          exact absurd herr ht
    · have hlabelled : (Core.label name named).instr.label ≠ [] := named
      rw [if_pos hlabelled] at hemit
      have hlabel := settles_write (l := .label name) hs
      refine (hlabel.trans (ih hs hemit)).congr ?_ fun _ _ => rfl
      rintro u ⟨-, hhas⟩
      exact List.forall_mem_cons.2 ⟨⟨trivial, by simp [Core.names]⟩, hhas⟩

/-- The directive behind the lines of a kernel. -/
def sizeLine (name : List Char) : Line :=
  .directive (".size ".toList ++ name ++ ", . - ".toList ++ name)

/-- The text of a kernel: its header, the lines of its body and its size. -/
theorem emit_lines {k : PtxKernel} {body : List Core} {ls : List Line}
    (hbody : k.body = body.map Core.instr) (hemit : emit k = some (.text ls)) :
    ∃ s, s.Allocated ∧ (∀ i ∈ body, i.Has k.params s) ∧
      ls = header k.name ++ (body.flatMap (fun i => i.lines k.params s) ++ [sizeLine k.name]) := by
  unfold emit at hemit
  cases hvalid : validateKernel k with
  | some message =>
    rw [hvalid] at hemit
    exact absurd hemit (by simp)
  | none =>
    rw [hvalid] at hemit
    obtain ⟨s, hs, htext⟩ := Option.map_eq_some_iff.1 hemit
    by_cases herr : s.error = []
    · rw [if_pos herr] at htext
      obtain rfl := Emitted.text.inj htext
      rw [hbody] at hs
      have hbody' := settles_body body rfl hs herr
      have hstart : ({ ({} : RvEmitter).buildRegMaps k with out := header k.name }).Allocated :=
        ⟨Pool.Map.allocated_empty _, Pool.Map.allocated_empty _⟩
      refine ⟨s, hbody'.leads.allocated hstart, hbody'.has s (.refl herr), ?_⟩
      rw [hbody'.out s (.refl herr), List.append_assoc]
      rfl
    · rw [if_neg herr] at htext
      exact absurd htext (by simp)

end RiscvGpgpu.Ptx
