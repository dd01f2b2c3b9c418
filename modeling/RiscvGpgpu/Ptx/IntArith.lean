import RiscvGpgpu.Ptx.Registers

/-!
# Integer arithmetic of PTX

What PTX defines for the 32-bit integer and predicate instructions, and the lines that `emitArith`
writes for them.
-/

namespace RiscvGpgpu.Ptx

open Asm (Line Machine run)
open Rv32 (RegOp ImmOp ShiftOp)

/-! ## Instructions -/

/-- A number of 32 bits, with a sign or without. -/
structure Imm32 where
  val : ℤ
  bounds : -2 ^ 31 ≤ val ∧ val < 2 ^ 32

/-- A source operand. -/
inductive Src where
  | reg (name : List Char)
  | imm (v : Imm32)

def Src.operand : Src → PtxOperand
  | reg name => { kind := .reg, name := name }
  | imm v => { kind := .intImm, intVal := v.val }

/-- A destination operand. -/
def dstOperand (name : List Char) : PtxOperand := { kind := .reg, name := name }

inductive ArithType where
  | u32 | s32
deriving DecidableEq, Repr

inductive LogicType where
  | b32 | pred
deriving DecidableEq, Repr

inductive ShiftType where
  | u32 | s32 | b32
deriving DecidableEq, Repr

def ArithType.text : ArithType → List Char
  | u32 => ".u32".toList
  | s32 => ".s32".toList

def LogicType.text : LogicType → List Char
  | b32 => ".b32".toList
  | pred => ".pred".toList

def ShiftType.text : ShiftType → List Char
  | u32 => ".u32".toList
  | s32 => ".s32".toList
  | b32 => ".b32".toList

inductive UnaryOp where
  | not (type : LogicType)
  | neg
deriving DecidableEq, Repr

inductive BinaryOp where
  | add (type : ArithType)
  | sub (type : ArithType)
  | mulLo (type : ArithType)
  | div (type : ArithType)
  | rem (type : ArithType)
  | and (type : LogicType)
  | or (type : LogicType)
  | xor (type : LogicType)
  | shl
  | shr (type : ShiftType)
deriving DecidableEq, Repr

def UnaryOp.text : UnaryOp → List Char
  | not type => "not".toList ++ type.text
  | neg => "neg.s32".toList

def BinaryOp.text : BinaryOp → List Char
  | add type => "add".toList ++ type.text
  | sub type => "sub".toList ++ type.text
  | mulLo type => "mul.lo".toList ++ type.text
  | div type => "div".toList ++ type.text
  | rem type => "rem".toList ++ type.text
  | and type => "and".toList ++ type.text
  | or type => "or".toList ++ type.text
  | xor type => "xor".toList ++ type.text
  | shl => "shl.b32".toList
  | shr type => "shr".toList ++ type.text

inductive IntInstr where
  | unary (op : UnaryOp) (dst : List Char) (a : Src)
  | binary (op : BinaryOp) (dst : List Char) (a b : Src)
  | madLo (type : ArithType) (dst : List Char) (a b c : Src)

namespace IntInstr

def dst : IntInstr → List Char
  | unary _ dst _ => dst
  | binary _ dst _ _ => dst
  | madLo _ dst _ _ _ => dst

def srcs : IntInstr → List Src
  | unary _ _ a => [a]
  | binary _ _ a b => [a, b]
  | madLo _ _ a b c => [a, b, c]

def text : IntInstr → List Char
  | unary op _ _ => op.text
  | binary op _ _ _ => op.text
  | madLo type _ _ _ _ => "mad.lo".toList ++ type.text

def instr (i : IntInstr) : PtxInstr :=
  { op := i.text, operands := dstOperand i.dst :: i.srcs.map Src.operand }

/-- The sources are predicates. -/
def onPreds : IntInstr → Bool
  | unary (.not .pred) _ _ => true
  | binary (.and .pred) _ _ _ | binary (.or .pred) _ _ _ | binary (.xor .pred) _ _ _ => true
  | _ => false

end IntInstr

/-! ## What PTX defines -/

/-- The value of a source, where `ρ` are the values of the registers. A number that is used as a
predicate is true unless it is zero. -/
def Src.value (ρ : List Char → Rv32.Word) (preds : Bool) : Src → Rv32.Word
  | reg name => ρ name
  | imm v => if preds then Rv32.ofBool (v.val ≠ 0) else BitVec.ofInt 32 v.val

def UnaryOp.eval : UnaryOp → Rv32.Word → Rv32.Word
  | not .b32, a => ~~~ a
  | not .pred, a => a ^^^ 1
  | neg, a => -a

/-- What the operation yields; a division by zero yields an unspecified value. Shift amounts from 32
on shift all bits out. -/
def BinaryOp.eval : BinaryOp → Rv32.Word → Rv32.Word → Option Rv32.Word
  | add _, a, b => some (a + b)
  | sub _, a, b => some (a - b)
  | mulLo _, a, b => some (a * b)
  | div .u32, a, b => if b = 0 then none else some (a / b)
  | div .s32, a, b => if b = 0 then none else some (a.sdiv b)
  | rem .u32, a, b => if b = 0 then none else some (a % b)
  | rem .s32, a, b => if b = 0 then none else some (a.srem b)
  | and _, a, b => some (a &&& b)
  | or _, a, b => some (a ||| b)
  | xor _, a, b => some (a ^^^ b)
  | shl, a, b => some (a <<< b.toNat)
  | shr .s32, a, b => some (a.sshiftRight b.toNat)
  | shr _, a, b => some (a >>> b.toNat)

/-- The value that PTX defines for the destination. -/
def IntInstr.result (ρ : List Char → Rv32.Word) (i : IntInstr) : Option Rv32.Word :=
  match i with
  | unary op _ a => some (op.eval (a.value ρ i.onPreds))
  | binary op _ a b => op.eval (a.value ρ i.onPreds) (b.value ρ i.onPreds)
  | madLo _ _ a b c => some (a.value ρ false * b.value ρ false + c.value ρ false)

/-- The registers that are read as predicates hold 0 or 1. -/
def IntInstr.PredsHold (ρ : List Char → Rv32.Word) (i : IntInstr) : Prop :=
  i.onPreds = true → ∀ name, Src.reg name ∈ i.srcs → ρ name = 0 ∨ ρ name = 1

/-! ## What the emitted lines compute -/

/-- The lines behind `s` in `s'` compute `v` into the register of `dst` and change no other register
but `t6`. -/
structure Computes (s s' : RvEmitter) (dst : List Char) (ls : List Line)
    (v : (List Char → Rv32.Word) → Rv32.Word) : Prop where
  out : s'.out = s.out ++ ls
  result : ∀ fpu m, (run fpu ls m).get (s'.intReg dst) = v fun n => m.get (s'.intReg n)
  frame : ∀ fpu m r, r ≠ s'.intReg dst → r ≠ t6 → (run fpu ls m).get r = m.get r
  floats : ∀ fpu m, (run fpu ls m).f = m.f
  memory : ∀ fpu m, (run fpu ls m).mem = m.mem

/-- An assembler takes all the lines. -/
def Encodable (ls : List Line) : Prop := ∀ l ∈ ls, l.encodable = true

/-- The code for an instruction is right for the values `ρ` of the registers: it can be assembled,
leaves what PTX defines in the destination and changes no other register but `t6`. -/
def IntInstr.Correct (s : RvEmitter) (ρ : List Char → Rv32.Word) (i : IntInstr) : Prop :=
  ∃ s' ls, emitArith i.instr s = some s' ∧ s'.out = s.out ++ ls ∧ Encodable ls ∧
    ∀ fpu m, (∀ name, Src.reg name ∈ i.srcs → m.get (s'.intReg name) = ρ name) →
      (∀ v, i.result ρ = some v → (run fpu ls m).get (s'.intReg i.dst) = v) ∧
      (∀ r, r ≠ s'.intReg i.dst → r ≠ t6 → (run fpu ls m).get r = m.get r) ∧
      (run fpu ls m).f = m.f ∧ (run fpu ls m).mem = m.mem

/-- What the emitted code reads for an operand that it takes from a register: an immediate is read
as 0. -/
def Src.seen (ρ : List Char → Rv32.Word) : Src → Rv32.Word
  | reg name => ρ name
  | imm _ => 0

/-- The source is the register `name`. -/
def Src.is (name : List Char) : Src → Bool
  | reg name' => name' = name
  | imm _ => false

/-- The register of a source. -/
def Src.register (s : RvEmitter) : Src → Rv32.Reg
  | reg name => s.intReg name
  | imm _ => 0

/-- The source has a register if it needs one. -/
def Src.Has (s : RvEmitter) : Src → Prop
  | reg name => s.HasInt name
  | imm _ => True

theorem Src.get_register (s : RvEmitter) (m : Machine) (a : Src) :
    m.get (a.register s) = a.seen fun n => m.get (s.intReg n) := by
  cases a with
  | reg name => rfl
  | imm v => rfl

section Emission

variable {s s' : RvEmitter} {operands : List PtxOperand} {idx : ℕ} {a b c : Src} {rd : Rv32.Reg}
  {dst : List Char}

theorem RvEmitter.Leads.has (h : s.Leads s') (ha : a.Has s) :
    a.Has s' ∧ a.register s' = a.register s := by
  cases a with
  | reg name => exact h.find_int ha
  | imm v => exact ⟨trivial, rfl⟩

theorem rarg_out : (rarg s operands idx).2.out = s.out := by
  unfold rarg
  split
  · split_ifs
    · exact RvEmitter.ireg_out
    · rfl
  · rfl

/-- `rarg` gives the register of a source. -/
theorem rarg_spec (hidx : operands[idx]? = some a.operand)
    (h : (rarg s operands idx).2.error = []) :
    s.Leads (rarg s operands idx).2 ∧ a.Has (rarg s operands idx).2 ∧
      (rarg s operands idx).1 = a.register (rarg s operands idx).2 ∧
      (rarg s operands idx).2.out = s.out := by
  unfold rarg at h ⊢
  rw [hidx] at h ⊢
  cases a with
  | reg name =>
    obtain ⟨hleads, hfind, hout⟩ := RvEmitter.ireg_spec h
    exact ⟨hleads, RvEmitter.hasInt_of_find hfind, (RvEmitter.intReg_of_find hfind).symm, hout⟩
  | imm v => exact ⟨RvEmitter.Leads.refl h, trivial, rfl, rfl⟩

/-- The lines behind `s` in `s'`, where `dst` got its register in front of them. -/
structure Emits (s s' : RvEmitter) (ls : List Line) : Prop where
  leads : s.Leads s'
  out : s'.out = s.out ++ ls

theorem emitRegReg_spec {op : RegOp} (ha : operands[1]? = some a.operand)
    (hb : operands[2]? = some b.operand) (heq : emitRegReg op rd operands s = s')
    (h : s'.error = []) :
    Emits s s' [.reg op rd (a.register s') (b.register s')] ∧ a.Has s' ∧ b.Has s' := by
  have hsize : ¬ operands.length < 3 := by
    obtain ⟨hlt, -⟩ := List.getElem?_eq_some_iff.1 hb
    omega
  unfold emitRegReg at heq
  rw [if_neg hsize] at heq
  subst heq
  obtain ⟨hleads₂, hhas₂, hreg₂, hout₂⟩ := rarg_spec hb h
  obtain ⟨hleads₁, hhas₁, hreg₁, hout₁⟩ := rarg_spec ha hleads₂.no_error
  obtain ⟨hhas, hkeep⟩ := hleads₂.has hhas₁
  refine ⟨⟨(hleads₁.trans hleads₂).write _, ?_⟩, hhas, hhas₂⟩
  show (rarg _ operands 2).2.out ++ _ = _
  rw [hout₂, hout₁, hreg₁, ← hkeep, hreg₂]
  rfl

theorem emitMad_spec (ha : operands[1]? = some a.operand) (hb : operands[2]? = some b.operand)
    (hc : operands[3]? = some c.operand) (heq : emitMad rd operands s = s') (h : s'.error = []) :
    Emits s s' [.reg .mul rd (a.register s') (b.register s'), .reg .add rd rd (c.register s')] ∧
      a.Has s' ∧ b.Has s' ∧ c.Has s' := by
  have hsize : ¬ operands.length < 4 := by
    obtain ⟨hlt, -⟩ := List.getElem?_eq_some_iff.1 hc
    omega
  unfold emitMad at heq
  rw [if_neg hsize] at heq
  subst heq
  obtain ⟨hleads₃, hhas₃, hreg₃, hout₃⟩ := rarg_spec hc h
  obtain ⟨hleads₂, hhas₂, hreg₂, hout₂⟩ := rarg_spec hb hleads₃.no_error
  obtain ⟨hleads₁, hhas₁, hreg₁, hout₁⟩ := rarg_spec ha hleads₂.no_error
  have hlast := hleads₂.trans hleads₃.of_write
  obtain ⟨hhasb, hkeepb⟩ := hleads₃.of_write.has hhas₂
  obtain ⟨hhasa, hkeepa⟩ := hlast.has hhas₁
  refine ⟨⟨(hleads₁.trans hlast).write _, ?_⟩, hhasa, hhasb, hhas₃⟩
  show (rarg _ operands 3).2.out ++ [_] = _
  rw [hout₃, hreg₃]
  show (rarg _ operands 2).2.out ++ [_] ++ [_] = s.out ++ ([_] ++ [_])
  rw [hout₂, hout₁, List.append_assoc]
  congr 3
  exact congrArg₂ (Line.reg .mul rd) (hreg₁.trans hkeepa.symm) (hreg₂.trans hkeepb.symm)

/-- One line that reads the first source. -/
theorem emit_first_spec {f : Rv32.Reg → Line} (ha : operands[1]? = some a.operand)
    (heq : (rarg s operands 1).2.write (f (rarg s operands 1).1) = s') (h : s'.error = []) :
    Emits s s' [f (a.register s')] ∧ a.Has s' := by
  subst heq
  obtain ⟨hleads, hhas, hreg, hout⟩ := rarg_spec ha h
  refine ⟨⟨hleads.write _, ?_⟩, hhas⟩
  show (rarg s operands 1).2.out ++ _ = _
  rw [hout, hreg]
  rfl

theorem emitRegLi_spec {op : RegOp} {imm : ℤ} (ha : operands[1]? = some a.operand)
    (heq : emitRegLi op rd operands imm s = s') (h : s'.error = []) :
    Emits s s' [.li t6 imm, .reg op rd (a.register s') t6] ∧ a.Has s' := by
  obtain ⟨⟨hleads, hout⟩, hhas⟩ := emit_first_spec (f := fun r => .reg op rd r t6) ha heq h
  refine ⟨⟨hleads.of_write, ?_⟩, hhas⟩
  rw [hout]
  exact List.append_assoc _ _ _

theorem emitAddImm_spec {imm : ℤ} (ha : operands[1]? = some a.operand)
    (heq : emitAddImm rd operands imm s = s') (h : s'.error = []) :
    Emits s s'
      (if imm < -2048 ∨ 2047 < imm then [.li t6 imm, .reg .add rd (a.register s') t6]
      else [.imm .addi rd (a.register s') imm]) ∧ a.Has s' := by
  unfold emitAddImm at heq
  split_ifs at heq ⊢
  · exact emitRegLi_spec ha heq h
  · exact emit_first_spec (f := fun r => .imm .addi rd r imm) ha heq h

end Emission

/-! ## Running the lines -/

section Running

variable {s s' : RvEmitter} {dst : List Char} {a b c : Src}

theorem Src.register_ne_t6 (hs : s.Allocated) (ha : a.Has s) : a.register s ≠ t6 := by
  cases a with
  | reg name => exact hs.intReg_ne_t6 ha
  | imm v => exact (by decide : (0 : Rv32.Reg) ≠ 31)

/-- One line that writes the destination. -/
theorem computes_one {l : Line} {v : (List Char → Rv32.Word) → Rv32.Word} (hs : s'.Allocated)
    (hdst : s'.HasInt dst) (hout : s'.out = s.out ++ [l])
    (hexec : ∀ fpu m, l.exec fpu m = m.set (s'.intReg dst) (v fun n => m.get (s'.intReg n))) :
    Computes s s' dst [l] v where
  out := hout
  result fpu m := by
    rw [Asm.run_cons, Asm.run_nil, hexec, Machine.get_set_self (hs.intReg_ne_zero hdst)]
  frame fpu m r hr _ := by
    rw [Asm.run_cons, Asm.run_nil, hexec, Machine.get_set_of_ne hr]
  floats fpu m := by
    rw [Asm.run_cons, Asm.run_nil, hexec, Machine.set_f]
  memory fpu m := by
    rw [Asm.run_cons, Asm.run_nil, hexec, Machine.set_mem]

theorem get_liLines {fpu : Asm.Fpu} {m : Machine} {d x : Rv32.Reg} {op : RegOp} {imm : ℤ}
    (hd : d ≠ 0)
    (hx : x ≠ t6) : (Asm.run fpu [.li t6 imm, .reg op d x t6] m).get d =
      op.eval (m.get x) (BitVec.ofInt 32 imm) := by
  have ht6 : t6 ≠ 0 := by decide
  simp only [Asm.run_cons, Asm.run_nil, Line.exec]
  rw [Machine.get_set_self hd, Machine.get_set_self ht6, Machine.get_set_of_ne hx]

/-- An operation on the first source and `t6`. -/
theorem computes_li {op : RegOp} {imm : ℤ} (hs : s'.Allocated) (hdst : s'.HasInt dst)
    (ha : a.Has s')
    (hout : s'.out = s.out ++ [.li t6 imm, .reg op (s'.intReg dst) (a.register s') t6]) :
    Computes s s' dst [.li t6 imm, .reg op (s'.intReg dst) (a.register s') t6]
      fun ρ => op.eval (a.seen ρ) (BitVec.ofInt 32 imm) where
  out := hout
  result fpu m := by
    rw [get_liLines (hs.intReg_ne_zero hdst) (Src.register_ne_t6 hs ha), Src.get_register]
  frame fpu m r hr ht := by
    simp only [Asm.run_cons, Asm.run_nil, Line.exec]
    rw [Machine.get_set_of_ne hr, Machine.get_set_of_ne ht]
  floats fpu m := by
    simp only [Asm.run_cons, Asm.run_nil, Line.exec, Machine.set_f]
  memory fpu m := by
    simp only [Asm.run_cons, Asm.run_nil, Line.exec, Machine.set_mem]

theorem computes_reg {op : RegOp} (hs : s'.Allocated) (hdst : s'.HasInt dst)
    (hout : s'.out = s.out ++ [.reg op (s'.intReg dst) (a.register s') (b.register s')]) :
    Computes s s' dst [.reg op (s'.intReg dst) (a.register s') (b.register s')]
      fun ρ => op.eval (a.seen ρ) (b.seen ρ) :=
  computes_one hs hdst hout fun fpu m => by rw [Line.exec, Src.get_register, Src.get_register]

theorem regOp_mul (x y : Rv32.Word) : RegOp.mul.eval x y = x * y := by
  show BitVec.ofInt 32 (x.toInt * y.toInt) = x * y
  rw [BitVec.ofInt_mul, BitVec.ofInt_toInt, BitVec.ofInt_toInt]

/-- Two lines, where the destination is written before the last source is read. -/
theorem computes_mad (hs : s'.Allocated) (hdst : s'.HasInt dst) (hc : c.Has s')
    (hout : s'.out = s.out ++ [.reg .mul (s'.intReg dst) (a.register s') (b.register s'),
      .reg .add (s'.intReg dst) (s'.intReg dst) (c.register s')]) :
    Computes s s' dst [.reg .mul (s'.intReg dst) (a.register s') (b.register s'),
      .reg .add (s'.intReg dst) (s'.intReg dst) (c.register s')]
      fun ρ => (a.seen ρ * b.seen ρ) +
        (if c.is dst then a.seen ρ * b.seen ρ else c.seen ρ) where
  out := hout
  result fpu m := by
    simp only [Asm.run_cons, Asm.run_nil, Line.exec]
    rw [Machine.get_set_self (hs.intReg_ne_zero hdst),
      Machine.get_set_self (hs.intReg_ne_zero hdst), regOp_mul, Src.get_register, Src.get_register]
    show _ + _ = _ + _
    congr 1
    cases c with
    | reg name =>
      by_cases hname : name = dst
      · subst hname
        rw [if_pos (by simp [Src.is])]
        exact Machine.get_set_self (hs.intReg_ne_zero hdst)
      · rw [if_neg (by simpa [Src.is] using hname)]
        exact Machine.get_set_of_ne fun h => hname ((hs.intReg_inj hc hdst).1 h)
    | imm v => rfl
  frame fpu m r hr _ := by
    simp only [Asm.run_cons, Asm.run_nil, Line.exec]
    rw [Machine.get_set_of_ne hr, Machine.get_set_of_ne hr]
  floats fpu m := by
    simp only [Asm.run_cons, Asm.run_nil, Line.exec, Machine.set_f]
  memory fpu m := by
    simp only [Asm.run_cons, Asm.run_nil, Line.exec, Machine.set_mem]

end Running

end RiscvGpgpu.Ptx
