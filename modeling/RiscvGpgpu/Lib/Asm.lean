import RiscvGpgpu.Lib.Rv32
import Mathlib.Data.Int.Notation

/-!
# RV32IMF assembly

Lines of assembly and what they do to the registers and the memory. An immediate is the number as
it is written; `encodable` says that an assembler for RV32 takes it. The arithmetic of the
floating-point unit is a parameter; its registers hold the bits of single-precision numbers.
-/

namespace Asm

open Rv32 (Word Reg Mem RegOp ImmOp ShiftOp LoadOp StoreOp)

inductive Rounding where
  | rne | rtz | rdn | rup | rmm
deriving DecidableEq, Repr

inductive FloatOp where
  | fadd | fsub | fmul | fdiv
deriving DecidableEq, Repr

inductive FloatCmp where
  | flt | fle | feq
deriving DecidableEq, Repr

/-- The arithmetic of single-precision numbers: from and to integers, signed or not, and among
themselves. -/
structure Fpu where
  ofInt : Rounding → Bool → Word → Word
  toInt : Rounding → Bool → Word → Word
  op : Rounding → FloatOp → Word → Word → Word
  sqrt : Rounding → Word → Word
  fma : Rounding → Word → Word → Word → Word
  cmp : FloatCmp → Word → Word → Bool
deriving Inhabited

/-- `fmv`, `fneg` and `fabs` only change the sign. -/
inductive FloatUnary where
  | fmv | fneg | fabs | fsqrt
deriving DecidableEq, Repr

inductive Line where
  | label (name : List Char)
  | comment (text : List Char)
  | directive (text : List Char)
  | reg (op : RegOp) (rd rs1 rs2 : Reg)
  | imm (op : ImmOp) (rd rs1 : Reg) (imm : ℤ)
  | shift (op : ShiftOp) (rd rs1 : Reg) (shamt : ℤ)
  | li (rd : Reg) (imm : ℤ)
  | mv (rd rs : Reg)
  | not (rd rs : Reg)
  | neg (rd rs : Reg)
  | seqz (rd rs : Reg)
  | snez (rd rs : Reg)
  | load (op : LoadOp) (rd : Reg) (offset : ℤ) (base : Reg)
  | store (op : StoreOp) (rs : Reg) (offset : ℤ) (base : Reg)
  | flw (fd : Reg) (offset : ℤ) (base : Reg)
  | fsw (fs : Reg) (offset : ℤ) (base : Reg)
  | fmvWX (fd rs : Reg)
  | fmvXW (rd fs : Reg)
  | fcvtS (signed : Bool) (fd rs : Reg)
  | fcvtW (signed : Bool) (rd fs : Reg)
  | float (op : FloatOp) (fd fs1 fs2 : Reg)
  | floatUnary (op : FloatUnary) (fd fs : Reg)
  | fmadd (fd fs1 fs2 fs3 : Reg)
  | floatCmp (op : FloatCmp) (rd fs1 fs2 : Reg)
  | beqz (rs : Reg) (name : List Char)
  | bnez (rs : Reg) (name : List Char)
  | j (name : List Char)
  | ret
  | fence
  | word (w : Word)
deriving DecidableEq, Repr

/-! ## Immediates -/

/-- The immediates of 12 bits, also those written as an unsigned number of 32 bits. -/
def fitsImm12 (v : ℤ) : Bool := (-2048 ≤ v && v ≤ 2047) || (2 ^ 32 - 2048 ≤ v && v < 2 ^ 32)

def fitsImm32 (v : ℤ) : Bool := -2 ^ 31 ≤ v && v < 2 ^ 32

def Line.encodable : Line → Bool
  | .imm _ _ _ v => fitsImm12 v
  | .shift _ _ _ v => 0 ≤ v && v < 32
  | .li _ v => fitsImm32 v
  | .load _ _ v _ | .store _ _ v _ | .flw _ v _ | .fsw _ v _ => fitsImm12 v
  | _ => true

/-! ## The machine -/

/-- `frm` is the dynamic rounding mode. -/
structure Machine where
  x : Reg → Word
  f : Reg → Word
  mem : Mem
  frm : Rounding

namespace Machine

variable (m : Machine)

def get (r : Reg) : Word := if r = 0 then 0 else m.x r

def set (r : Reg) (v : Word) : Machine :=
  if r = 0 then m else { m with x := Function.update m.x r v }

def setF (r : Reg) (v : Word) : Machine := { m with f := Function.update m.f r v }

def address (base : Reg) (offset : ℤ) : Word := m.get base + BitVec.ofInt 32 offset

variable {m} {r r' : Reg} {v : Word}

@[simp] theorem get_set_self (h : r ≠ 0) : (m.set r v).get r = v := by
  rw [set, if_neg h, get, if_neg h]
  exact Function.update_self _ _ _

@[simp] theorem get_set_of_ne (h : r' ≠ r) : (m.set r v).get r' = m.get r' := by
  unfold get set
  split_ifs
  · rfl
  · rfl
  · exact Function.update_of_ne h _ _

theorem get_of_ne_zero (h : r ≠ 0) : m.get r = m.x r := if_neg h

@[simp] theorem set_f : (m.set r v).f = m.f := by
  unfold set
  split_ifs <;> rfl

@[simp] theorem set_mem : (m.set r v).mem = m.mem := by
  unfold set
  split_ifs <;> rfl

@[simp] theorem set_frm : (m.set r v).frm = m.frm := by
  unfold set
  split_ifs <;> rfl

@[simp] theorem get_setF : (m.setF r v).get r' = m.get r' := rfl

@[simp] theorem setF_mem : (m.setF r v).mem = m.mem := rfl

@[simp] theorem setF_frm : (m.setF r v).frm = m.frm := rfl

@[simp] theorem setF_f_self : (m.setF r v).f r = v := Function.update_self _ _ _

@[simp] theorem setF_f_of_ne (h : r' ≠ r) : (m.setF r v).f r' = m.f r' :=
  Function.update_of_ne h _ _

end Machine

def FloatUnary.eval (fpu : Fpu) (rm : Rounding) (op : FloatUnary) (a : Word) : Word :=
  match op with
  | fmv => a
  | fneg => a ^^^ BitVec.intMin 32
  | fabs => a &&& BitVec.intMax 32
  | fsqrt => fpu.sqrt rm a

/-- What a line does to registers and memory. -/
def Line.exec (fpu : Fpu) (l : Line) (m : Machine) : Machine :=
  match l with
  | .reg op rd rs1 rs2 => m.set rd (op.eval (m.get rs1) (m.get rs2))
  | .imm op rd rs1 v => m.set rd (op.eval (m.get rs1) (BitVec.ofInt 32 v))
  | .shift op rd rs1 v => m.set rd (op.eval (m.get rs1) v.toNat)
  | .li rd v => m.set rd (BitVec.ofInt 32 v)
  | .mv rd rs => m.set rd (m.get rs)
  | .not rd rs => m.set rd (~~~ m.get rs)
  | .neg rd rs => m.set rd (- m.get rs)
  | .seqz rd rs => m.set rd (Rv32.ofBool (m.get rs = 0))
  | .snez rd rs => m.set rd (Rv32.ofBool (m.get rs ≠ 0))
  | .load op rd offset base => m.set rd (op.read m.mem (m.address base offset))
  | .store op rs offset base =>
    { m with mem := m.mem.write (m.address base offset) (op.bytes (m.get rs)) }
  | .flw fd offset base => m.setF fd (LoadOp.lw.read m.mem (m.address base offset))
  | .fsw fs offset base =>
    { m with mem := m.mem.write (m.address base offset) (StoreOp.sw.bytes (m.f fs)) }
  | .fmvWX fd rs => m.setF fd (m.get rs)
  | .fmvXW rd fs => m.set rd (m.f fs)
  | .fcvtS signed fd rs => m.setF fd (fpu.ofInt m.frm signed (m.get rs))
  | .fcvtW signed rd fs => m.set rd (fpu.toInt m.frm signed (m.f fs))
  | .float op fd fs1 fs2 => m.setF fd (fpu.op m.frm op (m.f fs1) (m.f fs2))
  | .floatUnary op fd fs => m.setF fd (op.eval fpu m.frm (m.f fs))
  | .fmadd fd fs1 fs2 fs3 => m.setF fd (fpu.fma m.frm (m.f fs1) (m.f fs2) (m.f fs3))
  | .floatCmp op rd fs1 fs2 => m.set rd (Rv32.ofBool (fpu.cmp op (m.f fs1) (m.f fs2)))
  | .label _ | .comment _ | .directive _ | .beqz _ _ | .bnez _ _ | .j _ | .ret | .fence
  | .word _ => m

/-- The bytes of the memory that a line reads or writes. -/
def Line.accessed (l : Line) (m : Machine) : List Word :=
  match l with
  | .load op _ offset base =>
    (List.range op.size).map fun k => m.address base offset + BitVec.ofNat 32 k
  | .store op rs offset base =>
    (List.range (op.bytes (m.get rs)).length).map fun k => m.address base offset + BitVec.ofNat 32 k
  | .flw _ offset base | .fsw _ offset base =>
    (List.range 4).map fun k => m.address base offset + BitVec.ofNat 32 k
  | _ => []

/-- Where a line passes control. -/
inductive Next where
  | fall
  | goto (name : List Char)
  | back
deriving DecidableEq, Repr

def Line.next (l : Line) (m : Machine) : Next :=
  match l with
  | .beqz rs name => if m.get rs = 0 then .goto name else .fall
  | .bnez rs name => if m.get rs ≠ 0 then .goto name else .fall
  | .j name => .goto name
  | .ret => .back
  | _ => .fall

/-- Lines without a jump, one after the other. -/
def run (fpu : Fpu) (ls : List Line) (m : Machine) : Machine :=
  ls.foldl (fun m l => l.exec fpu m) m

/-- The bytes that lines without a jump read or write. -/
def accessed (fpu : Fpu) : List Line → Machine → List Word
  | [], _ => []
  | l :: ls, m => l.accessed m ++ accessed fpu ls (l.exec fpu m)

section Run

variable {fpu : Fpu} {l : Line} {ls ls' : List Line} {m : Machine}

@[simp] theorem run_nil : run fpu [] m = m := rfl

@[simp] theorem run_cons : run fpu (l :: ls) m = run fpu ls (l.exec fpu m) := rfl

theorem run_append : run fpu (ls ++ ls') m = run fpu ls' (run fpu ls m) := List.foldl_append

theorem accessed_append :
    accessed fpu (ls ++ ls') m = accessed fpu ls m ++ accessed fpu ls' (run fpu ls m) := by
  induction ls generalizing m with
  | nil => rfl
  | cons l ls ih =>
    rw [List.cons_append, accessed, ih, accessed, List.append_assoc]
    rfl

end Run

end Asm
