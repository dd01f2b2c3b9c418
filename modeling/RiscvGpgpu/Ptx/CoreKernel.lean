import RiscvGpgpu.Lib.LabelledCode
import RiscvGpgpu.Ptx.DataEmission
import RiscvGpgpu.Ptx.IntArith
import RiscvGpgpu.Ptx.Setp

/-!
# Kernels of the core integer subset

The instructions of 32-bit integer kernels, with the branches, barriers and accesses of their
threads, and the lines of a kernel as a worker runs them. Both are labelled code with the same
events. What a thread finds in memory is a function of its events so far: other threads write there
as well.
-/

namespace RiscvGpgpu.Ptx

open Asm (Line Machine Fpu Next)
open Rv32 (RegOp LoadOp StoreOp Mem)

/-! ## Instructions -/

/-- The name of an integer register. -/
structure IntName where
  name : List Char
  named : name ≠ []
  int : namesFloat name = false

inductive WordType where
  | u32 | s32 | b32
deriving DecidableEq, Repr

def WordType.mem : WordType → MemType
  | u32 => .u32
  | s32 => .s32
  | b32 => .b32

def WordType.text (type : WordType) : List Char := type.mem.text

inductive AluOp where
  | add | sub | and | or | xor
deriving DecidableEq, Repr

namespace AluOp

def text : AluOp → List Char
  | add => "add".toList
  | sub => "sub".toList
  | and => "and".toList
  | or => "or".toList
  | xor => "xor".toList

def eval : AluOp → Rv32.Word → Rv32.Word → Rv32.Word
  | add, a, b => a + b
  | sub, a, b => a - b
  | and, a, b => a &&& b
  | or, a, b => a ||| b
  | xor, a, b => a ^^^ b

end AluOp

inductive Space where
  | global | shared
deriving DecidableEq, Repr

def Space.address (space : Space) (base : List Char) : Address :=
  match space with
  | global => .global base
  | shared => .shared base

/-- Where the worker finds an address of the space. -/
def Space.place (space : Space) (a : Rv32.Word) : Rv32.Word :=
  match space with
  | global => a
  | shared => 0x00400000 + a

inductive Core where
  | label (name : List Char) (named : name ≠ [])
  | ldParam (type : WordType) (dst : IntName) (param : List Char)
  | movReg (dst src : IntName)
  | movImm (dst : IntName) (v : Imm32)
  | movPlace (dst : IntName) (r : PlaceReg) (axis : Axis) (known : r ≠ .nctaid)
  | ld (space : Space) (type : WordType) (dst base : IntName) (offset : ℤ)
  | st (space : Space) (type : WordType) (base : IntName) (offset : ℤ) (src : IntName)
  | alu (op : AluOp) (type : WordType) (dst a : IntName) (b : Src)
  | mulLo (type : WordType) (dst a b : IntName)
  | setp (rel : Relation) (type : SetpType) (dst a b : IntName)
  | bra (target : List Char)
  | braIf (pred : IntName) (predNot : Bool) (target : List Char)
  | barSync (id : ℤ)
  | ret

namespace Core

/-- A comparison of registers. -/
def comparison (rel : Relation) (type : SetpType) (dst a b : IntName) : Setp :=
  ⟨rel, type, dst.name, a.name, .reg b.name, dst.named⟩

def access (access : Access) (space : Space) (type : WordType) (base : IntName) (offset : ℤ)
    (value : IntName) : MemAccess :=
  ⟨access, space.address base.name, [], type.mem, offset, false, value.name⟩

def braInstr (pred : List Char) (predNot : Bool) (target : List Char) : PtxInstr :=
  { pred := pred, predNot := predNot, op := "bra".toList,
    operands := [{ kind := .label, name := target }] }

/-- What the parser makes of an instruction. -/
def instr : Core → PtxInstr
  | label name _ => { label := name }
  | ldParam type dst param =>
    dataInstr ("ld.param".toList ++ type.text) dst.name { kind := .memRef, paramName := param }
  | movReg dst src => dataInstr "mov.u32".toList dst.name (MovSrc.reg src.name).operand
  | movImm dst v => dataInstr "mov.u32".toList dst.name (MovSrc.imm v.val).operand
  | movPlace dst r axis _ => dataInstr "mov.u32".toList dst.name (MovSrc.place r axis).operand
  | ld space type dst base offset => (access .ld space type base offset dst).instr
  | st space type base offset src => (access .st space type base offset src).instr
  | alu op type dst a b =>
    { op := op.text ++ type.text,
      operands := [dstOperand dst.name, (Src.reg a.name).operand, b.operand] }
  | mulLo type dst a b =>
    { op := "mul.lo".toList ++ type.text,
      operands := [dstOperand dst.name, (Src.reg a.name).operand, (Src.reg b.name).operand] }
  | setp rel type dst a b => (comparison rel type dst a b).instr
  | bra target => braInstr [] false target
  | braIf pred predNot target => braInstr pred.name predNot target
  | barSync id => { op := "bar.sync".toList, operands := [{ kind := .intImm, intVal := id }] }
  | ret => { op := "ret".toList }

/-- The label that an instruction may go to. -/
def target : Core → Option (List Char)
  | bra target | braIf _ _ target => some target
  | _ => none

end Core

/-- A kernel of these instructions. The assembler finds its labels: none that a branch goes to is
the name of the kernel, which is a label of the text as well. -/
structure CoreKernel where
  kernel : PtxKernel
  body : List Core
  parsed : kernel.body = body.map Core.instr
  returns : body.getLast? = some .ret
  resolved : ∀ i ∈ body, i.target ≠ some kernel.name

/-! ## Threads -/

/-- What others see of a thread: its accesses of memory with the word, its branches, the barriers it
comes to, and its return. -/
inductive Event where
  | load (op : LoadOp) (a v : Rv32.Word)
  | store (op : StoreOp) (a v : Rv32.Word)
  | jump (target : List Char) (taken : Bool)
  | barrier (id : Rv32.Word)
  | ret (address : Rv32.Word)
deriving DecidableEq, Repr

/-- What a launch gives to a thread: the arguments, its context, the place to return to, and the
memory behind any events of the thread. -/
structure Surroundings where
  args : ℕ → Rv32.Word
  ctx : Bridge.CudaThreadCtx
  returnSentinel : Rv32.Word
  mem : List Event → Mem

namespace Core

/-- The values of the registers of a thread. -/
abbrev Env := List Char → Rv32.Word

def Env.set (ρ : Env) (dst : IntName) (v : Rv32.Word) : Env := Function.update ρ dst.name v

variable (params : List PtxParam) (E : Surroundings)

/-- The value of a parameter. -/
def param (name : List Char) : Rv32.Word :=
  match params.find? (·.name = name) with
  | some param => E.args param.index.toNat
  | none => 0

/-- The address of an access. -/
def start (space : Space) (base : IntName) (offset : ℤ) (ρ : Env) : Rv32.Word :=
  space.place (ρ base.name + BitVec.ofInt 32 offset)

def exec (h : List Event) (i : Core) (ρ : Env) : Env :=
  match i with
  | ldParam _ dst name => ρ.set dst (param params E name)
  | movReg dst src => ρ.set dst (ρ src.name)
  | movImm dst v => ρ.set dst (BitVec.ofInt 32 v.val)
  | movPlace dst r axis _ => ρ.set dst (axis.component (r.value E.ctx))
  | ld space _ dst base offset => ρ.set dst (LoadOp.lw.read (E.mem h) (start space base offset ρ))
  | alu op _ dst a b => ρ.set dst (op.eval (ρ a.name) (b.value ρ false))
  | mulLo _ dst a b => ρ.set dst (ρ a.name * ρ b.name)
  | setp rel type dst a b => ρ.set dst (Rv32.ofBool ((comparison rel type dst a b).holds ρ))
  | label _ _ | st _ _ _ _ _ | bra _ | braIf _ _ _ | barSync _ | ret => ρ

/-- A branch on a predicate is taken if the register is not zero, or is zero for a `!`. -/
def taken (pred : IntName) (predNot : Bool) (ρ : Env) : Bool :=
  if predNot then ρ pred.name = 0 else ρ pred.name ≠ 0

def event (h : List Event) (i : Core) (ρ : Env) : Option Event :=
  match i with
  | ld space _ _ base offset =>
    let a := start space base offset ρ
    some (.load .lw a (LoadOp.lw.read (E.mem h) a))
  | st space _ base offset src => some (.store .sw (start space base offset ρ) (ρ src.name))
  | bra target => some (.jump target true)
  | braIf pred predNot target => some (.jump target (taken pred predNot ρ))
  | barSync id => some (.barrier (BitVec.ofInt 32 id))
  | ret => some (.ret E.returnSentinel)
  | label _ _ | ldParam _ _ _ | movReg _ _ | movImm _ _ | movPlace _ _ _ _ | alu _ _ _ _ _
  | mulLo _ _ _ _ | setp _ _ _ _ _ => none

def next (i : Core) (ρ : Env) : Next :=
  match i with
  | bra target => .goto target
  | braIf pred predNot target => if taken pred predNot ρ then .goto target else .fall
  | ret => .back
  | _ => .fall

/-- The kernel as PTX means it. -/
def language : Code.Language Core Env Event where
  exec := exec params E
  event := event E
  next _ := next
  label
    | label name _ => some name
    | _ => none

theorem target_of_next {i : Core} {ρ : Env} {name : List Char} (h : next i ρ = .goto name) :
    i.target = some name := by
  cases i with
  | bra target =>
    obtain rfl := Next.goto.inj h
    rfl
  | braIf pred predNot target =>
    change (if taken pred predNot ρ then Next.goto target else .fall) = _ at h
    split_ifs at h
    obtain rfl := Next.goto.inj h
    rfl
  | _ => exact absurd h (by simp [next])

end Core

/-- The events of the runs of a kernel. -/
def CoreKernel.traces (K : CoreKernel) (E : Surroundings) : Set (List Event) :=
  (Core.language K.kernel.params E).traces K.body 0 fun _ => 0

/-! ## Workers -/

/-- The barrier that a word of the text stands for, if it is one. -/
def barrierId (w : Rv32.Word) : Option Rv32.Word :=
  if w.setWidth 20 = 0x0B#20 then some (w >>> 20) else none

/-- What others see of a line. The context of a thread is its own, and so are the loads through
`gp`. -/
def observed (l : Line) (m : Machine) : Option Event :=
  match l with
  | .load op _ offset base =>
    let a := m.address base offset
    if base = gp then none else some (.load op a (op.read m.mem a))
  | .flw _ offset base =>
    let a := m.address base offset
    some (.load .lw a (LoadOp.lw.read m.mem a))
  | .store op rs offset base => some (.store op (m.address base offset) (m.get rs))
  | .fsw fs offset base => some (.store .sw (m.address base offset) (m.f fs))
  | .j name => some (.jump name true)
  | .beqz rs name => some (.jump name (m.get rs = 0))
  | .bnez rs name => some (.jump name (m.get rs ≠ 0))
  | .word w => (barrierId w).map .barrier
  | .ret => some (.ret (m.get 1))
  | _ => none

/-- The machine in front of the memory that the thread finds. -/
def facing (mem : List Event → Mem) (h : List Event) (m : Machine) : Machine :=
  { m with mem := mem h }

/-- The lines as a worker runs them. -/
def workerLanguage (fpu : Fpu) (mem : List Event → Mem) : Code.Language Line Machine Event where
  exec h l m := l.exec fpu (facing mem h m)
  event h l m := observed l (facing mem h m)
  next _ l m := l.next m
  label
    | .label name => some name
    | _ => none

/-- The registers that a worker starts with: the arguments, `gp` at its context, and the sentinel in
`ra`. Behind any of the events `H` the context is as it was. -/
structure WorkerStart (E : Surroundings) (H : Set (List Event)) (m : Machine) : Prop where
  args : ∀ k < 8, m.get (BitVec.ofNat 5 (10 + k)) = E.args k
  context : ∀ h ∈ H, ∀ k < 9, LoadOp.lw.read (E.mem h) (m.get gp + BitVec.ofNat 32 (4 * k)) =
    E.ctx.words.getD k 0
  sentinel : m.get 1 = E.returnSentinel
  rest : ∀ r ∈ kIRegs, m.get r = 0

end RiscvGpgpu.Ptx
