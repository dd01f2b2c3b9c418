import RiscvGpgpu.Lib.Asm
import RiscvGpgpu.Lib.Pool
import RiscvGpgpu.Ptx.PtxParser

/-!
# The RISC-V emitter

`rv_emitter.h` and `rv_emitter.cpp`. The text that is written is the list of its lines, without the
comments behind an instruction. A function that may overflow a signed number or shift too far is
`none` there.
-/

namespace RiscvGpgpu.Ptx

open Asm (Line FloatOp FloatUnary FloatCmp)
open Rv32 (RegOp ImmOp ShiftOp)

/-! ## Registers -/

/-- `t0` to `t5` and `s0` to `s11`. -/
def kIRegs : List Rv32.Reg := [5, 6, 7, 28, 29, 30, 8, 9, 18, 19, 20, 21, 22, 23, 24, 25, 26, 27]

/-- `fa0` to `fa7` and `ft0` to `ft11`. -/
def kFRegs : List Rv32.Reg :=
  [10, 11, 12, 13, 14, 15, 16, 17, 0, 1, 2, 3, 4, 5, 6, 7, 28, 29, 30, 31]

/-- `a0` to `a7`. -/
def kParamRegs : List Rv32.Reg := [10, 11, 12, 13, 14, 15, 16, 17]

def t6 : Rv32.Reg := 31

def gp : Rv32.Reg := 3

def specialRegOffset (name : List Char) : ℤ :=
  if name = "tid.x".toList then 0
  else if name = "tid.y".toList then 4
  else if name = "tid.z".toList then 8
  else if name = "ctaid.x".toList then 12
  else if name = "ctaid.y".toList then 16
  else if name = "ctaid.z".toList then 20
  else if name = "ntid.x".toList then 24
  else if name = "ntid.y".toList then 28
  else if name = "ntid.z".toList then 32
  else -1

/-- `out` is the stream that `emit` writes to. -/
structure RvEmitter where
  error : List Char := []
  iregMap : Pool.Map (List Char) Rv32.Reg := {}
  fregMap : Pool.Map (List Char) Rv32.Reg := {}
  wideRegs : List (List Char) := []
  addressSize : BitVec 32 := 32
  params : List PtxParam := []
  out : List Line := []
deriving DecidableEq, Repr

/-- `startsWith`. -/
def startsWith (s p : List Char) : Bool := s = p || (p ++ ['.']).isPrefixOf s

/-- `s.find(sub) != npos`. -/
def contains (s sub : List Char) : Bool := (Text.find sub s).isSome

namespace RvEmitter

/-- The names of the registers that a declaration of 64-bit registers declares. -/
def wideNames (decl : PtxRegDecl) : List (List Char) :=
  let name := if decl.regPrefix.head? = some '%' then decl.regPrefix.tail else decl.regPrefix
  if decl.type ≠ "b64".toList then []
  else (List.range decl.count.toNat).map fun index => name ++ Text.decimal index

def buildRegMaps (s : RvEmitter) (k : PtxKernel) : RvEmitter :=
  { s with
    iregMap := {}
    fregMap := {}
    wideRegs := k.regDecls.flatMap wideNames
    addressSize := k.addressSize
    params := k.params }

def ireg (s : RvEmitter) (name : List Char) : Rv32.Reg × RvEmitter :=
  match s.iregMap.assign kIRegs name with
  | some (r, iregMap) => (r, { s with iregMap := iregMap })
  | none =>
    (5, { s with
      error := "Ran out of integer registers (needed for '".toList ++ name ++ "')".toList })

def freg (s : RvEmitter) (name : List Char) : Rv32.Reg × RvEmitter :=
  match s.fregMap.assign kFRegs name with
  | some (r, fregMap) => (r, { s with fregMap := fregMap })
  | none =>
    (10, { s with
      error := "Ran out of float registers (needed for '".toList ++ name ++ "')".toList })

def reject (s : RvEmitter) (message : List Char) : RvEmitter :=
  if s.error = [] then { s with error := message } else s

def isWideRegister (s : RvEmitter) (name : List Char) : Bool := name ∈ s.wideRegs

/-- `out << line`. -/
def write (s : RvEmitter) (l : Line) : RvEmitter := { s with out := s.out ++ [l] }

end RvEmitter

open RvEmitter

/-! ## Validation -/

/-- The message of `validateInstruction`, if it rejects the instruction. -/
def validateInstruction (instr : PtxInstr) : Option (List Char) :=
  let op := instr.op
  let wideMemory := contains op ".u64".toList || contains op ".s64".toList ||
    contains op ".b64".toList || contains op ".f64".toList
  if instr.pred ≠ [] ∧ op ≠ "bra".toList then
    some ("predication is only supported for bra: ".toList ++ op)
  else if (startsWith op "ld.global".toList || startsWith op "st.global".toList ||
      startsWith op "ld.shared".toList || startsWith op "st.shared".toList) && wideMemory then
    some ("64-bit memory elements are not supported on RV32: ".toList ++ op)
  else if startsWith op "mad.wide".toList || startsWith op "mul.lo.u64".toList ||
      startsWith op "mul.lo.s64".toList || startsWith op "div.u64".toList ||
      startsWith op "div.s64".toList || startsWith op "rem.u64".toList ||
      startsWith op "rem.s64".toList then
    some ("general 64-bit arithmetic is not supported on RV32: ".toList ++ op)
  else none

def validateKernel (k : PtxKernel) : Option (List Char) :=
  if k.addressSize ≠ 32 ∧ k.addressSize ≠ 64 then some "unsupported PTX address size".toList
  else
    (k.body.filter fun instr => instr.label = [] && instr.op ≠ []).findSome? validateInstruction

/-! ## Parameters -/

/-- The class of the destination of `ld.param`, by whether the name has a float register. -/
def loadsFloatIf (known : Bool) (op name : List Char) : Bool :=
  let byName := name.head? = some 'f' || known
  let byType :=
    if contains op ".f32".toList || contains op ".f64".toList then true
    else if contains op ".u32".toList || contains op ".u64".toList || contains op ".b32".toList ||
        contains op ".b64".toList || contains op ".s32".toList then false
    else byName
  byType || name.head? = some 'f'

def loadsFloat (s : RvEmitter) (op name : List Char) : Bool :=
  loadsFloatIf (s.fregMap.find name).isSome op name

def emitLdParam (instr : PtxInstr) (s : RvEmitter) : RvEmitter :=
  match instr.operands with
  | [dst, src] =>
    if dst.kind ≠ .reg ∨ src.kind ≠ .memRef then
      s.reject "ld.param requires a register and a parameter reference".toList
    else
      match if src.paramName = [] then none else s.params.find? (·.name = src.paramName) with
      | none =>
        s.reject ("ld.param references an unknown or unsupported parameter: ".toList ++
          src.paramName)
      | some param =>
        if param.index.toInt < 0 ∨ 8 ≤ param.index.toInt then
          s.reject ("ld.param references an unknown or unsupported parameter: ".toList ++
            src.paramName)
        else if src.memOffset ≠ 0 then
          s.reject "ld.param offsets are not supported by the RV32 argument ABI".toList
        else if (contains instr.op ".u64".toList || contains instr.op ".b64".toList) ∧
            (s.addressSize ≠ 64 ∨ ¬ s.isWideRegister dst.name ∨
              param.space ≠ ".u64".toList ∧ param.space ≠ ".b64".toList) then
          s.reject
            "ld.param.u64 requires PTX64 pointer lowering into a declared wide register".toList
        else
          let paramRv := kParamRegs.getD param.index.toNat 0
          if loadsFloat s instr.op dst.name then
            let frd := s.freg dst.name
            frd.2.write (.fmvWX frd.1 paramRv)
          else
            let ird := s.ireg dst.name
            ird.2.write (.mv ird.1 paramRv)
  | _ => s.reject "ld.param requires a register and a parameter reference".toList

/-! ## Memory -/

/-- The load of a word from memory into a register, after the base register is known. -/
def emitLoad (op name : List Char) (offset : ℤ) (base : Rv32.Reg) (s : RvEmitter) : RvEmitter :=
  if contains op ".f32".toList then
    let fd := s.freg name
    fd.2.write (.flw fd.1 offset base)
  else
    let rd := s.ireg name
    rd.2.write (.load .lw rd.1 offset base)

def emitStore (op name : List Char) (offset : ℤ) (base : Rv32.Reg) (s : RvEmitter) : RvEmitter :=
  if contains op ".f32".toList then
    let fs := s.freg name
    fs.2.write (.fsw fs.1 offset base)
  else
    let rs := s.ireg name
    rs.2.write (.store .sw rs.1 offset base)

def emitLdGlobal (instr : PtxInstr) (s : RvEmitter) : RvEmitter :=
  match instr.operands with
  | [dst, src] =>
    if dst.kind ≠ .reg ∨ src.kind ≠ .memRef ∨ src.memBase = [] then
      s.reject "ld.global requires a destination register and register-based address".toList
    else
      let base := s.ireg src.memBase
      emitLoad instr.op dst.name src.memOffset base.1 base.2
  | _ => s.reject "ld.global requires a destination register and register-based address".toList

def emitStGlobal (instr : PtxInstr) (s : RvEmitter) : RvEmitter :=
  match instr.operands with
  | [addrOp, valOp] =>
    if addrOp.kind ≠ .memRef ∨ addrOp.memBase = [] ∨ valOp.kind ≠ .reg then
      s.reject "st.global requires a register-based address and source register".toList
    else
      let base := s.ireg addrOp.memBase
      emitStore instr.op valOp.name addrOp.memOffset base.1 base.2
  | _ => s.reject "st.global requires a register-based address and source register".toList

/-- The address in shared memory without its offset, in `t6`. -/
def emitSharedBase (memBase : List Char) (s : RvEmitter) : RvEmitter :=
  let s := s.write (.li t6 0x00400000)
  if memBase = [] then s
  else
    let offsetReg := s.ireg memBase
    offsetReg.2.write (.reg .add t6 t6 offsetReg.1)

def emitLdShared (instr : PtxInstr) (s : RvEmitter) : RvEmitter :=
  match instr.operands with
  | [dst, src] =>
    if dst.kind ≠ .reg ∨ src.kind ≠ .memRef then
      s.reject "ld.shared requires a destination register and shared-memory reference".toList
    else emitLoad instr.op dst.name src.memOffset t6 (emitSharedBase src.memBase s)
  | _ => s.reject "ld.shared requires a destination register and shared-memory reference".toList

def emitStShared (instr : PtxInstr) (s : RvEmitter) : RvEmitter :=
  match instr.operands with
  | [dst, src] =>
    if dst.kind ≠ .memRef ∨ src.kind ≠ .reg then
      s.reject "st.shared requires a shared-memory reference and source register".toList
    else emitStore instr.op src.name dst.memOffset t6 (emitSharedBase dst.memBase s)
  | _ => s.reject "st.shared requires a shared-memory reference and source register".toList

/-! ## Moves and conversions -/

/-- `mv` to `dst` from `src`, nothing if they are one register. -/
def writeMv (dst src : Rv32.Reg) (s : RvEmitter) : RvEmitter :=
  if dst ≠ src then s.write (.mv dst src) else s

def emitMov (instr : PtxInstr) (s : RvEmitter) : RvEmitter :=
  match instr.operands with
  | [dst, src] =>
    if dst.kind ≠ .reg then
      s.reject "mov requires a destination register and one source operand".toList
    else
      match src.kind with
      | .specialReg =>
        let offset := specialRegOffset src.name
        if 0 ≤ offset then
          let rd := s.ireg dst.name
          rd.2.write (.load .lw rd.1 offset gp)
        else s.write (.comment ("Unsupported special reg %".toList ++ src.name))
      | .reg =>
        if dst.name.head? = some 'f' then
          let fd := s.freg dst.name
          let fs := fd.2.freg src.name
          fs.2.write (.floatUnary .fmv fd.1 fs.1)
        else
          let sreg := s.ireg src.name
          let dreg := sreg.2.ireg dst.name
          writeMv dreg.1 sreg.1 dreg.2
      | .intImm =>
        let rd := s.ireg dst.name
        rd.2.write (.li rd.1 src.intVal)
      | _ => s.reject ("unsupported mov operand: ".toList ++ instr.op)
  | _ => s.reject "mov requires a destination register and one source operand".toList

/-- The `mv` of `emitCvt`. -/
def emitCvtMv (dst src : List Char) (s : RvEmitter) : RvEmitter :=
  let dreg := s.ireg dst
  let sreg := dreg.2.ireg src
  writeMv dreg.1 sreg.1 sreg.2

def emitCvt (instr : PtxInstr) (s : RvEmitter) : RvEmitter :=
  let op := instr.op
  match instr.operands with
  | [dst, src] =>
    if dst.kind ≠ .reg ∨ src.kind ≠ .reg then
      s.reject "cvt/cvta requires two register operands".toList
    else if startsWith op "cvta".toList then
      if s.addressSize ≠ 64 ∨ ¬ s.isWideRegister dst.name ∨ ¬ s.isWideRegister src.name then
        s.reject "cvta.u64 requires PTX64 declared wide registers".toList
      else emitCvtMv dst.name src.name s
    else if op = "cvt.u64.u32".toList ∨ op = "cvt.s64.s32".toList ∨ op = "cvt.u32.u64".toList then
      if s.addressSize ≠ 64 then s.reject "64-bit conversion requires PTX64 narrowing mode".toList
      else emitCvtMv dst.name src.name s
    else if contains op ".u64".toList || contains op ".s64".toList || contains op ".b64".toList ||
        contains op ".f64".toList then
      s.reject ("unsupported 64-bit conversion: ".toList ++ op)
    else if contains op "f32".toList && contains op "s32".toList then
      if dst.name.head? = some 'f' then
        let fd := s.freg dst.name
        let rs := fd.2.ireg src.name
        rs.2.write (.fcvtS true fd.1 rs.1)
      else
        let rd := s.ireg dst.name
        let fs := rd.2.freg src.name
        fs.2.write (.fcvtW true rd.1 fs.1)
    else
      let dstFloat := dst.name.head? = some 'f'
      let srcFloat := src.name.head? = some 'f'
      if dstFloat ∧ ¬ srcFloat then
        let fd := s.freg dst.name
        let rs := fd.2.ireg src.name
        rs.2.write (.fmvWX fd.1 rs.1)
      else if ¬ dstFloat ∧ srcFloat then
        let rd := s.ireg dst.name
        let fs := rd.2.freg src.name
        fs.2.write (.fmvXW rd.1 fs.1)
      else if dstFloat ∧ srcFloat then
        let fd := s.freg dst.name
        let fs := fd.2.freg src.name
        fs.2.write (.floatUnary .fmv fd.1 fs.1)
      else emitCvtMv dst.name src.name s
  | _ => s.reject "cvt/cvta requires two register operands".toList

/-! ## Comparisons and branches -/

inductive Relation where
  | lt | le | gt | ge | eq | ne
deriving DecidableEq, Repr

/-- The relation of a comparison of floats, by the tests in their order. -/
def floatRelation (op : List Char) : Option Relation :=
  if contains op ".lt".toList then some .lt
  else if contains op ".gt".toList then some .gt
  else if contains op ".le".toList then some .le
  else if contains op ".ge".toList then some .ge
  else if contains op ".eq".toList then some .eq
  else if contains op ".ne".toList then some .ne
  else none

/-- The relation of a comparison of integers, by the tests in their order. -/
def intRelation (op : List Char) : Option Relation :=
  if contains op ".lt".toList then some .lt
  else if contains op ".ge".toList then some .ge
  else if contains op ".gt".toList then some .gt
  else if contains op ".le".toList then some .le
  else if contains op ".eq".toList then some .eq
  else if contains op ".ne".toList then some .ne
  else none

def emitFloatSetp (op a b : List Char) (preg : Rv32.Reg) (s : RvEmitter) : RvEmitter :=
  let fa := s.freg a
  let fb := fa.2.freg b
  match floatRelation op with
  | some .lt => fb.2.write (.floatCmp .flt preg fa.1 fb.1)
  | some .gt => fb.2.write (.floatCmp .flt preg fb.1 fa.1)
  | some .le => fb.2.write (.floatCmp .fle preg fa.1 fb.1)
  | some .ge => fb.2.write (.floatCmp .fle preg fb.1 fa.1)
  | some .eq => fb.2.write (.floatCmp .feq preg fa.1 fb.1)
  | some .ne => (fb.2.write (.floatCmp .feq preg fa.1 fb.1)).write (.imm .xori preg preg 1)
  | none => fb.2

/-- The comparison of the register `ra` with an immediate. -/
def emitImmSetp (op : List Char) (imm : ℤ) (preg ra : Rv32.Reg) (s : RvEmitter) :
    Option RvEmitter :=
  let less : ImmOp := if contains op ".s32".toList then .slti else .sltiu
  match intRelation op with
  | some .lt => some (s.write (.imm less preg ra imm))
  | some .ge => some ((s.write (.imm less preg ra imm)).write (.imm .xori preg preg 1))
  | some .gt =>
    if imm = 2 ^ 63 - 1 then none
    else some ((s.write (.imm less preg ra (imm + 1))).write (.imm .xori preg preg 1))
  | some .le =>
    if imm = 2 ^ 63 - 1 then none else some (s.write (.imm less preg ra (imm + 1)))
  | some .eq =>
    (neg64 imm).map fun v => (s.write (.imm .addi preg ra v)).write (.seqz preg preg)
  | some .ne =>
    (neg64 imm).map fun v => (s.write (.imm .addi preg ra v)).write (.snez preg preg)
  | none => some (s.reject ("unsupported setp opcode: ".toList ++ op))

/-- The comparison of the registers `ra` and `rb`. -/
def emitRegSetp (op : List Char) (preg ra rb : Rv32.Reg) (s : RvEmitter) : RvEmitter :=
  let less : RegOp := if contains op ".s32".toList then .slt else .sltu
  match intRelation op with
  | some .lt => s.write (.reg less preg ra rb)
  | some .ge => (s.write (.reg less preg ra rb)).write (.imm .xori preg preg 1)
  | some .gt => s.write (.reg less preg rb ra)
  | some .le => (s.write (.reg less preg rb ra)).write (.imm .xori preg preg 1)
  | some .eq => (s.write (.reg .xor preg ra rb)).write (.seqz preg preg)
  | some .ne => (s.write (.reg .xor preg ra rb)).write (.snez preg preg)
  | none => s.reject ("unsupported setp opcode: ".toList ++ op)

def emitSetp (instr : PtxInstr) (s : RvEmitter) : Option RvEmitter :=
  let op := instr.op
  match instr.operands with
  | [dst, a, b] =>
    if dst.kind ≠ .reg ∨ a.kind ≠ .reg then
      some (s.reject "setp requires a predicate destination and two comparable operands".toList)
    else
      let preg := s.ireg dst.name
      if contains op ".f32".toList || contains op ".f64".toList then
        some (emitFloatSetp op a.name b.name preg.1 preg.2)
      else
        let ra := preg.2.ireg a.name
        if b.kind = .intImm then emitImmSetp op b.intVal preg.1 ra.1 ra.2
        else
          let rb := ra.2.ireg b.name
          some (emitRegSetp op preg.1 ra.1 rb.1 rb.2)
  | _ =>
    some (s.reject "setp requires a predicate destination and two comparable operands".toList)

def emitBra (instr : PtxInstr) (s : RvEmitter) : RvEmitter :=
  if instr.op = "ret".toList then s.write .ret
  else if instr.pred = [] then
    match instr.operands with
    | target :: _ =>
      if target.kind = .label then s.write (.j target.name)
      else s.reject "bra requires a label target".toList
    | [] => s.reject "bra requires a label target".toList
  else
    let preg := s.ireg instr.pred
    let label := (instr.operands.headD {}).name
    if instr.predNot then preg.2.write (.beqz preg.1 label)
    else preg.2.write (.bnez preg.1 label)

def emitBarSync (instr : PtxInstr) (s : RvEmitter) : RvEmitter :=
  let message := "bar.sync requires one unpredicated immediate ID in range 0..15".toList
  match instr.operands with
  | [id] =>
    if instr.pred ≠ [] ∨ id.kind ≠ .intImm ∨ id.intVal < 0 ∨ 15 < id.intVal then
      { s with error := message }
    else s.write (.word ((BitVec.ofInt 32 id.intVal <<< 20) ||| 0x0B))
  | _ => { s with error := message }

/-! ## Arithmetic -/

inductive FloatKind where
  | fma
  | binary (op : FloatOp)
  | unary (op : FloatUnary)
deriving DecidableEq, Repr

/-- The operation of an instruction on floats, by the tests in their order. -/
def floatKind (op : List Char) : Option FloatKind :=
  if startsWith op "fma".toList then some .fma
  else if startsWith op "add".toList then some (.binary .fadd)
  else if startsWith op "sub".toList then some (.binary .fsub)
  else if startsWith op "mul".toList then some (.binary .fmul)
  else if startsWith op "div".toList then some (.binary .fdiv)
  else if startsWith op "neg".toList then some (.unary .fneg)
  else if startsWith op "abs".toList then some (.unary .fabs)
  else if startsWith op "sqrt".toList then some (.unary .fsqrt)
  else none

/-- The comment in place of an instruction on one operand that is not there. -/
def missingOperands : FloatUnary → List Char
  | .fneg => "neg missing operands".toList
  | .fabs => "abs missing operands".toList
  | .fsqrt => "sqrt missing operands".toList
  | .fmv => []

/-- There is at least one operand. -/
def emitFloatArith (instr : PtxInstr) (s : RvEmitter) : Option RvEmitter :=
  let op := instr.op
  let size := instr.operands.length
  let name := fun i => (instr.operands.getD i {}).name
  if size < 3 ∧ ¬ contains op "fma".toList then
    some (s.write (.comment ("FP operand count mismatch: ".toList ++ op)))
  else
    let fd := s.freg (name 0)
    match floatKind op with
    | some .fma =>
      if size < 4 then some (fd.2.write (.comment "fma missing operands".toList))
      else
        let fa := fd.2.freg (name 1)
        let fb := fa.2.freg (name 2)
        let fc := fb.2.freg (name 3)
        some (fc.2.write (.fmadd fd.1 fa.1 fb.1 fc.1))
    | some (.binary binary) =>
      if size < 3 then none
      else
        let fa := fd.2.freg (name 1)
        let fb := fa.2.freg (name 2)
        some (fb.2.write (.float binary fd.1 fa.1 fb.1))
    | some (.unary unary) =>
      if size < 2 then some (fd.2.write (.comment (missingOperands unary)))
      else
        let fa := fd.2.freg (name 1)
        some (fa.2.write (.floatUnary unary fd.1 fa.1))
    | none => some (fd.2.reject ("unsupported FP opcode: ".toList ++ op))

inductive IntKind where
  | add | sub | mul | mad | div | rem | shl | shr | and | or | xor | not | neg | membar
deriving DecidableEq, Repr

/-- The operation of an instruction on integers, by the tests in their order. -/
def intKind (op : List Char) : Option IntKind :=
  if startsWith op "add".toList then some .add
  else if startsWith op "sub".toList then some .sub
  else if startsWith op "mul.lo".toList || startsWith op "mul.wide".toList then some .mul
  else if startsWith op "mad.lo".toList then some .mad
  else if startsWith op "div".toList then some .div
  else if startsWith op "rem".toList || startsWith op "mod".toList then some .rem
  else if startsWith op "shl".toList then some .shl
  else if startsWith op "shr".toList then some .shr
  else if startsWith op "and".toList then some .and
  else if startsWith op "or".toList then some .or
  else if startsWith op "xor".toList then some .xor
  else if startsWith op "not".toList then some .not
  else if startsWith op "neg".toList then some .neg
  else if op = "membar.gl".toList ∨ op = "membar.cta".toList then some .membar
  else none

/-- `imm > 0 && (imm & (imm-1)) == 0`. -/
def isPowerOfTwo (imm : ℤ) : Bool :=
  0 < imm && BitVec.ofInt 64 imm &&& BitVec.ofInt 64 (imm - 1) = 0

/-- `int shift = 0; while ((1 << shift) < imm) ++shift;` on `int`. A shift by 32 is undefined. -/
def mulShift (imm : ℤ) : Option ℕ :=
  (List.range 32).find? fun shift => !decide ((1#32 <<< shift).toInt < imm)

/-- `rarg`. -/
def rarg (s : RvEmitter) (operands : List PtxOperand) (idx : ℕ) : Rv32.Reg × RvEmitter :=
  match operands[idx]? with
  | some operand => if operand.kind = .reg then s.ireg operand.name else (0, s)
  | none => (0, s)

/-- The third operand, if it is an immediate. -/
def immOperand (operands : List PtxOperand) : Option ℤ :=
  match operands[2]? with
  | some operand => if operand.kind = .intImm then some operand.intVal else none
  | none => none

/-- The instruction on two registers, if there are three operands. -/
def emitRegReg (op : RegOp) (rd : Rv32.Reg) (operands : List PtxOperand) (s : RvEmitter) :
    RvEmitter :=
  if operands.length < 3 then s
  else
    let r₁ := rarg s operands 1
    let r₂ := rarg r₁.2 operands 2
    r₂.2.write (.reg op rd r₁.1 r₂.1)

/-- The instruction on a register and an immediate, which goes through `t6`. -/
def emitRegLi (op : RegOp) (rd : Rv32.Reg) (operands : List PtxOperand) (imm : ℤ) (s : RvEmitter) :
    RvEmitter :=
  let r₁ := rarg (s.write (.li t6 imm)) operands 1
  r₁.2.write (.reg op rd r₁.1 t6)

/-- `add` and `sub` with an immediate. -/
def emitAddImm (rd : Rv32.Reg) (operands : List PtxOperand) (imm : ℤ) (s : RvEmitter) : RvEmitter :=
  if imm < -2048 ∨ 2047 < imm then emitRegLi .add rd operands imm s
  else
    let r₁ := rarg s operands 1
    r₁.2.write (.imm .addi rd r₁.1 imm)

def emitShiftImm (op : ShiftOp) (rd : Rv32.Reg) (operands : List PtxOperand) (imm : ℤ)
    (s : RvEmitter) : RvEmitter :=
  let r₁ := rarg s operands 1
  r₁.2.write (.shift op rd r₁.1 imm)

/-- The product goes to the destination before the addend is read. -/
def emitMad (rd : Rv32.Reg) (operands : List PtxOperand) (s : RvEmitter) : RvEmitter :=
  if operands.length < 4 then s
  else
    let r₁ := rarg s operands 1
    let r₂ := rarg r₁.2 operands 2
    let r₃ := rarg (r₂.2.write (.reg .mul rd r₁.1 r₂.1)) operands 3
    r₃.2.write (.reg .add rd rd r₃.1)

/-- The branches on the operation, with the destination allocated. -/
def emitIntKind (kind : IntKind) (isSigned : Bool) (rd : Rv32.Reg) (operands : List PtxOperand)
    (s : RvEmitter) : Option RvEmitter :=
  match kind, immOperand operands with
  | .add, some imm => some (emitAddImm rd operands imm s)
  | .add, none => some (emitRegReg .add rd operands s)
  | .sub, some imm => (neg64 imm).map fun v => emitAddImm rd operands v s
  | .sub, none => some (emitRegReg .sub rd operands s)
  | .mul, some imm =>
    if isPowerOfTwo imm then
      (mulShift imm).map fun (shift : ℕ) => emitShiftImm .slli rd operands (shift : ℤ) s
    else some (emitRegLi .mul rd operands imm s)
  | .mul, none => some (emitRegReg .mul rd operands s)
  | .mad, _ => some (emitMad rd operands s)
  | .div, _ => some (emitRegReg (if isSigned then .div else .divu) rd operands s)
  | .rem, _ => some (emitRegReg (if isSigned then .rem else .remu) rd operands s)
  | .shl, some imm => some (emitShiftImm .slli rd operands imm s)
  | .shl, none => some (emitRegReg .sll rd operands s)
  | .shr, some imm => some (emitShiftImm (if isSigned then .srai else .srli) rd operands imm s)
  | .shr, none => some (emitRegReg (if isSigned then .sra else .srl) rd operands s)
  | .and, some imm => some (emitRegLi .and rd operands imm s)
  | .and, none => some (emitRegReg .and rd operands s)
  | .or, some imm => some (emitRegLi .or rd operands imm s)
  | .or, none => some (emitRegReg .or rd operands s)
  | .xor, some imm => some (emitRegLi .xor rd operands imm s)
  | .xor, none => some (emitRegReg .xor rd operands s)
  | .not, _ =>
    let r₁ := rarg s operands 1
    some (r₁.2.write (.not rd r₁.1))
  | .neg, _ =>
    let r₁ := rarg s operands 1
    some (r₁.2.write (.neg rd r₁.1))
  | .membar, _ => some (s.write .fence)

def emitIntArith (instr : PtxInstr) (s : RvEmitter) : Option RvEmitter :=
  let op := instr.op
  if instr.operands.length < 2 then
    some (s.write (.comment ("Integer op with too few operands: ".toList ++ op)))
  else
    let rd := s.ireg (instr.operands.headD {}).name
    match intKind op with
    | some kind => emitIntKind kind (contains op ".s32".toList) rd.1 instr.operands rd.2
    | none => some (rd.2.reject ("unsupported opcode: ".toList ++ op))

def emitArith (instr : PtxInstr) (s : RvEmitter) : Option RvEmitter :=
  let op := instr.op
  if instr.operands = [] then some (s.reject ("unsupported opcode: ".toList ++ op))
  else if contains op ".f32".toList || contains op ".f64".toList then emitFloatArith instr s
  else emitIntArith instr s

/-! ## Kernels -/

def emitInstr (instr : PtxInstr) (s : RvEmitter) : Option RvEmitter :=
  let op := instr.op
  if startsWith op "ld.param".toList then some (emitLdParam instr s)
  else if startsWith op "ld.global".toList then some (emitLdGlobal instr s)
  else if startsWith op "st.global".toList then some (emitStGlobal instr s)
  else if startsWith op "st.shared".toList then some (emitStShared instr s)
  else if startsWith op "ld.shared".toList then some (emitLdShared instr s)
  else if startsWith op "mov".toList then some (emitMov instr s)
  else if startsWith op "cvta".toList || startsWith op "cvt".toList then some (emitCvt instr s)
  else if startsWith op "setp".toList then emitSetp instr s
  else if op = "bar.sync".toList then some (emitBarSync instr s)
  else if op = "bra".toList ∨ op = "ret".toList then some (emitBra instr s)
  else emitArith instr s

/-- The loop over the body; it ends at the first error. -/
def emitBody : List PtxInstr → RvEmitter → Option RvEmitter
  | [], s => some s
  | instr :: body, s =>
    if instr.label ≠ [] then emitBody body (s.write (.label instr.label))
    else if instr.op = [] then emitBody body s
    else
      match emitInstr instr s with
      | some s => if s.error = [] then emitBody body s else some s
      | none => none

/-- The lines in front of the body. -/
def header (name : List Char) : List Line :=
  [.directive ".section .text".toList, .directive (".globl ".toList ++ name),
    .directive (".type ".toList ++ name ++ ", @function".toList), .label name,
    .comment "RV32IMF kernel generated from PTX by RvEmitter".toList,
    .comment "gp = THREAD_CTX_BASE (set by KernelBridge before entry)".toList]

/-- What `emit` returns: the text, or the empty text and `lastError`. -/
inductive Emitted where
  | text (lines : List Line)
  | failed (lastError : List Char)
deriving DecidableEq, Repr

def emit (k : PtxKernel) : Option Emitted :=
  match validateKernel k with
  | some message => some (.failed message)
  | none =>
    (emitBody k.body { ({} : RvEmitter).buildRegMaps k with out := header k.name }).map fun s =>
      if s.error = [] then
        .text (s.out ++ [.directive (".size ".toList ++ k.name ++ ", . - ".toList ++ k.name)])
      else .failed s.error

end RiscvGpgpu.Ptx
