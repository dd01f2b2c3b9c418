import RiscvGpgpu.Bridge.ContextSlots
import RiscvGpgpu.Ptx.MemoryAccess

/-!
# Data movement

What PTX defines for `mov`, `cvt` and `ld.param` on integers and floats of 32 bits and less, and the
lines that the emitter writes for them. All registers are 32 bits wide here: a move takes all of
them, the operand of a conversion from a narrower type is the low bits of its register, and the
result of one to a narrower type is extended. The first letter of a name decides for the emitter
whether its register is a float register.
-/

namespace RiscvGpgpu.Ptx

open Asm (Line Machine Fpu Rounding run run_nil run_cons)
open Rv32 (LoadOp)
open RvEmitter

/-! ## Conversions -/

inductive IntType where
  | u8 | s8 | u16 | s16 | u32 | s32
deriving DecidableEq, Repr

namespace IntType

def text : IntType → List Char
  | u8 => ".u8".toList
  | s8 => ".s8".toList
  | u16 => ".u16".toList
  | s16 => ".s16".toList
  | u32 => ".u32".toList
  | s32 => ".s32".toList

/-- The width of the type, and how a value is extended to 32 bits. -/
def loadOp : IntType → LoadOp
  | u8 => .lbu
  | s8 => .lb
  | u16 => .lhu
  | s16 => .lh
  | u32 | s32 => .lw

def signed : IntType → Bool
  | s8 | s16 | s32 => true
  | u8 | u16 | u32 => false

def least (t : IntType) : ℤ := if t.signed then -2 ^ (8 * t.loadOp.size - 1) else 0

def greatest (t : IntType) : ℤ :=
  if t.signed then 2 ^ (8 * t.loadOp.size - 1) - 1 else 2 ^ (8 * t.loadOp.size) - 1

/-- The number that a word stands for. -/
def number (t : IntType) (w : Rv32.Word) : ℤ := if t.signed then w.toInt else w.toNat

/-- The nearest number of the type. -/
def clamp (t : IntType) (v : ℤ) : Rv32.Word := BitVec.ofInt 32 (max t.least (min t.greatest v))

end IntType

/-- The low bits of a word, extended to 32 bits. -/
def narrow (op : LoadOp) (w : Rv32.Word) : Rv32.Word :=
  op.eval (w.extractLsb' 0 8) (w.extractLsb' 8 8) (w.extractLsb' 16 8) (w.extractLsb' 24 8)

inductive CvtRounding where
  | rn | rz | rm | rp
deriving DecidableEq, Repr

namespace CvtRounding

def text : CvtRounding → List Char
  | rn => ".rn".toList
  | rz => ".rz".toList
  | rm => ".rm".toList
  | rp => ".rp".toList

def mode : CvtRounding → Rounding
  | rn => .rne
  | rz => .rtz
  | rm => .rdn
  | rp => .rup

end CvtRounding

/-- The floats of 16 bits. -/
inductive HalfType where
  | f16 | bf16
deriving DecidableEq, Repr

def HalfType.text : HalfType → List Char
  | f16 => ".f16".toList
  | bf16 => ".bf16".toList

/-- A conversion to or from a float of 16 bits. -/
inductive HalfCvt where
  | ofInt (rounding : Option CvtRounding) (sat : Bool) (d : HalfType) (a : IntType)
  | ofFloat (rounding : Option CvtRounding) (ftz sat : Bool) (d : HalfType)
  | halves (rounding : Option CvtRounding) (sat : Bool) (d a : HalfType)
  | toInt (rounding : Option CvtRounding) (sat : Bool) (d : IntType) (a : HalfType)
  | toFloat (ftz sat : Bool) (a : HalfType)
deriving DecidableEq, Repr

/-- A conversion between integers, from an integer, to one, or of a float. Without a rounding, a
conversion from an integer goes to the nearest float, and one to an integer to zero. -/
inductive Cvt where
  | ints (sat : Bool) (d a : IntType)
  | toFloat (rounding : Option CvtRounding) (sat : Bool) (a : IntType)
  | toInt (rounding : Option CvtRounding) (ftz sat : Bool) (d : IntType)
  | floats (rounding : Option CvtRounding) (ftz sat : Bool)
  | half (c : HalfCvt)
deriving DecidableEq, Repr

def satText (sat : Bool) : List Char := if sat then ".sat".toList else []

def ftzText (ftz : Bool) : List Char := if ftz then ".ftz".toList else []

def roundingText (rounding : Option CvtRounding) : List Char :=
  (rounding.map CvtRounding.text).getD []

/-- A rounding to an integer. -/
def integralText (rounding : Option CvtRounding) : List Char :=
  (rounding.map fun r => r.text ++ "i".toList).getD []

/-! ### Floats by their bits -/

def isNan (w : Rv32.Word) : Bool := 0x7F800000 < w &&& 0x7FFFFFFF

/-- Subnormal numbers become zero. -/
def flush (w : Rv32.Word) : Rv32.Word :=
  if w &&& 0x7F800000 = 0 then w &&& 0x80000000 else w

/-- Clamped to the numbers from 0 to 1. -/
def saturate (w : Rv32.Word) : Rv32.Word :=
  if isNan w || w.msb then 0 else if 0x3F800000 < w then 0x3F800000 else w

/-- Rounded to an integer; floats from 2^23 on are integers. -/
def roundFloat (fpu : Fpu) (rm : Rounding) (w : Rv32.Word) : Rv32.Word :=
  if 0x4B000000 ≤ w &&& 0x7FFFFFFF then w
  else (fpu.ofInt rm true (fpu.toInt rm true w) &&& 0x7FFFFFFF) ||| (w &&& 0x80000000)

/-! ### Floats of 16 bits -/

namespace HalfType

def one : HalfType → BitVec 16
  | f16 => 0x3C00
  | bf16 => 0x3F80

def infinity : HalfType → BitVec 16
  | f16 => 0x7C00
  | bf16 => 0x7F80

/-- The same number as an `.f32`. -/
def widen (t : HalfType) (h : BitVec 16) : Rv32.Word :=
  match t with
  | bf16 => h.setWidth 32 <<< 16
  | f16 =>
    let sign : Rv32.Word := (h &&& 0x8000).setWidth 32 <<< 16
    let exponent := (h &&& 0x7C00).toNat / 2 ^ 10
    let fraction := (h &&& 0x3FF).setWidth 32
    if exponent = 0x1F then sign ||| 0x7F800000 ||| fraction <<< 13
    else if exponent ≠ 0 then sign ||| BitVec.ofNat 32 (exponent + 112) <<< 23 ||| fraction <<< 13
    else if fraction = 0 then sign
    else
      -- a multiple of 2^-24, with its highest bit at `k`
      let k := Nat.log2 fraction.toNat
      sign ||| BitVec.ofNat 32 (k + 103) <<< 23 ||| (fraction <<< (23 - k) &&& 0x7FFFFF)

/-- Clamped to the numbers from 0 to 1. -/
def saturate (t : HalfType) (h : BitVec 16) : BitVec 16 :=
  if t.infinity < h &&& 0x7FFF || h.msb then 0 else if t.one < h then t.one else h

example : f16.widen 0x3C00 = 0x3F800000 ∧ f16.widen 0x8001 = 0xB3800000 ∧
    bf16.widen 0x3F80 = 0x3F800000 := by decide

end HalfType

/-- The arithmetic that rounds to 16 bits. -/
structure Halves where
  ofInt : HalfType → Rounding → Bool → Rv32.Word → BitVec 16
  ofFloat : HalfType → Rounding → Rv32.Word → BitVec 16

namespace HalfCvt

def text : HalfCvt → List Char
  | ofInt rounding sat d a =>
    "cvt".toList ++ roundingText rounding ++ satText sat ++ d.text ++ a.text
  | ofFloat rounding ftz sat d =>
    "cvt".toList ++ roundingText rounding ++ ftzText ftz ++ satText sat ++ d.text ++ ".f32".toList
  | halves rounding sat d a =>
    "cvt".toList ++ (if d = a then integralText rounding else roundingText rounding) ++
    satText sat ++
      d.text ++ a.text
  | toInt rounding sat d a =>
    "cvt".toList ++ integralText rounding ++ satText sat ++ d.text ++ a.text
  | toFloat ftz sat a => "cvt".toList ++ ftzText ftz ++ satText sat ++ ".f32".toList ++ a.text

/-- The value of a conversion to 16 bits. -/
def bits (fpu : Fpu) (H : Halves) (w : Rv32.Word) : HalfCvt → BitVec 16
  | ofInt rounding sat d a =>
    let v := H.ofInt d ((rounding.map CvtRounding.mode).getD .rne) a.signed (narrow a.loadOp w)
    if sat then d.saturate v else v
  | ofFloat rounding ftz sat d =>
    let v := if ftz then flush w else w
    let v := H.ofFloat d ((rounding.map CvtRounding.mode).getD .rne) v
    if sat then d.saturate v else v
  | halves rounding sat d a =>
    let v :=
      if d = a then
        (rounding.map fun r =>
          H.ofFloat d .rne (roundFloat fpu r.mode (a.widen (w.setWidth 16)))).getD (w.setWidth 16)
      else H.ofFloat d ((rounding.map CvtRounding.mode).getD .rne) (a.widen (w.setWidth 16))
    if sat then d.saturate v else v
  | toInt _ _ _ _ | toFloat _ _ _ => 0

def eval (fpu : Fpu) (H : Halves) (w : Rv32.Word) : HalfCvt → Rv32.Word
  | toInt rounding _ d a =>
    let v := a.widen (w.setWidth 16)
    if isNan v then 0
    else d.clamp (d.number (fpu.toInt ((rounding.map CvtRounding.mode).getD .rtz) d.signed v))
  | toFloat ftz sat a =>
    let v := a.widen (w.setWidth 16)
    let v := if ftz then flush v else v
    if sat then saturate v else v
  | c => (c.bits fpu H w).setWidth 32

end HalfCvt

namespace Cvt

def text : Cvt → List Char
  | ints sat d a => "cvt".toList ++ satText sat ++ d.text ++ a.text
  | toFloat rounding sat a =>
    "cvt".toList ++ roundingText rounding ++ satText sat ++ ".f32".toList ++ a.text
  | toInt rounding ftz sat d =>
    "cvt".toList ++ integralText rounding ++ ftzText ftz ++ satText sat ++ d.text ++ ".f32".toList
  | floats rounding ftz sat =>
    "cvt".toList ++ integralText rounding ++ ftzText ftz ++ satText sat ++ ".f32.f32".toList
  | half c => c.text

/-- The result is a float of 32 bits. -/
def intoFloat : Cvt → Bool
  | toFloat _ _ _ | floats _ _ _ | half (.toFloat _ _ _) => true
  | ints _ _ _ | toInt _ _ _ _ | half _ => false

/-- The source is a float of 32 bits. -/
def ofFloat : Cvt → Bool
  | toInt _ _ _ _ | floats _ _ _ | half (.ofFloat _ _ _ _) => true
  | ints _ _ _ | toFloat _ _ _ | half _ => false

/-- The result is a float of 16 bits, whose register may be of either class. -/
def intoHalf : Cvt → Bool
  | half (.ofInt _ _ _ _) | half (.ofFloat _ _ _ _) | half (.halves _ _ _ _) => true
  | _ => false

/-- The source is one. -/
def ofHalf : Cvt → Bool
  | half (.halves _ _ _ _) | half (.toInt _ _ _ _) | half (.toFloat _ _ _) => true
  | _ => false

/-- The value of a conversion. A float that is no number becomes the integer 0. -/
def eval (fpu : Fpu) (H : Halves) (w : Rv32.Word) : Cvt → Rv32.Word
  | ints sat d a =>
    let v := narrow a.loadOp w
    if sat then d.clamp (a.number v) else narrow d.loadOp v
  | toFloat rounding sat a =>
    let v := fpu.ofInt ((rounding.map CvtRounding.mode).getD .rne) a.signed (narrow a.loadOp w)
    if sat then saturate v else v
  | toInt rounding ftz _ d =>
    let v := if ftz then flush w else w
    if isNan v then 0
    else d.clamp (d.number (fpu.toInt ((rounding.map CvtRounding.mode).getD .rtz) d.signed v))
  | floats rounding ftz sat =>
    let v := if ftz then flush w else w
    let v := (rounding.map fun r => roundFloat fpu r.mode v).getD v
    if sat then saturate v else v
  | half c => c.eval fpu H w

end Cvt

/-! ## Instructions -/

inductive MovType where
  | b16 | u16 | s16 | b32 | u32 | s32 | f32
deriving DecidableEq, Repr

def MovType.text : MovType → List Char
  | b16 => ".b16".toList
  | u16 => ".u16".toList
  | s16 => ".s16".toList
  | b32 => ".b32".toList
  | u32 => ".u32".toList
  | s32 => ".s32".toList
  | f32 => ".f32".toList

inductive Axis where
  | x | y | z
deriving DecidableEq, Repr

def Axis.text : Axis → List Char
  | x => ".x".toList
  | y => ".y".toList
  | z => ".z".toList

def Axis.component (axis : Axis) (e : Bridge.Dim3) : Rv32.Word :=
  match axis with
  | x => e.x
  | y => e.y
  | z => e.z

/-- The special registers that tell a thread its place. -/
inductive PlaceReg where
  | tid | ctaid | ntid | nctaid
deriving DecidableEq, Repr

namespace PlaceReg

def text : PlaceReg → List Char
  | tid => "tid".toList
  | ctaid => "ctaid".toList
  | ntid => "ntid".toList
  | nctaid => "nctaid".toList

def value (ctx : Bridge.CudaThreadCtx) : PlaceReg → Bridge.Dim3
  | tid => ctx.tid
  | ctaid => ctx.ctaid
  | ntid => ctx.ntid
  | nctaid => ctx.nctaid

end PlaceReg

/-- The special registers that tell a thread its place in its warp and in its block's warps. -/
inductive WarpReg where
  | laneid | warpid | nwarpid
deriving DecidableEq, Repr

def WarpReg.text : WarpReg → List Char
  | laneid => "laneid".toList
  | warpid => "warpid".toList
  | nwarpid => "nwarpid".toList

/-- What PTX defines results by: the place of the thread, and the arithmetic of 16 bits. -/
structure PtxThread where
  ctx : Bridge.CudaThreadCtx
  laneid : Rv32.Word
  warpid : Rv32.Word
  nwarpid : Rv32.Word
  halves : Halves
  laneid_lt : laneid < 32
  warpid_lt : warpid < nwarpid

def WarpReg.value (E : PtxThread) : WarpReg → Rv32.Word
  | laneid => E.laneid
  | warpid => E.warpid
  | nwarpid => E.nwarpid

inductive MovSrc where
  | reg (name : List Char)
  | place (r : PlaceReg) (axis : Axis)
  | warp (r : WarpReg)
  | imm (v : ℤ)
deriving DecidableEq, Repr

/-- The operand that the parser makes. -/
def MovSrc.operand : MovSrc → PtxOperand
  | reg name => { kind := .reg, name := name }
  | place r axis =>
    let name := r.text ++ axis.text
    { kind := if isSpecialReg name then .specialReg else .reg, name := name }
  | warp r => { kind := if isSpecialReg r.text then .specialReg else .reg, name := r.text }
  | imm v => { kind := .intImm, intVal := v }

inductive DataOp where
  | mov (type : MovType) (src : MovSrc)
  | cvt (cvt : Cvt) (src : List Char)
  | ldParam (type : MemType) (param : List Char)
deriving DecidableEq, Repr

namespace DataOp

def text : DataOp → List Char
  | mov type _ => "mov".toList ++ type.text
  | cvt c _ => c.text
  | ldParam type _ => "ld.param".toList ++ type.text

def operand : DataOp → PtxOperand
  | mov _ src => src.operand
  | cvt _ src => { kind := .reg, name := src }
  | ldParam _ param => { kind := .memRef, paramName := param }

/-- The register that is read. -/
def source : DataOp → Option (List Char)
  | mov _ (.reg name) => some name
  | cvt _ src => some src
  | mov _ (.place _ _) | mov _ (.warp _) | mov _ (.imm _) | ldParam _ _ => none

/-- The classes of the registers are those of the types, where these have one. -/
def Typed (isFloat : List Char → Bool) (dst : List Char) : DataOp → Prop
  | mov _ _ => True
  | cvt c src => (c.intoHalf = false → isFloat dst = c.intoFloat) ∧
    (c.ofHalf = false → isFloat src = c.ofFloat)
  | ldParam type param => param ≠ [] ∧ (isFloat dst = true → type.takesFloat = true)

end DataOp

/-- An instruction in a kernel that declares some registers as float registers. -/
structure DataInstr where
  isFloat : List Char → Bool
  op : DataOp
  dst : List Char
  typed : op.Typed isFloat dst

/-- An instruction with a destination and a source. -/
def dataInstr (op dst : List Char) (src : PtxOperand) : PtxInstr :=
  { op := op, operands := [{ kind := .reg, name := dst }, src] }

def DataInstr.instr (i : DataInstr) : PtxInstr := dataInstr i.op.text i.dst i.op.operand

/-! ## What PTX defines -/

/-- The value of a register, which is a float register or not. -/
def regValue (s : RvEmitter) (float : Bool) (name : List Char) (m : Machine) : Rv32.Word :=
  if float then m.f (s.floatReg name) else m.get (s.intReg name)

/-- The word of a parameter: the `k`-th one is in `a0 + k`. -/
def argument (params : List PtxParam) (name : List Char) (m : Machine) : Rv32.Word :=
  match params.find? (·.name = name) with
  | some param => m.get (BitVec.ofNat 5 (10 + param.index.toNat))
  | none => 0

/-- The convention of the workers: `gp` points at the context, and floats are rounded to the
nearest. -/
structure Convention (ctx : Bridge.CudaThreadCtx) (m : Machine) : Prop where
  context : ∀ k < 9, LoadOp.lw.read m.mem (m.get gp + BitVec.ofNat 32 (4 * k)) =
    ctx.words.getD k 0
  frm : m.frm = .rne

namespace DataInstr

variable (i : DataInstr)

/-- The value of the destination, from the registers `s` of the names and the parameters. -/
def result (params : List PtxParam) (s : RvEmitter) (fpu : Fpu) (E : PtxThread) (m : Machine) :
    Rv32.Word :=
  match i.op with
  | .mov _ (.reg name) => regValue s (i.isFloat name) name m
  | .mov _ (.place r axis) => axis.component (r.value E.ctx)
  | .mov _ (.warp r) => r.value E
  | .mov _ (.imm v) => BitVec.ofInt 32 v
  | .cvt c name => c.eval fpu E.halves (regValue s (i.isFloat name) name m)
  | .ldParam type param => narrow type.loadOp (argument params param m)

/-- The registers of the instruction, in the classes they are declared in. -/
structure Named (s : RvEmitter) : Prop where
  dst : HasValue s (i.isFloat i.dst) i.dst
  source : ∀ name, i.op.source = some name → HasValue s (i.isFloat name) name

/-- Wherever the emitter accepts the instruction, its lines can be assembled, and leave the value in
the destination, whatever registers the kernel goes on to use. -/
def Correct : Prop :=
  ∀ s s', s.Allocated → emitInstr i.instr s = some s' → s'.error = [] →
    ∃ ls, s'.out = s.out ++ ls ∧ (∀ l ∈ ls, l.encodable = true) ∧
      ∀ s'', s'.Leads s'' → i.Named s'' → ∀ fpu (E : PtxThread) m, Convention E.ctx m →
        regValue s'' (i.isFloat i.dst) i.dst (run fpu ls m) = i.result s.params s'' fpu E m

end DataInstr

/-! ## Pairs of registers -/

/-- The emitter takes the name for that of a float register. -/
def namesFloat (name : List Char) : Bool := name.head? = some 'f'

section Pairs

variable {s s' : RvEmitter} {c c' : Bool} {name name' : List Char} {fpu : Fpu} {m : Machine}

theorem HasValue.leads (h : HasValue s c name) (hleads : s.Leads s') :
    HasValue s' c name ∧ valueReg s' c name = valueReg s c name := by
  cases c with
  | true => exact hleads.find_float h
  | false => exact hleads.find_int h

/-- The lines for two registers, in the order that they are allocated in. -/
def emitPair (s : RvEmitter) (c : Bool) (name : List Char) (c' : Bool) (name' : List Char)
    (lines : Rv32.Reg → Rv32.Reg → List Line) : RvEmitter :=
  let a := emitValue s c name
  let b := emitValue a.2 c' name'
  { b.2 with out := b.2.out ++ lines a.1 b.1 }

theorem emitPair_spec {lines : Rv32.Reg → Rv32.Reg → List Line}
    (h : (emitPair s c name c' name' lines).error = []) :
    s.Leads (emitPair s c name c' name' lines) ∧
      HasValue (emitPair s c name c' name' lines) c name ∧
      HasValue (emitPair s c name c' name' lines) c' name' ∧
      (emitPair s c name c' name' lines).out =
        s.out ++ lines (valueReg (emitPair s c name c' name' lines) c name)
          (valueReg (emitPair s c name c' name' lines) c' name') := by
  obtain ⟨hleads', hb, hbreg, hbout⟩ := @emitValue_spec (emitValue s c name).2 name' c' h
  obtain ⟨hleads, ha, hareg, haout⟩ := emitValue_spec hleads'.no_error
  obtain ⟨ha', hkeep⟩ := ha.leads hleads'
  have hall := hleads.trans hleads'
  refine ⟨⟨hall.no_error, fun hs => ⟨(hall.allocated hs).ireg, (hall.allocated hs).freg⟩, hall.ireg,
    hall.freg⟩, ha', hb, ?_⟩
  show (emitValue (emitValue s c name).2 c' name').2.out ++ _ = _
  rw [hbout, haout, hareg, hbreg, ← hkeep]
  rfl

/-- The lines that copy one register to another, of the class `df` from the class `sf`. -/
def transferLines (df sf : Bool) (d n : Rv32.Reg) : List Line :=
  match df, sf with
  | true, true => [.floatUnary .fmv d n]
  | true, false => [.fmvWX d n]
  | false, true => [.fmvXW d n]
  | false, false => if d ≠ n then [.mv d n] else []

theorem write_transferLines (d n : Rv32.Reg) (s : RvEmitter) :
    writeMv d n s = { s with out := s.out ++ transferLines false false d n } := by
  unfold writeMv transferLines
  split_ifs
  · rfl
  · rw [List.append_nil]

end Pairs

/-! ## The lines -/

section Emission

variable {s s' : RvEmitter} {r : List Char} {instr : PtxInstr}

theorem emitInstr_ldParam (h : instr.op = "ld.param".toList ++ '.' :: r) :
    emitInstr instr s = some (emitLdParam instr s) := by
  unfold emitInstr
  dsimp only
  rw [h]
  rfl

theorem emitInstr_mov (h : instr.op = "mov".toList ++ '.' :: r) :
    emitInstr instr s = some (emitMov instr s) := by
  unfold emitInstr
  dsimp only
  rw [h]
  rfl

theorem emitInstr_mov_eq (type : MovType) (dst : List Char) (src : PtxOperand) (s : RvEmitter) :
    emitInstr (dataInstr ("mov".toList ++ type.text) dst src) s =
      some (emitMov (dataInstr ("mov".toList ++ type.text) dst src) s) := by
  obtain ⟨r, hr⟩ : ∃ r, type.text = '.' :: r := by cases type <;> exact ⟨_, rfl⟩
  exact emitInstr_mov (congrArg ("mov".toList ++ ·) hr)

theorem emitInstr_ldParam_eq (type : MemType) (dst param : List Char) (s : RvEmitter) :
    emitInstr (dataInstr ("ld.param".toList ++ type.text) dst
        { kind := .memRef, paramName := param }) s =
      some (emitLdParam (dataInstr ("ld.param".toList ++ type.text) dst
        { kind := .memRef, paramName := param }) s) := by
  obtain ⟨r, hr⟩ : ∃ r, type.text = '.' :: r := by cases type <;> exact ⟨_, rfl⟩
  exact emitInstr_ldParam (congrArg ("ld.param".toList ++ ·) hr)

/-- The conversion has a type `.s32` beside a float. -/
def Cvt.signedWord : Cvt → Bool
  | .toFloat _ _ t | .toInt _ _ _ t => t = .s32
  | .ints _ _ _ | .floats _ _ _ | .half _ => false

/-- What `emitCvt` finds in the text. -/
def Cvt.Dispatched (c : Cvt) : Prop :=
  (∃ r, c.text = "cvt".toList ++ '.' :: r) ∧
    (c.text ≠ "cvt.u64.u32".toList ∧ c.text ≠ "cvt.s64.s32".toList ∧
      c.text ≠ "cvt.u32.u64".toList) ∧
    (contains c.text ".u64".toList || contains c.text ".s64".toList ||
      contains c.text ".b64".toList || contains c.text ".f64".toList) = false ∧
    (contains c.text "f32".toList && contains c.text "s32".toList) = c.signedWord

theorem HalfCvt.dispatched (c : HalfCvt) : (Cvt.half c).Dispatched := by
  cases c with
  | ofInt rounding sat d a =>
    rcases rounding with _ | rounding
    · cases sat <;> cases d <;> cases a <;> exact ⟨⟨_, rfl⟩, by decide, by decide, by decide⟩
    · cases rounding <;> cases sat <;> cases d <;> cases a <;>
        exact ⟨⟨_, rfl⟩, by decide, by decide, by decide⟩
  | ofFloat rounding ftz sat d =>
    rcases rounding with _ | rounding
    · cases ftz <;> cases sat <;> cases d <;> exact ⟨⟨_, rfl⟩, by decide, by decide, by decide⟩
    · cases rounding <;> cases ftz <;> cases sat <;> cases d <;>
        exact ⟨⟨_, rfl⟩, by decide, by decide, by decide⟩
  | halves rounding sat d a =>
    rcases rounding with _ | rounding
    · cases sat <;> cases d <;> cases a <;> exact ⟨⟨_, rfl⟩, by decide, by decide, by decide⟩
    · cases rounding <;> cases sat <;> cases d <;> cases a <;>
        exact ⟨⟨_, rfl⟩, by decide, by decide, by decide⟩
  | toInt rounding sat d a =>
    rcases rounding with _ | rounding
    · cases sat <;> cases d <;> cases a <;> exact ⟨⟨_, rfl⟩, by decide, by decide, by decide⟩
    · cases rounding <;> cases sat <;> cases d <;> cases a <;>
        exact ⟨⟨_, rfl⟩, by decide, by decide, by decide⟩
  | toFloat ftz sat a =>
    cases ftz <;> cases sat <;> cases a <;> exact ⟨⟨_, rfl⟩, by decide, by decide, by decide⟩

theorem Cvt.dispatched (c : Cvt) : c.Dispatched := by
  cases c with
  | half c => exact c.dispatched
  | ints sat d a =>
    cases sat <;> cases d <;> cases a <;>
      exact ⟨⟨_, rfl⟩, by decide, by decide, by decide⟩
  | toFloat rounding sat a =>
    rcases rounding with _ | rounding
    · cases sat <;> cases a <;> exact ⟨⟨_, rfl⟩, by decide, by decide, by decide⟩
    · cases rounding <;> cases sat <;> cases a <;>
        exact ⟨⟨_, rfl⟩, by decide, by decide, by decide⟩
  | toInt rounding ftz sat d =>
    rcases rounding with _ | rounding
    · cases ftz <;> cases sat <;> cases d <;> exact ⟨⟨_, rfl⟩, by decide, by decide, by decide⟩
    · cases rounding <;> cases ftz <;> cases sat <;> cases d <;>
        exact ⟨⟨_, rfl⟩, by decide, by decide, by decide⟩
  | floats rounding ftz sat =>
    rcases rounding with _ | rounding
    · cases ftz <;> cases sat <;> exact ⟨⟨_, rfl⟩, by decide, by decide, by decide⟩
    · cases rounding <;> cases ftz <;> cases sat <;>
        exact ⟨⟨_, rfl⟩, by decide, by decide, by decide⟩

theorem emitMov_reg (op dst name : List Char) :
    emitMov (dataInstr op dst { kind := .reg, name := name }) s =
      if namesFloat dst then emitPair s true dst true name (transferLines true true)
      else emitPair s false name false dst fun n d => transferLines false false d n := by
  have hkind : ¬ PtxOperand.Kind.reg ≠ .reg := not_not.2 rfl
  unfold emitMov dataInstr namesFloat
  dsimp only
  rw [if_neg hkind]
  by_cases hd : dst.head? = some 'f'
  · rw [if_pos hd, if_pos (decide_eq_true hd)]
    rfl
  · rw [if_neg hd, decide_eq_false hd, if_neg Bool.false_ne_true]
    exact write_transferLines _ _ _

/-- The number of a word of the context. -/
def contextIndex (r : PlaceReg) (axis : Axis) : ℕ :=
  match r, axis with
  | .tid, .x => 0
  | .tid, .y => 1
  | .tid, .z => 2
  | .ctaid, .x => 3
  | .ctaid, .y => 4
  | .ctaid, .z => 5
  | .ntid, .x => 6
  | .ntid, .y => 7
  | .ntid, .z => 8
  | .nctaid, _ => 9

/-- The offsets of the emitter are those that the bridge writes the context with. -/
theorem contextIndex_spec {r : PlaceReg} (hr : r ≠ .nctaid) (axis : Axis) :
    contextIndex r axis < 9 ∧ (MovSrc.place r axis).operand.kind = .specialReg ∧
      specialRegOffset (MovSrc.place r axis).operand.name = ((4 * contextIndex r axis : ℕ) : ℤ) ∧
      ∀ ctx : Bridge.CudaThreadCtx,
        ctx.words.getD (contextIndex r axis) 0 = axis.component (r.value ctx) := by
  cases r with
  | tid => cases axis <;> exact ⟨by decide, rfl, by decide, fun _ => rfl⟩
  | ctaid => cases axis <;> exact ⟨by decide, rfl, by decide, fun _ => rfl⟩
  | ntid => cases axis <;> exact ⟨by decide, rfl, by decide, fun _ => rfl⟩
  | nctaid => exact absurd rfl hr

theorem emitMov_place {r : PlaceReg} (hr : r ≠ .nctaid) (op dst : List Char) (axis : Axis) :
    emitMov (dataInstr op dst (MovSrc.place r axis).operand) s =
      (emitValue s false dst).2.write
        (.load .lw (emitValue s false dst).1 ((4 * contextIndex r axis : ℕ) : ℤ) gp) := by
  obtain ⟨-, hkind, hoffset, -⟩ := contextIndex_spec hr axis
  unfold emitMov dataInstr
  dsimp only
  rw [hkind, hoffset, if_neg (not_not.2 rfl)]
  exact if_pos (Int.natCast_nonneg _)

theorem emitMov_imm (op dst : List Char) (v : ℤ) :
    emitMov (dataInstr op dst (MovSrc.imm v).operand) s =
      (emitValue s false dst).2.write (.li (emitValue s false dst).1 v) := rfl

theorem reject_error_ne {message : List Char} (h : message ≠ []) :
    (s.reject message).error ≠ [] := by
  unfold RvEmitter.reject
  split_ifs with herr
  · exact h
  · exact herr

/-- The line that copies an argument to a register of a class. -/
def argumentLine (float : Bool) (d a : Rv32.Reg) : Line := if float then .fmvWX d a else .mv d a

/-- The register of a parameter, `x0` for a name that has none. -/
def argumentReg (params : List PtxParam) (name : List Char) : Rv32.Reg :=
  match params.find? (·.name = name) with
  | some param => BitVec.ofNat 5 (10 + param.index.toNat)
  | none => 0

theorem kParamRegs_getD {k : ℕ} (h : k < 8) : kParamRegs.getD k 0 = BitVec.ofNat 5 (10 + k) := by
  interval_cases k <;> rfl

theorem loadsFloatIf_word {type : MemType} (h : type.isWord = true) (known : Bool)
    (dst : List Char) : loadsFloatIf known ("ld.param".toList ++ type.text) dst =
      (decide (type = .f32) || namesFloat dst) := by
  have htype : type = .f32 ∨ type = .b32 ∨ type = .u32 ∨ type = .s32 := by
    revert h
    cases type <;> decide
  unfold loadsFloatIf namesFloat
  rcases htype with rfl | rfl | rfl | rfl <;> rfl

variable {type : MemType} {dst param : List Char}

/-- The parameters that `emitLdParam` finds. -/
def HasArgument (params : List PtxParam) (name : List Char) : Prop :=
  name ≠ [] ∧ ∃ q, params.find? (·.name = name) = some q ∧ ¬ (q.index.toInt < 0 ∨ 8 ≤ q.index.toInt)

theorem emitLdParam_eq (h : HasArgument s.params param) :
    emitLdParam (dataInstr ("ld.param".toList ++ type.text) dst
        { kind := .memRef, paramName := param }) s =
      (emitValue s (loadsFloat s ("ld.param".toList ++ type.text) dst) dst).2.write
        (argumentLine (loadsFloat s ("ld.param".toList ++ type.text) dst)
          (emitValue s (loadsFloat s ("ld.param".toList ++ type.text) dst) dst).1
          (argumentReg s.params param)) := by
  obtain ⟨hparam, q, hfind, hindex⟩ := h
  have hkind : ¬ (PtxOperand.Kind.reg ≠ .reg ∨ PtxOperand.Kind.memRef ≠ .memRef) := by simp
  have hwide : ¬ ((contains ("ld.param".toList ++ type.text) ".u64".toList ||
      contains ("ld.param".toList ++ type.text) ".b64".toList) = true) := by
    cases type <;> decide
  have hlt : q.index.toNat < 8 := by
    rw [BitVec.toInt_eq_toNat_cond] at hindex
    split_ifs at hindex <;> omega
  have hreg : argumentReg s.params param = BitVec.ofNat 5 (10 + q.index.toNat) := by
    rw [argumentReg, hfind]
  unfold emitLdParam dataInstr
  dsimp only
  rw [if_neg hkind, if_neg hparam, hfind]
  dsimp only
  rw [if_neg hindex, if_neg (not_not.2 rfl), if_neg (fun h => hwide h.1), kParamRegs_getD hlt, hreg]
  cases loadsFloat s ("ld.param".toList ++ type.text) dst <;> rfl

theorem hasArgument_of_accepted (h : (emitLdParam (dataInstr ("ld.param".toList ++ type.text) dst
    { kind := .memRef, paramName := param }) s).error = []) : HasArgument s.params param := by
  have hkind : ¬ (PtxOperand.Kind.reg ≠ .reg ∨ PtxOperand.Kind.memRef ≠ .memRef) := by simp
  have hunknown : "ld.param references an unknown or unsupported parameter: ".toList ++
    param ≠ [] :=
    List.append_ne_nil_of_left_ne_nil (by decide) _
  unfold emitLdParam dataInstr at h
  dsimp only at h
  rw [if_neg hkind] at h
  cases hfind : (if param = [] then none else s.params.find? (·.name = param)) with
  | none =>
    rw [hfind] at h
    exact absurd h (reject_error_ne hunknown)
  | some q =>
    rw [hfind] at h
    have hparam : param ≠ [] := by
      rintro rfl
      rw [if_pos rfl] at hfind
      exact absurd hfind (Option.some_ne_none q).symm
    rw [if_neg hparam] at hfind
    refine ⟨hparam, q, hfind, fun hindex => ?_⟩
    dsimp only at h
    rw [if_pos hindex] at h
    exact absurd h (reject_error_ne hunknown)

end Emission

end RiscvGpgpu.Ptx
