import RiscvGpgpu.Golden.MemoryHierarchy
import RiscvGpgpu.Golden.RiscvIsa

/-!
# The compute unit running RV32 binaries

`executeRV32` and the binary mode of `ComputeUnit::step`. Floats are their 32 bits and the host's
float arithmetic is a parameter. A result of `none` is undefined behaviour of the C++ program: a
signed sum or quotient that does not fit 32 bits, or a float conversion that the host leaves
undefined.
-/

namespace RiscvGpgpu.Golden

/-- The host's single-precision arithmetic, on the bits of its operands. -/
structure HostFloat where
  add : Word → Word → Word
  sub : Word → Word → Word
  mul : Word → Word → Word
  div : Word → Word → Word
  sqrt : Word → Word
  /-- `a * b + c`, and the three forms with a sign changed. -/
  mulAdd : Word → Word → Word → Word
  mulSub : Word → Word → Word → Word
  negMulAdd : Word → Word → Word → Word
  negMulSub : Word → Word → Word → Word
  eq : Word → Word → Bool
  lt : Word → Word → Bool
  le : Word → Word → Bool
  toInt32 : Word → Option Word
  toUint32 : Word → Option Word
  ofInt32 : Word → Word
  ofUint32 : Word → Word

/-- What `executeRV32` leaves in its reference arguments and in the memory, and its result. -/
structure ExecResult where
  nextPc : Word
  regs : LaneRegs
  fregs : LaneRegs
  mem : MemoryHierarchy
  halt : Bool

/-- `static_cast<uint32_t>` of a comparison. -/
def wordOfBool (b : Bool) : Word := if b then 1 else 0

/-- `static_cast<Address>(static_cast<int32_t>(base) + imm)`: the sum is 32 bits wide and signed,
and the address its sign extension. -/
def signedAddress (base imm : Word) : Option Address :=
  let sum := base.toInt + imm.toInt
  if -2 ^ 31 ≤ sum ∧ sum < 2 ^ 31 then some (BitVec.ofInt 64 sum) else none

/-- `a / b` of signed words, `b` not zero. -/
def signedDiv (a b : Word) : Option Word :=
  if a = BitVec.intMin 32 ∧ b = -1 then none else some (a.sdiv b)

/-- `a % b` of signed words, `b` not zero. -/
def signedRem (a b : Word) : Option Word :=
  if a = BitVec.intMin 32 ∧ b = -1 then none else some (a.srem b)

/-- The integer operations on two registers. -/
def aluR (op : RV32Instr.Op) (a b : Word) : Option Word :=
  match op with
  | .add => some (a + b)
  | .sub => some (a - b)
  | .and => some (a &&& b)
  | .or => some (a ||| b)
  | .xor => some (a ^^^ b)
  | .sll => some (a <<< (b &&& 0x1F).toNat)
  | .srl => some (a >>> (b &&& 0x1F).toNat)
  | .sra => some (a.sshiftRight (b &&& 0x1F).toNat)
  | .slt => some (wordOfBool (a.slt b))
  | .sltu => some (wordOfBool (a.ult b))
  | .mul => some ((a.signExtend 64 * b.signExtend 64).setWidth 32)
  | .mulh => some (((a.signExtend 64 * b.signExtend 64).sshiftRight 32).setWidth 32)
  | .mulhsu => some (((a.signExtend 64 * b.setWidth 64) >>> 32).setWidth 32)
  | .mulhu => some (((a.setWidth 64 * b.setWidth 64) >>> 32).setWidth 32)
  | .div => if b ≠ 0 then signedDiv a b else some 0xFFFFFFFF
  | .divu => some (if b ≠ 0 then a / b else 0xFFFFFFFF)
  | .rem => if b ≠ 0 then signedRem a b else some a
  | .remu => some (if b ≠ 0 then a % b else a)
  | _ => none

/-- The integer operations on a register and an immediate. -/
def aluI (op : RV32Instr.Op) (a imm : Word) : Option Word :=
  match op with
  | .addi => some (a + imm)
  | .slti => some (wordOfBool (a.slt imm))
  | .sltiu => some (wordOfBool (a.ult imm))
  | .xori => some (a ^^^ imm)
  | .ori => some (a ||| imm)
  | .andi => some (a &&& imm)
  | .slli => some (a <<< (imm &&& 0x1F).toNat)
  | .srli => some (a >>> (imm &&& 0x1F).toNat)
  | .srai => some (a.sshiftRight (imm &&& 0x1F).toNat)
  | _ => none

/-- Whether a branch is taken. -/
def branchTaken (op : RV32Instr.Op) (a b : Word) : Bool :=
  match op with
  | .beq => a == b
  | .bne => a != b
  | .blt => a.slt b
  | .bge => b.sle a
  | .bltu => a.ult b
  | .bgeu => b.ule a
  | _ => false

section Memory

variable (mem : MemoryHierarchy) (blockId : BlockId) (addr : Address)

/-- The value a load puts in its register; a failed `loadWord` leaves the zero it began with. -/
def loadValue (op : RV32Instr.Op) : Word × MemoryHierarchy :=
  match op with
  | .lw => ((mem.loadWord addr blockId).1.getD 0, (mem.loadWord addr blockId).2)
  | .lb => (((mem.readBytes addr 1 blockId).getD 0 0).signExtend 32, mem)
  | .lbu => (((mem.readBytes addr 1 blockId).getD 0 0).setWidth 32, mem)
  | .lh =>
    let bytes := mem.readBytes addr 2 blockId
    (((bytes.getD 0 0).setWidth 16 ||| ((bytes.getD 1 0).setWidth 16 <<< 8)).signExtend 32, mem)
  | .lhu =>
    let bytes := mem.readBytes addr 2 blockId
    ((bytes.getD 0 0).setWidth 32 ||| ((bytes.getD 1 0).setWidth 32 <<< 8), mem)
  | _ => (0, mem)

def storeValue (op : RV32Instr.Op) (v : Word) : MemoryHierarchy :=
  match op with
  | .sw => mem.storeWord addr v blockId
  | .sb => mem.writeBytes addr [v.setWidth 8] blockId
  | .sh => mem.writeBytes addr [v.setWidth 8, (v >>> 8).setWidth 8] blockId
  | _ => mem

end Memory

/-- The float operations that write a float register. -/
def floatResult (F : HostFloat) (op : RV32Instr.Op) (a b c x : Word) : Option Word :=
  match op with
  | .faddS => some (F.add a b)
  | .fsubS => some (F.sub a b)
  | .fmulS => some (F.mul a b)
  | .fdivS => some (F.div a b)
  | .fsqrtS => some (F.sqrt a)
  | .fmaddS => some (F.mulAdd a b c)
  | .fmsubS => some (F.mulSub a b c)
  | .fnmsubS => some (F.negMulAdd a b c)
  | .fnmaddS => some (F.negMulSub a b c)
  | .fcvtSW => some (F.ofInt32 x)
  | .fcvtSWu => some (F.ofUint32 x)
  | .fmvWX => some x
  | _ => none

/-- The float operations that write an integer register. -/
def floatToReg (F : HostFloat) (op : RV32Instr.Op) (a b : Word) : Option Word :=
  match op with
  | .feqS => some (wordOfBool (F.eq a b))
  | .fltS => some (wordOfBool (F.lt a b))
  | .fleS => some (wordOfBool (F.le a b))
  | .fcvtWS => F.toInt32 a
  | .fcvtWuS => F.toUint32 a
  | .fmvXW => some a
  | _ => none

/-- `executeRV32` on registers whose `r[0]` it has cleared; it clears `r[0]` again at its end. -/
def executeRV32 (F : HostFloat) (instr : RV32Instr) (curPc nextPc : Word) (regs fregs : LaneRegs)
    (sentinel : Word) (mem : MemoryHierarchy) (blockId : BlockId) : Option ExecResult :=
  let r := Function.update regs 0 0
  let done (nextPc : Word) (r fregs : LaneRegs) (mem : MemoryHierarchy) (halt : Bool) :
    ExecResult :=
    ⟨nextPc, Function.update r 0 0, fregs, mem, halt⟩
  let setReg (v : Word) : ExecResult := done nextPc (Function.update r instr.rd v) fregs mem false
  match instr.op with
  | .add | .sub | .and | .or | .xor | .sll | .srl | .sra | .slt | .sltu
  | .mul | .mulh | .mulhsu | .mulhu | .div | .divu | .rem | .remu =>
    (aluR instr.op (r instr.rs1) (r instr.rs2)).map setReg
  | .addi | .slti | .sltiu | .xori | .ori | .andi | .slli | .srli | .srai =>
    (aluI instr.op (r instr.rs1) instr.imm).map setReg
  | .lui => some (setReg instr.imm)
  | .auipc => some (setReg (curPc + instr.imm))
  | .lw | .lb | .lbu | .lh | .lhu =>
    (signedAddress (r instr.rs1) instr.imm).map fun addr =>
      let v := loadValue mem blockId addr instr.op
      done nextPc (Function.update r instr.rd v.1) fregs v.2 false
  | .sw | .sb | .sh =>
    (signedAddress (r instr.rs1) instr.imm).map fun addr =>
      done nextPc r fregs (storeValue mem blockId addr instr.op (r instr.rs2)) false
  | .jal => some (done (curPc + instr.imm) (Function.update r instr.rd nextPc) fregs mem false)
  | .jalr =>
    let target := (r instr.rs1 + instr.imm) &&& ~~~1
    some (done target (Function.update r instr.rd nextPc) fregs mem (target = sentinel &&& ~~~1))
  | .beq | .bne | .blt | .bge | .bltu | .bgeu =>
    some (done (if branchTaken instr.op (r instr.rs1) (r instr.rs2) then curPc + instr.imm
      else nextPc) r fregs mem false)
  | .ecall | .ebreak => some (done nextPc r fregs mem true)
  | .fence | .barSync | .unknown => some (done nextPc r fregs mem false)
  | .flw =>
    (signedAddress (r instr.rs1) instr.imm).map fun addr =>
      let v := mem.loadWord addr blockId
      done nextPc r (Function.update fregs instr.rd (v.1.getD 0)) v.2 false
  | .fsw =>
    (signedAddress (r instr.rs1) instr.imm).map fun addr =>
      done nextPc r fregs (mem.storeWord addr (fregs instr.rs2) blockId) false
  | .feqS | .fltS | .fleS | .fcvtWS | .fcvtWuS | .fmvXW =>
    (floatToReg F instr.op (fregs instr.rs1) (fregs instr.rs2)).map setReg
  | .faddS | .fsubS | .fmulS | .fdivS | .fsqrtS | .fmaddS | .fmsubS | .fnmsubS | .fnmaddS
  | .fcvtSW | .fcvtSWu | .fmvWX =>
    (floatResult F instr.op (fregs instr.rs1) (fregs instr.rs2) (fregs instr.rs3)
      (r instr.rs1)).map fun v =>
        done nextPc r (Function.update fregs instr.rd v) mem false

/-- The binary mode state of a compute unit. -/
structure BinaryUnit where
  pc : Word
  returnSentinel : Word
  halted : Bool
  blocked : Bool
  regs : LaneRegs
  fregs : LaneRegs
  blockId : BlockId
  barrierId : Word
  totalCycles : BitVec 64
  totalInstructions : BitVec 64
  /-- `config_.max_cycles`. -/
  maxCycles : Word

namespace BinaryUnit

variable (cu : BinaryUnit)

/-- The watchdog is due. -/
def timedOut : Bool := cu.maxCycles ≠ 0 ∧ cu.maxCycles.toNat ≤ cu.totalCycles.toNat

/-- The word `step` fetches. -/
def fetch (mem : MemoryHierarchy) : Word :=
  let bytes := mem.readBytes (cu.pc.setWidth 64) 4 cu.blockId
  wordOfBytes (bytes.getD 0 0) (bytes.getD 1 0) (bytes.getD 2 0) (bytes.getD 3 0)

/-- The instruction of a fetched word, with its length. -/
def decode (raw : Word) : RV32Instr × Word :=
  if raw &&& 3 ≠ 3 then
    let expanded := expandRVC (raw.setWidth 16)
    (if expanded ≠ 0 then decodeRV32 expanded else {}, 2)
  else (decodeRV32 raw, 4)

/-- The instruction that `step` executes, if the unit is not halted, blocked or timed out. -/
def executes (mem : MemoryHierarchy) : Option RV32Instr :=
  if cu.halted || cu.blocked || cu.timedOut then none else some (decode (cu.fetch mem)).1

/-- `step` in binary mode, connected to a memory. -/
def step (F : HostFloat) (mem : MemoryHierarchy) : Option (BinaryUnit × MemoryHierarchy) :=
  if cu.halted || cu.blocked then some (cu, mem)
  else if cu.timedOut then some ({ cu with halted := true }, mem)
  else
    let (instr, len) := decode (cu.fetch mem)
    let nextPc := cu.pc + len
    if instr.op = .barSync then
      some ({ cu with
        pc := nextPc
        barrierId := instr.imm
        blocked := true
        totalCycles := cu.totalCycles + 1
        totalInstructions := cu.totalInstructions + 1 }, mem)
    else
      (executeRV32 F instr cu.pc nextPc cu.regs cu.fregs cu.returnSentinel mem cu.blockId).map
        fun r => ({ cu with
          pc := r.nextPc
          regs := r.regs
          fregs := r.fregs
          halted := r.halt
          totalCycles := cu.totalCycles + 1
          totalInstructions := cu.totalInstructions + 1 }, r.mem)

def isBlocked : Bool := cu.blocked

def isComplete : Bool := cu.halted

/-- `releaseBarrier`. -/
def releaseBarrier (barrierId : Word) : Bool × BinaryUnit :=
  if !cu.blocked || cu.barrierId != barrierId then (false, cu)
  else (true, { cu with blocked := false })

end BinaryUnit

end RiscvGpgpu.Golden
