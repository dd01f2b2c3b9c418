import RiscvGpgpu.Ptx.Registers
import RiscvGpgpu.Lib.Packing

/-!
# Memory accesses

What PTX defines for the loads and stores in global and shared memory, and the lines that the
emitter writes for them. The word at the shared address `x` is at `0x00400000 + x`.
-/

namespace RiscvGpgpu.Ptx

open Asm (Line Machine Fpu run accessed run_nil run_cons run_append accessed_append)
open Rv32 (LoadOp StoreOp)
open RvEmitter

/-! ## Instructions -/

inductive Access where
  | ld | st
deriving DecidableEq, Repr

inductive MemType where
  | b8 | u8 | s8 | b16 | u16 | s16 | b32 | u32 | s32 | f32
deriving DecidableEq, Repr

def MemType.text : MemType → List Char
  | b8 => ".b8".toList
  | u8 => ".u8".toList
  | s8 => ".s8".toList
  | b16 => ".b16".toList
  | u16 => ".u16".toList
  | s16 => ".s16".toList
  | b32 => ".b32".toList
  | u32 => ".u32".toList
  | s32 => ".s32".toList
  | f32 => ".f32".toList

/-- The width of the type, and how a value is extended to 32 bits. -/
def MemType.loadOp : MemType → LoadOp
  | b8 | u8 => .lbu
  | s8 => .lb
  | b16 | u16 => .lhu
  | s16 => .lh
  | b32 | u32 | s32 | f32 => .lw

def MemType.storeOp : MemType → StoreOp
  | b8 | u8 | s8 => .sb
  | b16 | u16 | s16 => .sh
  | b32 | u32 | s32 | f32 => .sw

/-- The types that a float register can have in a load or store. -/
def MemType.takesFloat : MemType → Bool
  | b8 | b16 | b32 | f32 => true
  | _ => false

/-- The space of an access and its base, which is a register or, in shared memory, a variable. -/
inductive Address where
  | global (base : List Char)
  | shared (base : List Char)
  | symbol (name : List Char)
deriving DecidableEq, Repr

namespace Address

def space : Address → List Char
  | global _ => ".global".toList
  | shared _ | symbol _ => ".shared".toList

/-- The base register. -/
def base : Address → Option (List Char)
  | global base | shared base => some base
  | symbol _ => none

def operand (offset : ℤ) : Address → PtxOperand
  | global base | shared base => { kind := .memRef, memBase := base, memOffset := offset }
  | symbol name => { kind := .memRef, paramName := name, memOffset := offset }

end Address

/-- A load or store of the value in the register `name`, which is a float register or not. The
modifiers stand between the space and the type. -/
structure MemAccess where
  access : Access
  address : Address
  mods : List (List Char)
  type : MemType
  offset : ℤ
  float : Bool
  name : List Char

namespace MemAccess

def opcode (i : MemAccess) : List Char :=
  match i.access with
  | .ld => "ld".toList ++ i.address.space
  | .st => "st".toList ++ i.address.space

/-- What is behind the space. -/
def suffix (i : MemAccess) : List Char := i.mods.flatMap (fun w => '.' :: w) ++ i.type.text

def text (i : MemAccess) : List Char := i.opcode ++ i.suffix

def valueOperand (i : MemAccess) : PtxOperand := { kind := .reg, name := i.name }

def instr (i : MemAccess) : PtxInstr :=
  { op := i.text
    operands := match i.access with
      | .ld => [i.valueOperand, i.address.operand i.offset]
      | .st => [i.address.operand i.offset, i.valueOperand] }

end MemAccess

/-- An access that is well formed in PTX and passes the validation. The type is the only part of the
text that names one. -/
structure MemInstr extends MemAccess where
  based : address.base ≠ some []
  typed : float = true → type.takesFloat = true
  plain : contains toMemAccess.text ".f32".toList = decide (type = .f32)
  valid : validateInstruction toMemAccess.instr = none

/-! ## What PTX defines -/

/-- The register of a value. -/
def valueReg (s : RvEmitter) (float : Bool) (name : List Char) : Rv32.Reg :=
  if float then s.floatReg name else s.intReg name

/-- The name has a register of the class. -/
def HasValue (s : RvEmitter) (float : Bool) (name : List Char) : Prop :=
  if float then s.HasFloat name else s.HasInt name

/-- The address of the base, where the variables in shared memory lie at `place`. -/
def Address.value (place : List Char → Rv32.Word) (s : RvEmitter) (m : Machine) :
    Address → Rv32.Word
  | .global base => m.get (s.intReg base)
  | .shared base => 0x00400000 + m.get (s.intReg base)
  | .symbol name => place name

namespace MemInstr

variable (place : List Char → Rv32.Word) (s : RvEmitter) (i : MemInstr)

/-- The value of the register of the instruction. -/
def value (m : Machine) : Rv32.Word :=
  if i.float then m.f (s.floatReg i.name) else m.get (s.intReg i.name)

/-- The address of the access, where the variables in shared memory lie at `place`. -/
def start (m : Machine) : Rv32.Word := i.address.value place s m + BitVec.ofInt 32 i.offset

def bytes (m : Machine) : List Rv32.Word :=
  (List.range i.type.loadOp.size).map fun k => i.start place s m + BitVec.ofNat 32 k

/-- `m'` is behind the access from `m`: a load changes the register of its value, a store the bytes
in memory, and only `t6` may change with them. -/
def After (m m' : Machine) : Prop :=
  match i.access with
  | .ld => i.value s m' = i.type.loadOp.read m.mem (i.start place s m) ∧ m'.mem = m.mem ∧
    (∀ r, r ≠ t6 → (i.float = false → r ≠ s.intReg i.name) → m'.get r = m.get r) ∧
    ∀ r, (i.float = true → r ≠ s.floatReg i.name) → m'.f r = m.f r
  | .st => m'.mem = m.mem.write (i.start place s m) (i.type.storeOp.bytes (i.value s m)) ∧
    (∀ r, r ≠ t6 → m'.get r = m.get r) ∧ m'.f = m.f

/-- The lines between `s` and `s'` can be assembled, access the bytes of the instruction and do to
them what it says. -/
structure Correct (s₀ : RvEmitter) : Prop where
  based : ∀ base, i.address.base = some base → s.HasInt base
  named : HasValue s i.float i.name
  emits : ∃ ls, s.out = s₀.out ++ ls ∧ (∀ l ∈ ls, l.encodable = true) ∧ ∀ fpu m,
    accessed fpu ls m = i.bytes place s m ∧ i.After place s m (run fpu ls m)

end MemInstr

/-! ## The lines -/

namespace MemInstr

/-- The lines for the base of the address. -/
def baseLines (s : RvEmitter) : Address → List Line
  | .global _ => []
  | .shared base => [.li t6 0x00400000, .reg .add t6 t6 (s.intReg base)]
  | .symbol _ => [.li t6 0x00400000]

def baseReg (s : RvEmitter) : Address → Rv32.Reg
  | .global base => s.intReg base
  | .shared _ | .symbol _ => t6

/-- The line of the access; it goes by the type whether the value is in a float register. -/
def accessLine (access : Access) (float : Bool) (value base : Rv32.Reg) (offset : ℤ) : Line :=
  match access, float with
  | .ld, true => .flw value offset base
  | .ld, false => .load .lw value offset base
  | .st, true => .fsw value offset base
  | .st, false => .store .sw value offset base

def lines (s : RvEmitter) (i : MemInstr) : List Line :=
  let float := decide (i.type = .f32)
  baseLines s i.address ++
    [accessLine i.access float (valueReg s float i.name) (baseReg s i.address) i.offset]

end MemInstr

section Emission

variable {s s' : RvEmitter} {op name r : List Char} {offset : ℤ} {base : Rv32.Reg}
  {address : Address} {instr : PtxInstr}

theorem emitInstr_ldGlobal (h : instr.op = "ld.global".toList ++ '.' :: r) :
    emitInstr instr s = some (emitLdGlobal instr s) := by
  unfold emitInstr
  dsimp only
  rw [h]
  rfl

theorem emitInstr_stGlobal (h : instr.op = "st.global".toList ++ '.' :: r) :
    emitInstr instr s = some (emitStGlobal instr s) := by
  unfold emitInstr
  dsimp only
  rw [h]
  rfl

theorem emitInstr_stShared (h : instr.op = "st.shared".toList ++ '.' :: r) :
    emitInstr instr s = some (emitStShared instr s) := by
  unfold emitInstr
  dsimp only
  rw [h]
  rfl

theorem emitInstr_ldShared (h : instr.op = "ld.shared".toList ++ '.' :: r) :
    emitInstr instr s = some (emitLdShared instr s) := by
  unfold emitInstr
  dsimp only
  rw [h]
  rfl

/-- The base register of an address, and the state behind the lines for it. -/
def emitBase (s : RvEmitter) : Address → Rv32.Reg × RvEmitter
  | .global base => s.ireg base
  | .shared base => (t6, emitSharedBase base s)
  | .symbol _ => (t6, emitSharedBase [] s)

/-- The register of a value, and the state behind its allocation. -/
def emitValue (s : RvEmitter) (float : Bool) (name : List Char) : Rv32.Reg × RvEmitter :=
  if float then s.freg name else s.ireg name

/-- The line of the access behind the allocations. -/
def emitAccess (access : Access) (float : Bool) (name : List Char) (offset : ℤ) (base : Rv32.Reg)
    (s : RvEmitter) : RvEmitter :=
  let value := emitValue s float name
  value.2.write (MemInstr.accessLine access float value.1 base offset)

theorem emitLoad_eq :
    emitLoad op name offset base s =
      emitAccess .ld (contains op ".f32".toList) name offset base s := by
  unfold emitLoad emitAccess emitValue
  split_ifs with hfloat
  · rw [hfloat]
    rfl
  · rw [Bool.eq_false_iff.2 hfloat]
    rfl

theorem emitStore_eq :
    emitStore op name offset base s =
      emitAccess .st (contains op ".f32".toList) name offset base s := by
  unfold emitStore emitAccess emitValue
  split_ifs with hfloat
  · rw [hfloat]
    rfl
  · rw [Bool.eq_false_iff.2 hfloat]
    rfl

theorem MemAccess.exists_suffix (i : MemAccess) : ∃ r, i.suffix = '.' :: r := by
  unfold MemAccess.suffix
  cases i.mods with
  | nil => cases i.type <;> exact ⟨_, rfl⟩
  | cons w mods => exact ⟨_, rfl⟩

theorem MemInstr.emitInstr_eq (i : MemInstr) :
    emitInstr i.instr s = some (emitAccess i.access (decide (i.type = .f32)) i.name i.offset
      (emitBase s i.address).1 (emitBase s i.address).2) := by
  obtain ⟨r, hr⟩ := i.exists_suffix
  have hplain := i.plain
  have hop : i.instr.op = i.text := rfl
  have htext : i.text = i.opcode ++ '.' :: r := congrArg (i.opcode ++ ·) hr
  have hbased := i.based
  cases haccess : i.access with
  | ld =>
    have hops : i.instr.operands = [i.valueOperand, i.address.operand i.offset] := by
      rw [MemAccess.instr, haccess]
    rw [MemAccess.opcode, haccess] at htext
    cases haddress : i.address with
    | global base =>
      rw [haddress] at hops hbased htext
      have hbase : base ≠ [] := fun heq => hbased (congrArg some heq)
      rw [emitInstr_ldGlobal (hop.trans htext), emitLdGlobal, hops]
      rw [← hplain, ← emitLoad_eq]
      exact congrArg some (if_neg (by simp [Address.operand, MemAccess.valueOperand, hbase]))
    | shared base | symbol name =>
      rw [haddress] at hops htext
      rw [emitInstr_ldShared (hop.trans htext), emitLdShared, hops, ← hplain, ← emitLoad_eq]
      rfl
  | st =>
    have hops : i.instr.operands = [i.address.operand i.offset, i.valueOperand] := by
      rw [MemAccess.instr, haccess]
    rw [MemAccess.opcode, haccess] at htext
    cases haddress : i.address with
    | global base =>
      rw [haddress] at hops hbased htext
      have hbase : base ≠ [] := fun heq => hbased (congrArg some heq)
      rw [emitInstr_stGlobal (hop.trans htext), emitStGlobal, hops]
      rw [← hplain, ← emitStore_eq]
      exact congrArg some (if_neg (by simp [Address.operand, MemAccess.valueOperand, hbase]))
    | shared base | symbol name =>
      rw [haddress] at hops htext
      rw [emitInstr_stShared (hop.trans htext), emitStShared, hops, ← hplain, ← emitStore_eq]
      rfl

/-- The base register is allocated behind the first line. -/
theorem emitBase_spec (hbased : address.base ≠ some []) (h : (emitBase s address).2.error = []) :
    s.Leads (emitBase s address).2 ∧
      (∀ base, address.base = some base → (emitBase s address).2.HasInt base) ∧
      (emitBase s address).1 = MemInstr.baseReg (emitBase s address).2 address ∧
      (emitBase s address).2.out = s.out ++ MemInstr.baseLines (emitBase s address).2 address := by
  cases address with
  | global base =>
    obtain ⟨hleads, hfind, hout⟩ := ireg_spec h
    refine ⟨hleads, fun base' hbase' => ?_, (intReg_of_find hfind).symm,
      hout.trans (List.append_nil _).symm⟩
    obtain rfl := Option.some.inj hbase'
    exact hasInt_of_find hfind
  | shared base =>
    have hbase : base ≠ [] := fun heq => hbased (congrArg some heq)
    unfold emitBase emitSharedBase at h ⊢
    dsimp only at h ⊢
    rw [if_neg hbase] at h ⊢
    obtain ⟨hleads, hfind, hout⟩ := ireg_spec h
    refine ⟨hleads.of_write.write _, fun base' hbase' => ?_, rfl, ?_⟩
    · obtain rfl := Option.some.inj hbase'
      exact hasInt_of_find hfind
    · show ((s.write (.li t6 0x00400000)).ireg base).2.out ++ _ = _
      rw [hout, ← intReg_of_find hfind]
      exact List.append_assoc _ _ _
  | symbol name =>
    have herr : s.error = [] := h
    refine ⟨(Leads.refl herr).write _, fun base hbase => ?_, rfl, rfl⟩
    exact absurd hbase (Option.some_ne_none base).symm

theorem emitValue_spec {float : Bool} (h : (emitValue s float name).2.error = []) :
    s.Leads (emitValue s float name).2 ∧ HasValue (emitValue s float name).2 float name ∧
      (emitValue s float name).1 = valueReg (emitValue s float name).2 float name ∧
      (emitValue s float name).2.out = s.out := by
  cases float with
  | true =>
    obtain ⟨hleads, hfind, hout⟩ := freg_spec h
    exact ⟨hleads, hasFloat_of_find hfind, (floatReg_of_find hfind).symm, hout⟩
  | false =>
    obtain ⟨hleads, hfind, hout⟩ := ireg_spec h
    exact ⟨hleads, hasInt_of_find hfind, (intReg_of_find hfind).symm, hout⟩

theorem emitValue_params {float : Bool} : (emitValue s float name).2.params = s.params := by
  cases float with
  | true => exact freg_params
  | false => exact ireg_params

theorem RvEmitter.Room.emitValue {k : ℕ} (h : s.Room (k + 1)) (float : Bool) (name : List Char) :
    (Ptx.emitValue s float name).2.Room k := by
  cases float with
  | true => exact h.freg name
  | false => exact h.ireg name

/-- The base keeps its lines. -/
theorem baseLines_of_leads (h : s.Leads s')
    (hbase : ∀ base, address.base = some base → s.HasInt base) :
    MemInstr.baseLines s' address = MemInstr.baseLines s address ∧
      MemInstr.baseReg s' address = MemInstr.baseReg s address := by
  cases address with
  | global base => exact ⟨rfl, (h.find_int (hbase base rfl)).2⟩
  | shared base =>
    have hreg : s'.intReg base = s.intReg base := (h.find_int (hbase base rfl)).2
    rw [MemInstr.baseLines, hreg]
    exact ⟨rfl, rfl⟩
  | symbol name => exact ⟨rfl, rfl⟩

/-- The registers of an instruction behind it, and its lines. -/
theorem MemInstr.emitInstr_spec (i : MemInstr) (hs : s.Allocated)
    (heq : emitInstr i.instr s = some s') (h : s'.error = []) :
    s'.Allocated ∧ (∀ base, i.address.base = some base → s'.HasInt base) ∧
      HasValue s' (decide (i.type = .f32)) i.name ∧ s'.out = s.out ++ i.lines s' := by
  rw [i.emitInstr_eq] at heq
  obtain rfl := Option.some.inj heq
  obtain ⟨hleads, hvalue, hvalueReg, hout⟩ := emitValue_spec h
  obtain ⟨hleads', hbase, hbaseReg, hout'⟩ := emitBase_spec i.based hleads.no_error
  obtain ⟨hlines, hreg⟩ := baseLines_of_leads hleads hbase
  refine ⟨((hleads'.trans hleads).write _).allocated hs,
    fun base hb => (hleads.find_int (hbase base hb)).1, hvalue, ?_⟩
  show (emitValue _ _ _).2.out ++ _ = _
  rw [hout, hout', hvalueReg, hbaseReg, ← hlines, ← hreg]
  exact List.append_assoc _ _ _

end Emission

/-! ## What the lines do -/

/-- All variables lie where the emitter looks for them. -/
def home (_ : List Char) : Rv32.Word := 0x00400000

section Execution

variable {s s' : RvEmitter} {fpu : Fpu} {m : Machine} {address : Address}
  {place : List Char → Rv32.Word} {i : MemInstr}

/-- Only `t6` changed. -/
structure OnlyT6 (m m' : Machine) : Prop where
  get : ∀ r, r ≠ t6 → m'.get r = m.get r
  f : m'.f = m.f
  mem : m'.mem = m.mem

theorem OnlyT6.refl (m : Machine) : OnlyT6 m m := ⟨fun _ _ => rfl, rfl, rfl⟩

theorem OnlyT6.set {m' : Machine} (h : OnlyT6 m m') (v : Rv32.Word) : OnlyT6 m (m'.set t6 v) where
  get r hr := (Machine.get_set_of_ne hr).trans (h.get r hr)
  f := Machine.set_f.trans h.f
  mem := Machine.set_mem.trans h.mem

theorem onlyT6_baseLines : OnlyT6 m (run fpu (MemInstr.baseLines s address) m) := by
  cases address with
  | global base => exact .refl m
  | shared base => exact ((OnlyT6.refl m).set _).set _
  | symbol name => exact (OnlyT6.refl m).set _

theorem accessed_baseLines : accessed fpu (MemInstr.baseLines s address) m = [] := by
  cases address <;> rfl

theorem get_baseReg (hs : s.Allocated) (hbase : ∀ base, address.base = some base → s.HasInt base) :
    (run fpu (MemInstr.baseLines s address) m).get (MemInstr.baseReg s address) =
      address.value home s m := by
  have ht6 : t6 ≠ 0 := by decide
  cases address with
  | global base => rfl
  | shared base =>
    have hreg : s.intReg base ≠ t6 := hs.intReg_ne_t6 (hbase base rfl)
    simp only [MemInstr.baseLines, MemInstr.baseReg, run_cons, run_nil, Line.exec]
    rw [Machine.get_set_self ht6, Machine.get_set_self ht6, Machine.get_set_of_ne hreg]
    rfl
  | symbol name => exact Machine.get_set_self ht6

theorem size_accessLine {access : Access} {float : Bool} {value base : Rv32.Reg} {offset : ℤ} :
    (MemInstr.accessLine access float value base offset).accessed m =
      (List.range 4).map fun k => m.address base offset + BitVec.ofNat 32 k := by
  cases access <;> cases float <;> rfl

/-- The lines access the four bytes from the start on. -/
theorem accessed_lines (hs : s.Allocated)
    (hbase : ∀ base, i.address.base = some base → s.HasInt base) :
    accessed fpu (i.lines s) m =
      (List.range 4).map fun k => i.start home s m + BitVec.ofNat 32 k := by
  rw [MemInstr.lines, accessed_append, accessed_baseLines, List.nil_append, accessed,
    size_accessLine, Machine.address, get_baseReg hs hbase]
  exact List.append_nil _

theorem run_lines : run fpu (i.lines s) m =
    (MemInstr.accessLine i.access (decide (i.type = .f32))
      (valueReg s (decide (i.type = .f32)) i.name) (MemInstr.baseReg s i.address) i.offset).exec fpu
        (run fpu (MemInstr.baseLines s i.address) m) := by
  rw [MemInstr.lines, run_append]
  rfl

/-- The type is one of 32 bits. -/
def MemType.isWord (type : MemType) : Bool := type.loadOp = .lw

theorem MemType.storeOp_of_isWord {type : MemType} (h : type.isWord = true) :
    type.storeOp = .sw := by
  revert h
  cases type <;> decide

/-- The lines are right for an instruction on words whose class of register is that of its type. -/
theorem after_lines (hs : s.Allocated) (hbase : ∀ base, i.address.base = some base → s.HasInt base)
    (hvalue : HasValue s i.float i.name) (hword : i.type.isWord = true)
    (hfloat : i.float = decide (i.type = .f32)) :
    i.After home s m (run fpu (i.lines s) m) := by
  have hload : i.type.loadOp = .lw := of_decide_eq_true hword
  have hstore : i.type.storeOp = .sw := MemType.storeOp_of_isWord hword
  have hframe : OnlyT6 m (run fpu (MemInstr.baseLines s i.address) m) := onlyT6_baseLines
  have haddress : (run fpu (MemInstr.baseLines s i.address) m).address
      (MemInstr.baseReg s i.address) i.offset = i.start home s m := by
    rw [Machine.address, get_baseReg hs hbase]
    rfl
  rw [run_lines, ← hfloat]
  generalize run fpu (MemInstr.baseLines s i.address) m = m₁ at hframe haddress
  unfold MemInstr.After MemInstr.value
  rw [hload, hstore]
  unfold HasValue at hvalue
  cases i.access with
  | ld =>
    cases hclass : i.float with
    | true =>
      simp only [MemInstr.accessLine, valueReg, Line.exec, haddress, if_true]
      refine ⟨?_, hframe.mem, fun r hr _ => hframe.get r hr, fun r hr => ?_⟩
      · rw [Machine.setF_f_self, hframe.mem]
      · rw [Machine.setF_f_of_ne (hr trivial), hframe.f]
    | false =>
      rw [hclass, if_neg Bool.false_ne_true] at hvalue
      simp only [MemInstr.accessLine, valueReg, Line.exec, haddress, Bool.false_eq_true, if_false]
      refine ⟨?_, Machine.set_mem.trans hframe.mem, fun r hr hne => ?_, fun r _ => ?_⟩
      · rw [Machine.get_set_self (hs.intReg_ne_zero hvalue), hframe.mem]
      · rw [Machine.get_set_of_ne (hne trivial), hframe.get r hr]
      · rw [Machine.set_f, hframe.f]
  | st =>
    cases hclass : i.float with
    | true =>
      simp only [MemInstr.accessLine, valueReg, Line.exec, haddress, if_true]
      refine ⟨?_, hframe.get, hframe.f⟩
      rw [hframe.mem, hframe.f]
    | false =>
      rw [hclass, if_neg Bool.false_ne_true] at hvalue
      simp only [MemInstr.accessLine, valueReg, Line.exec, haddress, Bool.false_eq_true, if_false]
      refine ⟨?_, hframe.get, hframe.f⟩
      rw [hframe.mem, hframe.get _ (hs.intReg_ne_t6 hvalue)]

end Execution

end RiscvGpgpu.Ptx
