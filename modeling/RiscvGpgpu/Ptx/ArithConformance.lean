import RiscvGpgpu.Ptx.IntArith
import Mathlib.Tactic.IntervalCases

/-!
# When the integer arithmetic is right

What the emitted lines compute, operation by operation, and exactly when it is what PTX defines.
-/

namespace RiscvGpgpu.Ptx

open Asm (Line Machine run)
open Rv32 (RegOp ImmOp ShiftOp)

/-! ## Dispatch -/

def UnaryOp.kind : UnaryOp → IntKind
  | not _ => .not
  | neg => .neg

def BinaryOp.kind : BinaryOp → IntKind
  | add _ => .add
  | sub _ => .sub
  | mulLo _ => .mul
  | div _ => .div
  | rem _ => .rem
  | and _ => .and
  | or _ => .or
  | xor _ => .xor
  | shl => .shl
  | shr _ => .shr

def IntInstr.kind : IntInstr → IntKind
  | unary op _ _ => op.kind
  | binary op _ _ _ => op.kind
  | madLo _ _ _ _ _ => .mad

def ArithType.signed (type : ArithType) : Bool := type = .s32

def BinaryOp.signed : BinaryOp → Bool
  | add type | sub type | mulLo type | div type | rem type => type.signed
  | shr type => type = .s32
  | and _ | or _ | xor _ | shl => false

def IntInstr.signed : IntInstr → Bool
  | unary op _ _ => op = .neg
  | binary op _ _ _ => op.signed
  | madLo type _ _ _ _ => type.signed

/-- The tests on the text find the operation and its sign. -/
def Dispatched (text : List Char) (kind : IntKind) (signed : Bool) : Prop :=
  (contains text ".f32".toList || contains text ".f64".toList) = false ∧
    intKind text = some kind ∧ contains text ".s32".toList = signed

instance (text : List Char) (kind : IntKind) (signed : Bool) :
    Decidable (Dispatched text kind signed) := inferInstanceAs (Decidable (_ ∧ _ ∧ _))

theorem UnaryOp.dispatched (op : UnaryOp) : Dispatched op.text op.kind (op = .neg) := by
  rcases op with (_ | _) | _ <;> decide

theorem BinaryOp.dispatched (op : BinaryOp) : Dispatched op.text op.kind op.signed := by
  rcases op with (_ | _) | (_ | _) | (_ | _) | (_ | _) | (_ | _) | (_ | _) | (_ | _) | (_ | _) |
    _ | (_ | _ | _) <;> decide

theorem dispatched_madLo (type : ArithType) :
    Dispatched ("mad.lo".toList ++ type.text) .mad type.signed := by
  cases type <;> decide

theorem IntInstr.dispatched (i : IntInstr) : Dispatched i.text i.kind i.signed := by
  cases i with
  | unary op dst a => exact op.dispatched
  | binary op dst a b => exact op.dispatched
  | madLo type dst a b c => exact dispatched_madLo type

/-- The destination gets its register first. -/
theorem emitArith_of_dispatched {instr : PtxInstr} {kind : IntKind} {signed : Bool} {s : RvEmitter}
    (hsize : ¬ instr.operands.length < 2) (h : Dispatched instr.op kind signed) :
    emitArith instr s =
      emitIntKind kind signed (s.ireg (instr.operands.headD {}).name).1 instr.operands
        (s.ireg (instr.operands.headD {}).name).2 := by
  obtain ⟨hfloat, hkind, hsigned⟩ := h
  have hne : instr.operands ≠ [] := fun hnil => hsize (by rw [hnil]; decide)
  unfold emitArith
  rw [if_neg hne, hfloat, if_neg Bool.false_ne_true, emitIntArith, if_neg hsize]
  dsimp only
  rw [hkind, hsigned]

theorem IntInstr.emitArith_eq (i : IntInstr) (s : RvEmitter) :
    emitArith i.instr s =
      emitIntKind i.kind i.signed (s.ireg i.dst).1 i.instr.operands (s.ireg i.dst).2 := by
  have hsize : ¬ i.instr.operands.length < 2 := by
    cases i <;> simp [IntInstr.instr, IntInstr.srcs]
  exact emitArith_of_dispatched hsize i.dispatched

/-! ## What is computed -/

/-- The amount of a shift. -/
def Src.amount (ρ : List Char → Rv32.Word) : Src → ℕ
  | reg name => (ρ name).toNat % 32
  | imm v => v.val.toNat

def UnaryOp.computed (ρ : List Char → Rv32.Word) (a : Src) : UnaryOp → Rv32.Word
  | not _ => ~~~ a.seen ρ
  | neg => -a.seen ρ

/-- What the lines leave in the destination. -/
def BinaryOp.computed (ρ : List Char → Rv32.Word) (a b : Src) : BinaryOp → Rv32.Word
  | add _ => a.seen ρ + b.value ρ false
  | sub _ => a.seen ρ - b.value ρ false
  | mulLo _ => a.seen ρ * b.value ρ false
  | div .u32 => RegOp.divu.eval (a.seen ρ) (b.seen ρ)
  | div .s32 => RegOp.div.eval (a.seen ρ) (b.seen ρ)
  | rem .u32 => RegOp.remu.eval (a.seen ρ) (b.seen ρ)
  | rem .s32 => RegOp.rem.eval (a.seen ρ) (b.seen ρ)
  | and _ => a.seen ρ &&& b.value ρ false
  | or _ => a.seen ρ ||| b.value ρ false
  | xor _ => a.seen ρ ^^^ b.value ρ false
  | shl => a.seen ρ <<< b.amount ρ
  | shr .s32 => (a.seen ρ).sshiftRight (b.amount ρ)
  | shr _ => a.seen ρ >>> b.amount ρ

def IntInstr.computed (ρ : List Char → Rv32.Word) (i : IntInstr) : Rv32.Word :=
  match i with
  | unary op _ a => op.computed ρ a
  | binary op _ a b => op.computed ρ a b
  | madLo _ dst a b c =>
    a.seen ρ * b.seen ρ + if c.is dst then a.seen ρ * b.seen ρ else c.seen ρ

/-- The immediate of a source is not greater than `v`. -/
def Src.immLe (v : ℤ) : Src → Prop
  | reg _ => True
  | imm w => w.val ≤ v

/-- The immediate of a source is a shift amount that can be encoded. -/
def Src.immShift : Src → Prop
  | reg _ => True
  | imm w => 0 ≤ w.val ∧ w.val < 32

/-- An assembler takes the lines. -/
def IntInstr.Encodes : IntInstr → Prop
  | binary (.sub _) _ _ b => b.immLe (2 ^ 31)
  | binary .shl _ _ b | binary (.shr _) _ _ b => b.immShift
  | _ => True

/-- From `s` the emitter came to `s'` with lines that compute `v`. -/
structure Sequel (i : IntInstr) (s s' : RvEmitter) (v : (List Char → Rv32.Word) → Rv32.Word)
    (encodes : Prop) : Prop where
  allocated : s'.Allocated
  srcs : ∀ a ∈ i.srcs, a.Has s'
  lines : ∃ ls, Computes s s' i.dst ls v ∧ (Encodable ls ↔ encodes)

theorem Sequel.congr {i : IntInstr} {s s' : RvEmitter}
    {v v' : (List Char → Rv32.Word) → Rv32.Word} {encodes encodes' : Prop}
    (h : Sequel i s s' v encodes) (hv : ∀ ρ, v ρ = v' ρ) (hencodes : encodes ↔ encodes') :
    Sequel i s s' v' encodes' := by
  obtain rfl : v = v' := funext hv
  obtain rfl := propext hencodes
  exact h

section Sequels

variable {i : IntInstr} {s s' : RvEmitter} {ls : List Line} {a b c : Src}

/-- What is known of the destination behind lines that follow its allocation. -/
theorem Emits.of_ireg {dst : List Char} (h : Emits (s.ireg dst).2 s' ls) :
    s.Leads s' ∧ s'.HasInt dst ∧ s'.intReg dst = (s.ireg dst).1 ∧ s'.out = s.out ++ ls := by
  obtain ⟨hleads, hfind, hout⟩ := RvEmitter.ireg_spec h.leads.no_error
  obtain ⟨hhas, hreg⟩ := h.leads.find_int hfind
  exact ⟨hleads.trans h.leads, hhas, hreg, by rw [h.out, hout]⟩

theorem encodable_one {l : Line} : Encodable [l] ↔ l.encodable = true := by
  simp [Encodable]

theorem encodable_two {l l' : Line} :
    Encodable [l, l'] ↔ l.encodable = true ∧ l'.encodable = true := by
  simp [Encodable]

theorem sequel_reg {op : RegOp} (hs : s.Allocated) (hsrcs : i.srcs = [a, b])
    (heq : emitRegReg op (s.ireg i.dst).1 i.instr.operands (s.ireg i.dst).2 = s')
    (h : s'.error = []) :
    Sequel i s s' (fun ρ => op.eval (a.seen ρ) (b.seen ρ)) True := by
  have ha : i.instr.operands[1]? = some a.operand := by simp [IntInstr.instr, hsrcs]
  have hb : i.instr.operands[2]? = some b.operand := by simp [IntInstr.instr, hsrcs]
  obtain ⟨hemits, hhasa, hhasb⟩ := emitRegReg_spec ha hb heq h
  obtain ⟨hleads, hdst, hrd, hout⟩ := hemits.of_ireg
  rw [← hrd] at hout
  refine ⟨hleads.allocated hs, ?_, _, computes_reg (hleads.allocated hs) hdst hout, ?_⟩
  · rw [hsrcs]
    simp [hhasa, hhasb]
  · simp [encodable_one, Line.encodable]

/-- One line on the first source. -/
theorem sequel_first {f : Rv32.Reg → Rv32.Reg → Line}
    {v : (List Char → Rv32.Word) → Rv32.Word} (hs : s.Allocated)
    (ha : i.instr.operands[1]? = some a.operand) (hb : a.Has s' → ∀ a ∈ i.srcs, a.Has s')
    (heq : (rarg (s.ireg i.dst).2 i.instr.operands 1).2.write
      (f (s.ireg i.dst).1 (rarg (s.ireg i.dst).2 i.instr.operands 1).1) = s')
    (h : s'.error = [])
    (hexec : ∀ fpu m rd, (f rd (a.register s')).exec fpu m =
      m.set rd (v fun n => m.get (s'.intReg n))) :
    Sequel i s s' v ((f (s'.intReg i.dst) (a.register s')).encodable = true) := by
  obtain ⟨hemits, hhas⟩ := emit_first_spec (f := f (s.ireg i.dst).1) ha heq h
  obtain ⟨hleads, hdst, hrd, hout⟩ := hemits.of_ireg
  rw [← hrd] at hout
  refine ⟨hleads.allocated hs, hb hhas, _, ?_, encodable_one⟩
  exact computes_one (hleads.allocated hs) hdst hout fun fpu m => hexec fpu m _

theorem sequel_li {op : RegOp} {imm : ℤ} (hs : s.Allocated)
    (ha : i.instr.operands[1]? = some a.operand) (hb : a.Has s' → ∀ a ∈ i.srcs, a.Has s')
    (heq : emitRegLi op (s.ireg i.dst).1 i.instr.operands imm (s.ireg i.dst).2 = s')
    (h : s'.error = []) :
    Sequel i s s' (fun ρ => op.eval (a.seen ρ) (BitVec.ofInt 32 imm))
      (Asm.fitsImm32 imm = true) := by
  obtain ⟨hemits, hhas⟩ := emitRegLi_spec ha heq h
  obtain ⟨hleads, hdst, hrd, hout⟩ := hemits.of_ireg
  rw [← hrd] at hout
  refine ⟨hleads.allocated hs, hb hhas, _, computes_li (hleads.allocated hs) hdst hhas hout, ?_⟩
  simp [encodable_two, Line.encodable]

end Sequels

/-! ## Powers of two -/

theorem isPowerOfTwo_iff {imm : ℤ} (h : imm < 2 ^ 63) :
    isPowerOfTwo imm = true ↔ ∃ k < 63, imm = 2 ^ k := by
  constructor
  · intro hpow
    unfold isPowerOfTwo at hpow
    rw [Bool.and_eq_true, decide_eq_true_iff, decide_eq_true_iff] at hpow
    obtain ⟨hpos, hand⟩ := hpow
    obtain ⟨n, rfl⟩ := Int.eq_ofNat_of_zero_le (Int.le_of_lt hpos)
    have hn : n < 2 ^ 64 := by omega
    have hn' : n ≠ 0 := by omega
    have hnat : n &&& (n - 1) = 0 := by
      have hsub : (n : ℤ) - 1 = ((n - 1 : ℕ) : ℤ) := by omega
      have htoNat := congrArg BitVec.toNat hand
      rw [hsub, BitVec.ofInt_natCast, BitVec.ofInt_natCast, BitVec.toNat_and, BitVec.toNat_ofNat,
        BitVec.toNat_ofNat, Nat.mod_eq_of_lt hn, Nat.mod_eq_of_lt (by omega)] at htoNat
      exact htoNat
    obtain ⟨k, rfl⟩ := (Nat.and_sub_one_eq_zero_iff_isPowerOfTwo hn').1 hnat
    refine ⟨k, ?_, by simp⟩
    have hlt : 2 ^ k < 2 ^ 63 := by exact_mod_cast h
    exact (Nat.pow_lt_pow_iff_right (by decide)).1 hlt
  · rintro ⟨k, hk, rfl⟩
    interval_cases k <;> decide

theorem mulShift_pow {k : ℕ} (h : k < 31) : mulShift (2 ^ k) = some k := by
  interval_cases k <;> decide

/-- From `2 ^ 31` on, no shift of the loop reaches the immediate. -/
theorem mulShift_eq_none {imm : ℤ} (h : 2 ^ 31 ≤ imm) : mulShift imm = none := by
  rw [mulShift, List.find?_eq_none]
  intro shift _
  have hlt := BitVec.toInt_lt (x := 1#32 <<< shift)
  have hless : (1#32 <<< shift).toInt < imm := Int.lt_of_lt_of_le (by simpa using hlt) h
  rw [decide_eq_true hless]
  decide

theorem exists_pow_of_lt {imm : ℤ} (hpow : isPowerOfTwo imm = true) (hlt : imm < 2 ^ 31) :
    ∃ k < 31, imm = 2 ^ k := by
  have hlt63 : imm < 2 ^ 63 := lt_trans hlt (by decide)
  obtain ⟨k, -, rfl⟩ := (isPowerOfTwo_iff hlt63).1 hpow
  exact ⟨k, (pow_lt_pow_iff_right₀ (by decide : (1 : ℤ) < 2)).1 hlt, rfl⟩

/-- The loop ends for the powers of two that an `int` holds. -/
theorem mulShift_isSome_iff {imm : ℤ} (hpow : isPowerOfTwo imm = true) :
    (mulShift imm).isSome = true ↔ imm < 2 ^ 31 := by
  constructor
  · intro h
    apply lt_of_not_ge
    intro hge
    rw [mulShift_eq_none hge] at h
    exact absurd h Bool.false_ne_true
  · intro hlt
    obtain ⟨k, hk, rfl⟩ := exists_pow_of_lt hpow hlt
    rw [mulShift_pow hk]
    rfl

theorem shiftLeft_eq_mul (a : Rv32.Word) (k : ℕ) : a <<< k = a * BitVec.ofInt 32 (2 ^ k) := by
  have hcast : ((2 : ℤ) ^ k) = ((2 ^ k : ℕ) : ℤ) := by norm_cast
  have hpow : BitVec.twoPow 32 k = BitVec.ofNat 32 (2 ^ k) := by
    apply BitVec.eq_of_toNat_eq
    rw [BitVec.toNat_twoPow, BitVec.toNat_ofNat]
  rw [hcast, BitVec.ofInt_natCast, BitVec.shiftLeft_eq_mul_twoPow, hpow]

/-! ## Operation by operation -/

section Operations

variable {i : IntInstr} {s s' : RvEmitter} {a b c : Src} {dst : List Char}

theorem Imm32.fits (v : Imm32) : Asm.fitsImm32 v.val = true := by
  obtain ⟨v, hlow, hhigh⟩ := v
  simp only [Asm.fitsImm32, Bool.and_eq_true, decide_eq_true_iff]
  exact ⟨hlow, hhigh⟩

theorem sequel_unary (op : UnaryOp) (hs : s.Allocated)
    (heq : emitArith (IntInstr.unary op dst a).instr s = some s') (h : s'.error = []) :
    Sequel (.unary op dst a) s s' (fun ρ => op.computed ρ a) True := by
  rw [IntInstr.emitArith_eq] at heq
  have hsrcs : a.Has s' → ∀ x ∈ (IntInstr.unary op dst a).srcs, x.Has s' := by
    intro ha x hx
    obtain rfl := List.mem_singleton.1 hx
    exact ha
  cases op with
  | not type =>
    apply (sequel_first (f := .not) hs rfl hsrcs (Option.some.inj heq) h ?_).congr
      (fun _ => rfl) (by simp [Line.encodable])
    intro fpu m rd
    rw [Line.exec, Src.get_register]
    rfl
  | neg =>
    apply (sequel_first (f := .neg) hs rfl hsrcs (Option.some.inj heq) h ?_).congr
      (fun _ => rfl) (by simp [Line.encodable])
    intro fpu m rd
    rw [Line.exec, Src.get_register]
    rfl

theorem sequel_addImm {imm : ℤ} (hs : s.Allocated) (ha : i.instr.operands[1]? = some a.operand)
    (hsrcs : a.Has s' → ∀ a ∈ i.srcs, a.Has s')
    (heq : emitAddImm (s.ireg i.dst).1 i.instr.operands imm (s.ireg i.dst).2 = s')
    (h : s'.error = []) :
    Sequel i s s' (fun ρ => a.seen ρ + BitVec.ofInt 32 imm) (-2 ^ 31 ≤ imm ∧ imm < 2 ^ 32) := by
  unfold emitAddImm at heq
  split_ifs at heq with hwide
  · apply (sequel_li hs ha hsrcs heq h).congr (fun _ => rfl)
    simp only [Asm.fitsImm32, Bool.and_eq_true, decide_eq_true_iff]
  · apply (sequel_first (f := fun rd r => .imm .addi rd r imm) hs ha hsrcs heq h ?_).congr
      (fun _ => rfl)
    · rw [not_or, Int.not_lt, Int.not_lt] at hwide
      have hfits : Asm.fitsImm12 imm = true := by
        simp only [Asm.fitsImm12, Bool.or_eq_true, Bool.and_eq_true, decide_eq_true_iff]
        exact .inl hwide
      refine ⟨fun _ => ?_, fun _ => hfits⟩
      omega
    · intro fpu m rd
      rw [Line.exec, Src.get_register]
      rfl

theorem has_binary {op : BinaryOp} {v : Imm32} (ha : a.Has s') :
    ∀ x ∈ (IntInstr.binary op dst a (.imm v)).srcs, x.Has s' := by
  intro x hx
  rcases List.mem_pair.1 hx with rfl | rfl
  · exact ha
  · trivial

theorem sequel_shift {op : BinaryOp} {v : Imm32} {shiftOp : ShiftOp} (hs : s.Allocated)
    (heq : emitShiftImm shiftOp (s.ireg dst).1
      (IntInstr.binary op dst a (.imm v)).instr.operands v.val (s.ireg dst).2 = s')
    (h : s'.error = []) :
    Sequel (.binary op dst a (.imm v)) s s' (fun ρ => shiftOp.eval (a.seen ρ) v.val.toNat)
      (0 ≤ v.val ∧ v.val < 32) := by
  apply (sequel_first (f := fun rd r => .shift shiftOp rd r v.val) hs rfl has_binary heq h ?_).congr
    (fun _ => rfl) (by simp [Line.encodable])
  intro fpu m rd
  rw [Line.exec, Src.get_register]

/-- Operations whose second source is read as an immediate through `t6`. -/
theorem sequel_binaryLi {op : BinaryOp} {v : Imm32} {regOp : RegOp} (hs : s.Allocated)
    (heq : emitRegLi regOp (s.ireg dst).1
      (IntInstr.binary op dst a (.imm v)).instr.operands v.val (s.ireg dst).2 = s')
    (h : s'.error = []) :
    Sequel (.binary op dst a (.imm v)) s s'
      (fun ρ => regOp.eval (a.seen ρ) (BitVec.ofInt 32 v.val)) True :=
  (sequel_li hs rfl has_binary heq h).congr (fun _ => rfl) (by simp [v.fits])

theorem sequel_mulImm {type : ArithType} {v : Imm32} (hs : s.Allocated)
    (heq : emitArith (IntInstr.binary (.mulLo type) dst a (.imm v)).instr s = some s')
    (h : s'.error = []) :
    Sequel (.binary (.mulLo type) dst a (.imm v)) s s'
      (fun ρ => a.seen ρ * BitVec.ofInt 32 v.val) True := by
  rw [IntInstr.emitArith_eq] at heq
  have heq' : (if isPowerOfTwo v.val then
      (mulShift v.val).map fun (shift : ℕ) => emitShiftImm .slli (s.ireg dst).1
        (IntInstr.binary (.mulLo type) dst a (.imm v)).instr.operands (shift : ℤ) (s.ireg dst).2
    else some (emitRegLi .mul (s.ireg dst).1
      (IntInstr.binary (.mulLo type) dst a (.imm v)).instr.operands v.val (s.ireg dst).2)) =
      some s' := heq
  split_ifs at heq' with hpow
  · have hlt : v.val < 2 ^ 63 := Int.lt_trans v.bounds.2 (by decide)
    obtain ⟨k, -, hk⟩ := (isPowerOfTwo_iff hlt).1 hpow
    obtain ⟨shift, hshift, hemit⟩ := Option.map_eq_some_iff.1 heq'
    have hk31 : k < 31 := by
      apply Nat.lt_of_not_le
      intro hge
      have hle : (2 : ℤ) ^ 31 ≤ v.val := by
        rw [hk]
        exact_mod_cast Nat.pow_le_pow_right (by decide) hge
      exact absurd ((mulShift_eq_none hle).symm.trans hshift) (by simp)
    rw [hk, mulShift_pow hk31] at hshift
    obtain rfl := Option.some.inj hshift
    apply (sequel_first (f := fun rd r => .shift .slli rd r k) hs rfl has_binary hemit h ?_).congr
      (fun ρ => ?_)
    · simp only [Line.encodable, Bool.and_eq_true, decide_eq_true_iff, iff_true]
      omega
    · exact fun ρ => a.seen ρ <<< k
    · intro fpu m rd
      rw [Line.exec, Src.get_register]
      rfl
    · rw [hk, shiftLeft_eq_mul]
  · exact (sequel_binaryLi hs (Option.some.inj heq') h).congr (fun ρ => regOp_mul _ _) Iff.rfl

theorem sequel_binary_reg (op : BinaryOp) {name : List Char} (hs : s.Allocated)
    (heq : emitArith (IntInstr.binary op dst a (.reg name)).instr s = some s')
    (h : s'.error = []) :
    Sequel (.binary op dst a (.reg name)) s s' (fun ρ => op.computed ρ a (.reg name)) True := by
  rw [IntInstr.emitArith_eq] at heq
  cases op with
  | add type => exact sequel_reg hs rfl (Option.some.inj heq) h
  | sub type => exact sequel_reg hs rfl (Option.some.inj heq) h
  | mulLo type =>
    exact (sequel_reg hs rfl (Option.some.inj heq) h).congr (fun ρ => regOp_mul _ _) Iff.rfl
  | div type =>
    cases type with
    | u32 => exact sequel_reg hs rfl (Option.some.inj heq) h
    | s32 => exact sequel_reg hs rfl (Option.some.inj heq) h
  | rem type =>
    cases type with
    | u32 => exact sequel_reg hs rfl (Option.some.inj heq) h
    | s32 => exact sequel_reg hs rfl (Option.some.inj heq) h
  | and type => exact sequel_reg hs rfl (Option.some.inj heq) h
  | or type => exact sequel_reg hs rfl (Option.some.inj heq) h
  | xor type => exact sequel_reg hs rfl (Option.some.inj heq) h
  | shl => exact sequel_reg hs rfl (Option.some.inj heq) h
  | shr type =>
    cases type with
    | u32 => exact sequel_reg hs rfl (Option.some.inj heq) h
    | s32 => exact sequel_reg hs rfl (Option.some.inj heq) h
    | b32 => exact sequel_reg hs rfl (Option.some.inj heq) h

theorem sequel_binary_imm (op : BinaryOp) {v : Imm32} (hs : s.Allocated)
    (heq : emitArith (IntInstr.binary op dst a (.imm v)).instr s = some s')
    (h : s'.error = []) :
    Sequel (.binary op dst a (.imm v)) s s' (fun ρ => op.computed ρ a (.imm v))
      (IntInstr.binary op dst a (.imm v)).Encodes := by
  have hmul := @sequel_mulImm s s' a dst
  obtain ⟨hlow, hhigh⟩ := v.bounds
  cases op with
  | mulLo type => exact hmul hs heq h
  | add type =>
    rw [IntInstr.emitArith_eq] at heq
    apply (sequel_addImm hs rfl has_binary (Option.some.inj heq) h).congr (fun _ => rfl)
    exact iff_of_true v.bounds trivial
  | sub type =>
    rw [IntInstr.emitArith_eq] at heq
    obtain ⟨w, hw, hemit⟩ := Option.map_eq_some_iff.1 (heq : (neg64 v.val).map _ = some s')
    have hneg : w = -v.val := by
      unfold neg64 at hw
      split_ifs at hw
      exact (Option.some.inj hw).symm
    apply (sequel_addImm hs rfl has_binary hemit h).congr
    · intro ρ
      show _ + _ = a.seen ρ - BitVec.ofInt 32 v.val
      rw [hneg, BitVec.ofInt_neg, BitVec.sub_eq_add_neg]
    · show _ ↔ v.val ≤ 2 ^ 31
      omega
  | div type =>
    rw [IntInstr.emitArith_eq] at heq
    cases type with
    | u32 => exact sequel_reg hs rfl (Option.some.inj heq) h
    | s32 => exact sequel_reg hs rfl (Option.some.inj heq) h
  | rem type =>
    rw [IntInstr.emitArith_eq] at heq
    cases type with
    | u32 => exact sequel_reg hs rfl (Option.some.inj heq) h
    | s32 => exact sequel_reg hs rfl (Option.some.inj heq) h
  | and type =>
    rw [IntInstr.emitArith_eq] at heq
    exact sequel_binaryLi hs (Option.some.inj heq) h
  | or type =>
    rw [IntInstr.emitArith_eq] at heq
    exact sequel_binaryLi hs (Option.some.inj heq) h
  | xor type =>
    rw [IntInstr.emitArith_eq] at heq
    exact sequel_binaryLi hs (Option.some.inj heq) h
  | shl =>
    rw [IntInstr.emitArith_eq] at heq
    exact sequel_shift hs (Option.some.inj heq) h
  | shr type =>
    rw [IntInstr.emitArith_eq] at heq
    cases type with
    | u32 => exact sequel_shift hs (Option.some.inj heq) h
    | s32 => exact sequel_shift hs (Option.some.inj heq) h
    | b32 => exact sequel_shift hs (Option.some.inj heq) h

theorem sequel_madLo (type : ArithType) (hs : s.Allocated)
    (heq : emitArith (IntInstr.madLo type dst a b c).instr s = some s') (h : s'.error = []) :
    Sequel (.madLo type dst a b c) s s' (fun ρ => (IntInstr.madLo type dst a b c).computed ρ)
      True := by
  rw [IntInstr.emitArith_eq] at heq
  obtain ⟨hemits, ha, hb, hc⟩ := emitMad_spec (a := a) (b := b) (c := c) rfl rfl rfl
    (Option.some.inj heq) h
  obtain ⟨hleads, hdst, hrd, hout⟩ := hemits.of_ireg
  rw [← hrd] at hout
  refine ⟨hleads.allocated hs, ?_, _, computes_mad (hleads.allocated hs) hdst hc hout, ?_⟩
  · intro x hx
    simp only [IntInstr.srcs, List.mem_cons, List.not_mem_nil, or_false] at hx
    rcases hx with rfl | rfl | rfl
    · exact ha
    · exact hb
    · exact hc
  · simp [encodable_two, Line.encodable]

/-- What the code for an instruction computes, and when it can be assembled. -/
theorem sequel (i : IntInstr) (hs : s.Allocated) (heq : emitArith i.instr s = some s')
    (h : s'.error = []) : Sequel i s s' (fun ρ => i.computed ρ) i.Encodes := by
  cases i with
  | unary op dst a => exact sequel_unary op hs heq h
  | binary op dst a b =>
    cases b with
    | reg name =>
      apply (sequel_binary_reg op hs heq h).congr (fun _ => rfl)
      cases op <;> exact Iff.rfl
    | imm v => exact sequel_binary_imm op hs heq h
  | madLo type dst a b c => exact sequel_madLo type hs heq h

/-- The shift of the multiplication is undefined for `2 ^ 31` only. -/
def IntInstr.ShiftDefined : IntInstr → Prop
  | binary (.mulLo _) _ _ (.imm v) => v.val ≠ 2 ^ 31
  | _ => True

theorem mulShift_isSome {v : Imm32} (hpow : isPowerOfTwo v.val = true) :
    (mulShift v.val).isSome = true ↔ v.val ≠ 2 ^ 31 := by
  have hlt : v.val < 2 ^ 63 := Int.lt_trans v.bounds.2 (by decide)
  obtain ⟨k, -, hk⟩ := (isPowerOfTwo_iff hlt).1 hpow
  have hk32 : k < 32 := by
    have hbound : (2 : ℤ) ^ k < 2 ^ 32 := hk ▸ v.bounds.2
    exact (pow_lt_pow_iff_right₀ (by decide : (1 : ℤ) < 2)).1 hbound
  rw [mulShift_isSome_iff hpow]
  refine ⟨ne_of_lt, fun hne => ?_⟩
  have hk31 : k ≠ 31 := by
    rintro rfl
    exact hne hk
  rw [hk]
  exact (pow_lt_pow_iff_right₀ (by decide : (1 : ℤ) < 2)).2 (by omega)

theorem emitArith_isSome (i : IntInstr) (s : RvEmitter) :
    (emitArith i.instr s).isSome = true ↔ i.ShiftDefined := by
  rw [IntInstr.emitArith_eq]
  cases i with
  | unary op dst a => cases op <;> exact iff_of_true rfl trivial
  | madLo type dst a b c => exact iff_of_true rfl trivial
  | binary op dst a b =>
    cases b with
    | reg name =>
      cases op with
      | shr type => exact iff_of_true rfl trivial
      | _ => exact iff_of_true rfl trivial
    | imm v =>
      have hneg : neg64 v.val = some (-v.val) := by
        obtain ⟨hlow, -⟩ := v.bounds
        rw [neg64, if_neg]
        omega
      cases op with
      | sub type =>
        refine iff_of_true ?_ trivial
        show ((neg64 v.val).map _).isSome = true
        rw [hneg]
        rfl
      | mulLo type =>
        show (if isPowerOfTwo v.val then _ else _ : Option RvEmitter).isSome = true ↔ v.val ≠ 2 ^ 31
        split_ifs with hpow
        · rw [Option.isSome_map]
          exact mulShift_isSome hpow
        · refine iff_of_true rfl fun heq => hpow ?_
          rw [heq]
          decide
      | _ => exact iff_of_true rfl trivial

/-! ## When the code is right -/

theorem Src.seen_congr {ρ ρ' : List Char → Rv32.Word}
    (h : ∀ name, a = .reg name → ρ name = ρ' name) : a.seen ρ = a.seen ρ' := by
  cases a with
  | reg name => exact h name rfl
  | imm v => rfl

theorem Src.value_congr {ρ ρ' : List Char → Rv32.Word} {preds : Bool}
    (h : ∀ name, a = .reg name → ρ name = ρ' name) : a.value ρ preds = a.value ρ' preds := by
  cases a with
  | reg name => exact h name rfl
  | imm v => rfl

theorem Src.amount_congr {ρ ρ' : List Char → Rv32.Word}
    (h : ∀ name, a = .reg name → ρ name = ρ' name) : a.amount ρ = a.amount ρ' := by
  cases a with
  | reg name => exact congrArg (fun v : Rv32.Word => v.toNat % 32) (h name rfl)
  | imm v => rfl

/-- The lines compute the same from the same values of the sources. -/
theorem computed_congr (i : IntInstr) {ρ ρ' : List Char → Rv32.Word}
    (h : ∀ name, Src.reg name ∈ i.srcs → ρ name = ρ' name) : i.computed ρ = i.computed ρ' := by
  have hsrc : ∀ a ∈ i.srcs, ∀ name, a = .reg name → ρ name = ρ' name := by
    rintro a ha name rfl
    exact h name ha
  cases i with
  | unary op dst a =>
    have ha := Src.seen_congr (hsrc a (by simp [IntInstr.srcs]))
    cases op <;> simp only [IntInstr.computed, UnaryOp.computed, ha]
  | madLo type dst a b c =>
    have ha := Src.seen_congr (hsrc a (by simp [IntInstr.srcs]))
    have hb := Src.seen_congr (hsrc b (by simp [IntInstr.srcs]))
    have hc := Src.seen_congr (hsrc c (by simp [IntInstr.srcs]))
    simp only [IntInstr.computed, ha, hb, hc]
  | binary op dst a b =>
    have ha := Src.seen_congr (hsrc a (by simp [IntInstr.srcs]))
    have hb := hsrc b (by simp [IntInstr.srcs])
    show op.computed ρ a b = op.computed ρ' a b
    unfold BinaryOp.computed
    rw [ha, Src.seen_congr hb, Src.value_congr hb, Src.amount_congr hb]

end Operations

end RiscvGpgpu.Ptx
