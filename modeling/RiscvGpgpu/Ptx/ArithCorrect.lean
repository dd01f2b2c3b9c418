import RiscvGpgpu.Ptx.ArithConformance

/-!
# The integer arithmetic is right exactly when

The condition is on the instruction and on the values of its sources: taken as the emitter takes
them, they give the same result.
-/

namespace RiscvGpgpu.Ptx

open Asm (Line Machine run)
open Rv32 (RegOp)

variable {ρ : List Char → Rv32.Word} {i : IntInstr} {s s' : RvEmitter} {a b c : Src}
  {dst : List Char}

/-- The second operand as the emitted code takes it: the divisor from a register, the amount of a
shift modulo 32 from a register, the bits of a predicate. -/
def BinaryOp.taken (ρ : List Char → Rv32.Word) (b : Src) : BinaryOp → Rv32.Word
  | div _ | rem _ => b.seen ρ
  | shl | shr _ => BitVec.ofNat 32 (b.amount ρ)
  | _ => b.value ρ false

/-- Dividing by an immediate is dividing by `x0`: it gives -1, and the remainder is the dividend. -/
def BinaryOp.Coincides (ρ : List Char → Rv32.Word) (a b : Src) : BinaryOp → Prop
  | div type =>
    (∃ v, b = .imm v) ∧ (div type).eval (a.value ρ false) (b.value ρ false) = some (-1)
  | rem type =>
    (∃ v, b = .imm v) ∧ (rem type).eval (a.value ρ false) (b.value ρ false) = some (a.seen ρ)
  | _ => False

/-- Taken as the emitted code takes them, the operands give the result that PTX defines. -/
def IntInstr.SameResult (ρ : List Char → Rv32.Word) (i : IntInstr) : Prop :=
  match i with
  | unary (.not .pred) _ _ => False
  | unary _ _ a => a.seen ρ = a.value ρ false
  | binary op _ a b =>
    op.eval (a.seen ρ) (op.taken ρ b) = op.eval (a.value ρ i.onPreds) (b.value ρ i.onPreds) ∨
      op.Coincides ρ a b
  | madLo _ dst a b c =>
    a.seen ρ * b.seen ρ + (if c.is dst then a.seen ρ * b.seen ρ else c.seen ρ) =
      a.value ρ false * b.value ρ false + c.value ρ false

theorem ofNat_amount (h : b.immShift) : (BitVec.ofNat 32 (b.amount ρ)).toNat = b.amount ρ := by
  rw [BitVec.toNat_ofNat]
  apply Nat.mod_eq_of_lt
  cases b with
  | reg name => exact Nat.lt_trans (Nat.mod_lt _ (by decide)) (by decide)
  | imm v =>
    obtain ⟨hlow, hhigh⟩ := h
    show v.val.toNat < 2 ^ 32
    omega

/-- An operation that always yields a value. -/
theorem total_iff {x y z : Rv32.Word} (hz : z = x) :
    (∀ v, some y = some v → z = v) ↔ some x = some y ∨ False := by
  subst hz
  constructor
  · intro h
    exact .inl (congrArg some (h y rfl))
  · rintro (h | h) v hv
    · exact Option.some.inj (h.trans hv)
    · exact h.elim

/-- A division, which yields no value for the divisor 0; `d` is what the machine gives there. -/
theorem divides_iff {f g : Rv32.Word → Rv32.Word → Rv32.Word} {x d : Rv32.Word}
    (hf : ∀ y, y ≠ 0 → f x y = g x y) (hd : f x 0 = d) (u : Rv32.Word) :
    (∀ v, (if b.value ρ false = 0 then none else some (g u (b.value ρ false))) = some v →
      f x (b.seen ρ) = v) ↔
    (if b.seen ρ = 0 then none else some (g x (b.seen ρ))) =
        (if b.value ρ false = 0 then none else some (g u (b.value ρ false))) ∨
      (∃ v, b = .imm v) ∧
        (if b.value ρ false = 0 then none else some (g u (b.value ρ false))) = some d := by
  cases b with
  | reg name =>
    show (∀ v, (if ρ name = 0 then none else some (g u (ρ name))) = some v → f x (ρ name) = v) ↔
      (if ρ name = 0 then none else some (g x (ρ name))) =
        (if ρ name = 0 then none else some (g u (ρ name))) ∨ _
    by_cases hzero : ρ name = 0
    · simp [hzero]
    · rw [if_neg hzero, if_neg hzero, hf _ hzero]
      have hno : ¬ ∃ v, Src.reg name = .imm v := by
        rintro ⟨v, hv⟩
        exact absurd hv (by simp)
      rw [total_iff rfl, or_false, or_iff_left fun h => hno h.1]
  | imm w =>
    show (∀ v, _ → f x 0 = v) ↔ (if (0 : Rv32.Word) = 0 then none else _) = _ ∨ _
    rw [if_pos rfl, hd]
    by_cases hzero : (Src.imm w).value ρ false = 0
    · simp [hzero]
    · rw [if_neg hzero]
      constructor
      · intro h
        exact .inr ⟨⟨w, rfl⟩, congrArg some (h _ rfl).symm⟩
      · rintro (h | ⟨-, h⟩) v hv
        · exact absurd h (by simp)
        · exact Option.some.inj (h.symm.trans hv)

theorem divu_eval {x y : Rv32.Word} (hy : y ≠ 0) : RegOp.divu.eval x y = x / y := by
  show (if y = 0 then _ else _) = _
  rw [if_neg hy]
  apply BitVec.eq_of_toNat_eq
  rw [BitVec.toNat_ofNat, BitVec.toNat_udiv]
  exact Nat.mod_eq_of_lt (Nat.lt_of_le_of_lt (Nat.div_le_self _ _) x.isLt)

theorem remu_eval {x y : Rv32.Word} (hy : y ≠ 0) : RegOp.remu.eval x y = x % y := by
  show (if y = 0 then _ else _) = _
  rw [if_neg hy]
  apply BitVec.eq_of_toNat_eq
  rw [BitVec.toNat_ofNat, BitVec.toNat_umod]
  exact Nat.mod_eq_of_lt (Nat.lt_of_le_of_lt (Nat.mod_le _ _) x.isLt)

theorem eq_of_toInt_min {x y : Rv32.Word} (h : x.toInt = -2 ^ 31 ∧ y.toInt = -1) :
    x = BitVec.intMin 32 ∧ y = -1 :=
  ⟨BitVec.eq_of_toInt_eq (h.1.trans rfl), BitVec.eq_of_toInt_eq (h.2.trans rfl)⟩

theorem div_eval {x y : Rv32.Word} (hy : y ≠ 0) : RegOp.div.eval x y = x.sdiv y := by
  show (if y = 0 then _ else if _ then _ else _) = _
  rw [if_neg hy]
  split
  · next h =>
    obtain ⟨rfl, rfl⟩ := eq_of_toInt_min h
    decide
  · next h =>
    have hne : x ≠ BitVec.intMin 32 ∨ y ≠ -1 := by
      rw [← not_and_or]
      rintro ⟨rfl, rfl⟩
      exact h (by decide)
    rw [← BitVec.toInt_sdiv_of_ne_or_ne _ _ hne, BitVec.ofInt_toInt]

theorem rem_eval {x y : Rv32.Word} (hy : y ≠ 0) : RegOp.rem.eval x y = x.srem y := by
  show (if y = 0 then _ else if _ then _ else _) = _
  rw [if_neg hy]
  split
  · next h =>
    obtain ⟨rfl, rfl⟩ := eq_of_toInt_min h
    decide
  · rw [← BitVec.toInt_srem, BitVec.ofInt_toInt]

/-- A predicate is never its own complement's bits. -/
theorem not_pred_ne {x p : Rv32.Word} (hx : x = 0 ∨ x = 1) (hp : p = 0 ∨ p = 1) :
    ~~~ x ≠ p ^^^ 1 := by
  rcases hx with rfl | rfl <;> rcases hp with rfl | rfl <;> decide

theorem forall_some_iff {x y : Rv32.Word} : (∀ v, some y = some v → x = v) ↔ x = y := by
  constructor
  · exact fun h => h y rfl
  · rintro rfl v hv
    exact Option.some.inj hv

theorem sameResult_unary {op : UnaryOp} (hpred : (IntInstr.unary op dst a).PredsHold ρ) :
    (∀ v, (IntInstr.unary op dst a).result ρ = some v → op.computed ρ a = v) ↔
      (IntInstr.unary op dst a).SameResult ρ := by
  rcases op with (_ | _) | _
  · refine forall_some_iff.trans ?_
    show ~~~ a.seen ρ = ~~~ a.value ρ false ↔ a.seen ρ = a.value ρ false
    exact BitVec.not_inj
  · refine forall_some_iff.trans (iff_of_false ?_ id)
    show ~~~ a.seen ρ ≠ a.value ρ true ^^^ 1
    cases a with
    | reg name =>
      have hbit := hpred rfl name (List.mem_singleton_self _)
      exact not_pred_ne hbit hbit
    | imm v =>
      apply not_pred_ne (.inl rfl)
      show Rv32.ofBool _ = 0 ∨ Rv32.ofBool _ = 1
      cases decide (v.val ≠ 0)
      · exact .inl rfl
      · exact .inr rfl
  · refine forall_some_iff.trans ?_
    show -a.seen ρ = -a.value ρ false ↔ a.seen ρ = a.value ρ false
    exact BitVec.neg_inj

theorem sameResult_binary {op : BinaryOp} (hencodes : (IntInstr.binary op dst a b).Encodes) :
    (∀ v, (IntInstr.binary op dst a b).result ρ = some v → op.computed ρ a b = v) ↔
      (IntInstr.binary op dst a b).SameResult ρ := by
  cases op with
  | add type => exact total_iff rfl
  | sub type => exact total_iff rfl
  | mulLo type => exact total_iff rfl
  | and type => exact total_iff rfl
  | or type => exact total_iff rfl
  | xor type => exact total_iff rfl
  | shl =>
    apply total_iff
    show a.seen ρ <<< b.amount ρ = a.seen ρ <<< (BitVec.ofNat 32 (b.amount ρ)).toNat
    rw [ofNat_amount hencodes]
  | shr type =>
    have hamount := ofNat_amount (ρ := ρ) hencodes
    cases type with
    | s32 =>
      apply total_iff
      show (a.seen ρ).sshiftRight (b.amount ρ) = (a.seen ρ).sshiftRight (BitVec.ofNat 32 _).toNat
      rw [hamount]
    | u32 =>
      apply total_iff
      show a.seen ρ >>> b.amount ρ = a.seen ρ >>> (BitVec.ofNat 32 (b.amount ρ)).toNat
      rw [hamount]
    | b32 =>
      apply total_iff
      show a.seen ρ >>> b.amount ρ = a.seen ρ >>> (BitVec.ofNat 32 (b.amount ρ)).toNat
      rw [hamount]
  | div type =>
    cases type with
    | u32 => exact divides_iff (fun y hy => divu_eval hy) rfl (a.value ρ false)
    | s32 => exact divides_iff (fun y hy => div_eval hy) rfl (a.value ρ false)
  | rem type =>
    cases type with
    | u32 => exact divides_iff (fun y hy => remu_eval hy) rfl (a.value ρ false)
    | s32 => exact divides_iff (fun y hy => rem_eval hy) rfl (a.value ρ false)

/-- The lines compute what PTX defines exactly when the operands as taken give the same result. -/
theorem sameResult_iff (hencodes : i.Encodes) (hpred : i.PredsHold ρ) :
    (∀ v, i.result ρ = some v → i.computed ρ = v) ↔ i.SameResult ρ := by
  cases i with
  | unary op dst a => exact sameResult_unary hpred
  | binary op dst a b => exact sameResult_binary hencodes
  | madLo type dst a b c => exact forall_some_iff

/-- The register that a source names. -/
def Src.regName : Src → Option (List Char)
  | reg name => some name
  | imm _ => none

/-- The code can be emitted and assembled, and it computes what PTX defines. -/
theorem correct_iff_computed (hs : s.Allocated)
    (haccept : ∀ s', emitArith i.instr s = some s' → s'.error = []) :
    i.Correct s ρ ↔
      i.ShiftDefined ∧ i.Encodes ∧ ∀ v, i.result ρ = some v → i.computed ρ = v := by
  constructor
  · rintro ⟨s', ls, hemit, hout, hencodable, hrun⟩
    obtain ⟨hs', hsrcs, ls', hcomputes, hencodes⟩ := sequel i hs hemit (haccept s' hemit)
    obtain rfl : ls = ls' := List.append_cancel_left (hout.symm.trans hcomputes.out)
    refine ⟨(emitArith_isSome i s).1 (by rw [hemit]; rfl), hencodes.1 hencodable, ?_⟩
    intro v hv
    have hnames : ∀ name ∈ i.srcs.filterMap Src.regName, s'.HasInt name := by
      intro name hname
      obtain ⟨a, ha, heq⟩ := List.mem_filterMap.1 hname
      cases a with
      | reg name' => exact Option.some.inj heq ▸ hsrcs _ ha
      | imm w => exact absurd heq (by simp [Src.regName])
    obtain ⟨x, hx⟩ := hs'.exists_machine hnames ρ
    let m : Machine := ⟨x, fun _ => 0, fun _ => 0, .rne⟩
    have hvalues : ∀ name, Src.reg name ∈ i.srcs → m.get (s'.intReg name) = ρ name :=
      fun name hname => hx _ _ _ name (List.mem_filterMap.2 ⟨_, hname, rfl⟩)
    obtain ⟨hresult, -⟩ := hrun default m hvalues
    rw [← hresult v hv, hcomputes.result]
    exact (computed_congr i hvalues).symm
  · rintro ⟨hdefined, hencodes, hcomputed⟩
    obtain ⟨s', hemit⟩ := Option.isSome_iff_exists.1 ((emitArith_isSome i s).2 hdefined)
    obtain ⟨hs', hsrcs, ls, hcomputes, hencodable⟩ := sequel i hs hemit (haccept s' hemit)
    refine ⟨s', ls, hemit, hcomputes.out, hencodable.2 hencodes, fun fpu m hm => ?_⟩
    refine ⟨fun v hv => ?_, hcomputes.frame fpu m, hcomputes.floats fpu m, hcomputes.memory fpu m⟩
    rw [hcomputes.result, computed_congr i hm]
    exact hcomputed v hv

/-- The code for an instruction is right exactly when it can be emitted and assembled and the
operands, taken as the code takes them, give the same result. -/
theorem correct_iff_sameResult (hs : s.Allocated)
    (haccept : ∀ s', emitArith i.instr s = some s' → s'.error = []) (hpred : i.PredsHold ρ) :
    i.Correct s ρ ↔ i.ShiftDefined ∧ i.Encodes ∧ i.SameResult ρ := by
  rw [correct_iff_computed hs haccept]
  refine and_congr_right fun _ => and_congr_right fun hencodes => ?_
  exact sameResult_iff hencodes hpred

/-- `add.u32 %r1, %r2, %r3` and `add.u32 %r1, %r2, 5`. -/
theorem correct_iff_sameResult_add :
    (IntInstr.binary (.add .u32) "r1".toList (.reg "r2".toList) (.reg "r3".toList)).Correct {}
        (fun _ => 3) ∧
      (IntInstr.binary (.add .u32) "r1".toList (.reg "r2".toList) (.imm ⟨5, by decide⟩)).Correct {}
        (fun _ => 3) :=
  ⟨(correct_iff_sameResult allocated_default (fun _ => accepted_of_map (by decide))
      (fun h => absurd h (by decide))).2 ⟨trivial, trivial, .inl rfl⟩,
    (correct_iff_sameResult allocated_default (fun _ => accepted_of_map (by decide))
      (fun h => absurd h (by decide))).2 ⟨trivial, trivial, .inl rfl⟩⟩

/-- `mad.lo.s32 %r1, %r2, 12, %r3` multiplies by 0. -/
theorem not_correct : ¬ ∀ (i : IntInstr) (s : RvEmitter) (ρ : List Char → Rv32.Word), s.Allocated →
    (∀ s', emitArith i.instr s = some s' → s'.error = []) → i.PredsHold ρ → i.Correct s ρ := by
  intro hall
  let i := IntInstr.madLo .s32 "r1".toList (.reg "r2".toList) (.imm ⟨12, by decide⟩)
    (.reg "r3".toList)
  have haccept : ∀ s', emitArith i.instr {} = some s' → s'.error = [] :=
    fun _ => accepted_of_map (by decide)
  have hcorrect := hall i {} (fun _ => 1) allocated_default haccept fun h => absurd h (by decide)
  obtain ⟨-, -, hcomputed⟩ := (correct_iff_computed allocated_default haccept).1 hcorrect
  exact absurd (hcomputed 13 (by decide)) (by decide)

end RiscvGpgpu.Ptx
