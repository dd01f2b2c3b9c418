import RiscvGpgpu.Ptx.Registers

/-!
# The registers that a kernel needs

The names for which a kernel asks `ireg` and `freg`, read off its instructions, against the maps of
the emitter. A kernel that asks for more names than a pool holds is never emitted: the fallback sets
the error, and nothing takes it back. What may happen in place of the error is an instruction whose
emission is undefined.
-/

namespace RiscvGpgpu.Ptx

/-- A name with the class of its register. -/
inductive Ask where
  | int (name : List Char)
  | float (name : List Char)
deriving DecidableEq, Repr

/-! ## What an instruction asks for -/

/-- The class of the register of a value in memory. -/
def valueAsk (op name : List Char) : Ask :=
  if contains op ".f32".toList then .float name else .int name

/-- The class that the first letter of a name tells. -/
def nameAsk (name : List Char) : Ask := if name.head? = some 'f' then .float name else .int name

def ldParamAsks (known : List Ask) (instr : PtxInstr) : List Ask :=
  match instr.operands with
  | [dst, _] =>
    if loadsFloatIf (.float dst.name ∈ known) instr.op dst.name then [.float dst.name]
    else [.int dst.name]
  | _ => []

/-- The base of an address, which may be missing, and the value. -/
def memAsks (op base name : List Char) : List Ask :=
  (if base = [] then [] else [.int base]) ++ [valueAsk op name]

def loadAsks (instr : PtxInstr) : List Ask :=
  match instr.operands with
  | [dst, src] => memAsks instr.op src.memBase dst.name
  | _ => []

def storeAsks (instr : PtxInstr) : List Ask :=
  match instr.operands with
  | [dst, src] => memAsks instr.op dst.memBase src.name
  | _ => []

def movAsks (instr : PtxInstr) : List Ask :=
  match instr.operands with
  | [dst, src] =>
    match src.kind with
    | .specialReg => if 0 ≤ specialRegOffset src.name then [.int dst.name] else []
    | .reg =>
      if dst.name.head? = some 'f' then [.float dst.name, .float src.name]
      else [.int src.name, .int dst.name]
    | _ => [.int dst.name]
  | _ => []

def cvtAsks (instr : PtxInstr) : List Ask :=
  let op := instr.op
  match instr.operands with
  | [dst, src] =>
    if startsWith op "cvta".toList ∨ op = "cvt.u64.u32".toList ∨ op = "cvt.s64.s32".toList ∨
        op = "cvt.u32.u64".toList then [.int dst.name, .int src.name]
    else if contains op "f32".toList && contains op "s32".toList then
      if dst.name.head? = some 'f' then [.float dst.name, .int src.name]
      else [.int dst.name, .float src.name]
    else [nameAsk dst.name, nameAsk src.name]
  | _ => []

def setpAsks (instr : PtxInstr) : List Ask :=
  let op := instr.op
  match instr.operands with
  | [dst, a, b] =>
    if contains op ".f32".toList || contains op ".f64".toList then
      [.int dst.name, .float a.name, .float b.name]
    else if b.kind = .intImm then [.int dst.name, .int a.name]
    else [.int dst.name, .int a.name, .int b.name]
  | _ => []

def braAsks (instr : PtxInstr) : List Ask :=
  if instr.op = "ret".toList ∨ instr.pred = [] then [] else [.int instr.pred]

/-- The names of the operands at the places `idxs`, as float registers. -/
def floatAsks (operands : List PtxOperand) (idxs : List ℕ) : List Ask :=
  idxs.map fun idx => .float (operands.getD idx {}).name

def floatArithAsks (instr : PtxInstr) : List Ask :=
  let size := instr.operands.length
  if size < 3 ∧ ¬ contains instr.op "fma".toList then []
  else
    match floatKind instr.op with
    | some .fma => floatAsks instr.operands (if size < 4 then [0] else [0, 1, 2, 3])
    | some (.binary _) => floatAsks instr.operands [0, 1, 2]
    | some (.unary _) => floatAsks instr.operands (if size < 2 then [0] else [0, 1])
    | none => floatAsks instr.operands [0]

/-- The name of an operand that is a register. -/
def rargAsks (operands : List PtxOperand) (idx : ℕ) : List Ask :=
  match operands[idx]? with
  | some operand => if operand.kind = .reg then [.int operand.name] else []
  | none => []

/-- The two sources, which are read if there are three operands. -/
def sourceAsks (operands : List PtxOperand) : List Ask :=
  if operands.length < 3 then [] else rargAsks operands 1 ++ rargAsks operands 2

/-- The sources of an operation on integers. -/
def intKindAsks (kind : IntKind) (operands : List PtxOperand) : List Ask :=
  match kind with
  | .membar => []
  | .not | .neg => rargAsks operands 1
  | .mad =>
    if operands.length < 4 then []
    else rargAsks operands 1 ++ rargAsks operands 2 ++ rargAsks operands 3
  | _ => sourceAsks operands

def intArithAsks (instr : PtxInstr) : List Ask :=
  if instr.operands.length < 2 then []
  else
    .int (instr.operands.headD {}).name ::
      match intKind instr.op with
      | some kind => intKindAsks kind instr.operands
      | none => []

def arithAsks (instr : PtxInstr) : List Ask :=
  let op := instr.op
  if instr.operands = [] then []
  else if contains op ".f32".toList || contains op ".f64".toList then floatArithAsks instr
  else intArithAsks instr

/-- The registers that an instruction asks for behind those that are `known`. -/
def asks (known : List Ask) (instr : PtxInstr) : List Ask :=
  let op := instr.op
  if startsWith op "ld.param".toList then ldParamAsks known instr
  else if startsWith op "ld.global".toList then loadAsks instr
  else if startsWith op "st.global".toList then storeAsks instr
  else if startsWith op "st.shared".toList then storeAsks instr
  else if startsWith op "ld.shared".toList then loadAsks instr
  else if startsWith op "mov".toList then movAsks instr
  else if startsWith op "cvta".toList || startsWith op "cvt".toList then cvtAsks instr
  else if startsWith op "setp".toList then setpAsks instr
  else if op = "bar.sync".toList then []
  else if op = "bra".toList ∨ op = "ret".toList then braAsks instr
  else arithAsks instr

/-- All registers of a body, behind those that are `known`. -/
def bodyAsks : List PtxInstr → List Ask → List Ask
  | [], known => known
  | instr :: body, known =>
    if instr.label ≠ [] ∨ instr.op = [] then bodyAsks body known
    else bodyAsks body (known ++ asks known instr)

/-! ## What the emitter gives out -/

namespace RvEmitter

/-- The name has a register of its class. -/
def Has (s : RvEmitter) : Ask → Prop
  | .int name => s.HasInt name
  | .float name => s.HasFloat name

/-- From `s` the emitter came to `s'` and gave registers to the names asked for, and to no
others. -/
structure Takes (s s' : RvEmitter) (as : List Ask) : Prop where
  leads : s.Leads s'
  has : ∀ a, s'.Has a ↔ s.Has a ∨ a ∈ as

/-- The emitter came to `s'` with an error or with what was asked for. -/
def Grants (s s' : RvEmitter) (as : List Ask) : Prop := s'.error = [] → s.Takes s' as

section Grants

variable {s s' s'' : RvEmitter} {as bs : List Ask} {name name' message : List Char} {r : Rv32.Reg}

theorem hasInt_iff : s.HasInt name ↔ (s.iregMap.find name).isSome = true := by
  rw [Option.isSome_iff_exists]
  exact ⟨fun h => ⟨_, h⟩, fun ⟨_, h⟩ => hasInt_of_find h⟩

theorem hasFloat_iff : s.HasFloat name ↔ (s.fregMap.find name).isSome = true := by
  rw [Option.isSome_iff_exists]
  exact ⟨fun h => ⟨_, h⟩, fun ⟨_, h⟩ => hasFloat_of_find h⟩

theorem Grants.refl (s : RvEmitter) : s.Grants s [] := fun h => ⟨.refl h, by simp⟩

theorem Grants.trans (h : s.Grants s' as) (h' : s'.Grants s'' bs) : s.Grants s'' (as ++ bs) := by
  intro herr
  obtain ⟨hleads', hhas'⟩ := h' herr
  obtain ⟨hleads, hhas⟩ := h hleads'.no_error
  refine ⟨hleads.trans hleads', fun a => ?_⟩
  rw [hhas', hhas, List.mem_append, or_assoc]

theorem Grants.write (h : s.Grants s' as) (l : Asm.Line) : s.Grants (s'.write l) as := by
  intro herr
  obtain ⟨hleads, hhas⟩ := h herr
  refine ⟨hleads.write l, fun a => ?_⟩
  cases a with
  | int name => exact hhas (.int name)
  | float name => exact hhas (.float name)

/-- A rejected instruction grants anything. -/
theorem grants_reject (hmessage : message ≠ []) : s.Grants (s'.reject message) as := by
  intro herr
  unfold reject at herr
  split_ifs at herr with h
  · exact absurd herr hmessage
  · exact absurd herr h

theorem grants_ireg : s.Grants (s.ireg name).2 [.int name] := by
  intro herr
  obtain ⟨hleads, -, -⟩ := ireg_spec herr
  refine ⟨hleads, fun a => ?_⟩
  revert herr
  unfold ireg
  cases hassign : s.iregMap.assign kIRegs name with
  | none => exact fun herr => absurd herr (by simp)
  | some found =>
    intro _
    cases a with
    | int name' =>
      show HasInt _ name' ↔ s.HasInt name' ∨ _
      rw [hasInt_iff, hasInt_iff, Pool.Map.assign_isSome hassign]
      simp
    | float name' =>
      show s.HasFloat name' ↔ s.HasFloat name' ∨ _
      simp

theorem grants_freg : s.Grants (s.freg name).2 [.float name] := by
  intro herr
  obtain ⟨hleads, -, -⟩ := freg_spec herr
  refine ⟨hleads, fun a => ?_⟩
  revert herr
  unfold freg
  cases hassign : s.fregMap.assign kFRegs name with
  | none => exact fun herr => absurd herr (by simp)
  | some found =>
    intro _
    cases a with
    | int name' =>
      show s.HasInt name' ↔ s.HasInt name' ∨ _
      simp
    | float name' =>
      show HasFloat _ name' ↔ s.HasFloat name' ∨ _
      rw [hasFloat_iff, hasFloat_iff, Pool.Map.assign_isSome hassign]
      simp

theorem Grants.ireg (h : s.Grants s' as) : s.Grants (s'.ireg name).2 (as ++ [.int name]) :=
  h.trans grants_ireg

theorem Grants.freg (h : s.Grants s' as) : s.Grants (s'.freg name).2 (as ++ [.float name]) :=
  h.trans grants_freg

/-- A check in front of an instruction. -/
theorem Grants.guard {c : Prop} [Decidable c] (hmessage : message ≠ [])
    (h : ¬ c → s.Grants s' as) : s.Grants (if c then s.reject message else s') as := by
  split_ifs with hc
  · exact grants_reject hmessage
  · exact h hc

theorem Grants.ite {c : Prop} [Decidable c] (h : c → s.Grants s' as) (h' : ¬ c → s.Grants s'' bs) :
    s.Grants (if c then s' else s'') (if c then as else bs) := by
  split_ifs with hc
  · exact h hc
  · exact h' hc

/-- A branch of two instructions, each of which may be undefined. -/
theorem Grants.dispatch {c : Prop} [Decidable c] {e e' : Option RvEmitter}
    (h : e = some s' → s.Grants s' as) (h' : e' = some s' → s.Grants s' bs) :
    (if c then e else e') = some s' → s.Grants s' (if c then as else bs) := by
  split_ifs with hc
  · exact h
  · exact h'

theorem Grants.writeMv {rd : Rv32.Reg} (h : s.Grants s' as) :
    s.Grants (Ptx.writeMv rd r s') as := by
  unfold Ptx.writeMv
  split_ifs
  · exact h.write _
  · exact h

end Grants

end RvEmitter

open RvEmitter

/-! ## Instruction by instruction -/

section Emission

variable {s s' : RvEmitter} {instr : PtxInstr} {known : List Ask} {op name base : List Char}
  {offset : ℤ} {r rd : Rv32.Reg} {operands : List PtxOperand}

theorem grants_emitLdParam (hknown : ∀ a, s.Has a ↔ a ∈ known) :
    s.Grants (emitLdParam instr s) (ldParamAsks known instr) := by
  unfold emitLdParam
  split
  next dst src hops =>
    have hfloat : loadsFloat s instr.op dst.name =
        loadsFloatIf (.float dst.name ∈ known) instr.op dst.name := by
      have hiff : (s.fregMap.find dst.name).isSome = true ↔ .float dst.name ∈ known :=
        hasFloat_iff.symm.trans (hknown (.float dst.name))
      rw [loadsFloat, Bool.eq_iff_iff.2 (hiff.trans decide_eq_true_iff.symm)]
    rw [ldParamAsks, hops]
    refine .guard (by decide) fun _ => ?_
    split
    next => exact grants_reject (List.append_ne_nil_of_left_ne_nil (by decide) _)
    next param _ =>
      refine .guard (List.append_ne_nil_of_left_ne_nil (by decide) _) fun _ => ?_
      refine .guard (by decide) fun _ => .guard (by decide) fun _ => ?_
      dsimp only
      rw [hfloat]
      exact .ite (fun _ => grants_freg.write _) fun _ => grants_ireg.write _
  next => exact grants_reject (by decide)

theorem grants_emitLoad : s.Grants (emitLoad op name offset r s) [valueAsk op name] := by
  unfold emitLoad valueAsk
  split_ifs
  · exact grants_freg.write _
  · exact grants_ireg.write _

theorem grants_emitStore : s.Grants (emitStore op name offset r s) [valueAsk op name] := by
  unfold emitStore valueAsk
  split_ifs
  · exact grants_freg.write _
  · exact grants_ireg.write _

theorem grants_emitSharedBase :
    s.Grants (emitSharedBase base s) (if base = [] then [] else [.int base]) :=
  .ite (fun _ => (Grants.refl s).write _) fun _ =>
    (((Grants.refl s).write _).trans grants_ireg).write _

theorem grants_emitLdGlobal : s.Grants (emitLdGlobal instr s) (loadAsks instr) := by
  unfold emitLdGlobal
  split
  next dst src hops =>
    refine .guard (by decide) fun hkind => ?_
    rw [not_or, not_or] at hkind
    rw [loadAsks, hops]
    dsimp only
    rw [memAsks, if_neg hkind.2.2]
    exact grants_ireg.trans grants_emitLoad
  next => exact grants_reject (by decide)

theorem grants_emitStGlobal : s.Grants (emitStGlobal instr s) (storeAsks instr) := by
  unfold emitStGlobal
  split
  next dst src hops =>
    refine .guard (by decide) fun hkind => ?_
    rw [not_or, not_or] at hkind
    rw [storeAsks, hops]
    dsimp only
    rw [memAsks, if_neg hkind.2.1]
    exact grants_ireg.trans grants_emitStore
  next => exact grants_reject (by decide)

theorem grants_emitLdShared : s.Grants (emitLdShared instr s) (loadAsks instr) := by
  unfold emitLdShared
  split
  next dst src hops =>
    refine .guard (by decide) fun _ => ?_
    rw [loadAsks, hops]
    exact grants_emitSharedBase.trans grants_emitLoad
  next => exact grants_reject (by decide)

theorem grants_emitStShared : s.Grants (emitStShared instr s) (storeAsks instr) := by
  unfold emitStShared
  split
  next dst src hops =>
    refine .guard (by decide) fun _ => ?_
    rw [storeAsks, hops]
    exact grants_emitSharedBase.trans grants_emitStore
  next => exact grants_reject (by decide)

theorem grants_emitMov : s.Grants (emitMov instr s) (movAsks instr) := by
  have hunsupported : "unsupported mov operand: ".toList ++ instr.op ≠ [] :=
    List.append_ne_nil_of_left_ne_nil (by decide) _
  unfold emitMov
  split
  next dst src hops =>
    rw [movAsks, hops]
    dsimp only
    refine .guard (by decide) fun _ => ?_
    cases src.kind with
    | specialReg => exact .ite (fun _ => grants_ireg.write _) fun _ => (Grants.refl s).write _
    | reg => exact .ite (fun _ => grants_freg.freg.write _) fun _ => grants_ireg.ireg.writeMv
    | intImm => exact grants_ireg.write _
    | fltImm | label | memRef => exact grants_reject hunsupported
  next => exact grants_reject (by decide)

theorem grants_emitCvtMv {dst src : List Char} :
    s.Grants (emitCvtMv dst src s) [.int dst, .int src] := grants_ireg.ireg.writeMv

theorem grants_emitCvt : s.Grants (emitCvt instr s) (cvtAsks instr) := by
  unfold emitCvt
  split
  next dst src hops =>
    rw [cvtAsks, hops]
    refine .guard (by decide) fun _ => ?_
    dsimp only
    by_cases hmove : startsWith instr.op "cvta".toList = true ∨ instr.op = "cvt.u64.u32".toList ∨
        instr.op = "cvt.s64.s32".toList ∨ instr.op = "cvt.u32.u64".toList
    · rw [if_pos hmove]
      by_cases hcvta : startsWith instr.op "cvta".toList = true
      · rw [if_pos hcvta]
        exact .guard (by decide) fun _ => grants_emitCvtMv
      · rw [if_neg hcvta, if_pos (hmove.resolve_left hcvta)]
        exact .guard (by decide) fun _ => grants_emitCvtMv
    rw [if_neg hmove, if_neg (not_or.1 hmove).1, if_neg (not_or.1 hmove).2]
    refine .guard (List.append_ne_nil_of_left_ne_nil (by decide) _) fun _ => ?_
    refine .ite (fun _ => ?_) fun _ => ?_
    · exact .ite (fun _ => grants_freg.ireg.write _) fun _ => grants_ireg.freg.write _
    · unfold nameAsk
      by_cases hdst : dst.name.head? = some 'f' <;> by_cases hsrc : src.name.head? = some 'f'
      · simp only [hdst, hsrc, not_true, and_false, false_and, and_self, if_true, if_false]
        exact grants_freg.freg.write _
      · simp only [hdst, hsrc, not_false_iff, and_self, if_true, if_false]
        exact grants_freg.ireg.write _
      · simp only [hdst, hsrc, not_true, not_false_iff, and_true, and_false, if_true, if_false]
        exact grants_ireg.freg.write _
      · simp only [hdst, hsrc, not_false_iff, and_true, and_false, if_false]
        exact grants_emitCvtMv
  next => exact grants_reject (by decide)

theorem grants_emitFloatSetp {a b : List Char} :
    s.Grants (emitFloatSetp op a b r s) [.float a, .float b] := by
  have hnames : s.Grants ((s.freg a).2.freg b).2 [.float a, .float b] := grants_freg.freg
  unfold emitFloatSetp
  cases floatRelation op with
  | none => exact hnames
  | some rel =>
    cases rel with
    | ne => exact (hnames.write _).write _
    | lt | le | gt | ge | eq => exact hnames.write _

theorem grants_emitImmSetp {imm : ℤ} (h : emitImmSetp op imm rd r s = some s') :
    s.Grants s' [] := by
  have hwrite : ∀ l l', s.Grants ((s.write l).write l') [] := fun l l' =>
    ((Grants.refl s).write l).write l'
  unfold emitImmSetp at h
  cases hrel : intRelation op with
  | none =>
    rw [hrel] at h
    obtain rfl := Option.some.inj h
    exact grants_reject (List.append_ne_nil_of_left_ne_nil (by decide) _)
  | some rel =>
    rw [hrel] at h
    cases rel with
    | lt =>
      obtain rfl := Option.some.inj h
      exact (Grants.refl s).write _
    | ge =>
      obtain rfl := Option.some.inj h
      exact hwrite _ _
    | gt =>
      dsimp only at h
      by_cases himm : imm = 2 ^ 63 - 1
      · rw [if_pos himm] at h
        exact absurd h (Option.some_ne_none s').symm
      · rw [if_neg himm] at h
        obtain rfl := Option.some.inj h
        exact hwrite _ _
    | le =>
      dsimp only at h
      by_cases himm : imm = 2 ^ 63 - 1
      · rw [if_pos himm] at h
        exact absurd h (Option.some_ne_none s').symm
      · rw [if_neg himm] at h
        obtain rfl := Option.some.inj h
        exact (Grants.refl s).write _
    | eq | ne =>
      obtain ⟨v, -, rfl⟩ := Option.map_eq_some_iff.1 h
      exact hwrite _ _

theorem grants_emitRegSetp {ra rb : Rv32.Reg} : s.Grants (emitRegSetp op rd ra rb s) [] := by
  unfold emitRegSetp
  cases intRelation op with
  | none => exact grants_reject (List.append_ne_nil_of_left_ne_nil (by decide) _)
  | some rel =>
    cases rel with
    | lt | gt => exact (Grants.refl s).write _
    | le | ge | eq | ne => exact ((Grants.refl s).write _).write _

theorem grants_emitSetp (h : emitSetp instr s = some s') : s.Grants s' (setpAsks instr) := by
  unfold emitSetp at h
  split at h
  next dst a b hops =>
    rw [setpAsks, hops]
    dsimp only at h ⊢
    split_ifs at h with hkind hfloat himm
    · obtain rfl := Option.some.inj h
      exact grants_reject (by decide)
    · obtain rfl := Option.some.inj h
      rw [if_pos hfloat]
      exact grants_ireg.trans grants_emitFloatSetp
    · rw [if_neg hfloat, if_pos himm]
      exact grants_ireg.ireg.trans (grants_emitImmSetp h)
    · obtain rfl := Option.some.inj h
      rw [if_neg hfloat, if_neg himm]
      exact grants_ireg.ireg.ireg.trans grants_emitRegSetp
  next =>
    obtain rfl := Option.some.inj h
    exact grants_reject (by decide)

theorem grants_emitBra : s.Grants (emitBra instr s) (braAsks instr) := by
  unfold emitBra braAsks
  by_cases hret : instr.op = "ret".toList
  · rw [if_pos hret, if_pos (.inl hret)]
    exact (Grants.refl s).write _
  rw [if_neg hret]
  by_cases hpred : instr.pred = []
  · rw [if_pos hpred, if_pos (.inr hpred)]
    split
    · split_ifs
      · exact (Grants.refl s).write _
      · exact grants_reject (by decide)
    · exact grants_reject (by decide)
  · rw [if_neg hpred, if_neg (not_or.2 ⟨hret, hpred⟩)]
    dsimp only
    split_ifs
    · exact grants_ireg.write _
    · exact grants_ireg.write _

theorem grants_emitBarSync : s.Grants (emitBarSync instr s) [] := by
  have hmessage : "bar.sync requires one unpredicated immediate ID in range 0..15".toList ≠ [] := by
    decide
  unfold emitBarSync
  split
  · dsimp only
    split_ifs
    · exact fun herr => absurd herr hmessage
    · exact (Grants.refl s).write _
  · exact fun herr => absurd herr hmessage

theorem grants_emitFloatArith (h : emitFloatArith instr s = some s') :
    s.Grants s' (floatArithAsks instr) := by
  unfold emitFloatArith at h
  unfold floatArithAsks
  dsimp only at h ⊢
  by_cases hcount : instr.operands.length < 3 ∧ ¬ contains instr.op "fma".toList = true
  · rw [if_pos hcount] at h ⊢
    obtain rfl := Option.some.inj h
    exact (Grants.refl s).write _
  rw [if_neg hcount] at h ⊢
  cases hkind : floatKind instr.op with
  | none =>
    rw [hkind] at h
    obtain rfl := Option.some.inj h
    exact grants_reject (List.append_ne_nil_of_left_ne_nil (by decide) _)
  | some kind =>
    rw [hkind] at h
    cases kind with
    | fma =>
      dsimp only at h ⊢
      split_ifs at h ⊢
      · obtain rfl := Option.some.inj h
        exact grants_freg.write _
      · obtain rfl := Option.some.inj h
        exact grants_freg.freg.freg.freg.write _
    | binary binary =>
      dsimp only at h ⊢
      split_ifs at h
      obtain rfl := Option.some.inj h
      exact grants_freg.freg.freg.write _
    | unary unary =>
      dsimp only at h ⊢
      split_ifs at h ⊢
      · obtain rfl := Option.some.inj h
        exact grants_freg.write _
      · obtain rfl := Option.some.inj h
        exact grants_freg.freg.write _

theorem grants_rarg {idx : ℕ} : s.Grants (rarg s operands idx).2 (rargAsks operands idx) := by
  unfold rarg rargAsks
  cases operands[idx]? with
  | none => exact .refl s
  | some operand =>
    dsimp only
    split_ifs
    · exact grants_ireg
    · exact .refl s

theorem grants_emitRegReg {regOp : Rv32.RegOp} :
    s.Grants (emitRegReg regOp rd operands s) (sourceAsks operands) :=
  .ite (fun _ => .refl s) fun _ => (grants_rarg.trans grants_rarg).write _

/-- An immediate is no register. -/
theorem sourceAsks_of_imm {imm : ℤ} (h : immOperand operands = some imm) :
    sourceAsks operands = rargAsks operands 1 := by
  unfold immOperand at h
  cases hget : operands[2]? with
  | none =>
    rw [hget] at h
    exact absurd h (Option.some_ne_none imm).symm
  | some operand =>
    rw [hget] at h
    dsimp only at h
    have hlen : 2 < operands.length := (List.getElem?_eq_some_iff.1 hget).1
    have hkind : operand.kind = .intImm := by
      by_contra hkind
      rw [if_neg hkind] at h
      exact absurd h (Option.some_ne_none imm).symm
    have hreg : rargAsks operands 2 = [] := by
      rw [rargAsks, hget]
      dsimp only
      rw [hkind]
      rfl
    rw [sourceAsks, if_neg (Nat.not_lt.2 hlen), hreg, List.append_nil]

theorem grants_emitRegLi {regOp : Rv32.RegOp} {imm : ℤ} :
    s.Grants (emitRegLi regOp rd operands imm s) (rargAsks operands 1) :=
  (((Grants.refl s).write _).trans grants_rarg).write _

theorem grants_emitAddImm {imm : ℤ} :
    s.Grants (emitAddImm rd operands imm s) (rargAsks operands 1) := by
  unfold emitAddImm
  split_ifs
  · exact grants_emitRegLi
  · exact grants_rarg.write _

theorem grants_emitShiftImm {shiftOp : Rv32.ShiftOp} {imm : ℤ} :
    s.Grants (emitShiftImm shiftOp rd operands imm s) (rargAsks operands 1) :=
  grants_rarg.write _

theorem grants_emitMad :
    s.Grants (emitMad rd operands s) (intKindAsks .mad operands) :=
  .ite (fun _ => .refl s) fun _ =>
    (((grants_rarg.trans grants_rarg).write _).trans grants_rarg).write _

theorem grants_emitIntKind {kind : IntKind} {isSigned : Bool}
    (h : emitIntKind kind isSigned rd operands s = some s') :
    s.Grants s' (intKindAsks kind operands) := by
  unfold emitIntKind at h
  cases himm : immOperand operands with
  | none =>
    rw [himm] at h
    cases kind with
    | add | sub | mul | div | rem | shl | shr | and | or | xor =>
      obtain rfl := Option.some.inj h
      exact grants_emitRegReg
    | mad =>
      obtain rfl := Option.some.inj h
      exact grants_emitMad
    | not | neg =>
      obtain rfl := Option.some.inj h
      exact grants_rarg.write _
    | membar =>
      obtain rfl := Option.some.inj h
      exact (Grants.refl s).write _
  | some imm =>
    have hsource : ∀ {s'}, s.Grants s' (rargAsks operands 1) → s.Grants s' (sourceAsks operands) :=
      fun h => sourceAsks_of_imm himm ▸ h
    rw [himm] at h
    cases kind with
    | add =>
      obtain rfl := Option.some.inj h
      exact hsource grants_emitAddImm
    | sub =>
      obtain ⟨v, -, rfl⟩ := Option.map_eq_some_iff.1 h
      exact hsource grants_emitAddImm
    | mul =>
      dsimp only at h
      by_cases hpow : isPowerOfTwo imm = true
      · rw [if_pos hpow] at h
        obtain ⟨shift, -, rfl⟩ := Option.map_eq_some_iff.1 h
        exact hsource grants_emitShiftImm
      · rw [if_neg hpow] at h
        obtain rfl := Option.some.inj h
        exact hsource grants_emitRegLi
    | shl | shr =>
      obtain rfl := Option.some.inj h
      exact hsource grants_emitShiftImm
    | and | or | xor =>
      obtain rfl := Option.some.inj h
      exact hsource grants_emitRegLi
    | div | rem =>
      obtain rfl := Option.some.inj h
      exact grants_emitRegReg
    | mad =>
      obtain rfl := Option.some.inj h
      exact grants_emitMad
    | not | neg =>
      obtain rfl := Option.some.inj h
      exact grants_rarg.write _
    | membar =>
      obtain rfl := Option.some.inj h
      exact (Grants.refl s).write _

theorem grants_emitIntArith (h : emitIntArith instr s = some s') :
    s.Grants s' (intArithAsks instr) := by
  unfold emitIntArith at h
  unfold intArithAsks
  dsimp only at h
  by_cases hcount : instr.operands.length < 2
  · rw [if_pos hcount] at h ⊢
    obtain rfl := Option.some.inj h
    exact (Grants.refl s).write _
  rw [if_neg hcount] at h ⊢
  cases hkind : intKind instr.op with
  | none =>
    rw [hkind] at h
    obtain rfl := Option.some.inj h
    exact grants_reject (List.append_ne_nil_of_left_ne_nil (by decide) _)
  | some kind =>
    rw [hkind] at h
    exact grants_ireg.trans (grants_emitIntKind h)

theorem grants_emitArith (h : emitArith instr s = some s') : s.Grants s' (arithAsks instr) := by
  revert h
  unfold emitArith arithAsks
  dsimp only
  refine .dispatch (fun h => ?_) ?_
  · obtain rfl := Option.some.inj h
    exact grants_reject (List.append_ne_nil_of_left_ne_nil (by decide) _)
  · exact .dispatch grants_emitFloatArith grants_emitIntArith

theorem grants_emitInstr (hknown : ∀ a, s.Has a ↔ a ∈ known) (h : emitInstr instr s = some s') :
    s.Grants s' (asks known instr) := by
  revert h
  unfold emitInstr asks
  dsimp only
  refine .dispatch (fun h => Option.some.inj h ▸ grants_emitLdParam hknown) ?_
  refine .dispatch (fun h => Option.some.inj h ▸ grants_emitLdGlobal) ?_
  refine .dispatch (fun h => Option.some.inj h ▸ grants_emitStGlobal) ?_
  refine .dispatch (fun h => Option.some.inj h ▸ grants_emitStShared) ?_
  refine .dispatch (fun h => Option.some.inj h ▸ grants_emitLdShared) ?_
  refine .dispatch (fun h => Option.some.inj h ▸ grants_emitMov) ?_
  refine .dispatch (fun h => Option.some.inj h ▸ grants_emitCvt) ?_
  refine .dispatch grants_emitSetp ?_
  refine .dispatch (fun h => Option.some.inj h ▸ grants_emitBarSync) ?_
  refine .dispatch (fun h => Option.some.inj h ▸ grants_emitBra) ?_
  exact grants_emitArith

end Emission

end RiscvGpgpu.Ptx
