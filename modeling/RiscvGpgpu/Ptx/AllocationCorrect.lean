import RiscvGpgpu.Ptx.Allocation
import RiscvGpgpu.Ptx.ArithConformance
import Mathlib.Data.List.Dedup

/-!
# Registers over a whole kernel

Every name keeps its register through a kernel that is accepted, and a kernel that needs more
registers than there are is not accepted. Only an instruction without a defined emission comes
between such a kernel and its error.
-/

namespace RiscvGpgpu.Ptx

open RvEmitter

/-! ## Instructions with a defined emission -/

/-- The bound of a comparison with an immediate, or its negation, fits in 64 bits. -/
def immSetpDefined (op : List Char) (imm : ℤ) : Prop :=
  match intRelation op with
  | some .gt | some .le => imm ≠ 2 ^ 63 - 1
  | some .eq | some .ne => imm ≠ -2 ^ 63
  | _ => True

def setpDefined (instr : PtxInstr) : Prop :=
  let op := instr.op
  match instr.operands with
  | [dst, a, b] =>
    if dst.kind ≠ .reg ∨ a.kind ≠ .reg then True
    else if contains op ".f32".toList || contains op ".f64".toList then True
    else if b.kind = .intImm then immSetpDefined op b.intVal
    else True
  | _ => True

/-- The check of the number of operands is not skipped by an `fma` in the name of another
operation. -/
def floatArithDefined (instr : PtxInstr) : Prop :=
  ∀ op, floatKind instr.op = some (.binary op) → instr.operands.length < 3 →
    contains instr.op "fma".toList = false

/-- An immediate that is subtracted can be negated, and one for which the product is a shift is
reached by the loop. -/
def intKindDefined (kind : IntKind) (operands : List PtxOperand) : Prop :=
  match kind, immOperand operands with
  | .sub, some imm => imm ≠ -2 ^ 63
  | .mul, some imm => isPowerOfTwo imm = true → imm < 2 ^ 31
  | _, _ => True

def intArithDefined (instr : PtxInstr) : Prop :=
  ∀ kind, intKind instr.op = some kind → intKindDefined kind instr.operands

def arithDefined (instr : PtxInstr) : Prop :=
  let op := instr.op
  if instr.operands = [] then True
  else if contains op ".f32".toList || contains op ".f64".toList then floatArithDefined instr
  else intArithDefined instr

/-- `emitInstr` overflows no signed number for the instruction, shifts not too far and reads no
operand that is not there. -/
def Defined (instr : PtxInstr) : Prop :=
  let op := instr.op
  if startsWith op "ld.param".toList then True
  else if startsWith op "ld.global".toList then True
  else if startsWith op "st.global".toList then True
  else if startsWith op "st.shared".toList then True
  else if startsWith op "ld.shared".toList then True
  else if startsWith op "mov".toList then True
  else if startsWith op "cvta".toList || startsWith op "cvt".toList then True
  else if startsWith op "setp".toList then setpDefined instr
  else if op = "bar.sync".toList then True
  else if op = "bra".toList ∨ op = "ret".toList then True
  else arithDefined instr

section Definedness

variable {s : RvEmitter} {instr : PtxInstr} {operands : List PtxOperand} {op : List Char}
  {imm : ℤ} {r rd : Rv32.Reg}

theorem isSome_some_iff {e : RvEmitter} : (some e).isSome = true ↔ True := by simp

theorem isSome_dispatch {c p p' : Prop} [Decidable c] {e e' : Option RvEmitter}
    (h : e.isSome = true ↔ p) (h' : e'.isSome = true ↔ p') :
    (if c then e else e').isSome = true ↔ if c then p else p' := by
  split_ifs
  · exact h
  · exact h'

theorem isSome_unless {c : Prop} [Decidable c] {α : Type} {e : α} :
    (if c then none else some e).isSome = true ↔ ¬ c := by
  split_ifs with hc
  · simp [hc]
  · simp [hc]

theorem isSome_emitImmSetp :
    (emitImmSetp op imm rd r s).isSome = true ↔ immSetpDefined op imm := by
  unfold emitImmSetp immSetpDefined
  cases intRelation op with
  | none => exact isSome_some_iff
  | some rel =>
    cases rel with
    | lt | ge => exact isSome_some_iff
    | gt | le => exact isSome_unless
    | eq | ne =>
      dsimp only
      rw [Option.isSome_map]
      exact isSome_unless

theorem isSome_emitSetp : (emitSetp instr s).isSome = true ↔ setpDefined instr := by
  unfold emitSetp setpDefined
  rcases instr.operands with _ | ⟨dst, _ | ⟨a, _ | ⟨b, _ | ⟨_, _⟩⟩⟩⟩
  · exact isSome_some_iff
  · exact isSome_some_iff
  · exact isSome_some_iff
  · refine isSome_dispatch isSome_some_iff (isSome_dispatch isSome_some_iff ?_)
    exact isSome_dispatch isSome_emitImmSetp isSome_some_iff
  · exact isSome_some_iff

theorem isSome_emitFloatArith :
    (emitFloatArith instr s).isSome = true ↔ floatArithDefined instr := by
  unfold emitFloatArith floatArithDefined
  dsimp only
  by_cases hcount : instr.operands.length < 3 ∧ ¬ contains instr.op "fma".toList = true
  · rw [if_pos hcount]
    refine isSome_some_iff.trans (iff_of_true trivial fun _ _ _ => ?_)
    exact Bool.eq_false_iff.2 hcount.2
  rw [if_neg hcount]
  cases floatKind instr.op with
  | none => simp
  | some kind =>
    cases kind with
    | fma =>
      dsimp only
      split_ifs
      · simp
      · simp
    | binary binary =>
      dsimp only
      by_cases hsize : instr.operands.length < 3
      · have hfma : contains instr.op "fma".toList = true := by
          by_contra hfma
          exact hcount ⟨hsize, hfma⟩
        rw [if_pos hsize]
        refine iff_of_false Bool.false_ne_true fun h => ?_
        exact absurd hfma (Bool.eq_false_iff.1 (h binary rfl hsize))
      · rw [if_neg hsize]
        exact isSome_some_iff.trans (iff_of_true trivial fun _ _ h => absurd h hsize)
    | unary unary =>
      dsimp only
      split_ifs
      · simp
      · simp

theorem isSome_emitIntKind {kind : IntKind} {isSigned : Bool} :
    (emitIntKind kind isSigned rd operands s).isSome = true ↔ intKindDefined kind operands := by
  unfold emitIntKind intKindDefined
  cases immOperand operands with
  | none => cases kind <;> exact isSome_some_iff
  | some imm =>
    cases kind with
    | sub =>
      dsimp only
      rw [Option.isSome_map]
      exact isSome_unless
    | mul =>
      dsimp only
      by_cases hpow : isPowerOfTwo imm = true
      · rw [if_pos hpow, Option.isSome_map, mulShift_isSome_iff hpow]
        exact ⟨fun h _ => h, fun h => h hpow⟩
      · rw [if_neg hpow]
        exact isSome_some_iff.trans (iff_of_true trivial fun h => absurd h hpow)
    | add | mad | div | rem | shl | shr | and | or | xor | not | neg | membar =>
      exact isSome_some_iff

theorem immOperand_eq_none (h : operands.length < 2) : immOperand operands = none := by
  rw [immOperand, List.getElem?_eq_none (by omega)]

theorem isSome_emitIntArith : (emitIntArith instr s).isSome = true ↔ intArithDefined instr := by
  unfold emitIntArith intArithDefined
  dsimp only
  by_cases hcount : instr.operands.length < 2
  · rw [if_pos hcount]
    refine isSome_some_iff.trans (iff_of_true trivial fun kind _ => ?_)
    unfold intKindDefined
    rw [immOperand_eq_none hcount]
    cases kind <;> trivial
  rw [if_neg hcount]
  cases intKind instr.op with
  | none => simp
  | some kind =>
    dsimp only
    rw [isSome_emitIntKind]
    simp

theorem isSome_emitArith : (emitArith instr s).isSome = true ↔ arithDefined instr :=
  isSome_dispatch isSome_some_iff (isSome_dispatch isSome_emitFloatArith isSome_emitIntArith)

theorem isSome_emitInstr : (emitInstr instr s).isSome = true ↔ Defined instr := by
  unfold emitInstr Defined
  dsimp only
  refine isSome_dispatch isSome_some_iff (isSome_dispatch isSome_some_iff ?_)
  refine isSome_dispatch isSome_some_iff (isSome_dispatch isSome_some_iff ?_)
  refine isSome_dispatch isSome_some_iff (isSome_dispatch isSome_some_iff ?_)
  refine isSome_dispatch isSome_some_iff (isSome_dispatch isSome_emitSetp ?_)
  exact isSome_dispatch isSome_some_iff (isSome_dispatch isSome_some_iff isSome_emitArith)

end Definedness

/-! ## Runs of the loop -/

/-- The iteration of the loop over the body for one instruction. -/
def emitStep (instr : PtxInstr) (s : RvEmitter) : Option RvEmitter :=
  if instr.label ≠ [] then some (s.write (.label instr.label))
  else if instr.op = [] then some s
  else emitInstr instr s

/-- The iteration has a defined outcome. -/
def StepDefined (instr : PtxInstr) : Prop :=
  if instr.label ≠ [] then True else if instr.op = [] then True else Defined instr

def stepAsks (known : List Ask) (instr : PtxInstr) : List Ask :=
  if instr.label ≠ [] ∨ instr.op = [] then [] else asks known instr

section Runs

variable {s s' s₁ : RvEmitter} {instr : PtxInstr} {body post : List PtxInstr} {known : List Ask}

theorem isSome_emitStep : (emitStep instr s).isSome = true ↔ StepDefined instr :=
  isSome_dispatch isSome_some_iff (isSome_dispatch isSome_some_iff isSome_emitInstr)

theorem grants_emitStep (hknown : ∀ a, s.Has a ↔ a ∈ known) (h : emitStep instr s = some s') :
    s.Grants s' (stepAsks known instr) := by
  unfold emitStep at h
  unfold stepAsks
  by_cases hlabel : instr.label ≠ []
  · rw [if_pos hlabel] at h
    rw [if_pos (.inl hlabel)]
    obtain rfl := Option.some.inj h
    exact (Grants.refl s).write _
  rw [if_neg hlabel] at h
  by_cases hop : instr.op = []
  · rw [if_pos hop] at h
    rw [if_pos (.inr hop)]
    obtain rfl := Option.some.inj h
    exact .refl s
  rw [if_neg hop] at h
  rw [if_neg (not_or.2 ⟨hlabel, hop⟩)]
  exact grants_emitInstr hknown h

theorem bodyAsks_cons :
    bodyAsks (instr :: body) known = bodyAsks body (known ++ stepAsks known instr) := by
  rw [bodyAsks, stepAsks]
  split_ifs
  · rw [List.append_nil]
  · rfl

theorem emitBody_cons (herr : s.error = []) :
    emitBody (instr :: body) s =
      (emitStep instr s).bind fun s' => if s'.error = [] then emitBody body s' else some s' := by
  rw [emitBody, emitStep]
  split_ifs
  · exact (if_pos herr).symm
  · exact (if_pos herr).symm
  · cases emitInstr instr s with
    | none => rfl
    | some s' => rfl

/-- A run without an error goes on after its first instruction. -/
theorem emitBody_cons_eq_some (herr : s.error = []) (herr' : s'.error = []) :
    emitBody (instr :: body) s = some s' ↔
      ∃ s₁, emitStep instr s = some s₁ ∧ s₁.error = [] ∧ emitBody body s₁ = some s' := by
  rw [emitBody_cons herr, Option.bind_eq_some_iff]
  refine exists_congr fun s₁ => and_congr_right fun _ => ?_
  split_ifs with herr₁
  · exact (and_iff_right herr₁).symm
  · refine iff_of_false (fun h => herr₁ ?_) fun h => herr₁ h.1
    exact Option.some.inj h ▸ herr'

theorem emitBody_append (herr : s.error = []) (herr' : s'.error = [])
    (h : emitBody body s = some s') : emitBody (body ++ post) s = emitBody post s' := by
  induction body generalizing s with
  | nil =>
    obtain rfl := Option.some.inj h
    rfl
  | cons instr body ih =>
    obtain ⟨s₁, hstep, herr₁, hrest⟩ := (emitBody_cons_eq_some herr herr').1 h
    rw [List.cons_append, emitBody_cons herr, hstep, Option.bind_some, if_pos herr₁]
    exact ih herr₁ hrest

/-- A run without an error came through every prefix of the body. -/
theorem emitBody_split (herr : s.error = []) (herr' : s'.error = [])
    (h : emitBody (body ++ post) s = some s') :
    ∃ s₁, emitBody body s = some s₁ ∧ s₁.error = [] ∧ emitBody post s₁ = some s' := by
  induction body generalizing s with
  | nil => exact ⟨s, rfl, herr, h⟩
  | cons instr body ih =>
    obtain ⟨s₁, hstep, herr₁, hrest⟩ := (emitBody_cons_eq_some herr herr').1 h
    obtain ⟨s₂, hbody, herr₂, hpost⟩ := ih herr₁ hrest
    exact ⟨s₂, (emitBody_cons_eq_some herr herr₂).2 ⟨s₁, hstep, herr₁, hbody⟩, herr₂, hpost⟩

/-- The registers are those of the names asked for, and no name loses its own. -/
theorem takes_emitBody (herr : s.error = []) (herr' : s'.error = [])
    (hknown : ∀ a, s.Has a ↔ a ∈ known) (h : emitBody body s = some s') :
    s.Leads s' ∧ ∀ a, s'.Has a ↔ a ∈ bodyAsks body known := by
  induction body generalizing s known with
  | nil =>
    obtain rfl := Option.some.inj h
    exact ⟨.refl herr, hknown⟩
  | cons instr body ih =>
    obtain ⟨s₁, hstep, herr₁, hrest⟩ := (emitBody_cons_eq_some herr herr').1 h
    obtain ⟨hleads, hhas⟩ := grants_emitStep hknown hstep herr₁
    have hknown₁ : ∀ a, s₁.Has a ↔ a ∈ known ++ stepAsks known instr := by
      intro a
      rw [hhas, hknown, List.mem_append]
    obtain ⟨hleads', hhas'⟩ := ih herr₁ hknown₁ hrest
    rw [bodyAsks_cons]
    exact ⟨hleads.trans hleads', hhas'⟩

/-- A run is undefined at an instruction that it reaches. -/
theorem emitBody_eq_none (herr : s.error = []) (h : emitBody body s = none) :
    ∃ pre instr post s₁, body = pre ++ instr :: post ∧ emitBody pre s = some s₁ ∧ s₁.error = [] ∧
      ¬ StepDefined instr := by
  induction body generalizing s with
  | nil => exact absurd h (Option.some_ne_none s)
  | cons instr body ih =>
    rw [emitBody_cons herr] at h
    cases hstep : emitStep instr s with
    | none =>
      refine ⟨[], instr, body, s, rfl, rfl, herr, fun hdefined => ?_⟩
      rw [← isSome_emitStep (s := s), hstep] at hdefined
      exact absurd hdefined Bool.false_ne_true
    | some s₁ =>
      rw [hstep, Option.bind_some] at h
      by_cases herr₁ : s₁.error = []
      · rw [if_pos herr₁] at h
        obtain ⟨pre, instr', post, s₂, rfl, hpre, herr₂, hundefined⟩ := ih herr₁ h
        have hrun := (emitBody_cons_eq_some herr herr₂).2 ⟨s₁, hstep, herr₁, hpre⟩
        exact ⟨instr :: pre, instr', post, s₂, rfl, hrun, herr₂, hundefined⟩
      · rw [if_neg herr₁] at h
        exact absurd h (Option.some_ne_none s₁)

end Runs

/-! ## Kernels -/

/-- The emitter in front of the body. -/
def start (k : PtxKernel) : RvEmitter :=
  { ({} : RvEmitter).buildRegMaps k with out := header k.name }

/-- `emit` accepts the kernel up to the end of `body` and is in the state `s` there. -/
structure Reaches (k : PtxKernel) (body : List PtxInstr) (s : RvEmitter) : Prop where
  valid : validateKernel k = none
  run : emitBody body (start k) = some s
  no_error : s.error = []

/-- `x0`, `t6`, `ra`, `sp`, `gp`, `tp` and `a0` to `a7`. -/
def reservedRegs : List Rv32.Reg := [0, t6, 1, 2, gp, 4] ++ kParamRegs

/-- No two names share a register, and no name has a reserved one. -/
structure RegistersRight (s : RvEmitter) : Prop where
  int_injective : ∀ n n' r, s.iregMap.find n = some r → s.iregMap.find n' = some r → n = n'
  float_injective : ∀ n n' r, s.fregMap.find n = some r → s.fregMap.find n' = some r → n = n'
  unreserved : ∀ n r, s.iregMap.find n = some r → r ∉ reservedRegs

/-- After every prefix of the body, the registers are right, and they extend those after every
shorter prefix. -/
def RegistersKept (k : PtxKernel) : Prop :=
  ∀ body', body' <+: k.body → ∃ s', Reaches k body' s' ∧ RegistersRight s' ∧
    ∀ body, body <+: body' → ∃ s, Reaches k body s ∧ s.iregMap.Extends s'.iregMap ∧
      s.fregMap.Extends s'.fregMap

def Ask.intName? : Ask → Option (List Char)
  | .int name => some name
  | .float _ => none

def Ask.floatName? : Ask → Option (List Char)
  | .int _ => none
  | .float name => some name

/-- The names of the integer registers that a kernel needs. -/
def intNames (k : PtxKernel) : List (List Char) :=
  ((bodyAsks k.body []).filterMap Ask.intName?).dedup

/-- The names of the float registers that a kernel needs. -/
def floatNames (k : PtxKernel) : List (List Char) :=
  ((bodyAsks k.body []).filterMap Ask.floatName?).dedup

/-- The kernel needs more registers of a class than the pool holds. -/
def NeedsMore (k : PtxKernel) : Prop :=
  kIRegs.length < (intNames k).length ∨ kFRegs.length < (floatNames k).length

/-- In every state that `emit` reaches, the next instruction has a defined emission. -/
def EmissionDefined (k : PtxKernel) : Prop :=
  ∀ pre instr post s, k.body = pre ++ instr :: post → Reaches k pre s → StepDefined instr

/-- A kernel that is accepted keeps its registers, and one that needs too many is an error. -/
structure AllocationCorrect (k : PtxKernel) : Prop where
  kept : ∀ lines, emit k = some (.text lines) → RegistersKept k
  fails : NeedsMore k → ∃ lastError, lastError ≠ [] ∧ emit k = some (.failed lastError)

section Kernels

variable {k : PtxKernel} {s : RvEmitter} {body post : List PtxInstr} {lines : List Asm.Line}

theorem allocated_start (k : PtxKernel) : (start k).Allocated :=
  ⟨Pool.Map.allocated_empty _, Pool.Map.allocated_empty _⟩

theorem has_start (k : PtxKernel) (a : Ask) : (start k).Has a ↔ a ∈ [] := by
  cases a with
  | int name => exact hasInt_iff.trans (by simp [start, buildRegMaps, Pool.Map.find])
  | float name => exact hasFloat_iff.trans (by simp [start, buildRegMaps, Pool.Map.find])

theorem unreserved_of_mem_kIRegs : ∀ r ∈ kIRegs, r ∉ reservedRegs := by decide

theorem registersRight_of_allocated (h : s.Allocated) : RegistersRight s where
  int_injective _ _ _ hn hn' := h.ireg.injective kIRegs_nodup hn hn'
  float_injective _ _ _ hn hn' := h.freg.injective kFRegs_nodup hn hn'
  unreserved _ _ hn := unreserved_of_mem_kIRegs _ (h.ireg.mem hn)

theorem Reaches.takes (h : Reaches k body s) :
    (start k).Leads s ∧ ∀ a, s.Has a ↔ a ∈ bodyAsks body [] :=
  takes_emitBody rfl h.no_error (has_start k) h.run

theorem Reaches.allocated (h : Reaches k body s) : s.Allocated :=
  h.takes.1.allocated (allocated_start k)

theorem Reaches.shorten (h : Reaches k (body ++ post) s) :
    ∃ s₁, Reaches k body s₁ ∧ s₁.Leads s := by
  obtain ⟨s₁, hbody, herr₁, hpost⟩ := emitBody_split rfl h.no_error h.run
  have hreaches : Reaches k body s₁ := ⟨h.valid, hbody, herr₁⟩
  exact ⟨s₁, hreaches, (takes_emitBody herr₁ h.no_error hreaches.takes.2 hpost).1⟩

theorem Reaches.registersKept (h : Reaches k k.body s) : RegistersKept k := by
  rintro body' ⟨post', hbody'⟩
  rw [← hbody'] at h
  obtain ⟨s', hreaches', -⟩ := h.shorten
  refine ⟨s', hreaches', registersRight_of_allocated hreaches'.allocated, ?_⟩
  rintro body ⟨post, rfl⟩
  obtain ⟨s₁, hreaches, hleads⟩ := hreaches'.shorten
  exact ⟨s₁, hreaches, hleads.ireg, hleads.freg⟩

/-- A kernel that is accepted needs no more registers than there are. -/
theorem Reaches.not_needsMore (h : Reaches k k.body s) : ¬ NeedsMore k := by
  have hint : (intNames k).length ≤ kIRegs.length := by
    refine h.allocated.ireg.length_le (List.nodup_dedup _) fun n hn => ?_
    obtain ⟨a, ha, hname⟩ := List.mem_filterMap.1 (List.mem_dedup.1 hn)
    have hhas := (h.takes.2 a).2 ha
    cases a with
    | int name => exact Option.some.inj hname ▸ hasInt_iff.1 hhas
    | float name => exact absurd hname (Option.some_ne_none n).symm
  have hfloat : (floatNames k).length ≤ kFRegs.length := by
    refine h.allocated.freg.length_le (List.nodup_dedup _) fun n hn => ?_
    obtain ⟨a, ha, hname⟩ := List.mem_filterMap.1 (List.mem_dedup.1 hn)
    have hhas := (h.takes.2 a).2 ha
    cases a with
    | int name => exact absurd hname (Option.some_ne_none n).symm
    | float name => exact Option.some.inj hname ▸ hasFloat_iff.1 hhas
  rintro (hmore | hmore)
  · exact absurd hmore (Nat.not_lt.2 hint)
  · exact absurd hmore (Nat.not_lt.2 hfloat)

theorem validateInstruction_ne_nil {instr : PtxInstr} {message : List Char}
    (h : validateInstruction instr = some message) : message ≠ [] := by
  unfold validateInstruction at h
  dsimp only at h
  split_ifs at h <;> obtain rfl := Option.some.inj h
  · exact List.append_ne_nil_of_left_ne_nil (by decide) _
  · exact List.append_ne_nil_of_left_ne_nil (by decide) _
  · exact List.append_ne_nil_of_left_ne_nil (by decide) _

theorem validateKernel_ne_nil {message : List Char} (h : validateKernel k = some message) :
    message ≠ [] := by
  unfold validateKernel at h
  split_ifs at h
  · obtain rfl := Option.some.inj h
    decide
  · obtain ⟨instr, -, hinstr⟩ := List.exists_of_findSome?_eq_some h
    exact validateInstruction_ne_nil hinstr

theorem emit_of_valid (h : validateKernel k = none) :
    emit k = (emitBody k.body (start k)).map fun s =>
      if s.error = [] then
        .text (s.out ++ [.directive (".size ".toList ++ k.name ++ ", . - ".toList ++ k.name)])
      else .failed s.error := by
  rw [emit, h]
  rfl

theorem reaches_of_emit (h : emit k = some (.text lines)) : ∃ s, Reaches k k.body s := by
  cases hvalid : validateKernel k with
  | some message =>
    rw [emit, hvalid] at h
    exact absurd (Option.some.inj h) Emitted.noConfusion
  | none =>
    rw [emit_of_valid hvalid] at h
    obtain ⟨s, hrun, htext⟩ := Option.map_eq_some_iff.1 h
    split_ifs at htext with herr
    exact ⟨s, hvalid, hrun, herr⟩

/-- A kernel with a defined emission is accepted or fails with a message. -/
theorem exists_failed (h : EmissionDefined k) (hnot : ∀ s, ¬ Reaches k k.body s) :
    ∃ lastError, lastError ≠ [] ∧ emit k = some (.failed lastError) := by
  cases hvalid : validateKernel k with
  | some message =>
    refine ⟨message, validateKernel_ne_nil hvalid, ?_⟩
    rw [emit, hvalid]
  | none =>
    cases hrun : emitBody k.body (start k) with
    | none =>
      obtain ⟨pre, instr, post, s, hbody, hpre, herr, hundefined⟩ := emitBody_eq_none rfl hrun
      exact absurd (h pre instr post s hbody ⟨hvalid, hpre, herr⟩) hundefined
    | some s =>
      have herr : s.error ≠ [] := fun herr => hnot s ⟨hvalid, hrun, herr⟩
      refine ⟨s.error, herr, ?_⟩
      rw [emit_of_valid hvalid, hrun, Option.map_some, if_neg herr]

/-- A kernel with an outcome has a defined emission. -/
theorem emissionDefined_of_emit {e : Emitted} (h : emit k = some e) : EmissionDefined k := by
  intro pre instr post s hbody hreaches
  rw [emit_of_valid hreaches.valid, hbody, emitBody_append rfl hreaches.no_error hreaches.run,
    emitBody_cons hreaches.no_error] at h
  rw [← isSome_emitStep (s := s)]
  cases hstep : emitStep instr s with
  | some s' => rfl
  | none =>
    rw [hstep] at h
    exact absurd h (Option.some_ne_none e).symm

/-- The allocation is right unless a kernel that needs too many registers comes to an instruction
without a defined emission. -/
theorem allocationCorrect_iff (k : PtxKernel) :
    AllocationCorrect k ↔ (NeedsMore k → EmissionDefined k) := by
  constructor
  · intro h hmore
    obtain ⟨lastError, -, hemit⟩ := h.fails hmore
    exact emissionDefined_of_emit hemit
  · intro h
    constructor
    · intro lines hemit
      obtain ⟨s, hreaches⟩ := reaches_of_emit hemit
      exact hreaches.registersKept
    · intro hmore
      exact exists_failed (h hmore) fun s hreaches => hreaches.not_needsMore hmore

end Kernels

/-- `%rN` as an operand. -/
def numbered (n : ℕ) : PtxOperand := { kind := .reg, name := 'r' :: Text.decimal n }

/-- Nine moves between eighteen registers, and a product with `2 ^ 31` into one more. -/
def crowded : PtxKernel where
  name := "crowded".toList
  body := ((List.range 9).map fun n =>
      { op := "mov.u32".toList, operands := [numbered (2 * n), numbered (2 * n + 1)] }) ++
    [{ op := "mul.lo.u32".toList
       operands := [numbered 18, numbered 0, { kind := .intImm, intVal := 2 ^ 31 }] }]

theorem needsMore_crowded : NeedsMore crowded := .inl (by decide +kernel)

theorem emit_crowded : emit crowded = none := by decide +kernel

/-- The error is set for the nineteenth register, and the loop for the shift does not end. -/
theorem not_allocationCorrect : ¬ ∀ k, AllocationCorrect k := by
  intro h
  obtain ⟨lastError, -, hemit⟩ := (h crowded).fails needsMore_crowded
  rw [emit_crowded] at hemit
  exact absurd hemit (Option.some_ne_none _).symm

end RiscvGpgpu.Ptx
