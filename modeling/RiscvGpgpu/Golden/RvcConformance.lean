import RiscvGpgpu.Golden.RvcExpansion
import RiscvGpgpu.Golden.Rv32Conformance

/-!
# One step of a compute unit on a compressed instruction

`ComputeUnit::step` with a legal RV32C instruction at its program counter, against the base
instruction that the specification assigns to it, executed with a successor two bytes away over the
unit's own loads and stores. A format that `expandRVC` leaves out is executed as a no-op.
-/

namespace RiscvGpgpu.Golden

open MemoryHierarchy
open Rv32 (Core execOver encode)
open Rv32.Rvc (expand decode)

/-! ## The specification over the unit's memory -/

/-- The loads and stores of the threads of a block; they extend an address by its sign. -/
def dataMemory (blockId : BlockId) : Rv32.DataMemory MemoryHierarchy where
  load op ea h := loadValue h blockId (ea.signExtend 64) (loadOp op)
  store op ea v h := storeValue h blockId (ea.signExtend 64) (storeOp op) v

def core (cu : BinaryUnit) (h : MemoryHierarchy) : Core MemoryHierarchy := ⟨cu.regs, cu.pc, h⟩

/-- The halfword at the program counter. -/
def BinaryUnit.halfword (cu : BinaryUnit) (h : MemoryHierarchy) : BitVec 16 :=
  let bytes := h.readBytes (cu.pc.setWidth 64) 2 cu.blockId
  bytes.getD 1 0 ++ bytes.getD 0 0

/-- What the base instruction makes of the state, with the successor at `next`. -/
def effect (cu : BinaryUnit) (h : MemoryHierarchy) (next : Word) (i : Rv32.Instr) :
    Core MemoryHierarchy :=
  execOver (dataMemory cu.blockId) next (core cu h) i

/-- The base instruction ends the thread. -/
def ends (cu : BinaryUnit) (i : Rv32.Instr) : Bool := halts cu (arch cu fun _ => 0) i

/-- The unit and the memory behind a step are what the compressed instruction makes of them. -/
structure Performs (cu cu' : BinaryUnit) (h h' : MemoryHierarchy) (c : Rv32.Rvc.Instr) : Prop where
  regs : cu'.regs = (effect cu h (cu.pc + 2) (expand c)).regs
  pc : cu'.pc = (effect cu h (cu.pc + 2) (expand c)).pc
  memory : h' = (effect cu h (cu.pc + 2) (expand c)).mem
  halted : cu'.halted = ends cu (expand c)
  fregs : cu'.fregs = cu.fregs
  blocked : cu'.blocked = false
  identity : cu'.blockId = cu.blockId ∧ cu'.returnSentinel = cu.returnSentinel ∧
    cu'.maxCycles = cu.maxCycles

/-- The step of the unit does what the compressed instruction does. -/
def Faithful (F : HostFloat) (cu : BinaryUnit) (h : MemoryHierarchy) (c : Rv32.Rvc.Instr) : Prop :=
  ∃ cu' h', cu.step F h = some (cu', h') ∧ Performs cu cu' h h' c

/-! ## The condition -/

/-- The four bytes that the unit fetches bring the halfword; at the end of the shared window they
are zeros. -/
def Fetched (cu : BinaryUnit) (h : MemoryHierarchy) : Prop :=
  (cu.fetch h).setWidth 16 = cu.halfword h

/-- No immediate loses a bit: those of `C.ADDI` and `C.LI` are not negative. -/
def RightImmediate : Rv32.Rvc.Instr → Prop
  | .addi _ imm | .li _ imm => imm.msb = false
  | _ => True

/-- The unit computes the instruction without undefined behaviour. -/
def Defined (cu : BinaryUnit) : Rv32.Instr → Prop
  | .reg op _ rs1 rs2 => ¬ Overflows op (cu.regs rs1) (cu.regs rs2)
  | .load _ _ rs1 imm | .store _ rs1 _ imm => SumFits (cu.regs rs1) imm
  | _ => True

/-- The instruction does nothing to this state but move on. -/
def Idle (cu : BinaryUnit) (h : MemoryHierarchy) (c : Rv32.Rvc.Instr) : Prop :=
  effect cu h (cu.pc + 2) (expand c) = ⟨cu.regs, cu.pc + 2, h⟩ ∧ ends cu (expand c) = false

/-- The instruction is expanded with its own immediate, or has nothing to do. -/
def CompressedMeets (cu : BinaryUnit) (h : MemoryHierarchy) (c : Rv32.Rvc.Instr) : Prop :=
  (Fetched cu h ∧ Expands c) ∧ RightImmediate c ∧ Defined cu (expand c) ∨
    ¬ (Fetched cu h ∧ Expands c) ∧ Idle cu h c

/-! ## Executing a base instruction -/

/-- The result of a base instruction. -/
def resultOf (cu : BinaryUnit) (h : MemoryHierarchy) (next : Word) (i : Rv32.Instr) : ExecResult :=
  let s := effect cu h next i
  ⟨s.pc, s.regs, cu.fregs, s.mem, ends cu i⟩

section Execute

variable (F : HostFloat) {cu : BinaryUnit} {h : MemoryHierarchy}

theorem execute_eq (hx0 : cu.regs 0 = 0) (next : Word) {d : RV32Instr} {i : Rv32.Instr}
    (hd : Decodes d i) :
    (Defined cu i → executeRV32 F d cu.pc next cu.regs cu.fregs cu.returnSentinel h cu.blockId =
        some (resultOf cu h next i)) ∧
      (¬ Defined cu i →
        executeRV32 F d cu.pc next cu.regs cu.fregs cu.returnSentinel h cu.blockId = none) := by
  have hz : (arch cu fun _ => 0).regs 0 = 0 := hx0
  cases i with
  | reg op rd rs1 rs2 =>
    have hexec : executeRV32 F d cu.pc next cu.regs cu.fregs cu.returnSentinel h cu.blockId = _ :=
      execute_reg hz hd
    exact ⟨fun hdef => hexec.trans (if_neg hdef), fun hdef => hexec.trans (if_pos (not_not.1 hdef))⟩
  | imm op rd rs1 imm => exact ⟨fun _ => execute_imm hz hd, fun hdef => absurd trivial hdef⟩
  | shift op rd rs1 shamt => exact ⟨fun _ => execute_shift hz hd, fun hdef => absurd trivial hdef⟩
  | load op rd rs1 imm =>
    have hexec : executeRV32 F d cu.pc next cu.regs cu.fregs cu.returnSentinel h cu.blockId = _ :=
      execute_load hz hd
    exact ⟨fun hdef => hexec.trans (if_pos hdef), fun hdef => hexec.trans (if_neg hdef)⟩
  | store op rs1 rs2 imm =>
    have hexec : executeRV32 F d cu.pc next cu.regs cu.fregs cu.returnSentinel h cu.blockId = _ :=
      execute_store hz hd
    exact ⟨fun hdef => hexec.trans (if_pos hdef), fun hdef => hexec.trans (if_neg hdef)⟩
  | branch op rs1 rs2 imm => exact ⟨fun _ => execute_branch hz hd, fun hdef => absurd trivial hdef⟩
  | lui rd imm => exact ⟨fun _ => execute_lui hz hd, fun hdef => absurd trivial hdef⟩
  | auipc rd imm => exact ⟨fun _ => execute_auipc hz hd, fun hdef => absurd trivial hdef⟩
  | jal rd imm => exact ⟨fun _ => execute_jal hz hd, fun hdef => absurd trivial hdef⟩
  | jalr rd rs1 imm => exact ⟨fun _ => execute_jalr hz hd, fun hdef => absurd trivial hdef⟩
  | fence rd rs1 imm =>
    have hop : d.op = .fence := hd
    refine ⟨fun _ => ?_, fun hdef => absurd trivial hdef⟩
    refine (execute_quiet (s := arch cu fun _ => 0) hz (.inl hop)).trans ?_
    rw [hop]
    rfl
  | ecall =>
    have hop : d.op = .ecall := hd
    refine ⟨fun _ => ?_, fun hdef => absurd trivial hdef⟩
    refine (execute_quiet (s := arch cu fun _ => 0) hz (.inr (.inl hop))).trans ?_
    rw [hop]
    rfl
  | ebreak =>
    have hop : d.op = .ebreak := hd
    refine ⟨fun _ => ?_, fun hdef => absurd trivial hdef⟩
    refine (execute_quiet (s := arch cu fun _ => 0) hz (.inr (.inr hop))).trans ?_
    rw [hop]
    rfl

/-- A word with other than two set low bits is taken as a compressed instruction. -/
theorem step_of_halfword (hrun : Running cu) (hlow : cu.fetch h &&& 3 ≠ 3) {d : RV32Instr}
    (hd : (if expandRVC ((cu.fetch h).setWidth 16) ≠ 0 then
      decodeRV32 (expandRVC ((cu.fetch h).setWidth 16)) else {}) = d) (hop : d.op ≠ .barSync) :
    cu.step F h = (executeRV32 F d cu.pc (cu.pc + 2) cu.regs cu.fregs cu.returnSentinel h
      cu.blockId).map fun r => (behind cu r, r.mem) := by
  have hdec : BinaryUnit.decode (cu.fetch h) = (d, 2) := by
    rw [BinaryUnit.decode, if_pos hlow, ← hd]
  unfold BinaryUnit.step
  rw [if_neg (by rw [hrun.halted, hrun.blocked]; decide),
    if_neg (by rw [hrun.timedOut]; decide), hdec]
  dsimp only
  rw [if_neg hop]
  rfl

/-- The step of a unit that has nothing to do. -/
def idleResult (cu : BinaryUnit) (h : MemoryHierarchy) : ExecResult :=
  ⟨cu.pc + 2, cu.regs, cu.fregs, h, false⟩

/-- A halfword that expands to nothing, or to a no-op, does nothing. -/
theorem step_idle (hrun : Running cu) (hx0 : cu.regs 0 = 0) (hlow : cu.fetch h &&& 3 ≠ 3)
    (hword : expandRVC ((cu.fetch h).setWidth 16) = 0 ∨
      expandRVC ((cu.fetch h).setWidth 16) = 0x13) :
    cu.step F h = some (behind cu (idleResult cu h), h) := by
  rcases hword with hword | hword
  · rw [step_of_halfword F hrun hlow (d := {}) (by rw [hword, if_neg (not_not.2 rfl)]) (by decide)]
    unfold executeRV32
    simp only [update_zero hx0]
    rfl
  · have hnop : encode (.imm .addi 0 0 0) = 0x13 := by decide
    have hd := decodeRV32_encode (.imm .addi 0 0 0)
    rw [hnop] at hd
    rw [step_of_halfword F hrun hlow (d := decodeRV32 0x13) (by rw [hword, if_pos (by decide)])
      hd.ne_barSync, (execute_eq F hx0 (cu.pc + 2) hd).1 trivial]
    rfl

end Execute

/-! ## Fetching -/

section Fetch

variable (cu : BinaryUnit) (h : MemoryHierarchy)

/-- Two ranges of shared memory from one address on begin alike. -/
theorem sharedRange_shorter {blockId : BlockId} {addr : Address} {m n : ℕ} (hmn : m ≤ n)
    {bytes : List Byte} (hn : h.sharedRange blockId addr n = some bytes) :
    h.sharedRange blockId addr m = some (bytes.take m) := by
  unfold sharedRange at hn ⊢
  cases hblock : h.sharedMemory blockId with
  | none =>
    rw [hblock] at hn
    exact absurd hn (by simp)
  | some all =>
    rw [hblock] at hn
    dsimp only at hn ⊢
    split_ifs at hn with hle
    obtain rfl := Option.some.inj hn
    rw [if_pos (by omega), List.take_take, min_eq_left hmn]

/-- The bytes of a fetch are zeros, or begin with those of the halfword. -/
theorem readBytes_four (pc : Word) (blockId : BlockId) :
    h.readBytes (pc.setWidth 64) 4 blockId = List.replicate 4 0 ∨
      ∀ k < 2, (h.readBytes (pc.setWidth 64) 4 blockId).getD k 0 =
        (h.readBytes (pc.setWidth 64) 2 blockId).getD k 0 := by
  have hadd : ∀ n < 8, (pc.setWidth 64 + BitVec.ofNat 64 n).toNat = pc.toNat + n := by
    intro n hn
    have := pc.isLt
    rw [BitVec.toNat_add, toNat_zeroExtend, BitVec.toNat_ofNat]
    omega
  unfold readBytes
  by_cases hs : h.isSharedMemoryAddress (pc.setWidth 64)
  · rw [if_pos hs, if_pos hs, hadd 4 (by decide), hadd 2 (by decide)]
    by_cases hend : sharedMemBase + h.sharedMemSize.toNat < pc.toNat + 4
    · rw [if_pos hend]
      exact .inl rfl
    · rw [if_neg hend, if_neg (by omega)]
      cases hr : h.sharedRange blockId (pc.setWidth 64) 4 with
      | none => exact .inl rfl
      | some bytes =>
        rw [sharedRange_shorter h (by decide) hr]
        refine .inr fun k hk => ?_
        rw [Option.getD_some, Option.getD_some, List.getD_eq_getElem?_getD,
          List.getD_eq_getElem?_getD, List.getElem?_take, if_pos hk]
  · rw [if_neg hs, if_neg hs]
    refine .inr fun k hk => ?_
    rw [List.getD_eq_getElem?_getD, List.getD_eq_getElem?_getD, List.getElem?_map,
      List.getElem?_map, List.getElem?_range (by omega), List.getElem?_range hk]

/-- The word a unit fetches begins with the halfword at its program counter, or is zero. -/
theorem fetched_or_zero : Fetched cu h ∨ cu.fetch h = 0 := by
  have hlow : ∀ b₀ b₁ b₂ b₃ : Byte, (wordOfBytes b₀ b₁ b₂ b₃).setWidth 16 = b₁ ++ b₀ := by
    intro b₀ b₁ b₂ b₃
    rw [wordOfBytes_eq_append]
    refine BitVec.eq_of_getLsbD_eq fun i hi => ?_
    simp only [BitVec.getLsbD_setWidth, BitVec.getLsbD_append, hi, decide_true, Bool.true_and]
    by_cases h8 : i < 8
    · simp [h8]
    · simp [h8, show i - 8 < 8 by omega]
  unfold Fetched BinaryUnit.fetch BinaryUnit.halfword
  rcases readBytes_four h cu.pc cu.blockId with hzero | hk
  · rw [hzero]
    exact .inr rfl
  · rw [hlow, hk 0 (by decide), hk 1 (by decide)]
    exact .inl rfl

/-- The unit takes a legal compressed instruction as one. -/
theorem fetch_low_bits {c : Rv32.Rvc.Instr} (hw : decode (cu.halfword h) = some c) :
    cu.fetch h &&& 3 ≠ 3 := by
  rcases fetched_or_zero cu h with hf | hz
  · intro hthree
    have hop : Rv32.Rvc.op (cu.halfword h) = 3 := by
      rw [← hf]
      refine BitVec.eq_of_getLsbD_eq fun i hi => ?_
      have hbit := congrArg (BitVec.getLsbD · i) hthree
      simp only [BitVec.getLsbD_and] at hbit
      rw [Rv32.Rvc.op, BitVec.getLsbD_extractLsb', BitVec.getLsbD_setWidth, Nat.zero_add]
      interval_cases i <;> simpa using hbit
    unfold decode at hw
    rw [hop] at hw
    exact absurd hw (by simp)
  · rw [hz]
    decide

end Fetch

/-! ## Faithfulness -/

theorem rightImmediate_iff (imm : BitVec 6) :
    (takenImm imm).signExtend 32 = (imm.signExtend 12).signExtend 32 ↔ imm.msb = false := by
  revert imm
  decide

section Faithful

variable (F : HostFloat) {cu : BinaryUnit} {h : MemoryHierarchy} {c : Rv32.Rvc.Instr}

theorem faithful_some {r : ExecResult} (hrun : Running cu)
    (hstep : cu.step F h = some (behind cu r, r.mem)) : Faithful F cu h c ↔
      r.regs = (effect cu h (cu.pc + 2) (expand c)).regs ∧
      r.nextPc = (effect cu h (cu.pc + 2) (expand c)).pc ∧
      r.mem = (effect cu h (cu.pc + 2) (expand c)).mem ∧
      r.halt = ends cu (expand c) ∧ r.fregs = cu.fregs := by
  constructor
  · rintro ⟨cu', h', hs, hp⟩
    obtain ⟨rfl, rfl⟩ := Prod.mk.inj (Option.some.inj (hstep.symm.trans hs))
    exact ⟨hp.regs, hp.pc, hp.memory, hp.halted, hp.fregs⟩
  · rintro ⟨hregs, hpc, hmem, hhalt, hfregs⟩
    exact ⟨_, _, hstep, hregs, hpc, hmem, hhalt, hfregs, hrun.blocked, rfl, rfl, rfl⟩

theorem faithful_none (hstep : cu.step F h = none) : ¬ Faithful F cu h c := by
  rintro ⟨cu', h', hs, -⟩
  exact absurd (hstep.symm.trans hs) (by simp)

/-- A unit that does nothing is faithful to an instruction that has nothing to do. -/
theorem faithful_idle (hrun : Running cu)
    (hstep : cu.step F h = some (behind cu (idleResult cu h), h)) :
    Faithful F cu h c ↔ Idle cu h c := by
  rw [faithful_some F hrun (r := idleResult cu h) hstep]
  constructor
  · rintro ⟨hregs, hpc, hmem, hhalt, -⟩
    exact ⟨Core.ext hregs.symm hpc.symm hmem.symm, hhalt.symm⟩
  · rintro ⟨heff, hends⟩
    rw [heff]
    exact ⟨rfl, rfl, rfl, hends.symm, rfl⟩

/-- What is written to a register other than 0 tells. -/
theorem write_inj {s : Core MemoryHierarchy} {rd : Reg} (hrd : rd ≠ 0) {v v' : Word} :
    s.write rd v = s.write rd v' ↔ v = v' := by
  unfold Core.write
  rw [if_neg hrd, if_neg hrd]
  constructor
  · intro heq
    have hat := congrFun heq rd
    rwa [Function.update_self, Function.update_self] at hat
  · rintro rfl
    rfl

/-- A unit that executes what it has made of the instruction is faithful where the immediate is
right. -/
theorem faithful_taken (hrun : Running cu) (he : Expands c)
    (hstep : cu.step F h = some (behind cu (resultOf cu h (cu.pc + 2) (taken c)),
      (resultOf cu h (cu.pc + 2) (taken c)).mem)) : Faithful F cu h c ↔ RightImmediate c := by
  have himm : ∀ {rd rs1 : Reg} {imm : BitVec 6}, rd ≠ 0 →
      ((core cu h).write rd (cu.regs rs1 + (takenImm imm).signExtend 32) =
        (core cu h).write rd (cu.regs rs1 + (imm.signExtend 12).signExtend 32) ↔
      imm.msb = false) := by
    intro rd rs1 imm hrd
    rw [write_inj hrd, add_right_inj, rightImmediate_iff]
  rw [faithful_some F hrun hstep]
  cases c with
  | addi rd imm =>
    constructor
    · rintro ⟨hregs, -⟩
      exact (himm he).1 hregs
    · intro hmsb
      exact ⟨(himm he).2 hmsb, rfl, rfl, rfl, rfl⟩
  | li rd imm =>
    constructor
    · rintro ⟨hregs, -⟩
      exact (himm he).1 hregs
    · intro hmsb
      exact ⟨(himm he).2 hmsb, rfl, rfl, rfl, rfl⟩
  | _ => exact iff_of_true ⟨rfl, rfl, rfl, rfl, rfl⟩ trivial

/-- The immediate makes no difference to whether an instruction is defined. -/
theorem defined_taken : Defined cu (taken c) ↔ Defined cu (expand c) := by
  cases c <;> exact Iff.rfl

/-- **RV32C conformance.** A unit with a legal compressed instruction at its program counter
executes the base instruction that the instruction stands for exactly when it expands it with the
right immediate, or when there is nothing to do. -/
theorem faithful_iff (hrun : Running cu) (hx0 : cu.regs 0 = 0)
    (hw : decode (cu.halfword h) = some c) : Faithful F cu h c ↔ CompressedMeets cu h c := by
  have hlow := fetch_low_bits cu h hw
  have hexp := expandRVC_eq hw
  unfold CompressedMeets
  by_cases hboth : Fetched cu h ∧ Expands c
  · obtain ⟨hf, he⟩ := id hboth
    rw [or_iff_left fun hor => hor.1 hboth, and_iff_right hboth]
    have hword : expandRVC ((cu.fetch h).setWidth 16) = encode (taken c) := by
      rw [show (cu.fetch h).setWidth 16 = _ from hf]
      exact hexp.elim And.right fun hor => absurd he hor.1
    have hd := decodeRV32_encode (taken c)
    have hne : encode (taken c) ≠ 0 := by
      intro hzero
      have hthree := encode_low_bits (taken c)
      rw [hzero] at hthree
      exact absurd hthree (by decide)
    have hstep := step_of_halfword F hrun hlow (d := decodeRV32 (encode (taken c)))
      (by rw [hword, if_pos hne]) hd.ne_barSync
    have hexec := execute_eq F (h := h) hx0 (cu.pc + 2) hd
    rw [← defined_taken]
    by_cases hdef : Defined cu (taken c)
    · rw [hexec.1 hdef] at hstep
      rw [and_iff_left hdef]
      exact faithful_taken F hrun he hstep
    · rw [hexec.2 hdef] at hstep
      exact iff_of_false (faithful_none F hstep) fun hand => hdef hand.2
  · rw [or_iff_right fun hor => hboth hor.1, and_iff_right hboth]
    refine faithful_idle F hrun (step_idle F hrun hx0 hlow ?_)
    rcases fetched_or_zero cu h with hf | hz
    · rw [show (cu.fetch h).setWidth 16 = _ from hf]
      exact hexp.elim (fun hand => absurd ⟨hf, hand.1⟩ hboth) And.right
    · rw [hz]
      exact .inl (by decide)

end Faithful

section Examples

/-- A unit at `0x10000` in an empty memory with a halfword there. -/
def halfwordAt (lo hi : Byte) : MemoryHierarchy :=
  ofBytes 0x4000 (Rv32.Mem.write (fun _ => 0) 0x10000 [lo, hi])

/-- `c.addi x8, 5`. -/
theorem faithful_iff_addi :
    Faithful zeroFloat (unitAt 0) (halfwordAt 0x15 0x04) (.addi 8 5) :=
  (faithful_iff zeroFloat ⟨rfl, rfl, rfl⟩ rfl (by decide +kernel)).2
    (.inl ⟨⟨by unfold Fetched; decide +kernel, by decide⟩, rfl, trivial⟩)

/-- `c.addi x8, -1` takes 33 off. -/
theorem not_faithful : ¬ ∀ (F : HostFloat) (cu : BinaryUnit) (h : MemoryHierarchy)
    (c : Rv32.Rvc.Instr), Running cu → cu.regs 0 = 0 → decode (cu.halfword h) = some c →
    Faithful F cu h c := by
  intro hall
  obtain ⟨cu', h', hs, hp⟩ := hall zeroFloat (unitAt 0) (halfwordAt 0x7D 0x14) (.addi 8 (-1))
    ⟨rfl, rfl, rfl⟩ rfl (by decide +kernel)
  have hreg : ((unitAt 0).step zeroFloat (halfwordAt 0x7D 0x14)).map (fun p => p.1.regs 8) =
      some (-33) := by
    decide +kernel
  rw [hs] at hreg
  have hspec : (effect (unitAt 0) (halfwordAt 0x7D 0x14) 0x10002 (expand (.addi 8 (-1)))).regs 8 =
      -1 := by
    decide +kernel
  have heq : (-33 : Word) = -1 :=
    (Option.some.inj hreg).symm.trans ((congrFun hp.regs 8).trans hspec)
  exact absurd heq (by decide)

end Examples

end RiscvGpgpu.Golden
