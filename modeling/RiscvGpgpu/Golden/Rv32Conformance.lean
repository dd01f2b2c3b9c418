import RiscvGpgpu.Golden.Rv32Memory

/-!
# One step of a compute unit is one instruction of RV32IM

`ComputeUnit::step` on a unit that holds an architectural state, with an RV32IM instruction at its
program counter, against `Rv32.exec`. The two agree except where the effective address leaves the
lower half of the address space (the unit extends it by its sign, the host and the fetch do not,
and the 32-bit sum may overflow) and where a signed quotient overflows (`Meets`).
-/

namespace RiscvGpgpu.Golden

open MemoryHierarchy
open Rv32 (Instr encode exec written accessed)

/-- The architectural state of a unit over a byte memory. -/
def arch (cu : BinaryUnit) (m : Rv32.Mem) : Rv32.State := ⟨cu.regs, cu.pc, m⟩

/-- The next step of the unit executes an instruction. -/
structure Running (cu : BinaryUnit) : Prop where
  halted : cu.halted = false
  blocked : cu.blocked = false
  timedOut : cu.timedOut = false

/-- `ECALL`, `EBREAK` and a return to the sentinel end the thread. -/
def halts (cu : BinaryUnit) (s : Rv32.State) : Instr → Bool
  | .ecall | .ebreak => true
  | .jalr _ rs1 imm => s.target rs1 imm == cu.returnSentinel &&& ~~~1
  | _ => false

/-- The memory behind a step, as the host, the fetch and the loads of the unit see it. -/
structure MemoryConforms (h h' : MemoryHierarchy) (blockId : BlockId) (m' : Rv32.Mem)
    (writes : List Word) : Prop where
  /-- The host and the fetch. -/
  host : ∀ a, ¬ h.InWindow a → h'.hostByte blockId a = m' a
  /-- Loads of what the step has written. -/
  loads : ∀ a ∈ writes, h'.loadByte blockId a = m' a
  others : ∀ a, ¬ h.InWindow a → a ∉ writes → h'.loadByte blockId a = h.loadByte blockId a
  /-- A word load reads the bytes that byte loads read. -/
  words : ∀ a : Word, a.toNat % 4 = 0 → (∀ k < 4, ¬ h.InWindow (a + BitVec.ofNat 32 k)) →
    (h'.loadWord (a.signExtend 64) blockId).1 =
      some (h'.loadByte blockId (a + 3) ++ h'.loadByte blockId (a + 2) ++
        h'.loadByte blockId (a + 1) ++ h'.loadByte blockId a)
  shared : h'.sharedMemory = h.sharedMemory
  window : h'.sharedMemSize = h.sharedMemSize

/-- The unit and the memory behind a step are what the instruction makes of the state. -/
structure Conforms (cu cu' : BinaryUnit) (h h' : MemoryHierarchy) (s : Rv32.State) (i : Instr) :
    Prop where
  regs : cu'.regs = (exec s i).regs
  pc : cu'.pc = (exec s i).pc
  halted : cu'.halted = halts cu s i
  x0 : cu'.regs 0 = 0
  fregs : cu'.fregs = cu.fregs
  blocked : cu'.blocked = false
  identity : cu'.blockId = cu.blockId ∧ cu'.returnSentinel = cu.returnSentinel ∧
    cu'.maxCycles = cu.maxCycles
  memory : MemoryConforms h h' cu.blockId (exec s i).mem (written s i)

/-- The 32-bit sum of a base and an offset does not overflow. -/
def SumFits (base : Word) (imm : BitVec 12) : Prop :=
  -2 ^ 31 ≤ base.toInt + (imm.signExtend 32).toInt ∧
    base.toInt + (imm.signExtend 32).toInt < 2 ^ 31

instance (base : Word) (imm : BitVec 12) : Decidable (SumFits base imm) :=
  inferInstanceAs (Decidable (_ ∧ _))

/-- A load finds the memory's bytes: where its address lies in the upper half, they are zero or
nobody looks. -/
def LoadMeets (s : Rv32.State) (op : Rv32.LoadOp) (rd rs1 : Reg) (imm : BitVec 12) : Prop :=
  SumFits (s.regs rs1) imm ∧ (rd = 0 ∨ ∀ k < op.size, Negative (s.address rs1 imm) k →
    s.mem (s.address rs1 imm + BitVec.ofNat 32 k) = 0)

/-- A store is seen by the host and by loads: where its address lies in the upper half, the host
finds the bytes there already, and a byte that only the host sees is zero. -/
def StoreMeets (s : Rv32.State) (op : Rv32.StoreOp) (rs1 rs2 : Reg) (imm : BitVec 12) : Prop :=
  SumFits (s.regs rs1) imm ∧ ∀ k < (op.bytes (s.regs rs2)).length,
    (Negative (s.address rs1 imm) k → s.mem (s.address rs1 imm + BitVec.ofNat 32 k) =
      (op.bytes (s.regs rs2)).getD k 0) ∧
    ((s.address rs1 imm).toNat < 2 ^ 31 → 2 ^ 31 ≤ (s.address rs1 imm).toNat + k →
      (op.bytes (s.regs rs2)).getD k 0 = 0)

/-- The instruction does not reach what the unit gets wrong. -/
def Meets (s : Rv32.State) : Instr → Prop
  | .reg op _ rs1 rs2 => ¬ Overflows op (s.regs rs1) (s.regs rs2)
  | .load op rd rs1 imm => LoadMeets s op rd rs1 imm
  | .store op rs1 rs2 imm => StoreMeets s op rs1 rs2 imm
  | _ => True

/-! ## Fetching -/

theorem signedAddress_eq (base : Word) (imm : BitVec 12) :
    signedAddress base (imm.signExtend 32) =
      if SumFits base imm then some ((base + imm.signExtend 32).signExtend 64) else none := by
  unfold signedAddress
  by_cases hfits : SumFits base imm
  · rw [if_pos hfits]
    refine (if_pos hfits).trans ?_
    rw [signExtend_eq_ofInt, BitVec.toInt_add, Int.bmod_eq_of_le hfits.1 hfits.2]
  · rw [if_neg hfits]
    exact if_neg hfits

theorem fetch_eq {cu : BinaryUnit} {h : MemoryHierarchy} {m : Rv32.Mem}
    (hrep : h.Represents cu.blockId m) (hwin : ∀ k < 4, ¬ h.InWindow (cu.pc + BitVec.ofNat 32 k))
    (hfit : cu.pc.toNat + 3 < 2 ^ 32) : cu.fetch h = (arch cu m).fetch := by
  have hpc : ¬ h.InWindow cu.pc := by
    have h0 := hwin 0 (by decide)
    rwa [BitVec.add_zero] at h0
  have hbyte : ∀ k < 4, h.globalByte (cu.pc.setWidth 64 + BitVec.ofNat 64 k) =
      m (cu.pc + BitVec.ofNat 32 k) := by
    intro k hk
    rw [← hrep.bytes _ (hwin k hk), hostByte_eq (hwin k hk)]
    congr 1
    apply BitVec.eq_of_toNat_eq
    rw [BitVec.toNat_add, toNat_zeroExtend, toNat_zeroExtend, BitVec.toNat_add, BitVec.toNat_ofNat,
      BitVec.toNat_ofNat]
    omega
  unfold BinaryUnit.fetch
  rw [readBytes_global (isShared_setWidth h hpc), wordOfBytes_eq_append]
  have hget : ∀ k < 4, ((List.range 4).map fun k =>
      h.globalByte (cu.pc.setWidth 64 + BitVec.ofNat 64 k)).getD k 0 =
        m (cu.pc + BitVec.ofNat 32 k) := by
    intro k hk
    rw [List.getD_eq_getElem?_getD, List.getElem?_map, List.getElem?_range hk]
    exact hbyte k hk
  rw [hget 0 (by decide), hget 1 (by decide), hget 2 (by decide), hget 3 (by decide),
    BitVec.add_zero]
  rfl

/-- The unit behind an executed instruction. -/
def behind (cu : BinaryUnit) (r : ExecResult) : BinaryUnit :=
  { cu with
    pc := r.nextPc
    regs := r.regs
    fregs := r.fregs
    halted := r.halt
    totalCycles := cu.totalCycles + 1
    totalInstructions := cu.totalInstructions + 1 }

theorem Decodes.ne_barSync {d : RV32Instr} {i : Instr} (hd : Decodes d i) : d.op ≠ .barSync := by
  intro hop
  cases i with
  | reg op => exact absurd (hop.symm.trans hd.1) (by cases op <;> decide)
  | imm op => exact absurd (hop.symm.trans hd.1) (by cases op <;> decide)
  | shift op => exact absurd (hop.symm.trans hd.1) (by cases op <;> decide)
  | load op => exact absurd (hop.symm.trans hd.1) (by cases op <;> decide)
  | store op => exact absurd (hop.symm.trans hd.1) (by cases op <;> decide)
  | branch op => exact absurd (hop.symm.trans hd.1) (by cases op <;> decide)
  | lui | auipc | jal | jalr => exact absurd (hop.symm.trans hd.1) (by decide)
  | fence | ecall | ebreak => exact absurd (hop.symm.trans hd) (by decide)

/-- A step executes the instruction that the word at the program counter encodes. -/
theorem step_of_fetch (F : HostFloat) {cu : BinaryUnit} {h : MemoryHierarchy} (hrun : Running cu)
    {i : Instr} (hword : cu.fetch h = encode i) : ∃ d, Decodes d i ∧ cu.step F h =
      (executeRV32 F d cu.pc (cu.pc + 4) cu.regs cu.fregs cu.returnSentinel h cu.blockId).map
        fun r => (behind cu r, r.mem) := by
  have hd := decodeRV32_encode i
  have hdec : BinaryUnit.decode (cu.fetch h) = (decodeRV32 (encode i), 4) := by
    rw [hword, BinaryUnit.decode, if_neg (not_not.2 (encode_low_bits i))]
  refine ⟨decodeRV32 (encode i), hd, ?_⟩
  unfold BinaryUnit.step
  rw [if_neg (by rw [hrun.halted, hrun.blocked]; decide),
    if_neg (by rw [hrun.timedOut]; decide), hdec]
  dsimp only
  rw [if_neg hd.ne_barSync]
  rfl

/-! ## Executing -/

section Execute

variable {F : HostFloat} {d : RV32Instr} {s : Rv32.State} {nextPc sentinel : Word}
  {fregs : LaneRegs} {mem : MemoryHierarchy} {blockId : BlockId}

theorem update_zero {regs : LaneRegs} (hx0 : regs 0 = 0) : Function.update regs 0 0 = regs := by
  rw [← hx0, Function.update_eq_self]

/-- Clearing register 0 behind a write leaves what the specification writes. -/
theorem write_eq (hx0 : s.regs 0 = 0) (rd : Reg) (v : Word) :
    Function.update (Function.update s.regs rd v) 0 0 = s.write rd v := by
  unfold Rv32.State.write
  by_cases hrd : rd = 0
  · rw [if_pos hrd, hrd, Function.update_idem, update_zero hx0]
  · rw [if_neg hrd]
    refine update_zero ?_
    rw [Function.update_of_ne (Ne.symm hrd), hx0]

theorem write_zero (hx0 : s.regs 0 = 0) (rd : Reg) (v : Word) : s.write rd v 0 = 0 := by
  rw [← write_eq hx0, Function.update_self]

theorem execute_reg (hx0 : s.regs 0 = 0) {op : Rv32.RegOp} {rd rs1 rs2 : Reg}
    (hd : Decodes d (.reg op rd rs1 rs2)) :
    executeRV32 F d s.pc nextPc s.regs fregs sentinel mem blockId =
      if Overflows op (s.regs rs1) (s.regs rs2) then none
      else some ⟨nextPc, s.write rd (op.eval (s.regs rs1) (s.regs rs2)), fregs, mem, false⟩ := by
  obtain ⟨hop, rfl, rfl, rfl⟩ := hd
  have hexec : executeRV32 F d s.pc nextPc s.regs fregs sentinel mem blockId =
      (aluR (regOp op) (s.regs d.rs1) (s.regs d.rs2)).map fun v =>
        ⟨nextPc, s.write d.rd v, fregs, mem, false⟩ := by
    unfold executeRV32
    rw [update_zero hx0, hop]
    simp only [write_eq hx0]
    cases op <;> rfl
  rw [hexec, aluR_regOp]
  split <;> rfl

theorem execute_imm (hx0 : s.regs 0 = 0) {op : Rv32.ImmOp} {rd rs1 : Reg} {imm : BitVec 12}
    (hd : Decodes d (.imm op rd rs1 imm)) :
    executeRV32 F d s.pc nextPc s.regs fregs sentinel mem blockId =
      some ⟨nextPc, s.write rd (op.eval (s.regs rs1) (imm.signExtend 32)), fregs, mem, false⟩ := by
  obtain ⟨hop, rfl, rfl, himm⟩ := hd
  have hexec : executeRV32 F d s.pc nextPc s.regs fregs sentinel mem blockId =
      (aluI (immOp op) (s.regs d.rs1) d.imm).map fun v =>
        ⟨nextPc, s.write d.rd v, fregs, mem, false⟩ := by
    unfold executeRV32
    rw [update_zero hx0, hop]
    simp only [write_eq hx0]
    cases op <;> rfl
  rw [hexec, aluI_immOp, himm]
  rfl

theorem execute_shift (hx0 : s.regs 0 = 0) {op : Rv32.ShiftOp} {rd rs1 : Reg} {shamt : BitVec 5}
    (hd : Decodes d (.shift op rd rs1 shamt)) :
    executeRV32 F d s.pc nextPc s.regs fregs sentinel mem blockId =
      some ⟨nextPc, s.write rd (op.eval (s.regs rs1) shamt.toNat), fregs, mem, false⟩ := by
  obtain ⟨hop, rfl, rfl, himm⟩ := hd
  have hexec : executeRV32 F d s.pc nextPc s.regs fregs sentinel mem blockId =
      (aluI (shiftOp op) (s.regs d.rs1) d.imm).map fun v =>
        ⟨nextPc, s.write d.rd v, fregs, mem, false⟩ := by
    unfold executeRV32
    rw [update_zero hx0, hop]
    simp only [write_eq hx0]
    cases op <;> rfl
  rw [hexec, himm, aluI_shiftOp]
  rfl

theorem execute_load (hx0 : s.regs 0 = 0) {op : Rv32.LoadOp} {rd rs1 : Reg} {imm : BitVec 12}
    (hd : Decodes d (.load op rd rs1 imm)) :
    executeRV32 F d s.pc nextPc s.regs fregs sentinel mem blockId =
      if SumFits (s.regs rs1) imm then
        let v := loadValue mem blockId ((s.address rs1 imm).signExtend 64) (loadOp op)
        some ⟨nextPc, s.write rd v.1, fregs, v.2, false⟩
      else none := by
  obtain ⟨hop, rfl, rfl, himm⟩ := hd
  have hexec : executeRV32 F d s.pc nextPc s.regs fregs sentinel mem blockId =
      (signedAddress (s.regs d.rs1) d.imm).map fun addr =>
        ⟨nextPc, s.write d.rd (loadValue mem blockId addr (loadOp op)).1, fregs,
          (loadValue mem blockId addr (loadOp op)).2, false⟩ := by
    unfold executeRV32
    rw [update_zero hx0, hop]
    simp only [write_eq hx0]
    cases op <;> rfl
  rw [hexec, himm, signedAddress_eq]
  split <;> rfl

theorem execute_store (hx0 : s.regs 0 = 0) {op : Rv32.StoreOp} {rs1 rs2 : Reg} {imm : BitVec 12}
    (hd : Decodes d (.store op rs1 rs2 imm)) :
    executeRV32 F d s.pc nextPc s.regs fregs sentinel mem blockId =
      if SumFits (s.regs rs1) imm then
        some ⟨nextPc, s.regs, fregs, storeValue mem blockId ((s.address rs1 imm).signExtend 64)
          (storeOp op) (s.regs rs2), false⟩
      else none := by
  obtain ⟨hop, rfl, rfl, himm⟩ := hd
  have hexec : executeRV32 F d s.pc nextPc s.regs fregs sentinel mem blockId =
      (signedAddress (s.regs d.rs1) d.imm).map fun addr =>
        ⟨nextPc, s.regs, fregs, storeValue mem blockId addr (storeOp op) (s.regs d.rs2),
          false⟩ := by
    unfold executeRV32
    rw [update_zero hx0, hop]
    simp only [update_zero hx0]
    cases op <;> rfl
  rw [hexec, himm, signedAddress_eq]
  split <;> rfl

theorem execute_branch (hx0 : s.regs 0 = 0) {op : Rv32.BranchOp} {rs1 rs2 : Reg} {imm : BitVec 12}
    (hd : Decodes d (.branch op rs1 rs2 imm)) :
    executeRV32 F d s.pc nextPc s.regs fregs sentinel mem blockId =
      some
        ⟨if op.taken (s.regs rs1) (s.regs rs2) then s.pc + (imm ++ 0#1).signExtend 32 else nextPc,
        s.regs, fregs, mem, false⟩ := by
  obtain ⟨hop, rfl, rfl, himm⟩ := hd
  have hexec : executeRV32 F d s.pc nextPc s.regs fregs sentinel mem blockId =
      some
        ⟨if branchTaken (branchOp op) (s.regs d.rs1) (s.regs d.rs2) then s.pc + d.imm else nextPc,
        s.regs, fregs, mem, false⟩ := by
    unfold executeRV32
    rw [update_zero hx0, hop]
    simp only [update_zero hx0]
    cases op <;> rfl
  rw [hexec, himm, branchTaken_branchOp]

theorem execute_lui (hx0 : s.regs 0 = 0) {rd : Reg} {imm : BitVec 20}
    (hd : Decodes d (.lui rd imm)) :
    executeRV32 F d s.pc nextPc s.regs fregs sentinel mem blockId =
      some ⟨nextPc, s.write rd (imm ++ 0#12), fregs, mem, false⟩ := by
  obtain ⟨hop, rfl, himm⟩ := hd
  unfold executeRV32
  rw [update_zero hx0, hop, ← himm]
  simp only [write_eq hx0]

theorem execute_auipc (hx0 : s.regs 0 = 0) {rd : Reg} {imm : BitVec 20}
    (hd : Decodes d (.auipc rd imm)) :
    executeRV32 F d s.pc nextPc s.regs fregs sentinel mem blockId =
      some ⟨nextPc, s.write rd (s.pc + (imm ++ 0#12)), fregs, mem, false⟩ := by
  obtain ⟨hop, rfl, himm⟩ := hd
  unfold executeRV32
  rw [update_zero hx0, hop, ← himm]
  simp only [write_eq hx0]

theorem execute_jal (hx0 : s.regs 0 = 0) {rd : Reg} {imm : BitVec 20}
    (hd : Decodes d (.jal rd imm)) :
    executeRV32 F d s.pc nextPc s.regs fregs sentinel mem blockId =
      some ⟨s.pc + (imm ++ 0#1).signExtend 32, s.write rd nextPc, fregs, mem, false⟩ := by
  obtain ⟨hop, rfl, himm⟩ := hd
  unfold executeRV32
  rw [update_zero hx0, hop, ← himm]
  simp only [write_eq hx0]

theorem execute_jalr (hx0 : s.regs 0 = 0) {rd rs1 : Reg} {imm : BitVec 12}
    (hd : Decodes d (.jalr rd rs1 imm)) :
    executeRV32 F d s.pc nextPc s.regs fregs sentinel mem blockId =
      some ⟨s.target rs1 imm, s.write rd nextPc, fregs, mem,
        s.target rs1 imm == sentinel &&& ~~~1⟩ := by
  obtain ⟨hop, rfl, rfl, himm⟩ := hd
  unfold executeRV32 Rv32.State.target Rv32.State.address
  rw [update_zero hx0, hop, himm]
  simp only [write_eq hx0]
  rfl

/-- `FENCE`, `ECALL` and `EBREAK` touch nothing. -/
theorem execute_quiet (hx0 : s.regs 0 = 0) (hop : d.op = .fence ∨ d.op = .ecall ∨ d.op = .ebreak) :
    executeRV32 F d s.pc nextPc s.regs fregs sentinel mem blockId =
      some ⟨nextPc, s.regs, fregs, mem, decide (d.op ≠ .fence)⟩ := by
  unfold executeRV32
  rcases hop with hop | hop | hop
  all_goals
    rw [update_zero hx0, hop]
    simp only [update_zero hx0]
    rfl

end Execute

/-! ## The memory behind a step -/

section Views

variable {h h' : MemoryHierarchy} {blockId : BlockId} {m : Rv32.Mem}

/-- The word that a load finds is the bytes that byte loads find. -/
theorem loadWord_eq_bytes (hc : h'.Coherent) (hsize : h'.sharedMemSize = h.sharedMemSize) {a : Word}
    (hal : a.toNat % 4 = 0) (hwin : ∀ k < 4, ¬ h.InWindow (a + BitVec.ofNat 32 k)) :
    (h'.loadWord (a.signExtend 64) blockId).1 =
      some (h'.loadByte blockId (a + 3) ++ h'.loadByte blockId (a + 2) ++
        h'.loadByte blockId (a + 1) ++ h'.loadByte blockId a) := by
  have hwin' : ∀ k < 4, ¬ h'.InWindow (a + BitVec.ofNat 32 k) := by
    unfold InWindow
    rw [hsize]
    exact hwin
  have ha : ¬ h'.InWindow a := by
    have h0 := hwin' 0 (by decide)
    rwa [BitVec.add_zero] at h0
  have haligned : (a.signExtend 64).toNat % 4 = 0 := by rw [toNat_signExtend_mod, hal]
  have hkey : ∀ k < 4, h'.loadByte blockId (a + BitVec.ofNat 32 k) =
      h'.globalByte (a.signExtend 64 + BitVec.ofNat 64 k) := by
    intro k hk
    rw [loadByte_eq (hwin' k hk)]
    congr 1
    apply BitVec.eq_of_toNat_eq
    rw [toNat_key a hk, toNat_signExtend, BitVec.toNat_add, BitVec.toNat_ofNat]
    have hlt := a.isLt
    by_cases hneg : Negative a k
    · rw [if_pos hneg]
      unfold Negative at hneg
      split <;> omega
    · rw [if_neg hneg]
      unfold Negative at hneg
      split <;> split <;> omega
  rw [loadWord_global
      (by rw [alignAddress_of_aligned haligned]; exact isShared_signExtend h' ha) hc,
    alignAddress_of_aligned haligned, globalWord_eq_bytes h' haligned, loadByte_eq ha]
  rw [show a + 3 = a + BitVec.ofNat 32 3 from rfl, show a + 2 = a + BitVec.ofNat 32 2 from rfl,
    show a + 1 = a + BitVec.ofNat 32 1 from rfl, hkey 3 (by decide), hkey 2 (by decide),
    hkey 1 (by decide)]
  rfl

/-- A step that leaves the global memory alone. -/
theorem memoryConforms_of_frame (hrep : h.Represents blockId m) (hc : h'.Coherent)
    (hg : h'.globalMemory = h.globalMemory) (hs : h'.sharedMemory = h.sharedMemory)
    (hsize : h'.sharedMemSize = h.sharedMemSize) : MemoryConforms h h' blockId m [] := by
  have hwin : ∀ a, h'.InWindow a ↔ h.InWindow a := by
    intro a
    unfold InWindow
    rw [hsize]
  have hbyte : ∀ addr, h'.globalByte addr = h.globalByte addr := by
    intro addr
    unfold globalByte globalWord
    rw [hg]
  refine ⟨fun a ha => ?_, by simp, fun a ha _ => ?_,
    fun a hal ha => loadWord_eq_bytes hc hsize hal ha,
    hs, hsize⟩
  · rw [hostByte_eq (mt (hwin a).1 ha), hbyte, ← hostByte_eq ha blockId, hrep.bytes a ha]
  · rw [loadByte_eq (mt (hwin a).1 ha), hbyte, ← loadByte_eq ha]

/-- Where the host meets the keys of an access. -/
theorem zeroExtend_eq_key_iff {a ea : Word} {k : ℕ} (hk : k < 4) :
    a.setWidth 64 = ea.signExtend 64 + BitVec.ofNat 64 k ↔
      a = ea + BitVec.ofNat 32 k ∧ ¬ Negative ea k := by
  have hkey := toNat_key ea hk
  have hlt := ea.isLt
  have hlt' := a.isLt
  by_cases hneg : Negative ea k
  · rw [if_pos hneg] at hkey
    refine iff_of_false (fun heq => ?_) fun hand => hand.2 hneg
    rw [← heq, toNat_zeroExtend] at hkey
    omega
  · rw [if_neg hneg] at hkey
    rw [and_iff_left hneg, ← BitVec.toNat_inj, ← BitVec.toNat_inj, hkey, toNat_zeroExtend,
      BitVec.toNat_add, BitVec.toNat_ofNat]
    unfold Negative at hneg
    split <;> omega

/-- Where the loads of the unit meet the keys of an access. -/
theorem signExtend_eq_key_iff {a ea : Word} {k : ℕ} (hk : k < 4) :
    a.signExtend 64 = ea.signExtend 64 + BitVec.ofNat 64 k ↔
      a = ea + BitVec.ofNat 32 k ∧ ¬ (ea.toNat < 2 ^ 31 ∧ 2 ^ 31 ≤ ea.toNat + k) := by
  have hkey := toNat_key ea hk
  have hlt := ea.isLt
  have hlt' := a.isLt
  rw [← BitVec.toNat_inj, ← BitVec.toNat_inj, hkey, toNat_signExtend, BitVec.toNat_add,
    BitVec.toNat_ofNat]
  by_cases hneg : Negative ea k
  · rw [if_pos hneg]
    unfold Negative at hneg
    split <;> omega
  · rw [if_neg hneg]
    unfold Negative at hneg
    split <;> split <;> omega

theorem length_bytes (op : Rv32.StoreOp) (v : Word) :
    0 < (op.bytes v).length ∧ (op.bytes v).length ≤ 4 := by
  cases op <;> simp [Rv32.StoreOp.bytes]

theorem offset_inj {ea : Word} {j k : ℕ} (hj : j < 4) (hk : k < 4)
    (h : ea + BitVec.ofNat 32 k = ea + BitVec.ofNat 32 j) : j = k := by
  have hnat := congrArg BitVec.toNat h
  rw [BitVec.toNat_add, BitVec.toNat_add, BitVec.toNat_ofNat, BitVec.toNat_ofNat] at hnat
  have hlt := ea.isLt
  omega

/-- What a store of the unit leaves, byte by byte, under the keys of the host and of the loads. -/
theorem memoryConforms_store_iff (hrep : h.Represents blockId m) (op : Rv32.StoreOp) (v ea : Word)
    (hwin : ∀ k < (op.bytes v).length, ¬ h.InWindow (ea + BitVec.ofNat 32 k))
    (hal : op = .sw → ea.toNat % 4 = 0) :
    MemoryConforms h (storeValue h blockId (ea.signExtend 64) (storeOp op) v) blockId
        (m.write ea (op.bytes v))
        ((List.range (op.bytes v).length).map fun k => ea + BitVec.ofNat 32 k) ↔
      ∀ k < (op.bytes v).length,
        (Negative ea k → m (ea + BitVec.ofNat 32 k) = (op.bytes v).getD k 0) ∧
        (ea.toNat < 2 ^ 31 → 2 ^ 31 ≤ ea.toNat + k → (op.bytes v).getD k 0 = 0) := by
  obtain ⟨hpos, hle⟩ := length_bytes op v
  have hea : ¬ h.InWindow ea := by
    have h0 := hwin 0 hpos
    rwa [BitVec.add_zero] at h0
  have hs := isShared_signExtend h hea
  have hframe := storeValue_frame h blockId op hs
    (fun hop => by rwa [alignAddress_of_aligned (by rw [toNat_signExtend_mod, hal hop])]) v
  have hbyte := globalByte_storeValue h blockId op v ea hea hal
  have hcoh := hrep.coherent.storeValue blockId op hs v
  generalize storeValue h blockId (ea.signExtend 64) (storeOp op) v = h' at *
  generalize op.bytes v = bs at *
  have hwin' : ∀ a, h'.InWindow a ↔ h.InWindow a := by
    intro a
    unfold InWindow
    rw [hframe.2]
  have hhost : ∀ a, ¬ h.InWindow a → h'.hostByte blockId a =
      bs.getD (a.setWidth 64 - ea.signExtend 64).toNat (m a) := by
    intro a ha
    rw [hostByte_eq (mt (hwin' a).1 ha), hbyte, ← hrep.bytes a ha, hostByte_eq ha]
  have hload : ∀ a, ¬ h.InWindow a → h'.loadByte blockId a =
      bs.getD (a.signExtend 64 - ea.signExtend 64).toNat (h.loadByte blockId a) := by
    intro a ha
    rw [loadByte_eq (mt (hwin' a).1 ha), hbyte, loadByte_eq ha]
  have hupper : ∀ k < bs.length, ea.toNat < 2 ^ 31 → 2 ^ 31 ≤ ea.toNat + k →
      h'.loadByte blockId (ea + BitVec.ofNat 32 k) = 0 := by
    intro k hk hlow hhigh
    have hlt := ea.isLt
    rw [hload _ (hwin k hk), getD_sub_miss, loadByte_eq (hwin k hk)]
    · refine hrep.globalByte_above ?_
      rw [toNat_signExtend, BitVec.toNat_add, BitVec.toNat_ofNat]
      split <;> omega
    · intro j hj heq
      obtain ⟨hkj, hno⟩ := (signExtend_eq_key_iff (by omega)).1 heq
      obtain rfl := offset_inj (by omega) (by omega) hkj
      exact hno ⟨hlow, hhigh⟩
  constructor
  · intro hmem k hk
    constructor
    · intro hneg
      have hread := hmem.host _ (hwin k hk)
      rw [hhost _ (hwin k hk), Rv32.Mem.write, getD_sub_hit bs ea hk (by omega),
        getD_sub_miss] at hread
      · exact hread
      · intro j hj heq
        obtain ⟨hkj, hno⟩ := (zeroExtend_eq_key_iff (by omega)).1 heq
        obtain rfl := offset_inj (by omega) (by omega) hkj
        exact hno hneg
    · intro hlow hhigh
      have hread := hmem.loads _ (List.mem_map.2 ⟨k, List.mem_range.2 hk, rfl⟩)
      rw [hupper k hk hlow hhigh, Rv32.Mem.write, getD_sub_hit bs ea hk (by omega)] at hread
      exact hread.symm
  · intro hcond
    refine ⟨fun a ha => ?_, fun a ha => ?_, fun a ha hout => ?_,
      fun a hala hwa => loadWord_eq_bytes hcoh hframe.2 hala hwa, hframe.1, hframe.2⟩
    · rw [hhost a ha, Rv32.Mem.write]
      by_cases hhit : ∃ k < bs.length, a = ea + BitVec.ofNat 32 k
      · obtain ⟨k, hk, rfl⟩ := hhit
        rw [getD_sub_hit bs ea hk (by omega)]
        by_cases hneg : Negative ea k
        · rw [getD_sub_miss]
          · exact (hcond k hk).1 hneg
          · intro j hj heq
            obtain ⟨hkj, hno⟩ := (zeroExtend_eq_key_iff (by omega)).1 heq
            obtain rfl := offset_inj (by omega) (by omega) hkj
            exact hno hneg
        · rw [(zeroExtend_eq_key_iff (by omega)).2 ⟨rfl, hneg⟩, getD_sub_hit bs _ hk (by omega)]
      · have hmiss : ∀ k < bs.length, a ≠ ea + BitVec.ofNat 32 k := fun k hk heq =>
          hhit ⟨k, hk, heq⟩
        rw [getD_sub_miss hmiss, getD_sub_miss]
        exact fun k hk heq => hmiss k hk ((zeroExtend_eq_key_iff (by omega)).1 heq).1
    · obtain ⟨k, hk, rfl⟩ := List.mem_map.1 ha
      rw [List.mem_range] at hk
      rw [Rv32.Mem.write, getD_sub_hit bs ea hk (by omega)]
      by_cases hup : ea.toNat < 2 ^ 31 ∧ 2 ^ 31 ≤ ea.toNat + k
      · rw [hupper k hk hup.1 hup.2, (hcond k hk).2 hup.1 hup.2]
      · rw [hload _ (hwin k hk), (signExtend_eq_key_iff (by omega)).2 ⟨rfl, hup⟩,
          getD_sub_hit bs _ hk (by omega)]
    · rw [hload a ha, getD_sub_miss]
      intro k hk heq
      refine hout (List.mem_map.2 ⟨k, List.mem_range.2 hk, ?_⟩)
      exact ((signExtend_eq_key_iff (by omega)).1 heq).1.symm

theorem size_bounds (op : Rv32.LoadOp) : 0 < op.size ∧ op.size ≤ 4 := by
  cases op <;> exact ⟨by decide, by decide⟩

theorem append_inj {n k : ℕ} {a b : BitVec n} {c d : BitVec k} :
    a ++ c = b ++ d ↔ a = b ∧ c = d := by
  refine ⟨fun h => ?_, fun ⟨ha, hc⟩ => by rw [ha, hc]⟩
  have hnat := congrArg BitVec.toNat h
  rw [toNat_append_add, toNat_append_add] at hnat
  have hc := c.isLt
  have hd := d.isLt
  have hmod := congrArg (· % 2 ^ k) hnat
  have hdiv := congrArg (· / 2 ^ k) hnat
  simp only [Nat.mul_comm _ (2 ^ k), Nat.mul_add_mod, Nat.mod_eq_of_lt hc, Nat.mod_eq_of_lt hd,
    Nat.mul_add_div (Nat.two_pow_pos k), Nat.div_eq_of_lt hc, Nat.div_eq_of_lt hd,
    Nat.add_zero] at hmod hdiv
  exact ⟨BitVec.eq_of_toNat_eq hdiv, BitVec.eq_of_toNat_eq hmod⟩

theorem signExtend_inj {n : ℕ} (hn : n ≤ 32) {a b : BitVec n} :
    a.signExtend 32 = b.signExtend 32 ↔ a = b := by
  refine ⟨fun h => ?_, fun h => by rw [h]⟩
  refine BitVec.eq_of_getLsbD_eq fun i hi => ?_
  have hbit : (a.signExtend 32).getLsbD i = (b.signExtend 32).getLsbD i := by rw [h]
  rwa [BitVec.getLsbD_signExtend, BitVec.getLsbD_signExtend, if_pos hi, if_pos hi,
    decide_eq_true (by omega : i < 32), Bool.true_and, Bool.true_and] at hbit

theorem setWidth_inj {n : ℕ} (hn : n ≤ 32) {a b : BitVec n} :
    a.setWidth 32 = b.setWidth 32 ↔ a = b := by
  refine ⟨fun h => ?_, fun h => by rw [h]⟩
  refine BitVec.eq_of_getLsbD_eq fun i hi => ?_
  have hbit : (a.setWidth 32).getLsbD i = (b.setWidth 32).getLsbD i := by rw [h]
  rwa [BitVec.getLsbD_setWidth, BitVec.getLsbD_setWidth, decide_eq_true (by omega : i < 32),
    Bool.true_and, Bool.true_and] at hbit

/-- A load tells the bytes it reads apart. -/
theorem eval_inj (op : Rv32.LoadOp) (f g : ℕ → Byte) :
    op.eval (f 0) (f 1) (f 2) (f 3) = op.eval (g 0) (g 1) (g 2) (g 3) ↔
      ∀ k < op.size, f k = g k := by
  have hone : (∀ k < 1, f k = g k) ↔ f 0 = g 0 := by
    constructor
    · exact fun h => h 0 (by decide)
    · intro h k hk
      rwa [Nat.lt_one_iff.1 hk]
  have htwo : (∀ k < 2, f k = g k) ↔ f 1 = g 1 ∧ f 0 = g 0 := by
    constructor
    · exact fun h => ⟨h 1 (by decide), h 0 (by decide)⟩
    · rintro ⟨h1, h0⟩ k hk
      interval_cases k <;> assumption
  have hfour : (∀ k < 4, f k = g k) ↔
      ((f 3 = g 3 ∧ f 2 = g 2) ∧ f 1 = g 1) ∧ f 0 = g 0 := by
    constructor
    · exact fun h => ⟨⟨⟨h 3 (by decide), h 2 (by decide)⟩, h 1 (by decide)⟩, h 0 (by decide)⟩
    · rintro ⟨⟨⟨h3, h2⟩, h1⟩, h0⟩ k hk
      interval_cases k <;> assumption
  cases op with
  | lb => exact (signExtend_inj (by decide)).trans hone.symm
  | lbu => exact (setWidth_inj (by decide)).trans hone.symm
  | lh => exact ((signExtend_inj (by decide)).trans append_inj).trans htwo.symm
  | lhu => exact ((setWidth_inj (by decide)).trans append_inj).trans htwo.symm
  | lw =>
    refine Iff.trans ?_ hfour.symm
    show f 3 ++ f 2 ++ f 1 ++ f 0 = g 3 ++ g 2 ++ g 1 ++ g 0 ↔ _
    rw [append_inj, append_inj, append_inj]

/-- A load finds what the memory holds, or zeros there. -/
theorem loadValue_eq_read_iff (hrep : h.Represents blockId m) (op : Rv32.LoadOp) {ea : Word}
    (hwin : ∀ k < op.size, ¬ h.InWindow (ea + BitVec.ofNat 32 k))
    (hal : op = .lw → ea.toNat % 4 = 0) :
    (loadValue h blockId (ea.signExtend 64) (loadOp op)).1 = op.read m ea ↔
      ∀ k < op.size, Negative ea k → m (ea + BitVec.ofNat 32 k) = 0 := by
  obtain ⟨hpos, hle⟩ := size_bounds op
  have hea : ¬ h.InWindow ea := by
    have h0 := hwin 0 hpos
    rwa [BitVec.add_zero] at h0
  have heval := eval_inj op (fun k => h.globalByte (ea.signExtend 64 + BitVec.ofNat 64 k))
    fun k => m (ea + BitVec.ofNat 32 k)
  rw [BitVec.add_zero, BitVec.add_zero] at heval
  rw [loadValue_eq hrep.coherent blockId op hea hal]
  refine heval.trans (forall₂_congr fun k hk => ?_)
  rw [hrep.globalByte_key (by omega) (hwin k hk)]
  by_cases hneg : Negative ea k
  · rw [if_pos hneg]
    exact ⟨fun heq _ => heq.symm, fun hzero => (hzero hneg).symm⟩
  · rw [if_neg hneg]
    exact iff_of_true rfl fun h => absurd h hneg

end Views

/-! ## Conformance -/

/-- The step of the unit does to the state what the instruction does. -/
def Conformant (F : HostFloat) (cu : BinaryUnit) (h : MemoryHierarchy) (m : Rv32.Mem) (i : Instr) :
    Prop :=
  ∃ cu' h', cu.step F h = some (cu', h') ∧ Conforms cu cu' h h' (arch cu m) i

section Conformance

variable {F : HostFloat} {cu : BinaryUnit} {h : MemoryHierarchy} {m : Rv32.Mem} {i : Instr}

theorem conformant_some {p : BinaryUnit × MemoryHierarchy} (hstep : cu.step F h = some p) :
    Conformant F cu h m i ↔ Conforms cu p.1 h p.2 (arch cu m) i := by
  constructor
  · rintro ⟨cu', h', hs, hc⟩
    obtain rfl := Option.some.inj (hstep.symm.trans hs)
    exact hc
  · exact fun hc => ⟨p.1, p.2, hstep, hc⟩

theorem conformant_none (hstep : cu.step F h = none) : ¬ Conformant F cu h m i := by
  rintro ⟨cu', h', hs, -⟩
  exact absurd (hstep.symm.trans hs) (by simp)

/-- An instruction that does not store conforms once registers, program counter and halting do. -/
theorem conforms_of_frame (hrep : h.Represents cu.blockId m) (hrun : Running cu)
    (hmem : (exec (arch cu m) i).mem = m) (hwrites : written (arch cu m) i = []) {r : ExecResult}
    (hc : r.mem.Coherent) (hg : r.mem.globalMemory = h.globalMemory)
    (hs : r.mem.sharedMemory = h.sharedMemory) (hsize : r.mem.sharedMemSize = h.sharedMemSize)
    (hpc : r.nextPc = (exec (arch cu m) i).pc) (hhalt : r.halt = halts cu (arch cu m) i)
    (hfregs : r.fregs = cu.fregs) (hx0 : r.regs 0 = 0)
    (hregs : r.regs = (exec (arch cu m) i).regs) :
    Conforms cu (behind cu r) h r.mem (arch cu m) i where
  regs := hregs
  pc := hpc
  halted := hhalt
  x0 := hx0
  fregs := hfregs
  blocked := hrun.blocked
  identity := ⟨rfl, rfl, rfl⟩
  memory := by
    rw [hmem, hwrites]
    exact memoryConforms_of_frame hrep hc hg hs hsize

theorem conformant_load (hrep : h.Represents cu.blockId m) (hrun : Running cu)
    (hx0 : cu.regs 0 = 0) {d : RV32Instr} {op : Rv32.LoadOp} {rd rs1 : Reg} {imm : BitVec 12}
    (hd : Decodes d (.load op rd rs1 imm))
    (hstep : cu.step F h =
      (executeRV32 F d cu.pc (cu.pc + 4) cu.regs cu.fregs cu.returnSentinel h cu.blockId).map
        fun r => (behind cu r, r.mem))
    (hacc : ∀ a ∈ accessed (arch cu m) (.load op rd rs1 imm), ¬ h.InWindow a)
    (hal : Rv32.Aligned (arch cu m) (.load op rd rs1 imm)) :
    Conformant F cu h m (.load op rd rs1 imm) ↔ LoadMeets (arch cu m) op rd rs1 imm := by
  have hexec : executeRV32 F d cu.pc (cu.pc + 4) cu.regs cu.fregs cu.returnSentinel h cu.blockId =
      _ := execute_load (s := arch cu m) hx0 hd
  have hwin : ∀ k < op.size, ¬ h.InWindow ((arch cu m).address rs1 imm + BitVec.ofNat 32 k) :=
    fun k hk => hacc _ (List.mem_map.2 ⟨k, List.mem_range.2 hk, rfl⟩)
  have hread := loadValue_eq_read_iff hrep op hwin (by rintro rfl; exact hal)
  have hframe := loadValue_frame h cu.blockId (((arch cu m).address rs1 imm).signExtend 64)
    (loadOp op)
  have hcoh := hrep.coherent.loadValue cu.blockId (((arch cu m).address rs1 imm).signExtend 64)
    (loadOp op)
  unfold LoadMeets
  by_cases hfits : SumFits ((arch cu m).regs rs1) imm
  · rw [if_pos hfits] at hexec
    rw [hexec] at hstep
    rw [conformant_some hstep, and_iff_right hfits]
    refine Iff.trans ?_ (or_congr Iff.rfl hread)
    constructor
    · intro hc
      refine or_iff_not_imp_left.2 fun hrd => ?_
      have hregs := congrFun hc.regs rd
      have hset : ∀ v, (arch cu m).write rd v rd = v := by
        intro v
        rw [Rv32.State.write, if_neg hrd, Function.update_self]
      exact ((hset _).symm.trans hregs).trans (hset _)
    · intro hor
      refine conforms_of_frame hrep hrun rfl rfl hcoh hframe.1 hframe.2.1 hframe.2.2 rfl rfl rfl
        (write_zero hx0 _ _) ?_
      rcases hor with hrd | heq
      · show (arch cu m).write rd _ = (arch cu m).write rd _
        rw [Rv32.State.write, Rv32.State.write, if_pos hrd, if_pos hrd]
      · exact congrArg ((arch cu m).write rd) heq
  · rw [if_neg hfits] at hexec
    rw [hexec] at hstep
    exact iff_of_false (conformant_none hstep) fun hand => hfits hand.1

theorem conformant_store (hrep : h.Represents cu.blockId m) (hrun : Running cu)
    (hx0 : cu.regs 0 = 0) {d : RV32Instr} {op : Rv32.StoreOp} {rs1 rs2 : Reg} {imm : BitVec 12}
    (hd : Decodes d (.store op rs1 rs2 imm))
    (hstep : cu.step F h =
      (executeRV32 F d cu.pc (cu.pc + 4) cu.regs cu.fregs cu.returnSentinel h cu.blockId).map
        fun r => (behind cu r, r.mem))
    (hacc : ∀ a ∈ accessed (arch cu m) (.store op rs1 rs2 imm), ¬ h.InWindow a)
    (hal : Rv32.Aligned (arch cu m) (.store op rs1 rs2 imm)) :
    Conformant F cu h m (.store op rs1 rs2 imm) ↔ StoreMeets (arch cu m) op rs1 rs2 imm := by
  have hexec : executeRV32 F d cu.pc (cu.pc + 4) cu.regs cu.fregs cu.returnSentinel h cu.blockId =
      _ := execute_store (s := arch cu m) hx0 hd
  have hwin : ∀ k < (op.bytes (cu.regs rs2)).length,
      ¬ h.InWindow ((arch cu m).address rs1 imm + BitVec.ofNat 32 k) :=
    fun k hk => hacc _ (List.mem_map.2 ⟨k, List.mem_range.2 hk, rfl⟩)
  have hmem := memoryConforms_store_iff hrep op (cu.regs rs2) _ hwin (by rintro rfl; exact hal)
  unfold StoreMeets
  by_cases hfits : SumFits ((arch cu m).regs rs1) imm
  · rw [if_pos hfits] at hexec
    rw [hexec] at hstep
    rw [conformant_some hstep, and_iff_right hfits]
    refine Iff.trans ⟨fun hc => hc.memory, fun hm => ?_⟩ hmem
    exact ⟨rfl, rfl, rfl, hx0, rfl, hrun.blocked, ⟨rfl, rfl, rfl⟩, hm⟩
  · rw [if_neg hfits] at hexec
    rw [hexec] at hstep
    exact iff_of_false (conformant_none hstep) fun hand => hfits hand.1

/-- **RV32IM conformance.** A unit that is about to execute an RV32IM instruction, over any byte
memory, executes it as the specification says exactly when the instruction meets the condition. -/
theorem conformant_iff (F : HostFloat) {cu : BinaryUnit} {h : MemoryHierarchy} {m : Rv32.Mem}
    {i : Instr} (hrep : h.Represents cu.blockId m) (hrun : Running cu) (hx0 : cu.regs 0 = 0)
    (hfit : cu.pc.toNat + 3 < 2 ^ 32) (hpc : ∀ k < 4, ¬ h.InWindow (cu.pc + BitVec.ofNat 32 k))
    (hword : (arch cu m).fetch = encode i) (hacc : ∀ a ∈ accessed (arch cu m) i, ¬ h.InWindow a)
    (hal : Rv32.Aligned (arch cu m) i) : Conformant F cu h m i ↔ Meets (arch cu m) i := by
  obtain ⟨d, hd, hcu⟩ := step_of_fetch F hrun ((fetch_eq hrep hpc hfit).trans hword)
  have hstep : cu.step F h = (executeRV32 F d (arch cu m).pc (cu.pc + 4) (arch cu m).regs cu.fregs
    cu.returnSentinel h cu.blockId).map fun r => (behind cu r, r.mem) := hcu
  have hquiet : ∀ {i : Instr} {r : ExecResult}, cu.step F h = some (behind cu r, r.mem) →
      r.mem = h → r.fregs = cu.fregs → r.regs 0 = 0 → (exec (arch cu m) i).mem = m →
      written (arch cu m) i = [] → r.nextPc = (exec (arch cu m) i).pc →
      r.halt = halts cu (arch cu m) i → r.regs = (exec (arch cu m) i).regs →
      Conformant F cu h m i := by
    intro i r hs hrm hf hz hme hwr hnp hha hre
    refine (conformant_some hs).2
      (conforms_of_frame hrep hrun hme hwr ?_ ?_ ?_ ?_ hnp hha hf hz hre)
    all_goals rw [hrm]
    exact hrep.coherent
  cases i with
  | reg op rd rs1 rs2 =>
    rw [execute_reg (s := arch cu m) hx0 hd] at hstep
    by_cases ho : Overflows op ((arch cu m).regs rs1) ((arch cu m).regs rs2)
    · rw [if_pos ho] at hstep
      exact iff_of_false (conformant_none hstep) (not_not.2 ho)
    · rw [if_neg ho] at hstep
      exact iff_of_true (hquiet hstep rfl rfl (write_zero hx0 _ _) rfl rfl rfl rfl rfl) ho
  | imm op rd rs1 imm =>
    rw [execute_imm (s := arch cu m) hx0 hd] at hstep
    exact iff_of_true (hquiet hstep rfl rfl (write_zero hx0 _ _) rfl rfl rfl rfl rfl) trivial
  | shift op rd rs1 shamt =>
    rw [execute_shift (s := arch cu m) hx0 hd] at hstep
    exact iff_of_true (hquiet hstep rfl rfl (write_zero hx0 _ _) rfl rfl rfl rfl rfl) trivial
  | load op rd rs1 imm => exact conformant_load hrep hrun hx0 hd hstep hacc hal
  | store op rs1 rs2 imm => exact conformant_store hrep hrun hx0 hd hstep hacc hal
  | branch op rs1 rs2 imm =>
    rw [execute_branch (s := arch cu m) hx0 hd] at hstep
    refine iff_of_true (hquiet hstep rfl rfl hx0 rfl rfl ?_ rfl rfl) trivial
    show (if _ then _ else _) = cu.pc + if _ then _ else _
    split <;> rfl
  | lui rd imm =>
    rw [execute_lui (s := arch cu m) hx0 hd] at hstep
    exact iff_of_true (hquiet hstep rfl rfl (write_zero hx0 _ _) rfl rfl rfl rfl rfl) trivial
  | auipc rd imm =>
    rw [execute_auipc (s := arch cu m) hx0 hd] at hstep
    exact iff_of_true (hquiet hstep rfl rfl (write_zero hx0 _ _) rfl rfl rfl rfl rfl) trivial
  | jal rd imm =>
    rw [execute_jal (s := arch cu m) hx0 hd] at hstep
    exact iff_of_true (hquiet hstep rfl rfl (write_zero hx0 _ _) rfl rfl rfl rfl rfl) trivial
  | jalr rd rs1 imm =>
    rw [execute_jalr (s := arch cu m) hx0 hd] at hstep
    exact iff_of_true (hquiet hstep rfl rfl (write_zero hx0 _ _) rfl rfl rfl rfl rfl) trivial
  | fence rd rs1 imm =>
    have hop : d.op = .fence := hd
    rw [execute_quiet (s := arch cu m) hx0 (.inl hop), hop] at hstep
    exact iff_of_true (hquiet hstep rfl rfl hx0 rfl rfl rfl rfl rfl) trivial
  | ecall =>
    have hop : d.op = .ecall := hd
    rw [execute_quiet (s := arch cu m) hx0 (.inr (.inl hop)), hop] at hstep
    exact iff_of_true (hquiet hstep rfl rfl hx0 rfl rfl rfl rfl rfl) trivial
  | ebreak =>
    have hop : d.op = .ebreak := hd
    rw [execute_quiet (s := arch cu m) hx0 (.inr (.inr hop)), hop] at hstep
    exact iff_of_true (hquiet hstep rfl rfl hx0 rfl rfl rfl rfl rfl) trivial

end Conformance

section Examples

/-- Some float arithmetic; the integer instructions do not look at it. -/
def zeroFloat : HostFloat where
  add _ _ := 0
  sub _ _ := 0
  mul _ _ := 0
  div _ _ := 0
  sqrt _ := 0
  mulAdd _ _ _ := 0
  mulSub _ _ _ := 0
  negMulAdd _ _ _ := 0
  negMulSub _ _ _ := 0
  eq _ _ := false
  lt _ _ := false
  le _ _ := false
  toInt32 _ := none
  toUint32 _ := none
  ofInt32 _ := 0
  ofUint32 _ := 0

/-- A unit at `0x10000` whose `x1` holds an address. -/
def unitAt (base : Word) : BinaryUnit where
  pc := 0x10000
  returnSentinel := 1
  halted := false
  blocked := false
  regs := Function.update (fun _ => 0) 1 base
  fregs := fun _ => 0
  blockId := 0
  barrierId := 0
  totalCycles := 0
  totalInstructions := 0
  maxCycles := 0

/-- `lw x2, 0(x1)` at `0x10000` and the word 5 at an address. -/
def memoryWith (base : Word) : Rv32.Mem :=
  (Rv32.Mem.write (fun _ => 0) 0x10000 [0x03, 0xA1, 0x00, 0x00]).write base [5, 0, 0, 0]

theorem fetch_memoryWith (base : Word) (h : base = 0x1000 ∨ base = 0x80000000) :
    (arch (unitAt base) (memoryWith base)).fetch = encode (.load .lw 2 1 0) := by
  rcases h with rfl | rfl <;> decide +kernel

theorem aligned_memoryWith (base : Word) (h : base = 0x1000 ∨ base = 0x80000000) :
    Rv32.Aligned (arch (unitAt base) (memoryWith base)) (.load .lw 2 1 0) := by
  rcases h with rfl | rfl
  all_goals
    show BitVec.toNat _ % 4 = 0
    decide +kernel

theorem accessed_memoryWith (base : Word) (h : base = 0x1000 ∨ base = 0x80000000) :
    ∀ a ∈ accessed (arch (unitAt base) (memoryWith base)) (.load .lw 2 1 0),
      ¬ (ofBytes 0x4000 (memoryWith base)).InWindow a := by
  have haddr : (arch (unitAt base) (memoryWith base)).address 1 0 = base := by
    show base + (0#12).signExtend 32 = base
    rw [show (0#12).signExtend 32 = 0#32 from by decide, BitVec.add_zero]
  intro a ha
  obtain ⟨k, hk, rfl⟩ := List.mem_map.1 ha
  have hlt : k < 4 := List.mem_range.1 hk
  rw [haddr]
  rintro ⟨hlow, hhigh⟩
  have hnat : (base + BitVec.ofNat 32 k).toNat = base.toNat + k := by
    rw [BitVec.toNat_add, BitVec.toNat_ofNat]
    rcases h with rfl | rfl <;> simp <;> omega
  have hsize : (ofBytes 0x4000 (memoryWith base)).sharedMemSize.toNat = 0x4000 := rfl
  rw [hnat] at hlow hhigh
  rw [hsize, sharedMemBase] at hhigh
  rw [sharedMemBase] at hlow
  rcases h with rfl | rfl
  · exact absurd hlow (by simp; omega)
  · exact absurd hhigh (by simp; omega)

theorem conformant_iff_lw :
    Conformant zeroFloat (unitAt 0x1000) (ofBytes 0x4000 (memoryWith 0x1000)) (memoryWith 0x1000)
      (.load .lw 2 1 0) :=
  (conformant_iff zeroFloat (represents_ofBytes 0x4000 (memoryWith 0x1000) 0) ⟨rfl, rfl, rfl⟩ rfl
    (by decide) (by decide) (fetch_memoryWith _ (.inl rfl)) (accessed_memoryWith _ (.inl rfl))
    (aligned_memoryWith _ (.inl rfl))).2
    ⟨by decide, .inr (by decide +kernel)⟩

/-- A word load from `0x80000000` finds zero where the host has put 5. -/
theorem not_conformant : ¬ ∀ (F : HostFloat) (cu : BinaryUnit) (h : MemoryHierarchy) (m : Rv32.Mem)
    (i : Instr), h.Represents cu.blockId m → Running cu → cu.regs 0 = 0 →
    cu.pc.toNat + 3 < 2 ^ 32 → (∀ k < 4, ¬ h.InWindow (cu.pc + BitVec.ofNat 32 k)) →
    (arch cu m).fetch = encode i → (∀ a ∈ accessed (arch cu m) i, ¬ h.InWindow a) →
    Rv32.Aligned (arch cu m) i → Conformant F cu h m i := by
  intro hall
  obtain ⟨cu', h', hs, hc⟩ := hall zeroFloat (unitAt 0x80000000)
    (ofBytes 0x4000 (memoryWith 0x80000000)) (memoryWith 0x80000000) (.load .lw 2 1 0)
    (represents_ofBytes 0x4000 _ 0) ⟨rfl, rfl, rfl⟩ rfl (by decide) (by decide)
    (fetch_memoryWith _ (.inr rfl)) (accessed_memoryWith _ (.inr rfl))
    (aligned_memoryWith _ (.inr rfl))
  have hreg : ((unitAt 0x80000000).step zeroFloat (ofBytes 0x4000 (memoryWith 0x80000000))).map
      (fun p => p.1.regs 2) = some 0 := by
    decide +kernel
  rw [hs] at hreg
  have hspec : (exec (arch (unitAt 0x80000000) (memoryWith 0x80000000)) (.load .lw 2 1 0)).regs 2 =
      5 := by
    decide +kernel
  have heq : (0 : Word) = 5 :=
    (Option.some.inj hreg).symm.trans ((congrFun hc.regs 2).trans hspec)
  exact absurd heq (by decide)

end Examples

end RiscvGpgpu.Golden
