import RiscvGpgpu.Ptx.DataMovement

/-!
# The lines of data movement

The emitter writes its lines for registers that a kernel keeps, so that an instruction is right if
its lines are, whatever the kernel goes on to do. Machines whose registers hold one word, or all
hold different words, tell the lines of other instructions apart.
-/

namespace RiscvGpgpu.Ptx

open Asm (Line Machine Fpu run run_nil run_cons)
open Rv32 (LoadOp)
open RvEmitter

/-! ## Emission -/

section Settles

variable {s s' : RvEmitter} {c c' : Bool} {name name' : List Char}

/-- From `s` to `s'` the emitter writes the lines, which depend on registers that `has` names and
that are never given away. -/
structure Settles (s s' : RvEmitter) (has : RvEmitter → Prop) (lines : RvEmitter → List Line) :
    Prop where
  leads : s.Leads s'
  params : s'.params = s.params
  has : ∀ s'', s'.Leads s'' → has s''
  out : ∀ s'', s'.Leads s'' → s'.out = s.out ++ lines s''

theorem settles_emitPair {lines : Rv32.Reg → Rv32.Reg → List Line}
    (h : (emitPair s c name c' name' lines).error = []) :
    Settles s (emitPair s c name c' name' lines)
      (fun s => HasValue s c name ∧ HasValue s c' name')
      (fun s => lines (valueReg s c name) (valueReg s c' name')) := by
  obtain ⟨hleads, ha, hb, hout⟩ := emitPair_spec h
  refine ⟨hleads, emitValue_params.trans emitValue_params,
    fun s'' hleads'' => ⟨(ha.leads hleads'').1, (hb.leads hleads'').1⟩, fun s'' hleads'' => ?_⟩
  rw [hout, (ha.leads hleads'').2, (hb.leads hleads'').2]

theorem settles_emitValue (line : Rv32.Reg → Line)
    (h : (emitValue s c name).2.error = []) :
    Settles s ((emitValue s c name).2.write (line (emitValue s c name).1))
      (fun s => HasValue s c name) (fun s => [line (valueReg s c name)]) := by
  obtain ⟨hleads, ha, hreg, hout⟩ := emitValue_spec h
  refine ⟨hleads.write _, emitValue_params, fun s'' hleads'' => (ha.leads hleads''.of_write).1,
    fun s'' hleads'' => ?_⟩
  show (emitValue s c name).2.out ++ [_] = _
  rw [hout, hreg, (ha.leads hleads''.of_write).2]

theorem settles_write {l : Line} (h : (s.write l).error = []) :
    Settles s (s.write l) (fun _ => True) fun _ => [l] where
  leads := (Leads.refl (s := s) h).write l
  params := rfl
  has _ _ := trivial
  out _ _ := rfl

end Settles

namespace DataInstr

/-- Wherever the instruction is accepted, it has the lines. -/
def Emits (i : DataInstr) (has : RvEmitter → RvEmitter → Prop)
    (lines : RvEmitter → RvEmitter → List Line) : Prop :=
  ∀ s s', emitInstr i.instr s = some s' → s'.error = [] → Settles s s' (has s) (lines s)

/-- The lines leave the result in the registers `s`. -/
def Leaves (i : DataInstr) (params : List PtxParam) (s : RvEmitter) (ls : List Line) : Prop :=
  ∀ fpu (E : PtxThread) m, Convention E.ctx m →
    regValue s (i.isFloat i.dst) i.dst (run fpu ls m) = i.result params s fpu E m

section Emits

variable {i : DataInstr} {has : RvEmitter → RvEmitter → Prop}
  {lines : RvEmitter → RvEmitter → List Line} {s s' : RvEmitter} {c c' : Bool}
  {name name' : List Char}

end Emits

end DataInstr

/-! ## Machines that tell values apart -/

/-- The memory holds the bytes of the context from `gp` on. -/
theorem convention_of_threadCtx {ctx : Bridge.CudaThreadCtx} {m : Machine}
    (hmem : m.mem = fun a => ctx.threadCtx.getD (a - m.get gp).toNat 0) (hfrm : m.frm = .rne) :
    Convention ctx m := by
  refine ⟨fun k hk => ?_, hfrm⟩
  obtain ⟨word, hword, hbytes⟩ := Bridge.threadCtx_word ctx hk
  have hbyte : ∀ j : ℕ, j < 4 → m.mem (m.get gp + BitVec.ofNat 32 (4 * k) + BitVec.ofNat 32 j) =
      ctx.threadCtx.getD (4 * k + j) 0 := by
    intro j hj
    have hoffset : (m.get gp + BitVec.ofNat 32 (4 * k) + BitVec.ofNat 32 j - m.get gp).toNat =
        4 * k + j := by
      rw [BitVec.add_assoc, BitVec.add_comm, BitVec.add_sub_cancel, ← BitVec.ofNat_add,
        BitVec.toNat_ofNat]
      exact Nat.mod_eq_of_lt (by omega)
    rw [hmem, ← hoffset]
  rw [List.getD_eq_getElem?_getD, hword, Option.getD_some, ← hbytes, LoadOp.read]
  have hfirst := hbyte 0 (by decide)
  rw [BitVec.add_zero, Nat.add_zero] at hfirst
  rw [← hbyte 3 (by decide), ← hbyte 2 (by decide), ← hbyte 1 (by decide), ← hfirst]
  rfl

/-- The thread of a launch of one thread. -/
def loneThread : Bridge.CudaThreadCtx where
  tid := ⟨0, 0, 0⟩
  ctaid := ⟨0, 0, 0⟩
  ntid := ⟨1, 1, 1⟩
  nctaid := ⟨1, 1, 1⟩

/-- It is the only one in its warp too. -/
def loneLane : PtxThread where
  ctx := loneThread
  laneid := 0
  warpid := 0
  nwarpid := 1
  halves := ⟨fun _ _ _ _ => 0, fun _ _ _ => 0⟩
  laneid_lt := by decide
  warpid_lt := by decide

/-- All registers hold one word. -/
def level (w : Rv32.Word) : Machine :=
  ⟨fun _ => w, fun _ => w, fun a => loneThread.threadCtx.getD (a - w).toNat 0, .rne⟩

theorem convention_level (w : Rv32.Word) : Convention loneLane.ctx (level w) :=
  convention_of_threadCtx rfl rfl

section Machines

variable {s : RvEmitter} {c c' : Bool} {name name' : List Char} {w : Rv32.Word}

end Machines

/-! ## Lines between two registers -/

namespace DataInstr

section Pairs

variable {i : DataInstr} {c c' df sf : Bool} {a b name : List Char}
  {lines : Rv32.Reg → Rv32.Reg → List Line}

end Pairs

end DataInstr

end RiscvGpgpu.Ptx
