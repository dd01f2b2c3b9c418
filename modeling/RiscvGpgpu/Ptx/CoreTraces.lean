import RiscvGpgpu.Ptx.CoreEmission

/-!
# The traces of core kernels

A worker that runs the lines of a kernel makes the accesses, branches and barriers of the kernel and
returns where it does: the lines are a translation of its instructions. Every name keeps its
register through all of them, and every register that the kernel is not given keeps its value but
for `t6`.
-/

namespace RiscvGpgpu.Ptx

open Asm (Line Machine Fpu Next run)
open Rv32 (RegOp LoadOp StoreOp Mem)
open RvEmitter

/-! ## Lines that nobody sees -/

/-- The line is not observed, does not jump, leaves the memory alone and writes `d` or `t6`. -/
structure Inner (d : Rv32.Reg) (l : Line) : Prop where
  event : ∀ m, observed l m = none
  next : ∀ m, l.next m = .fall
  mem : ∀ fpu m, (l.exec fpu m).mem = m.mem
  other : ∀ fpu m r, r ≠ d → r ≠ t6 → (l.exec fpu m).get r = m.get r

section Inner

variable {fpu : Fpu} {mem : List Event → Mem} {h : List Event} {l : Line} {ls : List Line}
  {m : Machine} {d e r : Rv32.Reg}

theorem Inner.quiet (hl : Inner d l) : (workerLanguage fpu mem).Quiet l :=
  fun h m => ⟨hl.event (facing mem h m), hl.next m⟩

theorem inner_of_writesOnly (he : e = d ∨ e = t6) (hevent : ∀ m, observed l m = none)
    (hnext : ∀ m, l.next m = .fall) (hwrites : WritesOnly e l) : Inner d l where
  event := hevent
  next := hnext
  mem fpu m := by
    obtain ⟨w, hw⟩ := hwrites fpu m
    rw [hw, Machine.set_mem]
  other fpu m r hd ht := by
    obtain ⟨w, hw⟩ := hwrites fpu m
    have hr : r ≠ e := by
      rintro rfl
      exact he.elim hd ht
    rw [hw, Machine.get_set_of_ne hr]

theorem facing_of_mem (hm : m.mem = mem h) : facing mem h m = m := by
  rw [facing, ← hm]

/-- The memory that the thread faces stays the same. -/
theorem facing_run (hls : ∀ l ∈ ls, Inner d l) :
    facing mem h ((workerLanguage fpu mem).run h ls m) = run fpu ls (facing mem h m) := by
  induction ls generalizing m with
  | nil => rfl
  | cons l ls ih =>
    obtain ⟨hl, hls⟩ := List.forall_mem_cons.1 hls
    have hmem : (l.exec fpu (facing mem h m)).mem = mem h := hl.mem fpu (facing mem h m)
    refine (ih hls).trans ?_
    show run fpu ls (facing mem h (l.exec fpu (facing mem h m))) = _
    rw [facing_of_mem hmem]
    rfl

theorem get_run_inner (hls : ∀ l ∈ ls, Inner d l) (hd : r ≠ d) (ht : r ≠ t6) :
    (run fpu ls m).get r = m.get r := by
  induction ls generalizing m with
  | nil => rfl
  | cons l ls ih =>
    obtain ⟨hl, hls⟩ := List.forall_mem_cons.1 hls
    rw [Asm.run_cons, ih hls, hl.other fpu m r hd ht]

theorem block_last (fpu : Fpu) (mem : List Event → Mem) (h : List Event) (l : Line) (m : Machine) :
    (workerLanguage fpu mem).Block h [l] m (observed l (facing mem h m)) (l.next m)
      (l.exec fpu (facing mem h m)) :=
  .last l m

/-- A block of such lines. -/
theorem block_inner (fpu : Fpu) (mem : List Event → Mem) (h : List Event) (m : Machine)
    (hls : ∀ l ∈ ls, Inner d l) : ∃ m',
    (workerLanguage fpu mem).Block h ls m none .fall m' ∧
      ∀ r, m'.get r = (run fpu ls (facing mem h m)).get r := by
  refine ⟨_, .quiet (fun l hl => (hls l hl).quiet) m, fun r => ?_⟩
  rw [← facing_run hls]
  rfl

/-- A block with another line behind. -/
theorem block_append (hls : ∀ l ∈ ls, Inner d l) (l : Line) :
    (workerLanguage fpu mem).Block h (ls ++ [l]) m (observed l (run fpu ls (facing mem h m)))
      (l.next (run fpu ls (facing mem h m))) (l.exec fpu (run fpu ls (facing mem h m))) := by
  have hnext : ∀ m' : Machine, l.next m' = l.next (facing mem h m') := by
    intro m'
    cases l <;> rfl
  have hlast := block_last fpu mem h l ((workerLanguage fpu mem).run h ls m)
  have hblock := Code.Language.Block.quiet_append (fun l hl => (hls l hl).quiet) hlast
  rw [← facing_run hls, ← hnext]
  exact hblock

end Inner

/-! ## The registers of the names -/

/-- The registers `s` hold the values of the names, and all but those and `t6` what they held
first. -/
structure Related (s : RvEmitter) (m₀ : Machine) (ρ : Core.Env) (m : Machine) : Prop where
  names : ∀ n, s.HasInt n → m.get (s.intReg n) = ρ n
  others : ∀ r ∉ kIRegs, r ≠ t6 → m.get r = m₀.get r

section Related

variable {s : RvEmitter} {m₀ m m' : Machine} {ρ : Core.Env} {dst : IntName} {v : Rv32.Word}

theorem Related.of_get (hs : s.Allocated) (hrel : Related s m₀ ρ m)
    (h : ∀ r, r ≠ t6 → m'.get r = m.get r) : Related s m₀ ρ m' where
  names n hn := by
    rw [h _ (hs.intReg_ne_t6 hn), hrel.names n hn]
  others r hr ht := by
    rw [h r ht, hrel.others r hr ht]

theorem Related.facing {mem : List Event → Mem} {h : List Event} (hrel : Related s m₀ ρ m) :
    Related s m₀ ρ (facing mem h m) := ⟨hrel.names, hrel.others⟩

/-- The register of a name gets its value. -/
theorem Related.set (hs : s.Allocated) (hrel : Related s m₀ ρ m) (hdst : s.HasInt dst.name)
    (hself : m'.get (s.intReg dst.name) = v)
    (hother : ∀ r, r ≠ s.intReg dst.name → r ≠ t6 → m'.get r = m.get r) :
    Related s m₀ (ρ.set dst v) m' where
  names n hn := by
    by_cases heq : n = dst.name
    · subst heq
      rw [hself]
      exact (Function.update_self dst.name v ρ).symm
    · have hreg : s.intReg n ≠ s.intReg dst.name := mt (hs.intReg_inj hn hdst).1 heq
      rw [hother _ hreg (hs.intReg_ne_t6 hn), hrel.names n hn]
      exact (Function.update_of_ne heq v ρ).symm
  others r hr ht := by
    have hreg : r ≠ s.intReg dst.name := by
      rintro rfl
      exact hr (hs.intReg_mem hdst)
    rw [hother r hreg ht, hrel.others r hr ht]

end Related

/-! ## Instruction by instruction -/

section Instructions

variable {fpu : Fpu} {params : List PtxParam} {E : Surroundings} {s : RvEmitter} {m₀ : Machine}
  {H : Set (List Event)} {i : Core} {dst a b base src pred : IntName} {offset : ℤ}

/-- The lines of the instruction do to a machine what the instruction does to its values. -/
def Core.Simulated (fpu : Fpu) (params : List PtxParam) (E : Surroundings) (H : Set (List Event))
    (s : RvEmitter) (m₀ : Machine) (i : Core) : Prop :=
  ∀ h ∈ H, ∀ ρ m, Related s m₀ ρ m → ∃ m',
    (workerLanguage fpu E.mem).Block h (i.lines params s) m
      (Core.event E h i ρ) (Core.next i ρ) m' ∧
      Related s m₀ (Core.exec params E h i ρ) m'

/-- The lines only compute the value of a name. -/
theorem simulated_of_inner (hs : s.Allocated) (hdst : s.HasInt dst.name)
    (hinner : ∀ l ∈ i.lines params s, Inner (s.intReg dst.name) l)
    (hquiet : ∀ h ρ, Core.event E h i ρ = none ∧ Core.next i ρ = .fall)
    (hexec : ∀ h ∈ H, ∀ ρ m, Related s m₀ ρ m → m.mem = E.mem h → Core.exec params E h i ρ =
      ρ.set dst ((run fpu (i.lines params s) m).get (s.intReg dst.name))) :
    i.Simulated fpu params E H s m₀ := by
  intro h hh ρ m hrel
  obtain ⟨m', hblock, hget⟩ := block_inner fpu E.mem h m hinner
  rw [(hquiet h ρ).1, (hquiet h ρ).2, hexec h hh ρ (facing E.mem h m) hrel.facing rfl]
  refine ⟨m', hblock, hrel.set hs hdst (hget _) fun r hd ht => ?_⟩
  rw [hget, get_run_inner hinner hd ht]
  rfl

/-- The one line changes nothing, and does what the instruction does. -/
theorem simulated_of_last {l : Line} (hlines : i.lines params s = [l])
    (hkeeps : ∀ m, l.exec fpu m = m) (hexec : ∀ h ρ, Core.exec params E h i ρ = ρ)
    (hdoes : ∀ h ρ m, Related s m₀ ρ m →
      observed l m = Core.event E h i ρ ∧ l.next m = Core.next i ρ) :
    i.Simulated fpu params E H s m₀ := by
  intro h _ ρ m hrel
  have hblock := block_last fpu E.mem h l m
  rw [(hdoes h ρ _ hrel.facing).1, (hdoes h ρ m hrel).2, hkeeps] at hblock
  rw [hlines, hexec]
  exact ⟨facing E.mem h m, hblock, hrel.facing⟩

theorem simulated_label (name : List Char) (named : name ≠ []) :
    (Core.label name named).Simulated fpu params E H s m₀ :=
  simulated_of_last rfl (fun _ => rfl) (fun _ _ => rfl) fun _ _ _ _ => ⟨rfl, rfl⟩

theorem simulated_ldParam (hs : s.Allocated) (hstart : WorkerStart E H m₀) {type : WordType}
    {param : List Char} (hhas : (Core.ldParam type dst param).Has params s) :
    (Core.ldParam type dst param).Simulated fpu params E H s m₀ := by
  obtain ⟨⟨-, q, hfind, hindex⟩, hnames⟩ := hhas
  have hdst : s.HasInt dst.name := hnames _ (List.mem_singleton_self _)
  have hlt : q.index.toNat < 8 := by
    rw [BitVec.toInt_eq_toNat_cond] at hindex
    split_ifs at hindex <;> omega
  have hreg : argumentReg params param = BitVec.ofNat 5 (10 + q.index.toNat) := by
    rw [argumentReg, hfind]
  have hvalue : Core.param params E param = E.args q.index.toNat := by
    rw [Core.param, hfind]
  have hout : BitVec.ofNat 5 (10 + q.index.toNat) ∉ kIRegs ∧
      BitVec.ofNat 5 (10 + q.index.toNat) ≠ t6 := by
    generalize q.index.toNat = n at hlt
    interval_cases n <;> decide
  refine simulated_of_inner hs hdst ?_ (fun _ _ => ⟨rfl, rfl⟩) fun h hh ρ m hrel hmem => ?_
  · intro l hl
    obtain rfl := List.mem_singleton.1 hl
    exact inner_of_writesOnly (.inl rfl) (fun _ => rfl) (fun _ => rfl) fun _ _ => ⟨_, rfl⟩
  · have harg : m.get (argumentReg params param) = Core.param params E param := by
      rw [hreg, hrel.others _ hout.1 hout.2, hstart.args _ hlt, hvalue]
    refine congrArg (ρ.set dst) (harg.symm.trans ?_)
    exact (Machine.get_set_self (hs.intReg_ne_zero hdst)).symm

theorem simulated_movReg (hs : s.Allocated) (hhas : (Core.movReg dst src).Has params s) :
    (Core.movReg dst src).Simulated fpu params E H s m₀ := by
  have hdst : s.HasInt dst.name := hhas.2 _ List.mem_cons_self
  have hsrc : s.HasInt src.name := hhas.2 _ (List.mem_cons_of_mem _ List.mem_cons_self)
  have hlines : (Core.movReg dst src).lines params s =
      if s.intReg dst.name ≠ s.intReg src.name then
        [.mv (s.intReg dst.name) (s.intReg src.name)] else [] := rfl
  refine simulated_of_inner hs hdst ?_ (fun _ _ => ⟨rfl, rfl⟩) fun h hh ρ m hrel hmem => ?_
  · intro l hl
    rw [hlines] at hl
    split_ifs at hl
    · obtain rfl := List.mem_singleton.1 hl
      exact inner_of_writesOnly (.inl rfl) (fun _ => rfl) (fun _ => rfl) fun _ _ => ⟨_, rfl⟩
    · exact absurd hl List.not_mem_nil
  · refine congrArg (ρ.set dst) ((hrel.names _ hsrc).symm.trans ?_)
    rw [hlines]
    split_ifs with hne
    · exact (Machine.get_set_self (hs.intReg_ne_zero hdst)).symm
    · exact congrArg m.get (not_not.1 hne).symm

theorem simulated_movImm (hs : s.Allocated) {v : Imm32} (hhas : (Core.movImm dst v).Has params s) :
    (Core.movImm dst v).Simulated fpu params E H s m₀ := by
  have hdst : s.HasInt dst.name := hhas.2 _ List.mem_cons_self
  refine simulated_of_inner hs hdst ?_ (fun _ _ => ⟨rfl, rfl⟩) fun h hh ρ m hrel hmem => ?_
  · intro l hl
    obtain rfl := List.mem_singleton.1 hl
    exact inner_of_writesOnly (.inl rfl) (fun _ => rfl) (fun _ => rfl) fun _ _ => ⟨_, rfl⟩
  · have hvalue : (run fpu [.li (s.intReg dst.name) v.val] m).get
        (s.intReg dst.name) = BitVec.ofInt 32 v.val :=
      Machine.get_set_self (hs.intReg_ne_zero hdst)
    exact congrArg (ρ.set dst) hvalue.symm

/-- Nobody sees a load from the context. -/
theorem inner_context (d : Rv32.Reg) (offset : ℤ) : Inner d (.load .lw d offset gp) := by
  have hevent : ∀ m, observed (.load .lw d offset gp) m = none := by
    intro m
    unfold observed
    exact if_pos rfl
  have hwrites : WritesOnly d (.load .lw d offset gp) :=
    fun fpu m => ⟨LoadOp.lw.read m.mem (m.address gp offset), rfl⟩
  exact inner_of_writesOnly (.inl rfl) hevent (fun _ => rfl) hwrites

theorem simulated_movPlace (hs : s.Allocated) (hstart : WorkerStart E H m₀) {r : PlaceReg}
    {axis : Axis}
    {known : r ≠ .nctaid} (hhas : (Core.movPlace dst r axis known).Has params s) :
    (Core.movPlace dst r axis known).Simulated fpu params E H s m₀ := by
  have hdst : s.HasInt dst.name := hhas.2 _ List.mem_cons_self
  obtain ⟨hindex, -, -, hword⟩ := contextIndex_spec known axis
  refine simulated_of_inner hs hdst ?_ (fun _ _ => ⟨rfl, rfl⟩) fun h hh ρ m hrel hmem => ?_
  · intro l hl
    obtain rfl := List.mem_singleton.1 hl
    exact inner_context _ _
  · have hgp : m.get gp = m₀.get gp := hrel.others gp (by decide) (by decide)
    have hload : LoadOp.lw.read m.mem
        (m.address gp ((4 * contextIndex r axis : ℕ) : ℤ)) = axis.component (r.value E.ctx) := by
      rw [← hword, ← hstart.context h hh _ hindex, Machine.address, hgp, BitVec.ofInt_natCast, hmem]
    refine congrArg (ρ.set dst) (hload.symm.trans ?_)
    exact (Machine.get_set_self (hs.intReg_ne_zero hdst)).symm

/-! ### Accesses -/

theorem inner_baseLines (s : RvEmitter) (address : Address) (d : Rv32.Reg) :
    ∀ l ∈ MemInstr.baseLines s address, Inner d l := by
  intro l hl
  cases address with
  | global base => exact absurd hl List.not_mem_nil
  | shared base =>
    obtain rfl | hl := List.mem_cons.1 hl
    · exact inner_of_writesOnly (.inr rfl) (fun _ => rfl) (fun _ => rfl) fun _ _ => ⟨_, rfl⟩
    · obtain rfl := List.mem_singleton.1 hl
      exact inner_of_writesOnly (.inr rfl) (fun _ => rfl) (fun _ => rfl) fun _ _ => ⟨_, rfl⟩
  | symbol name =>
    obtain rfl := List.mem_singleton.1 hl
    exact inner_of_writesOnly (.inr rfl) (fun _ => rfl) (fun _ => rfl) fun _ _ => ⟨_, rfl⟩

/-- Behind the lines for the base, which only write `t6`, the address is that of the access. -/
theorem exists_based (fpu : Fpu) (E : Surroundings) (hs : s.Allocated) (hbase : s.HasInt base.name)
    {ρ : Core.Env} {m : Machine}
    (hrel : Related s m₀ ρ m) (space : Space) (offset : ℤ) (h : List Event) : ∃ m₁,
      Related s m₀ ρ m₁ ∧ m₁.mem = E.mem h ∧
      m₁.address (MemInstr.baseReg s (space.address base.name)) offset =
        Core.start space base offset ρ ∧
      ∀ l, (workerLanguage fpu E.mem).Block h
        (MemInstr.baseLines s (space.address base.name) ++ [l])
        m (observed l m₁) (l.next m₁) (l.exec fpu m₁) := by
  have hbased : ∀ name, (space.address base.name).base = some name → s.HasInt name := by
    intro name hname
    cases space <;> exact Option.some.inj hname ▸ hbase
  have hframe : OnlyT6 (facing E.mem h m)
      (run fpu (MemInstr.baseLines s (space.address base.name)) (facing E.mem h m)) :=
    onlyT6_baseLines
  have hget : (facing E.mem h m).get (s.intReg base.name) = ρ base.name := hrel.names _ hbase
  refine ⟨_, hrel.of_get hs hframe.get, hframe.mem, ?_,
    block_append (inner_baseLines s (space.address base.name) t6)⟩
  rw [Machine.address, get_baseReg hs hbased]
  cases space with
  | global => exact congrArg (· + BitVec.ofInt 32 offset) hget
  | shared =>
    refine Eq.trans ?_ (BitVec.add_assoc _ _ _)
    exact congrArg (fun w => 0x00400000 + w + BitVec.ofInt 32 offset) hget

theorem baseReg_ne_gp (hs : s.Allocated) (hbase : s.HasInt base.name) (space : Space) :
    MemInstr.baseReg s (space.address base.name) ≠ gp := by
  cases space with
  | global =>
    have hgp : gp ∉ kIRegs := by decide
    exact fun heq => hgp (heq ▸ hs.intReg_mem hbase)
  | shared => exact (by decide : t6 ≠ gp)

theorem simulated_ld (hs : s.Allocated) {space : Space} {type : WordType}
    (hhas : (Core.ld space type dst base offset).Has params s) :
    (Core.ld space type dst base offset).Simulated fpu params E H s m₀ := by
  intro h _ ρ m hrel
  have hbase : s.HasInt base.name := hhas.2 _ List.mem_cons_self
  have hdst : s.HasInt dst.name := hhas.2 _ (List.mem_cons_of_mem _ List.mem_cons_self)
  obtain ⟨m₁, hrel₁, hmem, haddress, hblock⟩ :=
    exists_based fpu E hs hbase hrel space offset h
  have hload : LoadOp.lw.read m₁.mem
      (m₁.address (MemInstr.baseReg s (space.address base.name)) offset) =
        LoadOp.lw.read (E.mem h) (Core.start space base offset ρ) := by
    rw [hmem, haddress]
  have hevent : observed
      (.load .lw (s.intReg dst.name) offset (MemInstr.baseReg s (space.address base.name))) m₁ =
        Core.event E h (.ld space type dst base offset) ρ := by
    unfold observed
    dsimp only
    rw [if_neg (baseReg_ne_gp hs hbase space), hload, haddress]
    rfl
  refine ⟨_, hevent ▸ hblock _, hrel₁.set hs hdst ?_ fun r hr _ => Machine.get_set_of_ne hr⟩
  exact (Machine.get_set_self (hs.intReg_ne_zero hdst)).trans hload

theorem simulated_st (hs : s.Allocated) {space : Space} {type : WordType}
    (hhas : (Core.st space type base offset src).Has params s) :
    (Core.st space type base offset src).Simulated fpu params E H s m₀ := by
  intro h _ ρ m hrel
  have hbase : s.HasInt base.name := hhas.2 _ List.mem_cons_self
  have hsrc : s.HasInt src.name := hhas.2 _ (List.mem_cons_of_mem _ List.mem_cons_self)
  obtain ⟨m₁, hrel₁, -, haddress, hblock⟩ :=
    exists_based fpu E hs hbase hrel space offset h
  let l := Line.store .sw (s.intReg src.name) offset (MemInstr.baseReg s (space.address base.name))
  have hevent : observed l m₁ = Core.event E h (.st space type base offset src) ρ := by
    show some (Event.store .sw _ (m₁.get (s.intReg src.name))) = _
    rw [haddress, hrel₁.names _ hsrc]
    rfl
  exact ⟨l.exec fpu m₁, hevent ▸ hblock l, hrel₁.names, hrel₁.others⟩

/-! ### Arithmetic -/

section Arithmetic

variable {d x : Rv32.Reg} {m : Machine} {l : Line} {v : ℤ}

theorem inner_reg {op : RegOp} (y : Rv32.Reg) : Inner d (.reg op d x y) :=
  inner_of_writesOnly (.inl rfl) (fun _ => rfl) (fun _ => rfl) fun _ _ => ⟨_, rfl⟩

theorem inner_liLines {op : RegOp} (hl : l ∈ [.li t6 v, .reg op d x t6]) : Inner d l := by
  obtain rfl | hl := List.mem_cons.1 hl
  · exact inner_of_writesOnly (.inr rfl) (fun _ => rfl) (fun _ => rfl) fun _ _ => ⟨_, rfl⟩
  · obtain rfl := List.mem_singleton.1 hl
    exact inner_reg t6

theorem inner_addLines (hl : l ∈ addLines d x v) : Inner d l := by
  unfold addLines at hl
  split_ifs at hl
  · exact inner_liLines hl
  · obtain rfl := List.mem_singleton.1 hl
    exact inner_of_writesOnly (.inl rfl) (fun _ => rfl) (fun _ => rfl) fun _ _ => ⟨_, rfl⟩

theorem get_addLines (hd : d ≠ 0) (hx : x ≠ t6) :
    (run fpu (addLines d x v) m).get d = m.get x + BitVec.ofInt 32 v := by
  unfold addLines
  split_ifs
  · exact get_liLines hd hx
  · exact Machine.get_set_self hd

theorem inner_aluLines (op : AluOp) (s : RvEmitter) (y : Src) :
    ∀ l ∈ op.lines s d x y, Inner d l := by
  intro l hl
  cases y with
  | reg name =>
    obtain rfl := List.mem_singleton.1 hl
    exact inner_reg (s.intReg name)
  | imm v =>
    cases op with
    | add | sub => exact inner_addLines hl
    | and | or | xor => exact inner_liLines hl

theorem get_aluLines {op : AluOp} {y : Src} {ρ : Core.Env} (hd : d ≠ 0) (hx : x ≠ t6)
    (hy : ∀ name, y = .reg name → m.get (s.intReg name) = ρ name) :
    (run fpu (op.lines s d x y) m).get d = op.eval (m.get x) (y.value ρ false) := by
  cases y with
  | reg name =>
    refine (Machine.get_set_self hd).trans ?_
    rw [hy name rfl]
    cases op <;> rfl
  | imm v =>
    cases op with
    | add => exact get_addLines hd hx
    | sub =>
      refine (get_addLines hd hx).trans ?_
      rw [BitVec.ofInt_neg, ← BitVec.sub_eq_add_neg]
      rfl
    | and | or | xor => exact get_liLines hd hx

/-- The lines of a comparison are such lines too. -/
theorem inner_regLines {signed : Bool} {y : Rv32.Reg} {rel : Relation}
    (hl : l ∈ regLines signed d x y rel) : Inner d l := by
  have hunseen : (∀ m, observed l m = none) ∧ ∀ m, l.next m = .fall := by
    cases rel <;> simp only [regLines, List.mem_cons, List.not_mem_nil, or_false] at hl <;>
      (first | (subst hl; exact ⟨fun _ => rfl, fun _ => rfl⟩)
             | (rcases hl with rfl | rfl <;> exact ⟨fun _ => rfl, fun _ => rfl⟩))
  exact inner_of_writesOnly (.inl rfl) hunseen.1 hunseen.2 (regLines_writesOnly l hl)

end Arithmetic

theorem simulated_alu (hs : s.Allocated) {op : AluOp} {type : WordType} {y : Src}
    (hhas : (Core.alu op type dst a y).Has params s) :
    (Core.alu op type dst a y).Simulated fpu params E H s m₀ := by
  obtain ⟨hdst, ha, hy⟩ : s.HasInt dst.name ∧ s.HasInt a.name ∧
      ∀ name, y = .reg name → s.HasInt name := by
    cases y with
    | reg name => simpa [Core.names] using hhas.2
    | imm v => simpa [Core.names] using hhas.2
  refine simulated_of_inner hs hdst (inner_aluLines op s y) (fun _ _ => ⟨rfl, rfl⟩) ?_
  intro h _ ρ m hrel _
  have hvalue : (run fpu (op.lines s (s.intReg dst.name) (s.intReg a.name) y)
      m).get (s.intReg dst.name) = op.eval (ρ a.name) (y.value ρ false) := by
    rw [get_aluLines (hs.intReg_ne_zero hdst) (hs.intReg_ne_t6 ha)
      fun name hname => hrel.names _ (hy name hname)]
    exact congrArg (fun w => op.eval w (y.value ρ false)) (hrel.names _ ha)
  exact congrArg (ρ.set dst) hvalue.symm

theorem simulated_mulLo (hs : s.Allocated) {type : WordType}
    (hhas : (Core.mulLo type dst a b).Has params s) :
    (Core.mulLo type dst a b).Simulated fpu params E H s m₀ := by
  obtain ⟨hdst, ha, hb⟩ : s.HasInt dst.name ∧ s.HasInt a.name ∧ s.HasInt b.name := by
    simpa [Core.names] using hhas.2
  refine simulated_of_inner hs hdst ?_ (fun _ _ => ⟨rfl, rfl⟩) fun h hh ρ m hrel hmem => ?_
  · intro l hl
    obtain rfl := List.mem_singleton.1 hl
    exact inner_reg (s.intReg b.name)
  · have hvalue : (run fpu [.reg .mul (s.intReg dst.name) (s.intReg a.name) (s.intReg b.name)]
        m).get (s.intReg dst.name) = ρ a.name * ρ b.name := by
      refine (Machine.get_set_self (hs.intReg_ne_zero hdst)).trans ?_
      rw [regOp_mul, ← hrel.names _ ha, ← hrel.names _ hb]
    exact congrArg (ρ.set dst) hvalue.symm

theorem simulated_setp (hs : s.Allocated) {rel : Relation} {type : SetpType}
    (hhas : (Core.setp rel type dst a b).Has params s) :
    (Core.setp rel type dst a b).Simulated fpu params E H s m₀ := by
  obtain ⟨hdst, ha, hb⟩ : s.HasInt dst.name ∧ s.HasInt a.name ∧ s.HasInt b.name := by
    simpa [Core.names] using hhas.2
  refine simulated_of_inner hs hdst (fun l hl => inner_regLines hl) (fun _ _ => ⟨rfl, rfl⟩) ?_
  intro h _ ρ m hrel _
  have hvalue : (run fpu (regLines (decide (type = .s32)) (s.intReg dst.name) (s.intReg a.name)
      (s.intReg b.name) rel) m).get (s.intReg dst.name) =
        Rv32.ofBool ((Core.comparison rel type dst a b).holds ρ) := by
    refine (get_regLines (hs.intReg_ne_zero hdst)).trans ?_
    show Rv32.ofBool (rel.holds _ (m.get (s.intReg a.name)) (m.get (s.intReg b.name))) = _
    rw [hrel.names _ ha, hrel.names _ hb]
    rfl
  exact congrArg (ρ.set dst) hvalue.symm

/-! ### Branches and barriers -/

theorem simulated_bra (target : List Char) : (Core.bra target).Simulated fpu params E H s m₀ :=
  simulated_of_last rfl (fun _ => rfl) (fun _ _ => rfl) fun _ _ _ _ => ⟨rfl, rfl⟩

theorem simulated_braIf {predNot : Bool} {target : List Char}
    (hhas : (Core.braIf pred predNot target).Has params s) :
    (Core.braIf pred predNot target).Simulated fpu params E H s m₀ := by
  have hpred : s.HasInt pred.name := hhas.2 _ (List.mem_singleton_self _)
  cases predNot with
  | true =>
    refine simulated_of_last (l := .beqz (s.intReg pred.name) target) rfl (fun _ => rfl)
      (fun _ _ => rfl) fun h ρ m hrel => ?_
    show some (Event.jump target (m.get (s.intReg pred.name) = 0)) = _ ∧
      (if m.get (s.intReg pred.name) = 0 then Next.goto target else .fall) = _
    rw [hrel.names _ hpred]
    exact ⟨rfl, by simp [Core.next, Core.taken]⟩
  | false =>
    refine simulated_of_last (l := .bnez (s.intReg pred.name) target) rfl (fun _ => rfl)
      (fun _ _ => rfl) fun h ρ m hrel => ?_
    show some (Event.jump target (m.get (s.intReg pred.name) ≠ 0)) = _ ∧
      (if m.get (s.intReg pred.name) ≠ 0 then Next.goto target else .fall) = _
    rw [hrel.names _ hpred]
    exact ⟨rfl, by simp [Core.next, Core.taken]⟩

theorem simulated_barSync {id : ℤ} (hhas : (Core.barSync id).Has params s) :
    (Core.barSync id).Simulated fpu params E H s m₀ := by
  obtain ⟨hlow, hhigh⟩ := hhas.1
  have hid : barrierId ((BitVec.ofInt 32 id <<< 20) ||| 0x0B) = some (BitVec.ofInt 32 id) := by
    interval_cases id <;> rfl
  exact simulated_of_last rfl (fun _ => rfl) (fun _ _ => rfl)
    fun _ _ _ _ => ⟨congrArg (Option.map Event.barrier) hid, rfl⟩

theorem simulated_ret (hstart : WorkerStart E H m₀) : Core.ret.Simulated fpu params E H s m₀ := by
  refine simulated_of_last rfl (fun _ => rfl) (fun _ _ => rfl) fun h ρ m hrel => ⟨?_, rfl⟩
  have hra : m.get 1 = E.returnSentinel :=
    (hrel.others 1 (by decide) (by decide)).trans hstart.sentinel
  exact congrArg (fun w => some (Event.ret w)) hra

/-- Every instruction that the emitter accepts is simulated. -/
theorem Core.simulated (hs : s.Allocated) (hstart : WorkerStart E H m₀) (hhas : i.Has params s) :
    i.Simulated fpu params E H s m₀ := by
  cases i with
  | label name named => exact simulated_label name named
  | ldParam type dst param => exact simulated_ldParam hs hstart hhas
  | movReg dst src => exact simulated_movReg hs hhas
  | movImm dst v => exact simulated_movImm hs hhas
  | movPlace dst r axis known => exact simulated_movPlace hs hstart hhas
  | ld space type dst base offset => exact simulated_ld hs hhas
  | st space type base offset src => exact simulated_st hs hhas
  | alu op type dst a b => exact simulated_alu hs hhas
  | mulLo type dst a b => exact simulated_mulLo hs hhas
  | setp rel type dst a b => exact simulated_setp hs hhas
  | bra target => exact simulated_bra target
  | braIf pred predNot target => exact simulated_braIf hhas
  | barSync id => exact simulated_barSync hhas
  | ret => exact simulated_ret hstart

end Instructions

/-! ## Kernels -/

section Kernels

variable {fpu : Fpu} {K : CoreKernel} {E : Surroundings} {s : RvEmitter} {m₀ : Machine}
  {ls : List Line}

/-- The name of the kernel is the only label around the lines of its body. -/
theorem labels_around (name : List Char) (mem : List Event → Mem) :
    (header name ++ [sizeLine name]).filterMap (workerLanguage fpu mem).label = [name] := rfl

theorem labels_addLines (d x : Rv32.Reg) (v : ℤ) (mem : List Event → Mem) :
    (addLines d x v).filterMap (workerLanguage fpu mem).label = [] := by
  unfold addLines
  split_ifs <;> rfl

/-- The lines of an instruction have its label. -/
theorem labels_lines (fpu : Fpu) (E : Surroundings) (params : List PtxParam) (s : RvEmitter)
    (i : Core) :
    (i.lines params s).filterMap (workerLanguage fpu E.mem).label =
      ((Core.language params E).label i).toList := by
  cases i with
  | movReg dst src =>
    show (if _ then _ else _ : List Line).filterMap _ = []
    split_ifs <;> rfl
  | ld space type dst base offset | st space type base offset src => cases space <;> rfl
  | alu op type dst a y =>
    cases y with
    | reg name => rfl
    | imm v =>
      cases op with
      | add | sub => exact labels_addLines _ _ _ _
      | and | or | xor => rfl
  | setp rel type dst a b => cases rel <;> rfl
  | braIf pred predNot target => cases predNot <;> rfl
  | _ => rfl

namespace CoreKernel

/-- The lines of a kernel as a translation of its instructions. -/
def translation (fpu : Fpu) (K : CoreKernel) (hs : s.Allocated)
    (hstart : WorkerStart E (K.traces E) m₀) (hhas : ∀ i ∈ K.body, i.Has K.kernel.params s) :
    Code.Translation (Core.language K.kernel.params E) (workerLanguage fpu E.mem) where
  code := K.body
  start := fun _ => 0
  block i := i.lines K.kernel.params s
  before := header K.kernel.name
  behind := [sizeLine K.kernel.name]
  Rel := Related s m₀
  blocks i hi h hh ρ m hrel := Core.simulated hs hstart (hhas i hi) h hh ρ m hrel
  labels i hi name hlabel := by
    cases i with
    | label name' named => exact ⟨.label name', rfl, hlabel⟩
    | _ => exact absurd hlabel (Option.some_ne_none name).symm
  unlabelled i hi hlabel l hl := by
    have hlabels := labels_lines fpu E K.kernel.params s i
    rw [hlabel] at hlabels
    exact List.filterMap_eq_nil_iff.1 hlabels l hl
  inside i hi h ρ name hnext l hl hlabel := by
    have hmem := List.mem_filterMap.2 ⟨l, hl, hlabel⟩
    rw [labels_around] at hmem
    obtain rfl := List.mem_singleton.1 hmem
    exact K.resolved i hi (Core.target_of_next hnext)
  returns := ⟨.ret, K.returns, fun _ _ => rfl⟩

/-- The text starts at the name of the kernel, in front of two comments. -/
theorem place_name (name : List Char) (ls : List Line) (mem : List Event → Mem) :
    (workerLanguage fpu mem).place (header name ++ ls) name = some 3 := by
  simp [Code.Language.place, header, workerLanguage, List.findIdx?_cons]

theorem traces_header (name : List Char) (ls : List Line) (mem : List Event → Mem) (m : Machine) :
    (workerLanguage fpu mem).traces (header name ++ ls) 3 m =
      (workerLanguage fpu mem).traces (header name ++ ls) (header name).length
        (facing mem [] m) := by
  have hlabel : (workerLanguage fpu mem).Quiet (.label name) := fun _ _ => ⟨rfl, rfl⟩
  have hcomment : ∀ text, (workerLanguage fpu mem).Quiet (.comment text) :=
    fun _ _ _ => ⟨rfl, rfl⟩
  refine (hlabel.traces_succ rfl m).trans ?_
  refine ((hcomment _).traces_succ rfl _).trans ?_
  exact (hcomment _).traces_succ rfl _

/-- The text that the emitter writes for a kernel has the accesses, branches, barriers and the
return of the kernel, whatever is in memory. -/
theorem traces_emit (K : CoreKernel) (fpu : Fpu) (hemit : emit K.kernel = some (.text ls))
    (hstart : WorkerStart E (K.traces E) m₀) :
    ∃ pc, (workerLanguage fpu E.mem).place ls K.kernel.name = some pc ∧
      (workerLanguage fpu E.mem).traces ls pc m₀ = K.traces E := by
  obtain ⟨s, hs, hhas, rfl⟩ := emit_lines K.parsed hemit
  have hrel : Related s m₀ (fun _ => 0) m₀ :=
    ⟨fun n hn => hstart.rest _ (hs.intReg_mem hn), fun _ _ _ => rfl⟩
  refine ⟨3, place_name _ _ _, (traces_header _ _ _ _).trans ?_⟩
  exact (translation fpu K hs hstart hhas).traces_eq hrel.facing

/-- Threads with a number of at least `n` skip a store and wait for the others. -/
def sample : CoreKernel :=
  let n : IntName := ⟨"r0".toList, by decide, by decide⟩
  let tid : IntName := ⟨"r1".toList, by decide, by decide⟩
  let last : IntName := ⟨"p0".toList, by decide, by decide⟩
  let body : List Core :=
    [.ldParam .u32 n "n".toList, .movPlace tid .tid .x (by decide), .setp .ge .u32 last tid n,
      .braIf last false "done".toList, .st .shared .u32 tid 16 n, .label "done".toList (by decide),
      .barSync 1, .ret]
  { kernel :=
      { name := "sample".toList, params := [{ name := "n".toList }], body := body.map Core.instr }
    body := body
    parsed := rfl
    returns := rfl
    resolved := by decide }

def sampleSurroundings : Surroundings where
  args _ := 0
  ctx := loneThread
  returnSentinel := 0
  mem _ := (level 0).mem

theorem get_level_zero (r : Rv32.Reg) : (level 0).get r = 0 := ite_self 0

theorem workerStart_level (H : Set (List Event)) : WorkerStart sampleSurroundings H (level 0) where
  args _ _ := get_level_zero _
  context _ _ := (convention_level 0).context
  sentinel := get_level_zero 1
  rest _ _ := get_level_zero _

theorem traces_emit_sample : ∃ ls, emit sample.kernel = some (.text ls) ∧
    ∃ pc, (workerLanguage default sampleSurroundings.mem).place ls sample.kernel.name = some pc ∧
      (workerLanguage default sampleSurroundings.mem).traces ls pc (level 0) =
        sample.traces sampleSurroundings := by
  have hemit : ∃ ls, emit sample.kernel = some (.text ls) := ⟨_, rfl⟩
  obtain ⟨ls, hls⟩ := hemit
  exact ⟨ls, hls, traces_emit sample default hls (workerStart_level _)⟩

end CoreKernel

end Kernels

end RiscvGpgpu.Ptx
