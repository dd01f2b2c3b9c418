import RiscvGpgpu.Ptx.RvEmitter

/-!
# The registers of the emitter

While no error is set, every name has the register of the pool that it was given first, and no two
names share one.
-/

namespace RiscvGpgpu.Ptx

open Asm (Line Machine)

theorem kIRegs_nodup : kIRegs.Nodup := by decide

theorem kFRegs_nodup : kFRegs.Nodup := by decide

theorem ne_zero_of_mem_kIRegs {r : Rv32.Reg} (h : r ∈ kIRegs) : r ≠ 0 := by
  rintro rfl
  exact absurd h (by decide)

theorem ne_t6_of_mem_kIRegs {r : Rv32.Reg} (h : r ∈ kIRegs) : r ≠ t6 := by
  rintro rfl
  exact absurd h (by decide)

namespace RvEmitter

/-- The registers were given out from the pools. -/
structure Allocated (s : RvEmitter) : Prop where
  ireg : s.iregMap.Allocated kIRegs
  freg : s.fregMap.Allocated kFRegs

/-- From `s` the emitter came to `s'` without an error, and every name kept its register. -/
structure Leads (s s' : RvEmitter) : Prop where
  no_error : s.error = []
  allocated : s.Allocated → s'.Allocated
  ireg : s.iregMap.Extends s'.iregMap
  freg : s.fregMap.Extends s'.fregMap

theorem Leads.refl {s : RvEmitter} (h : s.error = []) : s.Leads s where
  no_error := h
  allocated := id
  ireg := Pool.Map.Extends.refl _
  freg := Pool.Map.Extends.refl _

theorem Leads.trans {s s' s'' : RvEmitter} (h : s.Leads s') (h' : s'.Leads s'') : s.Leads s'' where
  no_error := h.no_error
  allocated := h'.allocated ∘ h.allocated
  ireg := h.ireg.trans h'.ireg
  freg := h.freg.trans h'.freg

/-- Writing changes no register. -/
theorem Leads.write {s s' : RvEmitter} (h : s.Leads s') (l : Line) : s.Leads (s'.write l) where
  no_error := h.no_error
  allocated hs := ⟨(h.allocated hs).ireg, (h.allocated hs).freg⟩
  ireg := h.ireg
  freg := h.freg

theorem Leads.of_write {s s' : RvEmitter} {l : Line} (h : (s.write l).Leads s') : s.Leads s' where
  no_error := h.no_error
  allocated hs := h.allocated ⟨hs.ireg, hs.freg⟩
  ireg := h.ireg
  freg := h.freg

/-- No error is set, and each pool has `k` more registers. -/
structure Room (s : RvEmitter) (k : ℕ) : Prop where
  no_error : s.error = []
  ints : s.iregMap.next + k ≤ kIRegs.length
  floats : s.fregMap.next + k ≤ kFRegs.length

/-! ## Allocation -/

section Allocation

variable {s s' : RvEmitter} {name name' : List Char} {r : Rv32.Reg}

theorem ireg_spec (h : (s.ireg name).2.error = []) :
    s.Leads (s.ireg name).2 ∧ (s.ireg name).2.iregMap.find name = some (s.ireg name).1 ∧
      (s.ireg name).2.out = s.out := by
  revert h
  unfold ireg
  cases hassign : s.iregMap.assign kIRegs name with
  | none => exact fun h => absurd h (by simp)
  | some found =>
    intro h
    refine ⟨⟨h, ?_, Pool.Map.assign_extends hassign, Pool.Map.Extends.refl _⟩,
      Pool.Map.assign_find hassign, rfl⟩
    exact fun hs => ⟨Pool.Map.assign_allocated hs.ireg hassign, hs.freg⟩

theorem freg_spec (h : (s.freg name).2.error = []) :
    s.Leads (s.freg name).2 ∧ (s.freg name).2.fregMap.find name = some (s.freg name).1 ∧
      (s.freg name).2.out = s.out := by
  revert h
  unfold freg
  cases hassign : s.fregMap.assign kFRegs name with
  | none => exact fun h => absurd h (by simp)
  | some found =>
    intro h
    refine ⟨⟨h, ?_, Pool.Map.Extends.refl _, Pool.Map.assign_extends hassign⟩,
      Pool.Map.assign_find hassign, rfl⟩
    exact fun hs => ⟨hs.ireg, Pool.Map.assign_allocated hs.freg hassign⟩

theorem ireg_out : (s.ireg name).2.out = s.out := by
  unfold ireg
  split <;> rfl

theorem ireg_params : (s.ireg name).2.params = s.params := by
  unfold ireg
  split <;> rfl

theorem freg_params : (s.freg name).2.params = s.params := by
  unfold freg
  split <;> rfl

/-- While there are registers, no error is set. -/
theorem Room.ireg {k : ℕ} (h : s.Room (k + 1)) (name : List Char) : (s.ireg name).2.Room k := by
  obtain ⟨herr, hints, hfloats⟩ := h
  obtain ⟨r, m, hassign, hnext⟩ := Pool.Map.assign_of_lt (n := name)
    (show s.iregMap.next < kIRegs.length by omega)
  unfold RvEmitter.ireg
  rw [hassign]
  exact ⟨herr, by dsimp only; omega, by dsimp only; omega⟩

theorem Room.freg {k : ℕ} (h : s.Room (k + 1)) (name : List Char) : (s.freg name).2.Room k := by
  obtain ⟨herr, hints, hfloats⟩ := h
  obtain ⟨r, m, hassign, hnext⟩ := Pool.Map.assign_of_lt (n := name)
    (show s.fregMap.next < kFRegs.length by omega)
  unfold RvEmitter.freg
  rw [hassign]
  exact ⟨herr, by dsimp only; omega, by dsimp only; omega⟩

/-- The integer register of a name. -/
def intReg (s : RvEmitter) (name : List Char) : Rv32.Reg := (s.iregMap.find name).getD 0

/-- The float register of a name. -/
def floatReg (s : RvEmitter) (name : List Char) : Rv32.Reg := (s.fregMap.find name).getD 0

theorem intReg_of_find (h : s.iregMap.find name = some r) : s.intReg name = r := by
  rw [intReg, h, Option.getD_some]

theorem floatReg_of_find (h : s.fregMap.find name = some r) : s.floatReg name = r := by
  rw [floatReg, h, Option.getD_some]

/-- The name has an integer register. -/
def HasInt (s : RvEmitter) (name : List Char) : Prop := s.iregMap.find name = some (s.intReg name)

def HasFloat (s : RvEmitter) (name : List Char) : Prop :=
  s.fregMap.find name = some (s.floatReg name)

theorem hasInt_of_find (h : s.iregMap.find name = some r) : s.HasInt name := by
  rw [HasInt, intReg_of_find h, h]

theorem hasFloat_of_find (h : s.fregMap.find name = some r) : s.HasFloat name := by
  rw [HasFloat, floatReg_of_find h, h]

theorem Leads.find_int (h : s.Leads s') (hfind : s.iregMap.find name = some r) :
    s'.HasInt name ∧ s'.intReg name = r :=
  ⟨hasInt_of_find (h.ireg _ _ hfind), intReg_of_find (h.ireg _ _ hfind)⟩

theorem Leads.find_float (h : s.Leads s') (hfind : s.fregMap.find name = some r) :
    s'.HasFloat name ∧ s'.floatReg name = r :=
  ⟨hasFloat_of_find (h.freg _ _ hfind), floatReg_of_find (h.freg _ _ hfind)⟩

theorem Allocated.intReg_mem (hs : s.Allocated) (h : s.HasInt name) : s.intReg name ∈ kIRegs :=
  hs.ireg.mem h

theorem Allocated.intReg_ne_zero (hs : s.Allocated) (h : s.HasInt name) : s.intReg name ≠ 0 :=
  ne_zero_of_mem_kIRegs (hs.intReg_mem h)

theorem Allocated.intReg_ne_t6 (hs : s.Allocated) (h : s.HasInt name) : s.intReg name ≠ t6 :=
  ne_t6_of_mem_kIRegs (hs.intReg_mem h)

/-- The register of an integer is never `x0`, not even the one that is given out by mistake. -/
theorem Allocated.ireg_ne_zero (hs : s.Allocated) : (s.ireg name).1 ≠ 0 := by
  unfold RvEmitter.ireg
  cases hassign : s.iregMap.assign kIRegs name with
  | none => exact (by decide : (5 : Rv32.Reg) ≠ 0)
  | some found =>
    obtain ⟨r, m⟩ := found
    exact ne_zero_of_mem_kIRegs
      ((Pool.Map.assign_allocated hs.ireg hassign).mem (Pool.Map.assign_find hassign))

theorem Allocated.intReg_inj (hs : s.Allocated) (h : s.HasInt name) (h' : s.HasInt name') :
    s.intReg name = s.intReg name' ↔ name = name' := by
  constructor
  · intro heq
    exact hs.ireg.injective kIRegs_nodup h (heq ▸ h')
  · rintro rfl
    rfl

end Allocation

/-! ## Machines -/

/-- Some machine holds any values in the registers of names that have one. -/
theorem Allocated.exists_machine {s : RvEmitter} (hs : s.Allocated) {names : List (List Char)}
    (hnames : ∀ n ∈ names, s.HasInt n) (ρ : List Char → Rv32.Word) :
    ∃ x : Rv32.Reg → Rv32.Word, ∀ f mem frm, ∀ n ∈ names,
      Machine.get ⟨x, f, mem, frm⟩ (s.intReg n) = ρ n := by
  refine ⟨fun r => ((names.find? fun n => s.intReg n = r).map ρ).getD 0, fun f mem frm n hn => ?_⟩
  rw [Machine.get_of_ne_zero (hs.intReg_ne_zero (hnames n hn))]
  dsimp only
  cases hfind : names.find? fun n' => s.intReg n' = s.intReg n with
  | none =>
    have hnone := List.find?_eq_none.1 hfind n hn
    exact absurd (decide_eq_true rfl) hnone
  | some n' =>
    have hreg : s.intReg n' = s.intReg n := by simpa using List.find?_some hfind
    have hn' := hnames n' (List.mem_of_find?_eq_some hfind)
    obtain rfl := (hs.intReg_inj hn' (hnames n hn)).1 hreg
    rfl

end RvEmitter

theorem allocated_default : ({} : RvEmitter).Allocated :=
  ⟨Pool.Map.allocated_empty _, Pool.Map.allocated_empty _⟩

theorem accepted_of_map {s : RvEmitter} {r : Option RvEmitter}
    (h : r.map RvEmitter.error = some []) (heq : r = some s) : s.error = [] := by
  rw [heq] at h
  exact Option.some.inj h

end RiscvGpgpu.Ptx
