import RiscvGpgpu.Hls.GpgpuTop

/-!
# Waves

The control flow of a warp between two barriers depends on its program alone: a dispatch at a pc
ends with the same status whatever the registers and the memory hold. So every warp of a launch
goes through the same waves, from one barrier to the next. The residents of a launch are the slots
its warps live in.
-/

namespace RiscvGpgpu.Hls

/-- The status of a dispatch, from the program alone. -/
def scanStatus : ℕ → List Instruction → Word → WarpStatus
  | _, [], count => { code := .complete, instrCount := count }
  | i, instr :: rest, count =>
    if instr.opcode = .halt then { code := .complete, instrCount := count }
    else if instr.opcode = .barrier then
      { code := .stalledAtBarrier, barrierId := instr.imm, resumePc := BitVec.ofNat 16 (i + 1)
        instrCount := count + 1 }
    else scanStatus (i + 1) rest (count + 1)

theorem decodeLoop_status (P : PipelineParams) (warpId : WarpId) (i : ℕ) (code : List Instruction)
    (simt : DivergenceStack) (regs : RegFile) (count : Word) :
    (decodeLoop P warpId i code simt regs count).AllLeaves
      fun r => r.status = scanStatus i code count := by
  induction code generalizing i simt regs count with
  | nil => exact rfl
  | cons instr rest ih =>
    unfold decodeLoop scanStatus
    split
    · exact rfl
    · split
      · exact rfl
      · exact (Interact.AllLeaves.of_forall (P := fun _ => True) (fun _ => trivial) _).bind
          fun s _ => ih (i + 1) s.1 s.2 (count + 1)

namespace Launch

variable (L : Launch)

/-- The status of a dispatch that starts or resumes at `pc`. -/
def dispatchStatus (pc : BitVec 16) : WarpStatus :=
  scanStatus pc.toNat (((decodeProgram L.program L.programLen).take maxProgramLen).drop pc.toNat) 0

theorem execute_status (c : L.Cus) (d : WarpDispatch) (regs : RegFile) :
    (L.execute c d regs).AllLeaves fun r => r.status = L.dispatchStatus d.resumePc :=
  decodeLoop_status _ _ _ _ _ _ _

/-- The pc at which wave `g` starts: the launch, or the release of the `g`-th barrier. -/
def wavePc : ℕ → BitVec 16
  | 0 => 0
  | g + 1 => (L.dispatchStatus (wavePc g)).resumePc

/-- How wave `g` ends. -/
def waveStatus (g : ℕ) : WarpStatus := L.dispatchStatus (L.wavePc g)

/-! ## Residents -/

/-- The number within the launch of the warp that would live in a slot. -/
def localWarp (c : L.Cus) (slot : SlotId) : ℕ := c + slot.toNat * L.numCus

/-- A warp of the launch lives in the slot. -/
def Resident (c : L.Cus) (slot : SlotId) : Prop :=
  slot.toNat < L.maxWarpsPerCu ∧ L.localWarp c slot < L.totalWarps.toNat

instance (c : L.Cus) (slot : SlotId) : Decidable (L.Resident c slot) :=
  inferInstanceAs (Decidable (_ ∧ _))

def warpIdOf (c : L.Cus) (slot : SlotId) : WarpId :=
  L.warpIdOffset + BitVec.ofNat 32 (L.localWarp c slot)

def residents (c : L.Cus) : Finset SlotId := Finset.univ.filter (L.Resident c)

variable {L}

@[simp] theorem mem_residents {c : L.Cus} {slot : SlotId} :
    slot ∈ L.residents c ↔ L.Resident c slot := by
  simp [residents]

theorem localWarp_lt (c : L.Cus) (slot : SlotId) : L.localWarp c slot < 256 := by
  have hN := L.numCus_le
  have hslot := slot.isLt
  have hmul : slot.toNat * L.numCus ≤ 15 * 8 := Nat.mul_le_mul (by omega) hN
  unfold localWarp
  omega

theorem localWarp_mod (c : L.Cus) (slot : SlotId) : L.localWarp c slot % L.numCus = c := by
  rw [localWarp, Nat.add_mul_mod_self_right, Nat.mod_eq_of_lt c.isLt]

theorem localWarp_div (c : L.Cus) (slot : SlotId) : L.localWarp c slot / L.numCus = slot.toNat := by
  have hpos : 0 < L.numCus := lt_of_le_of_lt (Nat.zero_le _) c.isLt
  rw [localWarp, Nat.add_mul_div_right _ _ hpos, Nat.div_eq_of_lt c.isLt, Nat.zero_add]

theorem localWarp_inj {c c' : L.Cus} {slot slot' : SlotId}
    (h : L.localWarp c slot = L.localWarp c' slot') : c = c' ∧ slot = slot' := by
  refine ⟨Fin.ext ?_, BitVec.eq_of_toNat_eq ?_⟩
  · rw [← localWarp_mod c slot, h, localWarp_mod]
  · rw [← localWarp_div c slot, h, localWarp_div]

/-- Different slots hold different warps. -/
theorem warpIdOf_inj {c c' : L.Cus} {slot slot' : SlotId}
    (h : L.warpIdOf c slot = L.warpIdOf c' slot') : c = c' ∧ slot = slot' := by
  have hlt := localWarp_lt c slot
  have hlt' := localWarp_lt c' slot'
  refine localWarp_inj ?_
  have hn := congrArg BitVec.toNat (add_left_cancel h)
  rw [BitVec.toNat_ofNat, BitVec.toNat_ofNat] at hn
  omega

/-- The slot a warp of the launch lives in. -/
theorem exists_resident (hcap : L.totalWarps.toNat ≤ L.capacity) {w : ℕ}
    (hw : w < L.totalWarps.toNat) : ∃ c slot, L.Resident c slot ∧ L.localWarp c slot = w := by
  have hM := L.maxWarpsPerCu_lt
  have hcap' : w < L.numCus * L.maxWarpsPerCu := lt_of_lt_of_le hw hcap
  have hpos : 0 < L.numCus := Nat.pos_of_mul_pos_right (lt_of_le_of_lt (Nat.zero_le _) hcap')
  have hdiv : w / L.numCus < L.maxWarpsPerCu := Nat.div_lt_of_lt_mul hcap'
  have hslot : (BitVec.ofNat 4 (w / L.numCus)).toNat = w / L.numCus := by
    rw [BitVec.toNat_ofNat, Nat.mod_eq_of_lt (by omega)]
  have hlocal : L.localWarp ⟨w % L.numCus, Nat.mod_lt _ hpos⟩ (BitVec.ofNat 4 (w / L.numCus)) =
      w := by
    rw [localWarp, hslot, Nat.mul_comm]
    exact Nat.mod_add_div _ _
  exact ⟨_, _, ⟨by rwa [hslot], by rwa [hlocal]⟩, hlocal⟩

/-- The residents of all CUs are as many as the warps. -/
theorem sum_residents (hcap : L.totalWarps.toNat ≤ L.capacity) :
    ∑ c, (L.residents c).card = L.totalWarps.toNat := by
  rw [← Finset.card_sigma, ← Finset.card_range L.totalWarps.toNat]
  refine Finset.card_bij (fun p _ => L.localWarp p.1 p.2) (fun p hp => ?_) (fun p _ q _ h => ?_)
    fun w hw => ?_
  · rw [Finset.mem_sigma, mem_residents] at hp
    exact Finset.mem_range.2 hp.2.2
  · obtain ⟨hc, hslot⟩ := localWarp_inj h
    obtain ⟨c, slot⟩ := p
    obtain ⟨c', slot'⟩ := q
    obtain rfl : c = c' := hc
    obtain rfl : slot = slot' := hslot
    rfl
  · obtain ⟨c, slot, hres, heq⟩ := exists_resident hcap (Finset.mem_range.1 hw)
    exact ⟨⟨c, slot⟩, Finset.mem_sigma.2 ⟨Finset.mem_univ _, mem_residents.2 hres⟩, heq⟩

/-- What a launch puts in a slot. -/
theorem launchSlots_eq (c : L.Cus) (slots : Slots) (slot : SlotId) :
    launchSlots L.toGpuSize slots (cuId c) L.totalWarps L.warpIdOffset slot =
      if slot.toNat < L.maxWarpsPerCu then
        if L.Resident c slot then ⟨L.warpIdOf c slot, 0, 0, .ready, true⟩
        else { slots slot with state := .empty }
      else slots slot := by
  have hN := L.numCus_le
  have hlt := localWarp_lt c slot
  have hc := c.isLt
  have hlocal : (cuId c).setWidth 32 + slot.setWidth 32 * BitVec.ofNat 32 L.numCus =
      BitVec.ofNat 32 (L.localWarp c slot) := by
    refine BitVec.eq_of_toNat_eq ?_
    unfold localWarp at hlt ⊢
    rw [BitVec.toNat_add, BitVec.toNat_mul, BitVec.toNat_setWidth, BitVec.toNat_setWidth,
      BitVec.toNat_ofNat, BitVec.toNat_ofNat, cuId, BitVec.toNat_ofNat]
    have hslot := slot.isLt
    rw [Nat.mod_eq_of_lt (a := (c : ℕ)) (by omega), Nat.mod_eq_of_lt (a := (c : ℕ)) (by omega),
      Nat.mod_eq_of_lt (a := slot.toNat) (by omega), Nat.mod_eq_of_lt (a := L.numCus) (by omega),
      Nat.mod_eq_of_lt (a := slot.toNat * L.numCus) (by omega)]
  unfold launchSlots assignSlot
  dsimp only
  rw [hlocal]
  by_cases hM : slot.toNat < L.maxWarpsPerCu
  · rw [if_pos hM, if_pos hM]
    have hiff : BitVec.ofNat 32 (L.localWarp c slot) < L.totalWarps ↔ L.Resident c slot := by
      rw [BitVec.lt_def, BitVec.toNat_ofNat, Nat.mod_eq_of_lt (by omega), Resident]
      exact ⟨fun h => ⟨hM, h⟩, fun h => h.2⟩
    by_cases hres : L.Resident c slot
    · rw [if_pos (hiff.2 hres), if_pos hres]
      rfl
    · rw [if_neg fun h => hres (hiff.1 h), if_neg hres]
  · rw [if_neg hM, if_neg hM]

end Launch

end RiscvGpgpu.Hls
