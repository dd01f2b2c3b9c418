import RiscvGpgpu.Hls.Types

/-!
# Warp slots

`cu_dispatch_unit.h`: the resident warps of one CU. Warp `w` of a launch belongs to CU
`w % NUM_CUS` and lives in slot `w / NUM_CUS` of it. `slots` is the array of the scheduler process,
of which the slots below `MAX_WARPS_PER_CU` are in use.
-/

namespace RiscvGpgpu.Hls

/-- The fixed sizes of a build. A slot number has four bits, and `INVALID_SLOT` must fit. -/
structure GpuSize where
  numCus : ℕ
  maxWarpsPerCu : ℕ
  numCus_le : numCus ≤ 8
  maxWarpsPerCu_lt : maxWarpsPerCu < 16

/-- Two CUs with a slot each. -/
def twoCus : GpuSize := ⟨2, 1, by decide, by decide⟩

/-- One CU with one slot. -/
def oneCu : GpuSize := ⟨1, 1, by decide, by decide⟩

abbrev Slots := SlotId → WarpSlot

namespace GpuSize

variable (G : GpuSize)

/-- `NUM_CUS * MAX_WARPS_PER_CU`. -/
def capacity : ℕ := G.numCus * G.maxWarpsPerCu

theorem capacity_lt : G.capacity < 2 ^ 32 := by
  have := Nat.mul_le_mul G.numCus_le (Nat.le_of_lt G.maxWarpsPerCu_lt)
  unfold capacity
  omega

/-- `INVALID_SLOT`. -/
def invalidSlot : SlotId := BitVec.ofNat 4 G.maxWarpsPerCu

/-- The slots of the array. -/
def slotIds : List SlotId := (List.range G.maxWarpsPerCu).map (BitVec.ofNat 4)

end GpuSize

section Slots

variable (G : GpuSize)

def assignSlot (slot : SlotId) (cuId : CuId) (totalWarps warpIdOffset : WarpId)
    (old : WarpSlot) : WarpSlot :=
  let localW : WarpId := cuId.setWidth 32 + slot.setWidth 32 * BitVec.ofNat 32 G.numCus
  if localW < totalWarps then
    { warpId := warpIdOffset + localW
      resumePc := 0
      barrierId := 0
      state := .ready
      fresh := true }
  else { old with state := .empty }

def launchSlots (slots : Slots) (cuId : CuId) (totalWarps warpIdOffset : WarpId) : Slots :=
  fun slot =>
    if slot.toNat < G.maxWarpsPerCu then
      assignSlot G slot cuId totalWarps warpIdOffset (slots slot)
    else slots slot

/-- The lowest ready slot, or `INVALID_SLOT`. -/
def nextReadySlot (slots : Slots) : SlotId :=
  (G.slotIds.find? fun slot => (slots slot).state = .ready).getD G.invalidSlot

def buildDispatch (slots : Slots) (slot : SlotId) : WarpDispatch × Slots :=
  ({ slotId := slot
     warpId := (slots slot).warpId
     activeMaskInit := BitVec.allOnes 32
     resumePc := (slots slot).resumePc
     freshLaunch := (slots slot).fresh },
    Function.update slots slot { slots slot with fresh := false })

/-- A slot with the result of its dispatch. -/
def slotWithResult (slot : WarpSlot) (status : WarpStatus) : WarpSlot :=
  match status.code with
  | .complete => { slot with state := .done }
  | .stalledAtBarrier =>
    { slot with state := .stalled, barrierId := status.barrierId, resumePc := status.resumePc }

def recordResult (slots : Slots) (slot : SlotId) (status : WarpStatus) : Slots :=
  Function.update slots slot (slotWithResult (slots slot) status)

/-- A stalled slot is ready again; its resume pc stays. -/
def releasedSlot (slot : WarpSlot) : WarpSlot :=
  if slot.state = .stalled then { slot with state := .ready } else slot

def releaseBarrierSlots (slots : Slots) : Slots := fun slot =>
  if slot.toNat < G.maxWarpsPerCu then releasedSlot (slots slot) else slots slot

end Slots

/-! ## Where a warp lives -/

section Residents

variable {G : GpuSize}

theorem mem_slotIds {slot : SlotId} : slot ∈ G.slotIds ↔ slot.toNat < G.maxWarpsPerCu := by
  have hM := G.maxWarpsPerCu_lt
  unfold GpuSize.slotIds
  rw [List.mem_map]
  constructor
  · rintro ⟨i, hi, rfl⟩
    rw [List.mem_range] at hi
    rwa [BitVec.toNat_ofNat, Nat.mod_eq_of_lt (by omega)]
  · intro h
    exact ⟨slot.toNat, List.mem_range.2 h, BitVec.ofNat_toNat _ _⟩

theorem invalidSlot_not_mem : G.invalidSlot ∉ G.slotIds := by
  have hM := G.maxWarpsPerCu_lt
  rw [mem_slotIds, GpuSize.invalidSlot, BitVec.toNat_ofNat, Nat.mod_eq_of_lt (by omega)]
  exact lt_irrefl _

/-- The slot found is a ready one. -/
theorem nextReadySlot_ready {slots : Slots} (h : nextReadySlot G slots ≠ G.invalidSlot) :
    (nextReadySlot G slots).toNat < G.maxWarpsPerCu ∧
      (slots (nextReadySlot G slots)).state = .ready := by
  unfold nextReadySlot at h ⊢
  cases hf : G.slotIds.find? fun slot => (slots slot).state = .ready with
  | none => exact absurd (by rw [hf]; rfl) h
  | some slot =>
    have hready := List.find?_some hf
    exact ⟨mem_slotIds.1 (List.mem_of_find?_eq_some hf), by simpa using hready⟩

end Residents

end RiscvGpgpu.Hls
