import RiscvGpgpu.Hls.CuDispatchUnit

/-!
# Where warps are placed

`NUM_CUS` and `MAX_WARPS_PER_CU` as a build sets them: the wiring of `gpgpu_scheduler` and
`cuCluster`, the slot arithmetic of the schedulers and the seeding arithmetic of the two register
loaders, for every build. `placement_iff` says for which builds a launch places its warps well.
-/

namespace RiscvGpgpu.Hls

/-- One register word for a slot. -/
structure RegSeed where
  slotId : SlotId
  flatI : BitVec 10
  value : Word
  deriving DecidableEq, Repr

theorem RegSeed.flatI_lane_lt (seed : RegSeed) : (seed.flatI >>> 5).toNat < 32 := by
  have := seed.flatI.isLt
  rw [BitVec.toNat_ushiftRight, Nat.shiftRight_eq_div_pow]
  omega

/-- `RISCV_GPGPU_NUM_CUS` and `RISCV_GPGPU_MAX_WARPS_PER_CU`. -/
structure BuildConfig where
  numCus : ℕ
  maxWarpsPerCu : ℕ
  numCus_pos : 0 < numCus
  maxWarpsPerCu_pos : 0 < maxWarpsPerCu

namespace BuildConfig

variable (B : BuildConfig)

/-! ## Wiring -/

/-- `RISCV_GPGPU_NUM_CUS >= 13`. -/
def clustered : Bool := 13 ≤ B.numCus

/-- `CLUSTER_SIZE`. -/
def clusterSize : ℕ := if B.clustered then B.numCus / 2 else B.numCus

/-- `NUM_CLUSTERS`. -/
def numClusters : ℕ := if B.clustered then 2 else 1

/-- A CU: its cluster, and its index in the arrays of the cluster. -/
abbrev CuIndex : Type := Fin B.numClusters × Fin B.clusterSize

/-- `cu_id_t(0)` or `cu_id_t(CLUSTER_SIZE)`. -/
def baseCuId (k : ℕ) : CuId := BitVec.ofNat 3 (k * B.clusterSize)

/-- The `cu_id` that the scheduler and the pipeline of a CU are given. -/
def cuIdOf (i : B.CuIndex) : CuId := BitVec.ofNat 3 ((B.baseCuId i.1).toNat + i.2)

/-- What `CLUSTER_SIZE` is in a preprocessor condition, where a constant that is no macro reads as
zero. -/
def clusterSizeMacro : ℕ := 0

/-- The calls of `compute_pipeline`: the flat top makes one for each CU below `NUM_CUS`, twelve at
most, a cluster one for its first CU and for each further one under `#if CLUSTER_SIZE >= ...`. -/
def hasPipeline (i : B.CuIndex) : Bool :=
  if B.clustered then (i.2 : ℕ) = 0 || ((i.2 : ℕ) + 1 ≤ clusterSizeMacro && (i.2 : ℕ) < 8)
  else (i.2 : ℕ) < 12

/-! ## Slots -/

/-- `assignSlot` in any build. -/
def assignSlot (slot : ℕ) (cuId : CuId) (totalWarps warpIdOffset : WarpId) (old : WarpSlot) :
    WarpSlot :=
  let localW : WarpId := cuId.setWidth 32 + BitVec.ofNat 32 slot * BitVec.ofNat 32 B.numCus
  if localW < totalWarps then
    { warpId := warpIdOffset + localW
      resumePc := 0
      barrierId := 0
      state := .ready
      fresh := true }
  else { old with state := .empty }

def launchSlots (slots : ℕ → WarpSlot) (cuId : CuId) (totalWarps warpIdOffset : WarpId) :
    ℕ → WarpSlot := fun slot =>
  if slot < B.maxWarpsPerCu then B.assignSlot slot cuId totalWarps warpIdOffset (slots slot)
  else slots slot

/-- `nextReadySlot`: four bits carry a slot or `INVALID_SLOT`. -/
def nextReadySlot (slots : ℕ → WarpSlot) : SlotId :=
  BitVec.ofNat 4 (((List.range B.maxWarpsPerCu).find? fun slot =>
    (slots slot).state = .ready).getD B.maxWarpsPerCu)

/-- The dispatch of a scheduling round of an idle CU. -/
def dispatch (slots : ℕ → WarpSlot) : Option WarpDispatch :=
  let slot := B.nextReadySlot slots
  if slot.toNat ≠ B.maxWarpsPerCu then
    some
      { slotId := slot
        warpId := (slots slot.toNat).warpId
        activeMaskInit := BitVec.allOnes 32
        resumePc := (slots slot.toNat).resumePc
        freshLaunch := (slots slot.toNat).fresh }
  else none

/-! ## Seeds -/

/-- The warp of `seed_c` and `seed_slot`: `programLoader` counts CUs from zero, `clusterRegLoader`
from its `base_cu_id`. -/
def seedWarp (k : ℕ) (seedC seedSlot : BitVec 8) : WarpId :=
  (if B.clustered then BitVec.ofNat 32 ((B.baseCuId k).toNat + seedC.toNat)
    else seedC.setWidth 32) + seedSlot.setWidth 32 * BitVec.ofNat 32 B.numCus

/-- `initial_regs_ptr`: by the parity of the warp in `programLoader`, one for each cluster. -/
def seedPtr (ptr₀ ptr₁ : ℕ → Word) (k : ℕ) (globalW : WarpId) : ℕ → Word :=
  if B.clustered then (if k = 0 then ptr₀ else ptr₁)
  else if globalW &&& 1 = 0 then ptr₀ else ptr₁

/-- What the loader of a cluster writes to `seed_out[seed_c]`. -/
def seedAt (ptr₀ ptr₁ : ℕ → Word) (totalWarps warpIdOffset : WarpId) (k : ℕ)
    (seedC seedSlot : BitVec 8) (seedI : Word) : Option RegSeed :=
  let localW := B.seedWarp k seedC seedSlot
  if localW < totalWarps then
    let globalW := warpIdOffset + localW
    some
      { slotId := seedSlot.setWidth 4
        flatI := seedI.setWidth 10
        value := B.seedPtr ptr₀ ptr₁ k globalW (globalW.toNat * 32 * 32 + seedI.toNat) }
  else none

end BuildConfig

/-! ## Placement -/

namespace BuildConfig

variable (B : BuildConfig) (totalWarps warpIdOffset : WarpId)

/-- `NUM_CUS * MAX_WARPS_PER_CU`. -/
def capacity : ℕ := B.numCus * B.maxWarpsPerCu

/-- The slots of a CU after the launch, with what was in them before. -/
def launched (old : ℕ → WarpSlot) (i : B.CuIndex) : ℕ → WarpSlot :=
  B.launchSlots old (B.cuIdOf i) totalWarps warpIdOffset

/-- The launch has put warp `w` in the slot. -/
def Assigned (old : ℕ → WarpSlot) (w : ℕ) (p : B.CuIndex × Fin B.maxWarpsPerCu) : Prop :=
  (B.launched totalWarps warpIdOffset old p.1 p.2).state = .ready ∧
    (B.launched totalWarps warpIdOffset old p.1 p.2).warpId = warpIdOffset + BitVec.ofNat 32 w

/-- The ready slots hold warps that the launch has put there. -/
def HoldsLaunch (old : ℕ → WarpSlot) (i : B.CuIndex) (slots : ℕ → WarpSlot) : Prop :=
  ∀ slot < B.maxWarpsPerCu, (slots slot).state = .ready →
    (B.launched totalWarps warpIdOffset old i slot).state = .ready ∧
      (slots slot).warpId = (B.launched totalWarps warpIdOffset old i slot).warpId

/-- The warps of a launch are spread over the slots of the CUs, the seeds of a slot are those of the
warp dispatched from it, and a CU without a ready slot dispatches nothing. -/
structure Placement : Prop where
  oneSlot : ∀ old, ∀ w < totalWarps.toNat, ∃! p, B.Assigned totalWarps warpIdOffset old w p
  oneWarp : ∀ old p w w', w < totalWarps.toNat → w' < totalWarps.toNat →
    B.Assigned totalWarps warpIdOffset old w p → B.Assigned totalWarps warpIdOffset old w' p →
      w = w'
  pipeline : ∀ old w p, B.Assigned totalWarps warpIdOffset old w p → B.hasPipeline p.1 = true
  seeds : ∀ old i slots d ptr₀ ptr₁, B.HoldsLaunch totalWarps warpIdOffset old i slots →
    B.dispatch slots = some d → ∀ seedI : Word, seedI.toNat < 32 * 32 →
      B.seedAt ptr₀ ptr₁ totalWarps warpIdOffset i.1 (BitVec.ofNat 8 i.2) (d.slotId.setWidth 8)
        seedI = some ⟨d.slotId, seedI.setWidth 10,
          B.seedPtr ptr₀ ptr₁ i.1 d.warpId (d.warpId.toNat * 32 * 32 + seedI.toNat)⟩
  seedsAssigned : ∀ old (i : B.CuIndex) (slot : Fin B.maxWarpsPerCu) ptr₀ ptr₁ seedI seed,
    B.seedAt ptr₀ ptr₁ totalWarps warpIdOffset i.1 (BitVec.ofNat 8 i.2) (BitVec.ofNat 8 slot)
      seedI = some seed →
    seed.slotId.toNat = slot ∧ (B.launched totalWarps warpIdOffset old i slot).state = .ready
  idle : ∀ slots, (∀ slot < B.maxWarpsPerCu, (slots slot).state ≠ .ready) → B.dispatch slots = none

/-! ## Small builds -/

variable {B totalWarps warpIdOffset}

theorem clusterSize_le (hN : B.numCus ≤ 8) : B.clustered = false ∧ B.clusterSize = B.numCus := by
  have hflat : B.clustered = false := by
    unfold clustered
    simp only [decide_eq_false_iff_not]
    omega
  unfold clusterSize
  rw [hflat]
  exact ⟨rfl, rfl⟩

theorem index_lt (hN : B.numCus ≤ 8) (i : B.CuIndex) : (i.1 : ℕ) = 0 ∧ (i.2 : ℕ) < B.numCus := by
  obtain ⟨hflat, hsize⟩ := clusterSize_le hN
  have hone : B.numClusters = 1 := by
    unfold numClusters
    rw [hflat]
    rfl
  have h1 := i.1.isLt
  have h2 := i.2.isLt
  exact ⟨by omega, by omega⟩

/-- The local warp number of a slot, as the schedulers compute it. -/
theorem localW_eq (hN : B.numCus ≤ 8) (i : B.CuIndex) (slot : ℕ) :
    (B.cuIdOf i).setWidth 32 + BitVec.ofNat 32 slot * BitVec.ofNat 32 B.numCus =
      BitVec.ofNat 32 (i.2 + slot * B.numCus) := by
  obtain ⟨h1, h2⟩ := index_lt hN i
  have hid : (B.cuIdOf i).toNat = i.2 := by
    unfold cuIdOf baseCuId
    rw [h1, Nat.zero_mul, BitVec.toNat_ofNat, BitVec.toNat_ofNat]
    omega
  have hid' : (B.cuIdOf i).setWidth 32 = BitVec.ofNat 32 i.2 := by
    refine BitVec.eq_of_toNat_eq ?_
    rw [BitVec.toNat_setWidth, hid, BitVec.toNat_ofNat]
  rw [hid', ← BitVec.ofNat_mul, ← BitVec.ofNat_add]

/-- The same number, as the loader computes it. -/
theorem seedWarp_eq (hN : B.numCus ≤ 8) (i : B.CuIndex) {slot : ℕ} (hslot : slot < 16) :
    B.seedWarp i.1 (BitVec.ofNat 8 i.2) (BitVec.ofNat 8 slot) =
      BitVec.ofNat 32 (i.2 + slot * B.numCus) := by
  obtain ⟨h1, h2⟩ := index_lt hN i
  have hc : (BitVec.ofNat 8 (i.2 : ℕ)).setWidth 32 = BitVec.ofNat 32 i.2 := by
    refine BitVec.eq_of_toNat_eq ?_
    rw [BitVec.toNat_setWidth, BitVec.toNat_ofNat, BitVec.toNat_ofNat]
    omega
  have hs : (BitVec.ofNat 8 slot).setWidth 32 = BitVec.ofNat 32 slot := by
    refine BitVec.eq_of_toNat_eq ?_
    rw [BitVec.toNat_setWidth, BitVec.toNat_ofNat, BitVec.toNat_ofNat]
    omega
  unfold seedWarp
  rw [(clusterSize_le hN).1, if_neg Bool.false_ne_true, hc, hs, ← BitVec.ofNat_mul,
    ← BitVec.ofNat_add]

theorem localW_lt (hN : B.numCus ≤ 8) (i : B.CuIndex) {slot : ℕ} (hslot : slot < 16) :
    (i.2 : ℕ) + slot * B.numCus < 2 ^ 32 := by
  have h2 := (index_lt hN i).2
  have hmul : slot * B.numCus ≤ 15 * 8 := Nat.mul_le_mul (by omega) hN
  omega

/-- What a launch puts in a slot of a small build. -/
theorem launched_eq (hN : B.numCus ≤ 8) (hM : B.maxWarpsPerCu < 16) (old : ℕ → WarpSlot)
    (i : B.CuIndex) {slot : ℕ} (hslot : slot < B.maxWarpsPerCu) :
    B.launched totalWarps warpIdOffset old i slot =
      if i.2 + slot * B.numCus < totalWarps.toNat then
        ⟨warpIdOffset + BitVec.ofNat 32 (i.2 + slot * B.numCus), 0, 0, .ready, true⟩
      else { old slot with state := .empty } := by
  unfold launched launchSlots assignSlot
  rw [if_pos hslot, localW_eq hN i]
  dsimp only
  have hlt : BitVec.ofNat 32 (i.2 + slot * B.numCus) < totalWarps ↔
      i.2 + slot * B.numCus < totalWarps.toNat := by
    rw [BitVec.lt_def, BitVec.toNat_ofNat, Nat.mod_eq_of_lt (localW_lt hN i (by omega))]
  by_cases h : i.2 + slot * B.numCus < totalWarps.toNat
  · rw [if_pos (hlt.2 h), if_pos h]
  · rw [if_neg (mt hlt.1 h), if_neg h]

/-- Warp `w` lives at CU `w % NUM_CUS`, slot `w / NUM_CUS`. -/
theorem assigned_iff (hN : B.numCus ≤ 8) (hM : B.maxWarpsPerCu < 16) (old : ℕ → WarpSlot) {w : ℕ}
    (hw : w < totalWarps.toNat) (p : B.CuIndex × Fin B.maxWarpsPerCu) :
    B.Assigned totalWarps warpIdOffset old w p ↔ (p.1.2 : ℕ) + p.2 * B.numCus = w := by
  have hslot := p.2.isLt
  have hlt : (p.1.2 : ℕ) + p.2 * B.numCus < 2 ^ 32 := localW_lt hN p.1 (by omega)
  have hw' := totalWarps.isLt
  unfold Assigned
  rw [launched_eq hN hM old p.1 hslot]
  constructor
  · rintro ⟨hstate, hid⟩
    split at hstate
    · next h =>
      rw [if_pos h] at hid
      have hn := congrArg BitVec.toNat (add_left_cancel hid)
      rwa [BitVec.toNat_ofNat, BitVec.toNat_ofNat, Nat.mod_eq_of_lt hlt,
        Nat.mod_eq_of_lt (by omega)] at hn
    · exact absurd hstate (by simp)
  · intro heq
    rw [if_pos (by omega), heq]
    exact ⟨rfl, rfl⟩

theorem nextReadySlot_toNat (hM : B.maxWarpsPerCu < 16) (slots : ℕ → WarpSlot) :
    (B.nextReadySlot slots).toNat =
      ((List.range B.maxWarpsPerCu).find? fun slot =>
        (slots slot).state = .ready).getD B.maxWarpsPerCu := by
  unfold nextReadySlot
  rw [BitVec.toNat_ofNat, Nat.mod_eq_of_lt]
  cases hf : (List.range B.maxWarpsPerCu).find? fun slot => (slots slot).state = .ready with
  | none => exact hM
  | some slot =>
    have := List.mem_range.1 (List.mem_of_find?_eq_some hf)
    show slot < 16
    omega

/-- A dispatch is of a ready slot. -/
theorem dispatch_eq_some (hM : B.maxWarpsPerCu < 16) {slots : ℕ → WarpSlot} {d : WarpDispatch}
    (h : B.dispatch slots = some d) :
    d.slotId.toNat < B.maxWarpsPerCu ∧ (slots d.slotId.toNat).state = .ready ∧
      d.warpId = (slots d.slotId.toNat).warpId := by
  unfold dispatch at h
  dsimp only at h
  split at h
  · next hne =>
    obtain rfl := Option.some.inj h
    rw [nextReadySlot_toNat hM] at hne ⊢
    cases hf : (List.range B.maxWarpsPerCu).find? fun slot => (slots slot).state = .ready with
    | none => exact absurd (by rw [hf]; rfl) hne
    | some slot =>
      have hready := List.find?_some hf
      exact ⟨List.mem_range.1 (List.mem_of_find?_eq_some hf), by simpa using hready, rfl⟩
  · exact absurd h (by simp)

theorem seedAt_eq (hN : B.numCus ≤ 8) (i : B.CuIndex) {slot : ℕ} (hslot : slot < 16)
    (ptr₀ ptr₁ : ℕ → Word) (seedI : Word) :
    B.seedAt ptr₀ ptr₁ totalWarps warpIdOffset i.1 (BitVec.ofNat 8 i.2)
      (BitVec.ofNat 8 slot) seedI =
      if i.2 + slot * B.numCus < totalWarps.toNat then
        let globalW := warpIdOffset + BitVec.ofNat 32 (i.2 + slot * B.numCus)
        some ⟨BitVec.ofNat 4 slot, seedI.setWidth 10,
          B.seedPtr ptr₀ ptr₁ i.1 globalW (globalW.toNat * 32 * 32 + seedI.toNat)⟩
      else none := by
  have hlt : BitVec.ofNat 32 (i.2 + slot * B.numCus) < totalWarps ↔
      i.2 + slot * B.numCus < totalWarps.toNat := by
    rw [BitVec.lt_def, BitVec.toNat_ofNat, Nat.mod_eq_of_lt (localW_lt hN i hslot)]
  have hid : (BitVec.ofNat 8 slot).setWidth 4 = BitVec.ofNat 4 slot := by
    refine BitVec.eq_of_toNat_eq ?_
    rw [BitVec.toNat_setWidth, BitVec.toNat_ofNat, BitVec.toNat_ofNat]
    omega
  unfold seedAt
  rw [seedWarp_eq hN i hslot, hid]
  dsimp only
  by_cases h : i.2 + slot * B.numCus < totalWarps.toNat
  · rw [if_pos (hlt.2 h), if_pos h]
  · rw [if_neg (mt hlt.1 h), if_neg h]

/-- Eight CUs of fifteen slots are placed well. -/
theorem placement (hN : B.numCus ≤ 8) (hM : B.maxWarpsPerCu < 16)
    (hcap : totalWarps.toNat ≤ B.capacity) : B.Placement totalWarps warpIdOffset where
  oneSlot := by
    intro old w hw
    have hwcap : w < B.numCus * B.maxWarpsPerCu := lt_of_lt_of_le hw hcap
    have hc : w % B.numCus < B.clusterSize := by
      rw [(clusterSize_le hN).2]
      exact Nat.mod_lt _ B.numCus_pos
    have hk : 0 < B.numClusters := by
      unfold numClusters
      split <;> decide
    refine ⟨((⟨0, hk⟩, ⟨w % B.numCus, hc⟩), ⟨w / B.numCus, Nat.div_lt_of_lt_mul hwcap⟩), ?_, ?_⟩
    · refine (assigned_iff hN hM old hw _).2 ?_
      show w % B.numCus + w / B.numCus * B.numCus = w
      rw [Nat.mul_comm]
      exact Nat.mod_add_div _ _
    · rintro ⟨⟨k, c⟩, slot⟩ hp
      have hw' := (assigned_iff hN hM old hw _).1 hp
      obtain ⟨hk', hc'⟩ := index_lt hN (k, c)
      dsimp only at hw' hk' hc'
      have hmod : w % B.numCus = c := by
        rw [← hw', Nat.add_mul_mod_self_right, Nat.mod_eq_of_lt hc']
      have hdiv : w / B.numCus = slot := by
        rw [← hw', Nat.add_mul_div_right _ _ B.numCus_pos, Nat.div_eq_of_lt hc', Nat.zero_add]
      exact Prod.ext (Prod.ext (Fin.ext hk') (Fin.ext hmod.symm)) (Fin.ext hdiv.symm)
  oneWarp := by
    intro old p w w' hw hw' h h'
    exact ((assigned_iff hN hM old hw p).1 h).symm.trans ((assigned_iff hN hM old hw' p).1 h')
  pipeline := by
    intro _ _ p _
    have hlt := (index_lt hN p.1).2
    unfold hasPipeline
    rw [(clusterSize_le hN).1, if_neg Bool.false_ne_true, decide_eq_true_eq]
    omega
  seeds := by
    intro old i slots d ptr₀ ptr₁ hold hd seedI _
    obtain ⟨hslot, hready, hid⟩ := dispatch_eq_some hM hd
    obtain ⟨hstate, hwarp⟩ := hold _ hslot hready
    rw [launched_eq hN hM old i hslot] at hstate hwarp
    have hwide : d.slotId.setWidth 8 = BitVec.ofNat 8 d.slotId.toNat :=
      BitVec.eq_of_toNat_eq (by rw [BitVec.toNat_setWidth, BitVec.toNat_ofNat])
    have hnarrow : BitVec.ofNat 4 d.slotId.toNat = d.slotId := BitVec.ofNat_toNat _ _
    rw [hwide, seedAt_eq hN i (by omega)]
    split at hstate
    · next h =>
      rw [if_pos h] at hwarp ⊢
      rw [hid, hwarp, hnarrow]
    · exact absurd hstate (by simp)
  seedsAssigned := by
    intro old i slot ptr₀ ptr₁ seedI seed hseed
    have hslot := slot.isLt
    rw [seedAt_eq hN i (by omega)] at hseed
    rw [launched_eq hN hM old i hslot]
    split at hseed
    · next h =>
      obtain rfl := Option.some.inj hseed
      rw [if_pos h]
      refine ⟨?_, rfl⟩
      rw [BitVec.toNat_ofNat, Nat.mod_eq_of_lt (by omega)]
    · exact absurd hseed (by simp)
  idle := by
    intro slots hnot
    have hnone : (List.range B.maxWarpsPerCu).find? (fun slot => (slots slot).state = .ready) =
        none := by
      rw [List.find?_eq_none]
      intro slot hslot
      simpa using hnot slot (List.mem_range.1 hslot)
    unfold dispatch
    dsimp only
    rw [nextReadySlot_toNat hM, hnone, if_neg (by simp)]

/-! ## The same slots, numbered by four bits -/

section Sizes

variable {G : GpuSize} (hN : B.numCus = G.numCus) (hM : B.maxWarpsPerCu = G.maxWarpsPerCu)

include hN hM in
theorem launched_eq_launchSlots (slots : Slots) (i : B.CuIndex) (slot : SlotId) :
    B.launched totalWarps warpIdOffset (fun n => slots (BitVec.ofNat 4 n)) i slot.toNat =
      Hls.launchSlots G slots (BitVec.ofNat 3 i.2) totalWarps warpIdOffset slot := by
  have hle : B.numCus ≤ 8 := hN ▸ G.numCus_le
  have hid : B.cuIdOf i = BitVec.ofNat 3 i.2 := by
    unfold cuIdOf baseCuId
    rw [(index_lt hle i).1, Nat.zero_mul, BitVec.toNat_ofNat, Nat.zero_mod, Nat.zero_add]
  have hslot : BitVec.ofNat 32 slot.toNat = slot.setWidth 32 :=
    BitVec.eq_of_toNat_eq (by rw [BitVec.toNat_setWidth, BitVec.toNat_ofNat])
  have hslot' : BitVec.ofNat 4 slot.toNat = slot := BitVec.ofNat_toNat _ _
  unfold launched launchSlots Hls.launchSlots assignSlot Hls.assignSlot
  dsimp only
  rw [hid, hslot, hslot', hN, hM]

include hM in
theorem nextReadySlot_eq (slots : Slots) :
    B.nextReadySlot (fun n => slots (BitVec.ofNat 4 n)) = Hls.nextReadySlot G slots := by
  unfold nextReadySlot Hls.nextReadySlot GpuSize.slotIds GpuSize.invalidSlot
  rw [hM, List.find?_map]
  cases hf : (List.range G.maxWarpsPerCu).find?
      ((fun slot => decide ((slots slot).state = .ready)) ∘ BitVec.ofNat 4) with
  | none =>
    have hf' : (List.range G.maxWarpsPerCu).find?
        (fun slot => decide ((slots (BitVec.ofNat 4 slot)).state = .ready)) = none := hf
    rw [hf']
    rfl
  | some slot =>
    have hf' : (List.range G.maxWarpsPerCu).find?
        (fun slot => decide ((slots (BitVec.ofNat 4 slot)).state = .ready)) = some slot := hf
    rw [hf']
    rfl

end Sizes

/-! ## Large builds -/

/-- Nine CUs or more share a CU number with the first one. -/
theorem exists_sameId (hN : 9 ≤ B.numCus) :
    ∃ i j : B.CuIndex, i ≠ j ∧ B.cuIdOf i = 0 ∧ B.cuIdOf j = 0 := by
  cases hcl : B.clustered with
  | false =>
    have hk : 0 < B.numClusters := by
      unfold numClusters
      split <;> decide
    have hsize : B.clusterSize = B.numCus := by
      unfold clusterSize
      rw [hcl]
      rfl
    refine ⟨(⟨0, hk⟩, ⟨0, by omega⟩), (⟨0, hk⟩, ⟨8, by omega⟩), ?_, ?_, ?_⟩
    · intro h
      exact absurd (congrArg (fun i : B.CuIndex => (i.2 : ℕ)) h) (by simp)
    · simp [cuIdOf, baseCuId]
    · simp [cuIdOf, baseCuId]
  | true =>
    have hlarge : 13 ≤ B.numCus := by
      unfold clustered at hcl
      exact of_decide_eq_true hcl
    have hk : B.numClusters = 2 := by
      unfold numClusters
      rw [hcl]
      rfl
    have hsize : B.clusterSize = B.numCus / 2 := by
      unfold clusterSize
      rw [hcl]
      rfl
    refine ⟨(⟨0, by omega⟩, ⟨0, by omega⟩),
      (⟨1, by omega⟩, ⟨(8 - B.clusterSize % 8) % 8, by omega⟩), ?_, ?_, ?_⟩
    · intro h
      exact absurd (congrArg (fun i : B.CuIndex => (i.1 : ℕ)) h) (by simp)
    · simp [cuIdOf, baseCuId]
    · refine BitVec.eq_of_toNat_eq ?_
      show ((1 * B.clusterSize) % 2 ^ 3 + (8 - B.clusterSize % 8) % 8) % 2 ^ 3 = 0
      omega

/-- Two CUs of one number both take warp 0. -/
theorem numCus_le_of_placement (h : B.Placement 1 warpIdOffset) : B.numCus ≤ 8 := by
  by_contra hN
  obtain ⟨i, j, hne, hi, hj⟩ := exists_sameId (B := B) (by omega)
  have hassigned (k : B.CuIndex) (hk : B.cuIdOf k = 0) :
      B.Assigned 1 warpIdOffset (fun _ => {}) 0 (k, ⟨0, B.maxWarpsPerCu_pos⟩) := by
    unfold Assigned launched launchSlots assignSlot
    rw [if_pos B.maxWarpsPerCu_pos, hk]
    simp
  have heq := (h.oneSlot (fun _ => {}) 0 (by decide)).unique (hassigned i hi) (hassigned j hj)
  exact hne (congrArg Prod.fst heq)

/-- `INVALID_SLOT` must fit in a slot number. -/
theorem maxWarpsPerCu_lt_of_placement (h : B.Placement totalWarps warpIdOffset) :
    B.maxWarpsPerCu < 16 := by
  have hidle := h.idle (fun _ => {}) (by simp)
  have hslot : B.nextReadySlot (fun _ => {}) = BitVec.ofNat 4 B.maxWarpsPerCu := by
    unfold nextReadySlot
    have hnone : (List.range B.maxWarpsPerCu).find?
        (fun _ => decide (({} : WarpSlot).state = .ready)) = none := by simp
    rw [hnone]
    rfl
  unfold dispatch at hidle
  rw [hslot] at hidle
  dsimp only at hidle
  split at hidle
  · exact absurd hidle (by simp)
  · next heq =>
    rw [not_not, BitVec.toNat_ofNat] at heq
    omega

variable (B) in
/-- A build places the warps of every launch well exactly when it has at most eight CUs and at most
fifteen slots for each. -/
theorem placement_iff :
    (∀ totalWarps warpIdOffset, totalWarps.toNat ≤ B.capacity →
      B.Placement totalWarps warpIdOffset) ↔ B.numCus ≤ 8 ∧ B.maxWarpsPerCu < 16 := by
  constructor
  · intro h
    have hone : B.Placement 1 0 := h 1 0 (Nat.mul_pos B.numCus_pos B.maxWarpsPerCu_pos)
    exact ⟨numCus_le_of_placement hone, maxWarpsPerCu_lt_of_placement hone⟩
  · rintro ⟨hN, hM⟩ totalWarps warpIdOffset hcap
    exact placement hN hM hcap

/-- Sixteen CUs: the first CUs of both clusters take warp 0. -/
theorem not_placement_sixteen : ¬ ∀ totalWarps warpIdOffset,
    totalWarps.toNat ≤ (⟨16, 8, by decide, by decide⟩ : BuildConfig).capacity →
      (⟨16, 8, by decide, by decide⟩ : BuildConfig).Placement totalWarps warpIdOffset :=
  fun h => absurd (numCus_le_of_placement (h 1 0 (by decide))) (by decide)

end BuildConfig

end RiscvGpgpu.Hls
