import RiscvGpgpu.Bridge.KernelBridge

/-!
# What a run does to the device buffers

Nothing but `copyBack` writes a device buffer. A read-back is as long as the buffer, so that it
cannot fail in between.
-/

namespace RiscvGpgpu.Bridge

open Golden (Address BlockId Byte MemoryHierarchy HostFloat)
open Host (DeviceMemory KernelExecution)

/-! ## Read-back -/

/-- The buffers after the read-back. -/
def readBack (mem : MemoryHierarchy) (devicePtrs : List Address) (d : DeviceMemory) :
    DeviceMemory :=
  { d with
    buffers := fun p =>
      if p ∈ devicePtrs then (d.buffers p).map fun old => mem.readBytes p old.length 0
      else d.buffers p }

/-- One buffer first, and then the others, itself among them or not. -/
theorem readBack_cons (mem : MemoryHierarchy) (p : Address) (ps : List Address)
    (d : DeviceMemory) :
    readBack mem (p :: ps) d = readBack mem ps { d with
      buffers := Function.update d.buffers p
        ((d.buffers p).map fun old => mem.readBytes p old.length 0) } := by
  unfold readBack
  dsimp only
  congr 1
  funext q
  by_cases hq : q = p
  · subst hq
    rw [if_pos List.mem_cons_self, Function.update_self]
    cases d.buffers q with
    | none => simp
    | some old => simp [MemoryHierarchy.length_readBytes]
  · rw [Function.update_of_ne hq]
    simp only [List.mem_cons, hq, false_or]

/-- A buffer that is skipped is what would be read back. -/
theorem update_skipped {mem : MemoryHierarchy} {p : Address} {d : DeviceMemory}
    (h : d.getDeviceBufferSize p = 0) :
    { d with
      buffers := Function.update d.buffers p
        ((d.buffers p).map fun old => mem.readBytes p old.length 0) } = d := by
  have hsame : ((d.buffers p).map fun old => mem.readBytes p old.length 0) = d.buffers p := by
    unfold DeviceMemory.getDeviceBufferSize at h
    cases hp : d.buffers p with
    | none => rfl
    | some old =>
      rw [hp] at h
      have hnil : old = [] := List.eq_nil_of_length_eq_zero h
      have hread : mem.readBytes p old.length 0 = [] := by
        apply List.eq_nil_of_length_eq_zero
        rw [MemoryHierarchy.length_readBytes]
        exact h
      rw [Option.map_some, hread, hnil]
  rw [hsame, Function.update_eq_self]

theorem copyBack_eq (mem : MemoryHierarchy) (devicePtrs : List Address) (d : DeviceMemory) :
    copyBack mem devicePtrs d = (.ok (), readBack mem devicePtrs d) := by
  induction devicePtrs generalizing d with
  | nil => rfl
  | cons p ps ih =>
    rw [readBack_cons]
    unfold copyBack
    dsimp only
    split_ifs with hzero
    · rw [update_skipped hzero]
      exact ih d
    · cases hp : d.buffers p with
      | none =>
        refine absurd ?_ hzero
        unfold DeviceMemory.getDeviceBufferSize
        rw [hp]
      | some old =>
        have hsize : d.getDeviceBufferSize p = old.length := by
          unfold DeviceMemory.getDeviceBufferSize
          rw [hp]
        have hset : d.setDeviceBufferContent p (mem.readBytes p old.length 0) =
            (true, { d with
              buffers := Function.update d.buffers p (some (mem.readBytes p old.length 0)) }) := by
          unfold DeviceMemory.setDeviceBufferContent
          rw [hp]
          exact if_neg (not_not.2 (MemoryHierarchy.length_readBytes _ _ _ _))
        rw [hsize, hset]
        exact ih _

/-! ## The run -/

theorem mapBuffers_live {d : DeviceMemory} {devicePtrs : List Address} {mem mem' : MemoryHierarchy}
    (h : mapBuffers d devicePtrs mem = .ok mem') : ∀ p ∈ devicePtrs, d.buffers p ≠ none := by
  induction devicePtrs generalizing mem with
  | nil => exact fun p hp => absurd hp List.not_mem_nil
  | cons q qs ih =>
    unfold mapBuffers at h
    cases hq : d.getDeviceBufferContent q with
    | none =>
      rw [hq] at h
      exact absurd h (by simp)
    | some content =>
      rw [hq] at h
      intro p hp
      rcases List.mem_cons.1 hp with rfl | hp
      · intro hnone
        have hq' : d.buffers p = some content := hq
        rw [hnone] at hq'
        exact absurd hq' (by simp)
      · exact ih h p hp

section Run

variable {F : HostFloat} {C : Config} {files : String → Option (List Byte)}
  {execution : KernelExecution} {req : Request} {d : DeviceMemory}

/-- What a set-up that succeeds has done. -/
theorem setUp_ok {L : Launch} {mem : MemoryHierarchy}
    (h : setUp C files execution req d = some (.ok (L, mem))) :
    ∃ image elf mem₀ mem₁ regs, files req.binaryPath = some image ∧
      ElfLoader.load image (.init C.sharedMemSize) = some (elf, mem₀) ∧
      mapBuffers d req.devicePtrs mem₀ = .ok mem₁ ∧
      setArguments 0 req.kernelArgs (fun _ => 0) = .ok regs ∧
      L = makeLaunch execution req elf regs ∧
      sharedMemBytes C execution req ≤ C.sharedMemSize ∧
      allocateBlocks (sharedMemBytes C execution req) (List.range L.totalBlocks.toNat) mem₁ =
        .ok mem := by
  unfold setUp at h
  cases himage : files req.binaryPath with
  | none =>
    rw [himage] at h
    exact absurd h (by simp)
  | some image =>
    rw [himage] at h
    dsimp only at h
    split_ifs at h with haccept
    · exact absurd h (by simp)
    obtain ⟨⟨elf, mem₀⟩, hload, hprep⟩ := Option.map_eq_some_iff.1 h
    have hprep : prepare C execution req d elf mem₀ = .ok (L, mem) := hprep
    unfold prepare at hprep
    cases hmap : mapBuffers d req.devicePtrs mem₀ with
    | error e =>
      rw [hmap] at hprep
      exact absurd hprep (by simp)
    | ok mem₁ =>
      rw [hmap] at hprep
      dsimp only at hprep
      by_cases hargs : 8 < req.kernelArgs.length
      · rw [if_pos hargs] at hprep
        exact absurd hprep (by simp)
      rw [if_neg hargs] at hprep
      cases hregs : setArguments 0 req.kernelArgs (fun _ => 0) with
      | error e =>
        rw [hregs] at hprep
        exact absurd hprep (by simp)
      | ok regs =>
        rw [hregs] at hprep
        dsimp only at hprep
        by_cases hshared : C.sharedMemSize < sharedMemBytes C execution req
        · rw [if_pos hshared] at hprep
          exact absurd hprep (by simp)
        rw [if_neg hshared] at hprep
        cases halloc : allocateBlocks (sharedMemBytes C execution req)
            (List.range (makeLaunch execution req elf regs).totalBlocks.toNat) mem₁ with
        | error e =>
          rw [halloc] at hprep
          exact absurd hprep (by simp)
        | ok mem₂ =>
          rw [halloc] at hprep
          obtain ⟨rfl, rfl⟩ := Prod.mk.inj (Except.ok.inj hprep)
          exact ⟨image, elf, mem₀, mem₁, regs, rfl, hload, hmap, rfl, rfl,
            BitVec.not_lt.1 hshared, halloc⟩

/-- A set-up that succeeds has found every listed buffer. -/
theorem setUp_live {L : Launch} {mem : MemoryHierarchy}
    (h : setUp C files execution req d = some (.ok (L, mem))) :
    ∀ p ∈ req.devicePtrs, d.buffers p ≠ none := by
  obtain ⟨_, _, _, _, _, -, -, hmap, -⟩ := setUp_ok h
  exact mapBuffers_live hmap

/-- The listed buffers hold what the simulated memory holds in their places, the others what they
held before. -/
structure CopiedBack (mem : MemoryHierarchy) (devicePtrs : List Address) (d d' : DeviceMemory) :
    Prop where
  live : ∀ p ∈ devicePtrs, d.buffers p ≠ none
  listed : ∀ p ∈ devicePtrs, ∀ old, d.buffers p = some old →
    d'.buffers p = some (mem.readBytes p old.length 0)
  /-- Outside the shared window, byte for byte. -/
  bytes : ∀ p ∈ devicePtrs, ∀ old, d.buffers p = some old →
    mem.isSharedMemoryAddress p = false →
      d'.buffers p = some ((List.range old.length).map fun i =>
        mem.globalByte (p + BitVec.ofNat 64 i))
  others : ∀ p ∉ devicePtrs, d'.buffers p = d.buffers p
  nextDevAddr : d'.nextDevAddr = d.nextDevAddr

theorem copiedBack_readBack {mem : MemoryHierarchy} {devicePtrs : List Address}
    (hlive : ∀ p ∈ devicePtrs, d.buffers p ≠ none) :
    CopiedBack mem devicePtrs d (readBack mem devicePtrs d) := by
  have hlisted : ∀ p ∈ devicePtrs, ∀ old, d.buffers p = some old →
      (readBack mem devicePtrs d).buffers p = some (mem.readBytes p old.length 0) := by
    intro p hp old hold
    show (if p ∈ devicePtrs then _ else _) = _
    rw [if_pos hp, hold]
    rfl
  refine ⟨hlive, hlisted, fun p hp old hold hout => ?_, fun p hp => if_neg hp, rfl⟩
  rw [hlisted p hp old hold]
  unfold MemoryHierarchy.readBytes
  rw [if_neg (by rw [hout]; exact Bool.false_ne_true)]

/-- A run that fails leaves every device buffer as it was. A run that succeeds leaves the simulated
memory at its end in the listed buffers, and changes no other one. -/
theorem runOnHardware_buffers {turns : ℕ} {r : Except String Unit} {d' : DeviceMemory}
    (h : runOnHardware F C files execution req turns d = some (r, d')) :
    (∀ e, r = .error e → d' = d) ∧
      (r = .ok () → ∃ L mem sim, setUp C files execution req d = some (.ok (L, mem)) ∧
        execute F C turns L mem = some (.ok sim) ∧
        CopiedBack (releaseBlocks L sim.mem) req.devicePtrs d d') := by
  unfold runOnHardware at h
  obtain ⟨set, hset, h⟩ := Option.bind_eq_some_iff.1 h
  cases set with
  | error e =>
    obtain ⟨rfl, rfl⟩ := Prod.mk.inj (Option.some.inj h)
    exact ⟨fun _ _ => rfl, fun hr => absurd hr (by simp)⟩
  | ok launched =>
    obtain ⟨L, mem⟩ := launched
    obtain ⟨ran, hran, h⟩ := Option.bind_eq_some_iff.1 h
    cases ran with
    | error e =>
      obtain ⟨rfl, rfl⟩ := Prod.mk.inj (Option.some.inj h)
      exact ⟨fun _ _ => rfl, fun hr => absurd hr (by simp)⟩
    | ok sim =>
      have hback := Option.some.inj h
      rw [copyBack_eq] at hback
      obtain ⟨rfl, rfl⟩ := Prod.mk.inj hback
      exact ⟨fun e he => absurd he (by simp), fun _ => ⟨L, mem, sim, hset, hran,
        copiedBack_readBack (setUp_live hset)⟩⟩

end Run

/-- A driver with one buffer. -/
def oneBuffer : DeviceMemory where
  buffers := Function.update (fun _ => none) 0x10000000 (some [0, 0, 0, 0])
  nextDevAddr := 0x10000010

/-- A kernel that stores its second argument at its first one, `sw a1, 0(a0)` and `ret`. -/
def storeKernel : List Byte := imageOf [0x23, 0x20, 0xB5, 0x00, 0x67, 0x80, 0x00, 0x00]

def storeRequest : Request where
  kernelName := "store"
  binaryPath := "store.elf"
  kernelArgs := [0x10000000, 42]
  devicePtrs := [0x10000000]

/-- A run that succeeds. -/
theorem runOnHardware_buffers_store : ∃ d' L mem sim,
    runOnHardware noFloat oneUnit (fun _ => some storeKernel) noLaunch storeRequest 3 oneBuffer =
        some (.ok (), d') ∧
      setUp oneUnit (fun _ => some storeKernel) noLaunch storeRequest oneBuffer =
        some (.ok (L, mem)) ∧
      execute noFloat oneUnit 3 L mem = some (.ok sim) ∧
      CopiedBack (releaseBlocks L sim.mem) storeRequest.devicePtrs oneBuffer d' := by
  have hok : (runOnHardware noFloat oneUnit (fun _ => some storeKernel) noLaunch storeRequest 3
      oneBuffer).map (fun r => r.1.isOk) = some true := by decide +kernel
  obtain ⟨⟨r, d'⟩, hrun, hr⟩ := Option.map_eq_some_iff.1 hok
  cases r with
  | error e => exact absurd hr (by simp [Except.isOk, Except.toBool])
  | ok u =>
    obtain ⟨L, mem, sim, hset, hexec, hback⟩ := (runOnHardware_buffers hrun).2 rfl
    exact ⟨d', L, mem, sim, hrun, hset, hexec, hback⟩

end RiscvGpgpu.Bridge
