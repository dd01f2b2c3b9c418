import RiscvGpgpu.Golden.GpgpuTop
import RiscvGpgpu.Lib.Split

/-!
# The golden multi-GPU system

`SystemTop`: `launchKernel` splits the warps of a launch among the GPUs and gives each its part with
the offset of its first warp. In a run the host launches a kernel when the one before is complete,
and the processes of the GPUs take turns in any order.
-/

namespace RiscvGpgpu.Golden

open Split

structure SystemTop.Config where
  numGpus : BitVec 32
  numGpus_pos : 0 < numGpus.toNat
  gpu : GpgpuTop.Config

/-- `gpus_`, by their number. -/
structure SystemTop where
  gpus : ℕ → GpgpuTop

inductive SystemEvent where
  | launched (totalWarps : ℕ)
  | gpu (event : TopEvent)

namespace SystemTop

variable (K : Config)

/-- The loop of `launchKernel`: the calls of `GPGPUTop::launchKernel`, from an offset on. -/
def splitLoop (base remainder : ℕ) : List ℕ → ℕ → List Part
  | [], _ => []
  | i :: is, offset =>
    let warpsForGpu := base + if i < remainder then 1 else 0
    (if 0 < warpsForGpu then [⟨i, offset, warpsForGpu⟩] else []) ++
      splitLoop base remainder is (offset + warpsForGpu)

/-- None of the sums exceeds `total_warps`. -/
def launches (totalWarps : BitVec 32) : List Part :=
  splitLoop (totalWarps.toNat / K.numGpus.toNat) (totalWarps.toNat % K.numGpus.toNat)
    (List.range K.numGpus.toNat) 0

def launchKernel (gridX gridY : BitVec 32) (program : List Instruction) (s : SystemTop) :
    SystemTop where
  gpus := applyParts (fun p g =>
    g.launchKernel K.gpu (BitVec.ofNat 32 p.size) 1 program (BitVec.ofNat 32 p.offset))
    (launches K (gridX * gridY)) s.gpus

def isComplete (s : SystemTop) : Bool :=
  (List.range K.numGpus.toNat).all fun i => (s.gpus i).isKernelComplete K.gpu

/-! ## Runs -/

inductive SystemAction where
  | launch (gridX gridY : BitVec 32) (program : List Instruction)
  | resume (gpu : ℕ)

def step (s : SystemTop) : SystemAction → Option (SystemTop × List SystemEvent)
  | .launch gridX gridY program =>
    if s.isComplete K then
      some (s.launchKernel K gridX gridY program, [.launched (gridX * gridY).toNat])
    else none
  | .resume i =>
    if i < K.numGpus.toNat then
      ((s.gpus i).resume K.gpu).map fun r =>
        (⟨Function.update s.gpus i r.1⟩, r.2.map .gpu)
    else none

def transition : Transition SystemTop SystemAction SystemEvent where
  init s := ∃ memory : ℕ → MemoryHierarchy, s = ⟨fun i => .reset (memory i)⟩
  step := step K

/-- The warps of the latest launch. -/
def launchedTotal (tr : List SystemEvent) : ℕ :=
  tr.foldl (fun acc e =>
    match e with
    | .launched totalWarps => totalWarps
    | .gpu _ => acc) 0

/-- The contexts that the GPUs built since the latest launch. -/
def builtSince (tr : List SystemEvent) : List WarpContext :=
  tr.foldl (fun acc e =>
    match e with
    | .launched _ => []
    | .gpu e => acc ++ GpgpuTop.builtContexts [e]) []

/-- The global thread ids in a warp context: register 1 of its lanes. -/
def contextTids (ctx : WarpContext) : List ℕ :=
  ((List.finRange 32).filter fun t : Lane => (t : ℕ) < K.gpu.cu.threadsPerWarp).map fun t =>
    (ctx.regs t 1).toNat

/-! ## The split -/

variable {K}

theorem splitLoop_eq {total n : ℕ} (k m : ℕ) :
    splitLoop (total / n) (total % n) (List.range' k m) (start total n k) =
      (List.range' k m).filterMap fun i =>
        if share total n i = 0 then none else some ⟨i, start total n i, share total n i⟩ := by
  induction m generalizing k with
  | zero => rfl
  | succ m ih =>
    have hstep : splitLoop (total / n) (total % n) (k :: List.range' (k + 1) m)
        (start total n k) =
        (if 0 < share total n k then [⟨k, start total n k, share total n k⟩] else []) ++
          splitLoop (total / n) (total % n) (List.range' (k + 1) m) (start total n (k + 1)) := rfl
    rw [filterMap_range'_succ, List.range'_succ, hstep, ih (k + 1)]
    by_cases h : share total n k = 0
    · rw [if_pos h, if_neg (Nat.not_lt.2 h.le)]
    · rw [if_neg h, if_pos (Nat.pos_of_ne_zero h)]

/-- The GPUs get the even split. -/
theorem launches_eq (totalWarps : BitVec 32) :
    launches K totalWarps = parts totalWarps.toNat K.numGpus.toNat := by
  unfold launches parts
  rw [List.range_eq_range']
  exact splitLoop_eq 0 _

theorem launchKernel_gpus {gridX gridY : BitVec 32} {program : List Instruction} {s : SystemTop}
    {i : ℕ} (hi : i < K.numGpus.toNat) :
    (s.launchKernel K gridX gridY program).gpus i =
      if share (gridX * gridY).toNat K.numGpus.toNat i = 0 then s.gpus i
      else (s.gpus i).launchKernel K.gpu
        (BitVec.ofNat 32 (share (gridX * gridY).toNat K.numGpus.toNat i)) 1 program
        (BitVec.ofNat 32 (start (gridX * gridY).toNat K.numGpus.toNat i)) := by
  unfold launchKernel
  rw [launches_eq]
  exact applyParts_parts _ _ hi

end SystemTop

end RiscvGpgpu.Golden
