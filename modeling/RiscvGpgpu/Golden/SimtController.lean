import RiscvGpgpu.Hls.DivergenceStack

/-!
# The golden SIMT controller

`simt_controller.cpp`: masks and divergence stacks of all warps of a compute unit, and the table
of warps waiting at each barrier. The vectors that `ensureWarpExists` grows on demand are total
functions of the warp id here, with the values a fresh entry has. The stack is unbounded, and
`initializeWarp` leaves it alone.
-/

namespace RiscvGpgpu.Golden

/-- What the controller holds for one warp. -/
structure WarpSimt where
  activeMask : ThreadMask := 0
  threadsPerWarp : ℕ := 0
  maskStack : List ThreadMask := []
  deriving DecidableEq, Repr

structure SimtController where
  warps : WarpId → WarpSimt
  barrierTable : BarrierId → Finset WarpId
  divergenceEvents : Word
  wastedCycles : Word

namespace SimtController

/-- The controller before any call. -/
def reset : SimtController where
  warps := fun _ => {}
  barrierTable := fun _ => ∅
  divergenceEvents := 0
  wastedCycles := 0

/-- The mask of the first `threadsPerWarp` lanes. -/
def fullMask (threadsPerWarp : ℕ) : ThreadMask :=
  if threadsPerWarp = 32 then BitVec.allOnes 32 else (1#32 <<< threadsPerWarp) - 1#32

/-- The controller with the entries of one warp replaced. -/
def setWarp (c : SimtController) (warpId : WarpId) (w : WarpSimt) : SimtController :=
  { c with warps := Function.update c.warps warpId w }

def initializeWarp (c : SimtController) (warpId : WarpId) (threadsPerWarp : ℕ) : SimtController :=
  c.setWarp warpId
    { c.warps warpId with threadsPerWarp, activeMask := fullMask threadsPerWarp }

def pushDivergenceState (c : SimtController) (warpId : WarpId) (notTakenMask : ThreadMask) :
    SimtController :=
  c.setWarp warpId
    { c.warps warpId with maskStack := notTakenMask :: (c.warps warpId).maskStack }

def setActiveMask (c : SimtController) (warpId : WarpId) (mask : ThreadMask) : SimtController :=
  c.setWarp warpId { c.warps warpId with activeMask := mask }

def getActiveMask (c : SimtController) (warpId : WarpId) : ThreadMask := (c.warps warpId).activeMask

/-- The lanes a branch looks at. -/
def branchLanes (w : WarpSimt) (t : Lane) : Bool := t < w.threadsPerWarp && w.activeMask.active t

def handleBranch (c : SimtController) (warpId : WarpId) (threadConditions : Lane → Bool) :
    SimtController :=
  let w := c.warps warpId
  let taken := laneMask fun t => branchLanes w t && threadConditions t
  let notTaken := laneMask fun t => branchLanes w t && !threadConditions t
  if taken ≠ 0#32 ∧ notTaken ≠ 0#32 then
    { (c.pushDivergenceState warpId notTaken).setActiveMask warpId taken with
      divergenceEvents := c.divergenceEvents + 1
      wastedCycles := c.wastedCycles + popcount notTaken }
  else if taken = 0#32 ∧ notTaken ≠ 0#32 then
    (c.pushDivergenceState warpId notTaken).setActiveMask warpId 0#32
  else c.setActiveMask warpId (if taken ≠ 0#32 then taken else notTaken)

def handleJoin (c : SimtController) (warpId : WarpId) : SimtController :=
  match (c.warps warpId).maskStack with
  | [] => c
  | m :: st =>
    c.setWarp warpId
      { c.warps warpId with
        activeMask := (c.warps warpId).activeMask ||| m
        maskStack := st }

def threadHitBarrier (c : SimtController) (warpId : WarpId) (barrierId : BarrierId) :
    SimtController :=
  { c with barrierTable :=
      Function.update c.barrierTable barrierId (insert warpId (c.barrierTable barrierId)) }

def clearBarrier (c : SimtController) (barrierId : BarrierId) : SimtController :=
  { c with barrierTable := Function.update c.barrierTable barrierId ∅ }

variable (c : SimtController) (warpId warpId' : WarpId) (w : WarpSimt)

@[simp] theorem setWarp_warps : (c.setWarp warpId w).warps = Function.update c.warps warpId w := rfl

@[simp] theorem setWarp_setWarp (w' : WarpSimt) :
    (c.setWarp warpId w).setWarp warpId w' = c.setWarp warpId w' := by
  simp [setWarp]

@[simp] theorem threadHitBarrier_warps (barrierId : BarrierId) :
    (c.threadHitBarrier warpId barrierId).warps = c.warps := rfl

theorem active_fullMask {n : ℕ} (hn : n ≤ 32) (t : Lane) :
    (fullMask n).active t = decide ((t : ℕ) < n) := by
  unfold fullMask
  split
  · next h => rw [ThreadMask.active_allOnes, h, decide_eq_true t.isLt]
  · next h =>
    have hlt : n < 32 := by omega
    have hpow : 2 ^ n < 2 ^ 32 := Nat.pow_lt_pow_right (by decide) hlt
    have hnat : ((1#32 <<< n) - 1#32).toNat = 2 ^ n - 1 := by
      have hone : (1#32 <<< n).toNat = 2 ^ n := by
        rw [BitVec.toNat_shiftLeft, Nat.shiftLeft_eq]
        simpa using Nat.mod_eq_of_lt hpow
      have hle : 1#32 ≤ 1#32 <<< n := by
        rw [BitVec.le_def, hone]
        exact Nat.one_le_two_pow
      rw [BitVec.toNat_sub_of_le hle, hone]
      rfl
    rw [ThreadMask.active, BitVec.getLsbD, hnat, Nat.testBit_two_pow_sub_one]

end SimtController

end RiscvGpgpu.Golden
