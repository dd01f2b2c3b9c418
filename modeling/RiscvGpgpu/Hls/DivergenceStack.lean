import RiscvGpgpu.Hls.Types

/-!
# The HLS divergence stack

`divergence_stack.h`: the active mask of one warp and the masks waiting to rejoin it. The array
`not_taken_stack_` and its pointer `sp_` are one list, innermost entry first, whose length is
`sp_`; at `MAX_DIVERGENCE_DEPTH` entries a push only sets the sticky overflow flag.
-/

namespace RiscvGpgpu

/-- The mask of the lanes at which `p` holds. -/
def laneMask (p : Lane → Bool) : ThreadMask := BitVec.ofFnLE p

/-- Whether lane `t` is set in a mask: `mask[t]`. -/
def ThreadMask.active (m : ThreadMask) (t : Lane) : Bool := m.getLsbD t

/-- The number of set lanes, as a counter word. -/
def popcount (m : ThreadMask) : Word :=
  (List.finRange 32).foldl (fun c (t : Lane) => c + if m.active t then 1 else 0) 0

namespace ThreadMask

@[simp] theorem active_laneMask (p : Lane → Bool) (t : Lane) : (laneMask p).active t = p t := by
  simp [laneMask, active]

@[simp] theorem active_zero (t : Lane) : ThreadMask.active 0#32 t = false := by simp [active]

@[simp] theorem active_or (m m' : ThreadMask) (t : Lane) :
    ThreadMask.active (m ||| m') t = (m.active t || m'.active t) := by
  simp [active]

theorem active_allOnes (t : Lane) : ThreadMask.active (BitVec.allOnes 32) t = true := by
  rw [active, BitVec.getLsbD_allOnes, decide_eq_true t.isLt]

theorem ext {m m' : ThreadMask} (h : ∀ t, m.active t = m'.active t) : m = m' :=
  BitVec.eq_of_getLsbD_eq fun i hi => h ⟨i, hi⟩

theorem eq_zero_iff {m : ThreadMask} : m = 0#32 ↔ ∀ t, m.active t = false := by
  constructor
  · rintro rfl t
    exact active_zero t
  · intro h
    exact ext fun t => by rw [h t, active_zero]

theorem ne_zero_iff {m : ThreadMask} : m ≠ 0#32 ↔ ∃ t, m.active t = true := by
  rw [ne_eq, eq_zero_iff]
  simp

end ThreadMask

namespace Hls

structure DivergenceStack where
  activeMask : ThreadMask
  notTakenStack : List ThreadMask
  overflow : Bool
  divergenceEvents : Word
  wastedCycles : Word
  deriving DecidableEq, Repr

namespace DivergenceStack

def initializeWarp (mask : ThreadMask) : DivergenceStack where
  activeMask := mask
  notTakenStack := []
  overflow := false
  divergenceEvents := 0
  wastedCycles := 0

def pushDivergence (s : DivergenceStack) (notTakenMask : ThreadMask) : DivergenceStack :=
  if maxDivergenceDepth ≤ s.notTakenStack.length then { s with overflow := true }
  else { s with notTakenStack := notTakenMask :: s.notTakenStack }

/-- The active lanes whose condition holds: they fall through. -/
def taken (s : DivergenceStack) (conditions : Lane → Bool) : ThreadMask :=
  laneMask fun t => s.activeMask.active t && conditions t

/-- The active lanes whose condition fails: they are masked until the join. -/
def notTaken (s : DivergenceStack) (conditions : Lane → Bool) : ThreadMask :=
  laneMask fun t => s.activeMask.active t && !conditions t

def handleBranch (s : DivergenceStack) (conditions : Lane → Bool) : DivergenceStack :=
  if s.taken conditions ≠ 0#32 ∧ s.notTaken conditions ≠ 0#32 then
    { s.pushDivergence (s.notTaken conditions) with
      activeMask := s.taken conditions
      divergenceEvents := s.divergenceEvents + 1
      wastedCycles := s.wastedCycles + popcount (s.notTaken conditions) }
  else if s.taken conditions = 0#32 ∧ s.notTaken conditions ≠ 0#32 then
    { s.pushDivergence (s.notTaken conditions) with activeMask := 0#32 }
  else
    -- every active lane falls through, or no lane is active: nothing is pushed
    { s with
      activeMask :=
        if s.taken conditions ≠ 0#32 then s.taken conditions else s.notTaken conditions }

def handleJoin (s : DivergenceStack) : DivergenceStack :=
  match s.notTakenStack with
  | [] => s
  | m :: st => { s with activeMask := s.activeMask ||| m, notTakenStack := st }

variable (s : DivergenceStack) (conditions : Lane → Bool)

@[simp] theorem active_taken (t : Lane) :
    (s.taken conditions).active t = (s.activeMask.active t && conditions t) := by
  simp [taken]

@[simp] theorem active_notTaken (t : Lane) :
    (s.notTaken conditions).active t = (s.activeMask.active t && !conditions t) := by
  simp [notTaken]

@[simp] theorem pushDivergence_activeMask (m : ThreadMask) :
    (s.pushDivergence m).activeMask = s.activeMask := by
  unfold pushDivergence; split <;> rfl

theorem notTaken_ne_zero_iff :
    s.notTaken conditions ≠ 0#32 ↔
      ∃ t, s.activeMask.active t = true ∧ conditions t = false := by
  rw [ThreadMask.ne_zero_iff]
  simp

/-- When nothing is masked, the taken lanes are the active ones. -/
theorem taken_of_notTaken_eq_zero (h : s.notTaken conditions = 0#32) :
    s.taken conditions = s.activeMask := by
  refine ThreadMask.ext fun t => ?_
  have ht := ThreadMask.eq_zero_iff.1 h t
  rw [active_notTaken] at ht
  rw [active_taken]
  cases hm : s.activeMask.active t <;> cases hc : conditions t <;> simp_all

/-- The first two cases of a branch: some active lane is masked and waits on the stack. -/
theorem handleBranch_of_notTaken (h : s.notTaken conditions ≠ 0#32) :
    (s.handleBranch conditions).activeMask = s.taken conditions ∧
      (s.handleBranch conditions).notTakenStack =
        (s.pushDivergence (s.notTaken conditions)).notTakenStack ∧
      (s.handleBranch conditions).overflow =
        (s.pushDivergence (s.notTaken conditions)).overflow := by
  unfold handleBranch
  by_cases ht : s.taken conditions = 0#32
  · rw [if_neg (fun hc => hc.1 ht), if_pos ⟨ht, h⟩]
    exact ⟨ht.symm, rfl, rfl⟩
  · rw [if_pos ⟨ht, h⟩]
    exact ⟨rfl, rfl, rfl⟩

/-- The third case: every active lane falls through and nothing changes. -/
theorem handleBranch_of_notTaken_eq_zero (h : s.notTaken conditions = 0#32) :
    s.handleBranch conditions = s := by
  have hm := s.taken_of_notTaken_eq_zero conditions h
  unfold handleBranch
  rw [if_neg (fun hc => hc.2 h), if_neg (fun hc => hc.2 h)]
  by_cases ht : s.taken conditions = 0#32
  · rw [if_neg (fun hc => hc ht), h, ← ht, hm]
  · rw [if_pos ht, hm]

/-- The active mask after a branch: the active lanes whose condition holds. -/
theorem handleBranch_activeMask :
    (s.handleBranch conditions).activeMask = s.taken conditions := by
  by_cases h : s.notTaken conditions = 0#32
  · rw [s.handleBranch_of_notTaken_eq_zero conditions h, s.taken_of_notTaken_eq_zero conditions h]
  · exact (s.handleBranch_of_notTaken conditions h).1

/-- The overflow flag is sticky. -/
theorem overflow_handleBranch (h : s.overflow = true) :
    (s.handleBranch conditions).overflow = true := by
  by_cases hn : s.notTaken conditions = 0#32
  · rwa [s.handleBranch_of_notTaken_eq_zero conditions hn]
  · rw [(s.handleBranch_of_notTaken conditions hn).2.2]
    unfold pushDivergence; split <;> simp [h]

@[simp] theorem overflow_handleJoin : s.handleJoin.overflow = s.overflow := by
  unfold handleJoin; split <;> rfl

end DivergenceStack

end Hls

end RiscvGpgpu
