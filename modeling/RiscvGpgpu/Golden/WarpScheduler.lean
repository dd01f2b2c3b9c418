import RiscvGpgpu.Hls.Types

/-!
# The golden warp scheduler

`warp_scheduler.cpp`: a queue of ready warps for each compute unit, filled by `submitKernel` and
emptied by `selectWarp`. All three policies select alike. The loop of `balanceLoadAcrossUnits` ends
because a move makes the sum of the squared queue lengths smaller.
-/

namespace RiscvGpgpu.Golden

/-- The fields of `WarpScheduler::Config` that are read; both are divided by. -/
structure WarpScheduler.Config where
  numComputeUnits : ℕ
  maxWarpsPerCu : ℕ
  numComputeUnits_pos : 0 < numComputeUnits
  maxWarpsPerCu_pos : 0 < maxWarpsPerCu

/-- The queues of the compute units, by their number. -/
abbrev WarpQueues := ℕ → List WarpId

structure WarpScheduler where
  readyQueues : WarpQueues
  stalledQueues : WarpQueues
  roundRobinIndices : ℕ → ℕ
  kernelWarpCounter : BitVec 32
  totalWarpsDispatched : BitVec 32
  totalKernelsCompleted : BitVec 32

namespace WarpScheduler

/-- `INVALID_WARP_ID`. -/
def invalidWarpId : WarpId := 0xFFFFFFFF

def reset : WarpScheduler where
  readyQueues := fun _ => []
  stalledQueues := fun _ => []
  roundRobinIndices := fun _ => 0
  kernelWarpCounter := 0
  totalWarpsDispatched := 0
  totalKernelsCompleted := 0

variable (K : Config)

/-! ## Load balancing -/

/-- The first unit with the most warps. -/
def maxCu (q : WarpQueues) : ℕ :=
  (List.range' 1 (K.numComputeUnits - 1)).foldl
    (fun m i => if (q m).length < (q i).length then i else m) 0

/-- The first unit with the fewest warps. -/
def minCu (q : WarpQueues) : ℕ :=
  (List.range' 1 (K.numComputeUnits - 1)).foldl
    (fun m i => if (q i).length < (q m).length then i else m) 0

/-- One turn of the loop, if it moves a warp. -/
def rebalance (q : WarpQueues) : Option WarpQueues :=
  if (q (minCu K q)).length + 1 < (q (maxCu K q)).length then
    match q (maxCu K q) with
    | warp :: rest =>
      let q' := Function.update q (maxCu K q) rest
      some (Function.update q' (minCu K q) (q' (minCu K q) ++ [warp]))
    | [] => none
  else none

/-- The measure of the loop. -/
def sumSquares (q : WarpQueues) : ℕ :=
  ∑ i ∈ Finset.range K.numComputeUnits, (q i).length ^ 2

variable {K}

theorem foldl_mem_range {f : ℕ → ℕ → Prop} [∀ m i, Decidable (f m i)] (is : List ℕ) {m n : ℕ}
    (hm : m < n) (his : ∀ i ∈ is, i < n) :
    is.foldl (fun m i => if f m i then i else m) m < n := by
  induction is generalizing m with
  | nil => exact hm
  | cons i is ih =>
    rw [List.foldl_cons]
    refine ih ?_ fun j hj => his j (List.mem_cons_of_mem _ hj)
    split_ifs
    · exact his i List.mem_cons_self
    · exact hm

theorem maxCu_lt (q : WarpQueues) : maxCu K q < K.numComputeUnits :=
  foldl_mem_range _ K.numComputeUnits_pos fun i hi => by
    obtain ⟨-, hlt⟩ := List.mem_range'_1.1 hi
    have hpos := K.numComputeUnits_pos
    omega

theorem minCu_lt (q : WarpQueues) : minCu K q < K.numComputeUnits :=
  foldl_mem_range _ K.numComputeUnits_pos fun i hi => by
    obtain ⟨-, hlt⟩ := List.mem_range'_1.1 hi
    have hpos := K.numComputeUnits_pos
    omega

/-- What a turn of the loop does to the queues. -/
theorem rebalance_eq_some {q q' : WarpQueues} (h : rebalance K q = some q') :
    ∃ a b warp rest, a < K.numComputeUnits ∧ b < K.numComputeUnits ∧ a ≠ b ∧
      q a = warp :: rest ∧ (q b).length + 1 < (q a).length ∧
      q' = Function.update (Function.update q a rest) b (q b ++ [warp]) := by
  unfold rebalance at h
  split_ifs at h with hlt
  have hne : maxCu K q ≠ minCu K q := by
    intro heq
    rw [heq] at hlt
    omega
  cases hq : q (maxCu K q) with
  | nil =>
    rw [hq] at h
    exact absurd h (by simp)
  | cons warp rest =>
    rw [hq] at h
    obtain rfl := Option.some.inj h
    refine ⟨_, _, warp, rest, maxCu_lt q, minCu_lt q, hne, hq, hlt, ?_⟩
    rw [Function.update_of_ne hne.symm]

/-- A sum over the units, with the terms of two of them apart. -/
theorem sum_range_eq {n a b : ℕ} (ha : a < n) (hb : b < n) (hab : a ≠ b) (f : ℕ → ℕ) :
    ∑ i ∈ Finset.range n, f i =
      f a + (f b + ∑ i ∈ ((Finset.range n).erase a).erase b, f i) := by
  have hmem : b ∈ (Finset.range n).erase a :=
    Finset.mem_erase.2 ⟨hab.symm, Finset.mem_range.2 hb⟩
  rw [Finset.add_sum_erase _ f hmem, Finset.add_sum_erase _ f (Finset.mem_range.2 ha)]

theorem sumSquares_rebalance {q q' : WarpQueues} (h : rebalance K q = some q') :
    sumSquares K q' < sumSquares K q := by
  obtain ⟨a, b, warp, rest, ha, hb, hab, hqa, hlt, rfl⟩ := rebalance_eq_some h
  unfold sumSquares
  rw [sum_range_eq ha hb hab, sum_range_eq ha hb hab fun i => (q i).length ^ 2]
  have hrest : ∑ i ∈ ((Finset.range K.numComputeUnits).erase a).erase b,
      (Function.update (Function.update q a rest) b (q b ++ [warp]) i).length ^ 2 =
      ∑ i ∈ ((Finset.range K.numComputeUnits).erase a).erase b, (q i).length ^ 2 := by
    refine Finset.sum_congr rfl fun i hi => ?_
    obtain ⟨hib, hi⟩ := Finset.mem_erase.1 hi
    rw [Function.update_of_ne hib, Function.update_of_ne (Finset.ne_of_mem_erase hi)]
  rw [hrest, Function.update_self, Function.update_of_ne hab, Function.update_self, hqa,
    List.length_append, List.length_singleton, List.length_cons]
  rw [hqa, List.length_cons] at hlt
  have hsq :
      rest.length ^ 2 + ((q b).length + 1) ^ 2 < (rest.length + 1) ^ 2 + (q b).length ^ 2 := by
    nlinarith
  omega

variable (K)

/-- The loop of `balanceLoadAcrossUnits`. -/
def balanceLoop (q : WarpQueues) : WarpQueues :=
  match _h : rebalance K q with
  | some q' => balanceLoop q'
  | none => q
termination_by sumSquares K q
decreasing_by exact sumSquares_rebalance _h

def balanceLoadAcrossUnits (s : WarpScheduler) : WarpScheduler :=
  if K.numComputeUnits < 2 then s
  else { s with readyQueues := balanceLoop K s.readyQueues }

/-! ## Submission, selection and completion -/

/-- One turn of the loop of `generateWarps`. -/
def generateWarp (s : WarpScheduler) (i : ℕ) : WarpScheduler :=
  let cuId := i % K.numComputeUnits
  { s with
    readyQueues :=
      Function.update s.readyQueues cuId (s.readyQueues cuId ++ [s.kernelWarpCounter])
    kernelWarpCounter := s.kernelWarpCounter + 1 }

def generateWarps (gridX gridY : BitVec 32) (s : WarpScheduler) : WarpScheduler :=
  (List.range (gridX * gridY).toNat).foldl (generateWarp K) s

def submitKernel (gridX gridY : BitVec 32) (s : WarpScheduler) : WarpScheduler :=
  balanceLoadAcrossUnits K (generateWarps K gridX gridY s)

def selectWarpRoundRobin (cuId : ℕ) (s : WarpScheduler) : WarpId × WarpScheduler :=
  match s.readyQueues cuId with
  | [] => (invalidWarpId, s)
  | id :: rest =>
    (id, { s with
      readyQueues := Function.update s.readyQueues cuId rest
      roundRobinIndices := Function.update s.roundRobinIndices cuId
        ((s.roundRobinIndices cuId + 1) % K.maxWarpsPerCu) })

def selectWarp (cuId : ℕ) (s : WarpScheduler) : WarpId × WarpScheduler :=
  if K.numComputeUnits ≤ cuId then (invalidWarpId, s)
  else
    let (warpId, s) := selectWarpRoundRobin K cuId s
    if warpId ≠ invalidWarpId then
      (warpId, { s with totalWarpsDispatched := s.totalWarpsDispatched + 1 })
    else (warpId, s)

/-- The arguments are for the log only. -/
def markWarpComplete (s : WarpScheduler) : WarpScheduler :=
  { s with totalKernelsCompleted := s.totalKernelsCompleted + 1 }

def isComplete (s : WarpScheduler) : Bool :=
  (List.range K.numComputeUnits).all fun i =>
    (s.readyQueues i).isEmpty && (s.stalledQueues i).isEmpty

end WarpScheduler

end RiscvGpgpu.Golden
