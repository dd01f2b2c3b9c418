import RiscvGpgpu.Golden.GpgpuTop

/-!
# What a turn of the simulation loop does

`queued` are the warps in the ready queues. `submitKernel` adds the next warp ids to them,
`selectWarp` takes one out, and balancing only moves them. `barriersLeft` counts the barriers that a
program still stops at; no instruction changes the order of execution, so `executeWarp` completes
exactly when none is left. `Dispatched` puts this together for one turn of the fan-out.
-/

namespace RiscvGpgpu.Golden

namespace WarpScheduler

variable {K : Config} {s : WarpScheduler}

/-- The warps that wait in a ready queue. -/
def queued (K : Config) (s : WarpScheduler) : List WarpId :=
  (List.range K.numComputeUnits).flatMap s.readyQueues

/-- One queue apart from the others. -/
theorem flatMap_range_perm {α : Type*} {n i : ℕ} (hi : i < n) (q : ℕ → List α) :
    ((List.range n).flatMap q).Perm (q i ++ ((List.range n).erase i).flatMap q) :=
  (List.perm_cons_erase (List.mem_range.2 hi)).flatMap_right q

theorem flatMap_update_perm {α : Type*} {n i : ℕ} (hi : i < n) (q : ℕ → List α) (l : List α) :
    ((List.range n).flatMap (Function.update q i l)).Perm
      (l ++ ((List.range n).erase i).flatMap q) := by
  have hrest : ((List.range n).erase i).flatMap (Function.update q i l) =
      ((List.range n).erase i).flatMap q := by
    refine List.flatMap_congr fun j hj => ?_
    have hne : j ≠ i := fun h => List.Nodup.not_mem_erase List.nodup_range (h ▸ hj)
    rw [Function.update_of_ne hne]
  refine (flatMap_range_perm hi _).trans ?_
  rw [Function.update_self, hrest]

/-- Warps added to one queue are added to all. -/
theorem flatMap_append_perm {α : Type*} {n i : ℕ} (hi : i < n) (q : ℕ → List α) (l : List α) :
    ((List.range n).flatMap (Function.update q i (q i ++ l))).Perm
      ((List.range n).flatMap q ++ l) := by
  have hold := (flatMap_range_perm hi q).append_right l
  refine (flatMap_update_perm hi q _).trans (List.Perm.trans ?_ hold.symm)
  rw [List.append_assoc, List.append_assoc]
  exact List.Perm.append_left _ List.perm_append_comm

open scoped List in
theorem rebalance_perm {q q' : WarpQueues} (h : rebalance K q = some q') :
    ((List.range K.numComputeUnits).flatMap q').Perm
      ((List.range K.numComputeUnits).flatMap q) := by
  obtain ⟨a, b, warp, rest, ha, hb, hab, hqa, -, rfl⟩ := rebalance_eq_some h
  have hqb : Function.update q a rest b = q b := Function.update_of_ne hab.symm _ _
  have hadd := flatMap_append_perm hb (Function.update q a rest) [warp]
  rw [hqb] at hadd
  calc _ ~ (List.range K.numComputeUnits).flatMap (Function.update q a rest) ++ [warp] := hadd
    _ ~ rest ++ ((List.range K.numComputeUnits).erase a).flatMap q ++ [warp] :=
      (flatMap_update_perm ha q rest).append_right _
    _ ~ warp :: (rest ++ ((List.range K.numComputeUnits).erase a).flatMap q) :=
      List.perm_append_comm
    _ ~ (List.range K.numComputeUnits).flatMap q := by
      have hold := (flatMap_range_perm ha q).symm
      rwa [hqa] at hold

theorem balanceLoop_perm (q : WarpQueues) :
    ((List.range K.numComputeUnits).flatMap (balanceLoop K q)).Perm
      ((List.range K.numComputeUnits).flatMap q) := by
  fun_induction balanceLoop K q with
  | case1 q q' h ih => exact ih.trans (rebalance_perm h)
  | case2 q h => exact List.Perm.refl _

/-- The next `n` warp ids. -/
def nextWarps (s : WarpScheduler) (n : ℕ) : List WarpId :=
  (List.range n).map fun i => s.kernelWarpCounter + BitVec.ofNat 32 i

/-- No warp of a launch that stays below it gets the id `INVALID_WARP_ID`. -/
theorem nextWarps_valid {s : WarpScheduler} {n : ℕ} (h : s.kernelWarpCounter.toNat + n < 2 ^ 32) :
    ∀ id ∈ s.nextWarps n, id ≠ invalidWarpId := by
  intro id hid
  obtain ⟨i, hi, rfl⟩ := List.mem_map.1 hid
  have hlt := List.mem_range.1 hi
  intro heq
  have hnat := congrArg BitVec.toNat heq
  rw [BitVec.toNat_add, BitVec.toNat_ofNat, Nat.mod_eq_of_lt (a := i) (by omega),
    Nat.mod_eq_of_lt (by omega)] at hnat
  have hinv : invalidWarpId.toNat = 2 ^ 32 - 1 := rfl
  omega

/-- What a submission does, up to the order of the warps in the queues. -/
structure Submitted (K : Config) (n : ℕ) (s s' : WarpScheduler) : Prop where
  queued : (s'.queued K).Perm (s.queued K ++ s.nextWarps n)
  counter : s'.kernelWarpCounter = s.kernelWarpCounter + BitVec.ofNat 32 n
  stalled : s'.stalledQueues = s.stalledQueues

theorem generateWarps_submitted (K : Config) (n : ℕ) (s : WarpScheduler) :
    Submitted K n s ((List.range n).foldl (generateWarp K) s) := by
  induction n with
  | zero =>
    refine ⟨?_, ?_, rfl⟩
    · show (s.queued K).Perm (s.queued K ++ [])
      rw [List.append_nil]
    · show s.kernelWarpCounter = s.kernelWarpCounter + 0#32
      rw [BitVec.add_zero]
  | succ n ih =>
    have hcu : n % K.numComputeUnits < K.numComputeUnits := Nat.mod_lt _ K.numComputeUnits_pos
    rw [List.range_succ, List.foldl_append, List.foldl_cons, List.foldl_nil]
    refine ⟨?_, ?_, ih.stalled⟩
    · refine (flatMap_append_perm hcu _ _).trans ?_
      rw [ih.counter, nextWarps, List.range_succ, List.map_append, ← List.append_assoc]
      exact ih.queued.append_right _
    · show _ + 1 = _
      rw [ih.counter]
      bv_omega

theorem submitKernel_submitted (K : Config) (gridX gridY : BitVec 32) (s : WarpScheduler) :
    Submitted K (gridX * gridY).toNat s (s.submitKernel K gridX gridY) := by
  have hgen := generateWarps_submitted K (gridX * gridY).toNat s
  unfold submitKernel balanceLoadAcrossUnits
  split_ifs with h
  · exact hgen
  · exact ⟨(balanceLoop_perm _).trans hgen.queued, hgen.counter, hgen.stalled⟩

/-- Nothing is queued in a scheduler that reports completion. -/
theorem isComplete_iff (h : ∀ i, s.stalledQueues i = []) :
    s.isComplete K = true ↔ s.queued K = [] := by
  simp only [isComplete, queued, h, List.all_eq_true, List.isEmpty_nil, Bool.and_true,
    List.isEmpty_iff, List.flatMap_eq_nil_iff]

/-- A selection pops the queue of its unit. -/
theorem selectWarp_eq {cuId : ℕ} (hcu : cuId < K.numComputeUnits) :
    (s.selectWarp K cuId).1 = ((s.readyQueues cuId).head?).getD invalidWarpId ∧
      (s.selectWarp K cuId).2.readyQueues =
        Function.update s.readyQueues cuId (s.readyQueues cuId).tail := by
  unfold selectWarp selectWarpRoundRobin
  rw [if_neg (Nat.not_le.2 hcu)]
  cases hq : s.readyQueues cuId with
  | nil =>
    dsimp only
    rw [if_neg (not_not.2 rfl), List.tail_nil, ← hq, Function.update_eq_self]
    exact ⟨by rw [hq]; rfl, rfl⟩
  | cons id rest =>
    dsimp only
    split_ifs <;> exact ⟨rfl, rfl⟩

/-- What a selection takes out. -/
theorem selectWarp_cases {cuId : ℕ} (hcu : cuId < K.numComputeUnits) (s : WarpScheduler) :
    s.selectWarp K cuId = (invalidWarpId, s) ∨
      (s.queued K).Perm ((s.selectWarp K cuId).1 :: (s.selectWarp K cuId).2.queued K) ∧
        (s.selectWarp K cuId).2.stalledQueues = s.stalledQueues ∧
        (s.selectWarp K cuId).2.kernelWarpCounter = s.kernelWarpCounter := by
  unfold selectWarp selectWarpRoundRobin
  rw [if_neg (Nat.not_le.2 hcu)]
  cases hq : s.readyQueues cuId with
  | nil => exact .inl rfl
  | cons id rest =>
    right
    have hperm : (s.queued K).Perm
        (id :: (List.range K.numComputeUnits).flatMap
          (Function.update s.readyQueues cuId rest)) := by
      refine (flatMap_range_perm hcu s.readyQueues).trans ?_
      rw [hq]
      exact (flatMap_update_perm hcu s.readyQueues rest).symm.cons id
    dsimp only
    split_ifs with hid
    · exact ⟨hperm, rfl, rfl⟩
    · exact ⟨hperm, rfl, rfl⟩

end WarpScheduler

/-! ## Barriers in a program -/

/-- The `BARRIER`s before the first `HALT`. -/
def barriersLeft : List Instruction → ℕ
  | [] => 0
  | instr :: rest =>
    if instr.opcode = .halt then 0
    else if instr.opcode = .barrier then barriersLeft rest + 1
    else barriersLeft rest

/-- What `executeWarp` ends with, by the barriers left. -/
def StopsAtBarrier (program : List Instruction) (left : ℕ) (out : WarpOutcome) : Prop :=
  if left = 0 then out.ctx.state = .complete
  else out.ctx.state = .stalled ∧ barriersLeft (program.drop out.ctx.pc) + 1 = left

theorem warpLoop_stops (K : CuConfig) (program : List Instruction) (rest : List Instruction)
    (cu : ComputeUnit) (ctx : WarpContext) (h : rest = program.drop ctx.pc) :
    (warpLoop K rest cu ctx).AllLeaves (StopsAtBarrier program (barriersLeft rest)) := by
  induction rest generalizing cu ctx with
  | nil => exact rfl
  | cons instr rest ih =>
    have htail : rest = program.drop (ctx.pc + 1) := by
      rw [← List.tail_drop, ← h, List.tail_cons]
    unfold warpLoop barriersLeft
    split_ifs with hhalt hbarrier
    · exact rfl
    · show StopsAtBarrier _ _ _
      unfold StopsAtBarrier
      rw [if_neg (Nat.succ_ne_zero _)]
      exact ⟨rfl, by rw [htail]⟩
    · refine (Interact.AllLeaves.of_forall (P := fun _ => True) (fun _ => trivial) _).bind ?_
      intro r _
      exact ih _ _ htail

theorem executeWarp_stops (K : CuConfig) (program : List Instruction) (cu : ComputeUnit)
    (ctx : WarpContext) : (executeWarp K program cu ctx).AllLeaves
      (StopsAtBarrier program (barriersLeft (program.drop ctx.pc))) :=
  warpLoop_stops K program _ _ _ rfl

namespace GpgpuTop

variable {K : Config} {g : GpgpuTop}

/-- What a launch sets and the loop leaves alone. -/
def launchData (g : GpgpuTop) : List Instruction × WarpId × BitVec 32 × BitVec 32 :=
  (g.kernelProgram, g.kernelStartWarpId, g.warpIdOffset, g.totalWarps)

theorem buildWarpContext_congr {g g' : GpgpuTop} (h : g'.launchData = g.launchData) :
    g'.buildWarpContext K = g.buildWarpContext K := by
  obtain ⟨-, hstart, hoffset, -⟩ := by simpa only [launchData, Prod.mk.injEq] using h
  funext warpId
  simp only [buildWarpContext, globalTid, hstart, hoffset]

theorem launchedWarps_congr {g g' : GpgpuTop} (h : g'.launchData = g.launchData) :
    g'.launchedWarps = g.launchedWarps := by
  obtain ⟨-, hstart, -, htotal⟩ := by simpa only [launchData, Prod.mk.injEq] using h
  rw [launchedWarps, launchedWarps, hstart, htotal]

theorem runWarp_stops (cuId : ℕ) (program : List Instruction) (ctx : WarpContext) (g : GpgpuTop) :
    StopsAtBarrier program (barriersLeft (program.drop ctx.pc))
      (g.runWarp K cuId program ctx).1 :=
  (executeWarp_stops K.cu program (g.computeUnits cuId) ctx).serve serveAccess g.memory

/-- The warp left its queue, and ran to the end or to a barrier. -/
structure Dispatched (K : Config) (s s' : Turn) (warpId : WarpId) : Prop where
  queued : (s.top.scheduler.queued K.toConfig).Perm
    (warpId :: s'.top.scheduler.queued K.toConfig)
  stalled : s'.top.scheduler.stalledQueues = s.top.scheduler.stalledQueues
  counter : s'.top.scheduler.kernelWarpCounter = s.top.scheduler.kernelWarpCounter
  data : s'.top.launchData = s.top.launchData
  result : (warpId = WarpScheduler.invalidWarpId ∧ s'.barrierQueue = s.barrierQueue ∧
      s'.events = s.events) ∨
    (warpId ≠ WarpScheduler.invalidWarpId ∧ barriersLeft s.top.kernelProgram = 0 ∧
      s'.barrierQueue = s.barrierQueue ∧
      s'.events = s.events ++ [.built (s.top.buildWarpContext K warpId), .complete warpId]) ∨
    (warpId ≠ WarpScheduler.invalidWarpId ∧ ∃ sw : StalledWarp, sw.id = warpId ∧
      barriersLeft (sw.program.drop sw.ctx.pc) + 1 = barriersLeft s.top.kernelProgram ∧
      s'.barrierQueue = s.barrierQueue ++ [sw] ∧
      s'.events = s.events ++ [.built (s.top.buildWarpContext K warpId)])

theorem dispatch_cases {cuId : ℕ} (hcu : cuId < K.numComputeUnits) (s : Turn) :
    dispatch K cuId s = s ∨ ∃ warpId, Dispatched K s (dispatch K cuId s) warpId := by
  obtain hnone | ⟨hperm, hst, hcnt⟩ := s.top.scheduler.selectWarp_cases hcu
  · left
    unfold dispatch
    rw [hnone]
    exact if_pos rfl
  · right
    rcases hsel : s.top.scheduler.selectWarp K.toConfig cuId with ⟨warpId, scheduler⟩
    rw [hsel] at hperm hst hcnt
    refine ⟨warpId, ?_⟩
    unfold dispatch
    rw [hsel]
    dsimp only
    by_cases hid : warpId = WarpScheduler.invalidWarpId
    · rw [if_pos hid]
      exact ⟨hperm, hst, hcnt, rfl, .inl ⟨hid, rfl, rfl⟩⟩
    · rw [if_neg hid]
      have hstop := runWarp_stops (K := K) cuId s.top.kernelProgram
        (buildWarpContext K { s.top with scheduler := scheduler } warpId)
        { s.top with scheduler := scheduler }
      unfold StopsAtBarrier at hstop
      split_ifs at hstop with hleft
      · rw [if_pos hstop]
        exact ⟨hperm, hst, hcnt, rfl, .inr (.inl ⟨hid, hleft, rfl, rfl⟩)⟩
      · rw [if_neg (by rw [hstop.1]; decide)]
        exact ⟨hperm, hst, hcnt, rfl, .inr (.inr ⟨hid, _, rfl, hstop.2, rfl, rfl⟩)⟩

/-- What holds before a fan-out and is kept by every dispatch holds after it. -/
theorem fanOut_induction {P : Turn → Prop}
    (hstep : ∀ s s' warpId, P s → Dispatched K s s' warpId → P s') {s : Turn} (hs : P s) :
    P (fanOut K s) := by
  unfold fanOut
  have hlt : ∀ cuId ∈ List.range K.numComputeUnits, cuId < K.numComputeUnits :=
    fun _ h => List.mem_range.1 h
  generalize List.range K.numComputeUnits = cus at hlt
  induction cus generalizing s with
  | nil => exact hs
  | cons cuId cus ih =>
    refine ih ?_ fun c hc => hlt c (List.mem_cons_of_mem _ hc)
    show P (dispatch K cuId s)
    obtain heq | ⟨warpId, hd⟩ := dispatch_cases (hlt cuId List.mem_cons_self) s
    · rwa [heq]
    · exact hstep s _ warpId hs hd

end GpgpuTop

end RiscvGpgpu.Golden
