import RiscvGpgpu.Golden.FinalContexts
import RiscvGpgpu.Golden.KernelCompletion
import RiscvGpgpu.Parity.DispatchOrder

/-!
# A golden launch, one warp after the other

`simulationProcess` fans the warps of a launch out over the compute units, collects those that stop
at a barrier and resumes them together. What it computes is simpler: the warps run one after the
other in the order of their ids, wave by wave, from one barrier to the next (`launch_serial`), and
end with the contexts that they have then (`SerialEnd`). The units matter through their stale
divergence entries only, and `Serial.Ran` leaves these open.
-/

namespace RiscvGpgpu.Golden

/-! ## Serial runs -/

/-- The memory, and the contexts of the warps of a launch by their number in it. -/
structure Serial where
  memory : MemoryHierarchy
  contexts : ℕ → WarpContext

namespace Serial

variable (K : CuConfig) (program : List Instruction)

/-- Warp `w` runs to its next stop, on a unit in some state. -/
def Ran (w : ℕ) (s s' : Serial) : Prop :=
  ∃ cu : ComputeUnit,
    let r := (executeWarp K program cu (s.contexts w)).serve GpgpuTop.serveAccess s.memory
    s' = ⟨r.1, Function.update s.contexts w r.2.ctx⟩

/-- Warps run one after the other. -/
inductive Runs (start : Serial) : List ℕ → Serial → Prop where
  | nil : Runs start [] start
  | snoc {ws : List ℕ} {w : ℕ} {s s' : Serial} (h : Runs start ws s) (hw : Ran K program w s s') :
      Runs start (ws ++ [w]) s'

variable {K program} in
theorem Runs.nil_inv {start s : Serial} (h : Runs K program start [] s) : s = start := by
  generalize heq : ([] : List ℕ) = l at h
  cases h with
  | nil => rfl
  | snoc h hw => exact absurd heq (by simp)

variable {K program} in
theorem Runs.snoc_inv {start s' : Serial} {ws : List ℕ} {w : ℕ}
    (h : Runs K program start (ws ++ [w]) s') :
    ∃ s, Runs K program start ws s ∧ Ran K program w s s' := by
  generalize heq : ws ++ [w] = l at h
  cases h with
  | nil => exact absurd heq (by simp)
  | snoc h hw =>
    obtain ⟨rfl, hlast⟩ := List.append_inj' heq rfl
    obtain rfl := List.singleton_inj.1 hlast
    exact ⟨_, h, hw⟩

/-- All warps in the order of their numbers, `n` times. -/
def waves (total n : ℕ) : List ℕ := (List.range n).flatMap fun _ => List.range total

theorem waves_succ (total n : ℕ) : waves total (n + 1) = waves total n ++ List.range total := by
  rw [waves, List.range_succ, List.flatMap_append, List.flatMap_singleton, ← waves]

theorem waves_zero (n : ℕ) : waves 0 n = [] := List.flatMap_eq_nil_iff.2 fun _ _ => rfl

end Serial

theorem WarpScheduler.selectWarp_stalledQueues {K : Config} {cuId : ℕ}
    (hcu : cuId < K.numComputeUnits) (s : WarpScheduler) :
    (s.selectWarp K cuId).2.stalledQueues = s.stalledQueues := by
  obtain heq | ⟨-, hst, -⟩ := s.selectWarp_cases hcu
  · rw [heq]
  · exact hst

namespace GpgpuTop

variable {K : Config} {start : GpgpuTop}

/-- The contexts that the warps of a launch start with. -/
def launchedContexts (K : Config) (g : GpgpuTop) (w : ℕ) : WarpContext :=
  g.buildWarpContext K (g.kernelStartWarpId + BitVec.ofNat 32 w)

/-- The barriers of the kernel. -/
def barriers (g : GpgpuTop) : ℕ := barriersLeft g.kernelProgram

/-- The ids of the first `k` warps of a launch. -/
def firstWarps (g : GpgpuTop) (k : ℕ) : List WarpId :=
  (List.range k).map fun w => g.kernelStartWarpId + BitVec.ofNat 32 w

theorem firstWarps_succ (g : GpgpuTop) (k : ℕ) :
    g.firstWarps (k + 1) = g.firstWarps k ++ [g.kernelStartWarpId + BitVec.ofNat 32 k] := by
  rw [firstWarps, List.range_succ, List.map_append]
  rfl

/-! ## The warps of a wave -/

/-- Of the launch that begins in `start`, `k` warps of wave `v` have run. -/
structure InWave (K : Config) (start : GpgpuTop) (v k : ℕ) (s : Serial) (g : GpgpuTop) : Prop where
  runs : Serial.Runs K.cu start.kernelProgram ⟨start.memory, start.launchedContexts K⟩
    (Serial.waves start.totalWarps.toNat v ++ List.range k) s
  memory : s.memory = g.memory
  data : g.launchData = start.launchData
  quiet : g.launchPending = false
  waiting : ∀ w, k ≤ w → w < start.totalWarps.toNat →
    barriersLeft (start.kernelProgram.drop (s.contexts w).pc) + v = start.barriers
  stopped : ∀ w < k, if v = start.barriers then (s.contexts w).state = .complete
    else (s.contexts w).state = .stalled ∧
      barriersLeft (start.kernelProgram.drop (s.contexts w).pc) + (v + 1) = start.barriers

section InWave

variable {v k : ℕ} {s : Serial} {g g' : GpgpuTop}

theorem InWave.congr (h : InWave K start v k s g) (hmem : g'.memory = g.memory)
    (hdata : g'.launchData = g.launchData) (hquiet : g'.launchPending = g.launchPending) :
    InWave K start v k s g' :=
  { h with
    memory := h.memory.trans hmem.symm
    data := hdata.trans h.data
    quiet := hquiet.trans h.quiet }

/-- The state after one more warp. -/
def afterWarp (s : Serial) (k : ℕ) (r : WarpOutcome × GpgpuTop) : Serial :=
  ⟨r.2.memory, Function.update s.contexts k r.1.ctx⟩

theorem afterWarp_self (s : Serial) (k : ℕ) (r : WarpOutcome × GpgpuTop) :
    (afterWarp s k r).contexts k = r.1.ctx := Function.update_self _ _ _

theorem afterWarp_of_ne (s : Serial) {w k : ℕ} (h : w ≠ k) (r : WarpOutcome × GpgpuTop) :
    (afterWarp s k r).contexts w = s.contexts w := Function.update_of_ne h _ _

/-- The next warp of the wave runs to its stop. -/
theorem InWave.runWarp (h : InWave K start v k s g) (hk : k < start.totalWarps.toNat) (cuId : ℕ) :
    InWave K start v (k + 1)
      (afterWarp s k (g.runWarp K cuId start.kernelProgram (s.contexts k)))
      (g.runWarp K cuId start.kernelProgram (s.contexts k)).2 where
  runs := by
    rw [List.range_succ, ← List.append_assoc]
    refine h.runs.snoc ⟨g.computeUnits cuId, ?_⟩
    rw [h.memory]
    rfl
  memory := rfl
  data := h.data
  quiet := h.quiet
  waiting := by
    intro w hw htotal
    rw [afterWarp_of_ne s (by omega)]
    exact h.waiting w (by omega) htotal
  stopped := by
    intro w hw
    by_cases hlast : w = k
    · subst hlast
      have hleft := h.waiting w le_rfl hk
      have hstop := runWarp_stops (K := K) cuId start.kernelProgram (s.contexts w) g
      unfold StopsAtBarrier at hstop
      rw [afterWarp_self]
      by_cases hv : v = start.barriers
      · rw [if_pos (by omega)] at hstop
        rwa [if_pos hv]
      · rw [if_neg (by omega)] at hstop
        rw [if_neg hv]
        exact ⟨hstop.1, by omega⟩
    · rw [afterWarp_of_ne s hlast]
      exact h.stopped w (by omega)

/-- A wave that has stopped at a barrier is the beginning of the next one. -/
theorem InWave.next (h : InWave K start v start.totalWarps.toNat s g) (hv : v ≠ start.barriers) :
    InWave K start (v + 1) 0 s g where
  runs := by
    rw [Serial.waves_succ, List.range_zero, List.append_nil]
    exact h.runs
  memory := h.memory
  data := h.data
  quiet := h.quiet
  waiting := by
    intro w _ htotal
    have hstop := h.stopped w htotal
    rw [if_neg hv] at hstop
    exact hstop.2
  stopped := fun w hw => absurd hw (Nat.not_lt_zero w)

end InWave

/-! ## The barrier queue -/

/-- The entry of a warp that has stopped at a barrier. -/
structure Entry (start : GpgpuTop) (s : Serial) (w : ℕ) (sw : StalledWarp) : Prop where
  id : sw.id = start.kernelStartWarpId + BitVec.ofNat 32 w
  ctx : sw.ctx = s.contexts w
  program : sw.program = start.kernelProgram

/-- The queue holds warps in the order of their numbers. -/
def Collected (start : GpgpuTop) (s : Serial) (ws : List ℕ) (bq : List StalledWarp) : Prop :=
  List.Forall₂ (Entry start s) ws bq

/-- What `k` warps of wave `v` leave: at the last stop they complete, before they are queued. -/
structure Left (start : GpgpuTop) (v k : ℕ) (s : Serial) (bq : List StalledWarp)
    (completed : List WarpId) (final : List WarpContext) : Prop where
  last : v = start.barriers → bq = [] ∧ completed = start.firstWarps k ∧
    final = (List.range k).map s.contexts
  stalled : v ≠ start.barriers →
    Collected start s (List.range k) bq ∧ completed = [] ∧ final = []

section Queue

variable {v k : ℕ} {s : Serial} {bq : List StalledWarp} {tr : List TopEvent}
  {final : List WarpContext}

theorem Collected.update {ws : List ℕ} (h : Collected start s ws bq) (hk : k ∉ ws)
    (r : WarpOutcome × GpgpuTop) : Collected start (afterWarp s k r) ws bq := by
  refine (List.forall₂_iff_get.2 ?_)
  obtain ⟨hlen, hget⟩ := List.forall₂_iff_get.1 h
  refine ⟨hlen, fun i hi hi' => ?_⟩
  have hentry := hget i hi hi'
  have hne : ws.get ⟨i, hi⟩ ≠ k := fun heq => hk (heq ▸ List.get_mem ws ⟨i, hi⟩)
  refine ⟨hentry.id, ?_, hentry.program⟩
  rw [afterWarp_of_ne s hne]
  exact hentry.ctx

theorem Left.length (h : Left start v k s bq (completedSince tr) final) (hv : v ≠ start.barriers) :
    bq.length = k := by
  rw [← (h.stalled hv).1.length_eq, List.length_range]

/-- One more warp stops. -/
theorem Left.stop {completed : List WarpId} (h : Left start v k s bq completed final)
    {r : WarpOutcome × GpgpuTop} {sw : StalledWarp}
    (hsw : Entry start (afterWarp s k r) k sw) : Left start v (k + 1) (afterWarp s k r)
      (if v = start.barriers then bq else bq ++ [sw])
      (if v = start.barriers then completed ++ [sw.id] else completed)
      (if v = start.barriers then final ++ [r.1.ctx] else final) where
  last := by
    intro hv
    obtain ⟨hbq, hcompleted, hfinal⟩ := h.last hv
    have hothers : (List.range k).map (afterWarp s k r).contexts =
        (List.range k).map s.contexts :=
      List.map_congr_left fun w hw => afterWarp_of_ne s (List.mem_range.1 hw).ne r
    rw [if_pos hv, if_pos hv, if_pos hv, hcompleted, hfinal, firstWarps_succ, hsw.id,
      List.range_succ, List.map_append, hothers, List.map_singleton, afterWarp_self]
    exact ⟨hbq, rfl, rfl⟩
  stalled := by
    intro hv
    obtain ⟨hbq, hcompleted, hfinal⟩ := h.stalled hv
    rw [if_neg hv, if_neg hv, if_neg hv, List.range_succ]
    exact ⟨List.rel_append (hbq.update (by simp) r) (.cons hsw .nil), hcompleted, hfinal⟩

end Queue

/-! ## Dispatches -/

theorem selectWarp_nil {cuId : ℕ} (hcu : cuId < K.numComputeUnits) {s : WarpScheduler}
    (hq : s.readyQueues cuId = []) :
    s.selectWarp K.toConfig cuId = (WarpScheduler.invalidWarpId, s) := by
  unfold WarpScheduler.selectWarp WarpScheduler.selectWarpRoundRobin
  rw [if_neg (Nat.not_le.2 hcu), hq]
  exact if_neg (not_not.2 rfl)

theorem dispatch_nil {cuId : ℕ} (hcu : cuId < K.numComputeUnits) {t : Turn}
    (hq : t.top.scheduler.readyQueues cuId = []) :
    dispatch K cuId t = t ∧ dispatchContexts K cuId t = [] := by
  unfold dispatch dispatchContexts
  rw [selectWarp_nil hcu hq]
  exact ⟨if_pos rfl, if_pos rfl⟩

/-- A dispatch from a queue that holds a warp. -/
theorem dispatch_cons {cuId : ℕ} (hcu : cuId < K.numComputeUnits) {t : Turn} {warpId : WarpId}
    {rest : List WarpId} (hq : t.top.scheduler.readyQueues cuId = warpId :: rest)
    (hid : warpId ≠ WarpScheduler.invalidWarpId) :
    ∃ g : GpgpuTop, g.memory = t.top.memory ∧ g.launchData = t.top.launchData ∧
      g.launchPending = t.top.launchPending ∧
      g.scheduler.readyQueues = Function.update t.top.scheduler.readyQueues cuId rest ∧
      g.scheduler.stalledQueues = t.top.scheduler.stalledQueues ∧
      (dispatch K cuId t =
        let ctx := g.buildWarpContext K warpId
        let r := g.runWarp K cuId g.kernelProgram ctx
        if r.1.ctx.state = .complete then
          ⟨{ r.2 with scheduler := r.2.scheduler.markWarpComplete }, t.barrierQueue,
            t.events ++ [.built ctx, .complete warpId]⟩
        else
          ⟨{ r.2 with scheduler := r.2.scheduler.markWarpComplete }, t.barrierQueue ++
            [⟨warpId, cuId, r.1.barrierIdOut.getD 0, r.1.ctx, g.kernelProgram⟩],
            t.events ++ [.built ctx]⟩) ∧
      dispatchContexts K cuId t =
        completedContext (g.runWarp K cuId g.kernelProgram (g.buildWarpContext K warpId)).1 := by
  obtain ⟨hfirst, hqueues⟩ := WarpScheduler.selectWarp_eq (s := t.top.scheduler) hcu
  rw [hq] at hfirst hqueues
  refine ⟨{ t.top with scheduler := (t.top.scheduler.selectWarp K.toConfig cuId).2 }, rfl, rfl,
    rfl, hqueues, WarpScheduler.selectWarp_stalledQueues hcu _, ?_⟩
  unfold dispatch dispatchContexts
  rw [← Prod.mk.eta (p := t.top.scheduler.selectWarp K.toConfig cuId), hfirst]
  exact ⟨if_neg hid, if_neg hid⟩

theorem fanOut_nil {t : Turn}
    (hq : ∀ cuId < K.numComputeUnits, t.top.scheduler.readyQueues cuId = []) :
    fanOut K t = t ∧ fanOutContexts K t = [] := by
  unfold fanOut fanOutContexts
  have hall : ∀ cuId ∈ List.range K.numComputeUnits,
      dispatch K cuId t = t ∧ dispatchContexts K cuId t = [] := fun cuId h =>
    dispatch_nil (List.mem_range.1 h) (hq cuId (List.mem_range.1 h))
  generalize List.range K.numComputeUnits = cus at hall
  induction cus with
  | nil => exact ⟨rfl, rfl⟩
  | cons cuId cus ih =>
    obtain ⟨hsame, hnone⟩ := hall cuId List.mem_cons_self
    rw [List.foldl_cons, loopOut, hsame, hnone, List.nil_append]
    exact ih fun c hc => hall c (List.mem_cons_of_mem _ hc)

/-- The first `k` warps of the launch are dispatched. -/
structure Dispatching (K : Config) (start : GpgpuTop) (tr : List TopEvent)
    (final : List WarpContext) (k : ℕ) (s : Serial) (t : Turn) : Prop where
  wave : InWave K start 0 k s t.top
  fresh : ∀ w, k ≤ w → s.contexts w = start.launchedContexts K w
  queues : ∀ cuId < K.numComputeUnits, t.top.scheduler.readyQueues cuId =
    (WarpScheduler.dealt K.toConfig start.kernelStartWarpId start.totalWarps.toNat cuId).drop
      (share K.numComputeUnits k cuId)
  stalledQueues : ∀ cuId < K.numComputeUnits, t.top.scheduler.stalledQueues cuId = []
  left : Left start 0 k s t.barrierQueue (completedSince (tr ++ t.events)) final

section Dispatching

variable {tr : List TopEvent} {final : List WarpContext} {k : ℕ} {s : Serial} {t : Turn}

theorem length_dealt (K : WarpScheduler.Config) (first : WarpId) (total cuId : ℕ) :
    (WarpScheduler.dealt K first total cuId).length = share K.numComputeUnits total cuId := by
  rw [WarpScheduler.dealt, List.length_map, List.length_range]

theorem Dispatching.drained (h : Dispatching K start tr final start.totalWarps.toNat s t) :
    ∀ cuId < K.numComputeUnits, t.top.scheduler.readyQueues cuId = [] := by
  intro cuId hcu
  rw [h.queues cuId hcu, List.drop_eq_nil_of_le (length_dealt _ _ _ _).le]

/-- The unit whose turn it is gets the next warp. -/
theorem Dispatching.queue_eq (h : Dispatching K start tr final k s t)
    (hk : k < start.totalWarps.toNat) :
    t.top.scheduler.readyQueues (k % K.numComputeUnits) =
      (start.kernelStartWarpId + BitVec.ofNat 32 k) ::
        (WarpScheduler.dealt K.toConfig start.kernelStartWarpId start.totalWarps.toNat
          (k % K.numComputeUnits)).drop
          (share K.numComputeUnits k (k % K.numComputeUnits) + 1) := by
  have hcu : k % K.numComputeUnits < K.numComputeUnits := Nat.mod_lt _ K.numComputeUnits_pos
  have hplace : k % K.numComputeUnits +
      share K.numComputeUnits k (k % K.numComputeUnits) * K.numComputeUnits = k :=
    add_share_mul hcu rfl
  have hlt : share K.numComputeUnits k (k % K.numComputeUnits) <
      share K.numComputeUnits start.totalWarps.toNat (k % K.numComputeUnits) := by
    rw [lt_share_iff hcu, hplace]
    exact hk
  rw [h.queues _ hcu, List.drop_eq_getElem_cons (by rwa [length_dealt])]
  congr 1
  simp only [WarpScheduler.dealt, List.getElem_map, List.getElem_range, hplace]

/-- One dispatch of the unit whose turn it is. -/
theorem Dispatching.dispatch (h : Dispatching K start tr final k s t)
    (hk : k < start.totalWarps.toNat)
    (hids : start.kernelStartWarpId.toNat + start.totalWarps.toNat < 2 ^ 32) :
    ∃ s', Dispatching K start tr (final ++ dispatchContexts K (k % K.numComputeUnits) t) (k + 1) s'
      (GpgpuTop.dispatch K (k % K.numComputeUnits) t) := by
  have hcu : k % K.numComputeUnits < K.numComputeUnits := Nat.mod_lt _ K.numComputeUnits_pos
  have hvalid : start.kernelStartWarpId + BitVec.ofNat 32 k ≠ WarpScheduler.invalidWarpId := by
    have hinv : WarpScheduler.invalidWarpId.toNat = 2 ^ 32 - 1 := rfl
    intro heq
    have hnat := congrArg BitVec.toNat heq
    rw [BitVec.toNat_add, BitVec.toNat_ofNat] at hnat
    omega
  obtain ⟨g, hmem, hdata, hquiet, hqueues, hstalled, hdispatch, hcontexts⟩ :=
    dispatch_cons hcu (h.queue_eq hk) hvalid
  have hwave := (h.wave.congr hmem hdata hquiet).runWarp hk (k % K.numComputeUnits)
  have hctx : g.buildWarpContext K (start.kernelStartWarpId + BitVec.ofNat 32 k) =
    s.contexts k := by
    rw [h.fresh k le_rfl, launchedContexts, buildWarpContext_congr (hdata.trans h.wave.data)]
  obtain ⟨hprog, -⟩ := by
    simpa only [launchData, Prod.mk.injEq] using hdata.trans h.wave.data
  rw [hctx, hprog] at hdispatch hcontexts
  set r := g.runWarp K (k % K.numComputeUnits) start.kernelProgram (s.contexts k) with hr
  have hqueues' : ∀ cuId < K.numComputeUnits, r.2.scheduler.readyQueues cuId =
      (WarpScheduler.dealt K.toConfig start.kernelStartWarpId start.totalWarps.toNat cuId).drop
        (share K.numComputeUnits (k + 1) cuId) := by
    intro cuId hcuId
    show g.scheduler.readyQueues cuId = _
    rw [hqueues, share_succ hcuId]
    by_cases heq : k % K.numComputeUnits = cuId
    · subst heq
      rw [Function.update_self, if_pos rfl]
    · rw [Function.update_of_ne (Ne.symm heq), if_neg heq, Nat.add_zero]
      exact h.queues cuId hcuId
  have hstalled' : ∀ cuId < K.numComputeUnits, r.2.scheduler.stalledQueues cuId = [] := by
    intro cuId hcuId
    show g.scheduler.stalledQueues cuId = []
    rw [hstalled]
    exact h.stalledQueues cuId hcuId
  have hfresh : ∀ w, k + 1 ≤ w →
      (afterWarp s k r).contexts w = start.launchedContexts K w := by
    intro w hw
    rw [afterWarp_of_ne s (by omega)]
    exact h.fresh w (by omega)
  have hstop := hwave.stopped k (Nat.lt_succ_self k)
  rw [afterWarp_self] at hstop
  have hentry : Entry start (afterWarp s k r) k ⟨start.kernelStartWarpId + BitVec.ofNat 32 k,
      k % K.numComputeUnits, r.1.barrierIdOut.getD 0, r.1.ctx, start.kernelProgram⟩ :=
    ⟨rfl, (afterWarp_self s k r).symm, rfl⟩
  have hleft := h.left.stop hentry
  refine ⟨afterWarp s k r, ?_⟩
  rw [hdispatch, hcontexts]
  unfold completedContext
  by_cases hv : 0 = start.barriers
  · rw [if_pos hv] at hstop
    rw [if_pos hv, if_pos hv, if_pos hv] at hleft
    rw [if_pos hstop, if_pos hstop]
    refine ⟨hwave.congr rfl rfl rfl, hfresh, hqueues', hstalled', ?_⟩
    dsimp only
    rw [← List.append_assoc, List.append_cons, completedSince_complete, completedSince_built]
    exact hleft
  · rw [if_neg hv] at hstop
    rw [if_neg hv, if_neg hv, if_neg hv] at hleft
    have hne : r.1.ctx.state ≠ .complete := by
      rw [hstop.1]
      decide
    rw [if_neg hne, if_neg hne, List.append_nil]
    refine ⟨hwave.congr rfl rfl rfl, hfresh, hqueues', hstalled', ?_⟩
    dsimp only
    rw [← List.append_assoc, completedSince_built]
    exact hleft

/-- A turn of the fan-out dispatches one warp a unit, as long as there are any. -/
theorem Dispatching.fanOut (h : Dispatching K start tr final k s t)
    (hk : k < start.totalWarps.toNat) (hturn : k % K.numComputeUnits = 0)
    (hids : start.kernelStartWarpId.toNat + start.totalWarps.toNat < 2 ^ 32) :
    ∃ s', Dispatching K start tr (final ++ fanOutContexts K t)
      (min (k + K.numComputeUnits) start.totalWarps.toNat) s' (GpgpuTop.fanOut K t) := by
  have hunits : ∀ n ≤ K.numComputeUnits, ∃ s',
      Dispatching K start tr
        (final ++ loopOut (fun s cuId => GpgpuTop.dispatch K cuId s)
          (fun s cuId => dispatchContexts K cuId s) (List.range n) t)
        (min (k + n) start.totalWarps.toNat) s'
        ((List.range n).foldl (fun s cuId => GpgpuTop.dispatch K cuId s) t) := by
    intro n hn
    induction n with
    | zero =>
      rw [Nat.add_zero, min_eq_left hk.le]
      exact ⟨s, by rw [List.range_zero, loopOut, List.append_nil]; exact h⟩
    | succ n ih =>
      obtain ⟨s', hs'⟩ := ih (by omega)
      rw [List.range_succ, loopOut_concat, ← List.append_assoc, List.foldl_append,
        List.foldl_cons, List.foldl_nil]
      by_cases hlt : k + n < start.totalWarps.toNat
      · rw [min_eq_left hlt.le] at hs'
        have hunit : (k + n) % K.numComputeUnits = n := by
          rw [Nat.add_mod, hturn, Nat.zero_add, Nat.mod_mod, Nat.mod_eq_of_lt hn]
        have hnext := hs'.dispatch hlt hids
        rw [hunit] at hnext
        rw [min_eq_left (by omega)]
        exact hnext
      · rw [min_eq_right (by omega)] at hs' ⊢
        obtain ⟨hsame, hnone⟩ := dispatch_nil hn (hs'.drained n hn)
        rw [hsame, hnone, List.append_nil]
        exact ⟨s', hs'⟩
  exact hunits _ le_rfl

end Dispatching

/-! ## The barrier -/

/-- All warps of the launch have stopped at the end of wave `v`. -/
structure Gathered (K : Config) (start : GpgpuTop) (tr : List TopEvent)
    (final : List WarpContext) (v : ℕ) (s : Serial) (g : GpgpuTop) (bq : List StalledWarp) :
    Prop where
  wave : InWave K start v start.totalWarps.toNat s g
  drained : ∀ cuId < K.numComputeUnits, g.scheduler.readyQueues cuId = []
  stalledQueues : ∀ cuId < K.numComputeUnits, g.scheduler.stalledQueues cuId = []
  left : Left start v start.totalWarps.toNat s bq (completedSince tr) final

section Gathered

variable {tr : List TopEvent} {final : List WarpContext} {v k : ℕ} {s : Serial} {t : Turn}
  {g g' : GpgpuTop} {bq : List StalledWarp}

theorem Gathered.isComplete (h : Gathered K start tr final v s g bq) :
    g.isKernelComplete K = true := by
  refine List.all_eq_true.2 fun cuId hcu => ?_
  rw [List.mem_range] at hcu
  rw [h.drained cuId hcu, h.stalledQueues cuId hcu]
  rfl

theorem Gathered.congr (h : Gathered K start tr final v s g bq) (hmem : g'.memory = g.memory)
    (hdata : g'.launchData = g.launchData) (hquiet : g'.launchPending = g.launchPending)
    (hsched : g'.scheduler = g.scheduler) : Gathered K start tr final v s g' bq where
  wave := h.wave.congr hmem hdata hquiet
  drained := by
    rw [hsched]
    exact h.drained
  stalledQueues := by
    rw [hsched]
    exact h.stalledQueues
  left := h.left

/-- The warps are resumed in the order in which they are queued. -/
theorem resumeWarps_serial {m : ℕ} {sws : List StalledWarp}
    (hkm : k + m = start.totalWarps.toNat) (h : InWave K start v k s t.top)
    (hsws : Collected start s (List.range' k m) sws)
    (hleft : Left start v k s t.barrierQueue (completedSince (tr ++ t.events)) final) :
    ∃ s', InWave K start v start.totalWarps.toNat s' (sws.foldl (resumeWarp K) t).top ∧
      Left start v start.totalWarps.toNat s' (sws.foldl (resumeWarp K) t).barrierQueue
        (completedSince (tr ++ (sws.foldl (resumeWarp K) t).events))
        (final ++ loopOut (resumeWarp K) (resumeWarpContexts K) sws t) ∧
      (sws.foldl (resumeWarp K) t).top.scheduler = t.top.scheduler := by
  induction m generalizing k s t sws final with
  | zero =>
    obtain rfl : k = start.totalWarps.toNat := hkm
    cases hsws
    exact ⟨s, h, by rw [loopOut, List.append_nil]; exact hleft, rfl⟩
  | succ m ih =>
    have hk : k < start.totalWarps.toNat := by omega
    rw [List.range'_succ] at hsws
    obtain ⟨sw, rest, hentry, hrest, rfl⟩ := List.forall₂_cons_left_iff.1 hsws
    have hwave := h.runWarp hk sw.cuId
    set r := runWarp K sw.cuId start.kernelProgram (s.contexts k) t.top with hr
    have hstop := hwave.stopped k (Nat.lt_succ_self k)
    rw [afterWarp_self] at hstop
    have hentry' : Entry start (afterWarp s k r) k
        ⟨sw.id, sw.cuId, r.1.barrierIdOut.getD 0, r.1.ctx, start.kernelProgram⟩ :=
      ⟨hentry.id, (afterWarp_self s k r).symm, rfl⟩
    have hnext := hleft.stop hentry'
    have hcollected : Collected start (afterWarp s k r) (List.range' (k + 1) m) rest :=
      Collected.update hrest (by simp [List.mem_range'_1]) r
    have hone : resumeWarp K t sw =
        if v = start.barriers then ⟨r.2, t.barrierQueue, t.events ++ [.complete sw.id]⟩
        else ⟨r.2, t.barrierQueue ++
          [⟨sw.id, sw.cuId, r.1.barrierIdOut.getD 0, r.1.ctx, start.kernelProgram⟩], t.events⟩ := by
      unfold resumeWarp
      rw [hentry.ctx, hentry.program, ← hr]
      by_cases hlast : v = start.barriers
      · rw [if_pos hlast] at hstop ⊢
        have hne : r.1.ctx.state ≠ .stalled := by
          rw [hstop]
          decide
        exact if_neg hne
      · rw [if_neg hlast] at hstop ⊢
        exact if_pos hstop.1
    have hout : resumeWarpContexts K t sw = if v = start.barriers then [r.1.ctx] else [] := by
      unfold resumeWarpContexts completedContext
      rw [hentry.ctx, hentry.program, ← hr]
      by_cases hlast : v = start.barriers
      · rw [if_pos hlast] at hstop ⊢
        exact if_pos hstop
      · rw [if_neg hlast] at hstop ⊢
        have hne : r.1.ctx.state ≠ .complete := by
          rw [hstop.1]
          decide
        exact if_neg hne
    rw [List.foldl_cons, loopOut, ← List.append_assoc, hone, hout]
    split_ifs with hlast
    · rw [if_pos hlast, if_pos hlast, if_pos hlast, ← completedSince_complete,
        List.append_assoc] at hnext
      exact ih (t := ⟨r.2, _, _⟩) (by omega) hwave hcollected hnext
    · rw [if_neg hlast, if_neg hlast, if_neg hlast] at hnext
      rw [List.append_nil]
      exact ih (t := ⟨r.2, _, _⟩) (by omega) hwave hcollected hnext

/-- The barrier check takes the launch through the next wave, if there is one. -/
theorem Gathered.barrierCheck (hpos : 0 < start.totalWarps.toNat) (hv : v ≤ start.barriers)
    (h : Gathered K start (tr ++ t.events) final v s t.top t.barrierQueue) :
    ∃ s', Gathered K start (tr ++ (GpgpuTop.barrierCheck K t).events)
      (final ++ barrierContexts K t) (min (v + 1) start.barriers) s'
      (GpgpuTop.barrierCheck K t).top (GpgpuTop.barrierCheck K t).barrierQueue := by
  by_cases hlast : v = start.barriers
  · have hnone : GpgpuTop.barrierCheck K t = t ∧ barrierContexts K t = [] := by
      unfold GpgpuTop.barrierCheck barrierContexts
      rw [(h.left.last hlast).1]
      exact ⟨rfl, rfl⟩
    rw [hnone.1, hnone.2, List.append_nil, min_eq_right (by omega), ← hlast]
    exact ⟨s, h⟩
  · obtain ⟨hcollected, hcompleted, hfinal⟩ := h.left.stalled hlast
    have hlen := h.left.length hlast
    obtain ⟨-, -, -, htotal⟩ := by simpa only [launchData, Prod.mk.injEq] using h.wave.data
    obtain ⟨sw, rest, hbq⟩ := List.exists_cons_of_length_pos (hlen ▸ hpos)
    have hfire : GpgpuTop.barrierCheck K t =
        t.barrierQueue.foldl (resumeWarp K) ⟨t.top.clearBarriers K sw.bid, [], t.events⟩ ∧
        barrierContexts K t = loopOut (resumeWarp K) (resumeWarpContexts K) t.barrierQueue
          ⟨t.top.clearBarriers K sw.bid, [], t.events⟩ := by
      have hall : t.top.scheduler.isComplete K.toConfig = true ∧
        t.barrierQueue.length = t.top.totalWarps.toNat := ⟨h.isComplete, by rw [hlen, htotal]⟩
      unfold GpgpuTop.barrierCheck barrierContexts
      rw [hbq]
      dsimp only
      rw [← hbq, if_pos hall, if_pos hall]
      exact ⟨rfl, rfl⟩
    rw [List.range_eq_range'] at hcollected
    have hnone : Left start (v + 1) 0 s [] (completedSince (tr ++ t.events)) final :=
      ⟨fun _ => ⟨rfl, hcompleted, hfinal⟩, fun _ => ⟨.nil, hcompleted, hfinal⟩⟩
    obtain ⟨s', hwave, hleft, hsched⟩ := resumeWarps_serial
      (t := ⟨t.top.clearBarriers K sw.bid, [], t.events⟩) (Nat.zero_add _)
      ((h.wave.next hlast).congr rfl rfl rfl) hcollected hnone
    rw [hfire.1, hfire.2, min_eq_left (by omega)]
    refine ⟨s', hwave, ?_, ?_, hleft⟩
    · rw [hsched]
      exact h.drained
    · rw [hsched]
      exact h.stalledQueues

end Gathered

/-! ## The process -/

/-- The process has run the launch and waits for the next one. -/
structure Ended (K : Config) (start : GpgpuTop) (tr : List TopEvent) (g : GpgpuTop) : Prop where
  idle : g.process = .idle
  quiet : g.launchPending = false
  complete : g.isKernelComplete K = true
  completed : completedSince tr = start.launchedWarps
  serial : ∃ s, Serial.Runs K.cu start.kernelProgram ⟨start.memory, start.launchedContexts K⟩
    (Serial.waves start.totalWarps.toNat (start.barriers + 1)) s ∧ s.memory = g.memory

/-- The serial run of a launch leaves the memory of `g` and the contexts `final`. -/
structure SerialEnd (K : Config) (start : GpgpuTop) (final : List WarpContext) (g : GpgpuTop)
    (s : Serial) : Prop where
  runs : Serial.Runs K.cu start.kernelProgram ⟨start.memory, start.launchedContexts K⟩
    (Serial.waves start.totalWarps.toNat (start.barriers + 1)) s
  memory : s.memory = g.memory
  contexts : final = (List.range start.totalWarps.toNat).map s.contexts

/-- Some turns of the process end the launch, of which the contexts `final` are left already. -/
def Ends (K : Config) (start : GpgpuTop) (tr : List TopEvent) (final : List WarpContext)
    (g : GpgpuTop) : Prop :=
  ∃ turns g' ev s, (transition K).exec (fun _ => True) g (List.replicate turns .resume) =
    some (g', ev) ∧ Ended K start (tr ++ ev) g' ∧
      SerialEnd K start (final ++ finalContexts K turns g) g' s

section Process

variable {tr : List TopEvent} {final : List WarpContext} {v k : ℕ} {s : Serial} {g g' : GpgpuTop}
  {bq : List StalledWarp}

theorem Ends.turn {ev : List TopEvent} (hr : g.resume K = some (g', ev))
    (h : Ends K start (tr ++ ev) (final ++ resumeContexts K g) g') : Ends K start tr final g := by
  obtain ⟨turns, g'', ev', s, hexec, hended, hserial⟩ := h
  refine ⟨turns + 1, g'', ev ++ ev', s, ?_, by rwa [← List.append_assoc], ?_⟩
  · rw [List.replicate_succ, Transition.exec, show (transition K).step g .resume = _ from hr]
    dsimp only
    rw [if_pos trivial, hexec]
    rfl
  · rw [finalContexts, hr, ← List.append_assoc]
    exact hserial

theorem resume_running (hp : g.process = .running bq) (hquiet : g.launchPending = false) :
    g.resume K = some (loopTurn K g bq) ∧ resumeContexts K g = loopContexts K g bq := by
  obtain ⟨⟩ := g
  obtain rfl : _ = false := hquiet
  unfold resume resumeContexts
  dsimp only at hp ⊢
  rw [hp]
  exact ⟨rfl, rfl⟩

/-- The loop ends when nothing is queued and no warp is at a barrier. -/
theorem loopTurn_nil (hcomplete : g.isKernelComplete K = true) :
    loopTurn K g [] = ({ g with process := .idle }, []) ∧ loopContexts K g [] = [] := by
  unfold loopTurn loopContexts
  rw [show g.scheduler.isComplete K.toConfig = true from hcomplete]
  exact ⟨rfl, rfl⟩

theorem loopTurn_cons (hgo : g.isKernelComplete K = false ∨ bq ≠ []) :
    loopTurn K g bq =
      ({ (barrierCheck K (fanOut K ⟨g, bq, []⟩)).top with
          process := .running (barrierCheck K (fanOut K ⟨g, bq, []⟩)).barrierQueue },
        (barrierCheck K (fanOut K ⟨g, bq, []⟩)).events) ∧
      loopContexts K g bq = fanOutContexts K ⟨g, bq, []⟩ ++
        barrierContexts K (fanOut K ⟨g, bq, []⟩) := by
  have htest : (!g.scheduler.isComplete K.toConfig || !bq.isEmpty) = true := by
    obtain hgo | hgo := hgo
    · rw [show g.scheduler.isComplete K.toConfig = false from hgo]
      rfl
    · cases bq with
      | nil => exact absurd rfl hgo
      | cons sw rest => simp
  unfold loopTurn loopContexts
  rw [if_pos htest, if_pos htest]
  exact ⟨rfl, rfl⟩

/-- From the end of a wave on the process goes through the waves that are left. -/
theorem Gathered.ends (hpos : 0 < start.totalWarps.toNat) (hv : v ≤ start.barriers)
    (h : Gathered K start tr final v s g bq) (hp : g.process = .running bq) :
    Ends K start tr final g := by
  induction hleft : start.barriers - v generalizing v s g bq tr final with
  | zero =>
    have hlast : v = start.barriers := by omega
    obtain ⟨rfl, hcompleted, hfinal⟩ := h.left.last hlast
    obtain ⟨hr, hcontexts⟩ := resume_running (K := K) hp h.wave.quiet
    obtain ⟨hidle, hnone⟩ := loopTurn_nil h.isComplete
    rw [hidle] at hr
    have hruns : Serial.Runs K.cu start.kernelProgram ⟨start.memory, start.launchedContexts K⟩
        (Serial.waves start.totalWarps.toNat (start.barriers + 1)) s := by
      rw [Serial.waves_succ, ← hlast]
      exact h.wave.runs
    refine .turn hr ⟨0, _, [], s, rfl, ⟨rfl, h.wave.quiet, h.isComplete, ?_, s, hruns,
      h.wave.memory⟩, hruns, h.wave.memory, ?_⟩
    · rw [List.append_nil, List.append_nil]
      exact hcompleted
    · rw [hcontexts, hnone, finalContexts, List.append_nil, List.append_nil]
      exact hfinal
  | succ n ih =>
    have hne : v ≠ start.barriers := by omega
    have hbq : bq ≠ [] := by
      rw [← List.length_pos_iff, h.left.length hne]
      exact hpos
    obtain ⟨hr, hcontexts⟩ := resume_running (K := K) hp h.wave.quiet
    obtain ⟨hturn, hturnContexts⟩ := loopTurn_cons (K := K) (g := g) (.inr hbq)
    obtain ⟨hsame, hnone⟩ := fanOut_nil (t := ⟨g, bq, []⟩) h.drained
    rw [hturn, hsame] at hr
    rw [hturnContexts, hsame, hnone, List.nil_append] at hcontexts
    rw [← List.append_nil tr] at h
    obtain ⟨s', hs'⟩ := Gathered.barrierCheck (t := ⟨g, bq, []⟩) hpos hv h
    rw [min_eq_left (by omega), ← hcontexts] at hs'
    exact .turn hr (ih (by omega) (hs'.congr rfl rfl rfl rfl) rfl (by omega))

/-- A warp is missing at the barrier as long as one is still to be dispatched. -/
theorem Dispatching.barrierCheck {t : Turn} (h : Dispatching K start tr final k s t)
    (hk : k < start.totalWarps.toNat) :
    GpgpuTop.barrierCheck K t = t ∧ barrierContexts K t = [] := by
  unfold GpgpuTop.barrierCheck barrierContexts
  by_cases hv : 0 = start.barriers
  · rw [(h.left.last hv).1]
    exact ⟨rfl, rfl⟩
  · have hlen := h.left.length hv
    obtain ⟨-, -, -, htotal⟩ := by simpa only [launchData, Prod.mk.injEq] using h.wave.data
    cases hbq : t.barrierQueue with
    | nil => exact ⟨rfl, rfl⟩
    | cons sw rest =>
      have hmissing : ¬ (t.top.scheduler.isComplete K.toConfig = true ∧
          t.barrierQueue.length = t.top.totalWarps.toNat) := by
        rintro ⟨-, heq⟩
        rw [hlen, htotal] at heq
        omega
      dsimp only
      rw [← hbq, if_neg hmissing, if_neg hmissing]
      exact ⟨rfl, rfl⟩

/-- The turns of the process, from one that begins with `k` warps dispatched. -/
theorem Dispatching.ends (h : Dispatching K start tr final k s ⟨g, bq, []⟩)
    (hk : k < start.totalWarps.toNat) (hturn : k % K.numComputeUnits = 0)
    (hids : start.kernelStartWarpId.toNat + start.totalWarps.toNat < 2 ^ 32) :
    Ends K start (tr ++ (loopTurn K g bq).2) (final ++ loopContexts K g bq)
      (loopTurn K g bq).1 := by
  induction hn : start.totalWarps.toNat - k using Nat.strong_induction_on
    generalizing k s g bq tr final with
  | _ n ih =>
    have hgo : g.isKernelComplete K = false := by
      refine Bool.eq_false_iff.2 fun hcomplete => ?_
      have hcu := List.mem_range.2 (Nat.mod_lt k K.numComputeUnits_pos)
      have hempty := List.all_eq_true.1 hcomplete _ hcu
      rw [h.queue_eq hk] at hempty
      exact absurd hempty (by simp)
    obtain ⟨s', hs'⟩ := h.fanOut hk hturn hids
    have hcont : g.isKernelComplete K = false ∨ bq ≠ [] := .inl hgo
    obtain ⟨hloop, hcontexts⟩ := loopTurn_cons hcont
    rw [hloop, hcontexts, ← List.append_assoc]
    set t := GpgpuTop.fanOut K ⟨g, bq, []⟩ with ht
    set final' := final ++ fanOutContexts K ⟨g, bq, []⟩ with hfinal
    by_cases hlt : k + K.numComputeUnits < start.totalWarps.toNat
    · rw [min_eq_left hlt.le] at hs'
      obtain ⟨hsame, hnone⟩ := hs'.barrierCheck hlt
      rw [hsame, hnone, List.append_nil]
      obtain ⟨hr, hnextContexts⟩ := resume_running (K := K)
        (g := { t.top with process := .running t.barrierQueue }) rfl hs'.wave.quiet
      have hnext : Dispatching K start (tr ++ t.events) final' (k + K.numComputeUnits) s'
          ⟨{ t.top with process := .running t.barrierQueue }, t.barrierQueue, []⟩ :=
        ⟨hs'.wave.congr rfl rfl rfl, hs'.fresh, hs'.queues, hs'.stalledQueues, by
          rw [List.append_nil]
          exact hs'.left⟩
      have hpos := K.numComputeUnits_pos
      refine .turn hr ?_
      rw [hnextContexts]
      exact ih _ (by omega) hnext hlt (by rw [Nat.add_mod_right]; exact hturn) rfl
    · rw [min_eq_right (by omega)] at hs'
      have hall : Gathered K start (tr ++ t.events) final' 0 s' t.top t.barrierQueue :=
        ⟨hs'.wave, hs'.drained, hs'.stalledQueues, hs'.left⟩
      obtain ⟨s'', hs''⟩ := hall.barrierCheck (by omega) (Nat.zero_le _)
      have hnext : Gathered K start (tr ++ (GpgpuTop.barrierCheck K t).events)
          (final' ++ barrierContexts K t) (min (0 + 1) start.barriers) s''
          { (GpgpuTop.barrierCheck K t).top with
            process := .running (GpgpuTop.barrierCheck K t).barrierQueue }
          (GpgpuTop.barrierCheck K t).barrierQueue := hs''.congr rfl rfl rfl rfl
      exact hnext.ends (by omega) (min_le_right _ _) rfl

end Process

/-! ## Main result -/

section Launch

variable {g : GpgpuTop} (gridX gridY : BitVec 32) (program : List Instruction)
  (warpIdOffset : BitVec 32)

/-- Nothing of the launch has been dispatched yet. -/
theorem dispatching_launchKernel (hcomplete : g.isKernelComplete K = true) :
    let start := g.launchKernel K gridX gridY program warpIdOffset
    Dispatching K start [.launched] [] 0 ⟨start.memory, start.launchedContexts K⟩
      ⟨{ start with launchPending := false }, [], []⟩ := by
  intro start
  refine ⟨⟨.nil, rfl, rfl, rfl, fun w _ _ => Nat.add_zero _,
    fun w hw => absurd hw (Nat.not_lt_zero w)⟩, fun _ _ => rfl, fun cuId hcu => ?_,
    fun cuId hcu => ?_, ⟨fun _ => ⟨rfl, rfl, rfl⟩, fun _ => ⟨.nil, rfl, rfl⟩⟩⟩
  · have hzero : share K.numComputeUnits 0 cuId = 0 := by
      have hnot := (lt_share_iff hcu 0 0).not.2 (by omega)
      omega
    rw [hzero, List.drop_zero]
    exact WarpScheduler.submitKernel_dealt hcomplete gridX gridY hcu
  · have hst := congrFun (WarpScheduler.submitKernel_submitted K.toConfig gridX gridY
      g.scheduler).stalled cuId
    refine hst.trans ?_
    have hempty := List.all_eq_true.1 hcomplete cuId (List.mem_range.2 hcu)
    rw [Bool.and_eq_true, List.isEmpty_iff, List.isEmpty_iff] at hempty
    exact hempty.2

/-- The turns after the launch end it. -/
theorem ends_launchKernel (hidle : g.process = .idle) (hcomplete : g.isKernelComplete K = true)
    (hids : g.scheduler.kernelWarpCounter.toNat + (gridX * gridY).toNat < 2 ^ 32) :
    Ends K (g.launchKernel K gridX gridY program warpIdOffset) [.launched] []
      (g.launchKernel K gridX gridY program warpIdOffset) := by
  have hfirst := dispatching_launchKernel (K := K) gridX gridY program warpIdOffset hcomplete
  set start := g.launchKernel K gridX gridY program warpIdOffset with hstart
  have hresume : start.resume K = some (loopTurn K { start with launchPending := false } []) ∧
      resumeContexts K start = loopContexts K { start with launchPending := false } [] := by
    unfold resume resumeContexts
    rw [show start.process = .idle from hidle]
    exact ⟨rfl, rfl⟩
  obtain ⟨hresume, hcontexts⟩ := hresume
  by_cases hzero : start.totalWarps.toNat = 0
  · -- nothing to run
    rw [← hzero] at hfirst
    have hall : Gathered K start [.launched] [] 0 _ { start with launchPending := false } [] :=
      ⟨hfirst.wave, hfirst.drained, hfirst.stalledQueues, hfirst.left⟩
    obtain ⟨hloop, hnone⟩ := loopTurn_nil hall.isComplete
    rw [hloop] at hresume
    have hruns : Serial.Runs K.cu start.kernelProgram ⟨start.memory, start.launchedContexts K⟩
        (Serial.waves start.totalWarps.toNat (start.barriers + 1))
        ⟨start.memory, start.launchedContexts K⟩ := by
      rw [hzero, Serial.waves_zero]
      exact .nil
    refine .turn hresume ⟨0, _, [], _, rfl, ⟨rfl, rfl, hall.isComplete, ?_, _, hruns, rfl⟩, hruns,
      rfl, ?_⟩
    · rw [launchedWarps, hzero]
      rfl
    · rw [hcontexts, hnone, hzero]
      rfl
  · refine .turn hresume ?_
    rw [hcontexts]
    exact hfirst.ends (Nat.pos_of_ne_zero hzero) (Nat.zero_mod _) hids

/-- The launch itself is the first step of the run. -/
theorem Ends.exec_launch (h : Ends K (g.launchKernel K gridX gridY program warpIdOffset)
    [.launched] [] (g.launchKernel K gridX gridY program warpIdOffset)) :
    ∃ turns g' tr s, (transition K).exec (fun _ => True) g
        (.launch gridX gridY program warpIdOffset :: List.replicate turns .resume) =
          some (g', tr) ∧
      Ended K (g.launchKernel K gridX gridY program warpIdOffset) tr g' ∧
      SerialEnd K (g.launchKernel K gridX gridY program warpIdOffset)
        (finalContexts K turns (g.launchKernel K gridX gridY program warpIdOffset)) g' s := by
  obtain ⟨turns, g', ev, s, hexec, hended, hserial⟩ := h
  refine ⟨turns, g', [.launched] ++ ev, s, ?_, hended, hserial⟩
  rw [Transition.exec, show (transition K).step g (.launch gridX gridY program warpIdOffset) =
    some (g.launchKernel K gridX gridY program warpIdOffset, [.launched]) from rfl]
  dsimp only
  rw [if_pos trivial, hexec]
  rfl

/-- A launch on an idle top ends. Each of its warps completes once, in the order of the ids, and
the memory is what the warps leave that run one after the other, wave by wave. -/
theorem launch_serial (hidle : g.process = .idle) (hcomplete : g.isKernelComplete K = true)
    (hids : g.scheduler.kernelWarpCounter.toNat + (gridX * gridY).toNat < 2 ^ 32) :
    ∃ turns g' tr, (transition K).exec (fun _ => True) g
        (.launch gridX gridY program warpIdOffset :: List.replicate turns .resume) =
          some (g', tr) ∧
      Ended K (g.launchKernel K gridX gridY program warpIdOffset) tr g' := by
  obtain ⟨turns, g', tr, s, hexec, hended, -⟩ :=
    (ends_launchKernel gridX gridY program warpIdOffset hidle hcomplete hids).exec_launch
  exact ⟨turns, g', tr, hexec, hended⟩

end Launch

/-- Three warps on two units, with a barrier between two stores. -/
theorem launch_serial_barrier :
    let K : Config := { oneCu with numComputeUnits := 2, numComputeUnits_pos := by decide }
    let program : List Instruction :=
      [⟨.sw, 0, 2, 1, 0⟩, ⟨.barrier, 0, 0, 0, 1⟩, ⟨.sw, 0, 2, 3, 4⟩, ⟨.halt, 0, 0, 0, 0⟩]
    ∃ turns g' tr, (transition K).exec (fun _ => True) (reset emptyMemory)
        (.launch 3 1 program 0 :: List.replicate turns .resume) = some (g', tr) ∧
      Ended K ((reset emptyMemory).launchKernel K 3 1 program 0) tr g' :=
  launch_serial 3 1 _ 0 rfl (by decide) (by decide)

end GpgpuTop

end RiscvGpgpu.Golden
