import RiscvGpgpu.Golden.Scheduling
import RiscvGpgpu.Golden.SystemTop

/-!
# Global thread ids across GPUs

A GPU numbers the warps of a launch from its own warp counter on, which lives across launches, and
`launchKernel` gives it an offset that counts from zero in each launch. `globalTids_contiguous`: the
ids of a launch are one range when the counters of the GPUs that take part agree
(`CountersAgree`); an uneven launch leaves them apart.
-/

namespace RiscvGpgpu.Golden

open Split

/-! ## One GPU -/

namespace GpgpuTop

variable {K : Config}

/-- The contexts of the warps that are still queued, as they would be built now. -/
def pendingContexts (K : Config) (g : GpgpuTop) : List WarpContext :=
  (g.scheduler.queued K.toConfig).map (g.buildWarpContext K)

/-- Every queued warp can be told from `INVALID_WARP_ID`. -/
structure Valid (K : Config) (g : GpgpuTop) : Prop where
  stalled : ∀ i, g.scheduler.stalledQueues i = []
  valid : ∀ id ∈ g.scheduler.queued K.toConfig, id ≠ WarpScheduler.invalidWarpId

theorem builtContexts_append (ev ev' : List TopEvent) :
    builtContexts (ev ++ ev') = builtContexts ev ++ builtContexts ev' :=
  List.filterMap_append

/-- What the turns of the loop keep: a context is built for each warp that leaves its queue. -/
structure Builds (K : Config) (g : GpgpuTop) (s : Turn) : Prop where
  valid : Valid K s.top
  contexts : (builtContexts s.events ++ pendingContexts K s.top).Perm (pendingContexts K g)

theorem Builds.dispatched {g : GpgpuTop} {s s' : Turn} {warpId : WarpId} (h : Builds K g s)
    (hd : Dispatched K s s' warpId) : Builds K g s' := by
  have hwarp : warpId ∈ s.top.scheduler.queued K.toConfig :=
    hd.queued.mem_iff.2 List.mem_cons_self
  have hvalid : Valid K s'.top := by
    refine ⟨fun i => by rw [hd.stalled]; exact h.valid.stalled i, fun id hid => ?_⟩
    exact h.valid.valid id (hd.queued.mem_iff.2 (List.mem_cons_of_mem _ hid))
  have hbuilt : builtContexts s'.events =
      builtContexts s.events ++ [s.top.buildWarpContext K warpId] := by
    rcases hd.result with ⟨hid, -, -⟩ | ⟨-, -, -, hev⟩ | ⟨-, -, -, -, -, hev⟩
    · exact absurd hid (h.valid.valid warpId hwarp)
    · rw [hev, builtContexts_append]
      rfl
    · rw [hev, builtContexts_append]
      rfl
  refine ⟨hvalid, List.Perm.trans ?_ h.contexts⟩
  have hpending : (pendingContexts K s.top).Perm
      (s.top.buildWarpContext K warpId :: pendingContexts K s'.top) := by
    unfold pendingContexts
    rw [buildWarpContext_congr hd.data]
    exact hd.queued.map _
  rw [hbuilt, List.append_assoc, List.singleton_append]
  exact hpending.symm.append_left _

theorem Builds.barrierCheck {g : GpgpuTop} {s : Turn} (h : Builds K g s) :
    Builds K g (barrierCheck K s) := by
  have hresume : ∀ (sws : List StalledWarp) (s : Turn), Builds K g s →
      Builds K g (sws.foldl (resumeWarp K) s) := by
    intro sws
    induction sws with
    | nil => exact fun s hs => hs
    | cons sw sws ih =>
      intro s hs
      refine ih _ ?_
      unfold resumeWarp
      dsimp only
      split_ifs
      · exact ⟨⟨hs.valid.stalled, hs.valid.valid⟩, hs.contexts⟩
      · refine ⟨⟨hs.valid.stalled, hs.valid.valid⟩, ?_⟩
        dsimp only
        rw [builtContexts_append]
        exact (List.append_nil (builtContexts s.events)).symm ▸ hs.contexts
  unfold GpgpuTop.barrierCheck
  split
  · exact h
  · split_ifs
    · exact hresume _ _ ⟨⟨h.valid.stalled, h.valid.valid⟩, h.contexts⟩
    · exact h

/-- A turn of the process builds the contexts of the warps that leave the queues. -/
theorem resume_builds {g g' : GpgpuTop} {ev : List TopEvent} (hv : Valid K g)
    (h : g.resume K = some (g', ev)) :
    Valid K g' ∧ (builtContexts ev ++ pendingContexts K g').Perm (pendingContexts K g) := by
  have hturn : ∀ bq, loopTurn K { g with launchPending := false } bq = (g', ev) →
      Valid K g' ∧ (builtContexts ev ++ pendingContexts K g').Perm (pendingContexts K g) := by
    intro bq hbq
    unfold loopTurn at hbq
    split_ifs at hbq
    · have hstart : Builds K g ⟨{ g with launchPending := false }, bq, []⟩ :=
        ⟨⟨hv.stalled, hv.valid⟩, List.Perm.refl _⟩
      have hfan : Builds K g (fanOut K ⟨{ g with launchPending := false }, bq, []⟩) :=
        fanOut_induction (fun _ _ _ hs hd => hs.dispatched hd) hstart
      obtain ⟨rfl, rfl⟩ := Prod.mk.inj hbq
      exact ⟨⟨hfan.barrierCheck.valid.stalled, hfan.barrierCheck.valid.valid⟩,
        hfan.barrierCheck.contexts⟩
    · obtain ⟨rfl, rfl⟩ := Prod.mk.inj hbq
      exact ⟨⟨hv.stalled, hv.valid⟩, List.Perm.refl _⟩
  unfold resume at h
  split at h
  · split_ifs at h
    exact hturn [] (Option.some.inj h)
  · next bq _ => exact hturn bq (Option.some.inj h)

/-- The contexts of a launch on a GPU with nothing queued. -/
theorem pendingContexts_launchKernel {g : GpgpuTop} (hq : g.scheduler.queued K.toConfig = [])
    (warps : BitVec 32) (program : List Instruction) (offset : BitVec 32) :
    (pendingContexts K (g.launchKernel K warps 1 program offset)).Perm
      ((g.scheduler.nextWarps warps.toNat).map
        ((g.launchKernel K warps 1 program offset).buildWarpContext K)) := by
  have hsub := (WarpScheduler.submitKernel_submitted K.toConfig warps 1 g.scheduler).queued
  rw [hq, List.nil_append, show warps * 1 = warps from BitVec.mul_one warps] at hsub
  exact hsub.map _

end GpgpuTop

/-! ## The system -/

namespace SystemTop

variable {K : Config} {s : SystemTop} {tr : List SystemEvent}

@[simp] theorem launchedTotal_launched (total : ℕ) :
    launchedTotal (tr ++ [.launched total]) = total := by
  simp [launchedTotal]

@[simp] theorem builtSince_launched (total : ℕ) : builtSince (tr ++ [.launched total]) = [] := by
  simp [builtSince]

theorem launchedTotal_gpu (ev : List TopEvent) :
    launchedTotal (tr ++ ev.map .gpu) = launchedTotal tr := by
  unfold launchedTotal
  rw [List.foldl_append]
  induction ev with
  | nil => rfl
  | cons e ev ih => exact ih

theorem builtSince_gpu (ev : List TopEvent) :
    builtSince (tr ++ ev.map .gpu) = builtSince tr ++ GpgpuTop.builtContexts ev := by
  induction ev generalizing tr with
  | nil => exact (congrArg builtSince (List.append_nil tr)).trans (List.append_nil _).symm
  | cons e ev ih =>
    have hone : builtSince (tr ++ [.gpu e]) = builtSince tr ++ GpgpuTop.builtContexts [e] := by
      simp [builtSince]
    rw [List.map_cons, List.append_cons, ih, hone, List.append_assoc,
      ← GpgpuTop.builtContexts_append, List.singleton_append]

/-- The lanes below a bound. -/
theorem filter_lanes : ∀ n ≤ 32,
    ((List.finRange 32).filter fun t : Lane => (t : ℕ) < n).map (fun t : Lane => (t : ℕ)) =
      List.range n := by
  decide +kernel

theorem contextTids_build (g : GpgpuTop) (warpId : WarpId) :
    contextTids K (g.buildWarpContext K.gpu warpId) =
      (List.range K.gpu.cu.threadsPerWarp).map fun t => (g.globalTid K.gpu warpId t).toNat := by
  have hlanes := filter_lanes _ K.gpu.threadsPerWarp_le
  rw [← hlanes, List.map_map, contextTids]
  refine List.map_congr_left fun t ht => ?_
  have hlt := of_decide_eq_true (List.mem_filter.1 ht).2
  simp only [GpgpuTop.buildWarpContext, Function.comp_apply, if_pos hlt, if_true]

/-! ## The ids of a launch -/

/-- The counters of the GPUs that take part in the launch agree, no warp gets the id
`INVALID_WARP_ID`, and the ids do not wrap around. -/
def CountersAgree (K : Config) (s : SystemTop) : SystemAction → Prop
  | .launch gridX gridY _ =>
    (∀ i < K.numGpus.toNat, share (gridX * gridY).toNat K.numGpus.toNat i ≠ 0 →
        (s.gpus i).scheduler.kernelWarpCounter = (s.gpus 0).scheduler.kernelWarpCounter) ∧
      (s.gpus 0).scheduler.kernelWarpCounter.toNat +
        share (gridX * gridY).toNat K.numGpus.toNat 0 < 2 ^ 32 ∧
      (s.gpus 0).scheduler.kernelWarpCounter.toNat * K.gpu.cu.threadsPerWarp % 2 ^ 32 +
        (gridX * gridY).toNat * K.gpu.cu.threadsPerWarp ≤ 2 ^ 32
  | .resume _ => True

instance (s : SystemTop) (a : SystemAction) : Decidable (CountersAgree K s a) := by
  unfold CountersAgree
  cases a <;> infer_instance

/-- The ids of warp `w` of a launch. -/
def warpTids (K : Config) (base w : ℕ) : List ℕ :=
  (List.range K.gpu.cu.threadsPerWarp).map fun t => base + (w * K.gpu.cu.threadsPerWarp + t)

theorem flatMap_warpTids (base total : ℕ) :
    ((List.range total).flatMap fun w => warpTids K base w) =
      List.range' base (total * K.gpu.cu.threadsPerWarp) := by
  induction total with
  | zero => simp
  | succ total ih =>
    have hlast : warpTids K base total = List.range' (base + total * K.gpu.cu.threadsPerWarp)
        K.gpu.cu.threadsPerWarp := by
      rw [List.range'_eq_map_range, warpTids]
      exact List.map_congr_left fun t _ => (Nat.add_assoc _ _ _).symm
    rw [List.range_succ, List.flatMap_append, ih, List.flatMap_singleton, hlast,
      List.range'_append_1, Nat.succ_mul]

/-- Warp `j` of the part of a GPU whose warps before the part are `offset`. -/
theorem contextTids_launch {counter : BitVec 32} {total offset j : ℕ}
    (hj : offset + j < total)
    (hfit : counter.toNat * K.gpu.cu.threadsPerWarp % 2 ^ 32 + total * K.gpu.cu.threadsPerWarp ≤
      2 ^ 32) (g : GpgpuTop) (hoffset : g.warpIdOffset = BitVec.ofNat 32 offset) :
    contextTids K (g.buildWarpContext K.gpu (counter + BitVec.ofNat 32 j)) =
      warpTids K (counter.toNat * K.gpu.cu.threadsPerWarp % 2 ^ 32) (offset + j) := by
  rw [contextTids_build, warpTids]
  refine List.map_congr_left fun t ht => ?_
  have htlt := List.mem_range.1 ht
  have hrow : (offset + j) * K.gpu.cu.threadsPerWarp + t < total * K.gpu.cu.threadsPerWarp := by
    calc (offset + j) * K.gpu.cu.threadsPerWarp + t
        < (offset + j) * K.gpu.cu.threadsPerWarp + K.gpu.cu.threadsPerWarp :=
          Nat.add_lt_add_left htlt _
      _ = (offset + j + 1) * K.gpu.cu.threadsPerWarp := (Nat.succ_mul _ _).symm
      _ ≤ total * K.gpu.cu.threadsPerWarp := Nat.mul_le_mul_right _ hj
  have hvalue : g.globalTid K.gpu (counter + BitVec.ofNat 32 j) t =
      BitVec.ofNat 32 (counter.toNat * K.gpu.cu.threadsPerWarp +
        ((offset + j) * K.gpu.cu.threadsPerWarp + t)) := by
    rw [GpgpuTop.globalTid, hoffset]
    simp only [BitVec.ofNat_add, BitVec.ofNat_mul, BitVec.ofNat_toNat, BitVec.setWidth_eq]
    ring
  rw [hvalue, BitVec.toNat_ofNat, ← Nat.mod_add_mod, Nat.mod_eq_of_lt]
  omega

/-- Every context that is still to be built. -/
def pending (K : Config) (s : SystemTop) : List WarpContext :=
  (List.range K.numGpus.toNat).flatMap fun i => (s.gpus i).pendingContexts K.gpu

/-- The ids given and still to be given are one range. -/
structure TidInv (K : Config) (tr : List SystemEvent) (s : SystemTop) : Prop where
  valid : ∀ i < K.numGpus.toNat, (s.gpus i).Valid K.gpu
  tids : ∃ base, ((builtSince tr ++ pending K s).flatMap (contextTids K)).Perm
    (List.range' base (launchedTotal tr * K.gpu.cu.threadsPerWarp))

theorem TidInv.queued_nil (h : TidInv K tr s) (hc : s.isComplete K = true) :
    ∀ i < K.numGpus.toNat, (s.gpus i).scheduler.queued K.gpu.toConfig = [] := by
  intro i hi
  exact (WarpScheduler.isComplete_iff (h.valid i hi).stalled).1
    (List.all_eq_true.1 hc i (List.mem_range.2 hi))

theorem TidInv.launch (h : TidInv K tr s) {gridX gridY : BitVec 32} {program : List Instruction}
    (hok : CountersAgree K s (.launch gridX gridY program)) (hc : s.isComplete K = true) :
    TidInv K (tr ++ [.launched (gridX * gridY).toNat]) (s.launchKernel K gridX gridY program) := by
  obtain ⟨hagree, hids, hfit⟩ := hok
  have hqueued := h.queued_nil hc
  have hn := K.numGpus_pos
  have hshare : ∀ i, share (gridX * gridY).toNat K.numGpus.toNat i ≤
      share (gridX * gridY).toNat K.numGpus.toNat 0 := by
    intro i
    unfold share
    split_ifs <;> omega
  have hsize : ∀ i, i < K.numGpus.toNat →
      (BitVec.ofNat 32 (share (gridX * gridY).toNat K.numGpus.toNat i)).toNat =
        share (gridX * gridY).toNat K.numGpus.toNat i := by
    intro i hi
    have hle : start (gridX * gridY).toNat K.numGpus.toNat i +
        share (gridX * gridY).toNat K.numGpus.toNat i ≤ (gridX * gridY).toNat :=
      start_add_share_le hn hi
    rw [BitVec.toNat_ofNat, Nat.mod_eq_of_lt]
    omega
  refine ⟨fun i hi => ?_, (s.gpus 0).scheduler.kernelWarpCounter.toNat *
    K.gpu.cu.threadsPerWarp % 2 ^ 32, ?_⟩
  · rw [launchKernel_gpus hi]
    split_ifs with hzero
    · exact h.valid i hi
    · have hsub := WarpScheduler.submitKernel_submitted K.gpu.toConfig
        (BitVec.ofNat 32 (share (gridX * gridY).toNat K.numGpus.toNat i)) 1 (s.gpus i).scheduler
      rw [show ∀ w : BitVec 32, w * 1 = w from BitVec.mul_one, hsize i hi] at hsub
      refine ⟨fun c => (congrFun hsub.stalled c).trans ((h.valid i hi).stalled c), fun id hid => ?_⟩
      have hmem := hsub.queued.mem_iff.1 hid
      rw [hqueued i hi, List.nil_append] at hmem
      refine WarpScheduler.nextWarps_valid ?_ id hmem
      rw [hagree i hi hzero]
      exact lt_of_le_of_lt (Nat.add_le_add_left (hshare i) _) hids
  · have hlast : start (gridX * gridY).toNat K.numGpus.toNat K.numGpus.toNat =
        (gridX * gridY).toNat := start_last hn
    rw [builtSince_launched, launchedTotal_launched, List.nil_append, ← flatMap_warpTids,
      ← hlast, ← flatMap_shares, List.flatMap_assoc,
      pending, List.flatMap_assoc]
    refine List.Perm.flatMap_left _ fun i hi => ?_
    replace hi := List.mem_range.1 hi
    rw [launchKernel_gpus hi]
    split_ifs with hzero
    · rw [hzero, GpgpuTop.pendingContexts, hqueued i hi]
      rfl
    · refine ((GpgpuTop.pendingContexts_launchKernel (hqueued i hi) _ _ _).flatMap_right _).trans ?_
      have hpart : start (gridX * gridY).toNat K.numGpus.toNat i +
          share (gridX * gridY).toNat K.numGpus.toNat i ≤ (gridX * gridY).toNat :=
        start_add_share_le hn hi
      rw [hsize i hi, WarpScheduler.nextWarps, List.map_map, List.flatMap_map,
        List.range'_eq_map_range, List.flatMap_map, hagree i hi hzero]
      refine List.Perm.of_eq (List.flatMap_congr fun j hj => ?_)
      exact contextTids_launch (by have := List.mem_range.1 hj; omega) hfit _ rfl

theorem TidInv.resume (h : TidInv K tr s) {i : ℕ} (hi : i < K.numGpus.toNat) {g' : GpgpuTop}
    {ev : List TopEvent} (hs : (s.gpus i).resume K.gpu = some (g', ev)) :
    TidInv K (tr ++ ev.map .gpu) ⟨Function.update s.gpus i g'⟩ := by
  obtain ⟨hvalid, hperm⟩ := GpgpuTop.resume_builds (h.valid i hi) hs
  refine ⟨fun j hj => ?_, ?_⟩
  · by_cases hji : j = i
    · subst hji
      show (Function.update s.gpus j g' j).Valid K.gpu
      rwa [Function.update_self]
    · show (Function.update s.gpus i g' j).Valid K.gpu
      rw [Function.update_of_ne hji]
      exact h.valid j hj
  · obtain ⟨base, htids⟩ := h.tids
    refine ⟨base, ?_⟩
    rw [builtSince_gpu, launchedTotal_gpu]
    refine (List.Perm.flatMap_right _ ?_).trans htids
    rw [List.append_assoc]
    refine List.Perm.append_left _ ?_
    have hnew : (fun j => (Function.update s.gpus i g' j).pendingContexts K.gpu) =
        Function.update (fun j => (s.gpus j).pendingContexts K.gpu) i
          (g'.pendingContexts K.gpu) := by
      funext j
      exact Function.apply_update (fun _ g => g.pendingContexts K.gpu) s.gpus i g' j
    have hold := WarpScheduler.flatMap_range_perm hi fun j => (s.gpus j).pendingContexts K.gpu
    show (_ ++ (List.range K.numGpus.toNat).flatMap fun j =>
      (Function.update s.gpus i g' j).pendingContexts K.gpu).Perm _
    rw [hnew]
    refine ((WarpScheduler.flatMap_update_perm hi _ _).append_left _).trans ?_
    rw [← List.append_assoc]
    exact (hperm.append_right _).trans hold.symm

/-- In a run of launches of GPUs with equal counters the ids of each launch, once it is complete,
are one range without repetition. -/
theorem globalTids_contiguous
    (h : ((transition K).filter (CountersAgree K)).Run (fun _ => True) s tr)
    (hc : s.isComplete K = true) :
    ∃ base, ((builtSince tr).flatMap (contextTids K)).Perm
      (List.range' base (launchedTotal tr * K.gpu.cu.threadsPerWarp)) := by
  have hinv : TidInv K tr s := by
    refine h.invariant (fun s tr => TidInv K tr s) ?_ ?_
    · rintro _ ⟨memory, rfl⟩ -
      have hnone : ∀ memory, WarpScheduler.queued K.gpu.toConfig
          (GpgpuTop.reset memory).scheduler = [] :=
        fun _ => List.flatMap_eq_nil_iff.2 fun _ _ => rfl
      refine ⟨fun i _ => ⟨fun _ => rfl, fun id hid => ?_⟩, 0, ?_⟩
      · rw [hnone] at hid
        exact absurd hid List.not_mem_nil
      · have hpending : pending K ⟨fun i => .reset (memory i)⟩ = [] :=
          List.flatMap_eq_nil_iff.2 fun i _ => by
            rw [GpgpuTop.pendingContexts, hnone]
            rfl
        rw [hpending]
        simp [builtSince, launchedTotal]
    · intro s tr a s' ev _ ih hs _
      obtain ⟨hok, hstep⟩ := Transition.filter_step hs
      replace hstep : step K s a = some (s', ev) := hstep
      cases a with
      | launch gridX gridY program =>
        unfold step at hstep
        dsimp only at hstep
        split_ifs at hstep with hcomplete
        obtain ⟨rfl, rfl⟩ := Prod.mk.inj (Option.some.inj hstep)
        exact ih.launch hok hcomplete
      | resume i =>
        unfold step at hstep
        dsimp only at hstep
        split_ifs at hstep with hi
        obtain ⟨⟨g', ev'⟩, hres, heq⟩ := Option.map_eq_some_iff.1 hstep
        obtain ⟨rfl, rfl⟩ := Prod.mk.inj heq
        exact ih.resume hi hres
  obtain ⟨base, htids⟩ := hinv.tids
  have hpending : pending K s = [] :=
    List.flatMap_eq_nil_iff.2 fun i hi => by
      rw [GpgpuTop.pendingContexts, hinv.queued_nil hc i (List.mem_range.1 hi)]
      rfl
  rw [hpending, List.append_nil] at htids
  exact ⟨base, htids⟩

/-- Two GPUs of one unit with one lane. -/
def twoGpus : Config where
  numGpus := 2
  numGpus_pos := by decide
  gpu := GpgpuTop.oneCu

def haltProgram : List Instruction := [⟨.halt, 0, 0, 0, 0⟩]

def freshGpus : SystemTop := ⟨fun _ => .reset GpgpuTop.emptyMemory⟩

/-- A launch of a warp for each GPU, and then three warps, two of them on the first GPU. -/
theorem globalTids_contiguous_threeWarps : ∃ (s : SystemTop) (tr : List SystemEvent),
    s.isComplete twoGpus = true ∧ (builtSince tr).length = 3 ∧
      launchedTotal tr = 3 ∧ ∃ base, ((builtSince tr).flatMap (contextTids twoGpus)).Perm
        (List.range' base (launchedTotal tr * twoGpus.gpu.cu.threadsPerWarp)) := by
  let T := (transition twoGpus).filter (CountersAgree twoGpus)
  let acts : List SystemAction := [.launch 2 1 haltProgram, .resume 0, .resume 1,
    .launch 3 1 haltProgram, .resume 0, .resume 1, .resume 0]
  have hrun : (T.exec (fun _ => True) freshGpus acts).any (fun r =>
      r.1.isComplete twoGpus && decide ((builtSince r.2).length = 3) &&
        decide (launchedTotal r.2 = 3)) = true := by
    decide +kernel
  obtain ⟨⟨s, tr⟩, hexec, hc⟩ := (Option.any_eq_true _ _).1 hrun
  simp only [Bool.and_eq_true, decide_eq_true_iff] at hc
  obtain ⟨⟨hcomplete, hbuilt⟩, htotal⟩ := hc
  have hinit : T.Run (fun _ => True) freshGpus [] := .init ⟨_, rfl⟩ trivial
  exact ⟨s, _, hcomplete, hbuilt, htotal, globalTids_contiguous (hinit.exec acts hexec) hcomplete⟩

/-- After a launch of one warp the first GPU counts one warp more, and the two warps of the next
launch get the same ids. -/
theorem not_globalTids_contiguous : ¬ ∀ (K : Config) (s : SystemTop) (tr : List SystemEvent),
    (transition K).Run (fun _ => True) s tr → s.isComplete K = true →
      ∃ base, ((builtSince tr).flatMap (contextTids K)).Perm
        (List.range' base (launchedTotal tr * K.gpu.cu.threadsPerWarp)) := by
  intro h
  let acts : List SystemAction := [.launch 1 1 haltProgram, .resume 0, .launch 2 1 haltProgram,
    .resume 0, .resume 1]
  have hrun : ((transition twoGpus).exec (fun _ => True) freshGpus acts).any (fun r =>
      r.1.isComplete twoGpus &&
        decide ((builtSince r.2).flatMap (contextTids twoGpus) = [1, 1])) = true := by
    decide +kernel
  obtain ⟨⟨s, tr⟩, hexec, hc⟩ := (Option.any_eq_true _ _).1 hrun
  obtain ⟨hcomplete, htids⟩ := (Bool.and_eq_true _ _ ▸ hc)
  have hinit : (transition twoGpus).Run (fun _ => True) freshGpus [] := .init ⟨_, rfl⟩ trivial
  obtain ⟨base, hperm⟩ := h twoGpus s _ (hinit.exec acts hexec) hcomplete
  rw [List.nil_append, of_decide_eq_true htids] at hperm
  exact absurd (hperm.nodup_iff.2 (List.nodup_range' _)) (by decide)

end SystemTop

end RiscvGpgpu.Golden
