import Mathlib.Logic.Relation
import RiscvGpgpu.Golden.Scheduling
import RiscvGpgpu.Lib.Calls

/-!
# No warp is lost

Submissions, selections and balancings in any order: the warps that are queued or have been selected
are the warps generated, as multisets, as long as no selection pops the id `INVALID_WARP_ID`, which
its caller takes for "no warp". Balancing moves warps one at a time until the queues are even.
-/

namespace RiscvGpgpu.Golden.WarpScheduler

/-! ## Calls -/

inductive SchedulerCall where
  | submitKernel (gridX gridY : BitVec 32)
  | selectWarp (cuId : ℕ)
  | balanceLoad

variable (K : Config)

/-- A call, with the warp that its caller gets from it. -/
def SchedulerCall.step : SchedulerCall → WarpScheduler → Option WarpId × WarpScheduler
  | .submitKernel gridX gridY, s => (none, s.submitKernel K gridX gridY)
  | .selectWarp cuId, s =>
    let (id, s') := s.selectWarp K cuId
    (if id = invalidWarpId then none else some id, s')
  | .balanceLoad, s => (none, s.balanceLoadAcrossUnits K)

/-- The state after a list of calls. -/
abbrev afterCalls (cs : List SchedulerCall) : WarpScheduler :=
  Calls.after (SchedulerCall.step K) reset cs

theorem queued_reset : reset.queued K = [] := List.flatMap_eq_nil_iff.2 fun _ _ => rfl

/-- The warps that a call generates. -/
def SchedulerCall.generates : SchedulerCall → WarpScheduler → List WarpId
  | .submitKernel gridX gridY, s => s.nextWarps (gridX * gridY).toNat
  | _, _ => []

/-- The warps that the calls of a list generate. -/
def generated : WarpScheduler → List SchedulerCall → List WarpId
  | _, [] => []
  | s, c :: cs => c.generates s ++ generated (c.step K s).2 cs

/-- The warps that they select. -/
def selected (s : WarpScheduler) (cs : List SchedulerCall) : List WarpId :=
  (Calls.log (SchedulerCall.step K) s cs).filterMap Prod.snd

/-! ## What is asked of them -/

/-- Every warp generated by the calls so far is queued or has been selected, once. -/
structure Conserved (cs : List SchedulerCall) : Prop where
  perm : ((afterCalls K cs).queued K ++ selected K reset cs).Perm (generated K reset cs)
  /-- As long as no id has been given twice, no id is in two places. -/
  once : (generated K reset cs).length ≤ 2 ^ 32 →
    ((afterCalls K cs).queued K ++ selected K reset cs).Nodup

/-- Balancing ends, moves no warp out of the queues and leaves them even. -/
structure Balances (s : WarpScheduler) : Prop where
  ends : Relation.ReflTransGen (fun q q' => rebalance K q = some q') s.readyQueues
    (balanceLoop K s.readyQueues) ∧ rebalance K (balanceLoop K s.readyQueues) = none
  perm : ((s.balanceLoadAcrossUnits K).queued K).Perm (s.queued K)
  even : ∀ i < K.numComputeUnits, ∀ j < K.numComputeUnits,
    ((s.balanceLoadAcrossUnits K).readyQueues i).length ≤
      ((s.balanceLoadAcrossUnits K).readyQueues j).length + 1

/-- A selection does not pop `INVALID_WARP_ID`. -/
def PopsValid (s : WarpScheduler) : SchedulerCall → Prop
  | .selectWarp cuId => cuId < K.numComputeUnits → (s.readyQueues cuId).head? ≠ some invalidWarpId
  | _ => True

variable {K}

/-! ## Balancing -/

theorem balanceLoop_ends (q : WarpQueues) :
    Relation.ReflTransGen (fun q q' => rebalance K q = some q') q (balanceLoop K q) ∧
      rebalance K (balanceLoop K q) = none := by
  fun_induction balanceLoop K q with
  | case1 q q' h ih => exact ⟨.head h ih.1, ih.2⟩
  | case2 q h => exact ⟨.refl, h⟩

/-- A scan that changes to whatever is greater ends with a greatest. -/
theorem le_foldl_greater {β : Type*} [LinearOrder β] (f : ℕ → β) (is : List ℕ) (m : ℕ) :
    ∀ i ∈ m :: is, f i ≤ f (is.foldl (fun m i => if f m < f i then i else m) m) := by
  induction is generalizing m with
  | nil =>
    intro i hi
    rw [List.mem_singleton.1 hi]
    exact le_rfl
  | cons k is ih =>
    rw [List.foldl_cons]
    have hrest := ih (if f m < f k then k else m)
    have hbest := hrest _ List.mem_cons_self
    intro i hi
    rcases List.mem_cons.1 hi with rfl | hi
    · refine le_trans ?_ hbest
      split_ifs with hlt
      · exact hlt.le
      · exact le_rfl
    · rcases List.mem_cons.1 hi with rfl | hi
      · refine le_trans ?_ hbest
        split_ifs with hlt
        · exact le_rfl
        · exact not_lt.1 hlt
      · exact hrest i (List.mem_cons_of_mem _ hi)

/-- The scans look at every unit. -/
theorem mem_scanned {i : ℕ} (hi : i < K.numComputeUnits) :
    i ∈ 0 :: List.range' 1 (K.numComputeUnits - 1) := by
  rw [List.mem_cons, List.mem_range'_1]
  omega

theorem length_le_maxCu (q : WarpQueues) {i : ℕ} (hi : i < K.numComputeUnits) :
    (q i).length ≤ (q (maxCu K q)).length :=
  le_foldl_greater (fun i => (q i).length) _ 0 i (mem_scanned hi)

theorem length_minCu_le (q : WarpQueues) {i : ℕ} (hi : i < K.numComputeUnits) :
    (q (minCu K q)).length ≤ (q i).length :=
  le_foldl_greater (fun i => OrderDual.toDual (q i).length) _ 0 i (mem_scanned hi)

/-- Queues that no turn of the loop changes are even. -/
theorem even_of_rebalance {q : WarpQueues} (h : rebalance K q = none) {i j : ℕ}
    (hi : i < K.numComputeUnits) (hj : j < K.numComputeUnits) :
    (q i).length ≤ (q j).length + 1 := by
  have hmax := length_le_maxCu q hi
  have hmin := length_minCu_le q hj
  have hstop : ¬ (q (minCu K q)).length + 1 < (q (maxCu K q)).length := by
    intro hlt
    obtain ⟨warp, rest, hq⟩ := List.exists_cons_of_length_pos (Nat.zero_lt_of_lt hlt)
    rw [rebalance, if_pos hlt, hq] at h
    exact absurd h (by simp)
  omega

theorem balances (s : WarpScheduler) : Balances K s := by
  refine ⟨balanceLoop_ends s.readyQueues, ?_, ?_⟩
  · unfold balanceLoadAcrossUnits
    split_ifs
    · exact List.Perm.refl _
    · exact balanceLoop_perm s.readyQueues
  · intro i hi j hj
    unfold balanceLoadAcrossUnits
    split_ifs
    · obtain rfl : i = j := by omega
      exact Nat.le_succ _
    · exact even_of_rebalance (balanceLoop_ends s.readyQueues).2 hi hj

/-! ## One call -/

section Step

variable {s : WarpScheduler} {c : SchedulerCall}

theorem queued_pop {cuId : ℕ} (hcu : cuId < K.numComputeUnits) (s : WarpScheduler) :
    (s.queued K).Perm
      ((s.readyQueues cuId).head?.toList ++ (s.selectWarp K cuId).2.queued K) := by
  have hupdate := flatMap_update_perm hcu s.readyQueues (s.readyQueues cuId).tail
  rw [queued, queued, (selectWarp_eq hcu).2]
  refine (flatMap_range_perm hcu s.readyQueues).trans ?_
  refine List.Perm.trans ?_ (hupdate.symm.append_left _)
  rw [← List.append_assoc]
  cases s.readyQueues cuId <;> exact List.Perm.refl _

theorem selectWarp_outside {cuId : ℕ} (hcu : K.numComputeUnits ≤ cuId) (s : WarpScheduler) :
    s.selectWarp K cuId = (invalidWarpId, s) := if_pos hcu

/-- What the caller of a selection gets. -/
theorem step_selectWarp (cuId : ℕ) (s : WarpScheduler) :
    ((SchedulerCall.selectWarp cuId).step K s).1 =
      if (s.selectWarp K cuId).1 = invalidWarpId then none else some (s.selectWarp K cuId).1 := rfl

theorem step_selectWarp_valid {cuId : ℕ} (hcu : cuId < K.numComputeUnits)
    (h : (s.readyQueues cuId).head? ≠ some invalidWarpId) :
    ((SchedulerCall.selectWarp cuId).step K s).1 = (s.readyQueues cuId).head? := by
  rw [step_selectWarp, (selectWarp_eq hcu).1]
  cases hq : s.readyQueues cuId with
  | nil => exact if_pos rfl
  | cons id rest =>
    rw [hq] at h
    exact if_neg fun heq => h (congrArg some heq)

/-- A call adds what it generates and hands out what it takes, if it pops no invalid id. -/
theorem step_perm (h : PopsValid K s c) :
    ((c.step K s).2.queued K ++ (c.step K s).1.toList).Perm (s.queued K ++ c.generates s) := by
  cases c with
  | submitKernel gridX gridY =>
    show ((s.submitKernel K gridX gridY).queued K ++ []).Perm _
    rw [List.append_nil]
    exact (submitKernel_submitted K gridX gridY s).queued
  | balanceLoad =>
    show ((s.balanceLoadAcrossUnits K).queued K ++ []).Perm (s.queued K ++ [])
    rw [List.append_nil, List.append_nil]
    exact (balances s).perm
  | selectWarp cuId =>
    show ((s.selectWarp K cuId).2.queued K ++ _).Perm (s.queued K ++ [])
    rw [List.append_nil]
    by_cases hcu : cuId < K.numComputeUnits
    · rw [step_selectWarp_valid hcu (h hcu)]
      exact List.perm_append_comm.trans (queued_pop hcu s).symm
    · rw [step_selectWarp, selectWarp_outside (Nat.not_lt.1 hcu), if_pos rfl]
      exact List.perm_append_comm

/-- A selection that pops the invalid id takes a warp out that nobody gets. -/
theorem step_length (h : ¬ PopsValid K s c) :
    ((c.step K s).2.queued K).length < (s.queued K).length ∧ (c.step K s).1 = none ∧
      c.generates s = [] := by
  cases c with
  | submitKernel gridX gridY => exact absurd trivial h
  | balanceLoad => exact absurd trivial h
  | selectWarp cuId =>
    obtain ⟨hcu, hhead⟩ := Classical.not_imp.1 h
    rw [not_not] at hhead
    refine ⟨?_, ?_, rfl⟩
    · have hlength := (queued_pop hcu s).length_eq
      rw [hhead] at hlength
      show ((s.selectWarp K cuId).2.queued K).length < _
      rw [hlength]
      simp
    · rw [step_selectWarp, (selectWarp_eq hcu).1, hhead]
      exact if_pos rfl

end Step

/-! ## Runs -/

section Runs

variable {s : WarpScheduler}

theorem generated_concat (cs : List SchedulerCall) (c : SchedulerCall) :
    generated K s (cs ++ [c]) =
      generated K s cs ++ c.generates (Calls.after (SchedulerCall.step K) s cs) := by
  induction cs generalizing s with
  | nil => exact List.append_nil _
  | cons d cs ih =>
    show d.generates s ++ generated K (d.step K s).2 (cs ++ [c]) = _
    rw [ih, ← List.append_assoc]
    rfl

theorem selected_concat (cs : List SchedulerCall) (c : SchedulerCall) :
    selected K s (cs ++ [c]) =
      selected K s cs ++ (c.step K (Calls.after (SchedulerCall.step K) s cs)).1.toList := by
  rw [selected, Calls.log_append, List.filterMap_append]
  rfl

/-- What a call generates are the next ids, and it counts them. -/
theorem step_generates (c : SchedulerCall) (s : WarpScheduler) :
    c.generates s = s.nextWarps (c.generates s).length ∧
      (c.step K s).2.kernelWarpCounter =
        s.kernelWarpCounter + BitVec.ofNat 32 (c.generates s).length := by
  cases c with
  | submitKernel gridX gridY =>
    have hlength : (s.nextWarps (gridX * gridY).toNat).length = (gridX * gridY).toNat := by
      rw [nextWarps, List.length_map, List.length_range]
    show s.nextWarps _ = s.nextWarps (s.nextWarps _).length ∧
      _ = _ + BitVec.ofNat 32 (s.nextWarps _).length
    rw [hlength]
    exact ⟨rfl, (submitKernel_submitted K gridX gridY s).counter⟩
  | selectWarp cuId =>
    refine ⟨rfl, ?_⟩
    show (s.selectWarp K cuId).2.kernelWarpCounter = s.kernelWarpCounter + 0#32
    rw [BitVec.add_zero]
    by_cases hcu : cuId < K.numComputeUnits
    · rcases s.selectWarp_cases hcu with heq | hcases
      · rw [heq]
      · exact hcases.2.2
    · rw [selectWarp_outside (Nat.not_lt.1 hcu)]
  | balanceLoad =>
    refine ⟨rfl, ?_⟩
    show (s.balanceLoadAcrossUnits K).kernelWarpCounter = s.kernelWarpCounter + 0#32
    rw [BitVec.add_zero]
    unfold balanceLoadAcrossUnits
    split_ifs <;> rfl

theorem nextWarps_add (s : WarpScheduler) (m n : ℕ) :
    s.nextWarps (m + n) = s.nextWarps m ++
      (List.range n).map fun i => s.kernelWarpCounter + BitVec.ofNat 32 m + BitVec.ofNat 32 i := by
  rw [nextWarps, List.range_add, List.map_append, List.map_map]
  refine congrArg _ (List.map_congr_left ?_)
  intro i _
  show s.kernelWarpCounter + BitVec.ofNat 32 (m + i) = _
  rw [BitVec.ofNat_add, BitVec.add_assoc]

/-- The warps get the ids from 0 on, modulo 2^32. -/
theorem generated_eq (cs : List SchedulerCall) :
    generated K reset cs = reset.nextWarps (generated K reset cs).length ∧
      (afterCalls K cs).kernelWarpCounter = BitVec.ofNat 32 (generated K reset cs).length := by
  induction cs using List.reverseRecOn with
  | nil => exact ⟨rfl, rfl⟩
  | append_singleton cs c ih =>
    obtain ⟨hids, hcounter⟩ := ih
    obtain ⟨hnext, hcount⟩ := step_generates (K := K) c (afterCalls K cs)
    rw [generated_concat, List.length_append]
    refine ⟨?_, ?_⟩
    · rw [nextWarps_add, ← hids]
      refine congrArg _ (hnext.trans ?_)
      rw [nextWarps, hcounter]
      refine List.map_congr_left ?_
      intro i _
      show _ = 0#32 + _ + _
      rw [BitVec.zero_add]
    · rw [afterCalls, Calls.after_append, Calls.after_singleton, hcount, hcounter,
        BitVec.ofNat_add]

theorem nextWarps_nodup {n : ℕ} (h : n ≤ 2 ^ 32) (s : WarpScheduler) : (s.nextWarps n).Nodup := by
  refine List.Nodup.map_on ?_ List.nodup_range
  intro i hi j hj heq
  have hi := List.mem_range.1 hi
  have hj := List.mem_range.1 hj
  bv_omega

/-! ## Conservation -/

theorem afterCalls_concat (cs : List SchedulerCall) (c : SchedulerCall) :
    afterCalls K (cs ++ [c]) = (c.step K (afterCalls K cs)).2 := by
  rw [afterCalls, Calls.after_append, Calls.after_singleton]

open scoped List in
/-- What is queued, selected and generated, with one call more. -/
theorem perm_concat {cs : List SchedulerCall} {c : SchedulerCall}
    (h : PopsValid K (afterCalls K cs) c)
    (hcs : ((afterCalls K cs).queued K ++ selected K reset cs).Perm (generated K reset cs)) :
    ((afterCalls K (cs ++ [c])).queued K ++ selected K reset (cs ++ [c])).Perm
      (generated K reset (cs ++ [c])) := by
  have hstep := step_perm h
  rw [afterCalls_concat, selected_concat, generated_concat]
  set taken := (c.step K (afterCalls K cs)).1.toList
  set queued' := (c.step K (afterCalls K cs)).2.queued K
  calc queued' ++ (selected K reset cs ++ taken)
      ~ queued' ++ taken ++ selected K reset cs := by
        rw [List.append_assoc]
        exact List.perm_append_comm.append_left _
    _ ~ (afterCalls K cs).queued K ++ c.generates (afterCalls K cs) ++ selected K reset cs :=
        hstep.append_right _
    _ ~ (afterCalls K cs).queued K ++ selected K reset cs ++ c.generates (afterCalls K cs) := by
        rw [List.append_assoc, List.append_assoc]
        exact List.perm_append_comm.append_left _
    _ ~ generated K reset cs ++ c.generates (afterCalls K cs) := hcs.append_right _

theorem conserved_of_perm {cs : List SchedulerCall}
    (h : ((afterCalls K cs).queued K ++ selected K reset cs).Perm (generated K reset cs)) :
    Conserved K cs := by
  refine ⟨h, ?_⟩
  intro hlength
  rw [h.nodup_iff, (generated_eq cs).1]
  exact nextWarps_nodup hlength reset

/-- A selection that pops the invalid id breaks the balance. -/
theorem popsValid_of_conserved {cs : List SchedulerCall} {c : SchedulerCall}
    (hcs : Conserved K cs) (h : Conserved K (cs ++ [c])) : PopsValid K (afterCalls K cs) c := by
  by_contra hpop
  obtain ⟨hlost, hnone, hgenerates⟩ := step_length hpop
  have hbefore := hcs.perm.length_eq
  have hafter := h.perm.length_eq
  rw [afterCalls_concat, selected_concat, generated_concat, hnone, hgenerates, Option.toList_none,
    List.append_nil, List.append_nil, List.length_append] at hafter
  rw [List.length_append] at hbefore
  omega

end Runs

/-- After every prefix of a run the warps are conserved, and balancing works from there, exactly if
no selection of the run pops `INVALID_WARP_ID`. -/
theorem conserves_iff_popsValid (K : Config) (cs : List SchedulerCall) :
    (∀ pre, pre <+: cs → Conserved K pre ∧ Balances K (afterCalls K pre)) ↔
      Calls.Each (SchedulerCall.step K) (PopsValid K) reset cs := by
  constructor
  · rintro h pre c post rfl
    have hpre := (h pre (List.prefix_append _ _)).1
    have hnext := (h (pre ++ [c]) (by simp)).1
    exact popsValid_of_conserved hpre hnext
  · intro h pre hpre
    refine ⟨conserved_of_perm ?_, balances _⟩
    refine Calls.after_induction
      (fun pre s => (s.queued K ++ selected K reset pre).Perm (generated K reset pre)) ?_ ?_
      (h.initial hpre)
    · show (reset.queued K ++ []).Perm []
      rw [List.append_nil, queued_reset]
    · intro pre c hok hinv
      rw [← afterCalls_concat]
      exact perm_concat hok hinv

/-- One compute unit. -/
def oneUnit : Config where
  numComputeUnits := 1
  maxWarpsPerCu := 32
  numComputeUnits_pos := one_pos
  maxWarpsPerCu_pos := by decide

/-- Each of `n` warps is submitted alone and selected at once. -/
def oneByOne (n : ℕ) : List SchedulerCall :=
  (List.replicate n [SchedulerCall.submitKernel 1 1, .selectWarp 0]).flatten

theorem oneByOne_succ (n : ℕ) :
    oneByOne (n + 1) = oneByOne n ++ [.submitKernel 1 1] ++ [.selectWarp 0] := by
  rw [oneByOne, List.replicate_succ', List.flatten_append, List.append_assoc]
  rfl

theorem submitKernel_oneUnit (s : WarpScheduler) :
    s.submitKernel oneUnit 1 1 = generateWarp oneUnit s 0 := rfl

/-- After a submission its warp waits alone. -/
theorem afterCalls_oneByOne (n : ℕ) :
    (afterCalls oneUnit (oneByOne n ++ [.submitKernel 1 1])).readyQueues 0 =
        [BitVec.ofNat 32 n] ∧
      (afterCalls oneUnit (oneByOne n ++ [.submitKernel 1 1])).kernelWarpCounter =
        BitVec.ofNat 32 (n + 1) := by
  induction n with
  | zero => exact ⟨rfl, rfl⟩
  | succ n ih =>
    obtain ⟨hqueue, hcounter⟩ := ih
    have hzero : 0 < oneUnit.numComputeUnits := oneUnit.numComputeUnits_pos
    set s := afterCalls oneUnit (oneByOne n ++ [.submitKernel 1 1]) with hs
    have hafter : afterCalls oneUnit (oneByOne (n + 1) ++ [.submitKernel 1 1]) =
        generateWarp oneUnit (s.selectWarp oneUnit 0).2 0 := by
      rw [oneByOne_succ, afterCalls_concat, afterCalls_concat, ← hs]
      exact submitKernel_oneUnit _
    have hempty : (s.selectWarp oneUnit 0).2.readyQueues 0 = [] := by
      rw [(selectWarp_eq hzero).2, Function.update_self, hqueue, List.tail_cons]
    have hkept : (s.selectWarp oneUnit 0).2.kernelWarpCounter = BitVec.ofNat 32 (n + 1) := by
      rcases s.selectWarp_cases hzero with heq | hcases
      · rw [heq, hcounter]
      · rw [hcases.2.2, hcounter]
    rw [hafter]
    refine ⟨?_, ?_⟩
    · show (s.selectWarp oneUnit 0).2.readyQueues 0 ++
        [(s.selectWarp oneUnit 0).2.kernelWarpCounter] = _
      rw [hempty, hkept, List.nil_append]
    · show (s.selectWarp oneUnit 0).2.kernelWarpCounter + 1 = _
      rw [hkept, BitVec.ofNat_add (n + 1) 1]
      rfl

/-- The last of 2^32 warps is popped and handed to nobody. -/
theorem not_conserves_lastWarp :
    ¬ ∀ pre, pre <+: oneByOne (2 ^ 32) →
      Conserved oneUnit pre ∧ Balances oneUnit (afterCalls oneUnit pre) := by
  intro h
  have hsucc : oneByOne (2 ^ 32) = oneByOne (2 ^ 32 - 1) ++ [.submitKernel 1 1] ++
    [.selectWarp 0] :=
    oneByOne_succ (2 ^ 32 - 1)
  have hlast := h _ (List.prefix_refl _)
  have hbefore := h (oneByOne (2 ^ 32 - 1) ++ [.submitKernel 1 1]) ⟨[.selectWarp 0], hsucc.symm⟩
  rw [hsucc] at hlast
  have hpops := popsValid_of_conserved hbefore.1 hlast.1
  refine hpops oneUnit.numComputeUnits_pos ?_
  rw [(afterCalls_oneByOne (2 ^ 32 - 1)).1]
  rfl

end RiscvGpgpu.Golden.WarpScheduler
