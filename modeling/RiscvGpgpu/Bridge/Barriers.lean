import RiscvGpgpu.Bridge.Completion
import RiscvGpgpu.Lib.History

/-!
# Block barriers

A thread that waits at a barrier goes on in a release of its block only. A release counts
`threadsPerBlock` threads at the barrier, and a block has no more threads than that, so that a
thread has passed as many barriers as its block has had releases, and each of these has found the
whole block at the same barrier (`barriersSafe`).
-/

namespace RiscvGpgpu.Bridge

open Golden (BlockId MemoryHierarchy HostFloat BinaryUnit RV32Instr)
open History (Throughout)

/-! ## Barriers in a trace -/

/-- The thread executes a `bar.sync`. -/
def Moment.isSync (m : Moment) (i : ℕ) : Bool :=
  match m.event with
  | .step j (some instr) => j == i && decide (instr.op = .barSync)
  | _ => false

/-- The block is released. -/
def Moment.isRelease (m : Moment) (blockId : BlockId) : Bool :=
  match m.event with
  | .release b _ => b == blockId
  | _ => false

/-- The number of `bar.sync` that a thread has executed. -/
def syncs (ms : List Moment) (i : ℕ) : ℕ := ms.countP fun m => m.isSync i

def releases (ms : List Moment) (blockId : BlockId) : ℕ := ms.countP fun m => m.isRelease blockId

/-- In a moment all threads of a block are blocked at their `k`-th barrier, with the same id. -/
structure AtBarrier (L : Launch) (ms : List Moment) (m : Moment) (blockId : BlockId) (id : Word)
    (k : ℕ) : Prop where
  all : m.before.countP (fun w => w.blockId == blockId) = L.threadsPerBlock.toNat
  blocked : ∀ i w, m.before[i]? = some w → w.blockId = blockId →
    w.cu.blocked = true ∧ w.cu.barrierId = id ∧ syncs ms i = k

/-- The threads of the block go on, and nothing else changes. -/
structure Unblocks (m : Moment) (blockId : BlockId) : Prop where
  own : ∀ (i : ℕ) (w : Worker), m.before[i]? = some w → w.blockId = blockId →
    m.after[i]? = some { w with cu := { w.cu with blocked := false } }
  others : ∀ (i : ℕ) (w : Worker), m.before[i]? = some w → w.blockId ≠ blockId →
    m.after[i]? = some w

/-- What a trace owes the blocks. -/
structure BarrierSafe (L : Launch) (ms : List Moment) : Prop where
  /-- Whoever executes an instruction after its `k`-th barrier has been there with its block. -/
  waits : Throughout (fun pre m => ∀ i instr w k, m.event = .step i (some instr) →
    m.before[i]? = some w → 0 < k → k ≤ syncs pre i →
      ∃ pre' r post id, pre = pre' ++ r :: post ∧ r.event = .release w.blockId id ∧
        AtBarrier L pre' r w.blockId id k) ms
  releases : Throughout (fun pre m => ∀ blockId id, m.event = .release blockId id →
    AtBarrier L pre m blockId id (releases pre blockId + 1) ∧ Unblocks m blockId) ms

/-! ## Turns -/

section Turns

variable (F : HostFloat) (L : Launch)

/-- The turns of `warpLoop`. -/
def warpRounds : ℕ → List WarpGroup → Simulation → List WarpTurn
  | 0, _, _ => []
  | turns + 1, wgs, sim =>
    match warpTurn F L wgs ⟨sim, false⟩ with
    | none => []
    | some (t, next) =>
      t :: if wgs.any WarpGroup.active && t.madeProgress then warpRounds turns next t.sim else []

variable {F L}

theorem warpRounds_runs {turns : ℕ} {wgs : List WarpGroup} {s : Simulation} {t : WarpTurn}
    (h : t ∈ warpRounds F L turns wgs s) : Runs L s t.sim := by
  induction turns generalizing wgs s with
  | zero => exact absurd h List.not_mem_nil
  | succ turns ih =>
    rw [warpRounds] at h
    cases hturn : warpTurn F L wgs ⟨s, false⟩ with
    | none =>
      rw [hturn] at h
      exact absurd h List.not_mem_nil
    | some r =>
      rw [hturn] at h
      have hruns : Runs L s r.1.sim := warpTurn_runs hturn
      rcases List.mem_cons.1 h with rfl | h
      · exact hruns
      · split_ifs at h
        · exact hruns.trans (ih h)
        · exact absurd h List.not_mem_nil

theorem scalarRounds_runs {U turns cursor : ℕ} {s : Simulation} {r : ScalarRound}
    (h : r ∈ scalarRounds F L U turns cursor s) : Runs L s r.turn.sim := by
  induction turns generalizing cursor s with
  | zero => exact absurd h List.not_mem_nil
  | succ turns ih =>
    rw [scalarRounds] at h
    cases hturn : scalarTurn F L U cursor s with
    | none =>
      rw [hturn] at h
      exact absurd h List.not_mem_nil
    | some t =>
      rw [hturn] at h
      have hruns : Runs L s t.sim := scalarScan_runs hturn
      dsimp only at h
      rcases List.mem_cons.1 h with rfl | h
      · exact hruns
      by_cases hon : (t.anyActive && t.madeProgress) = true
      · rw [if_pos hon] at h
        exact hruns.trans (ih h)
      · rw [if_neg hon] at h
        exact absurd h List.not_mem_nil

/-- The loop ends with its last turn. -/
theorem warpLoop_last {turns : ℕ} {wgs : List WarpGroup} {s s' : Simulation} {finished : Bool}
    (h : warpLoop F L turns wgs s = some (finished, s')) :
    ∃ t ∈ warpRounds F L turns wgs s, t.sim = s' := by
  induction turns generalizing wgs s with
  | zero => exact absurd h (by simp [warpLoop])
  | succ turns ih =>
    rw [warpLoop] at h
    obtain ⟨⟨t, next⟩, ht, h⟩ := Option.bind_eq_some_iff.1 h
    rw [warpRounds, ht]
    dsimp only at h ⊢
    cases hactive : wgs.any WarpGroup.active with
    | false =>
      rw [hactive, if_pos Bool.not_false] at h
      exact ⟨t, List.mem_cons_self, (Prod.mk.inj (Option.some.inj h)).2⟩
    | true =>
      rw [hactive, Bool.not_true, if_neg Bool.false_ne_true] at h
      cases hprogress : t.madeProgress with
      | false =>
        rw [hprogress, if_pos Bool.not_false] at h
        exact ⟨t, List.mem_cons_self, (Prod.mk.inj (Option.some.inj h)).2⟩
      | true =>
        rw [hprogress, Bool.not_true, if_neg Bool.false_ne_true] at h
        obtain ⟨t', ht', hsim⟩ := ih h
        exact ⟨t', List.mem_cons_of_mem _ ht', hsim⟩

end Turns

/-- The simulations after the turns of the loop that `warpSize` asks for. -/
inductive Reached (F : HostFloat) (C : Config) (L : Launch) (mem : MemoryHierarchy) :
    Simulation → Prop
  | warps {turns : ℕ} {groups : List (List Worker)} {mem' : MemoryHierarchy} {t : WarpTurn}
      (hsize : 1 < L.warpSize C) (hmake : makeWarpGroups C L mem = some (groups, mem'))
      (ht : t ∈ warpRounds F L turns
        ((groupPlaces 0 (groups.map List.length)).map fun threads => ⟨threads, true⟩)
        ⟨mem', groups.flatten, []⟩) : Reached F C L mem t.sim
  | scalar {turns : ℕ} {workers : List Worker} {mem' : MemoryHierarchy} {r : ScalarRound}
      (hsize : ¬ 1 < L.warpSize C) (hmake : makeScalarWorkers C L mem = some (workers, mem'))
      (hr : r ∈ scalarRounds F L (activeUnits C workers.length) turns 0 ⟨mem', workers, []⟩) :
      Reached F C L mem r.turn.sim

section Reached

variable {F : HostFloat} {C : Config} {L : Launch} {mem : MemoryHierarchy} {sim : Simulation}

/-- A run that ends without a deadlock ends in such a simulation. -/
theorem execute_reached {turns : ℕ} (h : execute F C turns L mem = some (.ok sim)) :
    Reached F C L mem sim := by
  unfold execute at h
  split_ifs at h with hsize
  · obtain ⟨⟨groups, mem'⟩, hmake, h⟩ := Option.bind_eq_some_iff.1 h
    obtain ⟨⟨finished, sim'⟩, hloop, h⟩ := Option.bind_eq_some_iff.1 h
    cases finished with
    | false => exact absurd (Option.some.inj h) (by simp)
    | true =>
      obtain rfl := Except.ok.inj (Option.some.inj h)
      obtain ⟨t, ht, rfl⟩ := warpLoop_last hloop
      exact .warps hsize hmake ht
  · obtain ⟨⟨workers, mem'⟩, hmake, h⟩ := Option.bind_eq_some_iff.1 h
    obtain ⟨⟨finished, sim'⟩, hloop, h⟩ := Option.bind_eq_some_iff.1 h
    cases finished with
    | false => exact absurd (Option.some.inj h) (by simp)
    | true =>
      obtain rfl := Except.ok.inj (Option.some.inj h)
      obtain ⟨r, hr, rfl⟩ := scalarLoop_last hloop
      exact .scalar hsize hmake (List.mem_of_getLast? hr)

theorem Reached.runs (h : Reached F C L mem sim) : ∃ mem', Runs L (started C L mem') sim := by
  cases h with
  | @warps _ groups mem' _ hsize hmake ht =>
    have hids : groups.flatten = (threadIds C L).map (worker C L) := by
      unfold threadIds
      rw [if_pos hsize]
      exact makeWorkers_workers (makeWarpGroupsFrom_flatten hmake)
    rw [hids] at ht
    exact ⟨mem', warpRounds_runs ht⟩
  | @scalar _ workers mem' _ hsize hmake hr =>
    have hids : workers = (threadIds C L).map (worker C L) := by
      unfold threadIds
      rw [if_neg hsize]
      exact makeWorkers_workers hmake
    rw [hids] at hr
    exact ⟨mem', scalarRounds_runs hr⟩

end Reached

/-- No thread of a launch passes a barrier without its block, however far the loops get. -/
def BarriersSafe (F : HostFloat) (C : Config) (L : Launch) (mem : MemoryHierarchy) : Prop :=
  ∀ sim, Reached F C L mem sim → BarrierSafe L sim.trace

/-! ## The count of a release -/

section Count

variable {L : Launch} {s s' : Simulation} {e : Event} {ms : List Moment} {i : ℕ} {w w' : Worker}
  {blockId : BlockId} {id : Word}

/-- If a block has no more threads than are counted, they are all counted. -/
theorem all_arrived {n : ℕ} (hsize : s.workers.countP (fun w => w.blockId == blockId) ≤ n)
    (harrived : s.arrived blockId id = n) :
    s.workers.countP (fun w => w.blockId == blockId) = n ∧
      ∀ w ∈ s.workers, w.blockId = blockId →
        w.active = true ∧ w.cu.blocked = true ∧ w.cu.barrierId = id := by
  unfold Simulation.arrived at harrived
  obtain ⟨p, hp⟩ : ∃ p : Worker → Bool, p = fun w =>
      w.active && w.blockId == blockId && w.cu.isBlocked && w.cu.barrierId == id := ⟨_, rfl⟩
  have hof : ∀ w, p w = true → w.blockId = blockId ∧ w.active = true ∧ w.cu.blocked = true ∧
      w.cu.barrierId = id := by
    intro w hw
    rw [hp] at hw
    simp only [Bool.and_eq_true, beq_iff_eq] at hw
    exact ⟨hw.1.1.2, hw.1.1.1, hw.1.2, hw.2⟩
  rw [← hp] at harrived
  have hle : s.workers.countP p ≤ s.workers.countP fun w => w.blockId == blockId :=
    List.countP_mono_left fun w _ hw => beq_iff_eq.2 (hof w hw).1
  have heq : s.workers.countP (fun w => w.blockId == blockId) = n := by omega
  refine ⟨heq, fun w hw hblock => ?_⟩
  have hfilter : (s.workers.filter fun w => w.blockId == blockId).countP p =
      (s.workers.filter fun w => w.blockId == blockId).length := by
    rw [← List.countP_eq_length_filter, heq, ← harrived, List.countP_filter]
    refine List.countP_congr fun w _ => ?_
    rw [Bool.and_eq_true, beq_iff_eq]
    exact ⟨And.left, fun hw => ⟨hw, (hof w hw).1⟩⟩
  have hall := List.countP_eq_length.1 hfilter w (List.mem_filter.2 ⟨hw, beq_iff_eq.2 hblock⟩)
  exact (hof w hall).2

/-! ## Threads and releases -/

/-- A thread is as many barriers further than its block has been released as it waits at. -/
def InStep (ms : List Moment) (i : ℕ) (w : Worker) : Prop :=
  syncs ms i = releases ms w.blockId + if w.cu.blocked then 1 else 0

theorem syncs_snoc (ms : List Moment) (m : Moment) (i : ℕ) :
    syncs (ms ++ [m]) i = syncs ms i + if m.isSync i then 1 else 0 := by
  unfold syncs
  rw [List.countP_append, List.countP_singleton]

theorem releases_snoc (ms : List Moment) (m : Moment) (b : BlockId) :
    releases (ms ++ [m]) b = releases ms b + if m.isRelease b then 1 else 0 := by
  unfold releases
  rw [List.countP_append, List.countP_singleton]

theorem releaseBarrier_blocked {cu : BinaryUnit} (hblocked : cu.blocked = true)
    (hid : cu.barrierId = id) : (cu.releaseBarrier id).2 = { cu with blocked := false } := by
  have hgo : (!cu.blocked || cu.barrierId != id) = false := by
    rw [hblocked, hid, bne_self_eq_false]
    rfl
  unfold BinaryUnit.releaseBarrier
  rw [hgo, if_neg Bool.false_ne_true]

theorem InStep.snoc_same (h : InStep ms i w) {m : Moment} (hsync : m.isSync i = false)
    (hrelease : m.isRelease w.blockId = false) (hblock : w'.blockId = w.blockId)
    (hblocked : w'.cu.blocked = w.cu.blocked) : InStep (ms ++ [m]) i w' := by
  unfold InStep at h ⊢
  rw [hblock, syncs_snoc, releases_snoc, hsync, hrelease, hblocked, h]
  rfl

/-- One move of a worker, whose block is not released unless it is blocked at the barrier. -/
theorem InStep.move (h : InStep ms i w) {ws ws' : List Worker} (hmoves : w.Moves i e w')
    (hrelease : ∀ id, e = .release w.blockId id →
      w.active = true ∧ w.cu.blocked = true ∧ w.cu.barrierId = id) :
    InStep (ms ++ [⟨ws, e, ws'⟩]) i w' := by
  cases hmoves with
  | other hstep hnone _ =>
    refine h.snoc_same ?_ ?_ rfl rfl
    · unfold Moment.isSync
      cases e with
      | step j instr =>
        have hne : (j == i) = false := beq_eq_false_iff_ne.2 fun hj => hstep instr (by rw [hj])
        cases instr <;> simp [hne]
      | release => rfl
      | retire => rfl
    · unfold Moment.isRelease
      cases e with
      | step => rfl
      | release b id => exact beq_eq_false_iff_ne.2 fun hb => hnone id (by rw [hb])
      | retire => rfl
  | @release id =>
    obtain ⟨hactive, hblocked, hid⟩ := hrelease id rfl
    have hsync : Moment.isSync ⟨ws, .release w.blockId id, ws'⟩ i = false := rfl
    have hrel : Moment.isRelease ⟨ws, .release w.blockId id, ws'⟩ w.blockId = true :=
      beq_self_eq_true _
    rw [hactive, if_pos rfl]
    unfold InStep at h ⊢
    rw [hblocked, if_pos rfl] at h
    rw [releaseBarrier_blocked hblocked hid, syncs_snoc, releases_snoc, hsync, hrel, h]
    rfl
  | retire => exact h.snoc_same rfl rfl rfl rfl
  | @step instr cu _ hblocked hcu =>
    cases hcu with
    | halted => exact h.snoc_same rfl rfl rfl rfl
    | timeout => exact h.snoc_same rfl rfl rfl rfl
    | @barSync instr _ _ _ hop _ hblocked' =>
      have hsync : Moment.isSync ⟨ws, .step i (some instr), ws'⟩ i = true := by
        unfold Moment.isSync
        simp [hop]
      have hrel : Moment.isRelease ⟨ws, .step i (some instr), ws'⟩ w.blockId = false := rfl
      unfold InStep at h ⊢
      rw [hblocked] at h
      rw [syncs_snoc, releases_snoc, hsync, hrel, h, hblocked']
    | @executed instr _ _ _ hop _ hblocked' =>
      refine h.snoc_same ?_ rfl rfl (hblocked'.trans hblocked.symm)
      unfold Moment.isSync
      simp [hop]

end Count

/-! ## Whole runs -/

section Run

variable {L : Launch} {s s' : Simulation} {e : Event}

/-- What the moves keep: no block grows, its threads are in step, and the trace so far is safe. -/
structure Synced (L : Launch) (s : Simulation) : Prop where
  sizes : ∀ b, s.workers.countP (fun w => w.blockId == b) ≤ L.threadsPerBlock.toNat
  inStep : ∀ i w, s.workers[i]? = some w → InStep s.trace i w
  safe : BarrierSafe L s.trace

theorem Move.blockIds (h : Move L s e s') :
    s'.workers.map Worker.blockId = s.workers.map Worker.blockId := by
  apply List.ext_getElem?
  intro i
  rw [List.getElem?_map, List.getElem?_map]
  cases hw : s.workers[i]? with
  | none =>
    have hlen := h.length
    rw [List.getElem?_eq_none (hlen ▸ List.getElem?_eq_none_iff.1 hw)]
  | some w =>
    obtain ⟨w', hw', hmoves⟩ := h.worker hw
    rw [hw', Option.map_some, Option.map_some, hmoves.id.2]

theorem countP_blockId (ws : List Worker) (b : BlockId) :
    ws.countP (fun w => w.blockId == b) = (ws.map Worker.blockId).countP fun b' => b' == b := by
  rw [List.countP_map]
  rfl

/-- A release finds the whole block at the barrier. -/
theorem Synced.release (h : Synced L s) {b : BlockId} {id : Word}
    (hmove : Move L s (.release b id) s') :
    s.workers.countP (fun w => w.blockId == b) = L.threadsPerBlock.toNat ∧
      ∀ (i : ℕ) (w : Worker), s.workers[i]? = some w → w.blockId = b →
        w.active = true ∧ w.cu.blocked = true ∧ w.cu.barrierId = id := by
  cases hmove with
  | release _ harrived =>
    obtain ⟨hcount, hall⟩ := all_arrived (h.sizes _) harrived
    exact ⟨hcount, fun i w hw => hall w (List.mem_of_getElem? hw)⟩

theorem Synced.atBarrier (h : Synced L s) {b : BlockId} {id : Word}
    (hmove : Move L s (.release b id) s') :
    AtBarrier L s.trace ⟨s.workers, .release b id, s'.workers⟩ b id (releases s.trace b + 1) := by
  obtain ⟨hcount, hall⟩ := h.release hmove
  refine ⟨hcount, fun i w hw hblock => ?_⟩
  obtain ⟨-, hblocked, hid⟩ := hall i w hw hblock
  have hstep := h.inStep i w hw
  unfold InStep at hstep
  rw [hblocked, hblock, if_pos rfl] at hstep
  exact ⟨hblocked, hid, hstep⟩

theorem Synced.unblocks (h : Synced L s) {b : BlockId} {id : Word}
    (hmove : Move L s (.release b id) s') :
    Unblocks ⟨s.workers, .release b id, s'.workers⟩ b := by
  obtain ⟨-, hall⟩ := h.release hmove
  constructor
  · intro i w hw hblock
    obtain ⟨w', hw', hmoves⟩ := hmove.worker hw
    refine hw'.trans (congrArg some ?_)
    obtain ⟨hactive, hblocked, hid⟩ := hall i w hw hblock
    cases hmoves with
    | other _ hrelease _ => exact absurd (by rw [hblock]) (hrelease id)
    | release => rw [hactive, if_pos rfl, releaseBarrier_blocked hblocked hid]
  · intro i w hw hblock
    obtain ⟨w', hw', hmoves⟩ := hmove.worker hw
    refine hw'.trans (congrArg some ?_)
    cases hmoves with
    | other => rfl
    | release => exact absurd rfl hblock

/-- A thread that steps is in step with its block, and so has passed barriers with it only. -/
theorem Synced.waits (h : Synced L s) {i k : ℕ} {w : Worker} (hw : s.workers[i]? = some w)
    (hblocked : w.cu.blocked = false) (hk : 0 < k) (hle : k ≤ syncs s.trace i) :
    ∃ pre r post id, s.trace = pre ++ r :: post ∧ r.event = .release w.blockId id ∧
      AtBarrier L pre r w.blockId id k := by
  have hstep := h.inStep i w hw
  unfold InStep at hstep
  rw [hblocked, if_neg Bool.false_ne_true, Nat.add_zero] at hstep
  have hlt : k - 1 < s.trace.countP fun m => m.isRelease w.blockId := by
    show k - 1 < releases s.trace w.blockId
    omega
  obtain ⟨pre, r, post, heq, hr, hcount⟩ := History.exists_countP_eq hlt
  obtain ⟨id, hevent⟩ : ∃ id, r.event = .release w.blockId id := by
    unfold Moment.isRelease at hr
    cases hev : r.event with
    | step => rw [hev] at hr; exact absurd hr Bool.false_ne_true
    | release b id =>
      rw [hev] at hr
      exact ⟨id, by rw [beq_iff_eq.1 hr]⟩
    | retire => rw [hev] at hr; exact absurd hr Bool.false_ne_true
  refine ⟨pre, r, post, id, heq, hevent, ?_⟩
  have hat := (h.safe.releases pre r post heq _ id hevent).1
  have hkth : releases pre w.blockId + 1 = k := by
    have hcount : releases pre w.blockId = k - 1 := hcount
    omega
  rwa [hkth] at hat

theorem Synced.move (h : Synced L s) (hmove : Move L s e s') : Synced L s' := by
  refine ⟨fun b => ?_, fun i w' hw' => ?_, ?_⟩
  · rw [countP_blockId, hmove.blockIds, ← countP_blockId]
    exact h.sizes b
  · have hi : i < s.workers.length := hmove.length ▸ (List.getElem?_eq_some_iff.1 hw').1
    have hw := List.getElem?_eq_getElem hi
    obtain ⟨x, hx, hmoves⟩ := hmove.worker hw
    obtain rfl := Option.some.inj (hx.symm.trans hw')
    rw [hmove.trace]
    refine (h.inStep i _ hw).move hmoves fun id heq => ?_
    rw [heq] at hmove
    exact (h.release hmove).2 i _ hw rfl
  · rw [hmove.trace]
    constructor
    · refine History.throughout_snoc h.safe.waits fun i instr w k hevent hw hk hle => ?_
      obtain ⟨w', -, hmoves⟩ := hmove.worker hw
      have hevent : e = .step i (some instr) := hevent
      subst hevent
      cases hmoves with
      | other hstep => exact absurd rfl (hstep _)
      | step _ hblocked _ => exact h.waits hw hblocked hk hle
    · refine History.throughout_snoc h.safe.releases fun b id hevent => ?_
      have hevent : e = .release b id := hevent
      subst hevent
      exact ⟨h.atBarrier hmove, h.unblocks hmove⟩

/-- Whatever the loops do, in any order, they keep the barriers. -/
theorem synced_run (h : Runs L s s') (hs : Synced L s) : Synced L s' := by
  induction h with
  | refl => exact hs
  | tail _ hmove ih =>
    obtain ⟨e, hmove⟩ := hmove
    exact ih.move hmove

end Run

/-! ## The size of a block -/

section Sizes

variable {C : Config} {L : Launch}

/-- A launch of as many blocks and threads in a row. -/
def Launch.inRow (L : Launch) : Launch :=
  { L with grid := ⟨L.totalBlocks, 1, 1⟩, block := ⟨L.threadsPerBlock, 1, 1⟩ }

theorem atLeastOne_ne_zero (x : BitVec 32) : Bridge.atLeastOne x ≠ 0 := by
  unfold Bridge.atLeastOne
  split_ifs with h
  · rintro rfl
    exact absurd h (by decide)
  · decide

theorem count_ne_zero (e : Dim3) : e.count ≠ 0 := atLeastOne_ne_zero _

theorem count_row {n : BitVec 32} (h : n ≠ 0) : Dim3.count ⟨n, 1, 1⟩ = n := by
  have hone : Bridge.atLeastOne 1 = 1 := by decide
  have hmul : n * 1 = n := BitVec.mul_one n
  unfold Dim3.count
  dsimp only
  rw [hone, hmul, hmul]
  exact Dim3.atLeastOne_of_ne h

theorem volume_row (n : BitVec 32) : Dim3.volume ⟨n, 1, 1⟩ = n.toNat :=
  (Nat.mul_one _).trans (Nat.mul_one _)

theorem warpThreads_congr {L' : Launch} (h : L'.threadsPerBlock = L.threadsPerBlock) :
    L'.warpThreads = L.warpThreads := by
  unfold Launch.warpThreads Launch.warpsPerBlock
  rw [h]

/-- The ids are those below the thread count, if the count of warps in a block does not wrap. -/
theorem threadIds_row (h : L.totalBlocks.toNat * L.threadsPerBlock.toNat < 2 ^ 32)
    (hwarp : 1 < L.warpSize C →
      L.threadsPerBlock.toNat + (L.warpSize C).toNat ≤ 2 ^ 32) :
    threadIds C L = (List.range (L.totalBlocks.toNat * L.threadsPerBlock.toNat)).map
      (BitVec.ofNat 32) := by
  have hblocks : L.inRow.totalBlocks = L.totalBlocks := count_row (count_ne_zero _)
  have hthreads : L.inRow.threadsPerBlock = L.threadsPerBlock := count_row (count_ne_zero _)
  unfold threadIds
  split_ifs with hsize
  · have hpos : 0 < (L.warpSize C).toNat := lt_trans Nat.zero_lt_one hsize
    have hfits : Fits L.inRow.grid L.inRow.block := by
      have hone : (1 : BitVec 32) ≠ 0 := by decide
      refine ⟨⟨count_ne_zero _, hone, hone⟩, ⟨count_ne_zero _, hone, hone⟩, ?_⟩
      show Dim3.volume ⟨L.totalBlocks, 1, 1⟩ * Dim3.volume ⟨L.threadsPerBlock, 1, 1⟩ < 2 ^ 32
      rwa [volume_row, volume_row]
    have hids := flatMap_warpThreads hfits hpos
      (by rw [show L.inRow.block.volume = _ from volume_row _]; exact hwarp hsize)
    have hwarps : L.inRow.totalWarps (L.warpSize C) = L.totalWarps (L.warpSize C) := by
      unfold Launch.totalWarps Launch.warpsPerBlock
      rw [hblocks, hthreads]
    have hvolume : L.inRow.grid.volume * L.inRow.block.volume =
        L.totalBlocks.toNat * L.threadsPerBlock.toNat :=
      congrArg₂ (· * ·) (volume_row _) (volume_row _)
    rw [hwarps, warpThreads_congr hthreads, hvolume] at hids
    exact hids
  · unfold Launch.totalThreads
    rw [BitVec.toNat_mul, Nat.mod_eq_of_lt h]

/-- Otherwise there are none: the count wraps to zero. -/
theorem threadIds_wrapped (hsize : 1 < L.warpSize C)
    (hwrap : 2 ^ 32 < L.threadsPerBlock.toNat + (L.warpSize C).toNat) : threadIds C L = [] := by
  have hnone : L.warpsPerBlock (L.warpSize C) = 0 := by
    apply BitVec.eq_of_toNat_eq
    have hlt := L.threadsPerBlock.isLt
    have hsum : (L.threadsPerBlock + L.warpSize C - 1).toNat < (L.warpSize C).toNat := by
      bv_omega
    unfold Launch.warpsPerBlock
    rw [BitVec.toNat_udiv, Nat.div_eq_of_lt hsum]
    rfl
  have hzero : L.totalWarps (L.warpSize C) = 0 := by
    unfold Launch.totalWarps
    rw [hnone]
    exact BitVec.mul_zero
  unfold threadIds
  rw [if_pos hsize, hzero]
  rfl

theorem threadIds_eq (h : L.totalBlocks.toNat * L.threadsPerBlock.toNat < 2 ^ 32) :
    threadIds C L = (List.range (L.totalBlocks.toNat * L.threadsPerBlock.toNat)).map
        (BitVec.ofNat 32) ∨ threadIds C L = [] := by
  by_cases hwarp : 1 < L.warpSize C → L.threadsPerBlock.toNat + (L.warpSize C).toNat ≤ 2 ^ 32
  · exact .inl (threadIds_row h hwarp)
  · push Not at hwarp
    exact .inr (threadIds_wrapped hwarp.1 hwarp.2)

/-- A block has no more workers than the release counts. -/
theorem countP_started (h : L.totalBlocks.toNat * L.threadsPerBlock.toNat < 2 ^ 32)
    (mem : MemoryHierarchy) (b : BlockId) :
    (started C L mem).workers.countP (fun w => w.blockId == b) ≤ L.threadsPerBlock.toNat := by
  show ((threadIds C L).map (worker C L)).countP _ ≤ _
  rcases threadIds_eq (C := C) h with hids | hids
  · rw [hids, List.countP_map, List.countP_map]
    have hpos : 0 < L.threadsPerBlock.toNat := Dim3.pos_of_ne (count_ne_zero L.block)
    refine le_trans (le_of_eq (List.countP_congr fun t ht => ?_))
      (Grid.countP_div_eq_le (L.totalBlocks.toNat * L.threadsPerBlock.toNat) hpos b.toNat)
    have ht := List.mem_range.1 ht
    have hdiv : (BitVec.ofNat 32 t / L.threadsPerBlock).toNat = t / L.threadsPerBlock.toNat := by
      rw [BitVec.toNat_udiv, BitVec.toNat_ofNat, Nat.mod_eq_of_lt (by omega)]
    show (BitVec.ofNat 32 t / L.threadsPerBlock == b) = true ↔ _
    rw [beq_iff_eq, decide_eq_true_iff, ← hdiv]
    exact ⟨congrArg _, BitVec.eq_of_toNat_eq⟩
  · rw [hids]
    exact Nat.zero_le _

end Sizes

/-- The barriers of the bridge, for launches whose thread count fits 32 bits. -/
theorem barriersSafe (F : HostFloat) (C : Config) (L : Launch) (mem : MemoryHierarchy)
    (hexact : L.totalBlocks.toNat * L.threadsPerBlock.toNat < 2 ^ 32) :
    BarriersSafe F C L mem := by
  intro sim hsim
  obtain ⟨mem', hruns⟩ := hsim.runs
  refine (synced_run hruns ⟨countP_started hexact mem', fun i w hw => ?_, ?_⟩).safe
  · obtain ⟨id, -, rfl⟩ := List.mem_map.1 (List.mem_of_getElem? hw)
    rfl
  · exact ⟨History.throughout_nil, History.throughout_nil⟩

/-- One block of two threads. -/
def twoThreads : Launch := launchOf ⟨1, 1, 1⟩ ⟨2, 1, 1⟩

/-- A memory with `bar.sync 0` and `ecall` at its start. -/
def barrierMemory : MemoryHierarchy :=
  (MemoryHierarchy.init 0).writeBytes 0 [0x0B, 0, 0, 0, 0x73, 0, 0, 0] 0

/-- Two threads that meet at a barrier. -/
theorem barriersSafe_twoThreads : ∃ sim,
    execute noFloat pairWarps 3 twoThreads barrierMemory = some (.ok sim) ∧
      syncs sim.trace 0 = 1 ∧ syncs sim.trace 1 = 1 ∧ releases sim.trace 0 = 1 ∧
        BarrierSafe twoThreads sim.trace := by
  have heval : ((execute noFloat pairWarps 3 twoThreads barrierMemory).bind Except.toOption).map
      (fun sim => (syncs sim.trace 0, syncs sim.trace 1, releases sim.trace 0)) =
        some (1, 1, 1) := by decide +kernel
  obtain ⟨sim, hsim, hcounts⟩ := Option.map_eq_some_iff.1 heval
  obtain ⟨r, hr, hok⟩ := Option.bind_eq_some_iff.1 hsim
  cases r with
  | error e => exact absurd hok (by simp [Except.toOption])
  | ok sim' =>
    obtain rfl := Option.some.inj hok
    obtain ⟨hzero, hrest⟩ := Prod.mk.inj hcounts
    obtain ⟨hone, hrelease⟩ := Prod.mk.inj hrest
    exact ⟨sim', hr, hzero, hone, hrelease, barriersSafe noFloat pairWarps twoThreads barrierMemory
      (by decide) sim' (execute_reached hr)⟩

end RiscvGpgpu.Bridge
