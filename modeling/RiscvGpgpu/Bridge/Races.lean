import RiscvGpgpu.Bridge.Outcomes
import RiscvGpgpu.Bridge.WorkerThreads

/-!
# Races

The trace of a run says which cells its steps have gone to, and in which interval between barriers.
What either loop has done is a run of the workers as threads over one memory (`follows_kept`), with
the steps of the trace.
-/

namespace RiscvGpgpu.Bridge

open Golden (BlockId Cell MemoryHierarchy HostFloat BinaryUnit SameLayout)

/-! ## Accesses -/

/-- The cells of one step, and how often its block has been released before. -/
structure Access where
  thread : ℕ
  blockId : BlockId
  interval : ℕ
  accessed : List Cell
  written : List Cell

/-- The access of a moment, from the moments before it. -/
def Moment.access (W : BitVec 32) (before : List Moment) (m : Moment) : Option Access :=
  match m.event with
  | .step i instr => (m.before[i]?).map fun w =>
    ⟨i, w.blockId, releases before w.blockId, w.cu.accessed W instr, w.cu.written W instr⟩
  | .release _ _ => none
  | .retire _ => none

def accessesFrom (W : BitVec 32) : List Moment → List Moment → List Access
  | _, [] => []
  | before, m :: ms => (m.access W before).toList ++ accessesFrom W (before ++ [m]) ms

/-- The accesses of a trace, in order. -/
def accesses (W : BitVec 32) (ms : List Moment) : List Access := accessesFrom W [] ms

/-- A thread writes what another one accesses only in its own block and in another interval, the
hidden cells left out. -/
def NoRaces (hidden : List Cell) (as : List Access) : Prop :=
  ∀ a ∈ as, ∀ b ∈ as, a.thread ≠ b.thread →
    (∃ c ∈ a.written, c ∈ b.accessed ∧ c ∉ hidden) →
      a.blockId = b.blockId ∧ a.interval ≠ b.interval

instance (hidden : List Cell) (as : List Access) : Decidable (NoRaces hidden as) :=
  inferInstanceAs (Decidable (∀ a ∈ as, ∀ b ∈ as, a.thread ≠ b.thread →
    (∃ c ∈ a.written, c ∈ b.accessed ∧ c ∉ hidden) →
      a.blockId = b.blockId ∧ a.interval ≠ b.interval))

section Accesses

variable {W : BitVec 32} {ms before : List Moment} {m : Moment}

theorem accessesFrom_snoc :
    accessesFrom W before (ms ++ [m]) =
      accessesFrom W before ms ++ (m.access W (before ++ ms)).toList := by
  induction ms generalizing before with
  | nil =>
    rw [List.append_nil]
    exact List.append_nil _
  | cons m' ms ih =>
    rw [List.cons_append, accessesFrom, accessesFrom, ih, List.append_assoc, List.append_assoc,
      List.singleton_append]

theorem accesses_snoc : accesses W (ms ++ [m]) = accesses W ms ++ (m.access W ms).toList :=
  accessesFrom_snoc

end Accesses

/-! ## The loops as threads -/

def noContext : CudaThreadCtx := ⟨⟨0, 0, 0⟩, ⟨0, 0, 0⟩, ⟨0, 0, 0⟩, ⟨0, 0, 0⟩⟩

def blocksOf (ws : List Worker) (i : ℕ) : Option BlockId := (ws.map Worker.blockId)[i]?

def contextsOf (ws : List Worker) (i : ℕ) : CudaThreadCtx :=
  ((ws.map Worker.cudaThreadCtx)[i]?).getD noContext

/-- The workers of a simulation as threads. -/
def Simulation.threads (F : HostFloat) (L : Launch) (W : BitVec 32) (s₀ : Simulation) :
    Interleaving.Threads ℕ (Option BlockId) (Option BinaryUnit) Word MemoryHierarchy Cell
      (Option Golden.Byte) :=
  workerThreads F L W s₀.mem (blocksOf s₀.workers) (contextsOf s₀.workers)

/-- A simulation as a state of the threads. -/
def Simulation.state (s : Simulation) :
    Interleaving.State ℕ (Option BlockId) (Option BinaryUnit) MemoryHierarchy where
  threads i := (s.workers[i]?).map Worker.cu
  mem := s.mem
  released b := b.elim 0 (releases s.trace)

/-- Every step of the threads is one of the accesses. -/
def Logged (L : Launch) (W : BitVec 32) (s₀ : Simulation)
    (es : List (Interleaving.Event ℕ (Option BlockId) Cell)) (as : List Access) : Prop :=
  ∀ i p acc wr, Interleaving.Event.step i p acc wr ∈ es →
    ∃ a ∈ as, a.thread = i ∧ blocksOf s₀.workers i = some a.blockId ∧ a.interval = p ∧
      acc = visible L W s₀.mem a.accessed ∧ wr = visible L W s₀.mem a.written

/-- What a loop has done is a run of the threads. -/
structure Follows (F : HostFloat) (L : Launch) (W : BitVec 32) (s₀ s : Simulation) : Prop where
  start : s₀.mem.Windowed W
  runs : Runs L s₀ s
  contexts : s.workers.map Worker.cudaThreadCtx = s₀.workers.map Worker.cudaThreadCtx
  sane : Sane s
  run : ∃ es u, Interleaving.Run (s₀.threads F L W) s₀.state es u ∧
    Interleaving.Same (s₀.threads F L W) u s.state ∧ es.length = s.work ∧
      Logged L W s₀ es (accesses W s.trace)

section Follows

variable {F : HostFloat} {L : Launch} {W : BitVec 32} {s₀ s s' : Simulation} {i : ℕ} {w : Worker}

theorem Follows.same_start (h : Follows F L W s₀ s) :
    Interleaving.Same (s₀.threads F L W) s₀.state s₀.state :=
  .refl ⟨h.start, fun _ => rfl⟩

theorem Logged.raceFree {es : List (Interleaving.Event ℕ (Option BlockId) Cell)} {as : List Access}
    (h : Logged L W s₀ es as) (hfree : NoRaces (L.contextCells W s₀.mem) as) :
    Interleaving.RaceFree (s₀.threads F L W) es := by
  intro i p acc wr hi j q acc' wr' hj hne hrace
  obtain ⟨a, ha, rfl, hblock, rfl, -, rfl⟩ := h i p acc wr hi
  obtain ⟨b, hb, rfl, hblock', rfl, rfl, -⟩ := h j q acc' wr' hj
  obtain ⟨c, hc, hc'⟩ := hrace
  obtain ⟨hsame, hinterval⟩ := hfree a ha b hb hne ⟨c, hc.1, hc'.1, hc'.2⟩
  refine ⟨?_, hinterval⟩
  show blocksOf s₀.workers _ = blocksOf s₀.workers _
  rw [hblock, hblock', hsame]

theorem Logged.mono {es : List (Interleaving.Event ℕ (Option BlockId) Cell)}
    {as as' : List Access} (h : Logged L W s₀ es as) : Logged L W s₀ es (as ++ as') := by
  intro i p acc wr hi
  obtain ⟨a, ha, hrest⟩ := h i p acc wr hi
  exact ⟨a, List.mem_append_left _ ha, hrest⟩

/-! ### Steps -/

theorem Follows.block (h : Follows F L W s₀ s) (hw : s.workers[i]? = some w) :
    blocksOf s₀.workers i = some w.blockId := by
  unfold blocksOf
  rw [← h.runs.blockIds, List.getElem?_map, hw]
  rfl

theorem Follows.context (h : Follows F L W s₀ s) (hw : s.workers[i]? = some w) :
    contextsOf s₀.workers i = w.cudaThreadCtx := by
  unfold contextsOf
  rw [← h.contexts, List.getElem?_map, hw]
  rfl

theorem state_step {mem : MemoryHierarchy} {instr : Option Golden.RV32Instr} {cu : BinaryUnit}
    (hw : s.workers[i]? = some w) :
    ({ s with mem := mem }.record (.step i instr) (s.workers.set i { w with cu := cu })).state =
      s.state.stepped i (some cu) mem := by
  unfold Simulation.state Interleaving.State.stepped Simulation.record
  dsimp only
  congr 1
  · funext j
    by_cases hij : j = i
    · subst hij
      rw [List.getElem?_set_self', hw, Function.update_self]
      rfl
    · rw [List.getElem?_set_ne (Ne.symm hij), Function.update_of_ne hij]
  · funext b
    cases b with
    | none => rfl
    | some b =>
      show releases (s.trace ++ _) b = releases s.trace b
      rw [releases_snoc]
      rfl

theorem accesses_step {mem : MemoryHierarchy} {instr : Option Golden.RV32Instr} {ws : List Worker}
    (hw : s.workers[i]? = some w) :
    accesses W ({ s with mem := mem }.record (.step i instr) ws).trace = accesses W s.trace ++
      [⟨i, w.blockId, releases s.trace w.blockId, w.cu.accessed W instr,
        w.cu.written W instr⟩] := by
  have haccess : Moment.access W s.trace ⟨s.workers, .step i instr, ws⟩ =
      some ⟨i, w.blockId, releases s.trace w.blockId, w.cu.accessed W instr,
        w.cu.written W instr⟩ := by
    show (s.workers[i]?).map _ = _
    rw [hw]
    rfl
  show accesses W (s.trace ++ [_]) = _
  rw [accesses_snoc, haccess]
  rfl

/-- What a change leaves of a worker stays as it is in the list. -/
theorem map_set_same {γ : Type} {f : Worker → γ} {ws : List Worker} {v : Worker}
    (hw : ws[i]? = some w) (hv : f v = f w) : (ws.set i v).map f = ws.map f := by
  refine List.ext_getElem? fun j => ?_
  rw [List.getElem?_map, List.getElem?_map]
  by_cases hij : j = i
  · subst hij
    rw [List.getElem?_set_self', hw]
    exact congrArg some hv
  · rw [List.getElem?_set_ne (Ne.symm hij)]

/-- A step of a thread that has halted only puts its context into the memory. -/
theorem state_idle (h : SameLayout W s₀.mem s.mem) (hw : s.workers[i]? = some w)
    (ctx : CudaThreadCtx) :
    Interleaving.Same (s₀.threads F L W) s.state
      (s.state.stepped i (some w.cu) (L.withContext ctx s.mem)) := by
  refine ⟨?_, rfl, h, withContext_layout h, fun c => ?_⟩
  · have hthread : s.state.threads i = some w.cu := by
      show (s.workers[i]?).map Worker.cu = _
      rw [hw]
      rfl
    show s.state.threads = Function.update s.state.threads i (some w.cu)
    rw [← hthread, Function.update_eq_self]
  · show visibleByte L W s₀.mem s.mem c = visibleByte L W s₀.mem (L.withContext ctx s.mem) c
    unfold visibleByte
    split_ifs with hhidden
    · rfl
    · rw [withContext_frame h hhidden]

/-- A step of a worker is one of its thread, or changes nothing that can be seen. -/
theorem Follows.step (h : Follows F L W s₀ s) (hw : s.workers[i]? = some w)
    (hactive : w.active = true) (hblocked : w.cu.blocked = false)
    (hstep : s.stepWorker F L i = some s') : Follows F L W s₀ s' := by
  have hruns := (kept_runs F L s₀).step h.runs hw hactive hblocked hstep
  have hsane := (sane_kept F L).step h.sane hw hactive hblocked hstep
  have hctx := h.context hw
  obtain ⟨cu, mem, hcu, rfl⟩ := stepWorker_some hw hstep
  obtain ⟨es, u, hrun, hsame, hlen, hlogged⟩ := h.run
  have hthread : s.state.threads i = some w.cu := by
    show (s.workers[i]?).map Worker.cu = _
    rw [hw]
    rfl
  refine ⟨h.start, hruns, ?_, hsane, ?_⟩
  · show (s.workers.set i { w with cu := cu }).map Worker.cudaThreadCtx = _
    exact (map_set_same (v := { w with cu := cu }) hw rfl).trans h.contexts
  · rw [accesses_step hw, state_step hw]
    cases hhalted : w.cu.halted with
    | true =>
      have hstay : w.cu.step F (L.withContext w.cudaThreadCtx s.mem) =
          some (w.cu, L.withContext w.cudaThreadCtx s.mem) := by
        unfold BinaryUnit.step
        rw [hhalted]
        rfl
      rw [hstay] at hcu
      obtain ⟨rfl, rfl⟩ := Prod.mk.inj (Option.some.inj hcu)
      refine ⟨es, u, hrun, hsame.trans (state_idle hsame.right hw _), ?_, hlogged.mono⟩
      rw [hlen, work_record, if_neg]
      · rfl
      · show ¬ (s.workers[i]?).any (fun w => !w.cu.halted) = true
        rw [hw, Option.any_some, hhalted]
        exact Bool.false_ne_true
    | false =>
      have hmove : Interleaving.Move (s₀.threads F L W) s.state (s.state.event (s₀.threads F L W) i)
          (s.state.stepped i (some cu) mem) := by
        refine .step ⟨w.cu, hthread, hhalted, hblocked⟩ ?_
        rw [hthread]
        show (w.cu.step F (L.withContext (contextsOf s₀.workers i) s.mem)).map _ = _
        rw [hctx, hcu]
        rfl
      obtain ⟨u', hrun', hsame'⟩ := hrun.snoc_same hsame hmove
      refine ⟨_, u', hrun', hsame', ?_, ?_⟩
      · rw [List.length_append, hlen, work_record, if_pos]
        · rfl
        · show (s.workers[i]?).any (fun w => !w.cu.halted) = true
          rw [hw, Option.any_some, hhalted]
          rfl
      · intro j p acc wr hj
        rcases List.mem_append.1 hj with hj | hj
        · exact hlogged.mono j p acc wr hj
        · obtain ⟨rfl, rfl, rfl, rfl⟩ := Interleaving.Event.step.inj (List.mem_singleton.1 hj)
          have hblock := h.block hw
          refine ⟨_, List.mem_append_right _ List.mem_cons_self, rfl, hblock, ?_, ?_, ?_⟩
          · show releases s.trace w.blockId = s.state.released (blocksOf s₀.workers j)
            rw [hblock]
            rfl
          · show stepAccessed L W s₀.mem (contextsOf s₀.workers j) (s.state.threads j) s.mem = _
            rw [hthread, hctx]
            rfl
          · show stepWritten L W s₀.mem (contextsOf s₀.workers j) (s.state.threads j) s.mem = _
            rw [hthread, hctx]
            rfl

/-! ### Releases and retirements -/

theorem map_release {γ : Type} {f : Worker → γ} (hf : ∀ w cu, f { w with cu := cu } = f w)
    (b : BlockId) (k : Word) : (s.releaseBlock b k).workers.map f = s.workers.map f := by
  show (s.workers.map _).map f = _
  rw [List.map_map]
  refine List.map_congr_left fun w _ => ?_
  rw [Function.comp_apply]
  split_ifs
  · exact hf w _
  · rfl

/-- A release of a block whose workers are all at the barrier resumes its threads. -/
theorem state_release {b : BlockId} {k : Word} (hblocks : ∀ (j : ℕ) (v : Worker),
      s.workers[j]? = some v → blocksOf s₀.workers j = some v.blockId)
    (hall : ∀ v ∈ s.workers, v.blockId = b →
      v.active = true ∧ v.cu.blocked = true ∧ v.cu.barrierId = k) :
    (s.releaseBlock b k).state = s.state.resumed (s₀.threads F L W) (some b) := by
  unfold Simulation.state Interleaving.State.resumed
  dsimp only
  congr 1
  · funext j
    show ((s.releaseBlock b k).workers[j]?).map Worker.cu =
      if blocksOf s₀.workers j = some b then
        ((s.workers[j]?).map Worker.cu).map fun cu => { cu with blocked := false }
      else (s.workers[j]?).map Worker.cu
    rw [getElem?_release]
    cases hv : s.workers[j]? with
    | none =>
      split_ifs <;> rfl
    | some v =>
      rw [hblocks j v hv, Option.map_some, Option.map_some, Option.map_some]
      by_cases hb : v.blockId = b
      · obtain ⟨hactive, hblocked, hid⟩ := hall v (List.mem_of_getElem? hv) hb
        rw [hactive, hb, beq_self_eq_true, if_pos rfl, if_pos (Bool.and_self true),
          releaseBarrier_blocked hblocked hid]
        rfl
      · have hne : (v.blockId == b) = false := beq_eq_false_iff_ne.2 hb
        rw [hne, Bool.and_false, if_neg Bool.false_ne_true,
          if_neg fun heq => hb (Option.some.inj heq)]
  · funext b'
    cases b' with
    | none => rw [Function.update_of_ne (by simp)]; rfl
    | some b' =>
      show releases (s.trace ++ [⟨s.workers, .release b k, _⟩]) b' = _
      rw [releases_snoc]
      by_cases hb : b' = b
      · subst hb
        rw [Function.update_self]
        show _ + (if (b' == b') = true then 1 else 0) = _
        rw [beq_self_eq_true, if_pos rfl]
        rfl
      · rw [Function.update_of_ne fun heq => hb (Option.some.inj heq)]
        show _ + (if (b == b') = true then 1 else 0) = _
        rw [beq_eq_false_iff_ne.2 (Ne.symm hb), if_neg Bool.false_ne_true]
        rfl

theorem accesses_other {e : Event} {ws : List Worker} (he : ∀ i instr, e ≠ .step i instr) :
    accesses W (s.record e ws).trace = accesses W s.trace := by
  have hnone : Moment.access W s.trace ⟨s.workers, e, ws⟩ = none := by
    cases e with
    | step i instr => exact absurd rfl (he i instr)
    | release => rfl
    | retire => rfl
  show accesses W (s.trace ++ [_]) = _
  rw [accesses_snoc, hnone]
  exact List.append_nil _

/-- A release is one of the block, since all its threads are at the barrier. -/
theorem Follows.release (h : Follows F L W s₀ s)
    (hsizes : ∀ b, s₀.workers.countP (fun w => w.blockId == b) ≤ L.threadsPerBlock.toNat)
    (hw : s.workers[i]? = some w) (hactive : w.active = true) (hblocked : w.cu.blocked = true)
    (harrived : s.arrived w.blockId w.cu.barrierId = L.threadsPerBlock.toNat) :
    Follows F L W s₀ (s.releaseBlock w.blockId w.cu.barrierId) := by
  have hruns := (kept_runs F L s₀).release h.runs hw hactive hblocked harrived
  have hsane := (sane_kept F L).release h.sane hw hactive hblocked harrived
  obtain ⟨es, u, hrun, hsame, hlen, hlogged⟩ := h.run
  have hsize : s.workers.countP (fun v => v.blockId == w.blockId) ≤ L.threadsPerBlock.toNat := by
    rw [countP_blockId, h.runs.blockIds, ← countP_blockId]
    exact hsizes w.blockId
  obtain ⟨-, hall⟩ := all_arrived hsize harrived
  refine ⟨h.start, hruns, (map_release (fun _ _ => rfl) _ _).trans h.contexts, hsane, ?_⟩
  rw [state_release (fun j v hv => h.block hv) hall]
  have hmove : Interleaving.Move (s₀.threads F L W) s.state (.release (some w.blockId))
      (s.state.resumed (s₀.threads F L W) (some w.blockId)) := by
    refine .release ⟨⟨i, h.block hw⟩, w.cu.barrierId, fun j hj => ?_⟩
    cases hv : s.workers[j]? with
    | none =>
      have hblock : blocksOf s₀.workers j = some w.blockId := hj
      unfold blocksOf at hblock
      rw [← h.runs.blockIds, List.getElem?_map, hv] at hblock
      exact absurd hblock (by simp)
    | some v =>
      have hb : v.blockId = w.blockId := Option.some.inj ((h.block hv).symm.trans hj)
      obtain ⟨-, hstop, hid⟩ := hall v (List.mem_of_getElem? hv) hb
      refine ⟨v.cu, ?_, hstop, hid⟩
      show (s.workers[j]?).map Worker.cu = _
      rw [hv]
      rfl
  obtain ⟨u', hrun', hsame'⟩ := hrun.snoc_same hsame hmove
  refine ⟨_, u', hrun', hsame', ?_, ?_⟩
  · have hwork : (s.releaseBlock w.blockId w.cu.barrierId).work = s.work + 1 := work_record _
    rw [List.length_append, hlen, hwork]
    rfl
  · show Logged L W s₀ _ (accesses W (s.record _ _).trace)
    rw [accesses_other (by simp)]
    intro j p acc wr hj
    rcases List.mem_append.1 hj with hj | hj
    · exact hlogged j p acc wr hj
    · exact absurd (List.mem_singleton.1 hj) (by simp)

theorem Follows.retire (h : Follows F L W s₀ s) (hw : s.workers[i]? = some w)
    (hactive : w.active = true) (hhalted : w.cu.halted = true) :
    Follows F L W s₀ (s.retire i) := by
  have hruns := (kept_runs F L s₀).retire h.runs hw hactive hhalted
  have hsane := (sane_kept F L).retire h.sane hw hactive hhalted
  have hws := retire_workers hw
  obtain ⟨es, u, hrun, hsame, hlen, hlogged⟩ := h.run
  have hstate : (s.retire i).state = s.state := by
    unfold Simulation.state
    congr 1
    · funext j
      rw [hws, ← List.getElem?_map, ← List.getElem?_map,
        map_set_same (v := { w with active := false }) hw rfl]
    · funext b
      cases b with
      | none => rfl
      | some b =>
        show releases (s.trace ++ _) b = releases s.trace b
        rw [releases_snoc]
        rfl
  refine ⟨h.start, hruns, ?_, hsane, es, u, hrun, ?_, ?_, ?_⟩
  · rw [hws]
    exact (map_set_same (v := { w with active := false }) hw rfl).trans h.contexts
  · rw [hstate]
    exact hsame
  · rw [retire_work]
    exact hlen
  · show Logged L W s₀ _ (accesses W (s.record _ _).trace)
    rw [accesses_other (by simp)]
    exact hlogged

/-- Whatever the loops do is a run of the threads. -/
theorem follows_kept
    (hsizes : ∀ b, s₀.workers.countP (fun w => w.blockId == b) ≤ L.threadsPerBlock.toNat) :
    Kept F L (Follows F L W s₀) where
  step h hw hactive hblocked hstep := h.step hw hactive hblocked hstep
  release h hw hactive hblocked harrived := h.release hsizes hw hactive hblocked harrived
  retire h hw hactive hhalted := h.retire hw hactive hhalted

theorem follows_start (hmem : s₀.mem.Windowed W) (htrace : s₀.trace = []) (hsane : Sane s₀) :
    Follows F L W s₀ s₀ := by
  refine ⟨hmem, .refl, rfl, hsane, [], s₀.state, .nil _, .refl ⟨hmem, fun _ => rfl⟩, ?_,
    fun _ _ _ _ h => absurd h List.not_mem_nil⟩
  unfold Simulation.work
  rw [htrace]
  rfl

end Follows

end RiscvGpgpu.Bridge
