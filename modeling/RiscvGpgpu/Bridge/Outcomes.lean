import RiscvGpgpu.Bridge.Barriers
import RiscvGpgpu.Bridge.LoopReturns

/-!
# The outcomes of a run

`execute` makes the same workers for both loops, and runs one of these from there (`execute_eq`).
Whichever it is, it reports a deadlock only where there is one, and reports no success before all
threads have halted (`execute_report`).
-/

namespace RiscvGpgpu.Bridge

open Golden (BlockId MemoryHierarchy HostFloat BinaryUnit)

section Loops

variable (F : HostFloat) (C : Config) (L : Launch)

/-- The workers of the lockstep loop, by warp group. -/
def Launch.warpWorkers : List (List Worker) :=
  (List.range (L.totalWarps (L.warpSize C)).toNat).map fun i =>
    (L.warpThreads (L.warpSize C) (BitVec.ofNat 32 i)).map (worker C L)

/-- The loop that `warpSize` asks for. -/
def loops (turns : ℕ) (s : Simulation) : Option (Bool × Simulation) :=
  if 1 < L.warpSize C then warpLoop F L turns (startGroups (L.warpWorkers C)) s
  else scalarLoop F L (activeUnits C s.workers.length) turns 0 s

/-- The error of a deadlock. -/
def deadlockError : String :=
  if 1 < L.warpSize C then "Barrier deadlock in warp scheduler"
  else "Barrier deadlock in scalar scheduler"

end Loops

section Start

variable {F : HostFloat} {C : Config} {L : Launch} {turns : ℕ} {mem mem' : MemoryHierarchy}

theorem makeWorkers_append_eq (ids ids' : List (BitVec 32)) (mem : MemoryHierarchy) :
    makeWorkers C L (ids ++ ids') mem = (makeWorkers C L ids mem).bind fun r =>
      (makeWorkers C L ids' r.2).map fun r' => (r.1 ++ r'.1, r'.2) := by
  induction ids generalizing mem with
  | nil =>
    show makeWorkers C L ids' mem = (makeWorkers C L ids' mem).map fun r' => ([] ++ r'.1, r'.2)
    exact (Option.map_id' ..).symm
  | cons id ids ih =>
    rw [List.cons_append, makeWorkers, makeWorkers]
    cases makeWorker C L id mem with
    | none => rfl
    | some r =>
      show (makeWorkers C L (ids ++ ids') r.2).bind _ = ((makeWorkers C L ids r.2).bind _).bind _
      rw [ih]
      cases makeWorkers C L ids r.2 with
      | none => rfl
      | some r' =>
        show ((makeWorkers C L ids' r'.2).map _).bind _ = (makeWorkers C L ids' r'.2).map _
        cases makeWorkers C L ids' r'.2 <;> rfl

/-- The groups are pieces of the list of all workers. -/
theorem makeWarpGroupsFrom_map (warpSize : BitVec 32) (is : List ℕ) (mem : MemoryHierarchy) :
    makeWarpGroupsFrom C L warpSize is mem =
      (makeWorkers C L (is.flatMap fun i => L.warpThreads warpSize (BitVec.ofNat 32 i)) mem).map
        fun r => (is.map fun i => (L.warpThreads warpSize (BitVec.ofNat 32 i)).map (worker C L),
          r.2) := by
  induction is generalizing mem with
  | nil => rfl
  | cons i is ih =>
    rw [makeWarpGroupsFrom, List.flatMap_cons, makeWorkers_append_eq]
    cases hone : makeWorkers C L (L.warpThreads warpSize (BitVec.ofNat 32 i)) mem with
    | none => rfl
    | some r =>
      show (makeWarpGroupsFrom C L warpSize is r.2).bind _ = (Option.map _ _).map _
      rw [ih]
      have hws : r.1 = (L.warpThreads warpSize (BitVec.ofNat 32 i)).map (worker C L) :=
        makeWorkers_workers hone
      cases makeWorkers C L (is.flatMap fun i => L.warpThreads warpSize (BitVec.ofNat 32 i))
        r.2 with
      | none => rfl
      | some r' =>
        show some (r.1 :: _, r'.2) = _
        rw [hws]
        rfl

theorem flatten_warpWorkers (hsize : 1 < L.warpSize C) :
    (L.warpWorkers C).flatten = (threadIds C L).map (worker C L) := by
  unfold threadIds Launch.warpWorkers
  rw [if_pos hsize, List.map_flatMap]
  rfl

/-- What the bridge does from the set-up on. -/
theorem execute_eq (F : HostFloat) (C : Config) (turns : ℕ) (L : Launch) (mem : MemoryHierarchy) :
    execute F C turns L mem = (makeWorkers C L (threadIds C L) mem).bind fun r =>
      (loops F C L turns (started C L r.2)).map fun o =>
        if o.1 then .ok o.2 else .error (deadlockError C L) := by
  unfold execute loops deadlockError
  by_cases hsize : 1 < L.warpSize C
  · have hids : threadIds C L = (List.range (L.totalWarps (L.warpSize C)).toNat).flatMap fun i =>
        L.warpThreads (L.warpSize C) (BitVec.ofNat 32 i) := if_pos hsize
    simp only [if_pos hsize]
    unfold makeWarpGroups
    rw [makeWarpGroupsFrom_map, ← hids]
    cases makeWorkers C L (threadIds C L) mem with
    | none => rfl
    | some r =>
      show (warpLoop F L turns (startGroups (L.warpWorkers C))
        ⟨r.2, (L.warpWorkers C).flatten, []⟩).bind
        _ = (warpLoop F L turns _ _).map _
      rw [flatten_warpWorkers hsize]
      exact Option.map_eq_bind.symm
  · have hids : threadIds C L = (List.range L.totalThreads.toNat).map (BitVec.ofNat 32) :=
      if_neg hsize
    simp only [if_neg hsize]
    unfold makeScalarWorkers
    rw [← hids]
    cases hmake : makeWorkers C L (threadIds C L) mem with
    | none => rfl
    | some r =>
      obtain ⟨ws, mem'⟩ := r
      obtain rfl := makeWorkers_workers hmake
      exact Option.map_eq_bind.symm

/-! ## The workers at the start -/

/-- The threads of a block are cut into warps without an overflow, or into none. -/
theorem warpsPerBlock_mul {warpSize : BitVec 32} (hpos : 0 < warpSize.toNat)
    (hwarps : L.warpsPerBlock warpSize ≠ 0) :
    (L.warpsPerBlock warpSize).toNat * warpSize.toNat <
      L.threadsPerBlock.toNat + warpSize.toNat := by
  have hthreads : 0 < L.threadsPerBlock.toNat := Dim3.pos_of_ne (count_ne_zero L.block)
  have hnat : (L.warpsPerBlock warpSize).toNat =
      (L.threadsPerBlock + warpSize - 1).toNat / warpSize.toNat := BitVec.toNat_udiv
  have hle := Nat.div_mul_le_self (L.threadsPerBlock + warpSize - 1).toNat warpSize.toNat
  have hcount := Dim3.pos_of_ne hwarps
  rw [hnat] at hcount ⊢
  have hsize := (Nat.div_pos_iff.1 hcount).2
  have hone : (1 : BitVec 32).toNat = 1 := rfl
  have hT := L.threadsPerBlock.isLt
  have hs := warpSize.isLt
  rw [BitVec.toNat_sub, BitVec.toNat_add, hone] at hsize hle ⊢
  omega

/-- No warp is empty. -/
theorem warpThreads_ne_nil {warpSize : BitVec 32} (hpos : 0 < warpSize.toNat) {i : ℕ}
    (hi : i < (L.totalWarps warpSize).toNat) :
    L.warpThreads warpSize (BitVec.ofNat 32 i) ≠ [] := by
  have hwarps : L.warpsPerBlock warpSize ≠ 0 := by
    intro hzero
    have htotal : L.totalWarps warpSize = 0 := by
      unfold Launch.totalWarps
      rw [hzero]
      exact BitVec.mul_zero
    rw [htotal] at hi
    exact absurd hi (Nat.not_lt_zero i)
  have hbound := warpsPerBlock_mul hpos hwarps
  have hcount := Dim3.pos_of_ne hwarps
  have hlocal : BitVec.ofNat 32 i % L.warpsPerBlock warpSize * warpSize + BitVec.ofNat 32 0 <
      L.threadsPerBlock := by
    have hT := L.threadsPerBlock.isLt
    have hmod := Nat.mod_lt (BitVec.ofNat 32 i).toNat hcount
    have hstep : ((BitVec.ofNat 32 i).toNat % (L.warpsPerBlock warpSize).toNat + 1) *
        warpSize.toNat ≤ (L.warpsPerBlock warpSize).toNat * warpSize.toNat :=
      Nat.mul_le_mul_right _ hmod
    rw [Nat.add_mul, Nat.one_mul] at hstep
    rw [BitVec.add_zero, BitVec.lt_def, BitVec.toNat_mul, BitVec.toNat_umod,
      Nat.mod_eq_of_lt (by omega)]
    omega
  unfold Launch.warpThreads
  dsimp only
  obtain ⟨n, hn⟩ : ∃ n, warpSize.toNat = n + 1 := ⟨warpSize.toNat - 1, by omega⟩
  rw [hn, List.range_succ_eq_map, List.takeWhile_cons, if_pos (decide_eq_true hlocal)]
  exact List.cons_ne_nil _ _

theorem started_fresh (C : Config) (L : Launch) (mem : MemoryHierarchy) :
    ∀ w ∈ (started C L mem).workers, w.Fresh := by
  intro w hw
  obtain ⟨id, -, rfl⟩ := List.mem_map.1 hw
  exact ⟨rfl, rfl, rfl⟩

theorem inLockstep_started (hsize : 1 < L.warpSize C) (mem : MemoryHierarchy) :
    InLockstep (started C L mem) (startGroups (L.warpWorkers C)) := by
  have hfresh := started_fresh C L mem
  unfold started at hfresh ⊢
  rw [← flatten_warpWorkers hsize] at hfresh ⊢
  refine .start hfresh fun g hg hnil => ?_
  obtain ⟨i, hi, rfl⟩ := List.mem_map.1 hg
  exact warpThreads_ne_nil (lt_trans Nat.zero_lt_one hsize) (List.mem_range.1 hi)
    (List.map_eq_nil_iff.1 hnil)

theorem settled_started (mem : MemoryHierarchy) : Settled L (started C L mem) := by
  have hfresh := started_fresh C L mem
  refine ⟨(fresh_sane hfresh).2, fun i w hw _ hblocked => ?_⟩
  obtain ⟨-, -, hfree⟩ := hfresh w (List.mem_of_getElem? hw)
  exact absurd (hfree.symm.trans hblocked) Bool.false_ne_true

theorem activeUnits_pos (n : ℕ) : 0 < activeUnits C n :=
  Nat.lt_of_lt_of_le Nat.zero_lt_one (Nat.le_max_left _ _)

/-- Both loops end where no thread can go on. -/
theorem loops_stopped {finished : Bool} {s : Simulation}
    (h : loops F C L turns (started C L mem) = some (finished, s)) : Stopped L finished s := by
  unfold loops at h
  split_ifs at h with hsize
  · exact warpLoop_stopped (inLockstep_started hsize mem) h
  · exact scalarLoop_stopped (activeUnits_pos _) (fresh_sane (started_fresh C L mem)).1
      (settled_started mem) h

/-- What a step, a release and a retirement keep holds at the end if it holds at the start. -/
theorem Kept.loops {P : Simulation → Prop} (hP : Kept F L P) {finished : Bool} {s s' : Simulation}
    (h : P s) (hloop : loops F C L turns s = some (finished, s')) : P s' := by
  unfold Bridge.loops at hloop
  split_ifs at hloop
  · exact hP.warpLoop h hloop
  · exact hP.scalarLoop h hloop

/-- Where the number of steps and releases is bounded, both loops return. -/
theorem loops_returns {P : Simulation → Prop} {B : ℕ} (hP : Kept F L P)
    (hlen : ∀ s, P s → s.workers.length = (threadIds C L).length)
    (hcan : ∀ s, P s → CanStep F L s) (hbound : ∀ s, P s → s.work ≤ B)
    (h : P (started C L mem)) (hturns : B < turns) :
    ∃ r, loops F C L turns (started C L mem) = some r := by
  have hwork : (started C L mem).work = 0 := rfl
  unfold loops
  split_ifs with hsize
  · refine warpLoop_returns hP hlen hcan hbound h (inLockstep_started hsize mem).retired ?_
      (by omega)
    intro is his i hi
    rw [startGroups_threads] at his
    have hlt := (groupPlaces_workers his).1 i hi
    rwa [Nat.zero_add, flatten_warpWorkers hsize, List.length_map] at hlt
  · exact scalarLoop_returns hP hlen hcan hbound h (settled_started mem) (by omega)

end Start

/-! ## Deadlocks -/

/-- Threads are left, and each of them waits at a barrier that a thread of its block cannot come
to. -/
structure Deadlocked (s : Simulation) : Prop where
  left : ∃ w ∈ s.workers, w.cu.halted = false
  waits : ∀ w ∈ s.workers, w.cu.halted = false → w.cu.blocked = true ∧
    ∃ v ∈ s.workers, v.blockId = w.blockId ∧
      (v.cu.halted = true ∨ v.cu.blocked = true ∧ v.cu.barrierId ≠ w.cu.barrierId)

section Reports

variable {F : HostFloat} {C : Config} {L : Launch} {turns : ℕ} {mem : MemoryHierarchy}
  {s s' : Simulation} {b : BlockId} {k : Word} {finished : Bool}

theorem kept_runs (F : HostFloat) (L : Launch) (s₀ : Simulation) : Kept F L (Runs L s₀) where
  step h hw hactive hblocked hstep := by
    obtain ⟨hruns, -⟩ := stepWorker_runs hw hactive hblocked hstep
    exact h.trans hruns
  release h hw _ _ harrived := h.tail ⟨_, .release hw harrived⟩
  retire h hw hactive hhalted := h.tail ⟨_, .retire hw hactive hhalted⟩

theorem Runs.blockIds (h : Runs L s s') :
    s'.workers.map Worker.blockId = s.workers.map Worker.blockId := by
  induction h with
  | refl => rfl
  | tail _ hmove ih =>
    obtain ⟨e, hmove⟩ := hmove
    exact hmove.blockIds.trans ih

/-- A block has as many workers as the release counts. -/
theorem countP_block (hexact : L.totalBlocks.toNat * L.threadsPerBlock.toNat < 2 ^ 32)
    (h : Runs L (started C L mem) s) (hb : ∃ w ∈ s.workers, w.blockId = b) :
    s.workers.countP (fun w => w.blockId == b) = L.threadsPerBlock.toNat := by
  have hids : b ∈ (started C L mem).workers.map Worker.blockId := by
    obtain ⟨w, hw, rfl⟩ := hb
    rw [← h.blockIds]
    exact List.mem_map_of_mem hw
  rw [countP_blockId, h.blockIds, ← countP_blockId]
  obtain ⟨w, hw, hblock⟩ := List.mem_map.1 hids
  obtain ⟨id, hid, rfl⟩ := List.mem_map.1 hw
  have hpos : 0 < L.threadsPerBlock.toNat := Dim3.pos_of_ne (count_ne_zero L.block)
  have hdiv : ∀ t < L.totalBlocks.toNat * L.threadsPerBlock.toNat,
      (BitVec.ofNat 32 t / L.threadsPerBlock).toNat = t / L.threadsPerBlock.toNat := by
    intro t ht
    rw [BitVec.toNat_udiv, BitVec.toNat_ofNat, Nat.mod_eq_of_lt (by omega)]
  rcases threadIds_eq (C := C) hexact with heq | hnil
  · show ((threadIds C L).map (worker C L)).countP _ = _
    rw [heq] at hid ⊢
    obtain ⟨t, ht, rfl⟩ := List.mem_map.1 hid
    have ht := List.mem_range.1 ht
    have hq : b.toNat < L.totalBlocks.toNat := by
      rw [← hblock]
      show (BitVec.ofNat 32 t / L.threadsPerBlock).toNat < _
      rw [hdiv t ht]
      exact Nat.div_lt_of_lt_mul (by rwa [Nat.mul_comm])
    rw [List.countP_map, List.countP_map]
    refine Eq.trans (List.countP_congr fun u hu => ?_) (Grid.countP_div_eq hpos hq)
    show (BitVec.ofNat 32 u / L.threadsPerBlock == b) = true ↔ _
    rw [beq_iff_eq, decide_eq_true_iff, ← hdiv u (List.mem_range.1 hu)]
    exact ⟨congrArg _, BitVec.eq_of_toNat_eq⟩
  · rw [hnil] at hid
    exact absurd hid List.not_mem_nil

/-- If a block has not all come to a barrier, one of its threads is elsewhere. -/
theorem exists_missing (hsize : s.workers.countP (fun w => w.blockId == b) =
    L.threadsPerBlock.toNat) (harrived : s.arrived b k ≠ L.threadsPerBlock.toNat) :
    ∃ v ∈ s.workers, v.blockId = b ∧
      ¬ (v.active = true ∧ v.cu.blocked = true ∧ v.cu.barrierId = k) := by
  by_contra hall
  refine harrived (Eq.trans ?_ hsize)
  unfold Simulation.arrived
  refine List.countP_congr fun w hw => ?_
  simp only [Bool.and_eq_true, beq_iff_eq, BinaryUnit.isBlocked]
  refine ⟨fun h => h.1.1.2, fun hblock => ?_⟩
  obtain ⟨hactive, hblocked, hid⟩ : w.active = true ∧ w.cu.blocked = true ∧ w.cu.barrierId = k := by
    by_contra hnot
    exact hall ⟨w, hw, hblock, hnot⟩
  exact ⟨⟨⟨hactive, hblock⟩, hblocked⟩, hid⟩

/-- The flag of a loop says whether its end is a deadlock. -/
theorem loops_report (hexact : L.totalBlocks.toNat * L.threadsPerBlock.toNat < 2 ^ 32)
    (h : loops F C L turns (started C L mem) = some (finished, s)) :
    (finished = true ∧ ∀ w ∈ s.workers, w.cu.halted = true) ∨
    (finished = false ∧ Deadlocked s) := by
  have hstopped := loops_stopped h
  have hruns := (kept_runs F L (started C L mem)).loops .refl h
  cases finished with
  | true =>
    refine .inl ⟨rfl, fun w hw => ?_⟩
    obtain ⟨i, hi⟩ := List.getElem?_of_mem hw
    exact hstopped.finished.1 rfl i w hi
  | false =>
    refine .inr ⟨rfl, ?_, fun w hw hgoes => ?_⟩
    · by_contra hnone
      refine Bool.false_ne_true (hstopped.finished.2 fun i w hw => ?_)
      by_contra hgoes
      exact hnone ⟨w, List.mem_of_getElem? hw, Bool.not_eq_true _ ▸ hgoes⟩
    · obtain ⟨i, hi⟩ := List.getElem?_of_mem hw
      obtain ⟨-, hblocked, harrived⟩ := (hstopped.stuck i w hi).resolve_left
        (by rw [hgoes]; exact Bool.false_ne_true)
      obtain ⟨v, hv, hblock, hmissing⟩ := exists_missing (countP_block hexact hruns ⟨w, hw, rfl⟩)
        harrived
      refine ⟨hblocked, v, hv, hblock, ?_⟩
      obtain ⟨j, hj⟩ := List.getElem?_of_mem hv
      refine (hstopped.stuck j v hj).imp_right fun hstuck => ⟨hstuck.2.1, fun hid => ?_⟩
      exact hmissing ⟨hstuck.1, hstuck.2.1, hid⟩

/-- A run returns ok only where every thread has halted, and an error only at a deadlock. -/
theorem execute_report (F : HostFloat) (C : Config) (turns : ℕ) (L : Launch)
    (mem : MemoryHierarchy) (hexact : L.totalBlocks.toNat * L.threadsPerBlock.toNat < 2 ^ 32)
    {r : Except String Simulation} (h : execute F C turns L mem = some r) :
    ∃ ws mem' sim, makeWorkers C L (threadIds C L) mem = some (ws, mem') ∧
      (loops F C L turns (started C L mem') = some (true, sim) ∧ r = .ok sim ∧
          (∀ w ∈ sim.workers, w.cu.halted = true) ∨
        loops F C L turns (started C L mem') = some (false, sim) ∧
          r = .error (deadlockError C L) ∧ Deadlocked sim) := by
  rw [execute_eq] at h
  obtain ⟨⟨ws, mem'⟩, hmake, h⟩ := Option.bind_eq_some_iff.1 h
  obtain ⟨⟨finished, sim⟩, hloop, rfl⟩ := Option.map_eq_some_iff.1 h
  refine ⟨ws, mem', sim, hmake, ?_⟩
  rcases loops_report hexact hloop with ⟨rfl, hall⟩ | ⟨rfl, hdead⟩
  · exact .inl ⟨hloop, rfl, hall⟩
  · exact .inr ⟨hloop, rfl, hdead⟩

end Reports

/-- A memory with a kernel in which thread 0 leaves its block behind at a barrier: `lw a0, 0(gp)`,
`beqz a0, 8`, `bar.sync 0` and `ecall`. -/
def leaveMemory : MemoryHierarchy :=
  (MemoryHierarchy.init 0).writeBytes 0
    [0x03, 0xA5, 0x01, 0, 0x63, 0x04, 0x05, 0, 0x0B, 0, 0, 0, 0x73, 0, 0, 0] 0

/-- A deadlock that is reported. -/
theorem execute_report_leave : ∃ mem' sim,
    execute noFloat pairWarps 5 twoThreads leaveMemory =
      some (.error "Barrier deadlock in warp scheduler") ∧
      loops noFloat pairWarps twoThreads 5 (started pairWarps twoThreads mem') = some (false, sim) ∧
      Deadlocked sim := by
  have heval : (execute noFloat pairWarps 5 twoThreads leaveMemory).map (fun r => r.isOk) =
      some false := by decide +kernel
  obtain ⟨r, hrun, hr⟩ := Option.map_eq_some_iff.1 heval
  obtain ⟨ws, mem', sim, -, ⟨-, rfl, -⟩ | ⟨hloops, rfl, hdead⟩⟩ :=
    execute_report noFloat pairWarps 5 twoThreads leaveMemory (by decide) hrun
  · exact absurd hr (by simp [Except.isOk, Except.toBool])
  · exact ⟨mem', sim, hrun, hloops, hdead⟩

end RiscvGpgpu.Bridge
