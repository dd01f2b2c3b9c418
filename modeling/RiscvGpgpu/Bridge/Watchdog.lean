import RiscvGpgpu.Bridge.Outcomes

/-!
# The watchdog

A step of a thread that has not halted takes one of its cycles, or halts it at the cycle limit, and
a release goes with threads that have come to a barrier. With a limit on the cycles there are so
many of these and no more, in whatever order, and both loops return (`execute_watchdog`).
-/

namespace RiscvGpgpu.Golden

variable {F : HostFloat} {cu cu' : BinaryUnit} {mem mem' : MemoryHierarchy}

/-- A step that is counted takes a cycle or halts the unit. -/
theorem BinaryUnit.step_cycles (hblocked : cu.blocked = false) (hhalted : cu.halted = false)
    (h : cu.step F mem = some (cu', mem')) : cu'.maxCycles = cu.maxCycles ∧
      (cu.timedOut = true ∧ cu' = { cu with halted := true } ∨
        cu.timedOut = false ∧ cu'.totalCycles = cu.totalCycles + 1) := by
  have hgo : ¬ (cu.halted || cu.blocked) = true := by
    rw [hhalted, hblocked]
    exact Bool.false_ne_true
  unfold step at h
  rw [if_neg hgo] at h
  split_ifs at h with htime
  · obtain ⟨rfl, rfl⟩ := Prod.mk.inj (Option.some.inj h)
    exact ⟨rfl, .inl ⟨htime, rfl⟩⟩
  · dsimp only at h
    split_ifs at h
    · obtain ⟨rfl, rfl⟩ := Prod.mk.inj (Option.some.inj h)
      exact ⟨rfl, .inr ⟨Bool.not_eq_true _ ▸ htime, rfl⟩⟩
    · obtain ⟨r, -, heq⟩ := Option.map_eq_some_iff.1 h
      obtain ⟨rfl, rfl⟩ := Prod.mk.inj heq
      exact ⟨rfl, .inr ⟨Bool.not_eq_true _ ▸ htime, rfl⟩⟩

end RiscvGpgpu.Golden

namespace RiscvGpgpu.Bridge

open Golden (MemoryHierarchy HostFloat BinaryUnit)

/-- What a worker has used up: two for a cycle, since it can end at a barrier that is released, and
one when it has halted. -/
def Worker.used (w : Worker) : ℕ :=
  2 * w.cu.totalCycles.toNat + if w.cu.halted then 1 else 0

/-- What all workers have used up. -/
def used : List Worker → ℕ
  | [] => 0
  | w :: ws => w.used + used ws

def blockedCount (ws : List Worker) : ℕ := ws.countP fun w => w.cu.blocked

section Budget

variable {ws : List Worker} {w v : Worker} {i : ℕ}

theorem used_set (hw : ws[i]? = some w) : used (ws.set i v) + w.used = used ws + v.used := by
  induction ws generalizing i with
  | nil => exact absurd hw (by simp)
  | cons u us ih =>
    cases i with
    | zero =>
      obtain rfl := Option.some.inj hw
      show v.used + used us + u.used = u.used + used us + v.used
      omega
    | succ i =>
      have hrest := ih (i := i) hw
      show u.used + used (us.set i v) + w.used = u.used + used us + v.used
      omega

theorem used_le {n : ℕ} (h : ∀ w ∈ ws, w.used ≤ n) : used ws ≤ ws.length * n := by
  induction ws with
  | nil => exact Nat.zero_le _
  | cons w ws ih =>
    have hfst := h w List.mem_cons_self
    have hrest := ih fun v hv => h v (List.mem_cons_of_mem _ hv)
    rw [List.length_cons, Nat.add_mul, Nat.one_mul]
    show w.used + used ws ≤ _
    omega

theorem used_map {f : Worker → Worker} (hf : ∀ w, (f w).used = w.used) :
    used (ws.map f) = used ws := by
  induction ws with
  | nil => rfl
  | cons w ws ih =>
    show (f w).used + used (ws.map f) = w.used + used ws
    rw [hf, ih]

end Budget

/-- What holds under a cycle limit: what has been done is paid for, and nobody runs past the
limit. -/
structure Within (limit n : ℕ) (s : Simulation) : Prop where
  length : s.workers.length = n
  cycles : ∀ w ∈ s.workers, w.cu.maxCycles.toNat = limit ∧ w.cu.totalCycles.toNat ≤ limit
  paid : s.work + blockedCount s.workers ≤ used s.workers

section Within

variable {F : HostFloat} {L : Launch} {limit n : ℕ} {s : Simulation}

theorem Within.work_le (h : Within limit n s) : s.work ≤ n * (2 * limit + 1) := by
  have hused : used s.workers ≤ s.workers.length * (2 * limit + 1) := used_le fun w hw => by
    have hcycles := (h.cycles w hw).2
    unfold Worker.used
    split_ifs <;> omega
  rw [h.length] at hused
  have hpaid := h.paid
  omega

theorem blockedCount_set {ws : List Worker} {w v : Worker} {i : ℕ} (hw : ws[i]? = some w)
    (hblocked : w.cu.blocked = false) :
    blockedCount (ws.set i v) = blockedCount ws + if v.cu.blocked then 1 else 0 := by
  obtain ⟨hi, hget⟩ := List.getElem?_eq_some_iff.1 hw
  unfold blockedCount
  rw [List.countP_set hi, hget, hblocked, if_neg Bool.false_ne_true, Nat.sub_zero]

/-- What a step costs. -/
theorem used_step {cu : BinaryUnit} {mem mem' : MemoryHierarchy} {w : Worker}
    (hlimit : 0 < limit) (hblocked : w.cu.blocked = false)
    (hcycles : w.cu.maxCycles.toNat = limit ∧ w.cu.totalCycles.toNat ≤ limit)
    (h : w.cu.step F mem = some (cu, mem')) :
    (cu.maxCycles.toNat = limit ∧ cu.totalCycles.toNat ≤ limit) ∧
      w.used + (if w.cu.halted then 0 else 1) + (if cu.blocked then 1 else 0) ≤
        ({ w with cu := cu } : Worker).used := by
  obtain ⟨hmax, htotal⟩ := hcycles
  cases hhalted : w.cu.halted with
  | true =>
    have hstay : w.cu.step F mem = some (w.cu, mem) := by
      unfold BinaryUnit.step
      rw [hhalted]
      rfl
    rw [hstay] at h
    obtain ⟨rfl, -⟩ := Prod.mk.inj (Option.some.inj h)
    rw [hblocked]
    exact ⟨⟨hmax, htotal⟩, le_rfl⟩
  | false =>
    obtain ⟨hsame, ⟨-, rfl⟩ | ⟨htime, hnext⟩⟩ := BinaryUnit.step_cycles hblocked hhalted h
    · refine ⟨⟨hmax, htotal⟩, ?_⟩
      unfold Worker.used
      dsimp only
      rw [hhalted, hblocked]
      exact le_rfl
    · have hlt : w.cu.totalCycles.toNat < limit := by
        by_contra hge
        have htimed : w.cu.timedOut = true := by
          refine decide_eq_true ⟨fun hzero => ?_, by omega⟩
          rw [hzero] at hmax
          exact absurd hmax.symm (Nat.ne_of_gt hlimit)
        exact Bool.false_ne_true (htime.symm.trans htimed)
      have hwidth := w.cu.maxCycles.isLt
      have hcycles : cu.totalCycles.toNat = w.cu.totalCycles.toNat + 1 := by
        have hone : (1 : BitVec 64).toNat = 1 := rfl
        rw [hnext, BitVec.toNat_add, hone]
        exact Nat.mod_eq_of_lt (by omega)
      refine ⟨⟨hsame ▸ hmax, by omega⟩, ?_⟩
      unfold Worker.used
      dsimp only
      rw [hhalted, hcycles, if_neg Bool.false_ne_true, if_neg Bool.false_ne_true]
      cases cu.blocked <;> simp <;> omega

theorem used_release (s : Simulation) (b : Golden.BlockId) (k : Word) :
    used (s.releaseBlock b k).workers = used s.workers := by
  refine used_map fun w => ?_
  unfold Worker.used
  split_ifs <;>
    rcases releaseBarrier_cases w.cu k with ⟨-, -, heq⟩ | ⟨-, heq⟩ <;> simp_all

/-- A release unblocks the worker whose barrier it is. -/
theorem blockedCount_release {i : ℕ} {w : Worker} (hw : s.workers[i]? = some w)
    (hactive : w.active = true) (hblocked : w.cu.blocked = true) :
    blockedCount (s.releaseBlock w.blockId w.cu.barrierId).workers < blockedCount s.workers := by
  unfold blockedCount
  show (s.workers.map _).countP _ < _
  rw [List.countP_map, List.countP_eq_length_filter (p := fun w : Worker => w.cu.blocked)]
  -- only workers that were blocked are blocked afterwards, and not the one that has asked
  have hsub : s.workers.countP ((fun w => w.cu.blocked) ∘ fun v =>
      if v.active && v.blockId == w.blockId then
        { v with cu := (v.cu.releaseBarrier w.cu.barrierId).2 } else v) =
      (s.workers.filter fun w => w.cu.blocked).countP ((fun w => w.cu.blocked) ∘ fun v =>
        if v.active && v.blockId == w.blockId then
          { v with cu := (v.cu.releaseBarrier w.cu.barrierId).2 } else v) := by
    rw [List.countP_filter]
    refine List.countP_congr fun v _ => ?_
    rw [Bool.and_eq_true, Function.comp_apply]
    refine ⟨fun hv => ⟨hv, ?_⟩, And.left⟩
    split_ifs at hv
    · rcases releaseBarrier_cases v.cu w.cu.barrierId with ⟨hstay, -, -⟩ | ⟨-, heq⟩
      · exact hstay
      · rwa [heq] at hv
    · exact hv
  rw [hsub, List.countP_lt_length_iff]
  refine ⟨w, List.mem_filter.2 ⟨List.mem_of_getElem? hw, hblocked⟩, ?_⟩
  rw [Function.comp_apply, hactive, beq_self_eq_true, if_pos (Bool.and_self true),
    releaseBarrier_blocked hblocked rfl]

theorem within_kept (hlimit : 0 < limit) : Kept F L (Within limit n) where
  step := by
    intro s s' i w h hw hactive hblocked hstep
    obtain ⟨cu, mem, hcu, rfl⟩ := stepWorker_some hw hstep
    obtain ⟨hcycles, hcost⟩ := used_step hlimit hblocked (h.cycles w (List.mem_of_getElem? hw)) hcu
    have hset := used_set (v := { w with cu := cu }) hw
    have hcount := blockedCount_set (v := { w with cu := cu }) hw hblocked
    have hpaid := h.paid
    refine ⟨(List.length_set).trans h.length, fun v hv => ?_, ?_⟩
    · rcases List.mem_or_eq_of_mem_set hv with hv | rfl
      · exact h.cycles v hv
      · exact hcycles
    · have hworks : Moment.works ⟨s.workers, .step i (w.cu.executes
          (L.withContext w.cudaThreadCtx s.mem)), s.workers.set i { w with cu := cu }⟩ =
            !w.cu.halted := by
        show (s.workers[i]?).any (fun w => !w.cu.halted) = _
        rw [hw, Option.any_some]
      rw [work_record]
      show s.work + (if Moment.works ⟨s.workers, _, _⟩ then 1 else 0) +
        blockedCount (s.workers.set i { w with cu := cu }) ≤
          used (s.workers.set i { w with cu := cu })
      have hstep : (if (!w.cu.halted) = true then 1 else 0) = if w.cu.halted then 0 else 1 := by
        cases w.cu.halted <;> rfl
      dsimp only at hcount
      rw [hworks, hcount, hstep]
      omega
  release := by
    intro s i w h hw hactive hblocked harrived
    have hpaid := h.paid
    have hlt := blockedCount_release hw hactive hblocked
    have hused := used_release s w.blockId w.cu.barrierId
    have hwork : (s.releaseBlock w.blockId w.cu.barrierId).work = s.work + 1 := work_record _
    refine ⟨(List.length_map _).trans h.length, fun v hv => ?_, by omega⟩
    obtain ⟨u, hu, rfl⟩ := List.mem_map.1 hv
    have hcycles := h.cycles u hu
    split_ifs
    · rcases releaseBarrier_cases u.cu w.cu.barrierId with ⟨-, -, heq⟩ | ⟨-, heq⟩ <;>
        · rw [heq]
          exact hcycles
    · exact hcycles
  retire := by
    intro s i w h hw hactive hhalted
    have hws := retire_workers hw
    have hset := used_set (v := { w with active := false }) hw
    have hpaid := h.paid
    obtain ⟨hi, hget⟩ := List.getElem?_eq_some_iff.1 hw
    have hcount : blockedCount (s.workers.set i { w with active := false }) =
        blockedCount s.workers := by
      unfold blockedCount
      rw [List.countP_set hi, hget]
      cases hblocked : w.cu.blocked with
      | false => simp
      | true =>
        have hpos : 0 < s.workers.countP fun w => w.cu.blocked :=
          List.countP_pos_iff.2 ⟨w, List.mem_of_getElem? hw, hblocked⟩
        exact Nat.sub_add_cancel hpos
    refine ⟨(List.length_modify _ _ _).trans h.length, fun v hv => ?_, ?_⟩
    · rw [hws] at hv
      rcases List.mem_or_eq_of_mem_set hv with hv | rfl
      · exact h.cycles v hv
      · exact h.cycles w (List.mem_of_getElem? hw)
    · rw [retire_work, hws, hcount]
      have hsame : ({ w with active := false } : Worker).used = w.used := rfl
      omega

theorem within_started (C : Config) (L : Launch) (mem : MemoryHierarchy) :
    Within C.maxSimCycles.toNat (threadIds C L).length (started C L mem) := by
  refine ⟨List.length_map _, fun w hw => ?_, ?_⟩
  · obtain ⟨id, -, rfl⟩ := List.mem_map.1 hw
    exact ⟨rfl, Nat.zero_le _⟩
  · have hnone : blockedCount (started C L mem).workers = 0 := by
      refine List.countP_eq_zero.2 fun w hw => ?_
      rw [(started_fresh C L mem w hw).2.2]
      exact Bool.false_ne_true
    rw [hnone]
    exact Nat.zero_le _

end Within

/-! ## All orders -/

/-- One step, release or retirement, of any worker that is ready for it. -/
inductive Micro (F : HostFloat) (L : Launch) (s : Simulation) : Simulation → Prop
  | step {i : ℕ} {w : Worker} {s' : Simulation} (hw : s.workers[i]? = some w)
      (hactive : w.active = true) (hblocked : w.cu.blocked = false)
      (hstep : s.stepWorker F L i = some s') : Micro F L s s'
  | release {i : ℕ} {w : Worker} (hw : s.workers[i]? = some w) (hactive : w.active = true)
      (hblocked : w.cu.blocked = true)
      (harrived : s.arrived w.blockId w.cu.barrierId = L.threadsPerBlock.toNat) :
      Micro F L s (s.releaseBlock w.blockId w.cu.barrierId)
  | retire {i : ℕ} {w : Worker} (hw : s.workers[i]? = some w) (hactive : w.active = true)
      (hhalted : w.cu.halted = true) : Micro F L s (s.retire i)

/-- What can be reached in any order. -/
abbrev Scheduled (F : HostFloat) (L : Launch) : Simulation → Simulation → Prop :=
  Relation.ReflTransGen (Micro F L)

section Orders

variable {F : HostFloat} {L : Launch} {P : Simulation → Prop} {s s' : Simulation}

/-- Both loops take one of the orders. -/
theorem scheduled_kept (F : HostFloat) (L : Launch) (s : Simulation) : Kept F L (Scheduled F L s)
    where
  step h hw hactive hblocked hstep := h.tail (.step hw hactive hblocked hstep)
  release h hw hactive hblocked harrived := h.tail (.release hw hactive hblocked harrived)
  retire h hw hactive hhalted := h.tail (.retire hw hactive hhalted)

/-- What a step, a release and a retirement keep holds in every order. -/
theorem Kept.scheduled (hP : Kept F L P) (h : Scheduled F L s s') (hs : P s) : P s' := by
  induction h with
  | refl => exact hs
  | tail _ hmicro ih =>
    cases hmicro with
    | step hw hactive hblocked hstep => exact hP.step ih hw hactive hblocked hstep
    | release hw hactive hblocked harrived => exact hP.release ih hw hactive hblocked harrived
    | retire hw hactive hhalted => exact hP.retire ih hw hactive hhalted

end Orders

/-- With a cycle limit a run returns, if no order of the steps comes to an undefined one. -/
theorem execute_watchdog (F : HostFloat) (C : Config) (L : Launch) (mem : MemoryHierarchy)
    (hwatch : C.maxSimCycles ≠ 0) {ws : List Worker} {mem' : MemoryHierarchy}
    (hmake : makeWorkers C L (threadIds C L) mem = some (ws, mem')) {turns : ℕ}
    (hturns : (threadIds C L).length * (2 * C.maxSimCycles.toNat + 1) < turns) :
    (∃ r, execute F C turns L mem = some r) ∨
      ∃ s, Scheduled F L (started C L mem') s ∧ ¬ CanStep F L s := by
  by_cases hdefined : ∀ s, Scheduled F L (started C L mem') s → CanStep F L s
  · left
    have hkept : Kept F L (Within C.maxSimCycles.toNat (threadIds C L).length) :=
      within_kept (Dim3.pos_of_ne hwatch)
    have hwithin : ∀ s, Scheduled F L (started C L mem') s →
        Within C.maxSimCycles.toNat (threadIds C L).length s :=
      fun s hs => hkept.scheduled hs (within_started C L mem')
    obtain ⟨o, hloop⟩ := loops_returns (scheduled_kept F L (started C L mem'))
      (fun s hs => (hwithin s hs).length) hdefined (fun s hs => (hwithin s hs).work_le) .refl hturns
    rw [execute_eq, hmake, Option.bind_some, hloop]
    exact ⟨_, rfl⟩
  · right
    by_contra hnone
    exact hdefined fun s hs => by_contra fun hstuck => hnone ⟨s, hs, hstuck⟩

/-! ### Two threads that spin for ever -/

/-- A memory with `j .` at its start. -/
def spinMemory : MemoryHierarchy := (MemoryHierarchy.init 0).writeBytes 0 [0x6F, 0, 0, 0] 0

/-- A unit at the start of a memory. -/
structure AtStart (block : Golden.BlockId) (cu : BinaryUnit) : Prop where
  pc : cu.pc = 0
  block : cu.blockId = block

/-- The word at the start of a memory. -/
def startWord (mem : MemoryHierarchy) (block : Golden.BlockId) : Word :=
  let bytes := mem.readBytes (BitVec.setWidth 64 (0 : Word)) 4 block
  Golden.wordOfBytes (bytes.getD 0 0) (bytes.getD 1 0) (bytes.getD 2 0) (bytes.getD 3 0)

theorem decode_spin :
    (BinaryUnit.decode 0x6F).1.op = .jal ∧ (BinaryUnit.decode 0x6F).1.imm = 0 := by
  decide

/-- A step of `j .` is defined and changes neither the place nor the memory. -/
theorem AtStart.step {block : Golden.BlockId} {cu : BinaryUnit} {mem : MemoryHierarchy}
    (h : AtStart block cu) (hword : startWord mem block = 0x6F) (F : HostFloat) :
    ∃ cu', cu.step F mem = some (cu', mem) ∧ AtStart block cu' := by
  have hfetch : cu.fetch mem = 0x6F := by
    rw [← hword, BinaryUnit.fetch, h.pc, h.block]
    rfl
  unfold BinaryUnit.step
  split_ifs
  · exact ⟨cu, rfl, h⟩
  · exact ⟨_, rfl, h.pc, h.block⟩
  · rw [hfetch]
    dsimp only
    rw [if_neg (by rw [decode_spin.1]; decide), Golden.executeRV32, decode_spin.1]
    refine ⟨_, rfl, ?_, h.block⟩
    show cu.pc + (BinaryUnit.decode 0x6F).1.imm = 0
    rw [h.pc, decode_spin.2]
    rfl

/-- Every thread is at the start of the memory. -/
def AllAtStart (mem : MemoryHierarchy) (s : Simulation) : Prop :=
  s.mem = mem ∧ ∀ w ∈ s.workers, AtStart 0 w.cu

theorem allAtStart_kept {mem : MemoryHierarchy} (hword : startWord mem 0 = 0x6F) (F : HostFloat) :
    Kept F twoThreads (AllAtStart mem) where
  step := by
    rintro s s' i w ⟨rfl, hall⟩ hw - - hstep
    obtain ⟨cu, mem', hcu, rfl⟩ := stepWorker_some hw hstep
    obtain ⟨cu', hcu', hat⟩ := (hall w (List.mem_of_getElem? hw)).step hword F
    obtain ⟨rfl, rfl⟩ := Prod.mk.inj (Option.some.inj (hcu.symm.trans hcu'))
    refine ⟨rfl, fun v hv => ?_⟩
    rcases List.mem_or_eq_of_mem_set hv with hv | rfl
    · exact hall v hv
    · exact hat
  release := by
    rintro s i w ⟨hmem, hall⟩ - - - -
    refine ⟨hmem, fun v hv => ?_⟩
    obtain ⟨u, hu, rfl⟩ := List.mem_map.1 hv
    have hat := hall u hu
    split_ifs
    · unfold BinaryUnit.releaseBarrier
      split_ifs
      · exact hat
      · exact ⟨hat.pc, hat.block⟩
    · exact hat
  retire := by
    rintro s i w ⟨hmem, hall⟩ hw - -
    refine ⟨hmem, fun v hv => ?_⟩
    rw [retire_workers hw] at hv
    rcases List.mem_or_eq_of_mem_set hv with hv | rfl
    · exact hall v hv
    · exact hall w (List.mem_of_getElem? hw)

/-- The threads are cut short. -/
theorem execute_watchdog_spin :
    ∃ r, execute noFloat pairWarps 4003 twoThreads spinMemory = some r := by
  have hmade : (makeWorkers pairWarps twoThreads (threadIds pairWarps twoThreads)
      spinMemory).any (fun r => decide (startWord r.2 0 = 0x6F)) = true := by decide +kernel
  obtain ⟨⟨ws, mem'⟩, hmake, hword⟩ := (Option.any_eq_true _ _).1 hmade
  have hkept := allAtStart_kept (of_decide_eq_true hword) noFloat
  have hblocks : (threadIds pairWarps twoThreads).all fun id =>
      decide ((worker pairWarps twoThreads id).cu.blockId = 0) := by decide +kernel
  have hstart : AllAtStart mem' (started pairWarps twoThreads mem') := by
    refine ⟨rfl, fun w hw => ?_⟩
    obtain ⟨id, hid, rfl⟩ := List.mem_map.1 hw
    exact ⟨rfl, of_decide_eq_true (List.all_eq_true.1 hblocks id hid)⟩
  have hturns : (threadIds pairWarps twoThreads).length *
      (2 * pairWarps.maxSimCycles.toNat + 1) < 4003 := by decide +kernel
  rcases execute_watchdog noFloat pairWarps twoThreads spinMemory (by decide) hmake hturns with
    hreturns | ⟨s, hs, hstuck⟩
  · exact hreturns
  · -- no order comes to an undefined step
    obtain ⟨hmem, hall⟩ := hkept.scheduled hs hstart
    refine absurd (fun i w hw _ _ => ?_) hstuck
    rw [stepWorker_eq hw]
    obtain ⟨cu, hcu, -⟩ := (hall w (List.mem_of_getElem? hw)).step (hmem ▸ of_decide_eq_true hword)
      noFloat
    have hcontext : twoThreads.withContext w.cudaThreadCtx s.mem = s.mem := rfl
    rw [hcontext, hcu]
    exact ⟨_, rfl⟩

end RiscvGpgpu.Bridge
