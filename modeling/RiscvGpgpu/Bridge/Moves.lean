import Mathlib.Logic.Relation
import RiscvGpgpu.Bridge.ScalarRounds
import RiscvGpgpu.Bridge.ThreadMapping

/-!
# The moves of the loops

Both loops do three things with the workers: a step of one that is not blocked, the release of a
block whose threads are all at one barrier, and the retirement of a worker that is complete.
-/

namespace RiscvGpgpu.Golden

section Unit

variable {F : HostFloat} {cu cu' : BinaryUnit} {mem mem' : MemoryHierarchy}

/-- The instruction is the thread's own end: a return to the sentinel, `ecall` or `ebreak`. -/
def BinaryUnit.ends (cu : BinaryUnit) (instr : RV32Instr) : Bool :=
  match instr.op with
  | .ecall | .ebreak => true
  | .jalr =>
    (Function.update cu.regs 0 0 instr.rs1 + instr.imm) &&& ~~~1 = cu.returnSentinel &&& ~~~1
  | _ => false

theorem executeRV32_halt {instr : RV32Instr} {nextPc : Word} {r : ExecResult}
    (h : executeRV32 F instr cu.pc nextPc cu.regs cu.fregs cu.returnSentinel mem cu.blockId =
      some r) : r.halt = cu.ends instr := by
  unfold executeRV32 at h
  unfold BinaryUnit.ends
  dsimp only at h
  split at h <;> rename_i hop <;>
    first
      | obtain ⟨_, -, rfl⟩ := Option.map_eq_some_iff.1 h
        simp only [hop]
      | obtain rfl := Option.some.inj h
        simp only [hop]

/-- What `step` does to a unit that is not blocked: the instruction it executes, if any, and the
unit after it. -/
inductive BinaryUnit.Steps (cu : BinaryUnit) : Option RV32Instr → BinaryUnit → Prop
  | halted (hhalted : cu.halted = true) : cu.Steps none cu
  | timeout (hhalted : cu.halted = false) (htime : cu.timedOut = true) :
      cu.Steps none { cu with halted := true }
  | barSync {instr : RV32Instr} {cu' : BinaryUnit} (hhalted : cu.halted = false)
      (htime : cu.timedOut = false) (hop : instr.op = .barSync) (hhalted' : cu'.halted = false)
      (hblocked' : cu'.blocked = true) : cu.Steps (some instr) cu'
  | executed {instr : RV32Instr} {cu' : BinaryUnit} (hhalted : cu.halted = false)
      (htime : cu.timedOut = false) (hop : instr.op ≠ .barSync)
      (hhalted' : cu'.halted = cu.ends instr) (hblocked' : cu'.blocked = false) :
      cu.Steps (some instr) cu'

theorem BinaryUnit.step_steps (hblocked : cu.blocked = false)
    (h : cu.step F mem = some (cu', mem')) : cu.Steps (cu.executes mem) cu' := by
  unfold step at h
  unfold executes
  cases hhalted : cu.halted with
  | true =>
    rw [hhalted, Bool.true_or, if_pos rfl] at h
    obtain ⟨rfl, rfl⟩ := Prod.mk.inj (Option.some.inj h)
    exact .halted hhalted
  | false =>
    have hgo : ¬ (false || cu.blocked) = true := by
      rw [hblocked]
      exact Bool.false_ne_true
    rw [hhalted, if_neg hgo] at h
    rw [hblocked, Bool.false_or, Bool.false_or]
    by_cases htime : cu.timedOut = true
    · rw [if_pos htime] at h ⊢
      obtain ⟨rfl, rfl⟩ := Prod.mk.inj (Option.some.inj h)
      exact .timeout hhalted htime
    · rw [if_neg htime] at h ⊢
      have htime : cu.timedOut = false := Bool.not_eq_true _ ▸ htime
      dsimp only at h
      split_ifs at h with hbar
      · obtain ⟨rfl, rfl⟩ := Prod.mk.inj (Option.some.inj h)
        exact .barSync hhalted htime hbar rfl rfl
      · obtain ⟨r, hr, heq⟩ := Option.map_eq_some_iff.1 h
        obtain ⟨rfl, rfl⟩ := Prod.mk.inj heq
        exact .executed hhalted htime hbar (executeRV32_halt hr) hblocked

/-- A unit that is halted is not blocked then. -/
theorem BinaryUnit.Steps.not_blocked {instr : Option RV32Instr} (h : cu.Steps instr cu')
    (hblocked : cu.blocked = false) (hhalted : cu'.halted = true) : cu'.blocked = false := by
  cases h with
  | halted => exact hblocked
  | timeout => exact hblocked
  | barSync _ _ _ hhalted' => exact absurd (hhalted'.symm.trans hhalted) Bool.false_ne_true
  | executed _ _ _ _ hblocked' => exact hblocked'

end Unit

end RiscvGpgpu.Golden

namespace RiscvGpgpu.Bridge

open Golden (HostFloat BinaryUnit RV32Instr)

/-! ## Moves and runs -/

/-- One thing that the loops do with the workers. -/
inductive Move (L : Launch) (s : Simulation) : Event → Simulation → Prop
  | step {i : ℕ} {w : Worker} {instr : Option RV32Instr} {cu : BinaryUnit} {s' : Simulation}
      (hw : s.workers[i]? = some w) (hactive : w.active = true) (hblocked : w.cu.blocked = false)
      (hcu : w.cu.Steps instr cu) (hworkers : s'.workers = s.workers.set i { w with cu := cu })
      (htrace : s'.trace = s.trace ++ [⟨s.workers, .step i instr, s'.workers⟩]) :
      Move L s (.step i instr) s'
  | release {i : ℕ} {w : Worker} (hw : s.workers[i]? = some w)
      (harrived : s.arrived w.blockId w.cu.barrierId = L.threadsPerBlock.toNat) :
      Move L s (.release w.blockId w.cu.barrierId) (s.releaseBlock w.blockId w.cu.barrierId)
  | retire {i : ℕ} {w : Worker} (hw : s.workers[i]? = some w) (hactive : w.active = true)
      (hhalted : w.cu.halted = true) : Move L s (.retire i) (s.retire i)

/-- What the loops do, one thing after the other. -/
abbrev Runs (L : Launch) : Simulation → Simulation → Prop :=
  Relation.ReflTransGen fun s s' => ∃ e, Move L s e s'

/-- What an event does to the worker in place `j`. -/
inductive Worker.Moves (j : ℕ) (w : Worker) : Event → Worker → Prop
  | other {e : Event} (hstep : ∀ instr, e ≠ .step j instr)
      (hrelease : ∀ id, e ≠ .release w.blockId id) (hretire : e ≠ .retire j) : w.Moves j e w
  | step {instr : Option RV32Instr} {cu : BinaryUnit} (hactive : w.active = true)
      (hblocked : w.cu.blocked = false) (hcu : w.cu.Steps instr cu) :
      w.Moves j (.step j instr) { w with cu := cu }
  | release {id : Word} : w.Moves j (.release w.blockId id)
      (if w.active then { w with cu := (w.cu.releaseBarrier id).2 } else w)
  | retire (hhalted : w.cu.halted = true) : w.Moves j (.retire j) { w with active := false }

section Moves

variable {F : HostFloat} {L : Launch} {s s' s'' : Simulation} {e : Event} {i j : ℕ} {w w' : Worker}

theorem Move.trace (h : Move L s e s') :
    s'.trace = s.trace ++ [⟨s.workers, e, s'.workers⟩] := by
  cases h with
  | step _ _ _ _ _ htrace => exact htrace
  | release => rfl
  | retire => rfl

theorem Move.length (h : Move L s e s') : s'.workers.length = s.workers.length := by
  cases h with
  | step _ _ _ _ hworkers _ => rw [hworkers, List.length_set]
  | release => exact List.length_map _
  | retire => exact List.length_modify _ _ _

/-- Every worker, before and after a move. -/
theorem Move.worker (h : Move L s e s') (hw : s.workers[j]? = some w) :
    ∃ w', s'.workers[j]? = some w' ∧ w.Moves j e w' := by
  cases h with
  | @step i v instr cu _ hv hactive hblocked hcu hworkers _ =>
    rw [hworkers]
    by_cases hij : i = j
    · subst hij
      obtain rfl := Option.some.inj (hv.symm.trans hw)
      refine ⟨{ v with cu := cu }, ?_, .step hactive hblocked hcu⟩
      rw [List.getElem?_set_self', hv]
      rfl
    · refine ⟨w, ?_, .other (fun _ heq => hij ?_) (fun _ heq => ?_) fun heq => ?_⟩
      · rw [List.getElem?_set_ne hij]
        exact hw
      · injection heq
      · injection heq
      · injection heq
  | @release i v hv _ =>
    have hmap : (s.releaseBlock v.blockId v.cu.barrierId).workers[j]? =
        some (if w.active && w.blockId == v.blockId then
          { w with cu := (w.cu.releaseBarrier v.cu.barrierId).2 } else w) := by
      show (s.workers.map _)[j]? = _
      rw [List.getElem?_map, hw]
      rfl
    refine ⟨_, hmap, ?_⟩
    by_cases hblock : w.blockId = v.blockId
    · rw [hblock, beq_self_eq_true, Bool.and_true, ← hblock]
      exact .release
    · rw [beq_eq_false_iff_ne.2 hblock, Bool.and_false, if_neg Bool.false_ne_true]
      refine .other (fun _ heq => ?_) (fun _ heq => hblock ?_) fun heq => ?_
      · injection heq
      · injection heq with heq
        exact heq.symm
      · injection heq
  | @retire i v hv _ hhalted =>
    have hmodify : (s.retire i).workers[j]? =
        some (if i = j then { w with active := false } else w) := by
      show (s.workers.modify i _)[j]? = _
      rw [List.getElem?_modify, hw]
      split_ifs <;> rfl
    refine ⟨_, hmodify, ?_⟩
    by_cases hij : i = j
    · subst hij
      obtain rfl := Option.some.inj (hv.symm.trans hw)
      rw [if_pos rfl]
      exact .retire hhalted
    · rw [if_neg hij]
      refine .other (fun _ heq => ?_) (fun _ heq => ?_) fun heq => hij ?_
      · injection heq
      · injection heq
      · injection heq

/-- A move leaves the thread of a worker, and the block that it is in. -/
theorem Worker.Moves.id (h : w.Moves j e w') : w'.id = w.id ∧ w'.blockId = w.blockId := by
  cases h with
  | other => exact ⟨rfl, rfl⟩
  | step => exact ⟨rfl, rfl⟩
  | release => split_ifs <;> exact ⟨rfl, rfl⟩
  | retire => exact ⟨rfl, rfl⟩

/-- No worker becomes active again. -/
theorem Worker.Moves.inactive (h : w.Moves j e w') (hw : w.active = false) :
    w'.active = false := by
  cases h with
  | other => exact hw
  | step => exact hw
  | release =>
    rw [hw, if_neg Bool.false_ne_true]
    exact hw
  | retire => rfl

/-- Every worker, before and after a run. -/
theorem Runs.worker (h : Runs L s s') (hw : s.workers[j]? = some w) :
    ∃ w', s'.workers[j]? = some w' ∧ w'.id = w.id ∧ w'.blockId = w.blockId ∧
      (w.active = false → w'.active = false) := by
  induction h with
  | refl => exact ⟨w, hw, rfl, rfl, id⟩
  | tail _ hmove ih =>
    obtain ⟨e, hmove⟩ := hmove
    obtain ⟨v, hv, hid, hblock, hactive⟩ := ih
    obtain ⟨w', hw', hmoves⟩ := hmove.worker hv
    obtain ⟨hid', hblock'⟩ := hmoves.id
    exact ⟨w', hw', hid'.trans hid, hblock'.trans hblock, fun h => hmoves.inactive (hactive h)⟩

theorem Runs.length (h : Runs L s s') : s'.workers.length = s.workers.length := by
  induction h with
  | refl => rfl
  | tail _ hmove ih =>
    obtain ⟨e, hmove⟩ := hmove
    exact hmove.length.trans ih

/-- The trace of a run is about the workers of the run. -/
theorem Runs.before_length (h : Runs L s s')
    (hs : ∀ m ∈ s.trace, m.before.length = s.workers.length) :
    ∀ m ∈ s'.trace, m.before.length = s'.workers.length := by
  induction h with
  | refl => exact hs
  | tail _ hmove ih =>
    obtain ⟨e, hmove⟩ := hmove
    intro m hm
    rw [hmove.trace, List.mem_append, List.mem_singleton] at hm
    rw [hmove.length]
    rcases hm with hm | rfl
    · exact ih m hm
    · rfl

/-- A worker that is not there counts as retired. -/
def Retired (s : Simulation) (i : ℕ) : Prop := ∀ w, s.workers[i]? = some w → w.active = false

theorem Retired.runs (hi : Retired s i) (h : Runs L s s') : Retired s' i := by
  intro w' hw'
  cases hw : s.workers[i]? with
  | none =>
    have hlen := h.length
    have hle := List.getElem?_eq_none_iff.1 hw
    have hlt := (List.getElem?_eq_some_iff.1 hw').1
    omega
  | some w =>
    obtain ⟨v, hv, -, -, hactive⟩ := h.worker hw
    obtain rfl := Option.some.inj (hv.symm.trans hw')
    exact hactive (hi w hw)

/-! ## The loops -/

theorem stepWorker_runs (hw : s.workers[i]? = some w) (hactive : w.active = true)
    (hblocked : w.cu.isBlocked = false) (h : s.stepWorker F L i = some s') :
    Runs L s s' ∧ ∃ instr cu, w.cu.Steps instr cu ∧ s'.workers[i]? = some { w with cu := cu } := by
  unfold Simulation.stepWorker at h
  obtain ⟨v, hv, h⟩ := Option.bind_eq_some_iff.1 h
  obtain rfl := Option.some.inj (hw.symm.trans hv)
  obtain ⟨⟨cu, mem'⟩, hstep, h⟩ := Option.bind_eq_some_iff.1 h
  obtain rfl := Option.some.inj h
  have hcu := BinaryUnit.step_steps hblocked hstep
  refine ⟨.single ⟨_, .step hw hactive hblocked hcu rfl rfl⟩, _, cu, hcu, ?_⟩
  show (s.workers.set i _)[i]? = _
  rw [List.getElem?_set_self', hw]
  rfl

theorem releaseIfComplete_runs (hw : s.workers[i]? = some w) :
    Runs L s (s.releaseIfComplete L w).2 := by
  unfold Simulation.releaseIfComplete
  split_ifs with harrived
  · exact .single ⟨_, .release hw harrived⟩
  · exact .refl

/-- A visit of the scalar loop. -/
theorem scalarVisit_runs {t t' : ScalarTurn} (h : scalarVisit F L t i = some t') :
    Runs L t.sim t'.sim := by
  unfold scalarVisit at h
  obtain ⟨w, hw, h⟩ := Option.bind_eq_some_iff.1 h
  split_ifs at h with hactive hblocked
  · rw [← Option.some.inj h]
  · rw [← Option.some.inj h]
  · obtain ⟨sim, hsim, h⟩ := Option.bind_eq_some_iff.1 h
    obtain ⟨v, hv, h⟩ := Option.bind_eq_some_iff.1 h
    rw [← Option.some.inj h]
    have hactive : w.active = true := by simpa using hactive
    have hblocked : w.cu.isBlocked = false := by simpa using hblocked
    obtain ⟨hruns, instr, cu, hcu, hw'⟩ := stepWorker_runs hw hactive hblocked hsim
    obtain rfl := Option.some.inj (hw'.symm.trans hv)
    refine hruns.trans ?_
    dsimp only
    by_cases hcomplete : cu.isComplete = true
    · have hfree : cu.isBlocked = false := hcu.not_blocked hblocked hcomplete
      rw [hfree, if_neg Bool.false_ne_true, if_pos hcomplete]
      exact .single ⟨_, .retire hv hactive hcomplete⟩
    · rw [if_neg hcomplete]
      split_ifs
      · exact releaseIfComplete_runs hv
      · exact .refl

theorem scalarScan_runs {U : ℕ} {is : List ℕ} {t t' : ScalarTurn}
    (h : scalarScan F L U is t = some t') : Runs L t.sim t'.sim := by
  induction is generalizing t with
  | nil => rw [← Option.some.inj h]
  | cons i is ih =>
    unfold scalarScan at h
    split_ifs at h
    · obtain ⟨u, hu, h⟩ := Option.bind_eq_some_iff.1 h
      exact (scalarVisit_runs hu).trans (ih h)
    · rw [← Option.some.inj h]

/-- A pass over some workers, from what it does with one. -/
theorem foldlM_runs {β : Type} {f : β → ℕ → Option β} (sim : β → Simulation)
    (hf : ∀ b i b', f b i = some b' → Runs L (sim b) (sim b')) {is : List ℕ} {b b' : β}
    (h : is.foldlM f b = some b') : Runs L (sim b) (sim b') := by
  induction is generalizing b with
  | nil => rw [← Option.some.inj h]
  | cons i is ih =>
    rw [List.foldlM_cons] at h
    obtain ⟨u, hu, h⟩ := Option.bind_eq_some_iff.1 h
    exact (hf b i u hu).trans (ih h)

theorem warpStep_runs {t t' : WarpTurn} (h : warpStep F L t i = some t') :
    Runs L t.sim t'.sim := by
  unfold warpStep at h
  obtain ⟨w, hw, h⟩ := Option.bind_eq_some_iff.1 h
  split_ifs at h with hgo
  · obtain ⟨sim, hsim, h⟩ := Option.bind_eq_some_iff.1 h
    rw [← Option.some.inj h]
    obtain ⟨hgo, hblocked⟩ := Bool.and_eq_true_iff.1 hgo
    exact (stepWorker_runs hw (Bool.and_eq_true_iff.1 hgo).1 (by simpa using hblocked) hsim).1
  · rw [← Option.some.inj h]

theorem warpRelease_runs {t t' : WarpTurn} (h : warpRelease L t i = some t') :
    Runs L t.sim t'.sim := by
  unfold warpRelease at h
  obtain ⟨w, hw, h⟩ := Option.bind_eq_some_iff.1 h
  split_ifs at h
  · rw [← Option.some.inj h]
  · rw [← Option.some.inj h]
    exact releaseIfComplete_runs hw

theorem warpRetire_runs {t t' : Simulation × Bool} (h : warpRetire t i = some t') :
    Runs L t.1 t'.1 := by
  unfold warpRetire at h
  obtain ⟨w, hw, h⟩ := Option.bind_eq_some_iff.1 h
  split_ifs at h with hactive hcomplete
  · rw [← Option.some.inj h]
  · rw [← Option.some.inj h]
    exact .single ⟨_, .retire hw (by simpa using hactive) hcomplete⟩
  · rw [← Option.some.inj h]

theorem warpGroupTurn_runs {t t' : WarpTurn} {wg wg' : WarpGroup}
    (h : warpGroupTurn F L t wg = some (t', wg')) : Runs L t.sim t'.sim := by
  unfold warpGroupTurn at h
  obtain ⟨t₁, h₁, h⟩ := Option.bind_eq_some_iff.1 h
  obtain ⟨t₂, h₂, h⟩ := Option.bind_eq_some_iff.1 h
  obtain ⟨t₃, h₃, h⟩ := Option.bind_eq_some_iff.1 h
  obtain ⟨rfl, -⟩ := Prod.mk.inj (Option.some.inj h)
  have hstep := foldlM_runs WarpTurn.sim (fun _ _ _ => warpStep_runs) h₁
  have hrelease := foldlM_runs WarpTurn.sim (fun _ _ _ => warpRelease_runs) h₂
  have hretire := foldlM_runs Prod.fst (fun _ _ _ => warpRetire_runs (L := L)) h₃
  exact (hstep.trans hrelease).trans hretire

theorem warpTurn_runs {wgs wgs' : List WarpGroup} {t t' : WarpTurn}
    (h : warpTurn F L wgs t = some (t', wgs')) : Runs L t.sim t'.sim := by
  induction wgs generalizing t wgs' with
  | nil => rw [← (Prod.mk.inj (Option.some.inj h)).1]
  | cons wg wgs ih =>
    unfold warpTurn at h
    split_ifs at h
    · obtain ⟨⟨u, vs⟩, hu, h⟩ := Option.bind_eq_some_iff.1 h
      obtain ⟨rfl, -⟩ := Prod.mk.inj (Option.some.inj h)
      exact ih hu
    · obtain ⟨⟨u, v⟩, hu, h⟩ := Option.bind_eq_some_iff.1 h
      obtain ⟨⟨x, vs⟩, hx, h⟩ := Option.bind_eq_some_iff.1 h
      obtain ⟨rfl, -⟩ := Prod.mk.inj (Option.some.inj h)
      exact (warpGroupTurn_runs hu).trans (ih hx)

end Moves

end RiscvGpgpu.Bridge
