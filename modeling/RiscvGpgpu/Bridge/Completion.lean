import RiscvGpgpu.Bridge.ContextSlots
import RiscvGpgpu.Bridge.DeviceBuffers
import RiscvGpgpu.Bridge.Moves

/-!
# Completion

When the loops end without a deadlock every worker is retired, so that its unit is halted. A unit
halts at its thread's own end, or where the watchdog of `step` cuts the thread short: the loops do
not tell the two apart (`completionTruthful_iff`).
-/

namespace RiscvGpgpu.Bridge

open Golden (Byte MemoryHierarchy HostFloat BinaryUnit RV32Instr)
open Host (DeviceMemory KernelExecution)

/-! ## The ends of threads -/

/-- The thread executes a return to the sentinel address, `ecall` or `ebreak`. -/
def Moment.endsThread (m : Moment) (i : ℕ) : Bool :=
  match m.event, m.before[i]? with
  | .step j (some instr), some w => j == i && w.cu.ends instr
  | _, _ => false

/-- The thread is stepped at the cycle limit. -/
def Moment.cutsThread (m : Moment) (i : ℕ) : Bool :=
  match m.event, m.before[i]? with
  | .step j _, some w => j == i && !w.cu.halted && w.cu.timedOut
  | _, _ => false

/-- The thread has run to its own end. -/
def Ended (ms : List Moment) (i : ℕ) : Bool := ms.any fun m => m.endsThread i

def CutShort (ms : List Moment) (i : ℕ) : Bool := ms.any fun m => m.cutsThread i

/-- Every thread of the grid is one of the workers, and each of them has run to its own end. -/
structure Truthful (L : Launch) (sim : Simulation) : Prop where
  launched : ∀ ctaid tid : Dim3, ctaid.Inside L.grid → tid.Inside L.block →
    ∃ w ∈ sim.workers, w.id.2 = (ctaid, tid)
  ended : ∀ i < sim.workers.length, Ended sim.trace i = true

/-- A run that returns true has run every thread to its end. -/
def CompletionTruthful (F : HostFloat) (C : Config) (files : String → Option (List Byte))
    (execution : KernelExecution) (req : Request) (turns : ℕ) (d : DeviceMemory) : Prop :=
  ∀ d', runOnHardware F C files execution req turns d = some (.ok (), d') →
    ∃ L mem sim, setUp C files execution req d = some (.ok (L, mem)) ∧
      execute F C turns L mem = some (.ok sim) ∧ Truthful L sim

/-- The ids for which workers are made. -/
def threadIds (C : Config) (L : Launch) : List (BitVec 32) :=
  if 1 < L.warpSize C then
    (List.range (L.totalWarps (L.warpSize C)).toNat).flatMap fun i =>
      L.warpThreads (L.warpSize C) (BitVec.ofNat 32 i)
  else (List.range L.totalThreads.toNat).map (BitVec.ofNat 32)

/-- The ids reach every thread of the grid. -/
def Covered (C : Config) (L : Launch) : Prop :=
  ∀ ctaid tid : Dim3, ctaid.Inside L.grid → tid.Inside L.block →
    ∃ id ∈ threadIds C L, (worker C L id).id.2 = (ctaid, tid)

/-- The ids reach every thread if no count overflows. -/
theorem covered_of_fits {C : Config} {L : Launch} (h : Fits L.grid L.block)
    (hwarp : 1 < L.warpSize C → L.block.volume + (L.warpSize C).toNat ≤ 2 ^ 32) :
    Covered C L := by
  have hids : threadIds C L =
      (List.range (L.grid.volume * L.block.volume)).map (BitVec.ofNat 32) := by
    unfold threadIds
    split_ifs with hsize
    · exact flatMap_warpThreads h (lt_trans Nat.zero_lt_one hsize) (hwarp hsize)
    · rw [totalThreads_toNat h]
  intro ctaid tid hc ht
  obtain ⟨t, hlt, heq⟩ := h.exists_threadPlace hc ht
  refine ⟨BitVec.ofNat 32 t, ?_, ?_⟩
  · rw [hids]
    exact List.mem_map_of_mem (List.mem_range.2 hlt)
  · rw [worker_id h]
    exact heq

/-! ## What the trace tells of a worker -/

/-- A unit is halted if its thread has ended or has been cut short, and it is not retired before. -/
structure Told (ms : List Moment) (i : ℕ) (w : Worker) : Prop where
  halted : w.cu.halted = (Ended ms i || CutShort ms i)
  once : (Ended ms i && CutShort ms i) = false
  retired : w.active = false → w.cu.halted = true

section Told

variable {L : Launch} {s s' : Simulation} {e : Event} {ms : List Moment} {m : Moment} {i : ℕ}
  {w w' : Worker}

theorem ended_snoc : Ended (ms ++ [m]) i = (Ended ms i || m.endsThread i) := by
  unfold Ended
  rw [List.any_append, List.any_cons, List.any_nil, Bool.or_false]

theorem cutShort_snoc : CutShort (ms ++ [m]) i = (CutShort ms i || m.cutsThread i) := by
  unfold CutShort
  rw [List.any_append, List.any_cons, List.any_nil, Bool.or_false]

/-- Moments in which a thread is not stepped. -/
theorem notEnd_of_ne (h : ∀ instr, m.event ≠ .step i instr) :
    m.endsThread i = false ∧ m.cutsThread i = false := by
  unfold Moment.endsThread Moment.cutsThread
  obtain ⟨before, event, after⟩ := m
  cases event with
  | step j instr =>
    have hne : (j == i) = false := beq_eq_false_iff_ne.2 fun hj => h instr (by rw [hj])
    cases instr <;> cases before[i]? <;> simp [hne]
  | release => exact ⟨rfl, rfl⟩
  | retire => exact ⟨rfl, rfl⟩

theorem endsThread_step {ws ws' : List Worker} (hw : ws[i]? = some w) (instr : RV32Instr) :
    Moment.endsThread ⟨ws, .step i (some instr), ws'⟩ i = w.cu.ends instr := by
  unfold Moment.endsThread
  simp [hw]

theorem cutsThread_step {ws ws' : List Worker} (hw : ws[i]? = some w) (instr : Option RV32Instr) :
    Moment.cutsThread ⟨ws, .step i instr, ws'⟩ i = (!w.cu.halted && w.cu.timedOut) := by
  unfold Moment.cutsThread
  cases instr <;> simp [hw]

/-- No thread is cut short that has no worker. -/
theorem cutsThread_of_length_le (h : m.before.length ≤ i) : m.cutsThread i = false := by
  unfold Moment.cutsThread
  rw [List.getElem?_eq_none h]
  cases m.event <;> rfl

theorem Told.snoc_same (h : Told ms i w) (hm : m.endsThread i = false ∧ m.cutsThread i = false)
    (hhalted : w'.cu.halted = w.cu.halted) (hretired : w'.active = false → w'.cu.halted = true) :
    Told (ms ++ [m]) i w' := by
  obtain ⟨hend, hcut⟩ := hm
  refine ⟨?_, ?_, hretired⟩
  · rw [ended_snoc, cutShort_snoc, hend, hcut, Bool.or_false, Bool.or_false, hhalted, h.halted]
  · rw [ended_snoc, cutShort_snoc, hend, hcut, Bool.or_false, Bool.or_false, h.once]

/-- What one move tells of a worker. -/
theorem Told.move (h : Told ms i w) {ws ws' : List Worker} (hw : ws[i]? = some w)
    (hmoves : w.Moves i e w') : Told (ms ++ [⟨ws, e, ws'⟩]) i w' := by
  cases hmoves with
  | other hstep => exact h.snoc_same (notEnd_of_ne hstep) rfl h.retired
  | release =>
    refine h.snoc_same (notEnd_of_ne fun _ heq => ?_) ?_ ?_
    · injection heq
    · unfold BinaryUnit.releaseBarrier
      split_ifs <;> rfl
    · intro hactive
      split_ifs at hactive ⊢ with hw'
      · exact absurd (hw'.symm.trans hactive) (by decide)
      · exact h.retired hactive
  | retire hhalted =>
    refine h.snoc_same (notEnd_of_ne fun _ heq => ?_) rfl fun _ => hhalted
    injection heq
  | @step instr cu hactive _ hcu =>
    have hretired : w.active = false → cu.halted = true := fun hfalse =>
      absurd (hactive.symm.trans hfalse) (by decide)
    have hnot : w.cu.halted = false → Ended ms i = false ∧ CutShort ms i = false := fun hrun =>
      Bool.or_eq_false_iff.1 (h.halted.symm.trans hrun)
    cases hcu with
    | halted hhalted =>
      refine h.snoc_same ⟨?_, ?_⟩ rfl h.retired
      · unfold Moment.endsThread
        cases ws[i]? <;> rfl
      · rw [cutsThread_step hw, hhalted]
        rfl
    | timeout hhalted htime =>
      obtain ⟨hend, hcut⟩ := hnot hhalted
      have hnone : Moment.endsThread ⟨ws, .step i none, ws'⟩ i = false := by
        unfold Moment.endsThread
        cases ws[i]? <;> rfl
      refine ⟨?_, ?_, hretired⟩
      · rw [ended_snoc, cutShort_snoc, hend, hnone, hcut, cutsThread_step hw, hhalted, htime]
        rfl
      · rw [ended_snoc, cutShort_snoc, hend, hnone]
        rfl
    | barSync hhalted htime hop hhalted' =>
      refine h.snoc_same ⟨?_, ?_⟩ (hhalted'.trans hhalted.symm) hretired
      · rw [endsThread_step hw]
        unfold BinaryUnit.ends
        rw [hop]
      · rw [cutsThread_step hw, htime, Bool.and_false]
    | @executed instr _ hhalted htime _ hhalted' =>
      obtain ⟨hend, hcut⟩ := hnot hhalted
      have hin : Moment.cutsThread ⟨ws, .step i (some instr), ws'⟩ i = false := by
        rw [cutsThread_step hw, htime, Bool.and_false]
      refine ⟨?_, ?_, hretired⟩
      · rw [ended_snoc, cutShort_snoc, hend, hin, hcut, endsThread_step hw, Bool.false_or,
          Bool.or_false, Bool.or_false]
        exact hhalted'
      · rw [cutShort_snoc, hcut, hin, Bool.or_false, Bool.and_false]

/-- What a whole run tells. -/
theorem told_run (h : Runs L s s') (hs : ∀ i w, s.workers[i]? = some w → Told s.trace i w) :
    ∀ i w, s'.workers[i]? = some w → Told s'.trace i w := by
  induction h with
  | refl => exact hs
  | @tail u v _ hmove ih =>
    obtain ⟨e, hmove⟩ := hmove
    intro i w' hw'
    have hlen := hmove.length
    have hi : i < u.workers.length := hlen ▸ (List.getElem?_eq_some_iff.1 hw').1
    have hw := List.getElem?_eq_getElem hi
    obtain ⟨x, hx, hmoves⟩ := hmove.worker hw
    obtain rfl := Option.some.inj (hx.symm.trans hw')
    rw [hmove.trace]
    exact (ih i _ hw).move hw hmoves

end Told

/-! ## The ends of the loops -/

section Loops

variable {F : HostFloat} {L : Launch} {U : ℕ}

/-- A turn that has come to an active worker knows it. -/
theorem scalarScan_anyActive {is : List ℕ} {t t' : ScalarTurn}
    (h : scalarScan F L U is t = some t') (hactive : t.anyActive = true) : t'.anyActive = true := by
  induction is generalizing t with
  | nil => rwa [← Option.some.inj h]
  | cons i is ih =>
    unfold scalarScan at h
    split_ifs at h
    · obtain ⟨u, hu, h⟩ := Option.bind_eq_some_iff.1 h
      refine ih h ?_
      unfold scalarVisit at hu
      obtain ⟨w, -, hu⟩ := Option.bind_eq_some_iff.1 hu
      split_ifs at hu
      · rwa [← Option.some.inj hu]
      · rw [← Option.some.inj hu]
      · obtain ⟨sim, -, hu⟩ := Option.bind_eq_some_iff.1 hu
        obtain ⟨v, -, hu⟩ := Option.bind_eq_some_iff.1 hu
        rw [← Option.some.inj hu]
    · rwa [← Option.some.inj h]

theorem scalarVisit_idle {i : ℕ} {t t' : ScalarTurn} (h : scalarVisit F L t i = some t')
    (hidle : t'.anyActive = false) : t' = t ∧ Retired t.sim i := by
  unfold scalarVisit at h
  obtain ⟨w, hw, h⟩ := Option.bind_eq_some_iff.1 h
  split_ifs at h with hactive
  · refine ⟨(Option.some.inj h).symm, fun v hv => ?_⟩
    obtain rfl := Option.some.inj (hw.symm.trans hv)
    simpa using hactive
  · rw [← Option.some.inj h] at hidle
    exact absurd hidle.symm Bool.false_ne_true
  · obtain ⟨sim, -, h⟩ := Option.bind_eq_some_iff.1 h
    obtain ⟨v, -, h⟩ := Option.bind_eq_some_iff.1 h
    rw [← Option.some.inj h] at hidle
    exact absurd hidle.symm Bool.false_ne_true

/-- A scan that comes to no active worker has come to all places. -/
theorem scalarScan_idle {is : List ℕ} {t t' : ScalarTurn} (h : scalarScan F L U is t = some t')
    (hroom : t.selected < U) (hidle : t'.anyActive = false) :
    t' = t ∧ ∀ i ∈ is, Retired t.sim i := by
  induction is generalizing t with
  | nil => exact ⟨(Option.some.inj h).symm, fun i hi => absurd hi List.not_mem_nil⟩
  | cons i is ih =>
    unfold scalarScan at h
    rw [if_pos hroom] at h
    obtain ⟨u, hu, hrest⟩ := Option.bind_eq_some_iff.1 h
    have hu' : u.anyActive = false := by
      rw [← Bool.not_eq_true]
      intro hactive
      exact Bool.false_ne_true (hidle.symm.trans (scalarScan_anyActive hrest hactive))
    obtain ⟨hsame, hi⟩ := scalarVisit_idle hu hu'
    rw [hsame] at hrest
    obtain ⟨rfl, his⟩ := ih hrest hroom
    refine ⟨rfl, fun j hj => ?_⟩
    rcases List.mem_cons.1 hj with rfl | hj
    · exact hi
    · exact his j hj

theorem retired_of_length_le {s : Simulation} {i : ℕ} (h : s.workers.length ≤ i) :
    Retired s i := fun w hw => by
  rw [List.getElem?_eq_none h] at hw
  exact absurd hw (by simp)

theorem scalarTurn_idle {cursor : ℕ} {s : Simulation} {t : ScalarTurn} (hU : 0 < U)
    (h : scalarTurn F L U cursor s = some t) (hidle : t.anyActive = false) :
    t.sim = s ∧ ∀ i, Retired s i := by
  obtain ⟨rfl, hall⟩ := scalarScan_idle h hU hidle
  refine ⟨rfl, fun i => ?_⟩
  rcases Nat.lt_or_ge i s.workers.length with hi | hi
  · obtain ⟨d, hd, heq⟩ := exists_place cursor hi
    exact hall i (List.mem_map.2 ⟨d, List.mem_range.2 hd, heq⟩)
  · exact retired_of_length_le hi

/-- The scalar loop ends with all workers retired, or reports a deadlock. -/
theorem scalarLoop_retired {turns cursor : ℕ} {s s' : Simulation} (hU : 0 < U)
    (h : scalarLoop F L U turns cursor s = some (true, s')) :
    Runs L s s' ∧ ∀ i, Retired s' i := by
  induction turns generalizing cursor s with
  | zero => exact absurd h (by simp [scalarLoop])
  | succ turns ih =>
    rw [scalarLoop] at h
    obtain ⟨t, ht, h⟩ := Option.bind_eq_some_iff.1 h
    dsimp only at h
    cases hactive : t.anyActive with
    | false =>
      rw [hactive, if_pos Bool.not_false] at h
      obtain ⟨-, rfl⟩ := Prod.mk.inj (Option.some.inj h)
      obtain ⟨hsame, hretired⟩ := scalarTurn_idle hU ht hactive
      rw [hsame]
      exact ⟨.refl, hretired⟩
    | true =>
      rw [hactive, Bool.not_true, if_neg Bool.false_ne_true] at h
      cases hprogress : t.madeProgress with
      | false =>
        rw [hprogress, if_pos Bool.not_false] at h
        exact absurd (Prod.mk.inj (Option.some.inj h)).1 Bool.false_ne_true
      | true =>
        rw [hprogress, Bool.not_true, if_neg Bool.false_ne_true] at h
        obtain ⟨hruns, hretired⟩ := ih h
        exact ⟨(scalarScan_runs ht).trans hruns, hretired⟩

/-- The threads of groups that are not active are retired. -/
def GroupsRetired (s : Simulation) (wgs : List WarpGroup) : Prop :=
  ∀ wg ∈ wgs, wg.active = false → ∀ i ∈ wg.threads, Retired s i

theorem foldlM_warpRetire (L : Launch) {is : List ℕ} {t t' : Simulation × Bool}
    (h : is.foldlM warpRetire t = some t') (hdone : t'.2 = true) :
    t.2 = true ∧ ∀ i ∈ is, Retired t'.1 i := by
  induction is generalizing t with
  | nil =>
    obtain rfl := Option.some.inj h
    exact ⟨hdone, fun i hi => absurd hi List.not_mem_nil⟩
  | cons i is ih =>
    rw [List.foldlM_cons] at h
    obtain ⟨u, hu, h⟩ := Option.bind_eq_some_iff.1 h
    obtain ⟨hu', his⟩ := ih h
    have hruns : Runs L u.1 t'.1 := foldlM_runs Prod.fst (fun _ _ _ => warpRetire_runs) h
    suffices hone : t.2 = true ∧ Retired u.1 i by
      refine ⟨hone.1, fun j hj => ?_⟩
      rcases List.mem_cons.1 hj with rfl | hj
      · exact hone.2.runs hruns
      · exact his j hj
    unfold warpRetire at hu
    obtain ⟨w, hw, hu⟩ := Option.bind_eq_some_iff.1 hu
    split_ifs at hu with hactive
    · obtain rfl := Option.some.inj hu
      refine ⟨hu', fun v hv => ?_⟩
      obtain rfl := Option.some.inj (hw.symm.trans hv)
      simpa using hactive
    · obtain rfl := Option.some.inj hu
      refine ⟨hu', fun v hv => ?_⟩
      have hv : (t.1.workers.modify i fun w => { w with active := false })[i]? = some v := hv
      rw [List.getElem?_modify, hw] at hv
      obtain rfl := Option.some.inj hv
      dsimp only
      rw [if_pos rfl]
    · obtain rfl := Option.some.inj hu
      exact absurd hu' Bool.false_ne_true

theorem warpGroupTurn_retired {t t' : WarpTurn} {wg wg' : WarpGroup}
    (h : warpGroupTurn F L t wg = some (t', wg')) :
    wg'.threads = wg.threads ∧ (wg'.active = false → ∀ i ∈ wg'.threads, Retired t'.sim i) := by
  unfold warpGroupTurn at h
  obtain ⟨t₁, -, h⟩ := Option.bind_eq_some_iff.1 h
  obtain ⟨t₂, -, h⟩ := Option.bind_eq_some_iff.1 h
  obtain ⟨t₃, h₃, h⟩ := Option.bind_eq_some_iff.1 h
  obtain ⟨rfl, rfl⟩ := Prod.mk.inj (Option.some.inj h)
  refine ⟨rfl, fun hdone => ?_⟩
  exact (foldlM_warpRetire L h₃ (by simpa using hdone)).2

theorem warpTurn_retired {wgs wgs' : List WarpGroup} {t t' : WarpTurn}
    (h : warpTurn F L wgs t = some (t', wgs')) (hwgs : GroupsRetired t.sim wgs) :
    wgs'.map WarpGroup.threads = wgs.map WarpGroup.threads ∧ GroupsRetired t'.sim wgs' := by
  induction wgs generalizing t wgs' with
  | nil =>
    obtain ⟨rfl, rfl⟩ := Prod.mk.inj (Option.some.inj h)
    exact ⟨rfl, hwgs⟩
  | cons wg wgs ih =>
    have htail : GroupsRetired t.sim wgs := fun v hv => hwgs v (List.mem_cons_of_mem _ hv)
    unfold warpTurn at h
    split_ifs at h
    · obtain ⟨⟨u, vs⟩, hu, h⟩ := Option.bind_eq_some_iff.1 h
      obtain ⟨rfl, rfl⟩ := Prod.mk.inj (Option.some.inj h)
      obtain ⟨hthreads, hvs⟩ := ih hu htail
      refine ⟨congrArg (wg.threads :: ·) hthreads, fun v hv hactive i hi => ?_⟩
      rcases List.mem_cons.1 hv with rfl | hv
      · exact (hwgs v List.mem_cons_self hactive i hi).runs (warpTurn_runs hu)
      · exact hvs v hv hactive i hi
    · obtain ⟨⟨u, x⟩, hu, h⟩ := Option.bind_eq_some_iff.1 h
      obtain ⟨⟨y, vs⟩, hy, h⟩ := Option.bind_eq_some_iff.1 h
      obtain ⟨rfl, rfl⟩ := Prod.mk.inj (Option.some.inj h)
      obtain ⟨hsame, hx⟩ := warpGroupTurn_retired hu
      have hmid : GroupsRetired u.sim wgs := fun v hv hactive i hi =>
        (htail v hv hactive i hi).runs (warpGroupTurn_runs hu)
      obtain ⟨hthreads, hvs⟩ := ih hy hmid
      refine ⟨?_, fun v hv hactive i hi => ?_⟩
      · rw [List.map_cons, List.map_cons, hsame, hthreads]
      · rcases List.mem_cons.1 hv with rfl | hv
        · exact (hx hactive i hi).runs (warpTurn_runs hy)
        · exact hvs v hv hactive i hi

/-- The lockstep loop ends with all its groups retired, or reports a deadlock. -/
theorem warpLoop_retired {turns : ℕ} {wgs : List WarpGroup} {s s' : Simulation}
    (h : warpLoop F L turns wgs s = some (true, s')) (hwgs : GroupsRetired s wgs) :
    Runs L s s' ∧ ∀ is ∈ wgs.map WarpGroup.threads, ∀ i ∈ is, Retired s' i := by
  induction turns generalizing wgs s with
  | zero => exact absurd h (by simp [warpLoop])
  | succ turns ih =>
    rw [warpLoop] at h
    obtain ⟨⟨t, vs⟩, ht, h⟩ := Option.bind_eq_some_iff.1 h
    have hruns : Runs L s t.sim := warpTurn_runs ht
    obtain ⟨hthreads, hvs⟩ := warpTurn_retired ht hwgs
    dsimp only at h
    cases hactive : wgs.any WarpGroup.active with
    | false =>
      rw [hactive, if_pos Bool.not_false] at h
      obtain ⟨-, rfl⟩ := Prod.mk.inj (Option.some.inj h)
      refine ⟨hruns, fun is his i hi => ?_⟩
      obtain ⟨wg, hwg, rfl⟩ := List.mem_map.1 his
      have hoff : wg.active = false := by simpa using List.any_eq_false.1 hactive wg hwg
      exact (hwgs wg hwg hoff i hi).runs hruns
    | true =>
      rw [hactive, Bool.not_true, if_neg Bool.false_ne_true] at h
      split_ifs at h
      · exact absurd (Prod.mk.inj (Option.some.inj h)).1 Bool.false_ne_true
      · obtain ⟨hrest, hretired⟩ := ih h hvs
        rw [hthreads] at hretired
        exact ⟨hruns.trans hrest, hretired⟩

end Loops

/-! ## The run -/

/-- The groups' places are those of all their workers. -/
theorem exists_groupPlaces {α : Type} {groups : List (List α)} {first i : ℕ} (hfirst : first ≤ i)
    (hlt : i < first + groups.flatten.length) :
    ∃ is ∈ groupPlaces first (groups.map List.length), i ∈ is := by
  induction groups generalizing first with
  | nil =>
    rw [List.flatten_nil, List.length_nil] at hlt
    omega
  | cons g gs ih =>
    rw [List.flatten_cons, List.length_append] at hlt
    rcases Nat.lt_or_ge i (first + g.length) with hi | hi
    · refine ⟨_, List.mem_cons_self, List.mem_map.2 ⟨i - first, List.mem_range.2 (by omega), ?_⟩⟩
      omega
    · obtain ⟨is, his, hmem⟩ := ih hi (by omega)
      exact ⟨is, List.mem_cons_of_mem _ his, hmem⟩

section Run

variable {F : HostFloat} {C : Config} {L : Launch} {turns : ℕ} {mem : MemoryHierarchy}
  {sim : Simulation}

theorem makeWorkers_workers {ids : List (BitVec 32)} {mem' : MemoryHierarchy} {ws : List Worker}
    (h : makeWorkers C L ids mem = some (ws, mem')) : ws = ids.map (worker C L) := by
  induction ids generalizing mem mem' ws with
  | nil => exact (Prod.mk.inj (Option.some.inj h)).1.symm
  | cons id ids ih =>
    obtain ⟨⟨w, mem₁⟩, hone, h⟩ := Option.bind_eq_some_iff.1 h
    obtain ⟨⟨ws', mem₂⟩, hrest, h⟩ := Option.bind_eq_some_iff.1 h
    obtain ⟨rfl, -⟩ := Prod.mk.inj (Option.some.inj h)
    unfold makeWorker at hone
    dsimp only at hone
    split_ifs at hone
    obtain ⟨rfl, -⟩ := Prod.mk.inj (Option.some.inj hone)
    rw [ih hrest]
    rfl

/-- The simulation when the workers are made. -/
def started (C : Config) (L : Launch) (mem : MemoryHierarchy) : Simulation :=
  ⟨mem, (threadIds C L).map (worker C L), []⟩

/-- When the loops end without a deadlock, every worker is retired. -/
theorem execute_retired (h : execute F C turns L mem = some (.ok sim)) :
    ∃ mem', Runs L (started C L mem') sim ∧ ∀ i, Retired sim i := by
  unfold execute at h
  split_ifs at h with hsize
  · obtain ⟨⟨groups, mem'⟩, hgroups, h⟩ := Option.bind_eq_some_iff.1 h
    obtain ⟨⟨finished, sim'⟩, hloop, h⟩ := Option.bind_eq_some_iff.1 h
    have hids : groups.flatten = (threadIds C L).map (worker C L) := by
      unfold threadIds
      rw [if_pos hsize]
      exact makeWorkers_workers (makeWarpGroupsFrom_flatten hgroups)
    cases finished with
    | false => exact absurd (Option.some.inj h) (by simp)
    | true =>
      obtain rfl := Except.ok.inj (Option.some.inj h)
      obtain ⟨hruns, hretired⟩ := warpLoop_retired hloop fun wg hwg hactive => by
        obtain ⟨is, -, rfl⟩ := List.mem_map.1 hwg
        exact absurd hactive.symm Bool.false_ne_true
      unfold started
      rw [← hids]
      refine ⟨mem', hruns, fun i => ?_⟩
      rcases Nat.lt_or_ge i sim'.workers.length with hi | hi
      · rw [hruns.length] at hi
        obtain ⟨is, his, hmem⟩ := exists_groupPlaces (Nat.zero_le i)
          (by rwa [Nat.zero_add] : i < 0 + groups.flatten.length)
        refine hretired is ?_ i hmem
        rw [List.map_map]
        exact List.mem_map.2 ⟨is, his, rfl⟩
      · exact retired_of_length_le hi
  · obtain ⟨⟨workers, mem'⟩, hworkers, h⟩ := Option.bind_eq_some_iff.1 h
    obtain ⟨⟨finished, sim'⟩, hloop, h⟩ := Option.bind_eq_some_iff.1 h
    have hids : workers = (threadIds C L).map (worker C L) := by
      unfold threadIds
      rw [if_neg hsize]
      exact makeWorkers_workers hworkers
    cases finished with
    | false => exact absurd (Option.some.inj h) (by simp)
    | true =>
      obtain rfl := Except.ok.inj (Option.some.inj h)
      unfold started
      rw [← hids]
      have hU : 0 < activeUnits C workers.length :=
        Nat.lt_of_lt_of_le Nat.zero_lt_one (Nat.le_max_left _ _)
      exact ⟨mem', scalarLoop_retired hU hloop⟩

/-- No thread is stepped at the cycle limit. -/
def InTime (sim : Simulation) : Prop := ∀ m ∈ sim.trace, ∀ i, m.cutsThread i = false

/-- The ids of the workers are the ones they are made with. -/
theorem launched_iff {mem' : MemoryHierarchy} (h : Runs L (started C L mem') sim)
    (p : Dim3 × Dim3) :
    (∃ w ∈ sim.workers, w.id.2 = p) ↔ ∃ id ∈ threadIds C L, (worker C L id).id.2 = p := by
  have hlen := h.length
  constructor
  · rintro ⟨w, hw, rfl⟩
    obtain ⟨i, hi⟩ := List.getElem?_of_mem hw
    have hlt := (List.getElem?_eq_some_iff.1 hi).1
    rw [hlen] at hlt
    have hstart := List.getElem?_eq_getElem hlt
    obtain ⟨w', hw', hid, -⟩ := h.worker hstart
    obtain rfl := Option.some.inj (hi.symm.trans hw')
    obtain ⟨id, hmem, heq⟩ := List.mem_map.1 (List.getElem_mem hlt)
    exact ⟨id, hmem, by rw [hid, ← heq]⟩
  · rintro ⟨id, hid, rfl⟩
    obtain ⟨i, hi⟩ := List.getElem?_of_mem (List.mem_map_of_mem (f := worker C L) hid)
    obtain ⟨w', hw', heq, -⟩ := h.worker hi
    exact ⟨w', List.mem_of_getElem? hw', by rw [heq]⟩

/-- Runs that end without a deadlock and in time have run every thread that has been launched. -/
theorem truthful_iff (h : execute F C turns L mem = some (.ok sim)) :
    Truthful L sim ↔ Covered C L ∧ InTime sim := by
  obtain ⟨mem', hruns, hretired⟩ := execute_retired h
  have htold := told_run hruns fun i w hw => by
    obtain ⟨id, -, rfl⟩ := List.mem_map.1 (List.mem_of_getElem? hw)
    exact ⟨rfl, rfl, fun hactive => absurd hactive.symm Bool.false_ne_true⟩
  have hends : ∀ i < sim.workers.length, Ended sim.trace i = !CutShort sim.trace i := by
    intro i hi
    have hw := List.getElem?_eq_getElem hi
    have hi := htold i _ hw
    have heither := hi.halted.symm.trans (hi.retired (hretired i _ hw))
    have honce := hi.once
    generalize Ended sim.trace i = a at heither honce ⊢
    generalize CutShort sim.trace i = b at heither honce ⊢
    revert a b
    decide
  have hcut : InTime sim ↔ ∀ i < sim.workers.length, CutShort sim.trace i = false := by
    constructor
    · intro htime i _
      exact List.any_eq_false.2 fun m hm => by rw [htime m hm i]; exact Bool.false_ne_true
    · intro hall m hm i
      have hlen := hruns.before_length (fun m hm => absurd hm List.not_mem_nil) m hm
      rcases Nat.lt_or_ge i sim.workers.length with hi | hi
      · exact Bool.not_eq_true _ ▸ List.any_eq_false.1 (hall i hi) m hm
      · exact cutsThread_of_length_le (hlen ▸ hi)
  constructor
  · rintro ⟨hlaunched, hended⟩
    refine ⟨fun ctaid tid hc ht => (launched_iff hruns _).1 (hlaunched ctaid tid hc ht), ?_⟩
    refine hcut.2 fun i hi => ?_
    simpa [hends i hi] using hended i hi
  · rintro ⟨hcovered, htime⟩
    refine ⟨fun ctaid tid hc ht => (launched_iff hruns _).2 (hcovered ctaid tid hc ht), ?_⟩
    intro i hi
    rw [hends i hi, hcut.1 htime i hi]
    rfl

end Run

/-- A run that returns true has run every thread to its end exactly if its workers are those of the
whole grid and none of them is stepped at the cycle limit. -/
theorem completionTruthful_iff (F : HostFloat) (C : Config) (files : String → Option (List Byte))
    (execution : KernelExecution) (req : Request) (turns : ℕ) (d : DeviceMemory) :
    CompletionTruthful F C files execution req turns d ↔
      ∀ L mem sim, setUp C files execution req d = some (.ok (L, mem)) →
        execute F C turns L mem = some (.ok sim) → Covered C L ∧ InTime sim := by
  constructor
  · intro h L mem sim hset hexec
    have hrun : runOnHardware F C files execution req turns d =
        some (.ok (), readBack (releaseBlocks L sim.mem) req.devicePtrs d) := by
      unfold runOnHardware
      rw [hset]
      show (execute F C turns L mem).bind _ = _
      rw [hexec, ← copyBack_eq]
      rfl
    obtain ⟨L', mem', sim', hset', hexec', htruthful⟩ := h _ hrun
    obtain ⟨rfl, rfl⟩ := Prod.mk.inj (Except.ok.inj (Option.some.inj (hset.symm.trans hset')))
    obtain rfl := Except.ok.inj (Option.some.inj (hexec.symm.trans hexec'))
    exact (truthful_iff hexec).1 htruthful
  · intro h d' hrun
    obtain ⟨L, mem, sim, hset, hexec, -⟩ := (runOnHardware_buffers hrun).2 rfl
    exact ⟨L, mem, sim, hset, hexec, (truthful_iff hexec).2 (h L mem sim hset hexec)⟩

/-- One unit, with a limit of one cycle. -/
def oneCycle : Config := { oneUnit with maxSimCycles := 1 }

/-- A kernel that does not end, `jal x0, 0`. -/
def spinKernel : List Byte := imageOf [0x6F, 0x00, 0x00, 0x00]

def spinRequest : Request where
  kernelName := "spin"
  binaryPath := "spin.elf"
  kernelArgs := []
  devicePtrs := []

/-- A kernel that does not end is cut short, and its run returns true. -/
theorem not_completionTruthful : ¬ ∀ F C files execution req turns d,
    CompletionTruthful F C files execution req turns d := by
  intro h
  have hok : (runOnHardware noFloat oneCycle (fun _ => some spinKernel) noLaunch spinRequest 3
      oneBuffer).map (fun r => r.1.isOk) = some true := by decide +kernel
  have hend : (((setUp oneCycle (fun _ => some spinKernel) noLaunch spinRequest oneBuffer).bind
      Except.toOption).bind fun r => ((execute noFloat oneCycle 3 r.1 r.2).bind
        Except.toOption).map fun sim => (sim.workers.length, Ended sim.trace 0)) =
      some (1, false) := by decide +kernel
  obtain ⟨⟨r, d'⟩, hrun, hr⟩ := Option.map_eq_some_iff.1 hok
  cases r with
  | error e => exact absurd hr (by simp [Except.isOk, Except.toBool])
  | ok u =>
    obtain ⟨L, mem, sim, hset, hexec, htruthful⟩ := h _ _ _ _ _ _ _ d' hrun
    rw [hset] at hend
    change ((execute noFloat oneCycle 3 L mem).bind Except.toOption).map _ = _ at hend
    rw [hexec] at hend
    obtain ⟨hlength, hend⟩ := Prod.mk.inj (Option.some.inj hend)
    have hone := htruthful.ended 0 (by rw [hlength]; exact Nat.zero_lt_one)
    exact Bool.false_ne_true (hend.symm.trans hone)

end RiscvGpgpu.Bridge
