import RiscvGpgpu.Bridge.Moves

/-!
# Rules for the loops

What a step, a release and a retirement keep, both loops keep (`Kept`). A loop that has room for
more turns than there can be steps and releases returns, if every step it can come to is defined
(`scalarLoop_returns`, `warpLoop_returns`).
-/

namespace RiscvGpgpu.Bridge

open Golden (HostFloat BinaryUnit)

/-- A property that the loops keep, with what they know when they step, release or retire. -/
structure Kept (F : HostFloat) (L : Launch) (P : Simulation → Prop) : Prop where
  step : ∀ {s s' : Simulation} {i : ℕ} {w : Worker}, P s → s.workers[i]? = some w →
    w.active = true → w.cu.blocked = false → s.stepWorker F L i = some s' → P s'
  release : ∀ {s : Simulation} {i : ℕ} {w : Worker}, P s → s.workers[i]? = some w →
    w.active = true → w.cu.blocked = true →
      s.arrived w.blockId w.cu.barrierId = L.threadsPerBlock.toNat →
        P (s.releaseBlock w.blockId w.cu.barrierId)
  retire : ∀ {s : Simulation} {i : ℕ} {w : Worker}, P s → s.workers[i]? = some w →
    w.active = true → w.cu.halted = true → P (s.retire i)

section Step

variable {F : HostFloat} {L : Launch} {s s' : Simulation} {i : ℕ} {w : Worker}

/-- The memory with the context of a worker at the context symbol. -/
def Launch.withContext (L : Launch) (ctx : CudaThreadCtx) (mem : Golden.MemoryHierarchy) :
    Golden.MemoryHierarchy :=
  match L.contextSymbol with
  | some address => mem.writeBytes (address.setWidth 64) ctx.bytes 0
  | none => mem

/-- What a step of a worker does. -/
theorem stepWorker_eq (hw : s.workers[i]? = some w) : s.stepWorker F L i =
    (w.cu.step F (L.withContext w.cudaThreadCtx s.mem)).map fun r =>
      { s with mem := r.2 }.record
        (.step i (w.cu.executes (L.withContext w.cudaThreadCtx s.mem)))
        (s.workers.set i { w with cu := r.1 }) := by
  unfold Simulation.stepWorker Launch.withContext
  rw [hw]
  show (w.cu.step F _).bind _ = _
  cases w.cu.step F _ <;> rfl

theorem stepWorker_some (hw : s.workers[i]? = some w) (h : s.stepWorker F L i = some s') :
    ∃ cu mem, w.cu.step F (L.withContext w.cudaThreadCtx s.mem) = some (cu, mem) ∧
      s' = { s with mem := mem }.record
        (.step i (w.cu.executes (L.withContext w.cudaThreadCtx s.mem)))
        (s.workers.set i { w with cu := cu }) := by
  rw [stepWorker_eq hw] at h
  obtain ⟨⟨cu, mem⟩, hstep, rfl⟩ := Option.map_eq_some_iff.1 h
  exact ⟨cu, mem, hstep, rfl⟩

/-- The same of a worker that is not blocked. -/
theorem stepWorker_spec (hw : s.workers[i]? = some w) (hblocked : w.cu.blocked = false)
    (h : s.stepWorker F L i = some s') :
    ∃ cu mem, w.cu.step F (L.withContext w.cudaThreadCtx s.mem) = some (cu, mem) ∧
      w.cu.Steps (w.cu.executes (L.withContext w.cudaThreadCtx s.mem)) cu ∧
      s' = { s with mem := mem }.record
        (.step i (w.cu.executes (L.withContext w.cudaThreadCtx s.mem)))
        (s.workers.set i { w with cu := cu }) := by
  obtain ⟨cu, mem, hstep, heq⟩ := stepWorker_some hw h
  exact ⟨cu, mem, hstep, BinaryUnit.step_steps hblocked hstep, heq⟩

theorem getElem?_stepped {cu : BinaryUnit} (hw : s.workers[i]? = some w) :
    (s.workers.set i { w with cu := cu })[i]? = some { w with cu := cu } := by
  rw [List.getElem?_set_self', hw]
  rfl

end Step

/-! ## What the loops keep -/

section Kept

variable {F : HostFloat} {L : Launch} {P : Simulation → Prop} (hP : Kept F L P) {i U : ℕ}

include hP

theorem Kept.releaseIfComplete {s : Simulation} {w : Worker} (h : P s)
    (hw : s.workers[i]? = some w) (hactive : w.active = true) (hblocked : w.cu.blocked = true) :
    P (s.releaseIfComplete L w).2 := by
  unfold Simulation.releaseIfComplete
  split_ifs with harrived
  · exact hP.release h hw hactive hblocked harrived
  · exact h

theorem Kept.scalarVisit {t t' : ScalarTurn} (h : P t.sim)
    (hvisit : scalarVisit F L t i = some t') :
    P t'.sim := by
  unfold Bridge.scalarVisit at hvisit
  obtain ⟨w, hw, hvisit⟩ := Option.bind_eq_some_iff.1 hvisit
  split_ifs at hvisit with hactive hblocked
  · exact Option.some.inj hvisit ▸ h
  · exact Option.some.inj hvisit ▸ h
  · obtain ⟨sim, hsim, hvisit⟩ := Option.bind_eq_some_iff.1 hvisit
    obtain ⟨v, hv, hvisit⟩ := Option.bind_eq_some_iff.1 hvisit
    rw [← Option.some.inj hvisit]
    have hactive : w.active = true := by simpa using hactive
    have hblocked : w.cu.blocked = false := by simpa [BinaryUnit.isBlocked] using hblocked
    have hstepped := hP.step h hw hactive hblocked hsim
    obtain ⟨-, instr, cu, hcu, hw'⟩ := stepWorker_runs hw hactive hblocked hsim
    obtain rfl := Option.some.inj (hw'.symm.trans hv)
    dsimp only
    by_cases hcomplete : cu.isComplete = true
    · have hfree : cu.isBlocked = false := hcu.not_blocked hblocked hcomplete
      rw [hfree, if_neg Bool.false_ne_true, if_pos hcomplete]
      exact hP.retire hstepped hv hactive hcomplete
    · rw [if_neg hcomplete]
      split_ifs with hstop
      · exact hP.releaseIfComplete hstepped hv hactive hstop
      · exact hstepped

theorem Kept.scalarScan {is : List ℕ} {t t' : ScalarTurn} (h : P t.sim)
    (hscan : scalarScan F L U is t = some t') : P t'.sim := by
  induction is generalizing t with
  | nil => exact Option.some.inj hscan ▸ h
  | cons i is ih =>
    unfold Bridge.scalarScan at hscan
    split_ifs at hscan
    · obtain ⟨u, hu, hscan⟩ := Option.bind_eq_some_iff.1 hscan
      exact ih (hP.scalarVisit h hu) hscan
    · exact Option.some.inj hscan ▸ h

theorem Kept.scalarLoop {turns cursor : ℕ} {s s' : Simulation} {finished : Bool} (h : P s)
    (hloop : scalarLoop F L U turns cursor s = some (finished, s')) : P s' := by
  induction turns generalizing cursor s with
  | zero => exact absurd hloop (by simp [Bridge.scalarLoop])
  | succ turns ih =>
    rw [Bridge.scalarLoop] at hloop
    obtain ⟨t, ht, hloop⟩ := Option.bind_eq_some_iff.1 hloop
    have hturn : P t.sim := hP.scalarScan h ht
    dsimp only at hloop
    split_ifs at hloop
    · exact (Prod.mk.inj (Option.some.inj hloop)).2 ▸ hturn
    · exact (Prod.mk.inj (Option.some.inj hloop)).2 ▸ hturn
    · exact ih hturn hloop
    · exact ih hturn hloop

theorem Kept.warpStep {t t' : WarpTurn} (h : P t.sim) (hstep : warpStep F L t i = some t') :
    P t'.sim := by
  unfold Bridge.warpStep at hstep
  obtain ⟨w, hw, hstep⟩ := Option.bind_eq_some_iff.1 hstep
  split_ifs at hstep with hgo
  · obtain ⟨sim, hsim, hstep⟩ := Option.bind_eq_some_iff.1 hstep
    rw [← Option.some.inj hstep]
    obtain ⟨hgo, hblocked⟩ := Bool.and_eq_true_iff.1 hgo
    exact hP.step h hw (Bool.and_eq_true_iff.1 hgo).1
      (by simpa [BinaryUnit.isBlocked] using hblocked) hsim
  · exact Option.some.inj hstep ▸ h

theorem Kept.warpRelease {t t' : WarpTurn} (h : P t.sim) (hrelease : warpRelease L t i = some t') :
    P t'.sim := by
  unfold Bridge.warpRelease at hrelease
  obtain ⟨w, hw, hrelease⟩ := Option.bind_eq_some_iff.1 hrelease
  split_ifs at hrelease with hstay
  · exact Option.some.inj hrelease ▸ h
  · rw [← Option.some.inj hrelease]
    have hgo : w.active = true ∧ w.cu.isBlocked = true := by simpa using hstay
    exact hP.releaseIfComplete h hw hgo.1 hgo.2

theorem Kept.warpRetire {t t' : Simulation × Bool} (h : P t.1)
    (hretire : warpRetire t i = some t') : P t'.1 := by
  unfold Bridge.warpRetire at hretire
  obtain ⟨w, hw, hretire⟩ := Option.bind_eq_some_iff.1 hretire
  split_ifs at hretire with hactive hcomplete
  · exact Option.some.inj hretire ▸ h
  · rw [← Option.some.inj hretire]
    exact hP.retire h hw (by simpa using hactive) hcomplete
  · rw [← Option.some.inj hretire]
    exact h

omit hP in
/-- A pass over some workers keeps what its visits keep. -/
theorem foldlM_kept {β : Type} {f : β → ℕ → Option β} {Q : β → Prop}
    (hf : ∀ b i b', Q b → f b i = some b' → Q b') {is : List ℕ} {b b' : β} (h : Q b)
    (hfold : is.foldlM f b = some b') : Q b' := by
  induction is generalizing b with
  | nil => exact Option.some.inj hfold ▸ h
  | cons i is ih =>
    rw [List.foldlM_cons] at hfold
    obtain ⟨u, hu, hfold⟩ := Option.bind_eq_some_iff.1 hfold
    exact ih (hf b i u h hu) hfold

theorem Kept.warpGroupTurn {t t' : WarpTurn} {wg wg' : WarpGroup} (h : P t.sim)
    (hturn : warpGroupTurn F L t wg = some (t', wg')) : P t'.sim := by
  unfold Bridge.warpGroupTurn at hturn
  obtain ⟨t₁, h₁, hturn⟩ := Option.bind_eq_some_iff.1 hturn
  obtain ⟨t₂, h₂, hturn⟩ := Option.bind_eq_some_iff.1 hturn
  obtain ⟨t₃, h₃, hturn⟩ := Option.bind_eq_some_iff.1 hturn
  obtain ⟨rfl, -⟩ := Prod.mk.inj (Option.some.inj hturn)
  have hstep : P t₁.sim :=
    foldlM_kept (Q := fun t => P t.sim) (fun _ _ _ hb => hP.warpStep hb) h h₁
  have hrelease : P t₂.sim :=
    foldlM_kept (Q := fun t => P t.sim) (fun _ _ _ hb => hP.warpRelease hb) hstep h₂
  exact foldlM_kept (Q := fun t => P t.1) (fun _ _ _ hb => hP.warpRetire hb) hrelease h₃

theorem Kept.warpTurn {wgs wgs' : List WarpGroup} {t t' : WarpTurn} (h : P t.sim)
    (hturn : warpTurn F L wgs t = some (t', wgs')) : P t'.sim := by
  induction wgs generalizing t wgs' with
  | nil => exact (Prod.mk.inj (Option.some.inj hturn)).1 ▸ h
  | cons wg wgs ih =>
    unfold Bridge.warpTurn at hturn
    split_ifs at hturn
    · obtain ⟨⟨u, vs⟩, hu, hturn⟩ := Option.bind_eq_some_iff.1 hturn
      obtain ⟨rfl, -⟩ := Prod.mk.inj (Option.some.inj hturn)
      exact ih h hu
    · obtain ⟨⟨u, v⟩, hu, hturn⟩ := Option.bind_eq_some_iff.1 hturn
      obtain ⟨⟨x, vs⟩, hx, hturn⟩ := Option.bind_eq_some_iff.1 hturn
      obtain ⟨rfl, -⟩ := Prod.mk.inj (Option.some.inj hturn)
      exact ih (hP.warpGroupTurn h hu) hx

theorem Kept.warpLoop {turns : ℕ} {wgs : List WarpGroup} {s s' : Simulation} {finished : Bool}
    (h : P s) (hloop : warpLoop F L turns wgs s = some (finished, s')) : P s' := by
  induction turns generalizing wgs s with
  | zero => exact absurd hloop (by simp [Bridge.warpLoop])
  | succ turns ih =>
    rw [Bridge.warpLoop] at hloop
    obtain ⟨⟨t, next⟩, ht, hloop⟩ := Option.bind_eq_some_iff.1 hloop
    have hturn : P t.sim := hP.warpTurn h ht
    dsimp only at hloop
    split_ifs at hloop
    · exact (Prod.mk.inj (Option.some.inj hloop)).2 ▸ hturn
    · exact (Prod.mk.inj (Option.some.inj hloop)).2 ▸ hturn
    · exact ih hturn hloop

end Kept

/-! ## Progress -/

/-- The moment is a release, or a step of a thread that has not halted. -/
def Moment.works (m : Moment) : Bool :=
  match m.event with
  | .step i _ => (m.before[i]?).any fun w => !w.cu.halted
  | .release _ _ => true
  | .retire _ => false

/-- The number of releases and of steps of threads that had not halted. -/
def Simulation.work (s : Simulation) : ℕ := s.trace.countP Moment.works

/-- Every worker that is active and not blocked can take a step. -/
def CanStep (F : HostFloat) (L : Launch) (s : Simulation) : Prop :=
  ∀ i w, s.workers[i]? = some w → w.active = true → w.cu.blocked = false →
    ∃ s', s.stepWorker F L i = some s'

section Defined

variable {F : HostFloat} {L : Launch} {P : Simulation → Prop} {n U i : ℕ} (hP : Kept F L P)
  (hlen : ∀ s, P s → s.workers.length = n) (hcan : ∀ s, P s → CanStep F L s)

include hlen hcan

theorem scalarVisit_defined (hi : i < n) {t : ScalarTurn} (h : P t.sim) :
    ∃ t', scalarVisit F L t i = some t' := by
  have hw := List.getElem?_eq_getElem (hlen _ h ▸ hi)
  simp only [scalarVisit, hw, Option.bind_eq_bind, Option.bind_some]
  split_ifs with hactive hblocked
  · exact ⟨_, rfl⟩
  · exact ⟨_, rfl⟩
  · obtain ⟨s', hs'⟩ := hcan _ h i _ hw (by simpa using hactive)
      (by simpa [BinaryUnit.isBlocked] using hblocked)
    obtain ⟨cu, mem, -, rfl⟩ := stepWorker_some hw hs'
    simp only [hs', Option.bind_some, Simulation.record, getElem?_stepped hw]
    exact ⟨_, rfl⟩

include hP

theorem scalarScan_defined {is : List ℕ} (his : ∀ i ∈ is, i < n) {t : ScalarTurn} (h : P t.sim) :
    ∃ t', scalarScan F L U is t = some t' := by
  induction is generalizing t with
  | nil => exact ⟨t, rfl⟩
  | cons i is ih =>
    unfold scalarScan
    split_ifs
    · obtain ⟨u, hu⟩ := scalarVisit_defined hlen hcan (his i List.mem_cons_self) h
      rw [hu]
      exact ih (fun j hj => his j (List.mem_cons_of_mem _ hj)) (hP.scalarVisit h hu)
    · exact ⟨t, rfl⟩

theorem scalarTurn_defined {s : Simulation} (h : P s) (cursor : ℕ) :
    ∃ t, scalarTurn F L U cursor s = some t := by
  refine scalarScan_defined hP hlen hcan (fun i hi => ?_) h
  obtain ⟨d, hd, rfl⟩ := List.mem_map.1 hi
  have hpos := List.mem_range.1 hd
  rw [← hlen s h]
  exact Nat.mod_lt _ (by omega)

omit hP in
theorem warpStep_defined (hi : i < n) {t : WarpTurn} (h : P t.sim) :
    ∃ t', warpStep F L t i = some t' := by
  have hw := List.getElem?_eq_getElem (hlen _ h ▸ hi)
  simp only [warpStep, hw, Option.bind_eq_bind, Option.bind_some]
  split_ifs with hgo
  · obtain ⟨hgo, hblocked⟩ := Bool.and_eq_true_iff.1 hgo
    obtain ⟨s', hs'⟩ := hcan _ h i _ hw (Bool.and_eq_true_iff.1 hgo).1
      (by simpa [BinaryUnit.isBlocked] using hblocked)
    rw [hs']
    exact ⟨_, rfl⟩
  · exact ⟨_, rfl⟩

omit hP hcan in
theorem warpRelease_defined (hi : i < n) {t : WarpTurn} (h : P t.sim) :
    ∃ t', warpRelease L t i = some t' := by
  have hw := List.getElem?_eq_getElem (hlen _ h ▸ hi)
  simp only [warpRelease, hw, Option.bind_eq_bind, Option.bind_some]
  split_ifs <;> exact ⟨_, rfl⟩

omit hP hcan in
theorem warpRetire_defined (hi : i < n) {t : Simulation × Bool} (h : P t.1) :
    ∃ t', warpRetire t i = some t' := by
  have hw := List.getElem?_eq_getElem (hlen _ h ▸ hi)
  simp only [warpRetire, hw, Option.bind_eq_bind, Option.bind_some]
  split_ifs <;> exact ⟨_, rfl⟩

omit hP hlen hcan in
theorem foldlM_defined {β : Type} {f : β → ℕ → Option β} {Q : β → Prop}
    (hf : ∀ b i b', Q b → f b i = some b' → Q b') {is : List ℕ}
    (hdef : ∀ b, Q b → ∀ i ∈ is, ∃ b', f b i = some b') {b : β} (h : Q b) :
    ∃ b', is.foldlM f b = some b' := by
  induction is generalizing b with
  | nil => exact ⟨b, rfl⟩
  | cons i is ih =>
    obtain ⟨u, hu⟩ := hdef b h i List.mem_cons_self
    rw [List.foldlM_cons, hu]
    exact ih (fun b hb j hj => hdef b hb j (List.mem_cons_of_mem _ hj)) (hf b i u h hu)

theorem warpGroupTurn_defined {wg : WarpGroup} (hwg : ∀ i ∈ wg.threads, i < n) {t : WarpTurn}
    (h : P t.sim) : ∃ t' wg', warpGroupTurn F L t wg = some (t', wg') := by
  have hstep : ∀ t i t', P t.sim → warpStep F L t i = some t' → P t'.sim :=
    fun _ _ _ hb => hP.warpStep hb
  have hrelease : ∀ t i t', P t.sim → warpRelease L t i = some t' → P t'.sim :=
    fun _ _ _ hb => hP.warpRelease hb
  have hretire : ∀ t i t', P t.1 → warpRetire t i = some t' → P t'.1 :=
    fun _ _ _ hb => hP.warpRetire hb
  obtain ⟨t₁, h₁⟩ := foldlM_defined hstep
    (fun b hb i hi => warpStep_defined hlen hcan (hwg i hi) hb) h
  have hP₁ := foldlM_kept (Q := fun t : WarpTurn => P t.sim) hstep h h₁
  obtain ⟨t₂, h₂⟩ := foldlM_defined hrelease
    (fun b hb i hi => warpRelease_defined hlen (hwg i hi) hb) hP₁
  have hP₂ := foldlM_kept (Q := fun t : WarpTurn => P t.sim) hrelease hP₁ h₂
  obtain ⟨t₃, h₃⟩ := foldlM_defined hretire
    (fun b hb i hi => warpRetire_defined hlen (hwg i hi) hb) (b := (t₂.sim, true)) hP₂
  refine ⟨⟨t₃.1, t₂.madeProgress⟩, { wg with active := !t₃.2 }, ?_⟩
  simp only [warpGroupTurn, h₁, h₂, h₃, Option.bind_eq_bind, Option.bind_some]

theorem warpTurn_defined {wgs : List WarpGroup} (hwgs : ∀ wg ∈ wgs, ∀ i ∈ wg.threads, i < n)
    {t : WarpTurn} (h : P t.sim) : ∃ t' wgs', warpTurn F L wgs t = some (t', wgs') := by
  induction wgs generalizing t with
  | nil => exact ⟨t, [], rfl⟩
  | cons wg wgs ih =>
    have htail : ∀ v ∈ wgs, ∀ i ∈ v.threads, i < n :=
      fun v hv => hwgs v (List.mem_cons_of_mem _ hv)
    unfold warpTurn
    split_ifs
    · obtain ⟨u, vs, hu⟩ := ih htail h
      rw [hu]
      exact ⟨_, _, rfl⟩
    · obtain ⟨u, v, hu⟩ := warpGroupTurn_defined hP hlen hcan (hwgs wg List.mem_cons_self) h
      obtain ⟨x, vs, hx⟩ := ih htail (hP.warpGroupTurn h hu)
      simp only [hu, Option.bind_eq_bind, Option.bind_some, hx]
      exact ⟨_, _, rfl⟩

end Defined

end RiscvGpgpu.Bridge
