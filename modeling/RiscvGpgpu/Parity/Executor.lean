import RiscvGpgpu.Golden.ComputeUnit
import RiscvGpgpu.Hls.ComputePipeline

/-!
# The two warp executors in lockstep

`executeDecoded` against the golden `executeWarp`, instruction by instruction. The golden stack is
never cleared: below the entries pushed since the last start or resume it holds stale ones. They
are harmless because the lanes that are not active wait on the fresh entries (`SimtRel.cover`): by
the time a `VJOIN` reaches a stale entry every lane is active and the join changes nothing.
-/

namespace RiscvGpgpu.Parity

open Golden Hls

/-! ## The divergence stacks -/

/-- The HLS stack and the golden entries of one warp of `n` threads. -/
structure SimtRel (n : ℕ) (s : DivergenceStack) (w : WarpSimt) : Prop where
  threads : w.threadsPerWarp = n
  mask : ∀ t, s.activeMask.active t = SimtController.branchLanes w t
  stack : ∃ stale, w.maskStack = s.notTakenStack ++ stale
  bound : ∀ m ∈ s.notTakenStack, ∀ t : Lane, m.active t = true → (t : ℕ) < n
  cover : ∀ t : Lane, (t : ℕ) < n →
    s.activeMask.active t = true ∨ ∃ m ∈ s.notTakenStack, m.active t = true

theorem SimtRel.lt {n : ℕ} {s : DivergenceStack} {w : WarpSimt} (h : SimtRel n s w) {t : Lane}
    (ht : s.activeMask.active t = true) : (t : ℕ) < n := by
  rw [h.mask, SimtController.branchLanes, h.threads, Bool.and_eq_true, decide_eq_true_eq] at ht
  exact ht.1

theorem simtRel_initializeWarp {n : ℕ} (hn : n ≤ 32) (c : SimtController) (warpId : WarpId) :
    SimtRel n (.initializeWarp (SimtController.fullMask n))
      ((c.initializeWarp warpId n).warps warpId) where
  threads := by simp [SimtController.initializeWarp]
  mask := fun t => by
    simp [SimtController.initializeWarp, DivergenceStack.initializeWarp,
      SimtController.branchLanes, SimtController.active_fullMask hn]
  stack := ⟨(c.warps warpId).maskStack, by
    simp [SimtController.initializeWarp, DivergenceStack.initializeWarp]⟩
  bound := fun m hm => by cases hm
  cover := fun t ht => .inl (by
    rw [DivergenceStack.initializeWarp, SimtController.active_fullMask hn, decide_eq_true ht])

section Simt

variable {n : ℕ} {s : DivergenceStack} {c : SimtController} {warpId : WarpId}

/-- The golden branch, its three cases told apart by the HLS masks. -/
theorem SimtRel.golden_handleBranch (h : SimtRel n s (c.warps warpId))
    {conds conds' : Lane → Bool} (hc : ∀ t, s.activeMask.active t = true → conds t = conds' t) :
    (c.handleBranch warpId conds').warps warpId =
      { c.warps warpId with
        activeMask := s.taken conds
        maskStack :=
          if s.notTaken conds = 0#32 then (c.warps warpId).maskStack
          else s.notTaken conds :: (c.warps warpId).maskStack } := by
  have htaken : (laneMask fun t => SimtController.branchLanes (c.warps warpId) t && conds' t) =
      s.taken conds := by
    refine congrArg laneMask (funext fun t => ?_)
    rw [← h.mask]
    cases ha : s.activeMask.active t with
    | false => rfl
    | true => rw [hc t ha]
  have hnot : (laneMask fun t => SimtController.branchLanes (c.warps warpId) t && !conds' t) =
      s.notTaken conds := by
    refine congrArg laneMask (funext fun t => ?_)
    rw [← h.mask]
    cases ha : s.activeMask.active t with
    | false => rfl
    | true => rw [hc t ha]
  unfold SimtController.handleBranch
  dsimp only
  rw [htaken, hnot]
  by_cases hn : s.notTaken conds = 0#32
  · have hval : (if s.taken conds ≠ 0#32 then s.taken conds else s.notTaken conds) =
        s.taken conds := by
      split
      · rfl
      · next hz => rw [hn, not_not.1 hz]
    rw [if_pos hn, if_neg (fun hc => hc.2 hn), if_neg (fun hc => hc.2 hn), hval]
    simp [SimtController.setActiveMask]
  · rw [if_neg hn]
    by_cases ht : s.taken conds = 0#32
    · rw [if_neg (fun hc => hc.1 ht), if_pos ⟨ht, hn⟩, ht]
      simp [SimtController.setActiveMask, SimtController.pushDivergenceState]
    · rw [if_pos ⟨ht, hn⟩]
      simp [SimtController.setActiveMask, SimtController.pushDivergenceState]

/-- A branch keeps the stacks related, unless it finds the HLS stack full. -/
theorem SimtRel.handleBranch (h : SimtRel n s (c.warps warpId)) {conds conds' : Lane → Bool}
    (hc : ∀ t, s.activeMask.active t = true → conds t = conds' t) :
    (s.handleBranch conds).overflow = true ∨
      SimtRel n (s.handleBranch conds) ((c.handleBranch warpId conds').warps warpId) := by
  have hmask : ∀ w : WarpSimt, w.threadsPerWarp = n → w.activeMask = s.taken conds →
      ∀ t, (s.handleBranch conds).activeMask.active t = SimtController.branchLanes w t := by
    intro w hw hm t
    rw [s.handleBranch_activeMask, SimtController.branchLanes, hw, hm]
    cases ht : (s.taken conds).active t with
    | false => rw [Bool.and_false]
    | true =>
      rw [DivergenceStack.active_taken, Bool.and_eq_true] at ht
      rw [decide_eq_true (h.lt ht.1)]
      rfl
  rw [h.golden_handleBranch hc]
  by_cases hn : s.notTaken conds = 0#32
  · right
    rw [if_pos hn]
    refine ⟨h.threads, hmask _ h.threads rfl, ?_, ?_, ?_⟩ <;>
      rw [s.handleBranch_of_notTaken_eq_zero conds hn]
    exacts [h.stack, h.bound, h.cover]
  obtain ⟨hact, hstack, hover⟩ := s.handleBranch_of_notTaken conds hn
  by_cases hfull : maxDivergenceDepth ≤ s.notTakenStack.length
  · left
    rw [hover, DivergenceStack.pushDivergence, if_pos hfull]
  right
  rw [DivergenceStack.pushDivergence, if_neg hfull] at hstack
  dsimp only at hstack
  obtain ⟨stale, hstale⟩ := h.stack
  rw [if_neg hn]
  refine ⟨h.threads, hmask _ h.threads rfl, ⟨stale, by rw [hstack, hstale]; rfl⟩, ?_,
    fun t ht => ?_⟩
  · intro m hm t ht
    rw [hstack] at hm
    obtain rfl | hm := List.mem_cons.1 hm
    · rw [DivergenceStack.active_notTaken, Bool.and_eq_true] at ht
      exact h.lt ht.1
    · exact h.bound m hm t ht
  · rw [hact, hstack, DivergenceStack.active_taken]
    obtain ha | ⟨m, hm, hmt⟩ := h.cover t ht
    · by_cases hct : conds t = true
      · exact .inl (by rw [ha, hct]; rfl)
      · refine .inr ⟨_, List.mem_cons_self, ?_⟩
        rw [DivergenceStack.active_notTaken, ha, Bool.eq_false_iff.2 hct]
        rfl
    · exact .inr ⟨m, List.mem_cons_of_mem _ hm, hmt⟩

/-- A join keeps the stacks related. -/
theorem SimtRel.handleJoin (h : SimtRel n s (c.warps warpId)) :
    SimtRel n s.handleJoin ((c.handleJoin warpId).warps warpId) := by
  obtain ⟨stale, hstale⟩ := h.stack
  have hmask := h.mask
  simp only [SimtController.branchLanes, h.threads] at hmask
  unfold SimtController.handleJoin DivergenceStack.handleJoin
  cases hst : s.notTakenStack with
  | nil =>
    -- every lane of the warp is active, so a stale entry adds nothing
    have hall : ∀ t : Lane, (t : ℕ) < n → s.activeMask.active t = true := by
      intro t ht
      obtain ha | ⟨m, hm, -⟩ := h.cover t ht
      · exact ha
      · rw [hst] at hm; cases hm
    rw [hst, List.nil_append] at hstale
    cases hg : (c.warps warpId).maskStack with
    | nil => exact h
    | cons m st =>
      dsimp only
      rw [SimtController.setWarp_warps, Function.update_self]
      refine ⟨h.threads, fun t => ?_, ⟨st, by rw [hst]; rfl⟩, h.bound, h.cover⟩
      rw [SimtController.branchLanes]
      dsimp only
      rw [h.threads, ThreadMask.active_or, hmask t]
      by_cases ht : (t : ℕ) < n
      · have := hmask t
        rw [hall t ht, decide_eq_true ht, Bool.true_and] at this
        rw [← this, Bool.true_or, Bool.and_true]
      · rw [decide_eq_false ht, Bool.false_and, Bool.false_and]
  | cons m st =>
    rw [hst, List.cons_append] at hstale
    have hm : ∀ t : Lane, m.active t = true → (t : ℕ) < n :=
      h.bound m (by rw [hst]; exact List.mem_cons_self)
    rw [hstale]
    dsimp only
    rw [SimtController.setWarp_warps, Function.update_self]
    refine ⟨h.threads, fun t => ?_, ⟨stale, rfl⟩, fun m' hm' => ?_, fun t ht => ?_⟩
    · rw [SimtController.branchLanes]
      dsimp only
      rw [h.threads, ThreadMask.active_or, ThreadMask.active_or, hmask t, Bool.and_or_distrib_left]
      cases hmt : m.active t with
      | false => rw [Bool.and_false]
      | true => rw [decide_eq_true (hm t hmt), Bool.true_and, Bool.and_true]
    · exact h.bound m' (by rw [hst]; exact List.mem_cons_of_mem _ hm')
    · dsimp only
      rw [ThreadMask.active_or, Bool.or_eq_true]
      obtain ha | ⟨m', hm', hmt⟩ := h.cover t ht
      · exact .inl (.inl ha)
      · rw [hst] at hm'
        obtain rfl | hm' := List.mem_cons.1 hm'
        · exact .inl (.inr hmt)
        · exact .inr ⟨m', hm', hmt⟩

end Simt

/-! ## Memory requests -/

/-- The same lane, kind and data, and the same address modulo `2^32`. -/
structure ReqRel (q : MemReq) (a : MemAccess) : Prop where
  warpId : q.warpId = a.warpId
  laneId : q.laneId = BitVec.ofNat 6 a.lane
  address : q.address = a.address.setWidth 32
  isWrite : q.isWrite = a.isWrite
  data : q.writeData = a.data

/-- The golden load succeeds with the word of the response; the answer to a store is not read. -/
def RespRel (q : MemReq) (resp : MemResp) (data : Option Word) : Prop :=
  q.isWrite = true ∨ data = some resp.data

section Executors

variable {P : PipelineParams} {K : CuConfig} {mask gmask : ThreadMask} {instr : Instruction}

theorem setWidth_signExtend (imm : Word) : (imm.signExtend 64).setWidth 32 = imm := by
  refine BitVec.eq_of_getLsbD_eq fun i hi => ?_
  have hi' : i < 64 := by omega
  rw [BitVec.getLsbD_setWidth, BitVec.getLsbD_signExtend]
  simp [hi, hi']

theorem setWidth_address (r imm : Word) :
    r + imm = (r.setWidth 64 + imm.signExtend 64).setWidth 32 := by
  rw [BitVec.setWidth_add _ _ (by decide), BitVec.setWidth_setWidth_of_le _ (by decide),
    BitVec.setWidth_eq, setWidth_signExtend]

theorem reqRel_memAccess (hm : instr.isMemory = true) (cuId : CuId) (warpId : WarpId)
    (r : LaneRegs) (t : Lane) :
    ReqRel (memReq cuId warpId instr r t) (memAccess instr warpId r t) := by
  refine ⟨rfl, rfl, setWidth_address _ _, ?_, ?_⟩ <;>
    obtain hop | hop := instr.isMemory_iff.1 hm <;> simp [memReq, memAccess, hop]

/-- The golden lane loops act on the lanes of the HLS mask. -/
def LanesEq (K : CuConfig) (gmask mask : ThreadMask) : Prop :=
  ∀ t, laneOn K gmask t = mask.active t

theorem memOpLanes_sim (hlanes : LanesEq K gmask mask) (hm : instr.isMemory = true)
    (cuId : CuId) (warpId : WarpId) (ts : List Lane) (regs : RegFile) :
    Interact.Sim ReqRel RespRel Eq (fun _ => False)
      (Hls.memOpLanes cuId warpId instr mask ts regs)
      (Golden.memOpLanes K instr gmask warpId ts regs) := by
  induction ts generalizing regs with
  | nil => exact .ret rfl
  | cons t ts ih =>
    unfold Hls.memOpLanes Golden.memOpLanes
    rw [hlanes t]
    split
    · refine .ask (reqRel_memAccess hm cuId warpId _ t) fun resp data hdata => ?_
      obtain hop | hop := instr.isMemory_iff.1 hm
      · obtain hw | rfl := hdata
        · simp [memReq, hop] at hw
        · simpa [hop] using ih _
      · simpa [hop] using ih _
    · exact ih _

theorem executeALU_eq (hlanes : LanesEq K gmask mask) (regs : RegFile) :
    Golden.executeALU K regs instr gmask = Hls.executeALU K.fp regs instr mask := by
  funext t
  unfold Golden.executeALU Hls.executeALU
  rw [hlanes t]
  split
  · unfold aluResult
    cases instr.opcode <;> rfl
  · rfl

theorem executeVector_eq (hlanes : LanesEq K gmask mask) (regs : RegFile) :
    Golden.executeVector K regs instr gmask = Hls.executeVector K.fp regs instr mask := by
  funext t
  unfold Golden.executeVector Hls.executeVector
  rw [hlanes t]
  split
  · unfold vectorResult
    cases instr.opcode <;> rfl
  · rfl

/-- Related executor states between two instructions of a warp of `n` threads. -/
structure StateRel (n : ℕ) (warpId : WarpId) (s : DivergenceStack × RegFile)
    (g : SimtController × RegFile) : Prop where
  regs : s.2 = g.2
  simt : SimtRel n s.1 (g.1.warps warpId)

theorem StateRel.lanesEq {warpId : WarpId} {s : DivergenceStack × RegFile}
    {g : SimtController × RegFile} (h : StateRel K.threadsPerWarp warpId s g) :
    LanesEq K (g.1.getActiveMask warpId) s.1.activeMask := by
  intro t
  rw [h.simt.mask, SimtController.branchLanes, h.simt.threads]
  rfl

variable (instr) in
theorem executeInstr_sim (hv : P.vectorOps = true) (hfp : K.fp = P.fp) {warpId : WarpId}
    {s : DivergenceStack × RegFile} {g : SimtController × RegFile}
    (h : StateRel K.threadsPerWarp warpId s g) :
    Interact.Sim ReqRel RespRel (StateRel K.threadsPerWarp warpId)
      (fun s => s.1.overflow = true) (Hls.executeInstr P warpId instr s.1 s.2)
      (Golden.executeInstr K warpId instr g.1 g.2) := by
  have hlanes := h.lanesEq
  unfold Hls.executeInstr Golden.executeInstr
  dsimp only
  rw [h.regs]
  by_cases hb : instr.opcode = .vbranch
  · rw [if_pos hb, if_pos hb]
    have hconds : ∀ t, s.1.activeMask.active t = true →
        (if s.1.activeMask.active t then g.2 t instr.rs1 == 0 else false) =
          (laneOn K (g.1.getActiveMask warpId) t && g.2 t instr.rs1 == 0) := by
      intro t ht
      rw [hlanes t, ht]
      rfl
    obtain hover | hrel := h.simt.handleBranch hconds
    · exact .doomed hover
    · exact .ret ⟨rfl, hrel⟩
  rw [if_neg hb, if_neg hb]
  by_cases hj : instr.opcode = .vjoin
  · rw [if_pos hj, if_pos hj]
    exact .ret ⟨rfl, h.simt.handleJoin⟩
  rw [if_neg hj, if_neg hj]
  by_cases hm : instr.isMemory = true
  · rw [if_pos hm, if_pos hm]
    refine Interact.Sim.bind (memOpLanes_sim hlanes hm _ _ _ _) ?_ fun _ hbad => hbad.elim
    rintro r _ rfl
    exact .ret ⟨rfl, h.simt⟩
  rw [if_neg hm, if_neg hm, hv, Bool.true_and]
  split
  · exact .ret ⟨by rw [executeVector_eq hlanes, hfp], h.simt⟩
  · exact .ret ⟨by rw [executeALU_eq hlanes, hfp], h.simt⟩

/-! ## One dispatch -/

/-- The two reports of one dispatch agree. -/
structure OutcomeRel (warpId : WarpId) (r : WarpResult) (o : WarpOutcome) : Prop where
  regs : r.regs = o.ctx.regs
  warp : o.ctx.warpId = warpId
  complete : r.status.code = .complete ↔ o.ctx.state = .complete
  stalled : r.status.code = .stalledAtBarrier ↔ o.ctx.state = .stalled
  resumePc : r.status.code = .stalledAtBarrier → r.status.resumePc.toNat = o.ctx.pc
  barrierId : r.status.code = .stalledAtBarrier → o.barrierIdOut = some r.status.barrierId

/-- Overflow is sticky, so it shows in every result of the dispatch. -/
theorem overflow_executeInstr (warpId : WarpId) {s : DivergenceStack} (hs : s.overflow = true)
    (regs : RegFile) :
    (Hls.executeInstr P warpId instr s regs).AllLeaves fun s' => s'.1.overflow = true := by
  unfold Hls.executeInstr
  dsimp only
  by_cases hb : instr.opcode = .vbranch
  · rw [if_pos hb]
    exact s.overflow_handleBranch _ hs
  rw [if_neg hb]
  by_cases hj : instr.opcode = .vjoin
  · rw [if_pos hj]
    exact s.overflow_handleJoin.trans hs
  rw [if_neg hj]
  by_cases hm : instr.isMemory = true
  · rw [if_pos hm]
    exact (Interact.AllLeaves.of_forall (fun _ => trivial) _).bind fun _ _ => hs
  rw [if_neg hm]
  split <;> exact hs

theorem overflow_decodeLoop (warpId : WarpId) (i : ℕ) (code : List Instruction)
    {s : DivergenceStack} (hs : s.overflow = true) (regs : RegFile) (count : Word) :
    (decodeLoop P warpId i code s regs count).AllLeaves fun r => r.simt.overflow = true := by
  induction code generalizing i s regs count with
  | nil => exact hs
  | cons instr rest ih =>
    unfold decodeLoop
    split
    · exact hs
    · split
      · exact hs
      · exact (overflow_executeInstr warpId hs regs).bind fun s' hs' => ih _ hs' _ _

theorem decodeLoop_sim (hv : P.vectorOps = true) (hfp : K.fp = P.fp) (code : List Instruction)
    (ctx : WarpContext) {s : DivergenceStack} {cu : ComputeUnit}
    (hpc : ctx.pc + code.length ≤ maxProgramLen)
    (h : SimtRel K.threadsPerWarp s (cu.simt.warps ctx.warpId)) (count : Word) :
    Interact.Sim ReqRel RespRel (OutcomeRel ctx.warpId) (fun r => r.simt.overflow = true)
      (decodeLoop P ctx.warpId ctx.pc code s ctx.regs count) (warpLoop K code cu ctx) := by
  induction code generalizing ctx s cu count with
  | nil => exact .ret ⟨rfl, rfl, by simp, by simp, by simp, by simp⟩
  | cons instr rest ih =>
    rw [List.length_cons] at hpc
    unfold decodeLoop warpLoop
    by_cases hh : instr.opcode = .halt
    · rw [if_pos hh, if_pos hh]
      exact .ret ⟨rfl, rfl, by simp, by simp, by simp, by simp⟩
    rw [if_neg hh, if_neg hh]
    by_cases hb : instr.opcode = .barrier
    · rw [if_pos hb, if_pos hb]
      refine .ret ⟨rfl, rfl, by simp, by simp, fun _ => ?_, fun _ => rfl⟩
      dsimp only
      rw [BitVec.toNat_ofNat]
      unfold maxProgramLen at hpc
      omega
    rw [if_neg hb, if_neg hb]
    refine Interact.Sim.bind (executeInstr_sim instr (s := (s, ctx.regs)) (g := (cu.simt, ctx.regs))
      hv hfp ⟨rfl, h⟩) ?_ fun s' hs' => overflow_decodeLoop _ _ _ hs' _ _
    rintro s' g ⟨hregs, hsimt⟩
    rw [hregs]
    exact ih { ctx with pc := ctx.pc + 1, regs := g.2 } (by dsimp only; omega) hsimt _

/-- One dispatch of a warp with all its threads on: the two executors ask the same requests and
report the same. -/
theorem executeDecoded_sim (hv : P.vectorOps = true) (hK : K.threadsPerWarp ≤ 32)
    (hfp : K.fp = P.fp) {code : List Instruction} (hlen : code.length ≤ maxProgramLen)
    {d : WarpDispatch} (hd : d.activeMaskInit = SimtController.fullMask K.threadsPerWarp)
    {ctx : WarpContext} (hpc : ctx.pc = d.resumePc.toNat) (hw : ctx.warpId = d.warpId)
    (cu : ComputeUnit) :
    Interact.Sim ReqRel RespRel (OutcomeRel d.warpId) (fun r => r.simt.overflow = true)
      (executeDecoded P d code ctx.regs) (executeWarp K code cu ctx) := by
  unfold executeDecoded executeWarp
  rw [List.take_of_length_le hlen, hd, ← hpc, ← hw]
  by_cases hle : ctx.pc ≤ code.length
  · refine decodeLoop_sim hv hfp _ { ctx with state := .running } ?_
      (simtRel_initializeWarp hK _ _) 0
    rw [List.length_drop]
    dsimp only
    omega
  · rw [List.drop_eq_nil_of_le (by omega)]
    exact .ret ⟨rfl, rfl, by simp, by simp, by simp, by simp⟩

end Executors

end RiscvGpgpu.Parity
