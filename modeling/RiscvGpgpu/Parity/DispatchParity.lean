import RiscvGpgpu.Golden.GpgpuTop
import RiscvGpgpu.Hls.SoloLaunch
import RiscvGpgpu.Parity.Executor
import RiscvGpgpu.Parity.MemoryRuns

/-!
# One dispatch over the two memories

A dispatch on the flat memory of a CU against the golden `executeWarp` on the golden hierarchy. The
golden address is 64 bits wide and the golden stack has no bound, so the dispatch has to be
`Regular`: no address leaves 32 bits and no branch finds the stack full.
-/

namespace RiscvGpgpu.Parity

open Golden Hls

/-- The address of an access fits in 32 bits. -/
def InRange (base imm : Word) : Prop := (base.setWidth 64 + imm.signExtend 64).toNat < 2 ^ 32

instance (base imm : Word) : Decidable (InRange base imm) := inferInstanceAs (Decidable (_ < _))

/-- The lanes that access the memory compute addresses in range. -/
def LanesInRange (instr : Instruction) (simt : DivergenceStack) (regs : RegFile) : Prop :=
  instr.isMemory = true → ∀ t : Lane, simt.activeMask.active t = true →
    InRange (regs t instr.rs1) instr.imm

instance (instr : Instruction) (simt : DivergenceStack) (regs : RegFile) :
    Decidable (LanesInRange instr simt regs) :=
  inferInstanceAs (Decidable (_ → ∀ _ : Fin 32, _))

/-- The rest of a dispatch over flat memory, from the requests so far on. -/
def Regular (P : PipelineParams) (mem : GlobalMem) (warpId : WarpId) :
    List Instruction → DivergenceStack → RegFile → List MemReq → Prop
  | [], _, _, _ => True
  | instr :: rest, simt, regs, log =>
    instr.opcode ≠ .halt → instr.opcode ≠ .barrier →
      let r := (Hls.executeInstr P warpId instr simt regs).serve (flatServer mem) log
      LanesInRange instr simt regs ∧ r.2.1.overflow = false ∧
        Regular P mem warpId rest r.2.1 r.2.2 r.1

instance decidableRegular (P : PipelineParams) (mem : GlobalMem) (warpId : WarpId) :
    ∀ code simt regs log, Decidable (Regular P mem warpId code simt regs log)
  | [], _, _, _ => .isTrue trivial
  | instr :: rest, simt, regs, log =>
    have := decidableRegular P mem warpId rest
    inferInstanceAs (Decidable (instr.opcode ≠ .halt → instr.opcode ≠ .barrier →
      LanesInRange instr simt regs ∧
        ((Hls.executeInstr P warpId instr simt regs).serve (flatServer mem) log).2.1.overflow =
          false ∧
          Regular P mem warpId rest
            ((Hls.executeInstr P warpId instr simt regs).serve (flatServer mem) log).2.1
            ((Hls.executeInstr P warpId instr simt regs).serve (flatServer mem) log).2.2
            ((Hls.executeInstr P warpId instr simt regs).serve (flatServer mem) log).1))

/-- Flat memory and the golden hierarchy, in related states, answer an allowed request alike. -/
def ServeAlike (mem : GlobalMem) (allowed : MemReq → Prop)
    (R : List MemReq → MemoryHierarchy → Prop) : Prop :=
  ∀ log h req, R log h → allowed req →
    RespRel req (flatServer mem log req).1 (hierarchyRequest h req).1 ∧
      R (log ++ [req]) (hierarchyRequest h req).2

section Accesses

variable {instr : Instruction} {h : MemoryHierarchy}

/-- An access in range is the request of the pipeline. -/
theorem serveAccess_eq (hm : instr.isMemory = true) {r : LaneRegs}
    (hrange : InRange (r instr.rs1) instr.imm) (cuId : CuId) (warpId warpId' : WarpId) (t : Lane) :
    GpgpuTop.serveAccess h (memAccess instr warpId' r t) =
      hierarchyRequest h (memReq cuId warpId instr r t) := by
  have hrel := reqRel_memAccess hm cuId warpId r t
  have haddress : (memReq cuId warpId instr r t).address.setWidth 64 =
      (memAccess instr warpId r t).address := by
    rw [hrel.address]
    refine BitVec.eq_of_toNat_eq ?_
    rw [BitVec.toNat_setWidth, BitVec.toNat_setWidth, Nat.mod_eq_of_lt (a := _ % _) (by omega)]
    exact Nat.mod_eq_of_lt hrange
  unfold GpgpuTop.serveAccess hierarchyRequest
  rw [haddress, hrel.isWrite, hrel.data]
  rfl

end Accesses

section Dispatch

variable {P : PipelineParams} {K : CuConfig} {mask gmask : ThreadMask} {instr : Instruction}
  {mem : GlobalMem} {allowed : MemReq → Prop} {R : List MemReq → MemoryHierarchy → Prop}
  {log : List MemReq} {h : MemoryHierarchy} {warpId warpId' : WarpId}

/-- What is asked first has been asked in the end. -/
theorem mem_serve_ask {A : Type} {req : MemReq} {k : MemResp → Interact MemReq MemResp A}
    (hallowed : ∀ q ∈ ((Interact.ask req k).serve (flatServer mem) log).1, allowed q) :
    allowed req :=
  hallowed req ((prefix_serve mem (log ++ [req]) _).subset (by simp))

/-- The lane loops of the two units. -/
theorem memOpLanes_serve (warpId' : WarpId) (hserve : ServeAlike mem allowed R)
    (hlanes : LanesEq K gmask mask)
    (hm : instr.isMemory = true) (cuId : CuId) {ts : List Lane} (hts : ts.Nodup) {regs : RegFile}
    (hrange : ∀ t ∈ ts, mask.active t = true → InRange (regs t instr.rs1) instr.imm)
    (hR : R log h)
    (hallowed : ∀ req ∈ ((Hls.memOpLanes cuId warpId instr mask ts regs).serve
      (flatServer mem) log).1, allowed req) :
    let p := (Hls.memOpLanes cuId warpId instr mask ts regs).serve (flatServer mem) log
    let q := (Golden.memOpLanes K instr gmask warpId' ts regs).serve GpgpuTop.serveAccess h
    R p.1 q.1 ∧ p.2 = q.2 := by
  induction ts generalizing regs log h with
  | nil => exact ⟨hR, rfl⟩
  | cons t ts ih =>
    obtain ⟨hnot, hts⟩ := List.nodup_cons.1 hts
    have hrest : ∀ t' ∈ ts, mask.active t' = true → InRange (regs t' instr.rs1) instr.imm :=
      fun t' ht' => hrange t' (List.mem_cons_of_mem _ ht')
    unfold Hls.memOpLanes at hallowed ⊢
    unfold Golden.memOpLanes
    rw [hlanes t]
    by_cases ha : mask.active t = true
    · rw [if_pos ha] at hallowed ⊢
      rw [if_pos ha]
      obtain ⟨hresp, hR'⟩ := hserve log h _ hR (mem_serve_ask hallowed)
      have hown := hrange t List.mem_cons_self ha
      rw [← serveAccess_eq hm hown cuId warpId warpId' t] at hresp hR'
      rw [Interact.serve_ask, Interact.serve_ask]
      rw [Interact.serve_ask] at hallowed
      obtain hop | hop := instr.isMemory_iff.1 hm
      · -- the two units write back the same word
        obtain hw | hdata := hresp
        · simp [memReq, hop] at hw
        · rw [if_pos hop] at hallowed ⊢
          rw [if_pos hop, hdata]
          refine ih hts (fun t' ht' ha' => ?_) hR' hallowed
          have hne : t' ≠ t := fun heq => hnot (heq ▸ ht')
          rw [Function.update_of_ne hne]
          exact hrest t' ht' ha'
      · have hne : instr.opcode ≠ .lw := by
          rw [hop]
          decide
        rw [if_neg hne] at hallowed ⊢
        rw [if_neg hne]
        exact ih hts hrest hR' hallowed
    · rw [if_neg ha] at hallowed ⊢
      rw [if_neg ha]
      exact ih hts hrest hR hallowed

/-- An instruction that makes no access asks nothing and does not look at the warp id. -/
theorem hls_executeInstr_ret (hm : instr.isMemory ≠ true) (s : DivergenceStack × RegFile) :
    ∃ r, ∀ warpId, Hls.executeInstr P warpId instr s.1 s.2 = .ret r := by
  unfold Hls.executeInstr
  dsimp only
  split_ifs <;> exact ⟨_, fun _ => rfl⟩

theorem golden_executeInstr_ret (warpId : WarpId) (hm : instr.isMemory ≠ true)
    (g : SimtController × RegFile) :
    ∃ r, Golden.executeInstr K warpId instr g.1 g.2 = .ret r := by
  unfold Golden.executeInstr
  dsimp only
  split_ifs <;> exact ⟨_, rfl⟩

/-- One instruction of the two units. -/
theorem executeInstr_serve (hserve : ServeAlike mem allowed R) (hv : P.vectorOps = true)
    (hfp : K.fp = P.fp) {s : DivergenceStack × RegFile} {g : SimtController × RegFile}
    (hst : StateRel K.threadsPerWarp warpId' s g) (hrange : LanesInRange instr s.1 s.2)
    (hR : R log h)
    (hover : ((Hls.executeInstr P warpId instr s.1 s.2).serve (flatServer mem) log).2.1.overflow =
      false)
    (hallowed : ∀ req ∈ ((Hls.executeInstr P warpId instr s.1 s.2).serve (flatServer mem) log).1,
      allowed req) :
    let p := (Hls.executeInstr P warpId instr s.1 s.2).serve (flatServer mem) log
    let q := (Golden.executeInstr K warpId' instr g.1 g.2).serve GpgpuTop.serveAccess h
    R p.1 q.1 ∧ StateRel K.threadsPerWarp warpId' p.2 q.2 := by
  by_cases hm : instr.isMemory = true
  · have hb : instr.opcode ≠ .vbranch := by
      rintro hop
      obtain h' | h' := instr.isMemory_iff.1 hm <;> rw [hop] at h' <;> cases h'
    have hj : instr.opcode ≠ .vjoin := by
      rintro hop
      obtain h' | h' := instr.isMemory_iff.1 hm <;> rw [hop] at h' <;> cases h'
    unfold Hls.executeInstr at hallowed ⊢
    unfold Golden.executeInstr
    dsimp only at hallowed ⊢
    rw [if_neg hb, if_neg hj, if_pos hm, Interact.serve_map] at hallowed ⊢
    rw [if_neg hb, if_neg hj, if_pos hm, Interact.serve_map, ← hst.regs]
    obtain ⟨hR', hregs⟩ := memOpLanes_serve warpId' hserve hst.lanesEq hm P.cuId
      (List.nodup_finRange 32) (fun t _ => hrange hm t) hR hallowed
    exact ⟨hR', hregs, hst.simt⟩
  · obtain ⟨r, hr⟩ := hls_executeInstr_ret (P := P) hm s
    obtain ⟨r', hr'⟩ := golden_executeInstr_ret (K := K) warpId' hm g
    have hsim := executeInstr_sim (P := P) instr hv hfp hst
    rw [hr, hr'] at hsim
    rw [hr] at hover
    rw [hr, hr']
    refine ⟨hR, ?_⟩
    cases hsim with
    | ret hrel => exact hrel
    | doomed hbad => exact absurd (hbad.symm.trans hover) (by decide)

/-- The rest of a dispatch of the two units. -/
theorem decodeLoop_serve (hserve : ServeAlike mem allowed R) (hv : P.vectorOps = true)
    (hfp : K.fp = P.fp) (code : List Instruction) (ctx : WarpContext) {s : DivergenceStack}
    {cu : ComputeUnit} (hpc : ctx.pc + code.length ≤ maxProgramLen)
    (hst : SimtRel K.threadsPerWarp s (cu.simt.warps ctx.warpId)) (count : Word)
    (hregular : Regular P mem warpId code s ctx.regs log) (hR : R log h)
    (hallowed : ∀ req ∈ ((decodeLoop P warpId ctx.pc code s ctx.regs count).serve
      (flatServer mem) log).1, allowed req) :
    let p := (decodeLoop P warpId ctx.pc code s ctx.regs count).serve (flatServer mem) log
    let q := (warpLoop K code cu ctx).serve GpgpuTop.serveAccess h
    R p.1 q.1 ∧ OutcomeRel ctx.warpId p.2 q.2 := by
  induction code generalizing ctx s cu count log h with
  | nil => exact ⟨hR, rfl, rfl, by simp [decodeLoop, warpLoop], by simp [decodeLoop, warpLoop],
      by simp [decodeLoop], by simp [decodeLoop]⟩
  | cons instr rest ih =>
    rw [List.length_cons] at hpc
    unfold decodeLoop at hallowed ⊢
    unfold warpLoop
    by_cases hh : instr.opcode = .halt
    · rw [if_pos hh, if_pos hh]
      exact ⟨hR, rfl, rfl, by simp, by simp, by simp, by simp⟩
    rw [if_neg hh] at hallowed ⊢
    rw [if_neg hh]
    by_cases hb : instr.opcode = .barrier
    · rw [if_pos hb, if_pos hb]
      refine ⟨hR, rfl, rfl, by simp, by simp, fun _ => ?_, fun _ => rfl⟩
      dsimp only [Interact.serve_ret]
      rw [BitVec.toNat_ofNat]
      unfold maxProgramLen at hpc
      omega
    rw [if_neg hb, Interact.serve_bind] at hallowed ⊢
    rw [if_neg hb, Interact.serve_bind]
    obtain ⟨hrange, hover, hrest⟩ := hregular hh hb
    obtain ⟨hR', hst'⟩ := executeInstr_serve (s := (s, ctx.regs)) (g := (cu.simt, ctx.regs))
      hserve hv hfp ⟨rfl, hst⟩ hrange hR hover
      fun req hreq => hallowed req ((prefix_serve mem _ _).subset hreq)
    rw [hst'.regs] at hallowed hrest ⊢
    exact ih { ctx with pc := ctx.pc + 1, regs := _ } (by dsimp only; omega) hst'.simt _ hrest hR'
      hallowed

end Dispatch

/-! ## A whole dispatch -/

section Execute

variable {L : Launch} {c : L.Cus} {mem : GlobalMem}

/-- The golden unit can follow the dispatch that comes after the run `solo`. -/
def RegularDispatch (c : L.Cus) (mem : GlobalMem) (solo : Solo) (d : WarpDispatch) : Prop :=
  Regular (L.pipelineParams c) mem d.warpId
    (((decodeProgram L.program L.programLen).take maxProgramLen).drop d.resumePc.toNat)
    (.initializeWarp d.activeMaskInit) (solo.regs d.slotId) solo.log

instance (solo : Solo) (d : WarpDispatch) : Decidable (RegularDispatch c mem solo d) :=
  decidableRegular _ _ _ _ _ _ _

/-- The build and the golden configuration compute the same functions. -/
structure SameUnits (L : Launch) (K : CuConfig) : Prop where
  threads : K.threadsPerWarp = 32
  fp : K.fp = L.fp
  vectorOps : L.vectorOps = true

/-- One dispatch of the two units. -/
theorem execute_serve {allowed : MemReq → Prop} {R : List MemReq → MemoryHierarchy → Prop}
    {K : CuConfig} {solo : Solo} {h : MemoryHierarchy} {d : WarpDispatch} {ctx : WarpContext}
    (hserve : ServeAlike mem allowed R) (hunits : SameUnits L K)
    (hd : d.activeMaskInit = BitVec.allOnes 32) (hpc : ctx.pc = d.resumePc.toNat)
    (hregs : ctx.regs = solo.regs d.slotId) (cu : ComputeUnit)
    (hregular : RegularDispatch c mem solo d) (hR : R solo.log h)
    (hallowed : ∀ req ∈ (L.soloDispatch c mem solo d).log, allowed req) :
    let p := (L.execute c d (solo.regs d.slotId)).serve (flatServer mem) solo.log
    let q := (executeWarp K (decodeProgram L.program L.programLen) cu ctx).serve
      GpgpuTop.serveAccess h
    R p.1 q.1 ∧ OutcomeRel ctx.warpId p.2 q.2 := by
  have hlen := length_decodeProgram L.program L.programLen
  have hfull : BitVec.allOnes 32 = SimtController.fullMask K.threadsPerWarp := by
    rw [hunits.threads]
    rfl
  unfold RegularDispatch at hregular
  unfold Launch.soloDispatch at hallowed
  unfold Launch.execute executeOneWarp executeDecoded at hallowed ⊢
  unfold executeWarp
  rw [List.take_of_length_le hlen, ← hregs, ← hpc] at hallowed hregular ⊢
  rw [hd, hfull] at hallowed hregular ⊢
  by_cases hle : ctx.pc ≤ (decodeProgram L.program L.programLen).length
  · refine decodeLoop_serve (P := L.pipelineParams c) hserve hunits.vectorOps hunits.fp _
      { ctx with state := .running } ?_
      (simtRel_initializeWarp (by rw [hunits.threads]) _ _) 0 hregular hR hallowed
    rw [List.length_drop]
    dsimp only
    omega
  · rw [List.drop_eq_nil_of_le (by omega)]
    exact ⟨hR, rfl, rfl, by simp [decodeLoop, warpLoop], by simp [decodeLoop, warpLoop],
      by simp [decodeLoop], by simp [decodeLoop]⟩

end Execute

end RiscvGpgpu.Parity
