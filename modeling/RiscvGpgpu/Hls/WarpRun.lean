import RiscvGpgpu.Hls.ComputePipeline

/-!
# Warp runs over a read-only memory

A warp is run to `COMPLETE` by dispatching it again after each `BARRIER`, from the program index
its last status reported. When the memory is a fixed ROM a whole run is a function of the initial
registers: `warpWalk`, one pass over the code that re-initialises the divergence stack at each
barrier. `laneStep` is what one instruction does to the registers of one active lane.
-/

namespace RiscvGpgpu.Hls

/-- A program store holding the given words from address 0 on, as `loadProgram` fills it. -/
def programStore (words : List RawInstr) : Vector RawInstr maxProgramLen :=
  Vector.ofFn fun i => words.getD i 0

theorem decodeProgram_programStore {words : List RawInstr} (h : words.length ≤ maxProgramLen) :
    decodeProgram (programStore words) (BitVec.ofNat 32 words.length) =
      words.map decodeInstruction := by
  have hlen : words.length % 2 ^ 32 = words.length := by
    unfold maxProgramLen at h; omega
  unfold decodeProgram
  rw [BitVec.toNat_ofNat, hlen]
  congr 1
  refine List.ext_getElem (by simpa [programStore] using h) fun i hi hi' => ?_
  simp [programStore, List.getElem?_eq_getElem hi']

theorem length_decodeProgram (program : Vector RawInstr maxProgramLen) (programLen : Word) :
    (decodeProgram program programLen).length ≤ maxProgramLen := by
  simp [decodeProgram]

/-- A shorter program length runs a prefix of the code. -/
theorem decodeProgram_take (program : Vector RawInstr maxProgramLen) {n : ℕ} {programLen : Word}
    (h : n ≤ programLen.toNat) :
    decodeProgram program (BitVec.ofNat 32 n) = (decodeProgram program programLen).take n := by
  have hn : n % 2 ^ 32 = n := Nat.mod_eq_of_lt (by omega)
  unfold decodeProgram
  rw [BitVec.toNat_ofNat, hn, ← List.map_take, List.take_take, Nat.min_eq_left h]

/-! ## Dispatching again after each barrier -/

/-- At most `fuel + 1` dispatches of one warp: again after each stall, with the same mask and from
the program index the stall reported. -/
def runToComplete (P : PipelineParams) (program : Vector RawInstr maxProgramLen)
    (programLen : Word) : ℕ → WarpDispatch → RegFile → Interact MemReq MemResp WarpResult
  | 0, d, regs => executeOneWarp P d program programLen regs
  | fuel + 1, d, regs =>
    (executeOneWarp P d program programLen regs).bind fun res =>
      if res.status.code = .stalledAtBarrier then
        runToComplete P program programLen fuel
          { d with resumePc := res.status.resumePc, freshLaunch := false } res.regs
      else .ret res

/-- The response of a memory that holds `rom` and ignores stores. -/
def romResp (rom : Addr → Word) (q : MemReq) : MemResp where
  cuId := q.cuId
  warpId := q.warpId
  laneId := q.laneId
  data := rom q.address

/-- A run against the ROM. -/
def serveRom {R : Type} (rom : Addr → Word) (p : Interact MemReq MemResp R) : R :=
  (p.serve (Interact.stateless (romResp rom)) ()).2

@[simp] theorem serveRom_ret {R : Type} (rom : Addr → Word) (r : R) :
    serveRom rom (.ret r) = r := rfl

@[simp] theorem serveRom_ask {R : Type} (rom : Addr → Word) (q : MemReq)
    (k : MemResp → Interact MemReq MemResp R) :
    serveRom rom (.ask q k) = serveRom rom (k (romResp rom q)) := rfl

@[simp] theorem serveRom_bind {R R' : Type} (rom : Addr → Word) (p : Interact MemReq MemResp R)
    (f : R → Interact MemReq MemResp R') :
    serveRom rom (p.bind f) = serveRom rom (f (serveRom rom p)) := by
  unfold serveRom; rw [Interact.serve_bind]

@[simp] theorem serveRom_map {R R' : Type} (rom : Addr → Word) (p : Interact MemReq MemResp R)
    (f : R → R') : serveRom rom (p.map f) = f (serveRom rom p) := by
  unfold Interact.map; rw [serveRom_bind, serveRom_ret]

/-! ## One instruction -/

/-- What an instruction does to the registers of one active lane, loads answered by `rom`. -/
def laneStep (P : PipelineParams) (rom : Addr → Word) (instr : Instruction) (r : LaneRegs) :
    LaneRegs :=
  if instr.opcode = .lw then Function.update r instr.rd (rom (r instr.rs1 + instr.imm))
  else if instr.opcode = .sw then r
  else if P.vectorOps && instr.isVector then writeReg r instr.rd (vectorResult P.fp instr r)
  else writeReg r instr.rd (aluResult P.fp instr r)

theorem serveRom_memOpLanes (rom : Addr → Word) (P : PipelineParams) (warpId : WarpId)
    {instr : Instruction} (hm : instr.isMemory = true) (mask : ThreadMask) (ts : List Lane)
    (hts : ts.Nodup) (regs : RegFile) (t : Lane) :
    serveRom rom (memOpLanes P.cuId warpId instr mask ts regs) t =
      if t ∈ ts ∧ mask.active t = true then laneStep P rom instr (regs t) else regs t := by
  induction ts generalizing regs with
  | nil => simp [memOpLanes]
  | cons t' ts ih =>
    obtain ⟨hnot, hts⟩ := List.nodup_cons.1 hts
    unfold memOpLanes
    by_cases ha : mask.active t' = true
    · rw [if_pos ha, serveRom_ask, ih hts]
      by_cases heq : t = t'
      · subst heq
        simp only [hnot, ha, false_and, if_false, List.mem_cons_self, true_and, if_true]
        obtain hop | hop := instr.isMemory_iff.1 hm
        · simp [laneStep, hop, romResp, memReq]
        · simp [laneStep, hop]
      · have hregs (v : LaneRegs) :
            (if instr.opcode = .lw then Function.update regs t' v else regs) t = regs t := by
          split
          · exact Function.update_of_ne heq _ _
          · rfl
        rw [hregs]
        simp [heq]
    · rw [if_neg ha, ih hts]
      by_cases heq : t = t'
      · subst heq
        rw [if_neg (fun h => ha h.2), if_neg (fun h => ha h.2)]
      · simp [heq]

/-- The divergence stack and the registers after one instruction. -/
def warpStep (P : PipelineParams) (rom : Addr → Word) (instr : Instruction)
    (simt : DivergenceStack) (regs : RegFile) : DivergenceStack × RegFile :=
  if instr.opcode = .vbranch then (executeBranch simt regs instr simt.activeMask, regs)
  else if instr.opcode = .vjoin then (executeJoin simt, regs)
  else (simt, fun t =>
    if simt.activeMask.active t then laneStep P rom instr (regs t) else regs t)

theorem serveRom_executeInstr (P : PipelineParams) (rom : Addr → Word) (warpId : WarpId)
    (instr : Instruction) (simt : DivergenceStack) (regs : RegFile) :
    serveRom rom (executeInstr P warpId instr simt regs) = warpStep P rom instr simt regs := by
  unfold executeInstr warpStep
  dsimp only
  by_cases hb : instr.opcode = .vbranch
  · rw [if_pos hb, if_pos hb, serveRom_ret]
  rw [if_neg hb, if_neg hb]
  by_cases hj : instr.opcode = .vjoin
  · rw [if_pos hj, if_pos hj, serveRom_ret]
  rw [if_neg hj, if_neg hj]
  by_cases hm : instr.isMemory = true
  · rw [if_pos hm, serveRom_map]
    refine Prod.ext rfl (funext fun t => ?_)
    have hlanes := serveRom_memOpLanes rom P warpId hm simt.activeMask _
      (List.nodup_finRange 32) regs t
    simp only [List.mem_finRange, true_and] at hlanes
    exact hlanes
  · have hl : instr.opcode ≠ .lw := fun h => hm (instr.isMemory_iff.2 (.inl h))
    have hs : instr.opcode ≠ .sw := fun h => hm (instr.isMemory_iff.2 (.inr h))
    rw [if_neg hm]
    simp only [laneStep, if_neg hl, if_neg hs]
    by_cases hv : (P.vectorOps && instr.isVector) = true
    · simp only [hv, if_true]
      rfl
    · simp only [hv]
      rfl

/-- The state before the next instruction of a run: a barrier stalls the warp, and its next
dispatch starts on a fresh stack. -/
def warpNext (P : PipelineParams) (rom : Addr → Word) (mask : ThreadMask) (instr : Instruction)
    (s : DivergenceStack × RegFile) : DivergenceStack × RegFile :=
  if instr.opcode = .barrier then (.initializeWarp mask, s.2)
  else warpStep P rom instr s.1 s.2

/-! ## A whole run -/

/-- A run from a given state over the code that remains: the divergence stack and the registers it
ends with. -/
def warpWalk (P : PipelineParams) (rom : Addr → Word) (mask : ThreadMask) :
    List Instruction → DivergenceStack × RegFile → DivergenceStack × RegFile
  | [], s => s
  | instr :: rest, s =>
    if instr.opcode = .halt then s else warpWalk P rom mask rest (warpNext P rom mask instr s)

section Run

variable (P : PipelineParams) (rom : Addr → Word) (program : Vector RawInstr maxProgramLen)
  (programLen : Word) (d : WarpDispatch)

/-- The rest of a run that stands at index `i` of the program. -/
theorem serveRom_decodeLoop_bind {fuel i : ℕ} {rest : List Instruction}
    (hrest : (decodeProgram program programLen).drop i = rest) (hfuel : rest.length ≤ fuel)
    (simt : DivergenceStack) (regs : RegFile) (count : Word) :
    ∃ res, serveRom rom
        ((decodeLoop P d.warpId i rest simt regs count).bind fun res =>
          if res.status.code = .stalledAtBarrier then
            (runToComplete P program programLen fuel
              { d with resumePc := res.status.resumePc, freshLaunch := false } res.regs)
          else .ret res) = res ∧
      res.status.code = .complete ∧
      (res.simt, res.regs) = warpWalk P rom d.activeMaskInit rest (simt, regs) := by
  induction rest generalizing fuel i simt regs count d with
  | nil => exact ⟨_, rfl, rfl, rfl⟩
  | cons instr rest ih =>
    unfold decodeLoop warpWalk
    have hrest' : (decodeProgram program programLen).drop (i + 1) = rest := by
      rw [← List.tail_drop, hrest, List.tail_cons]
    by_cases hh : instr.opcode = .halt
    · rw [if_pos hh, if_pos hh]
      exact ⟨_, rfl, rfl, rfl⟩
    rw [if_neg hh, if_neg hh]
    by_cases hb : instr.opcode = .barrier
    · rw [if_pos hb, warpNext, if_pos hb, Interact.ret_bind, if_pos rfl]
      obtain ⟨fuel, rfl⟩ : ∃ k, fuel = k + 1 :=
        ⟨fuel - 1, by rw [List.length_cons] at hfuel; omega⟩
      -- the stall reports `i + 1`, and the next dispatch starts there on a fresh stack
      have hi : i + 1 ≤ maxProgramLen := by
        have hlt : i < (decodeProgram program programLen).length := by
          by_contra hge
          rw [List.drop_eq_nil_of_le (by omega)] at hrest
          exact List.cons_ne_nil _ _ hrest.symm
        have := length_decodeProgram program programLen
        omega
      have hpc : (BitVec.ofNat 16 (i + 1)).toNat = i + 1 := by
        rw [BitVec.toNat_ofNat]; unfold maxProgramLen at hi; omega
      unfold runToComplete executeOneWarp executeDecoded
      dsimp only
      rw [hpc, List.take_of_length_le (length_decodeProgram _ _), hrest']
      exact ih _ hrest' (by rw [List.length_cons] at hfuel; omega) _ _ _
    · rw [if_neg hb, warpNext, if_neg hb]
      have hstep := ih d hrest' (show rest.length ≤ fuel by rw [List.length_cons] at hfuel; omega)
        (warpStep P rom instr simt regs).1 (warpStep P rom instr simt regs).2 (count + 1)
      rw [serveRom_bind] at hstep
      rw [serveRom_bind, serveRom_bind, serveRom_executeInstr]
      exact hstep

/-- Enough dispatches run a warp to `COMPLETE`, and the run is the walk over the code. -/
theorem serveRom_runToComplete (hd : d.resumePc = 0#16) (regs : RegFile) :
    let res := serveRom rom (runToComplete P program programLen (maxProgramLen + 1) d regs)
    res.status.code = .complete ∧
      (res.simt, res.regs) = warpWalk P rom d.activeMaskInit (decodeProgram program programLen)
        (.initializeWarp d.activeMaskInit, regs) := by
  obtain ⟨res, hres, hcode, hwalk⟩ := serveRom_decodeLoop_bind P rom program programLen d
    (rfl : (decodeProgram program programLen).drop 0 = _)
    (length_decodeProgram program programLen) (.initializeWarp d.activeMaskInit) regs 0
  have hrun :
      serveRom rom (runToComplete P program programLen (maxProgramLen + 1) d regs) = res := by
    unfold runToComplete executeOneWarp executeDecoded
    rw [hd, List.take_of_length_le (length_decodeProgram _ _)]
    exact hres
  rw [hrun]
  exact ⟨hcode, hwalk⟩

end Run

end RiscvGpgpu.Hls
