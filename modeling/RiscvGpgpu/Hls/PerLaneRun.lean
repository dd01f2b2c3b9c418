import RiscvGpgpu.Hls.PerLane

/-!
# Runs against the per-lane rule

The step lemmas of the divergence stack lifted to whole runs, and the exact condition under which
`executeOneWarp` gives every lane the meaning of the per-thread rule.
-/

namespace RiscvGpgpu.Hls

/-! ## Whole runs -/

section Run

variable {P : PipelineParams} {rom : Addr → Word} {mask : ThreadMask}

/-- Whenever a lane waits at a `VBRANCH`, some lane that reaches it jumps. -/
def SeparatedFrom (P : PipelineParams) (rom : Addr → Word) (mask : ThreadMask)
    (code : List Instruction) (lanes : Lane → ℕ × LaneRegs) : Prop :=
  ∀ n instr, code[n]? = some instr → instr.opcode = .vbranch →
    Waiting mask (fun t => laneWalk P rom (code.take n) (lanes t)) →
      ∃ t, Jumps mask instr (fun t => laneWalk P rom (code.take n) (lanes t)) t

/-- No `VJOIN` of the run wakes a lane that still waits for another one. -/
def JoinsSafeFrom (P : PipelineParams) (rom : Addr → Word) (mask : ThreadMask)
    (code : List Instruction) (s : DivergenceStack × RegFile) (lanes : Lane → ℕ × LaneRegs) :
    Prop :=
  ∀ n instr, code[n]? = some instr → instr.opcode = .vjoin → ∀ t, mask.active t = true →
    (warpWalk P rom mask (code.take (n + 1)) s).1.activeMask.active t = true →
      (laneWalk P rom (code.take (n + 1)) (lanes t)).1 = 0

variable {instr : Instruction} {rest : List Instruction} {depth : ℕ}
  {s : DivergenceStack × RegFile} {lanes : Lane → ℕ × LaneRegs}

theorem warpWalk_cons (hh : instr.opcode ≠ .halt) (code : List Instruction) :
    warpWalk P rom mask (instr :: code) s =
      warpWalk P rom mask code (warpNext P rom mask instr s) := by
  rw [warpWalk, if_neg hh]

theorem laneWalk_cons (hh : instr.opcode ≠ .halt) (code : List Instruction) (l : ℕ × LaneRegs) :
    laneWalk P rom (instr :: code) l = laneWalk P rom code (laneNext P rom instr l) := by
  rw [laneWalk, if_neg (fun h => hh h.1)]

theorem separatedFrom_cons (hh : instr.opcode ≠ .halt) :
    SeparatedFrom P rom mask (instr :: rest) lanes ↔
      (instr.opcode = .vbranch → Waiting mask lanes → ∃ t, Jumps mask instr lanes t) ∧
        SeparatedFrom P rom mask rest (fun t => laneNext P rom instr (lanes t)) := by
  constructor
  · refine fun h => ⟨fun hb => h 0 instr rfl hb, fun n i hi hb => ?_⟩
    have := h (n + 1) i hi hb
    simp only [List.take_succ_cons, laneWalk_cons hh] at this
    exact this
  · rintro ⟨hhead, htail⟩ (_ | n) i hi hb
    · obtain rfl : instr = i := by simpa using hi
      exact hhead hb
    · simp only [List.take_succ_cons, laneWalk_cons hh]
      exact htail n i hi hb

theorem joinsSafeFrom_cons (hh : instr.opcode ≠ .halt) :
    JoinsSafeFrom P rom mask (instr :: rest) s lanes ↔
      (instr.opcode = .vjoin → ∀ t, mask.active t = true →
        (warpNext P rom mask instr s).1.activeMask.active t = true →
          (laneNext P rom instr (lanes t)).1 = 0) ∧
        JoinsSafeFrom P rom mask rest (warpNext P rom mask instr s)
          (fun t => laneNext P rom instr (lanes t)) := by
  constructor
  · refine fun h => ⟨fun hj t ht hact => ?_, fun n i hi hj t ht hact => ?_⟩
    · have := h 0 instr rfl hj t ht
      rw [List.take_succ_cons, List.take_zero, warpWalk_cons hh, laneWalk_cons hh] at this
      exact this hact
    · have := h (n + 1) i hi hj t ht
      rw [List.take_succ_cons, warpWalk_cons hh, laneWalk_cons hh] at this
      exact this hact
  · rintro ⟨hhead, htail⟩ (_ | n) i hi hj t ht hact
    · obtain rfl : instr = i := by simpa using hi
      rw [List.take_succ_cons, List.take_zero, warpWalk_cons hh] at hact
      rw [List.take_succ_cons, List.take_zero, laneWalk_cons hh]
      exact hhead hj t ht hact
    · rw [List.take_succ_cons, warpWalk_cons hh] at hact
      rw [List.take_succ_cons, laneWalk_cons hh]
      exact htail n i hi hj t ht hact

variable (P rom) in
/-- At a `HALT` no lane waits, and every walk stops. -/
theorem Synced.halt (h : Synced mask depth s lanes) (hn : wellNested depth (instr :: rest) = true)
    (hh : instr.opcode = .halt) {t : Lane} (ht : mask.active t = true) :
    (lanes t).1 = 0 ∧ ∀ code, laneWalk P rom (instr :: code) (lanes t) = lanes t := by
  have hz := (wellNested_cons hn).2.2 (.inr hh)
  have hskip : (lanes t).1 = 0 := Nat.le_zero.1 (hz ▸ h.bound t ht)
  exact ⟨hskip, fun code => by rw [laneWalk, if_pos ⟨hh, hskip⟩]⟩

theorem Synced.joinsSafeFrom_halt (h : Synced mask depth s lanes)
    (hn : wellNested depth (instr :: rest) = true) (hh : instr.opcode = .halt) :
    JoinsSafeFrom P rom mask (instr :: rest) s lanes := by
  intro n i _ _ t ht _
  rw [List.take_succ_cons, (h.halt P rom hn hh ht).2]
  exact (h.halt P rom hn hh ht).1

theorem Synced.separatedFrom_halt (h : Synced mask depth s lanes)
    (hn : wellNested depth (instr :: rest) = true) (hh : instr.opcode = .halt) :
    SeparatedFrom P rom mask (instr :: rest) lanes := by
  rintro (_ | n) i hi hb ⟨t, ht, hne⟩
  · obtain rfl : instr = i := by simpa using hi
    rw [hh] at hb
    exact absurd hb (by decide)
  · dsimp only at hne
    rw [List.take_succ_cons, (h.halt P rom hn hh ht).2] at hne
    exact absurd (h.halt P rom hn hh ht).1 hne

/-- Separated runs follow the per-lane rule. -/
theorem perLane_of_separatedFrom (h : Synced mask depth s lanes)
    (hl : Levels mask (fun t => (lanes t).1) 1 s.1.notTakenStack) {code : List Instruction}
    (hn : wellNested depth code = true) (hsep : SeparatedFrom P rom mask code lanes) :
    JoinsSafeFrom P rom mask code s lanes ∧
      ∀ t, mask.active t = true →
        (warpWalk P rom mask code s).2 t = (laneWalk P rom code (lanes t)).2 := by
  induction code generalizing depth s lanes with
  | nil => exact ⟨fun n i hi => by simp at hi, h.regs⟩
  | cons instr rest ih =>
    by_cases hh : instr.opcode = .halt
    · refine ⟨h.joinsSafeFrom_halt hn hh, fun t ht => ?_⟩
      rw [warpWalk, if_pos hh, (h.halt P rom hn hh ht).2]
      exact h.regs t ht
    · obtain ⟨hhead, htail⟩ := (separatedFrom_cons hh).1 hsep
      obtain ⟨hsync, hlev⟩ := levels_next P rom h hl hn hhead
      obtain ⟨hsafe, hregs⟩ := ih hsync hlev (wellNested_cons hn).1 htail
      refine ⟨(joinsSafeFrom_cons hh).2 ⟨fun _ t ht hact => ((hsync.active t).1 hact).2, hsafe⟩,
        fun t ht => ?_⟩
      rw [warpWalk_cons hh, laneWalk_cons hh]
      exact hregs t ht

/-- A gap is inside a region. -/
theorem Synced.depth_ne_zero (h : Synced mask depth s lanes)
    (hg : Gap mask (fun t => (lanes t).1) 1 s.1.notTakenStack) : depth ≠ 0 := by
  rintro rfl
  have hnil := List.eq_nil_of_length_eq_zero (Nat.le_zero.1 h.height)
  rw [hnil] at hg
  exact hg

/-- A gap is closed by a join that wakes a lane too early: the code is balanced. -/
theorem not_joinsSafeFrom_of_gap (h : Synced mask depth s lanes)
    (hg : Gap mask (fun t => (lanes t).1) 1 s.1.notTakenStack) {code : List Instruction}
    (hn : wellNested depth code = true) : ¬ JoinsSafeFrom P rom mask code s lanes := by
  induction code generalizing depth s lanes with
  | nil => exact absurd (by simpa [wellNested] using hn) (h.depth_ne_zero hg)
  | cons instr rest ih =>
    have hh : instr.opcode ≠ .halt :=
      fun hh => h.depth_ne_zero hg ((wellNested_cons hn).2.2 (.inr hh))
    intro hsafe
    obtain ⟨hhead, htail⟩ := (joinsSafeFrom_cons hh).1 hsafe
    obtain ⟨hsync, hgap⟩ := gap_next h hg hn hhead
    exact ih hsync hgap (wellNested_cons hn).1 htail

theorem separatedFrom_of_joinsSafeFrom (h : Synced mask depth s lanes)
    (hl : Levels mask (fun t => (lanes t).1) 1 s.1.notTakenStack) {code : List Instruction}
    (hn : wellNested depth code = true) (hsafe : JoinsSafeFrom P rom mask code s lanes) :
    SeparatedFrom P rom mask code lanes := by
  induction code generalizing depth s lanes with
  | nil => exact fun n i hi => by simp at hi
  | cons instr rest ih =>
    by_cases hh : instr.opcode = .halt
    · exact h.separatedFrom_halt hn hh
    · have htail := ((joinsSafeFrom_cons hh).1 hsafe).2
      have hnext := (wellNested_cons hn).1
      have hhead : instr.opcode = .vbranch → Waiting mask lanes →
          ∃ t, Jumps mask instr lanes t := by
        intro hb hw
        by_contra hnone
        obtain ⟨hsync, hgap⟩ := gap_opens P rom h hl hb
          ((wellNested_cons hn).2.1 hb) hw hnone
        rw [depthAfter, if_pos hb] at hnext
        exact not_joinsSafeFrom_of_gap hsync hgap hnext htail
      obtain ⟨hsync, hlev⟩ := levels_next P rom h hl hn hhead
      exact (separatedFrom_cons hh).2 ⟨hhead, ih hsync hlev hnext htail⟩

variable (mask) in
theorem synced_initializeWarp (regs : RegFile) :
    Synced mask 0 (.initializeWarp mask, regs) (fun t => (0, regs t)) where
  active := fun t => by simp [DivergenceStack.initializeWarp]
  regs := fun _ _ => rfl
  height := le_rfl
  bound := fun _ _ => le_rfl

end Run

/-! ## The executor and the per-lane rule -/

/-- The run of a warp to `COMPLETE` against the ROM. -/
def warpRun (P : PipelineParams) (rom : Addr → Word) (program : Vector RawInstr maxProgramLen)
    (programLen : Word) (d : WarpDispatch) (regs : RegFile) : WarpResult :=
  serveRom rom (runToComplete P program programLen (maxProgramLen + 1) d regs)

/-- The number of joins a lane waits for after the given code. -/
def laneSkip (P : PipelineParams) (rom : Addr → Word) (code : List Instruction) (r : LaneRegs) :
    ℕ := (laneWalk P rom code (0, r)).1

/-- The run ends, every initially active lane has the registers of its own run, and a `VJOIN` wakes
only lanes that wait for no other: the program cut off behind it leaves no such lane active. -/
structure PerLaneSemantics (P : PipelineParams) (rom : Addr → Word)
    (program : Vector RawInstr maxProgramLen) (programLen : Word) (d : WarpDispatch)
    (regs : RegFile) : Prop where
  complete : (warpRun P rom program programLen d regs).status.code = .complete
  registers : ∀ t, d.activeMaskInit.active t = true →
    (warpRun P rom program programLen d regs).regs t =
      laneRun P rom (decodeProgram program programLen) (regs t)
  joins : ∀ n instr, (decodeProgram program programLen)[n]? = some instr →
    instr.opcode = .vjoin → ∀ t, d.activeMaskInit.active t = true →
      (warpRun P rom program (BitVec.ofNat 32 (n + 1)) d regs).simt.activeMask.active t = true →
        laneSkip P rom ((decodeProgram program programLen).take (n + 1)) (regs t) = 0

/-- Whenever an initially active lane waits at a `VBRANCH`, masked by an enclosing one, some lane
that reaches it has a non-zero `rs1`. -/
def Separated (P : PipelineParams) (rom : Addr → Word) (code : List Instruction)
    (mask : ThreadMask) (regs : RegFile) : Prop :=
  ∀ n instr, code[n]? = some instr → instr.opcode = .vbranch →
    (∃ t, mask.active t = true ∧ laneSkip P rom (code.take n) (regs t) ≠ 0) →
      ∃ t, mask.active t = true ∧ laneSkip P rom (code.take n) (regs t) = 0 ∧
        laneRun P rom (code.take n) (regs t) instr.rs1 ≠ 0#32

section Main

variable (P : PipelineParams) (rom : Addr → Word) (program : Vector RawInstr maxProgramLen)
  (programLen : Word) (d : WarpDispatch) (regs : RegFile)

theorem warpRun_eq_warpWalk (hd : d.resumePc = 0#16) :
    (warpRun P rom program programLen d regs).status.code = .complete ∧
      (warpRun P rom program programLen d regs).simt =
        (warpWalk P rom d.activeMaskInit (decodeProgram program programLen)
          (.initializeWarp d.activeMaskInit, regs)).1 ∧
      (warpRun P rom program programLen d regs).regs =
        (warpWalk P rom d.activeMaskInit (decodeProgram program programLen)
          (.initializeWarp d.activeMaskInit, regs)).2 := by
  obtain ⟨hcomplete, hwalk⟩ := serveRom_runToComplete P rom program programLen d hd regs
  exact ⟨hcomplete, congrArg Prod.fst hwalk, congrArg Prod.snd hwalk⟩

/-- A run gives every lane its per-thread meaning exactly when it is separated. -/
theorem perLaneSemantics_iff_separated (hd : d.resumePc = 0#16)
    (hn : wellNested 0 (decodeProgram program programLen) = true) :
    PerLaneSemantics P rom program programLen d regs ↔
      Separated P rom (decodeProgram program programLen) d.activeMaskInit regs := by
  set code := decodeProgram program programLen with hcode
  have hsync := synced_initializeWarp d.activeMaskInit regs
  have hlev : Levels d.activeMaskInit (fun _ => 0) 1
      (DivergenceStack.initializeWarp d.activeMaskInit).notTakenStack := fun _ _ => one_pos
  have hsep : Separated P rom code d.activeMaskInit regs ↔
      SeparatedFrom P rom d.activeMaskInit code (fun t => (0, regs t)) := by
    simp only [Separated, SeparatedFrom, Waiting, Jumps, laneSkip, laneRun_eq_laneWalk]
  have hjoins : (∀ n instr, code[n]? = some instr → instr.opcode = .vjoin →
      ∀ t, d.activeMaskInit.active t = true →
      (warpRun P rom program (BitVec.ofNat 32 (n + 1)) d regs).simt.activeMask.active t = true →
        laneSkip P rom (code.take (n + 1)) (regs t) = 0) ↔
      JoinsSafeFrom P rom d.activeMaskInit code (.initializeWarp d.activeMaskInit, regs)
        (fun t => (0, regs t)) := by
    refine forall_congr' fun n => forall_congr' fun instr => forall_congr' fun hi => ?_
    have hlt : n + 1 ≤ programLen.toNat := by
      have := (List.getElem?_eq_some_iff.1 hi).1
      have hle : code.length ≤ programLen.toNat := by
        rw [hcode]; simp [decodeProgram]
      omega
    rw [(warpRun_eq_warpWalk P rom program (BitVec.ofNat 32 (n + 1)) d regs hd).2.1,
      decodeProgram_take program hlt]
    rfl
  obtain ⟨hcomplete, -, hwalk⟩ := warpRun_eq_warpWalk P rom program programLen d regs hd
  rw [hsep]
  constructor
  · exact fun h => separatedFrom_of_joinsSafeFrom hsync hlev hn (hjoins.1 h.joins)
  · intro h
    obtain ⟨hsafe, hregs⟩ := perLane_of_separatedFrom hsync hlev hn h
    refine ⟨hcomplete, fun t ht => ?_, hjoins.2 hsafe⟩
    rw [laneRun_eq_laneWalk, ← hregs t ht, hwalk]

end Main

/-! An inner branch that nobody takes inside a region that masks lane 0. -/

/-- `VBRANCH r1; VBRANCH r2; VJOIN; ADDI r3, r0, 7; VJOIN`. -/
def nestedUniform : List RawInstr :=
  [encodeInstruction .vbranch 0 1 0 0, encodeInstruction .vbranch 0 2 0 0,
    encodeInstruction .vjoin 0 0 0 0, encodeInstruction .addi 3 0 0 7,
    encodeInstruction .vjoin 0 0 0 0]

/-- Lane 0 jumps at the outer branch, no lane at the inner one. -/
def nestedUniformRegs : RegFile := fun t r => if t = 0 ∧ r = 1 then 1 else 0

def plainParams : PipelineParams where
  cuId := 0
  fp := ⟨fun a _ => a, fun a _ => a, fun a _ => a, fun a _ _ => a⟩
  vectorOps := false

theorem decodeProgram_nestedUniform :
    decodeProgram (programStore nestedUniform) 5 = nestedUniform.map decodeInstruction :=
  decodeProgram_programStore (by decide : nestedUniform.length ≤ maxProgramLen)

/-- The inner `VJOIN` wakes lane 0, which then executes the `ADDI` it should skip. -/
theorem not_perLaneSemantics_nestedUniform :
    wellNested 0 (decodeProgram (programStore nestedUniform) 5) = true ∧
      ¬ PerLaneSemantics plainParams (fun _ => 0) (programStore nestedUniform) 5
        { activeMaskInit := 3 } nestedUniformRegs := by
  refine ⟨by rw [decodeProgram_nestedUniform]; decide, fun h => ?_⟩
  have hwalk := (warpRun_eq_warpWalk plainParams (fun _ => 0) (programStore nestedUniform) 5
    { activeMaskInit := 3 } nestedUniformRegs rfl).2.2
  have hlane := h.registers 0 (by decide)
  rw [hwalk, laneRun_eq_laneWalk, decodeProgram_nestedUniform] at hlane
  exact absurd (congrFun hlane 3) (by decide +kernel)

theorem perLaneSemantics_iff_separated_nestedUniform :
    PerLaneSemantics plainParams (fun _ => 0) (programStore nestedUniform) 5
        { activeMaskInit := 2 } nestedUniformRegs ↔
      Separated plainParams (fun _ => 0) (decodeProgram (programStore nestedUniform) 5) 2
        nestedUniformRegs :=
  perLaneSemantics_iff_separated plainParams (fun _ => 0) (programStore nestedUniform) 5
    { activeMaskInit := 2 } nestedUniformRegs rfl
    (by rw [decodeProgram_nestedUniform]; decide)

end RiscvGpgpu.Hls
