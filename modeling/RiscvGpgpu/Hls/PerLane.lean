import RiscvGpgpu.Hls.WarpRun

/-!
# Per-lane semantics of divergence

The documented rule for one thread: a `VBRANCH` whose `rs1` is zero falls through, any other jumps
to just after the matching `VJOIN` (`laneRun`). `laneWalk` is the same rule as one pass over the
code, with a counter of the `VJOIN`s the lane still has to pass before it is active again.

`handleBranch` pushes nothing when every active lane falls through, while `handleJoin` always pops,
so a `VJOIN` may pop the entry of an enclosing region. The stack realises the per-lane rule exactly
on the runs where this cannot matter: no lane waits on the stack at a branch that nobody takes.
-/

namespace RiscvGpgpu.Hls

/-! ## The rule for one lane -/

/-- The divergence regions are nested and balanced at the given depth, no deeper than
`MAX_DIVERGENCE_DEPTH`, with no `BARRIER` or `HALT` inside. -/
def wellNested : ℕ → List Instruction → Bool
  | depth, [] => depth == 0
  | depth, instr :: rest =>
    if instr.opcode = .vbranch then depth < maxDivergenceDepth && wellNested (depth + 1) rest
    else if instr.opcode = .vjoin then 0 < depth && wellNested (depth - 1) rest
    else if instr.opcode = .barrier ∨ instr.opcode = .halt then depth == 0 && wellNested depth rest
    else wellNested depth rest

/-- The code after the `VJOIN` that closes `k` further regions and the current one. -/
def afterJoin : ℕ → List Instruction → List Instruction
  | _, [] => []
  | k, instr :: rest =>
    if instr.opcode = .vbranch then afterJoin (k + 1) rest
    else if instr.opcode = .vjoin then
      match k with
      | 0 => rest
      | k + 1 => afterJoin k rest
    else afterJoin k rest

theorem length_afterJoin_le (k : ℕ) (code : List Instruction) :
    (afterJoin k code).length ≤ code.length := by
  induction code generalizing k with
  | nil => simp [afterJoin]
  | cons instr rest ih =>
    have h := fun k => Nat.le_succ_of_le (ih k)
    unfold afterJoin
    split
    · exact h _
    · split
      · cases k with
        | zero => simp
        | succ k => exact h k
      · exact h _

/-- One lane run alone by the per-thread rule. -/
def laneRun (P : PipelineParams) (rom : Addr → Word) : List Instruction → LaneRegs → LaneRegs
  | [], r => r
  | instr :: rest, r =>
    if instr.opcode = .halt then r
    else if instr.opcode = .vbranch then
      if r instr.rs1 = 0#32 then laneRun P rom rest r else laneRun P rom (afterJoin 0 rest) r
    else laneRun P rom rest (laneStep P rom instr r)
termination_by code => code.length
decreasing_by
  · simp
  · have := length_afterJoin_le 0 rest
    simp only [List.length_cons]; omega
  · simp

/-- One instruction for one lane: the number of `VJOIN`s it waits for, zero when it is active, and
its registers. -/
def laneNext (P : PipelineParams) (rom : Addr → Word) (instr : Instruction) :
    ℕ × LaneRegs → ℕ × LaneRegs
  | (0, r) =>
    if instr.opcode = .vbranch then (if r instr.rs1 = 0#32 then 0 else 1, r)
    else (0, laneStep P rom instr r)
  | (k + 1, r) =>
    (if instr.opcode = .vbranch then k + 2 else if instr.opcode = .vjoin then k else k + 1, r)

def laneWalk (P : PipelineParams) (rom : Addr → Word) :
    List Instruction → ℕ × LaneRegs → ℕ × LaneRegs
  | [], l => l
  | instr :: rest, l =>
    if instr.opcode = .halt ∧ l.1 = 0 then l else laneWalk P rom rest (laneNext P rom instr l)

section Lane

variable (P : PipelineParams) (rom : Addr → Word)

/-- A masked lane resumes after the matching join, with its registers untouched. -/
theorem laneWalk_masked (code : List Instruction) (k : ℕ) (r : LaneRegs) :
    (laneWalk P rom code (k + 1, r)).2 = (laneWalk P rom (afterJoin k code) (0, r)).2 := by
  induction code generalizing k with
  | nil => rfl
  | cons instr rest ih =>
    rw [laneWalk, if_neg (fun h => by simp at h)]
    unfold afterJoin
    rw [laneNext]
    by_cases hb : instr.opcode = .vbranch
    · rw [if_pos hb, if_pos hb]
      exact ih (k + 1)
    rw [if_neg hb, if_neg hb]
    by_cases hj : instr.opcode = .vjoin
    · rw [if_pos hj, if_pos hj]
      cases k with
      | zero => rfl
      | succ k => exact ih k
    · rw [if_neg hj, if_neg hj]
      exact ih k

/-- The jump and the counter are the same rule. -/
theorem laneRun_eq_laneWalk (code : List Instruction) (r : LaneRegs) :
    laneRun P rom code r = (laneWalk P rom code (0, r)).2 := by
  fun_induction laneRun P rom code r with
  | case1 => rfl
  | case2 r instr rest h => rw [laneWalk, if_pos ⟨h, rfl⟩]
  | case3 r instr rest h hb hz ih =>
    rw [laneWalk, if_neg (fun h' => h h'.1), laneNext, if_pos hb, if_pos hz, ih]
  | case4 r instr rest h hb hz ih =>
    rw [laneWalk, if_neg (fun h' => h h'.1), laneNext, if_pos hb, if_neg hz, laneWalk_masked, ih]
  | case5 r instr rest h hb ih =>
    rw [laneWalk, if_neg (fun h' => h h'.1), laneNext, if_neg hb, ih]

end Lane

/-! ## Levels of the stack

The lanes masked by the `k`-th enclosing region that pushed are those that wait for `k` joins. -/

/-- The entries hold, from the innermost one, the lanes that wait for `k`, `k + 1`, … joins; none
is empty and no lane waits for more joins than that. -/
def Levels (mask : ThreadMask) (skip : Lane → ℕ) : ℕ → List ThreadMask → Prop
  | k, [] => ∀ t, mask.active t = true → skip t < k
  | k, m :: st =>
    (∀ t, m.active t = true ↔ mask.active t = true ∧ skip t = k) ∧
      (∃ t, m.active t = true) ∧ Levels mask skip (k + 1) st

/-- Some entry holds lanes that wait for more joins than its place in the stack says. -/
def Gap (mask : ThreadMask) (skip : Lane → ℕ) : ℕ → List ThreadMask → Prop
  | _, [] => False
  | k, m :: st =>
    (∃ t, m.active t = true) ∧
      ((∀ t, m.active t = true → mask.active t = true ∧ k < skip t) ∨
        (∀ t, m.active t = true ↔ mask.active t = true ∧ skip t = k) ∧ Gap mask skip (k + 1) st)

section Levels

variable {mask : ThreadMask} {skip skip' : Lane → ℕ} {k : ℕ} {st : List ThreadMask}

/-- `skip'` counts one join more than `skip` for the lanes that wait for `k` or more. -/
def Shifted (mask : ThreadMask) (skip skip' : Lane → ℕ) (k : ℕ) : Prop :=
  ∀ t, mask.active t = true → ∀ j, k ≤ j → (skip' t = j + 1 ↔ skip t = j)

theorem Shifted.lt_iff (h : Shifted mask skip skip' k) {t : Lane} (ht : mask.active t = true)
    {j : ℕ} (hj : k ≤ j) : j + 1 < skip' t ↔ j < skip t := by
  constructor
  · intro hlt
    have := (h t ht (skip' t - 1) (by omega)).1 (by omega)
    omega
  · intro hlt
    have := (h t ht (skip t) (by omega)).2 rfl
    omega

theorem Shifted.mono (h : Shifted mask skip skip' k) : Shifted mask skip skip' (k + 1) :=
  fun t ht j hj => h t ht j (by omega)

theorem levels_shift (h : Shifted mask skip skip' k) :
    Levels mask skip' (k + 1) st ↔ Levels mask skip k st := by
  induction st generalizing k with
  | nil =>
    refine forall_congr' fun t => forall_congr' fun ht => ?_
    have h₁ := h.lt_iff ht le_rfl
    have h₂ := h t ht k le_rfl
    omega
  | cons m st ih =>
    have hm : (∀ t, m.active t = true ↔ mask.active t = true ∧ skip' t = k + 1) ↔
        ∀ t, m.active t = true ↔ mask.active t = true ∧ skip t = k :=
      forall_congr' fun t => by rw [and_congr_right fun ht => h t ht k le_rfl]
    unfold Levels
    rw [hm, ih h.mono]

theorem gap_shift (h : Shifted mask skip skip' k) :
    Gap mask skip' (k + 1) st ↔ Gap mask skip k st := by
  induction st generalizing k with
  | nil => rfl
  | cons m st ih =>
    have hm : (∀ t, m.active t = true ↔ mask.active t = true ∧ skip' t = k + 1) ↔
        ∀ t, m.active t = true ↔ mask.active t = true ∧ skip t = k :=
      forall_congr' fun t => by rw [and_congr_right fun ht => h t ht k le_rfl]
    have hlt : (∀ t, m.active t = true → mask.active t = true ∧ k + 1 < skip' t) ↔
        ∀ t, m.active t = true → mask.active t = true ∧ k < skip t :=
      forall_congr' fun t => by rw [and_congr_right fun ht => h.lt_iff ht le_rfl]
    unfold Gap
    rw [hm, hlt, ih h.mono]

/-- When all lanes of the head entry wait for a join more, a gap opens below it or at it. -/
theorem gap_of_head {m : ThreadMask} (h : Shifted mask skip skip' k)
    (hex : ∃ t, m.active t = true)
    (hm : ∀ t, m.active t = true → mask.active t = true ∧ k ≤ skip t) :
    Gap mask skip' k (m :: st) := by
  refine ⟨hex, .inl fun t ht => ⟨(hm t ht).1, ?_⟩⟩
  obtain ⟨hmask, hk⟩ := hm t ht
  have := (h t hmask (skip t) hk).2 rfl
  omega

theorem Levels.congr (hs : ∀ t, mask.active t = true → skip' t = skip t)
    (h : Levels mask skip k st) : Levels mask skip' k st := by
  induction st generalizing k with
  | nil => exact fun t ht => by rw [hs t ht]; exact h t ht
  | cons m st ih =>
    obtain ⟨hm, hex, hst⟩ := h
    exact ⟨fun t => (hm t).trans (and_congr_right fun ht => by rw [hs t ht]), hex, ih hst⟩

theorem Gap.congr (hs : ∀ t, mask.active t = true → skip' t = skip t)
    (h : Gap mask skip k st) : Gap mask skip' k st := by
  induction st generalizing k with
  | nil => exact h
  | cons m st ih =>
    obtain ⟨hex, hm | ⟨hm, hst⟩⟩ := h
    · exact ⟨hex, .inl fun t ht => ⟨(hm t ht).1, by rw [hs t (hm t ht).1]; exact (hm t ht).2⟩⟩
    · exact ⟨hex, .inr ⟨fun t => (hm t).trans (and_congr_right fun ht => by rw [hs t ht]), ih hst⟩⟩

end Levels

/-! ## One instruction for all lanes -/

/-- The executor and the lanes agree: the active lanes are the initial ones that wait for no join,
and every initial lane has its own registers. -/
structure Synced (mask : ThreadMask) (depth : ℕ) (s : DivergenceStack × RegFile)
    (lanes : Lane → ℕ × LaneRegs) : Prop where
  active : ∀ t, s.1.activeMask.active t = true ↔ mask.active t = true ∧ (lanes t).1 = 0
  regs : ∀ t, mask.active t = true → s.2 t = (lanes t).2
  height : s.1.notTakenStack.length ≤ depth
  bound : ∀ t, mask.active t = true → (lanes t).1 ≤ depth

/-- Lane `t` jumps at a `VBRANCH`. -/
def Jumps (mask : ThreadMask) (instr : Instruction) (lanes : Lane → ℕ × LaneRegs) (t : Lane) :
    Prop :=
  mask.active t = true ∧ (lanes t).1 = 0 ∧ (lanes t).2 instr.rs1 ≠ 0#32

/-- The nesting depth behind an instruction. -/
def depthAfter (instr : Instruction) (depth : ℕ) : ℕ :=
  if instr.opcode = .vbranch then depth + 1
  else if instr.opcode = .vjoin then depth - 1
  else depth

theorem wellNested_cons {depth : ℕ} {instr : Instruction} {rest : List Instruction}
    (h : wellNested depth (instr :: rest) = true) :
    wellNested (depthAfter instr depth) rest = true ∧
      (instr.opcode = .vbranch → depth < maxDivergenceDepth) ∧
      (instr.opcode = .barrier ∨ instr.opcode = .halt → depth = 0) := by
  unfold wellNested at h
  unfold depthAfter
  split_ifs at h ⊢
  · simp_all
  · simp_all
  · rw [Bool.and_eq_true, beq_iff_eq] at h
    obtain ⟨rfl, h⟩ := h
    simp_all
  · simp_all

section Step

variable {P : PipelineParams} {rom : Addr → Word} {mask : ThreadMask} {depth : ℕ}
  {s : DivergenceStack × RegFile} {lanes : Lane → ℕ × LaneRegs} {instr : Instruction}

theorem laneNext_branch (hb : instr.opcode = .vbranch) (l : ℕ × LaneRegs) :
    laneNext P rom instr l =
      (if l.1 = 0 then (if l.2 instr.rs1 = 0#32 then 0 else 1) else l.1 + 1, l.2) := by
  obtain ⟨_ | k, r⟩ := l <;> simp [laneNext, hb]

theorem laneStep_of_join (hj : instr.opcode = .vjoin) (r : LaneRegs) :
    laneStep P rom instr r = r := by
  unfold laneStep aluResult Instruction.isVector Opcode.isVectorOp
  simp [hj, Opcode.code, writeReg]

theorem laneNext_join (hj : instr.opcode = .vjoin) (l : ℕ × LaneRegs) :
    laneNext P rom instr l = (l.1 - 1, l.2) := by
  obtain ⟨_ | k, r⟩ := l
  · simp [laneNext, hj, laneStep_of_join hj]
  · simp [laneNext, hj]

theorem laneNext_plain (hb : instr.opcode ≠ .vbranch) (hj : instr.opcode ≠ .vjoin)
    (l : ℕ × LaneRegs) :
    laneNext P rom instr l = (l.1, if l.1 = 0 then laneStep P rom instr l.2 else l.2) := by
  obtain ⟨_ | k, r⟩ := l <;> simp [laneNext, hb, hj]

theorem laneStep_of_barrier (hb : instr.opcode = .barrier) (r : LaneRegs) :
    laneStep P rom instr r = r := by
  unfold laneStep aluResult Instruction.isVector Opcode.isVectorOp
  simp [hb, Opcode.code, writeReg]

theorem warpNext_branch (hb : instr.opcode = .vbranch) :
    warpNext P rom mask instr s = (executeBranch s.1 s.2 instr s.1.activeMask, s.2) := by
  rw [warpNext, if_neg (by simp [hb]), warpStep, if_pos hb]

theorem warpNext_join (hj : instr.opcode = .vjoin) :
    warpNext P rom mask instr s = (s.1.handleJoin, s.2) := by
  rw [warpNext, if_neg (by simp [hj]), warpStep, if_neg (by simp [hj]), if_pos hj, executeJoin]

/-- The lanes a branch masks are the ones that jump. -/
theorem Synced.notTaken_active (h : Synced mask depth s lanes) (t : Lane) :
    (s.1.notTaken fun t =>
      if s.1.activeMask.active t then s.2 t instr.rs1 == 0 else false).active t = true ↔
      Jumps mask instr lanes t := by
  rw [DivergenceStack.active_notTaken, Jumps, ← and_assoc, ← h.active t]
  by_cases ha : s.1.activeMask.active t = true
  · rw [← h.regs t ((h.active t).1 ha).1]
    simp [ha]
  · simp [ha]

variable (P rom) in
theorem Synced.next_branch (h : Synced mask depth s lanes) (hb : instr.opcode = .vbranch)
    (hd : depth < maxDivergenceDepth) :
    Synced mask (depth + 1) (warpNext P rom mask instr s)
        (fun t => laneNext P rom instr (lanes t)) ∧
      (((∃ t, Jumps mask instr lanes t) ∧ ∃ m,
          (∀ t, m.active t = true ↔ Jumps mask instr lanes t) ∧
          (warpNext P rom mask instr s).1.notTakenStack = m :: s.1.notTakenStack) ∨
        ((¬ ∃ t, Jumps mask instr lanes t) ∧
          (warpNext P rom mask instr s).1.notTakenStack = s.1.notTakenStack)) := by
  rw [warpNext_branch hb]
  set conditions : Lane → Bool :=
    fun t => if s.1.activeMask.active t then s.2 t instr.rs1 == 0 else false with hc
  have hnot : ∀ t, (s.1.notTaken conditions).active t = true ↔ Jumps mask instr lanes t :=
    h.notTaken_active
  have hpush : ¬ maxDivergenceDepth ≤ s.1.notTakenStack.length := by
    have := h.height; omega
  have hstack : (s.1.notTaken conditions ≠ 0#32 ∧
        (s.1.handleBranch conditions).notTakenStack =
          s.1.notTaken conditions :: s.1.notTakenStack) ∨
      (s.1.notTaken conditions = 0#32 ∧
        (s.1.handleBranch conditions).notTakenStack = s.1.notTakenStack) := by
    by_cases hz : s.1.notTaken conditions = 0#32
    · exact .inr ⟨hz, by rw [s.1.handleBranch_of_notTaken_eq_zero conditions hz]⟩
    · refine .inl ⟨hz, ?_⟩
      rw [(s.1.handleBranch_of_notTaken conditions hz).2.1, DivergenceStack.pushDivergence,
        if_neg hpush]
  refine ⟨⟨fun t => ?_, fun t ht => ?_, ?_, fun t ht => ?_⟩, ?_⟩
  · show (s.1.handleBranch conditions).activeMask.active t = true ↔ _
    rw [s.1.handleBranch_activeMask, DivergenceStack.active_taken, Bool.and_eq_true, h.active t,
      laneNext_branch hb, and_assoc, and_congr_right_iff]
    intro ht
    by_cases hz : (lanes t).1 = 0
    · have hact := (h.active t).2 ⟨ht, hz⟩
      simp [hc, hact, hz, h.regs t ht]
    · simp [hz]
  · rw [laneNext_branch hb]
    exact h.regs t ht
  · have := h.height
    show (s.1.handleBranch conditions).notTakenStack.length ≤ _
    obtain ⟨-, hs⟩ | ⟨-, hs⟩ := hstack <;> rw [hs]
    · rw [List.length_cons]; omega
    · omega
  · have := h.bound t ht
    rw [laneNext_branch hb]
    dsimp only
    split_ifs <;> omega
  · obtain ⟨hz, hs⟩ | ⟨hz, hs⟩ := hstack
    · obtain ⟨t, ht⟩ := ThreadMask.ne_zero_iff.1 hz
      exact .inl ⟨⟨t, (hnot t).1 ht⟩, _, hnot, hs⟩
    · refine .inr ⟨?_, hs⟩
      rintro ⟨t, ht⟩
      rw [← hnot t, hz, ThreadMask.active_zero] at ht
      exact Bool.false_ne_true ht

variable (P rom) in
theorem Synced.next_join (h : Synced mask depth s lanes) (hj : instr.opcode = .vjoin)
    (hact : ∀ t, s.1.handleJoin.activeMask.active t = true ↔
      mask.active t = true ∧ (lanes t).1 ≤ 1) :
    Synced mask (depth - 1) (warpNext P rom mask instr s)
      (fun t => laneNext P rom instr (lanes t)) := by
  rw [warpNext_join hj]
  refine ⟨fun t => ?_, fun t ht => ?_, ?_, fun t ht => ?_⟩
  · rw [hact t, laneNext_join hj]
    exact and_congr_right fun _ => by dsimp only; omega
  · rw [laneNext_join hj]
    exact h.regs t ht
  · have := h.height
    dsimp only
    unfold DivergenceStack.handleJoin
    split
    · next hs => rw [hs]; exact Nat.zero_le _
    · next hs =>
      rw [hs, List.length_cons] at this
      dsimp only
      omega
  · have := h.bound t ht
    rw [laneNext_join hj]
    dsimp only; omega

variable (P rom) in
theorem Synced.next_plain (h : Synced mask depth s lanes) (hb : instr.opcode ≠ .vbranch)
    (hj : instr.opcode ≠ .vjoin) (hz : instr.opcode = .barrier → depth = 0) :
    Synced mask depth (warpNext P rom mask instr s) (fun t => laneNext P rom instr (lanes t)) ∧
      (warpNext P rom mask instr s).1.notTakenStack = s.1.notTakenStack := by
  by_cases hbar : instr.opcode = .barrier
  · -- outside every region nothing is masked, so a fresh stack is what the warp already has
    obtain rfl := hz hbar
    have hskip : ∀ t, mask.active t = true → (lanes t).1 = 0 :=
      fun t ht => Nat.le_zero.1 (h.bound t ht)
    have hnil := List.eq_nil_of_length_eq_zero (Nat.le_zero.1 h.height)
    rw [warpNext, if_pos hbar, hnil]
    refine ⟨⟨fun t => ?_, fun t ht => ?_, le_rfl, fun t ht => ?_⟩, rfl⟩
    · rw [laneNext_plain hb hj]
      exact ⟨fun ht => ⟨ht, hskip t ht⟩, And.left⟩
    · rw [laneNext_plain hb hj, laneStep_of_barrier hbar, ite_self]
      exact h.regs t ht
    · rw [laneNext_plain hb hj]
      exact h.bound t ht
  · rw [warpNext, if_neg hbar, warpStep, if_neg hb, if_neg hj]
    refine ⟨⟨fun t => ?_, fun t ht => ?_, h.height, fun t ht => ?_⟩, rfl⟩
    · rw [laneNext_plain hb hj]
      exact h.active t
    · rw [laneNext_plain hb hj]
      dsimp only
      rw [h.regs t ht]
      by_cases hs : (lanes t).1 = 0
      · rw [if_pos hs, if_pos ((h.active t).2 ⟨ht, hs⟩)]
      · rw [if_neg hs, if_neg (fun ha => hs ((h.active t).1 ha).2)]
    · rw [laneNext_plain hb hj]
      exact h.bound t ht

/-- Waiting lanes wait for one region more after a branch. -/
theorem shifted_branch (hb : instr.opcode = .vbranch) :
    Shifted mask (fun t => (lanes t).1) (fun t => (laneNext P rom instr (lanes t)).1) 1 := by
  intro t _ j hj
  dsimp only
  rw [laneNext_branch hb]
  dsimp only
  split_ifs with hs hr
  · exact ⟨False.elim, fun h => by omega⟩
  · omega
  · omega

/-- Before a join, the lanes that wait beyond it wait for one region more than after it. -/
theorem shifted_join (hj : instr.opcode = .vjoin) :
    Shifted mask (fun t => (laneNext P rom instr (lanes t)).1) (fun t => (lanes t).1) 1 := by
  intro t _ j hj'
  dsimp only
  rw [laneNext_join hj]
  dsimp only
  omega

/-- Some initially active lane waits for a join. -/
def Waiting (mask : ThreadMask) (lanes : Lane → ℕ × LaneRegs) : Prop :=
  ∃ t, mask.active t = true ∧ (lanes t).1 ≠ 0

variable (P rom) in
/-- The levels are kept by every instruction, unless nobody jumps at a branch while a lane
waits. -/
theorem levels_next {rest : List Instruction} (h : Synced mask depth s lanes)
    (hl : Levels mask (fun t => (lanes t).1) 1 s.1.notTakenStack)
    (hn : wellNested depth (instr :: rest) = true)
    (hsep : instr.opcode = .vbranch → Waiting mask lanes → ∃ t, Jumps mask instr lanes t) :
    Synced mask (depthAfter instr depth) (warpNext P rom mask instr s)
        (fun t => laneNext P rom instr (lanes t)) ∧
      Levels mask (fun t => (laneNext P rom instr (lanes t)).1) 1
        (warpNext P rom mask instr s).1.notTakenStack := by
  obtain ⟨-, hd, hz⟩ := wellNested_cons hn
  unfold depthAfter
  by_cases hb : instr.opcode = .vbranch
  · rw [if_pos hb]
    obtain ⟨hsync, hst⟩ := h.next_branch P rom hb (hd hb)
    refine ⟨hsync, ?_⟩
    obtain ⟨hex, m, hm, hs⟩ | ⟨hnone, hs⟩ := hst
    · rw [hs]
      refine ⟨fun t => ?_, by simpa only [hm] using hex, (levels_shift (shifted_branch hb)).2 hl⟩
      rw [hm t, Jumps, and_congr_right_iff]
      intro _
      dsimp only
      rw [laneNext_branch hb]
      dsimp only
      split_ifs <;> simp_all
    · -- nobody waits and nobody jumps: the stack is empty and stays empty
      have hzero : ∀ t, mask.active t = true → (lanes t).1 = 0 := by
        by_contra hc
        push Not at hc
        exact hnone (hsep hb hc)
      rw [hs]
      cases hst : s.1.notTakenStack with
      | nil =>
        intro t ht
        have hj : ¬ (lanes t).2 instr.rs1 ≠ 0#32 := fun hne => hnone ⟨t, ht, hzero t ht, hne⟩
        dsimp only
        rw [laneNext_branch hb]
        simp [hzero t ht, not_not.1 hj]
      | cons m st =>
        rw [hst] at hl
        obtain ⟨hm, ⟨t, ht⟩, -⟩ := hl
        obtain ⟨hmask, hone⟩ := (hm t).1 ht
        exact absurd ((hzero t hmask).symm.trans hone) (by decide)
  rw [if_neg hb]
  by_cases hj : instr.opcode = .vjoin
  · rw [if_pos hj]
    have hact : ∀ t, s.1.handleJoin.activeMask.active t = true ↔
        mask.active t = true ∧ (lanes t).1 ≤ 1 := by
      intro t
      unfold DivergenceStack.handleJoin
      cases hst : s.1.notTakenStack with
      | nil =>
        rw [hst] at hl
        rw [h.active t]
        exact and_congr_right fun ht => by have : (lanes t).1 < 1 := hl t ht; omega
      | cons m st =>
        rw [hst] at hl
        rw [ThreadMask.active_or, Bool.or_eq_true, h.active t, hl.1 t, ← and_or_left]
        exact and_congr_right fun _ => by dsimp only; omega
    refine ⟨h.next_join P rom hj hact, ?_⟩
    rw [warpNext_join hj]
    unfold DivergenceStack.handleJoin
    cases hst : s.1.notTakenStack with
    | nil =>
      dsimp only
      rw [hst] at hl ⊢
      intro t ht
      have : (lanes t).1 < 1 := hl t ht
      dsimp only
      rw [laneNext_join hj]
      dsimp only; omega
    | cons m st =>
      rw [hst] at hl
      exact (levels_shift (shifted_join hj)).1 hl.2.2
  · rw [if_neg hj]
    obtain ⟨hsync, hs⟩ := h.next_plain P rom hb hj (fun hbar => hz (.inl hbar))
    refine ⟨hsync, ?_⟩
    rw [hs]
    exact hl.congr fun t _ => by rw [laneNext_plain hb hj]

variable (P rom) in
/-- A branch where nobody jumps while a lane waits opens a gap. -/
theorem gap_opens (h : Synced mask depth s lanes)
    (hl : Levels mask (fun t => (lanes t).1) 1 s.1.notTakenStack) (hb : instr.opcode = .vbranch)
    (hd : depth < maxDivergenceDepth) (hw : Waiting mask lanes)
    (hnone : ¬ ∃ t, Jumps mask instr lanes t) :
    Synced mask (depth + 1) (warpNext P rom mask instr s)
        (fun t => laneNext P rom instr (lanes t)) ∧
      Gap mask (fun t => (laneNext P rom instr (lanes t)).1) 1
        (warpNext P rom mask instr s).1.notTakenStack := by
  obtain ⟨hsync, ⟨hex, -⟩ | ⟨-, hs⟩⟩ := h.next_branch P rom hb hd
  · exact absurd hex hnone
  refine ⟨hsync, ?_⟩
  rw [hs]
  cases hst : s.1.notTakenStack with
  | nil =>
    rw [hst] at hl
    obtain ⟨t, ht, hne⟩ := hw
    have : (lanes t).1 < 1 := hl t ht
    omega
  | cons m st =>
    rw [hst] at hl
    exact gap_of_head (shifted_branch hb) hl.2.1
      fun t ht => ⟨((hl.1 t).1 ht).1, ((hl.1 t).1 ht).2.ge⟩

/-- A gap stays open until a join wakes a lane too early. -/
theorem gap_next {rest : List Instruction} (h : Synced mask depth s lanes)
    (hg : Gap mask (fun t => (lanes t).1) 1 s.1.notTakenStack)
    (hn : wellNested depth (instr :: rest) = true)
    (hsafe : instr.opcode = .vjoin → ∀ t, mask.active t = true →
      (warpNext P rom mask instr s).1.activeMask.active t = true →
        (laneNext P rom instr (lanes t)).1 = 0) :
    Synced mask (depthAfter instr depth) (warpNext P rom mask instr s)
        (fun t => laneNext P rom instr (lanes t)) ∧
      Gap mask (fun t => (laneNext P rom instr (lanes t)).1) 1
        (warpNext P rom mask instr s).1.notTakenStack := by
  obtain ⟨-, hd, hz⟩ := wellNested_cons hn
  obtain ⟨m, st, hst⟩ : ∃ m st, s.1.notTakenStack = m :: st := by
    cases hst : s.1.notTakenStack with
    | nil => rw [hst] at hg; exact hg.elim
    | cons m st => exact ⟨m, st, rfl⟩
  rw [hst] at hg
  unfold depthAfter
  by_cases hb : instr.opcode = .vbranch
  · rw [if_pos hb]
    obtain ⟨hsync, hstack⟩ := h.next_branch P rom hb (hd hb)
    refine ⟨hsync, ?_⟩
    obtain ⟨hex, m', hm', hs⟩ | ⟨-, hs⟩ := hstack <;> rw [hs, hst]
    · refine ⟨by simpa only [hm'] using hex, .inr ⟨fun t => ?_, ?_⟩⟩
      · rw [hm' t, Jumps, and_congr_right_iff]
        intro _
        dsimp only
        rw [laneNext_branch hb]
        dsimp only
        split_ifs <;> simp_all
      · exact (gap_shift (shifted_branch hb)).2 hg
    · refine gap_of_head (shifted_branch hb) hg.1 fun t ht => ?_
      obtain hm | ⟨hm, -⟩ := hg.2
      · exact ⟨(hm t ht).1, (hm t ht).2.le⟩
      · exact ⟨((hm t).1 ht).1, ((hm t).1 ht).2.ge⟩
  rw [if_neg hb]
  by_cases hj : instr.opcode = .vjoin
  · rw [if_pos hj]
    have hsafe := hsafe hj
    rw [warpNext_join hj] at hsafe ⊢
    unfold DivergenceStack.handleJoin at hsafe ⊢
    rw [hst] at hsafe ⊢
    dsimp only at hsafe ⊢
    obtain ⟨⟨t, ht⟩, hm | ⟨hm, hst'⟩⟩ := hg
    · -- the entry on top waits for two joins or more, and this one wakes it
      have hwoken := hsafe t (hm t ht).1 (by rw [ThreadMask.active_or, ht, Bool.or_true])
      have := (hm t ht).2
      rw [laneNext_join hj] at hwoken
      dsimp only at hwoken this
      omega
    · refine ⟨?_, (gap_shift (shifted_join hj)).1 hst'⟩
      have hsync := h.next_join P rom hj fun t => by
        unfold DivergenceStack.handleJoin
        rw [hst, ThreadMask.active_or, Bool.or_eq_true, h.active t, hm t, ← and_or_left]
        exact and_congr_right fun _ => by dsimp only; omega
      rw [warpNext_join hj] at hsync
      unfold DivergenceStack.handleJoin at hsync
      rw [hst] at hsync
      exact hsync
  · rw [if_neg hj]
    obtain ⟨hsync, hs⟩ := h.next_plain P rom hb hj (fun hbar => hz (.inl hbar))
    refine ⟨hsync, ?_⟩
    rw [hs, hst]
    exact hg.congr fun t _ => by rw [laneNext_plain hb hj]

end Step

end RiscvGpgpu.Hls
