import RiscvGpgpu.Bridge.ScheduleIndependence

/-!
# The same buffers under two configurations

Two runs of a launch, under configurations that differ in their units and their threads per warp,
leave the same bytes in the buffers that are copied back, if one of them has no races
(`sameButContext`). Two kinds of launches are left out. A buffer at the context symbol is left with
the context of the thread that takes the last step, and where a count of threads wraps the two runs
do not have the same threads (`not_sameBuffers`).
-/

namespace RiscvGpgpu.Bridge

open Golden (Address Byte Cell MemoryHierarchy HostFloat SameLayout)
open Host (DeviceMemory KernelExecution)

section Runs

variable (F : HostFloat) (C C' : Config) (files : String → Option (List Byte))
  (execution : KernelExecution) (req : Request) (d : DeviceMemory)

/-- A run that copies the buffers back, with every thread halted by an instruction of its own. -/
structure Finishes (turns : ℕ) (L : Launch) (mem : MemoryHierarchy) (sim : Simulation)
    (d' : DeviceMemory) : Prop where
  setUp : setUp C files execution req d = some (.ok (L, mem))
  execute : execute F C turns L mem = some (.ok sim)
  ended : ∀ i < sim.workers.length, Ended sim.trace i = true
  run : runOnHardware F C files execution req turns d = some (.ok (), d')

/-- Two runs on the same hardware but for its units and the threads per warp, the first one without
a race. -/
structure TwoRuns (L : Launch) (mem : MemoryHierarchy) (d₁ d₂ : DeviceMemory) : Prop where
  sharedMemSize : C'.sharedMemSize = C.sharedMemSize
  maxSimCycles : C'.maxSimCycles = C.maxSimCycles
  first : ∃ turns sim, Finishes F C files execution req d turns L mem sim d₁ ∧
    NoRaces (L.contextCells C.sharedMemSize mem) (accesses C.sharedMemSize sim.trace)
  second : ∃ turns L' mem' sim, Finishes F C' files execution req d turns L' mem' sim d₂

/-- Both runs leave the same in every buffer that is copied back. -/
def SameBuffers : Prop :=
  ∀ L mem d₁ d₂, TwoRuns F C C' files execution req d L mem d₁ d₂ →
    ∀ p ∈ req.devicePtrs, d₂.buffers p = d₁.buffers p

/-- The same bytes in a buffer, but for those in some cells. -/
structure SameContent (W : BitVec 32) (hidden : List Cell) (p : Address) (bs bs' : List Byte) :
    Prop where
  length : bs'.length = bs.length
  bytes : ∀ k : ℕ, (∀ c, (Golden.byteCells W 0 p bs.length)[k]? = some c → c ∉ hidden) →
    bs'[k]? = bs[k]?

/-- Both runs leave the same in every buffer that is copied back, but for the context that the
bridge writes before every step. -/
def SameButContext : Prop :=
  ∀ L mem d₁ d₂, TwoRuns F C C' files execution req d L mem d₁ d₂ →
    ∀ p ∈ req.devicePtrs, ∃ bs bs', d₁.buffers p = some bs ∧ d₂.buffers p = some bs' ∧
      SameContent C.sharedMemSize (L.contextCells C.sharedMemSize mem) p bs bs'

end Runs

/-- The counts of threads and of warps do not wrap. -/
structure CountsFit (C : Config) (L : Launch) : Prop where
  threads : L.totalBlocks.toNat * L.threadsPerBlock.toNat < 2 ^ 32
  warps : 1 < L.warpSize C → L.threadsPerBlock.toNat + (L.warpSize C).toNat ≤ 2 ^ 32

/-! ## Layouts -/

section Layouts

variable {F : HostFloat} {C C' : Config} {L : Launch} {W : BitVec 32} {m₀ m n : MemoryHierarchy}
  {s₀ s : Simulation}

theorem makeWorkers_layout {ids : List (BitVec 32)} {ws : List Worker} (h : SameLayout W m₀ m)
    (hmake : makeWorkers C L ids m = some (ws, n)) : SameLayout W m₀ n := by
  induction ids generalizing m ws with
  | nil =>
    obtain ⟨-, rfl⟩ := Prod.mk.inj (Option.some.inj hmake)
    exact h
  | cons id ids ih =>
    obtain ⟨⟨w, mem₁⟩, hone, hmake⟩ := Option.bind_eq_some_iff.1 hmake
    obtain ⟨⟨ws', mem₂⟩, hrest, hmake⟩ := Option.bind_eq_some_iff.1 hmake
    obtain ⟨-, rfl⟩ := Prod.mk.inj (Option.some.inj hmake)
    refine ih ?_ hrest
    unfold makeWorker at hone
    dsimp only at hone
    split_ifs at hone
    obtain ⟨-, rfl⟩ := Prod.mk.inj (Option.some.inj hone)
    exact writeBytes_layout h _ _ _

theorem Follows.layout (h : Follows F L W s₀ s) : SameLayout W s₀.mem s.mem := by
  obtain ⟨es, u, -, hsame, -, -⟩ := h.run
  exact hsame.right

/-- The loops leave a memory with its cells. -/
theorem loops_layout {turns : ℕ} {finished : Bool}
    (hexact : L.totalBlocks.toNat * L.threadsPerBlock.toNat < 2 ^ 32) (hmem : m.Windowed W)
    (hloop : loops F C L turns (started C L m) = some (finished, s)) : SameLayout W m s.mem := by
  have hfollows : Follows F L W (started C L m) (started C L m) :=
    follows_start hmem rfl (fresh_sane (started_fresh C L m)).1
  exact ((follows_started hexact).loops hfollows hloop).layout

/-- The release of the blocks leaves the same cells, if they have been the same. -/
theorem releaseBlocks_cells (h : ∀ c, (n.cellByte c).isSome = (m.cellByte c).isSome) (c : Cell) :
    ((releaseBlocks L n).cellByte c).isSome = ((releaseBlocks L m).cellByte c).isSome := by
  unfold releaseBlocks
  induction List.range L.totalBlocks.toNat generalizing m n with
  | nil => exact h c
  | cons b bs ih =>
    refine ih fun c => ?_
    rcases cellByte_release (BitVec.ofNat 32 b) c with hgone | hkept
    · rw [hgone, hgone]
    · rw [hkept, hkept]
      exact h c

end Layouts

/-! ## The buffers -/

section Buffers

variable {F : HostFloat} {C C' : Config} {files : String → Option (List Byte)}
  {execution : KernelExecution} {req : Request} {d d' d'' : DeviceMemory} {L : Launch}
  {mem : MemoryHierarchy} {sim : Simulation} {turns : ℕ}

/-- What the finished run has come from, and what it leaves. -/
theorem Finishes.loops (h : Finishes F C files execution req d turns L mem sim d') :
    ∃ ws mem', makeWorkers C L (threadIds C L) mem = some (ws, mem') ∧
      Bridge.loops F C L turns (started C L mem') = some (true, sim) ∧
        d' = readBack (releaseBlocks L sim.mem) req.devicePtrs d := by
  have hexec := h.execute
  rw [execute_eq] at hexec
  obtain ⟨⟨ws, mem'⟩, hmake, hexec⟩ := Option.bind_eq_some_iff.1 hexec
  obtain ⟨⟨finished, sim'⟩, hloop, hexec⟩ := Option.map_eq_some_iff.1 hexec
  have hrun := h.run
  rw [runOnHardware_loops h.setUp hmake, hloop, Option.map_some] at hrun
  cases finished with
  | false => cases hexec
  | true =>
    obtain rfl := Except.ok.inj hexec
    exact ⟨ws, mem', hmake, hloop, (Prod.mk.inj (Option.some.inj hrun)).2.symm⟩

theorem SameBytes.sameContent {W : BitVec 32} {hidden : List Cell} {m n : MemoryHierarchy}
    (h : SameBytes W hidden m n) (hcells : ∀ c, (n.cellByte c).isSome = (m.cellByte c).isSome)
    (p : Address) (len : ℕ) :
    SameContent W hidden p (m.readBytes p len 0) (n.readBytes p len 0) := by
  refine ⟨(MemoryHierarchy.length_readBytes n p len 0).trans
    (MemoryHierarchy.length_readBytes m p len 0).symm, fun k hk => ?_⟩
  rw [MemoryHierarchy.length_readBytes] at hk
  exact MemoryHierarchy.getElem?_readBytes_congr h.left h.right hcells fun c hc =>
    h.bytes c (hk c hc)

/-- If the counts of the launch do not wrap, the number of compute units and of threads per warp
makes no difference to the buffers, the context left out. -/
theorem sameButContext (hcounts : ∀ L mem, setUp C files execution req d = some (.ok (L, mem)) →
    CountsFit C L ∧ CountsFit C' L) : SameButContext F C C' files execution req d := by
  intro L mem d₁ d₂ hruns p hp
  obtain ⟨turns, sim, hfirst, hfree⟩ := hruns.first
  obtain ⟨turns', L', mem₂, sim', hsecond⟩ := hruns.second
  obtain ⟨hfit, hfit'⟩ := hcounts L mem hfirst.setUp
  -- both runs begin with the same workers
  have hset := hsecond.setUp
  rw [setUp_congr hruns.sharedMemSize, hfirst.setUp] at hset
  obtain ⟨rfl, rfl⟩ := Prod.mk.inj (Except.ok.inj (Option.some.inj hset))
  have hids : threadIds C' L = threadIds C L :=
    (threadIds_row hfit'.threads hfit'.warps).trans (threadIds_row hfit.threads hfit.warps).symm
  obtain ⟨ws, mem', hmake, hloop, rfl⟩ := hfirst.loops
  obtain ⟨ws', mem₃, hmake', hloop', rfl⟩ := hsecond.loops
  rw [makeWorkers_congr hruns.maxSimCycles, hids, hmake] at hmake'
  obtain ⟨rfl, rfl⟩ := Prod.mk.inj (Option.some.inj hmake')
  have hstart : started C' L mem' = started C L mem' := by
    unfold started
    rw [hids, worker_congr hruns.maxSimCycles]
  have hsound := sound_setUp hfirst.setUp
  have hwindowed : mem.Windowed C.sharedMemSize := ⟨hsound.coherent, hsound.size⟩
  have hlayout : SameLayout C.sharedMemSize mem mem' :=
    makeWorkers_layout ⟨hwindowed, fun _ => rfl⟩ hmake
  -- and so they end with the same bytes outside the context cells
  rw [← contextCells_layout hlayout] at hfree ⊢
  obtain ⟨-, hsame⟩ := loops_independent hfit.threads hstart hlayout.windowed hloop hfree
  obtain ⟨-, hend⟩ := hsame turns' true sim' hloop'
  have hcells : ∀ c, (sim'.mem.cellByte c).isSome = (sim.mem.cellByte c).isSome := fun c =>
    ((loops_layout hfit.threads hlayout.windowed hloop').cells c).trans
      ((loops_layout hfit.threads hlayout.windowed hloop).cells c).symm
  cases hold : d.buffers p with
  | none => exact absurd hold (setUp_live hfirst.setUp p hp)
  | some old =>
    refine ⟨(releaseBlocks L sim.mem).readBytes p old.length 0,
      (releaseBlocks L sim'.mem).readBytes p old.length 0, ?_, ?_, ?_⟩
    · unfold readBack
      dsimp only
      rw [if_pos hp, hold]
      rfl
    · unfold readBack
      dsimp only
      rw [if_pos hp, hold]
      rfl
    · exact (hend.mem.release _).sameContent (releaseBlocks_cells hcells) p old.length

end Buffers

/-! ## Runs to the end -/

/-- A run that returns true, with its launch and its end, if every thread ends by itself. -/
def finishedRun (F : HostFloat) (C : Config) (files : String → Option (List Byte))
    (execution : KernelExecution) (req : Request) (turns : ℕ) (d : DeviceMemory) :
    Option (Launch × MemoryHierarchy × Simulation) := do
  let (L, mem) ← (← setUp C files execution req d).toOption
  let sim ← (← execute F C turns L mem).toOption
  if ∀ i < sim.workers.length, Ended sim.trace i = true then some (L, mem, sim) else none

theorem finishes_of_finishedRun {F : HostFloat} {C : Config} {files : String → Option (List Byte)}
    {execution : KernelExecution} {req : Request} {turns : ℕ} {d : DeviceMemory} {L : Launch}
    {mem : MemoryHierarchy} {sim : Simulation}
    (h : finishedRun F C files execution req turns d = some (L, mem, sim)) :
    Finishes F C files execution req d turns L mem sim
      (readBack (releaseBlocks L sim.mem) req.devicePtrs d) := by
  obtain ⟨r, hset, h⟩ := Option.bind_eq_some_iff.1 h
  obtain ⟨⟨L', mem'⟩, hok, h⟩ := Option.bind_eq_some_iff.1 h
  obtain ⟨o, hexec, h⟩ := Option.bind_eq_some_iff.1 h
  obtain ⟨sim', hsim, h⟩ := Option.bind_eq_some_iff.1 h
  split_ifs at h with hended
  obtain ⟨rfl, hrest⟩ := Prod.mk.inj (Option.some.inj h)
  obtain ⟨rfl, rfl⟩ := Prod.mk.inj hrest
  cases r with
  | error e => cases hok
  | ok launched =>
    obtain rfl := Option.some.inj hok
    cases o with
    | error e => cases hsim
    | ok ended =>
      obtain rfl := Option.some.inj hsim
      refine ⟨hset, hexec, hended, ?_⟩
      unfold runOnHardware
      rw [hset]
      show (execute F C turns _ _).bind _ = _
      rw [hexec]
      show some (copyBack (releaseBlocks _ _) req.devicePtrs d) = _
      rw [copyBack_eq]

/-! ## Three launches -/

instance (C : Config) (L : Launch) : Decidable (CountsFit C L) :=
  decidable_of_iff (L.totalBlocks.toNat * L.threadsPerBlock.toNat < 2 ^ 32 ∧
      (1 < L.warpSize C → L.threadsPerBlock.toNat + (L.warpSize C).toNat ≤ 2 ^ 32))
    ⟨fun h => ⟨h.1, h.2⟩, fun h => ⟨h.threads, h.warps⟩⟩

/-- Two runs of a launch on `twoWords`, the first one on one unit and without a race, and the second
one under warps. -/
def compareRuns (image : List Byte) (execution : KernelExecution)
    (test : Launch → List Byte → List Byte → Bool) : Bool :=
  (finishedRun noFloat scalarUnit (fun _ => some image) execution numberRequest 40 twoWords).any
    fun (L, mem, sim) =>
      decide (NoRaces (L.contextCells scalarUnit.sharedMemSize mem)
        (accesses scalarUnit.sharedMemSize sim.trace)) &&
      (finishedRun noFloat pairWarps (fun _ => some image) execution numberRequest 40 twoWords).any
        fun (L', _, sim') =>
          test L ((releaseBlocks L sim.mem).readBytes 0x10000000 8 0)
            ((releaseBlocks L' sim'.mem).readBytes 0x10000000 8 0)

theorem twoRuns_of_compareRuns {image : List Byte} {execution : KernelExecution}
    {test : Launch → List Byte → List Byte → Bool} (h : compareRuns image execution test = true) :
    ∃ L mem d₁ d₂ bs bs', TwoRuns noFloat scalarUnit pairWarps (fun _ => some image) execution
        numberRequest twoWords L mem d₁ d₂ ∧
      setUp scalarUnit (fun _ => some image) execution numberRequest twoWords =
        some (.ok (L, mem)) ∧
      d₁.buffers 0x10000000 = some bs ∧ d₂.buffers 0x10000000 = some bs' ∧
        test L bs bs' = true := by
  obtain ⟨⟨L, mem, sim⟩, hfirst, h⟩ := (Option.any_eq_true _ _).1 h
  obtain ⟨hfree, h⟩ := Bool.and_eq_true_iff.1 h
  obtain ⟨⟨L', mem', sim'⟩, hsecond, htest⟩ := (Option.any_eq_true _ _).1 h
  have hfinishes := finishes_of_finishedRun hfirst
  exact ⟨L, mem, _, _, _, _,
    ⟨rfl, rfl, ⟨40, sim, hfinishes, of_decide_eq_true hfree⟩,
      ⟨40, L', mem', sim', finishes_of_finishedRun hsecond⟩⟩,
    hfinishes.setUp, rfl, rfl, htest⟩

/-- The launch of two numbers leaves both of them, on one unit and under warps. -/
theorem sameButContext_number : ∃ L mem d₁ d₂,
    TwoRuns noFloat scalarUnit pairWarps (fun _ => some numberKernel) numberLaunch numberRequest
      twoWords L mem d₁ d₂ ∧
    d₁.buffers 0x10000000 = some [0, 0, 0, 0, 1, 0, 0, 0] ∧
      ∃ bs', d₂.buffers 0x10000000 = some bs' ∧
        SameContent scalarUnit.sharedMemSize [] 0x10000000 [0, 0, 0, 0, 1, 0, 0, 0] bs' := by
  have hcheck : compareRuns numberKernel numberLaunch (fun L bs _ =>
      L.contextSymbol.isNone && decide (CountsFit scalarUnit L ∧ CountsFit pairWarps L) &&
        bs == [0, 0, 0, 0, 1, 0, 0, 0]) = true := by decide +kernel
  obtain ⟨L, mem, d₁, d₂, bs, bs', hruns, hset, hbs, hbs', htest⟩ := twoRuns_of_compareRuns hcheck
  simp only [Bool.and_eq_true, decide_eq_true_iff, Option.isNone_iff_eq_none, beq_iff_eq] at htest
  obtain ⟨⟨hsymbol, hcounts⟩, rfl⟩ := htest
  have hhidden : L.contextCells scalarUnit.sharedMemSize mem = [] := by
    unfold Launch.contextCells
    rw [hsymbol]
  obtain ⟨cs, cs', hcs, hcs', hsame⟩ := sameButContext (fun L' mem' hset' => by
      rw [hset] at hset'
      obtain ⟨rfl, rfl⟩ := Prod.mk.inj (Except.ok.inj (Option.some.inj hset'))
      exact hcounts) L mem d₁ d₂ hruns 0x10000000 List.mem_cons_self
  obtain rfl := Option.some.inj (hbs.symm.trans hcs)
  rw [hhidden] at hsame
  exact ⟨L, mem, d₁, d₂, hruns, hbs, cs', hcs', hsame⟩

theorem not_sameBuffers_of_compareRuns {image : List Byte} {execution : KernelExecution}
    (h : compareRuns image execution (fun _ bs bs' => bs' != bs) = true) :
    ¬ SameBuffers noFloat scalarUnit pairWarps (fun _ => some image) execution numberRequest
      twoWords := by
  intro hsame
  obtain ⟨L, mem, d₁, d₂, bs, bs', hruns, -, hbs, hbs', hne⟩ := twoRuns_of_compareRuns h
  have heq := hsame L mem d₁ d₂ hruns 0x10000000 List.mem_cons_self
  rw [hbs, hbs'] at heq
  exact bne_iff_ne.1 hne (Option.some.inj heq)

/-- Thread 1 returns two steps before the others: `lw t0, 0(gp)`, `addi t0, t0, -1`,
`beqz t0, 12`, `nop`, `nop` and `ret`. -/
def earlyKernel : List Byte :=
  [0x83, 0xA2, 0x01, 0x00, 0x93, 0x82, 0xF2, 0xFF, 0x63, 0x86, 0x02, 0x00, 0x13, 0x00, 0x00, 0x00,
    0x13, 0x00, 0x00, 0x00, 0x67, 0x80, 0x00, 0x00]

/-- An image with its context symbol at 0x10000000: the header of a segment, those of a symbol and
of a string table, the symbol, its name and the code. -/
def contextImage (code : List Byte) : List Byte :=
  Host.elfMagic ++ [Host.elfClass32] ++ List.replicate 19 0 ++ [0, 0, 1, 0] ++ [52, 0, 0, 0] ++
    [84, 0, 0, 0] ++ List.replicate 6 0 ++ [32, 0, 1, 0] ++ [40, 0, 2, 0, 0, 0] ++
    [1, 0, 0, 0] ++ [204, 0, 0, 0] ++ [0, 0, 1, 0] ++ [0, 0, 1, 0] ++
    wordBytes (BitVec.ofNat 32 code.length) ++ wordBytes (BitVec.ofNat 32 code.length) ++
    List.replicate 8 0 ++
    [0, 0, 0, 0, 2, 0, 0, 0] ++ List.replicate 8 0 ++
    [164, 0, 0, 0, 16, 0, 0, 0, 1, 0, 0, 0] ++ List.replicate 8 0 ++ [16, 0, 0, 0] ++
    [0, 0, 0, 0, 3, 0, 0, 0] ++ List.replicate 8 0 ++ [180, 0, 0, 0, 24, 0, 0, 0] ++
    List.replicate 16 0 ++
    [1, 0, 0, 0, 0, 0, 0, 0x10, 4, 0, 0, 0, 0x11, 0, 0xF1, 0xFF] ++
    [0] ++ nameBytes "__gpgpu_thread_context" ++ [0] ++ code

/-- A launch of so many blocks and threads in a row. -/
def rowLaunch (blocks threads : BitVec 32) : KernelExecution where
  launchArgs := ⟨"number", "", blocks, 1, 1, threads, 1, 1, [], 0⟩
  launchConfigured := true
  execState := .running

/-- `lw t0, 0(gp)`, `slli t1, t0, 2`, `add t1, t1, a0`, `sw t0, 0(t1)` and `ret`. -/
def storeNumber : List Byte := imageOf
  [0x83, 0xA2, 0x01, 0x00, 0x13, 0x93, 0x22, 0x00, 0x33, 0x03, 0xA3, 0x00, 0x23, 0x20, 0x53, 0x00,
    0x67, 0x80, 0x00, 0x00]

/-- A buffer at the context symbol is left with the context of the thread that returns last, and
3 * 0xAAAAAAAB threads wrap to one thread on one unit and to two warps of two. -/
theorem not_sameBuffers :
    ¬ SameBuffers noFloat scalarUnit pairWarps (fun _ => some (contextImage earlyKernel))
        (rowLaunch 1 3) numberRequest twoWords ∧
      ¬ SameBuffers noFloat scalarUnit pairWarps (fun _ => some storeNumber)
        (rowLaunch 3 0xAAAAAAAB) numberRequest twoWords :=
  ⟨not_sameBuffers_of_compareRuns (by decide +kernel),
    not_sameBuffers_of_compareRuns (by decide +kernel)⟩

end RiscvGpgpu.Bridge
