import RiscvGpgpu.Bridge.AddressLayout
import RiscvGpgpu.Bridge.Races

/-!
# Schedule independence

If one run of a launch has no races, a run under any other number of compute units and of threads
per warp ends too, as it does: with a deadlock or without one, with the same registers and counters
in every unit, and with the same bytes in memory (`loops_independent`), and so in the device buffers
(`runOnHardware_independent`). The context cells are left out, since they hold the context of the
last thread that has taken a step.
-/

namespace RiscvGpgpu.Bridge

open Golden (Address BlockId Byte Cell MemoryHierarchy HostFloat BinaryUnit)
open Host (DeviceMemory KernelExecution)

section Ends

variable {F : HostFloat} {L : Launch} {W : BitVec 32} {s₀ s s' : Simulation} {finished : Bool}

/-- Where no worker can go on, no thread can. -/
theorem Follows.final (h : Follows F L W s₀ s) (hstopped : Stopped L finished s)
    (hsizes : ∀ w ∈ s.workers,
      s.workers.countP (fun v => v.blockId == w.blockId) = L.threadsPerBlock.toNat) :
    s.state.Final (s₀.threads F L W) := by
  refine ⟨fun i hruns => ?_, fun b hcomplete => ?_⟩
  · obtain ⟨cu, hcu, hgoes, hfree⟩ := hruns
    obtain ⟨w, hw, rfl⟩ := Option.map_eq_some_iff.1 hcu
    rcases hstopped.stuck i w hw with hhalted | ⟨-, hblocked, -⟩
    · exact Bool.false_ne_true (hgoes.symm.trans hhalted)
    · exact Bool.false_ne_true (hfree.symm.trans hblocked)
  · obtain ⟨⟨i, hi⟩, k, hall⟩ := hcomplete
    -- a thread of the block waits, so that its worker is stuck at a barrier
    have hwaits : ∀ (j : ℕ) (v : Worker), s.workers[j]? = some v →
        blocksOf s₀.workers j = b → v.cu.blocked = true ∧ v.cu.barrierId = k := by
      intro j v hv hb
      obtain ⟨cu, hcu, hblocked, hid⟩ := hall j hb
      obtain ⟨v', hv', rfl⟩ := Option.map_eq_some_iff.1 hcu
      obtain rfl := Option.some.inj (hv.symm.trans hv')
      exact ⟨hblocked, hid⟩
    obtain ⟨cu, hcu, -⟩ := hall i hi
    obtain ⟨w, hw, rfl⟩ := Option.map_eq_some_iff.1 hcu
    obtain ⟨hblocked, hid⟩ := hwaits i w hw hi
    rcases hstopped.stuck i w hw with hhalted | ⟨-, -, harrived⟩
    · exact Bool.false_ne_true (((h.sane i w hw).2 hblocked).symm.trans hhalted)
    · obtain ⟨v, hv, hblock, hmissing⟩ :=
        exists_missing (hsizes w (List.mem_of_getElem? hw)) harrived
      obtain ⟨j, hj⟩ := List.getElem?_of_mem hv
      have hb : blocksOf s₀.workers j = b := by
        rw [h.block hj, hblock, ← h.block hw]
        exact hi
      obtain ⟨hblocked', hid'⟩ := hwaits j v hj hb
      refine hmissing ⟨?_, hblocked', hid'.trans hid.symm⟩
      by_contra hoff
      have hgoes := (h.sane j v hj).2 hblocked'
      exact Bool.false_ne_true (hgoes.symm.trans ((h.sane j v hj).1 (Bool.not_eq_true _ ▸ hoff)))

/-- A run without races that has come to its end. -/
structure Settles (F : HostFloat) (L : Launch) (W : BitVec 32) (s₀ s : Simulation) : Prop where
  follows : Follows F L W s₀ s
  final : s.state.Final (s₀.threads F L W)
  free : NoRaces (L.contextCells W s₀.mem) (accesses W s.trace)

/-- The same bytes outside some cells. -/
structure SameBytes (W : BitVec 32) (hidden : List Cell) (m n : MemoryHierarchy) : Prop where
  left : m.Windowed W
  right : n.Windowed W
  bytes : ∀ c ∉ hidden, n.cellByte c = m.cellByte c

/-- The same units, and the same bytes outside some cells. -/
structure SameEnd (W : BitVec 32) (hidden : List Cell) (s s' : Simulation) : Prop where
  units : s'.workers.map Worker.cu = s.workers.map Worker.cu
  mem : SameBytes W hidden s.mem s'.mem

section Settles

variable (h : Settles F L W s₀ s) (h' : Follows F L W s₀ s')

include h h'

/-- No order of the steps has more of them. -/
theorem Settles.work_le : s'.work ≤ s.work := by
  obtain ⟨es, u, hrun, hsame, hlen, hlogged⟩ := h.follows.run
  obtain ⟨es', u', hrun', -, hlen', -⟩ := h'.run
  rw [← hlen, ← hlen']
  exact hrun'.length_le hrun h'.same_start (hsame.symm.final h.final) (hlogged.raceFree h.free)

/-- In every order a thread that runs can take its step. -/
theorem Settles.canStep : CanStep F L s' := by
  intro i w hw hactive hblocked
  rw [stepWorker_eq hw]
  suffices hstep : ∃ r, w.cu.step F (L.withContext w.cudaThreadCtx s'.mem) = some r by
    obtain ⟨r, hr⟩ := hstep
    rw [hr]
    exact ⟨_, rfl⟩
  cases hhalted : w.cu.halted with
  | true =>
    unfold BinaryUnit.step
    rw [hhalted]
    exact ⟨_, rfl⟩
  | false =>
    obtain ⟨es, u, hrun, hsame, -, hlogged⟩ := h.follows.run
    obtain ⟨es', u', hrun', hsame', -, -⟩ := h'.run
    have hthread : u'.threads i = some w.cu := by
      rw [hsame'.threads]
      show (s'.workers[i]?).map Worker.cu = _
      rw [hw]
      rfl
    obtain ⟨x, m, hstep⟩ := hrun'.exists_step hrun h'.same_start (hsame.symm.final h.final)
      (hlogged.raceFree h.free) (i := i) ⟨w.cu, hthread, hhalted, hblocked⟩
    obtain ⟨n, hstep', -⟩ := (s₀.threads F L W).step_eq hsame'.left hsame'.right
      ⟨w.cu, hthread, hhalted, hblocked⟩ (fun c _ => hsame'.get c) hstep
    rw [hthread] at hstep'
    obtain ⟨r, hr, -⟩ := Option.map_eq_some_iff.1 hstep'
    rw [h'.context hw] at hr
    exact ⟨r, hr⟩

/-- In every order the threads end in the same state. -/
theorem Settles.sameEnd (hfinal : s'.state.Final (s₀.threads F L W)) :
    SameEnd W (L.contextCells W s₀.mem) s s' := by
  obtain ⟨es, u, hrun, hsame, -, hlogged⟩ := h.follows.run
  obtain ⟨es', u', hrun', hsame', -, -⟩ := h'.run
  have hend := (hsame.symm.trans (hrun'.same_final hrun h'.same_start (hsame.symm.final h.final)
    (hlogged.raceFree h.free) (hsame'.symm.final hfinal))).trans hsame'
  refine ⟨List.ext_getElem? fun i => ?_, hend.left.windowed, hend.right.windowed, fun c hc => ?_⟩
  · rw [List.getElem?_map, List.getElem?_map]
    exact (congrFun hend.threads i).symm
  · have hbyte : visibleByte L W s₀.mem s.mem c = visibleByte L W s₀.mem s'.mem c := hend.get c
    unfold visibleByte at hbyte
    rw [if_neg hc, if_neg hc] at hbyte
    exact hbyte.symm

end Settles

end Ends

/-! ## Both loops -/

section Loops

variable {F : HostFloat} {C C' : Config} {L : Launch} {W : BitVec 32} {mem : MemoryHierarchy}
  {s : Simulation} {turns : ℕ} {finished : Bool}

theorem all_halted_iff :
    (∀ (i : ℕ) (w : Worker), s.workers[i]? = some w → w.cu.halted = true) ↔
      ∀ cu ∈ s.workers.map Worker.cu, cu.halted = true := by
  constructor
  · intro h cu hcu
    obtain ⟨w, hw, rfl⟩ := List.mem_map.1 hcu
    obtain ⟨i, hi⟩ := List.getElem?_of_mem hw
    exact h i w hi
  · exact fun h i w hw => h w.cu (List.mem_map_of_mem (List.mem_of_getElem? hw))

theorem follows_started (hexact : L.totalBlocks.toNat * L.threadsPerBlock.toNat < 2 ^ 32) :
    Kept F L (Follows F L W (started C L mem)) := follows_kept (countP_started hexact mem)

theorem Follows.sizes (hexact : L.totalBlocks.toNat * L.threadsPerBlock.toNat < 2 ^ 32)
    (h : Follows F L W (started C L mem) s) : ∀ w ∈ s.workers,
      s.workers.countP (fun v => v.blockId == w.blockId) = L.threadsPerBlock.toNat :=
  fun w hw => countP_block hexact h.runs ⟨w, hw, rfl⟩

/-- A run under one configuration says how one under another one ends, from the same workers. -/
theorem loops_independent (hexact : L.totalBlocks.toNat * L.threadsPerBlock.toNat < 2 ^ 32)
    (hstart : started C' L mem = started C L mem) (hmem : mem.Windowed W)
    (h : loops F C L turns (started C L mem) = some (finished, s))
    (hfree : NoRaces (L.contextCells W mem) (accesses W s.trace)) :
    (∀ turns', s.work < turns' → ∃ r, loops F C' L turns' (started C' L mem) = some r) ∧
      ∀ turns' finished' s', loops F C' L turns' (started C' L mem) = some (finished', s') →
        finished' = finished ∧ SameEnd W (L.contextCells W mem) s s' := by
  have hfollows : Follows F L W (started C L mem) (started C L mem) :=
    follows_start hmem rfl (fresh_sane (started_fresh C L mem)).1
  have hkept : Kept F L (Follows F L W (started C L mem)) := follows_started hexact
  have hs := hkept.loops hfollows h
  have hsettles : Settles F L W (started C L mem) s :=
    ⟨hs, hs.final (loops_stopped h) (hs.sizes hexact), hfree⟩
  refine ⟨fun turns' hturns => ?_, fun turns' finished' s' hloop => ?_⟩
  · rw [← hstart] at hsettles hkept hfollows
    refine loops_returns hkept (fun r hr => ?_) (fun r hr => hsettles.canStep hr)
      (fun r hr => hsettles.work_le hr) hfollows hturns
    exact hr.runs.length.trans (List.length_map _)
  · have hstopped := loops_stopped hloop
    rw [hstart] at hloop
    have hs' := hkept.loops hfollows (C := C') hloop
    have hend := hsettles.sameEnd hs' (hs'.final hstopped (hs'.sizes hexact))
    refine ⟨Bool.eq_iff_iff.2 ?_, hend⟩
    rw [hstopped.finished, (loops_stopped h).finished, all_halted_iff, all_halted_iff, hend.units]

end Loops

/-! ## Launches -/

section Launches

variable {F : HostFloat} {C C' : Config} {L : Launch} {files : String → Option (List Byte)}
  {execution : KernelExecution} {req : Request} {d : DeviceMemory}

theorem worker_congr (hmax : C'.maxSimCycles = C.maxSimCycles) : worker C' L = worker C L := by
  funext id
  unfold worker
  rw [hmax]

theorem makeWorkers_congr (hmax : C'.maxSimCycles = C.maxSimCycles) :
    makeWorkers C' L = makeWorkers C L := by
  funext ids
  induction ids with
  | nil => rfl
  | cons id ids ih =>
    funext mem
    unfold makeWorkers makeWorker
    rw [ih, worker_congr hmax]

theorem setUp_congr (hshared : C'.sharedMemSize = C.sharedMemSize) :
    setUp C' files execution req d = setUp C files execution req d := by
  unfold setUp prepare sharedMemBytes
  rw [hshared]

/-- The workers of a launch without an overflow are those of the ids in order. -/
theorem threadIds_fits (h : Fits L.grid L.block)
    (hwarp : 1 < L.warpSize C → L.block.volume + (L.warpSize C).toNat ≤ 2 ^ 32) :
    threadIds C L = (List.range (L.grid.volume * L.block.volume)).map (BitVec.ofNat 32) := by
  unfold threadIds
  split_ifs with hsize
  · exact flatMap_warpThreads h (lt_trans Nat.zero_lt_one hsize) (hwarp hsize)
  · rw [totalThreads_toNat h]

theorem Sound.makeWorkers {ids : List (BitVec 32)} {mem mem' : MemoryHierarchy} {ws : List Worker}
    (h : Sound C mem) (hmake : makeWorkers C' L ids mem = some (ws, mem')) : Sound C mem' := by
  induction ids generalizing mem ws with
  | nil =>
    obtain ⟨-, rfl⟩ := Prod.mk.inj (Option.some.inj hmake)
    exact h
  | cons id ids ih =>
    obtain ⟨⟨w, mem₁⟩, hone, hmake⟩ := Option.bind_eq_some_iff.1 hmake
    obtain ⟨⟨ws', mem₂⟩, hrest, hmake⟩ := Option.bind_eq_some_iff.1 hmake
    obtain ⟨-, rfl⟩ := Prod.mk.inj (Option.some.inj hmake)
    refine ih ?_ hrest
    unfold makeWorker at hone
    dsimp only at hone
    split_ifs at hone
    obtain ⟨-, rfl⟩ := Prod.mk.inj (Option.some.inj hone)
    exact h.writeBytes _ _ _

/-! ### The device buffers -/

/-- The release of a block takes its cells away, whatever is in them. -/
theorem cellByte_release (b : BlockId) (c : Cell) :
    (∀ m : MemoryHierarchy, (m.releaseSharedMemory b).cellByte c = none) ∨
      ∀ m : MemoryHierarchy, (m.releaseSharedMemory b).cellByte c = m.cellByte c := by
  cases c with
  | global a => exact .inr fun m => rfl
  | shared b' offset =>
    by_cases hb : b' = b
    · refine .inl fun m => ?_
      show (Function.update m.sharedMemory b none b').bind _ = none
      rw [hb, Function.update_self]
      rfl
    · refine .inr fun m => ?_
      show (Function.update m.sharedMemory b none b').bind _ = (m.sharedMemory b').bind _
      rw [Function.update_of_ne hb]

theorem SameBytes.release {W : BitVec 32} {hidden : List Cell} {m n : MemoryHierarchy}
    (h : SameBytes W hidden m n) (bs : List ℕ) :
    SameBytes W hidden
      (bs.foldl (fun mem b => mem.releaseSharedMemory (BitVec.ofNat 32 b)) m)
      (bs.foldl (fun mem b => mem.releaseSharedMemory (BitVec.ofNat 32 b)) n) := by
  induction bs generalizing m n with
  | nil => exact h
  | cons b bs ih =>
    refine ih ⟨⟨⟨h.left.coherent.l1, h.left.coherent.l2⟩, h.left.size⟩,
      ⟨⟨h.right.coherent.l1, h.right.coherent.l2⟩, h.right.size⟩, fun c hc => ?_⟩
    rcases cellByte_release (BitVec.ofNat 32 b) c with hgone | hkept
    · rw [hgone, hgone]
    · rw [hkept, hkept]
      exact h.bytes c hc

/-- The read-back is the same, if it reads none of those cells. -/
theorem SameBytes.readBack {W : BitVec 32} {hidden : List Cell} {m n : MemoryHierarchy}
    (h : SameBytes W hidden m n) {devicePtrs : List Address}
    (hbuffers : ∀ p ∈ devicePtrs, ∀ old, d.buffers p = some old →
      ∀ c ∈ Golden.byteCells W 0 p old.length, c ∉ hidden) :
    readBack n devicePtrs d = readBack m devicePtrs d := by
  unfold Bridge.readBack
  congr 1
  funext p
  split_ifs with hp
  · cases hold : d.buffers p with
    | none => rfl
    | some old =>
      refine congrArg some ?_
      exact MemoryHierarchy.readBytes_congr h.right h.left fun c hc =>
        h.bytes c (hbuffers p hp old hold c hc)
  · rfl

/-- A run from the set-up on. -/
theorem runOnHardware_loops {mem mem' : MemoryHierarchy} {ws : List Worker} {turns : ℕ}
    (hset : setUp C files execution req d = some (.ok (L, mem)))
    (hmake : makeWorkers C L (threadIds C L) mem = some (ws, mem')) :
    runOnHardware F C files execution req turns d =
      (loops F C L turns (started C L mem')).map fun o =>
        if o.1 then (.ok (), readBack (releaseBlocks L o.2.mem) req.devicePtrs d)
        else (.error (deadlockError C L), d) := by
  unfold runOnHardware
  rw [hset]
  show (execute F C turns L mem).bind _ = _
  rw [execute_eq, hmake, Option.bind_some]
  cases loops F C L turns (started C L mem') with
  | none => rfl
  | some o =>
    obtain ⟨finished, sim⟩ := o
    cases finished with
    | false => rfl
    | true =>
      show some (copyBack (releaseBlocks L sim.mem) req.devicePtrs d) = _
      rw [copyBack_eq]
      rfl

/-- If the run under one configuration ends without a race, the number of compute units and of
threads per warp makes no difference to whether a run succeeds, and to what it leaves in the
buffers. -/
theorem runOnHardware_independent (hshared : C'.sharedMemSize = C.sharedMemSize)
    (hmax : C'.maxSimCycles = C.maxSimCycles) {mem mem' : MemoryHierarchy} {ws : List Worker}
    (hset : setUp C files execution req d = some (.ok (L, mem))) (hfits : Fits L.grid L.block)
    (hwarp : 1 < L.warpSize C → L.block.volume + (L.warpSize C).toNat ≤ 2 ^ 32)
    (hwarp' : 1 < L.warpSize C' → L.block.volume + (L.warpSize C').toNat ≤ 2 ^ 32)
    (hmake : makeWorkers C L (threadIds C L) mem = some (ws, mem')) {turns : ℕ} {finished : Bool}
    {s : Simulation} (hloop : loops F C L turns (started C L mem') = some (finished, s))
    (hfree : NoRaces (L.contextCells C.sharedMemSize mem') (accesses C.sharedMemSize s.trace))
    (hbuffers : ∀ p ∈ req.devicePtrs, ∀ old, d.buffers p = some old →
      ∀ c ∈ Golden.byteCells C.sharedMemSize 0 p old.length,
        c ∉ L.contextCells C.sharedMemSize mem') :
    ∃ r d', runOnHardware F C files execution req turns d = some (r, d') ∧
      (∀ turns', s.work < turns' →
        ∃ o, runOnHardware F C' files execution req turns' d = some o) ∧
      ∀ turns' r' d'', runOnHardware F C' files execution req turns' d = some (r', d'') →
        d'' = d' ∧ (r' = .ok () ↔ r = .ok ()) := by
  have hids : threadIds C' L = threadIds C L := by
    rw [threadIds_fits hfits hwarp, threadIds_fits hfits hwarp']
  have hexact : L.totalBlocks.toNat * L.threadsPerBlock.toNat < 2 ^ 32 := by
    rw [totalBlocks_toNat hfits, threadsPerBlock_toNat hfits]
    exact hfits.lt
  have hsound := (sound_setUp hset).makeWorkers hmake
  have hstart : started C' L mem' = started C L mem' := by
    unfold started
    rw [hids, worker_congr hmax]
  obtain ⟨hreturns, hsame⟩ := loops_independent hexact hstart ⟨hsound.coherent, hsound.size⟩ hloop
    hfree
  have hrun : runOnHardware F C files execution req turns d = _ := runOnHardware_loops hset hmake
  have hset' : setUp C' files execution req d = some (.ok (L, mem)) :=
    (setUp_congr hshared).trans hset
  have hmake' : makeWorkers C' L (threadIds C' L) mem = some (ws, mem') := by
    rw [makeWorkers_congr hmax, hids, hmake]
  rw [hloop, Option.map_some] at hrun
  refine ⟨_, _, hrun, fun turns' hturns => ?_, fun turns' r' d'' hrun' => ?_⟩
  · obtain ⟨o, ho⟩ := hreturns turns' hturns
    rw [runOnHardware_loops hset' hmake', ho]
    exact ⟨_, rfl⟩
  · rw [runOnHardware_loops hset' hmake'] at hrun'
    obtain ⟨⟨finished', s'⟩, hloop', heq⟩ := Option.map_eq_some_iff.1 hrun'
    obtain ⟨rfl, hend⟩ := hsame turns' finished' s' hloop'
    cases finished' with
    | false =>
      obtain ⟨rfl, rfl⟩ := Prod.mk.inj heq
      exact ⟨rfl, iff_of_false (fun hr => by cases hr) fun hr => by cases hr⟩
    | true =>
      obtain ⟨rfl, rfl⟩ := Prod.mk.inj heq
      exact ⟨(hend.mem.release _).readBack hbuffers, Iff.rfl⟩

end Launches

/-! ## Two threads -/

/-- The same hardware with one unit and no warps. -/
def scalarUnit : Config := { pairWarps with numComputeUnits := 1, threadsPerWarp := 1 }

/-- Each thread stores its number in its place of a buffer, and waits for the other one:
`lw t0, 0(gp)`, `slli t1, t0, 2`, `add t1, t1, a0`, `sw t0, 0(t1)`, `bar.sync 0` and `ret`. -/
def numberKernel : List Byte := imageOf
  [0x83, 0xA2, 0x01, 0x00, 0x13, 0x93, 0x22, 0x00, 0x33, 0x03, 0xA3, 0x00, 0x23, 0x20, 0x53, 0x00,
    0x0B, 0x00, 0x00, 0x00, 0x67, 0x80, 0x00, 0x00]

def numberRequest : Request where
  kernelName := "number"
  binaryPath := "number.elf"
  kernelArgs := [0x10000000]
  devicePtrs := [0x10000000]

/-- A launch of one block of two threads. -/
def numberLaunch : KernelExecution where
  launchArgs := ⟨"number", "", 1, 1, 1, 2, 1, 1, [], 0⟩
  launchConfigured := true
  execState := .running

/-- A driver with a buffer of two words. -/
def twoWords : DeviceMemory where
  buffers := Function.update (fun _ => none) 0x10000000 (some (List.replicate 8 0xFF))
  nextDevAddr := 0x10000010

/-- A launch of two threads that ends without a race under warps. -/
def numberCheck (L : Launch) (mem : MemoryHierarchy) : Bool :=
  L.contextSymbol.isNone && decide (L.grid = ⟨1, 1, 1⟩ ∧ L.block = ⟨2, 1, 1⟩) &&
    ((makeWorkers pairWarps L (threadIds pairWarps L) mem).any fun r =>
      (loops noFloat pairWarps L 8 (started pairWarps L r.2)).any fun o =>
        o.1 && decide (NoRaces [] (accesses pairWarps.sharedMemSize o.2.trace)))

/-- The kernel leaves under the scalar loop what it leaves under warps. -/
theorem runOnHardware_independent_number : ∃ r d',
    runOnHardware noFloat pairWarps (fun _ => some numberKernel) numberLaunch numberRequest 8
        twoWords = some (r, d') ∧
      ∀ turns' r' d'', runOnHardware noFloat scalarUnit (fun _ => some numberKernel) numberLaunch
          numberRequest turns' twoWords = some (r', d'') → d'' = d' ∧
            (r' = .ok () ↔ r = .ok ()) := by
  have hcheck : ((setUp pairWarps (fun _ => some numberKernel) numberLaunch numberRequest
      twoWords).bind Except.toOption).any (fun r => numberCheck r.1 r.2) = true := by decide +kernel
  obtain ⟨⟨L, mem⟩, hset, hL⟩ := (Option.any_eq_true _ _).1 hcheck
  obtain ⟨r, hset, hok⟩ := Option.bind_eq_some_iff.1 hset
  cases r with
  | error e => exact absurd hok (by simp [Except.toOption])
  | ok launched =>
    obtain rfl := Option.some.inj hok
    unfold numberCheck at hL
    simp only [Bool.and_eq_true, decide_eq_true_iff, Option.isNone_iff_eq_none] at hL
    obtain ⟨⟨hsymbol, hgrid, hblock⟩, hruns⟩ := hL
    obtain ⟨⟨ws, mem'⟩, hmake, hruns⟩ := (Option.any_eq_true _ _).1 hruns
    obtain ⟨⟨finished, s⟩, hloop, hend⟩ := (Option.any_eq_true _ _).1 hruns
    have hfree := of_decide_eq_true (Bool.and_eq_true_iff.1 hend).2
    have hhidden : L.contextCells pairWarps.sharedMemSize mem' = [] := by
      unfold Launch.contextCells
      rw [hsymbol]
    have hfits : Fits L.grid L.block := by
      rw [hgrid, hblock]
      exact ⟨by decide, by decide, by decide⟩
    have hsmall : ∀ C : Config, C.threadsPerWarp.toNat ≤ 2 → 1 < L.warpSize C →
        L.block.volume + (L.warpSize C).toNat ≤ 2 ^ 32 := by
      intro C hC _
      have hsize : (L.warpSize C).toNat ≤ 2 := by
        unfold Launch.warpSize
        split_ifs with _ hlt
        · exact (BitVec.lt_def.1 hlt).le.trans hC
        · exact hC
        · decide
      rw [hblock]
      have hvolume : (⟨2, 1, 1⟩ : Dim3).volume = 2 := by decide
      omega
    have hshared : scalarUnit.sharedMemSize = pairWarps.sharedMemSize := rfl
    obtain ⟨r, d', hrun, -, hsame⟩ := runOnHardware_independent hshared rfl hset hfits
      (hsmall pairWarps (by decide)) (hsmall scalarUnit (by decide)) hmake hloop (hhidden ▸ hfree)
      fun p _ old _ c _ => by
        rw [hhidden]
        exact List.not_mem_nil
    exact ⟨r, d', hrun, hsame⟩

end RiscvGpgpu.Bridge
