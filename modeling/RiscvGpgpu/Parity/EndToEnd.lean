import RiscvGpgpu.Parity.LaunchParity

/-!
# One launch from reset, with the registers

The golden top and the flat HLS top run one launch from reset. In every run of the HLS top that is
done, whose CUs have kept to words of their own outside the two windows, every warp has the
registers that the golden run leaves in its context, and the memories hold the same words
(`sameResult_of_ownWords`). That a CU keeps to its own words is asked of the run itself: from it
follows that the CU does what it does alone.
-/

namespace RiscvGpgpu.Golden

/-! ## What a golden run leaves alone -/

theorem warpLoop_warpId (K : CuConfig) (rest : List Instruction) (cu : ComputeUnit)
    (ctx : WarpContext) :
    (warpLoop K rest cu ctx).AllLeaves fun out => out.ctx.warpId = ctx.warpId := by
  induction rest generalizing cu ctx with
  | nil => exact rfl
  | cons instr rest ih =>
    unfold warpLoop
    split_ifs with hhalt hbarrier
    · exact rfl
    · exact rfl
    · refine (Interact.AllLeaves.of_forall (P := fun _ => True) (fun _ => trivial) _).bind ?_
      intro r _
      exact ih _ { ctx with pc := ctx.pc + 1, regs := r.2 }

/-- The size of the window, and the global words behind it, are those of `h₀`. -/
structure KeepsWindow (h₀ h : MemoryHierarchy) : Prop where
  size : h.sharedMemSize = h₀.sharedMemSize
  words : ∀ addr, h₀.isSharedMemoryAddress addr = true → h.globalWord addr = h₀.globalWord addr

/-- An access that falls into the window goes to the shared memory. -/
theorem KeepsWindow.serveAccess {h₀ h : MemoryHierarchy} (hk : KeepsWindow h₀ h) (a : MemAccess) :
    KeepsWindow h₀ (GpgpuTop.serveAccess h a).2 := by
  unfold GpgpuTop.serveAccess
  split
  · cases hs : h.isSharedMemoryAddress (alignAddress a.address) with
    | true =>
      obtain ⟨shared, heq⟩ := MemoryHierarchy.storeWord_shared hs a.data 0
      rw [heq]
      exact ⟨hk.size, hk.words⟩
    | false =>
      rw [MemoryHierarchy.storeWord_global hs]
      refine ⟨hk.size, fun addr haddr => ?_⟩
      have hne : addr ≠ alignAddress a.address := by
        rintro rfl
        unfold MemoryHierarchy.isSharedMemoryAddress at haddr hs
        rw [hk.size, haddr] at hs
        exact Bool.false_ne_true hs.symm
      rw [← hk.words addr haddr]
      unfold MemoryHierarchy.globalWord
      dsimp only
      rw [Function.update_of_ne hne]
  · obtain ⟨hglobal, -, hsize⟩ := h.loadWord_frame a.address 0
    refine ⟨hsize.trans hk.size, fun addr haddr => ?_⟩
    rw [← hk.words addr haddr]
    unfold MemoryHierarchy.globalWord
    rw [hglobal]

namespace Serial

variable {K : CuConfig} {program : List Instruction} {start s : Serial} {ws : List ℕ}

theorem Runs.warpId (h : Runs K program start ws s) (w : ℕ) :
    (s.contexts w).warpId = (start.contexts w).warpId := by
  induction h with
  | nil => rfl
  | @snoc ws last s s' h hw ih =>
    obtain ⟨cu, rfl⟩ := hw
    dsimp only
    by_cases heq : w = last
    · subst heq
      rw [Function.update_self, ← ih]
      exact (warpLoop_warpId K _ _ _).serve GpgpuTop.serveAccess s.memory
    · rw [Function.update_of_ne heq]
      exact ih

theorem Runs.keepsWindow (h : Runs K program start ws s) :
    KeepsWindow start.memory s.memory := by
  induction h with
  | nil => exact ⟨rfl, fun _ _ => rfl⟩
  | snoc h hw ih =>
    obtain ⟨cu, rfl⟩ := hw
    exact Interact.serve_keeps (fun _ a hk => hk.serveAccess a) _ ih

end Serial

end RiscvGpgpu.Golden

namespace RiscvGpgpu.Parity

open Golden Hls Hls.Launch

/-! ## The two launches -/

/-- The hierarchy holds a word array. -/
structure SameMemory (h : MemoryHierarchy) (mem : GlobalMem) : Prop where
  coherent : h.Coherent
  words : ∀ word, h.globalWord (wordKey word) = mem word

/-- Every dispatch of a launch is regular. -/
structure RegularLaunch (L : Launch) (mem : GlobalMem) (regs : L.Cus → SlotId → RegFile) :
    Prop where
  regular : ∀ c, ∀ k (hk : k < (L.schedule c).length), RegularDispatch c (flatInit mem)
    (L.soloRun c (flatInit mem) (regs c) ((L.schedule c).take k)) ((L.schedule c).get ⟨k, hk⟩)

/-- In a run no CU stores to a word that another one accesses, and no access is in one of the two
windows. -/
structure OwnWords (h : MemoryHierarchy) (tr : List Hls.TopEvent) : Prop where
  isolated : Isolated (servedReqs (memEvents tr))
  reach : ∀ req ∈ servedReqs (memEvents tr), isGlobal req = true ∧ outsideWindow h (reqWord req)

/-- The golden run that begins in `start` and takes `turns` turns up to `g` ends as the HLS top. -/
structure SameResult (K : GpgpuTop.Config) (start : GpgpuTop) (turns : ℕ) (g : GpgpuTop)
    {L : Launch} (s : System L) : Prop where
  memory : SameMemory g.memory s.side.mem.2
  warps : (GpgpuTop.finalContexts K turns start).map WarpContext.warpId = start.launchedWarps
  registers : ∀ c slot, L.Resident c slot → ∃ ctx,
    (GpgpuTop.finalContexts K turns start)[L.localWarp c slot]? = some ctx ∧
      ctx.regs = (s.gpu.cus c).regs slot

section Result

variable {K : GpgpuTop.Config} {start g : GpgpuTop} {L : Launch} {mem : GlobalMem}
  {regs : L.Cus → SlotId → RegFile} {D : SideDepths} {m : MemorySubsystem} {s : System L}
  {tr : List Hls.TopEvent}

theorem SameMemory.mirrors {h : MemoryHierarchy} (hm : SameMemory h mem) : Mirrors h mem :=
  ⟨hm.coherent, fun word _ => hm.words word⟩

theorem soloMemory_frame {word : BitVec 32}
    (h : ∀ req ∈ L.soloRequests mem regs, reqWord req ≠ word) :
    L.soloMemory mem regs word = mem word := by
  unfold soloMemory
  rw [List.find?_eq_none.2]
  intro req hreq hstore
  simp only [Bool.and_eq_true, decide_eq_true_eq] at hstore
  exact h req hreq hstore.2.2

/-- With `done` up, the requests of a run are those that the CUs make alone. -/
theorem OwnWords.comparable {h : MemoryHierarchy} (hown : OwnWords h tr)
    (hrun : FreshRun L D m mem regs s tr) (hcap : L.totalWarps.toNat ≤ L.capacity)
    (hdone : s.gpu.core.done = true) (hregular : RegularLaunch L mem regs) :
    Comparable h L mem regs := by
  have hsubset : L.soloRequests mem regs ⊆ servedReqs (memEvents tr) :=
    (hrun.allConform_of_isolated hcap hown.isolated).soloRequests_subset hrun hcap hdone
  exact ⟨hown.isolated.subset hsubset, fun req hreq => hown.reach req (hsubset hreq),
    hregular.regular⟩

/-- What the warps leave one after the other is what the CUs leave alone. -/
theorem SameLaunch.sameResult (hlaunch : SameLaunch K start L mem regs)
    (hmemory : SameMemory start.memory mem) (hcomp : Comparable start.memory L mem regs)
    {turns : ℕ} {serial : Serial}
    (hserial : GpgpuTop.SerialEnd K start (GpgpuTop.finalContexts K turns start) g serial)
    (hrun : FreshRun L D m mem regs s tr) (hdone : s.gpu.core.done = true) :
    SameResult K start turns g s := by
  obtain ⟨reqs, hfollows⟩ := follows_launch hlaunch hcomp hserial
  have hsolo := hrun.followsSolo hlaunch.fits hcomp.noSharing
  have hmirrors := hfollows.soloMemory hlaunch.fits hcomp
  have hwindow := hserial.runs.keepsWindow
  rw [hserial.memory] at hmirrors hwindow
  refine ⟨⟨hmirrors.coherent, fun word => ?_⟩, ?_, fun c slot hres => ?_⟩
  · rw [hsolo.memory hdone]
    cases hs : start.memory.isSharedMemoryAddress (wordKey word) with
    | false =>
      refine hmirrors.words word ?_
      unfold outsideWindow MemoryHierarchy.isSharedMemoryAddress at *
      rwa [hwindow.size]
    | true =>
      -- nobody has stored there
      have hnone : ∀ req ∈ L.soloRequests mem regs, reqWord req ≠ word := by
        rintro req hreq rfl
        exact Bool.false_ne_true ((hcomp.reach req hreq).2.symm.trans hs)
      rw [hwindow.words _ hs, hmemory.words, soloMemory_frame hnone]
  · rw [hserial.contexts, List.map_map]
    exact List.map_congr_left fun w _ => hserial.runs.warpId w
  · refine ⟨_, ?_, (hfollows.soloRegs hlaunch.fits hres).trans ?_⟩
    · rw [hserial.contexts, List.getElem?_map, List.getElem?_range, Option.map_some]
      rw [hlaunch.warps]
      exact hres.2
    · rw [hsolo.registers hdone c]

end Result

/-! ## Main result -/

/-- One launch from reset: the golden run ends, and every run of the HLS top that is done, with
CUs that keep to their own words, has left the same registers in every warp and the same words in
the memory. -/
theorem sameResult_of_ownWords {K : GpgpuTop.Config} {memory : MemoryHierarchy} {L : Launch}
    {mem : GlobalMem} {regs : L.Cus → SlotId → RegFile} {gridX gridY : BitVec 32}
    {program : List Instruction} {warpIdOffset : BitVec 32} (hmemory : SameMemory memory mem)
    (hlaunch : SameLaunch K
      ((GpgpuTop.reset memory).launchKernel K gridX gridY program warpIdOffset) L mem regs)
    (hregular : RegularLaunch L mem regs) :
    ∃ turns g tr, (GpgpuTop.transition K).exec (fun _ => True) (GpgpuTop.reset memory)
        (.launch gridX gridY program warpIdOffset :: List.replicate turns .resume) =
          some (g, tr) ∧
      GpgpuTop.Ended K ((GpgpuTop.reset memory).launchKernel K gridX gridY program warpIdOffset)
        tr g ∧
      ∀ (D : SideDepths) (m : MemorySubsystem) (s : System L) (tr' : List Hls.TopEvent),
        FreshRun L D m mem regs s tr' → OwnWords memory tr' → s.gpu.core.done = true →
          SameResult K ((GpgpuTop.reset memory).launchKernel K gridX gridY program warpIdOffset)
            turns g s := by
  have hcomplete : (GpgpuTop.reset memory).isKernelComplete K = true :=
    List.all_eq_true.2 fun _ _ => rfl
  have hids : (GpgpuTop.reset memory).scheduler.kernelWarpCounter.toNat +
      (gridX * gridY).toNat < 2 ^ 32 := by
    have hwarps : gridX * gridY = L.totalWarps := hlaunch.warps
    have hcap := L.toGpuSize.capacity_lt
    have hfits := hlaunch.fits
    rw [hwarps]
    show 0 + _ < _
    omega
  obtain ⟨turns, g, tr, serial, hexec, hended, hserial⟩ :=
    (GpgpuTop.ends_launchKernel gridX gridY program warpIdOffset rfl hcomplete hids).exec_launch
  refine ⟨turns, g, tr, hexec, hended, fun D m s tr' hrun hown hdone => ?_⟩
  exact hlaunch.sameResult hmemory
    (hown.comparable hrun hlaunch.fits hdone hregular) hserial hrun hdone

/-! ### Four warps that exchange their numbers -/

/-- Lane 0 of each warp stores the number of the warp, and after the barrier it loads that of the
other warp on its CU. -/
def exchange : Launch where
  toGpuSize := { twoCus with
    maxWarpsPerCu := 2
    maxWarpsPerCu_lt := by decide }
  depths := ⟨2, 2, 2, 2, 1, 2, 1⟩
  fp := warpNumbers.fp
  vectorOps := true
  program := programStore [encodeInstruction .addi 5 0 0 31, encodeInstruction .and 4 1 5 0,
    encodeInstruction .vbranch 0 4 0 0, encodeInstruction .sw 0 2 3 0,
    encodeInstruction .vjoin 0 0 0 0, encodeInstruction .barrier 0 0 0 1,
    encodeInstruction .vbranch 0 4 0 0, encodeInstruction .addi 6 0 0 256,
    encodeInstruction .xor 6 2 6 0, encodeInstruction .lw 7 6 0 0,
    encodeInstruction .halt 0 0 0 0]
  programLen := 11
  totalWarps := 4
  warpIdOffset := 0

def exchangeConfig : GpgpuTop.Config :=
  { warpNumbersConfig with numComputeUnits := 2, numComputeUnits_pos := by decide }

def exchangeProgram : List Instruction := decodeProgram exchange.program exchange.programLen

def exchangeStart : GpgpuTop :=
  (GpgpuTop.reset GpgpuTop.emptyMemory).launchKernel exchangeConfig 4 1 exchangeProgram 0

def exchangeRegs (c : exchange.Cus) (slot : SlotId) : RegFile :=
  (exchangeStart.launchedContexts exchangeConfig (exchange.localWarp c slot)).regs

def exchangeRun : System exchange × List Hls.TopEvent :=
  followLaunch exchange ⟨1, 1⟩ emptySubsystem (fun _ => 0) exchangeRegs
    (launchActions 62 (launchRound _))

theorem ownWords_exchange : OwnWords GpgpuTop.emptyMemory exchangeRun.2 := by
  have hall : Isolated (servedReqs (memEvents exchangeRun.2)) ∧
      ∀ req ∈ servedReqs (memEvents exchangeRun.2),
        isGlobal req = true ∧ outsideWindow GpgpuTop.emptyMemory (reqWord req) := by
    decide +kernel
  exact ⟨hall.1, hall.2⟩

/-- Warp 0 ends with the number of warp 2 in register 7. -/
theorem sameResult_of_ownWords_exchange : ∃ turns g tr,
    (GpgpuTop.transition exchangeConfig).exec (fun _ => True)
      (GpgpuTop.reset GpgpuTop.emptyMemory)
      (.launch 4 1 exchangeProgram 0 :: List.replicate turns .resume) = some (g, tr) ∧
    SameResult exchangeConfig exchangeStart turns g exchangeRun.1 ∧
    (exchangeRun.1.gpu.cus ⟨0, by decide⟩).regs 0 0 7 = 2 := by
  have hdone : exchangeRun.1.gpu.core.done = true := by decide +kernel
  have hloaded : (exchangeRun.1.gpu.cus ⟨0, by decide⟩).regs 0 0 7 = 2 := by decide +kernel
  have hmemory : SameMemory GpgpuTop.emptyMemory (fun _ => 0) :=
    ⟨mirrors_emptyMemory.coherent, fun _ => rfl⟩
  have hlaunch : SameLaunch exchangeConfig exchangeStart exchange (fun _ => 0) exchangeRegs :=
    ⟨⟨rfl, rfl, rfl⟩, by simp only [exchangeStart, GpgpuTop.launchKernel, exchangeProgram],
      rfl, by decide, mirrors_emptyMemory, fun _ _ _ => rfl⟩
  have hregular : RegularLaunch exchange (fun _ => 0) exchangeRegs := ⟨by decide +kernel⟩
  obtain ⟨turns, g, tr, hexec, -, hresult⟩ := sameResult_of_ownWords hmemory hlaunch hregular
  exact ⟨turns, g, tr, hexec,
    hresult _ _ _ _ (freshRun_followLaunch _) ownWords_exchange hdone, hloaded⟩

end RiscvGpgpu.Parity
