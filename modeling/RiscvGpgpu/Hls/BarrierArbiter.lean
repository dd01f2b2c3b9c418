import RiscvGpgpu.Hls.CuDispatchUnit

/-!
# The barrier arbiter

`barrier_arbiter.h`: the counters of stalled and finished warps over all CUs, and the process
`barrierCoreN` that owns them. The process is cut at each stream operation; `BarrierPc` is where it
stands. `events` and `signals` are the ends of its streams at the CUs.
-/

namespace RiscvGpgpu.Hls

structure BarrierState where
  totalWarps : WarpId := 0
  stalledCount : WarpId := 0
  doneCount : WarpId := 0
  launchFault : Bool := false
  deriving DecidableEq, Repr

def barrierLaunch (G : GpuSize) (totalWarps : WarpId) : BarrierState where
  totalWarps := totalWarps
  stalledCount := 0
  doneCount := 0
  launchFault := BitVec.ofNat 32 G.capacity < totalWarps

def barrierLaunchFault (b : BarrierState) : Bool := b.launchFault

def barrierOnEvent (b : BarrierState) : WarpStatusCode → BarrierState
  | .complete => { b with doneCount := b.doneCount + 1 }
  | .stalledAtBarrier => { b with stalledCount := b.stalledCount + 1 }

def barrierReleaseReady (b : BarrierState) : Bool :=
  b.totalWarps ≠ 0 && b.stalledCount = b.totalWarps

def barrierAcknowledgeRelease (b : BarrierState) : BarrierState := { b with stalledCount := 0 }

def barrierKernelComplete (b : BarrierState) : Bool :=
  b.totalWarps ≠ 0 && b.doneCount = b.totalWarps

structure BarrierSignal where
  release : Bool
  kernelDone : Bool
  deriving DecidableEq, Repr

/-- The signal of `SIGNAL_RELEASE`. -/
def releaseSignal : BarrierSignal := ⟨true, false⟩

/-- The signal of `SIGNAL_DONE`. -/
def doneSignal : BarrierSignal := ⟨false, true⟩

/-- Write to a stream of the given depth; a full stream blocks. -/
def push {α : Type} (depth : ℕ) (queue : List α) (x : α) : Option (List α) :=
  if queue.length < depth then some (queue ++ [x]) else none

theorem push_eq_some {α : Type} {depth : ℕ} {queue queue' : List α} {x : α}
    (h : push depth queue x = some queue') : queue' = queue ++ [x] := by
  unfold push at h
  split at h
  · exact (Option.some.inj h).symm
  · exact absurd h (by simp)

/-- Where `barrierCoreN` stands: at the head of its loop, before a poll, a check or a write. -/
inductive BarrierPc where
  | head
  | pollCuEvents (c : ℕ)
  | releaseCheck
  | signalRelease (c : ℕ)
  | completeCheck
  | signalDone (c : ℕ)
  deriving DecidableEq, Repr

structure BarrierCore where
  pc : BarrierPc := .head
  counts : BarrierState := {}
  busy : Bool := false
  done : Bool := false
  fault : Bool := false

/-- The streams between `barrierCoreN` and one CU. -/
structure BarrierPort where
  events : List WarpStatusCode
  signals : List BarrierSignal

/-- One step of `barrierCoreN`: what becomes of the process and of the streams of its CUs. -/
def barrierStep (G : GpuSize) (signalDepth : ℕ) (totalWarps : WarpId) (start : Bool)
    (core : BarrierCore) (ports : Fin G.numCus → BarrierPort) :
    Option (BarrierCore × (Fin G.numCus → BarrierPort)) :=
  match core.pc with
  | .head =>
    if core.busy then some ({ core with pc := .pollCuEvents 0 }, ports)
    else if start then
      let counts := barrierLaunch G totalWarps
      if barrierLaunchFault counts then some ({ core with counts := counts, fault := true }, ports)
      else some ({ core with counts := counts, busy := true }, ports)
    else some (core, ports)
  | .pollCuEvents c =>
    if h : c < G.numCus then
      match (ports ⟨c, h⟩).events with
      | [] => some ({ core with pc := .pollCuEvents (c + 1) }, ports)
      | code :: rest =>
        some ({ core with counts := barrierOnEvent core.counts code, pc := .pollCuEvents (c + 1) },
          Function.update ports ⟨c, h⟩ { ports ⟨c, h⟩ with events := rest })
    else some ({ core with pc := .releaseCheck }, ports)
  | .releaseCheck =>
    if barrierReleaseReady core.counts then
      some ({ core with counts := barrierAcknowledgeRelease core.counts, pc := .signalRelease 0 },
        ports)
    else some ({ core with pc := .completeCheck }, ports)
  | .signalRelease c =>
    if h : c < G.numCus then
      (push signalDepth (ports ⟨c, h⟩).signals releaseSignal).map fun signals =>
        ({ core with pc := .signalRelease (c + 1) },
          Function.update ports ⟨c, h⟩ { ports ⟨c, h⟩ with signals := signals })
    else some ({ core with pc := .completeCheck }, ports)
  | .completeCheck =>
    if barrierKernelComplete core.counts then
      some ({ core with busy := false, done := true, pc := .signalDone 0 }, ports)
    else some ({ core with pc := .head }, ports)
  | .signalDone c =>
    if h : c < G.numCus then
      (push signalDepth (ports ⟨c, h⟩).signals doneSignal).map fun signals =>
        ({ core with pc := .signalDone (c + 1) },
          Function.update ports ⟨c, h⟩ { ports ⟨c, h⟩ with signals := signals })
    else some ({ core with pc := .head }, ports)

/-- What a step of `barrierCoreN` can do, branch by branch. -/
inductive BarrierMove (G : GpuSize) (totalWarps : WarpId) (start : Bool) (core : BarrierCore)
    (ports : Fin G.numCus → BarrierPort) :
    BarrierCore → (Fin G.numCus → BarrierPort) → Prop where
  | poll (hpc : core.pc = .head) (hb : core.busy = true) :
      BarrierMove G totalWarps start core ports { core with pc := .pollCuEvents 0 } ports
  | idle (hpc : core.pc = .head) (hb : core.busy = false) (hstart : start = false) :
      BarrierMove G totalWarps start core ports core ports
  | reject (hpc : core.pc = .head) (hb : core.busy = false) (hstart : start = true)
      (hover : G.capacity < totalWarps.toNat) :
      BarrierMove G totalWarps start core ports
        { core with counts := barrierLaunch G totalWarps, fault := true } ports
  | accept (hpc : core.pc = .head) (hb : core.busy = false) (hstart : start = true)
      (hfits : totalWarps.toNat ≤ G.capacity) :
      BarrierMove G totalWarps start core ports
        { core with counts := barrierLaunch G totalWarps, busy := true } ports
  | pass {c : Fin G.numCus} (hpc : core.pc = .pollCuEvents c) (hev : (ports c).events = []) :
      BarrierMove G totalWarps start core ports { core with pc := .pollCuEvents (c + 1) } ports
  | count {c : Fin G.numCus} {code : WarpStatusCode} {rest : List WarpStatusCode}
      (hpc : core.pc = .pollCuEvents c) (hev : (ports c).events = code :: rest) :
      BarrierMove G totalWarps start core ports
        { core with counts := barrierOnEvent core.counts code, pc := .pollCuEvents (c + 1) }
        (Function.update ports c { ports c with events := rest })
  | polled {c : ℕ} (hpc : core.pc = .pollCuEvents c) (hc : G.numCus ≤ c) :
      BarrierMove G totalWarps start core ports { core with pc := .releaseCheck } ports
  | release (hpc : core.pc = .releaseCheck) (hready : barrierReleaseReady core.counts = true) :
      BarrierMove G totalWarps start core ports
        { core with counts := barrierAcknowledgeRelease core.counts, pc := .signalRelease 0 } ports
  | hold (hpc : core.pc = .releaseCheck) (hready : ¬ barrierReleaseReady core.counts = true) :
      BarrierMove G totalWarps start core ports { core with pc := .completeCheck } ports
  | signal {c : Fin G.numCus} (hpc : core.pc = .signalRelease c) :
      BarrierMove G totalWarps start core ports { core with pc := .signalRelease (c + 1) }
        (Function.update ports c
          { ports c with signals := (ports c).signals ++ [releaseSignal] })
  | signalled {c : ℕ} (hpc : core.pc = .signalRelease c) (hc : G.numCus ≤ c) :
      BarrierMove G totalWarps start core ports { core with pc := .completeCheck } ports
  | complete (hpc : core.pc = .completeCheck)
      (hcomplete : barrierKernelComplete core.counts = true) :
      BarrierMove G totalWarps start core ports
        { core with busy := false, done := true, pc := .signalDone 0 } ports
  | incomplete (hpc : core.pc = .completeCheck)
      (hcomplete : ¬ barrierKernelComplete core.counts = true) :
      BarrierMove G totalWarps start core ports { core with pc := .head } ports
  | finish {c : Fin G.numCus} (hpc : core.pc = .signalDone c) :
      BarrierMove G totalWarps start core ports { core with pc := .signalDone (c + 1) }
        (Function.update ports c { ports c with signals := (ports c).signals ++ [doneSignal] })
  | finished {c : ℕ} (hpc : core.pc = .signalDone c) (hc : G.numCus ≤ c) :
      BarrierMove G totalWarps start core ports { core with pc := .head } ports

theorem barrierLaunchFault_iff {G : GpuSize} {totalWarps : WarpId} :
    barrierLaunchFault (barrierLaunch G totalWarps) = true ↔ G.capacity < totalWarps.toNat := by
  unfold barrierLaunchFault barrierLaunch
  rw [decide_eq_true_eq, BitVec.lt_def, BitVec.toNat_ofNat, Nat.mod_eq_of_lt G.capacity_lt]

theorem barrierStep_moves {G : GpuSize} {depth : ℕ} {totalWarps : WarpId} {start : Bool}
    {core core' : BarrierCore} {ports ports' : Fin G.numCus → BarrierPort}
    (hs : barrierStep G depth totalWarps start core ports = some (core', ports')) :
    BarrierMove G totalWarps start core ports core' ports' := by
  unfold barrierStep at hs
  split at hs
  · next hpc =>
    split at hs
    · next hb =>
      obtain ⟨rfl, rfl⟩ := Prod.mk.inj (Option.some.inj hs)
      exact .poll hpc hb
    · next hb =>
      rw [Bool.not_eq_true] at hb
      split at hs
      · next hstart =>
        dsimp only at hs
        split at hs
        · next hfault =>
          obtain ⟨rfl, rfl⟩ := Prod.mk.inj (Option.some.inj hs)
          exact .reject hpc hb hstart (barrierLaunchFault_iff.1 hfault)
        · next hfault =>
          obtain ⟨rfl, rfl⟩ := Prod.mk.inj (Option.some.inj hs)
          exact .accept hpc hb hstart (Nat.not_lt.1 (mt barrierLaunchFault_iff.2 hfault))
      · next hstart =>
        obtain ⟨rfl, rfl⟩ := Prod.mk.inj (Option.some.inj hs)
        exact .idle hpc hb (by simpa using hstart)
  · next c hpc =>
    split at hs
    · next hc =>
      split at hs
      · next hev =>
        obtain ⟨rfl, rfl⟩ := Prod.mk.inj (Option.some.inj hs)
        exact .pass (c := ⟨c, hc⟩) hpc hev
      · next code rest hev =>
        obtain ⟨rfl, rfl⟩ := Prod.mk.inj (Option.some.inj hs)
        exact .count (c := ⟨c, hc⟩) hpc hev
    · next hc =>
      obtain ⟨rfl, rfl⟩ := Prod.mk.inj (Option.some.inj hs)
      exact .polled hpc (Nat.not_lt.1 hc)
  · next hpc =>
    split at hs
    · next hready =>
      obtain ⟨rfl, rfl⟩ := Prod.mk.inj (Option.some.inj hs)
      exact .release hpc hready
    · next hready =>
      obtain ⟨rfl, rfl⟩ := Prod.mk.inj (Option.some.inj hs)
      exact .hold hpc hready
  · next c hpc =>
    split at hs
    · next hc =>
      obtain ⟨signals, hq, heq⟩ := Option.map_eq_some_iff.1 hs
      obtain ⟨rfl, rfl⟩ := Prod.mk.inj heq
      obtain rfl := push_eq_some hq
      exact .signal (c := ⟨c, hc⟩) hpc
    · next hc =>
      obtain ⟨rfl, rfl⟩ := Prod.mk.inj (Option.some.inj hs)
      exact .signalled hpc (Nat.not_lt.1 hc)
  · next hpc =>
    split at hs
    · next hcomplete =>
      obtain ⟨rfl, rfl⟩ := Prod.mk.inj (Option.some.inj hs)
      exact .complete hpc hcomplete
    · next hcomplete =>
      obtain ⟨rfl, rfl⟩ := Prod.mk.inj (Option.some.inj hs)
      exact .incomplete hpc hcomplete
  · next c hpc =>
    split at hs
    · next hc =>
      obtain ⟨signals, hq, heq⟩ := Option.map_eq_some_iff.1 hs
      obtain ⟨rfl, rfl⟩ := Prod.mk.inj heq
      obtain rfl := push_eq_some hq
      exact .finish (c := ⟨c, hc⟩) hpc
    · next hc =>
      obtain ⟨rfl, rfl⟩ := Prod.mk.inj (Option.some.inj hs)
      exact .finished hpc (Nat.not_lt.1 hc)

end RiscvGpgpu.Hls
