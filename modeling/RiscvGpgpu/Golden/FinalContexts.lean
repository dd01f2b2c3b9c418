import RiscvGpgpu.Golden.GpgpuTop

/-!
# The contexts that the warps end with

`simulationProcess` drops the context of a warp that completes. `finalContexts` keeps them, in the
order of the calls of `executeWarp`: beside each part of the process stands what its calls leave.
-/

namespace RiscvGpgpu.Golden

namespace GpgpuTop

/-- What the turns of a loop put out. -/
def loopOut {S A B : Type} (turn : S → A → S) (out : S → A → List B) : List A → S → List B
  | [], _ => []
  | a :: as, s => out s a ++ loopOut turn out as (turn s a)

theorem loopOut_concat {S A B : Type} (turn : S → A → S) (out : S → A → List B) (as : List A)
    (a : A) (s : S) :
    loopOut turn out (as ++ [a]) s = loopOut turn out as s ++ out (as.foldl turn s) a := by
  induction as generalizing s with
  | nil => exact List.append_nil _
  | cons b as ih =>
    rw [List.cons_append, loopOut, ih, ← List.append_assoc]
    rfl

variable (K : Config)

/-- The context of a warp, if it has completed. -/
def completedContext (out : WarpOutcome) : List WarpContext :=
  if out.ctx.state = .complete then [out.ctx] else []

/-- Of one turn of the fan-out. -/
def dispatchContexts (cuId : ℕ) (s : Turn) : List WarpContext :=
  let (warpId, scheduler) := s.top.scheduler.selectWarp K.toConfig cuId
  let g := { s.top with scheduler := scheduler }
  if warpId = WarpScheduler.invalidWarpId then []
  else completedContext (g.runWarp K cuId g.kernelProgram (g.buildWarpContext K warpId)).1

def fanOutContexts (s : Turn) : List WarpContext :=
  loopOut (fun s cuId => dispatch K cuId s) (fun s cuId => dispatchContexts K cuId s)
    (List.range K.numComputeUnits) s

/-- Of one resumed warp. -/
def resumeWarpContexts (s : Turn) (sw : StalledWarp) : List WarpContext :=
  completedContext (s.top.runWarp K sw.cuId sw.program sw.ctx).1

def barrierContexts (s : Turn) : List WarpContext :=
  match s.barrierQueue with
  | [] => []
  | sw :: _ =>
    if s.top.scheduler.isComplete K.toConfig ∧ s.barrierQueue.length = s.top.totalWarps.toNat then
      loopOut (resumeWarp K) (resumeWarpContexts K) s.barrierQueue
        ⟨s.top.clearBarriers K sw.bid, [], s.events⟩
    else []

def loopContexts (g : GpgpuTop) (barrierQueue : List StalledWarp) : List WarpContext :=
  if !g.scheduler.isComplete K.toConfig || !barrierQueue.isEmpty then
    fanOutContexts K ⟨g, barrierQueue, []⟩ ++ barrierContexts K (fanOut K ⟨g, barrierQueue, []⟩)
  else []

/-- From one wait of the process to the next. -/
def resumeContexts (g : GpgpuTop) : List WarpContext :=
  match g.process with
  | .idle => if g.launchPending then loopContexts K { g with launchPending := false } [] else []
  | .running barrierQueue => loopContexts K { g with launchPending := false } barrierQueue

/-- The contexts of the warps that complete in the next `n` turns of the process. -/
def finalContexts : ℕ → GpgpuTop → List WarpContext
  | 0, _ => []
  | n + 1, g =>
    match g.resume K with
    | some (g', _) => resumeContexts K g ++ finalContexts n g'
    | none => []

end GpgpuTop

end RiscvGpgpu.Golden
