import RiscvGpgpu.Host.HostApi

/-!
# What a launch leaves behind

A launch that gets as far as `configureLaunch` ends with the execution state that its result says
and with nothing staged (`LaunchEnds`). A launch rejected before that touches neither, so the state
and the staged arguments of earlier calls survive it: `synchronize_reports_iff` and
`staged_for_one_launch_iff` say for which sequences of calls that can be seen.
-/

namespace RiscvGpgpu.Host

namespace HostState

/-- The launch is turned down before it is configured. -/
def Rejected (s : HostState) (c : LaunchCall) : Prop :=
  c.kernelName = "" ∨
    (c.gridX = 0 ∨ c.gridY = 0 ∨ c.gridZ = 0 ∨ c.blockX = 0 ∨ c.blockY = 0 ∨ c.blockZ = 0) ∨
    (s.registeredPtx c.kernelName = none ∧ s.requiredPtx c.kernelName = true)

instance (s : HostState) (c : LaunchCall) : Decidable (s.Rejected c) := by
  unfold Rejected
  infer_instance

/-- What a launch that configures `args` ends with. -/
structure LaunchEnds (args : List (BitVec 64)) (r : Bool × HostState) : Prop where
  execState : r.2.execution.execState = if r.1 then .completed else .failed
  args : r.2.execution.launchArgs.args = args
  staged : r.2.stagedArgs = []

variable {s : HostState} {c : LaunchCall} {launch : KernelLaunchArgs}

theorem failCompilation_ends (error : String) :
    LaunchEnds launch.args (s.failCompilation launch error) where
  execState := rfl
  args := rfl
  staged := rfl

theorem launchUnregistered_ends (h : s.requiredPtx launch.kernelName = false) :
    LaunchEnds launch.args (s.launchUnregistered launch) := by
  unfold launchUnregistered
  rw [h]
  exact ⟨rfl, rfl, rfl⟩

theorem launchUnregistered_required (h : s.requiredPtx launch.kernelName = true) :
    s.launchUnregistered launch =
      s.failHostOperation ("Required PTX source is not registered: " ++ launch.kernelName) := by
  unfold launchUnregistered
  rw [h]
  rfl

theorem launchImage_ends (backend : Option KernelExecutionBackend) (bytes : List Golden.Byte) :
    LaunchEnds launch.args (s.launchImage backend launch bytes) := by
  cases backend with
  | none => exact ⟨rfl, rfl, rfl⟩
  | some backend =>
    rcases h : runBackend backend launch bytes with ⟨executed, backendError⟩
    unfold launchImage
    simp only [KernelExecution.configureLaunch, KernelExecution.beginKernelExecution, h]
    cases executed with
    | true => exact ⟨rfl, rfl, rfl⟩
    | false => exact ⟨rfl, rfl, rfl⟩

theorem launchRegistered_ends (env : Environment) (source : String) :
    LaunchEnds launch.args (s.launchRegistered env source launch) := by
  unfold launchRegistered
  cases env.compile source with
  | exception what => exact failCompilation_ends _
  | unknownException => exact failCompilation_ends _
  | returned elf =>
    dsimp only
    split_ifs
    iterate 4 exact failCompilation_ends _
    show LaunchEnds ({ launch with entrySymbol := elf.entrySymbol } : KernelLaunchArgs).args _
    exact launchImage_ends _ _

theorem gpgpuLaunchKernel_ends (env : Environment) (h : ¬ s.Rejected c) :
    LaunchEnds (s.launchArgs c).args (s.gpgpuLaunchKernel env c) := by
  obtain ⟨hname, hrest⟩ := not_or.1 h
  obtain ⟨hdims, hreq⟩ := not_or.1 hrest
  unfold gpgpuLaunchKernel
  dsimp only
  rw [if_neg hname, if_neg hdims]
  cases hptx : s.registeredPtx c.kernelName with
  | some source => exact launchRegistered_ends env source
  | none =>
    apply launchUnregistered_ends
    exact Bool.eq_false_iff.2 fun hr => hreq ⟨hptx, hr⟩

/-- A rejected launch fails and leaves what earlier calls left. -/
theorem gpgpuLaunchKernel_rejected (env : Environment) (h : s.Rejected c) :
    (s.gpgpuLaunchKernel env c).1 = false ∧
      (s.gpgpuLaunchKernel env c).2.execution = s.execution ∧
      (s.gpgpuLaunchKernel env c).2.stagedArgs = s.stagedArgs := by
  unfold gpgpuLaunchKernel
  dsimp only
  split_ifs with hname hdims
  · exact ⟨rfl, rfl, rfl⟩
  · exact ⟨rfl, rfl, rfl⟩
  · rcases h with h | h | ⟨hptx, hreq⟩
    · exact absurd h hname
    · exact absurd h hdims
    · rw [hptx]
      dsimp only
      rw [launchUnregistered_required (by exact hreq)]
      exact ⟨rfl, rfl, rfl⟩

end HostState

namespace HostCall

open HostState

/-- Only a launch touches the execution state. -/
theorem step_execution {call : HostCall} {s : HostState}
    (h : ∀ env c, call ≠ .gpgpuLaunchKernel env c) : (call.step s).2.execution = s.execution := by
  cases call with
  | setKernelArgument value => rfl
  | clearKernelArguments => rfl
  | gpgpuRegisterPtx kernelName ptxSource =>
    show (s.gpgpuRegisterPtx kernelName ptxSource).2.execution = s.execution
    unfold HostState.gpgpuRegisterPtx
    split_ifs <;> rfl
  | gpgpuUnregisterPtx kernelName =>
    show (s.gpgpuUnregisterPtx kernelName).2.execution = s.execution
    unfold HostState.gpgpuUnregisterPtx
    split_ifs <;> rfl
  | gpgpuRequireRegisteredPtx kernelName required =>
    show (s.gpgpuRequireRegisteredPtx kernelName required).2.execution = s.execution
    unfold HostState.gpgpuRequireRegisteredPtx
    split_ifs <;> rfl
  | gpgpuLaunchKernel env c => exact absurd rfl (h env c)
  | gpgpuSynchronize => rfl

/-! ## The result of the latest launch -/

/-- The results of the launches in a log. -/
def launchResults (log : List (HostCall × Bool)) : List Bool :=
  log.filterMap fun
    | (.gpgpuLaunchKernel _ _, r) => some r
    | _ => none

/-- The result of the latest launch among the calls made, if there is one. -/
def lastLaunch (cs : List HostCall) : Option Bool :=
  (launchResults (Calls.log step .init cs)).getLast?

theorem lastLaunch_launch (cs : List HostCall) (env : Environment) (c : LaunchCall) :
    lastLaunch (cs ++ [.gpgpuLaunchKernel env c]) =
      some ((after cs).gpgpuLaunchKernel env c).1 := by
  unfold lastLaunch launchResults
  rw [Calls.log_append, List.filterMap_append]
  exact List.getLast?_concat

theorem lastLaunch_other (cs : List HostCall) {call : HostCall}
    (h : ∀ env c, call ≠ .gpgpuLaunchKernel env c) : lastLaunch (cs ++ [call]) = lastLaunch cs := by
  unfold lastLaunch launchResults
  rw [Calls.log_append, List.filterMap_append]
  cases call with
  | gpgpuLaunchKernel env c => exact absurd rfl (h env c)
  | _ => exact congrArg List.getLast? (List.append_nil _)

/-- Whenever `gpgpuSynchronize` would return true, the latest launch has returned true. -/
def SynchronizeReports (cs : List HostCall) : Prop :=
  ∀ pre, pre <+: cs → ((after pre).gpgpuSynchronize).1 = true → lastLaunch pre = some true

/-- The call is not a launch that is rejected while an earlier one counts as completed. -/
def KeepsNoCompletion (s : HostState) (call : HostCall) : Prop :=
  ∀ env c, call = .gpgpuLaunchKernel env c → s.Rejected c → s.execution.execState ≠ .completed

theorem synchronize_iff (s : HostState) :
    s.gpgpuSynchronize.1 = true ↔ s.execution.execState = .completed := decide_eq_true_iff

theorem completed_lastLaunch {cs : List HostCall}
    (h : Calls.Each step KeepsNoCompletion .init cs) :
    (after cs).execution.execState = .completed → lastLaunch cs = some true := by
  refine Calls.after_induction
    (fun pre s => s.execution.execState = .completed → lastLaunch pre = some true) ?_ ?_ h
  · intro hinit
    exact absurd hinit (by decide)
  · intro pre call hok ih hcomp
    by_cases hl : ∃ env c, call = .gpgpuLaunchKernel env c
    · obtain ⟨env, c, rfl⟩ := hl
      rw [lastLaunch_launch]
      by_cases hrej : (after pre).Rejected c
      · obtain ⟨-, hexec, -⟩ := gpgpuLaunchKernel_rejected env hrej
        exact absurd ((congrArg KernelExecution.execState hexec).symm.trans hcomp)
          (hok env c rfl hrej)
      · have hend := (gpgpuLaunchKernel_ends env hrej).execState
        cases hr : ((after pre).gpgpuLaunchKernel env c).1 with
        | true => rfl
        | false =>
          rw [hr] at hend
          exact absurd (hend.symm.trans hcomp) (by decide)
    · have hother : ∀ env c, call ≠ .gpgpuLaunchKernel env c := fun env c hc => hl ⟨env, c, hc⟩
      rw [lastLaunch_other pre hother]
      exact ih ((congrArg KernelExecution.execState (step_execution hother)).symm.trans hcomp)

/-- `gpgpuSynchronize` reports the latest launch exactly in the sequences of calls in which no
launch is rejected while an earlier one counts as completed. -/
theorem synchronize_reports_iff (cs : List HostCall) :
    SynchronizeReports cs ↔ Calls.Each step KeepsNoCompletion .init cs := by
  constructor
  · rintro hrep pre call post rfl env c rfl hrej hcomp
    obtain ⟨hfail, hexec, -⟩ := gpgpuLaunchKernel_rejected env hrej
    have hpre : pre ++ [.gpgpuLaunchKernel env c] <+: pre ++ .gpgpuLaunchKernel env c :: post :=
      ⟨post, by simp⟩
    have hlast := hrep _ hpre
      ((synchronize_iff _).2 (by
        rw [after, Calls.after_append]
        exact (congrArg KernelExecution.execState hexec).trans hcomp))
    rw [lastLaunch_launch, hfail] at hlast
    exact absurd hlast (by decide)
  · intro heach pre hpre hsync
    exact completed_lastLaunch (heach.initial hpre) ((synchronize_iff _).1 hsync)

/-- A launch without PTX, and one under an empty name after it. -/
theorem not_synchronizeReports : ¬ ∀ cs : List HostCall, SynchronizeReports cs := by
  intro h
  let env : Environment := ⟨fun _ => .unknownException, none⟩
  let good : LaunchCall := ⟨"k", 1, 1, 1, 1, 1, 1, [], 0⟩
  let calls : List HostCall :=
    [.gpgpuLaunchKernel env good, .gpgpuLaunchKernel env { good with kernelName := "" }]
  have hlast : lastLaunch calls = some true := h calls calls (List.prefix_refl _) rfl
  exact absurd (hlast.symm.trans (show lastLaunch calls = some false from rfl)) (by decide)

/-! ## The arguments staged for a launch -/

/-- The values staged since the latest launch or clear. -/
def stagedSince (cs : List HostCall) : List (BitVec 64) :=
  cs.foldl (fun acc call =>
    match call with
    | .setKernelArgument value => acc ++ [value]
    | .clearKernelArguments => []
    | .gpgpuLaunchKernel _ _ => []
    | _ => acc) []

/-- Every launch without arguments of its own that gets to be configured is configured with the
values staged for it, and no launch leaves a staged value. -/
def StagedForOneLaunch (cs : List HostCall) : Prop :=
  ∀ pre env c post, cs = pre ++ .gpgpuLaunchKernel env c :: post →
    (c.args = [] → ¬ (after pre).Rejected c →
      ((after pre).gpgpuLaunchKernel env c).2.execution.launchArgs.args = stagedSince pre) ∧
    ((after pre).gpgpuLaunchKernel env c).2.stagedArgs = []

/-- The call is not a launch that is rejected while something is staged. -/
def LeavesNothingStaged (s : HostState) (call : HostCall) : Prop :=
  ∀ env c, call = .gpgpuLaunchKernel env c → s.Rejected c → s.stagedArgs = []

theorem launch_clears {s : HostState} {env : Environment} {c : LaunchCall}
    (h : LeavesNothingStaged s (.gpgpuLaunchKernel env c)) :
    (s.gpgpuLaunchKernel env c).2.stagedArgs = [] := by
  by_cases hrej : s.Rejected c
  · rw [(gpgpuLaunchKernel_rejected env hrej).2.2]
    exact h env c rfl hrej
  · exact (gpgpuLaunchKernel_ends env hrej).staged

theorem stagedArgs_eq {cs : List HostCall} (h : Calls.Each step LeavesNothingStaged .init cs) :
    (after cs).stagedArgs = stagedSince cs := by
  refine Calls.after_induction (fun pre s => s.stagedArgs = stagedSince pre) rfl ?_ h
  intro pre call hok ih
  unfold stagedSince
  rw [List.foldl_append]
  show (call.step (after pre)).2.stagedArgs = _
  cases call with
  | setKernelArgument value => exact congrArg (· ++ [value]) ih
  | clearKernelArguments => rfl
  | gpgpuLaunchKernel env c => exact launch_clears hok
  | gpgpuRegisterPtx kernelName ptxSource =>
    refine Eq.trans ?_ ih
    show ((after pre).gpgpuRegisterPtx kernelName ptxSource).2.stagedArgs = (after pre).stagedArgs
    unfold HostState.gpgpuRegisterPtx
    split_ifs <;> rfl
  | gpgpuUnregisterPtx kernelName =>
    refine Eq.trans ?_ ih
    show ((after pre).gpgpuUnregisterPtx kernelName).2.stagedArgs = (after pre).stagedArgs
    unfold HostState.gpgpuUnregisterPtx
    split_ifs <;> rfl
  | gpgpuRequireRegisteredPtx kernelName required =>
    refine Eq.trans ?_ ih
    show ((after pre).gpgpuRequireRegisteredPtx kernelName required).2.stagedArgs =
      (after pre).stagedArgs
    unfold HostState.gpgpuRequireRegisteredPtx
    split_ifs <;> rfl
  | gpgpuSynchronize => exact ih

/-- Staged arguments belong to one launch exactly in the sequences of calls in which no launch is
rejected while something is staged. -/
theorem staged_for_one_launch_iff (cs : List HostCall) :
    StagedForOneLaunch cs ↔ Calls.Each step LeavesNothingStaged .init cs := by
  constructor
  · rintro hone pre call post rfl env c rfl hrej
    have hclear := (hone pre env c post rfl).2
    rwa [(gpgpuLaunchKernel_rejected env hrej).2.2] at hclear
  · rintro heach pre env c post rfl
    refine ⟨fun hargs hrej => ?_, launch_clears (heach pre _ post rfl)⟩
    rw [(gpgpuLaunchKernel_ends env hrej).args, launchArgs, hargs]
    exact stagedArgs_eq (heach.initial ⟨_, rfl⟩)

/-- A value staged before a launch under an empty name is still staged after it. -/
theorem not_stagedForOneLaunch : ¬ ∀ cs : List HostCall, StagedForOneLaunch cs := by
  intro h
  let env : Environment := ⟨fun _ => .unknownException, none⟩
  let bad : LaunchCall := ⟨"", 1, 1, 1, 1, 1, 1, [], 0⟩
  have hclear : ((after [.setKernelArgument 7]).gpgpuLaunchKernel env bad).2.stagedArgs = [] :=
    (h [.setKernelArgument 7, .gpgpuLaunchKernel env bad] [.setKernelArgument 7] env bad [] rfl).2
  exact absurd ((show _ = [7#64] from rfl).symm.trans hclear) (by decide)

end HostCall

end RiscvGpgpu.Host
