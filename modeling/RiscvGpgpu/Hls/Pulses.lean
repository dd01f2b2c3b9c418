import RiscvGpgpu.Hls.CacheInvariant
import RiscvGpgpu.Hls.LaunchProgress

/-!
# Pulses

The events of a run of the top, cut at each launch the host raises.
-/

namespace RiscvGpgpu.Hls

/-- A launch the host has raised, with what has happened until the next one. -/
structure Pulse where
  args : LaunchArgs
  events : List FlatEvent

def Pulse.warpEvents (p : Pulse) : List Event := Hls.warpEvents p.events

/-- The pulses with one more event, the latest pulse first. -/
def addEvent : List Pulse → FlatEvent → List Pulse
  | ps, .raised a => ⟨a, []⟩ :: ps
  | [], _ => []
  | p :: older, e => { p with events := p.events ++ [e] } :: older

def pulses (tr : List FlatEvent) : List Pulse := tr.foldl addEvent []

section Pulses

variable {p : Pulse} {older : List Pulse} {ev : List FlatEvent}

/-- The pulse with more events. -/
def Pulse.extend (p : Pulse) (ev : List FlatEvent) : Pulse := { p with events := p.events ++ ev }

def FlatEvent.isRaised : FlatEvent → Bool
  | raised _ => true
  | _ => false

theorem foldl_addEvent (h : ∀ e ∈ ev, e.isRaised = false) :
    ev.foldl addEvent (p :: older) = p.extend ev :: older := by
  induction ev generalizing p with
  | nil => simp [Pulse.extend]
  | cons e ev ih =>
    have he := h e List.mem_cons_self
    have hcons : addEvent (p :: older) e = p.extend [e] :: older := by
      cases e with
      | raised a => exact absurd he (by simp [FlatEvent.isRaised])
      | _ => rfl
    rw [List.foldl_cons, hcons, ih fun e' he' => h e' (List.mem_cons_of_mem _ he')]
    simp [Pulse.extend]

theorem foldl_addEvent_nil (h : ∀ e ∈ ev, e.isRaised = false) : ev.foldl addEvent [] = [] := by
  induction ev with
  | nil => rfl
  | cons e ev ih =>
    have he := h e List.mem_cons_self
    have hcons : addEvent [] e = [] := by
      cases e with
      | raised a => exact absurd he (by simp [FlatEvent.isRaised])
      | _ => rfl
    rw [List.foldl_cons, hcons, ih fun e' he' => h e' (List.mem_cons_of_mem _ he')]

@[simp] theorem extend_args : (p.extend ev).args = p.args := rfl

@[simp] theorem extend_warpEvents : (p.extend ev).warpEvents = p.warpEvents ++ warpEvents ev :=
  warpEvents_append _ _

end Pulses

theorem pulses_append (tr ev : List FlatEvent) :
    pulses (tr ++ ev) = ev.foldl addEvent (pulses tr) :=
  List.foldl_append

/-! ## A small top -/

/-- One CU with one slot. -/
def oneSlot : Build where
  toGpuSize := oneCu
  depths := ⟨2, 2, 2, 2, 1, 2, 1⟩
  regSeed := 2
  side := ⟨1, 1⟩
  fp := ⟨fun a _ => a, fun a _ => a, fun a _ => a, fun a _ _ => a⟩
  vectorOps := true

/-- A launch of `HALT` with the given number of warps. -/
def haltArgs (totalWarps : WarpId) : LaunchArgs where
  program _ := encodeInstruction .halt 0 0 0 0
  programLen := 1
  initialRegs _ := 0
  totalWarps := totalWarps
  warpIdOffset := 0

/-- Reset, with all words zero. -/
def Top.zeroed (B : Build) : Top B where
  args := haltArgs 0
  start := false
  host := {}
  loader := {}
  stores _ := Vector.replicate _ 0
  seeds _ := []
  polled _ := false
  cus _ := Gpu.resetCu fun _ _ _ => 0
  core := {}
  side := ⟨{}, [], [], .ready, (emptySubsystem, fun _ => 0)⟩

/-- A warp that is loaded, runs `HALT` and ends, and the next launch. -/
def haltThen (totalWarps : WarpId) : List (TopAction 1) :=
  let turn := [.loader, .scheduler 0, .pipeline 0, .barrier]
  [.raise (haltArgs 1), .barrier, .sample] ++ List.replicate 514 .loader ++
    (List.replicate 1024 [.loader, .loader, .pipeline 0]).flatten ++
    (List.replicate 4 turn).flatten ++ [.drop] ++ (List.replicate 12 turn).flatten ++
    [.sample, .raise (haltArgs totalWarps), .barrier, .barrier]

theorem Top.zeroed_isReset (B : Build) : (Top.zeroed B).IsReset :=
  ⟨rfl, rfl, rfl, fun _ => rfl, fun _ => rfl, rfl, fun _ => ⟨_, rfl⟩, _, rfl⟩

end RiscvGpgpu.Hls
