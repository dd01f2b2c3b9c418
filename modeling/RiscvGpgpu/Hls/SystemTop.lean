import RiscvGpgpu.Hls.Types
import RiscvGpgpu.Lib.Calls
import RiscvGpgpu.Lib.Split

/-!
# The multi-device coordinator

`SystemTopHLS`: `launchKernel` splits the warps of a launch among the devices, and a device that
gets none is left alone. Of a device there are the registers written and its `done` register, which
is true exactly when the launch last started on it has finished.
-/

namespace RiscvGpgpu.Hls

open Split

structure SystemTopHls.Config where
  numDevices : BitVec 32
  numDevices_pos : 0 < numDevices.toNat

structure Device where
  warpIdOffset : BitVec 32
  totalWarps : BitVec 32
  programLen : BitVec 32
  start : Bool
  done : Bool

/-- `devices_`, by their number. -/
structure SystemTopHls where
  devices : ℕ → Device

/-- The registers that `launchKernel` writes for a part. Starting a launch takes `done` away. -/
def Device.launch (programLen : BitVec 32) (p : Part) (_ : Device) : Device where
  warpIdOffset := BitVec.ofNat 32 p.offset
  totalWarps := BitVec.ofNat 32 p.size
  programLen := programLen
  start := true
  done := false

/-- The launch last started finishes. -/
def Device.finish (dev : Device) : Device := { dev with done := dev.start }

namespace SystemTopHls

variable (K : Config)

def init : SystemTopHls := ⟨fun _ => ⟨0, 0, 0, false, false⟩⟩

/-- The loop of `launchKernel` from an offset on: the devices it writes to. -/
def launchLoop (base rem : ℕ) : List ℕ → ℕ → List Part
  | [], _ => []
  | d :: ds, offset =>
    let n := base + if d < rem then 1 else 0
    if n = 0 then launchLoop base rem ds offset
    else ⟨d, offset, n⟩ :: launchLoop base rem ds (offset + n)

/-- None of the sums exceeds `total_warps`. -/
def launches (totalWarps : BitVec 32) : List Part :=
  launchLoop (totalWarps.toNat / K.numDevices.toNat) (totalWarps.toNat % K.numDevices.toNat)
    (List.range K.numDevices.toNat) 0

def launchKernel (totalWarps programLen : BitVec 32) (s : SystemTopHls) : SystemTopHls where
  devices := applyParts (Device.launch programLen) (launches K totalWarps) s.devices

def isComplete (s : SystemTopHls) : Bool :=
  (List.range K.numDevices.toNat).all fun d => (s.devices d).done

/-- A launch, or the end of the launch last started on a device. -/
inductive DeviceAction where
  | launch (totalWarps programLen : BitVec 32)
  | finish (device : ℕ)

def step : DeviceAction → SystemTopHls → Unit × SystemTopHls
  | .launch totalWarps programLen, s => ((), s.launchKernel K totalWarps programLen)
  | .finish d, s => ((), ⟨Function.update s.devices d (s.devices d).finish⟩)

abbrev after (s : SystemTopHls) (acts : List DeviceAction) : SystemTopHls :=
  Calls.after (step K) s acts

variable {K}

theorem launchLoop_eq {total n : ℕ} (k m : ℕ) :
    launchLoop (total / n) (total % n) (List.range' k m) (start total n k) =
      (List.range' k m).filterMap fun i =>
        if share total n i = 0 then none else some ⟨i, start total n i, share total n i⟩ := by
  induction m generalizing k with
  | zero => rfl
  | succ m ih =>
    have hstep : launchLoop (total / n) (total % n) (k :: List.range' (k + 1) m)
        (start total n k) =
        if share total n k = 0 then
          launchLoop (total / n) (total % n) (List.range' (k + 1) m) (start total n k)
        else ⟨k, start total n k, share total n k⟩ ::
          launchLoop (total / n) (total % n) (List.range' (k + 1) m) (start total n (k + 1)) := rfl
    rw [filterMap_range'_succ, List.range'_succ, hstep]
    split_ifs with h
    · have hstart : start total n (k + 1) = start total n k := by rw [start, h, Nat.add_zero]
      rw [List.nil_append, ← ih (k + 1), hstart]
    · rw [ih (k + 1), List.singleton_append]

/-- The devices get the even split. -/
theorem launches_eq (totalWarps : BitVec 32) :
    launches K totalWarps = parts totalWarps.toNat K.numDevices.toNat := by
  unfold launches parts
  rw [List.range_eq_range']
  exact launchLoop_eq 0 _

theorem launchKernel_devices {totalWarps programLen : BitVec 32} {s : SystemTopHls} {d : ℕ}
    (hd : d < K.numDevices.toNat) :
    (s.launchKernel K totalWarps programLen).devices d =
      if share totalWarps.toNat K.numDevices.toNat d = 0 then s.devices d
      else (s.devices d).launch programLen ⟨d, start totalWarps.toNat K.numDevices.toNat d,
        share totalWarps.toNat K.numDevices.toNat d⟩ := by
  unfold launchKernel
  rw [launches_eq]
  exact applyParts_parts _ _ hd

theorem isComplete_iff (s : SystemTopHls) :
    s.isComplete K = true ↔ ∀ d < K.numDevices.toNat, (s.devices d).done = true := by
  simp only [isComplete, List.all_eq_true, List.mem_range]

/-- A device after some devices have finished. -/
theorem after_finish (fs : List ℕ) (s : SystemTopHls) (d : ℕ) :
    (after K s (fs.map .finish)).devices d =
      if d ∈ fs then (s.devices d).finish else s.devices d := by
  induction fs generalizing s with
  | nil => rfl
  | cons f fs ih =>
    show (after K ⟨Function.update s.devices f (s.devices f).finish⟩ (fs.map .finish)).devices d = _
    rw [ih]
    by_cases hf : d = f
    · subst hf
      simp [Device.finish]
    · simp [hf]

end SystemTopHls

end RiscvGpgpu.Hls
