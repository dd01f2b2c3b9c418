import RiscvGpgpu.Golden.SystemTop
import RiscvGpgpu.Hls.SystemTop

/-!
# The two system tops

Both split a launch evenly and in the same way. `SystemTopHLS::isComplete` asks every device for its
`done`, also those that the launch leaves out: `multiDeviceLaunch_iff` says when they do not matter.
-/

namespace RiscvGpgpu.Parity

open Split Hls Hls.SystemTopHls

/-- The size of the range a party gets. -/
def sizeAt (ps : List Part) (d : ℕ) : ℕ :=
  match ps.find? fun p => p.index = d with
  | some p => p.size
  | none => 0

/-- Contiguous ranges that cover `0, …, total - 1`, with sizes that differ by at most one. -/
structure FairSplit (n total : ℕ) (ps : List Part) : Prop where
  index_lt : ∀ p ∈ ps, p.index < n
  nodup : (ps.map Part.index).Nodup
  ranges : (ps.flatMap fun p => List.range' p.offset p.size) = List.range total
  sizes : ∀ d < n, ∀ e < n, sizeAt ps d ≤ sizeAt ps e + 1

theorem sizeAt_parts {total n d : ℕ} (hd : d < n) :
    sizeAt (parts total n) d = Split.share total n d := by
  unfold sizeAt
  cases hfind : (parts total n).find? fun p => p.index = d with
  | some p =>
    obtain ⟨-, -, -, hsize⟩ := mem_parts.1 (List.mem_of_find?_eq_some hfind)
    have hindex : p.index = d := by simpa using List.find?_some hfind
    rw [← hindex]
    exact hsize
  | none =>
    by_contra hshare
    have hpart : (⟨d, start total n d, Split.share total n d⟩ : Part) ∈ parts total n :=
      mem_parts.2 ⟨hd, Nat.pos_of_ne_zero (Ne.symm hshare), rfl, rfl⟩
    simpa using List.find?_eq_none.1 hfind _ hpart

theorem fairSplit_parts {total n : ℕ} (hn : 0 < n) : FairSplit n total (parts total n) where
  index_lt := fun _ hp => (mem_parts.1 hp).1
  nodup := nodup_index
  ranges := flatMap_parts hn
  sizes := fun d hd e he => by
    rw [sizeAt_parts hd, sizeAt_parts he]
    exact share_le_succ d e

variable (K : SystemTopHls.Config)

/-- What a launch on the devices does after some history: a fair split, the one of the golden
system, written to the devices; and `isComplete` once exactly the devices with a part have
finished, in whatever order. -/
structure MultiDeviceLaunch (history : List DeviceAction) (totalWarps programLen : BitVec 32) :
    Prop where
  fair : FairSplit K.numDevices.toNat totalWarps.toNat (launches K totalWarps)
  same : ∀ K' : Golden.SystemTop.Config, K'.numGpus = K.numDevices →
    Golden.SystemTop.launches K' totalWarps = launches K totalWarps
  written : ∀ p ∈ launches K totalWarps,
    ((after K .init (history ++ [.launch totalWarps programLen])).devices p.index) =
      ⟨BitVec.ofNat 32 p.offset, BitVec.ofNat 32 p.size, programLen, true, false⟩
  complete : ∀ finished : List ℕ,
    (after K .init
      (history ++ .launch totalWarps programLen :: finished.map .finish)).isComplete K =
        true ↔
      ∀ p ∈ launches K totalWarps, p.index ∈ finished

variable {K}

/-- A device gets a part of a launch unless there are no more warps than devices before it. -/
theorem share_eq_zero_iff {total n d : ℕ} (hd : d < n) :
    Split.share total n d = 0 ↔ total ≤ d := by
  unfold Split.share
  rw [Nat.add_eq_zero_iff, Nat.div_eq_zero_iff]
  constructor
  · rintro ⟨hdiv, hmod⟩
    split_ifs at hmod with h
    rcases hdiv with rfl | hlt
    · omega
    · rw [Nat.mod_eq_of_lt hlt] at h
      omega
  · intro hle
    refine ⟨.inr (by omega), if_neg ?_⟩
    rw [Nat.mod_eq_of_lt (by omega)]
    omega

theorem devices_after_launch {history : List DeviceAction} {totalWarps programLen : BitVec 32}
    (finished : List ℕ) {d : ℕ} (hd : d < K.numDevices.toNat) :
    (after K .init (history ++ .launch totalWarps programLen :: finished.map .finish)).devices d =
      let dev := (after K .init history).devices d
      let dev' := if totalWarps.toNat ≤ d then dev else
        dev.launch programLen ⟨d, start totalWarps.toNat K.numDevices.toNat d,
          Split.share totalWarps.toNat K.numDevices.toNat d⟩
      if d ∈ finished then dev'.finish else dev' := by
  rw [after, Calls.after_append]
  show (after K ((after K .init history).launchKernel K totalWarps programLen)
    (finished.map .finish)).devices d = _
  rw [after_finish, launchKernel_devices hd]
  simp only [share_eq_zero_iff hd]

theorem mem_launches {totalWarps : BitVec 32} {p : Part} : p ∈ launches K totalWarps ↔
    p.index < K.numDevices.toNat ∧ ¬ totalWarps.toNat ≤ p.index ∧
      p.offset = start totalWarps.toNat K.numDevices.toNat p.index ∧
      p.size = Split.share totalWarps.toNat K.numDevices.toNat p.index := by
  rw [launches_eq, mem_parts]
  constructor
  · rintro ⟨hlt, hpos, hoffset, hsize⟩
    refine ⟨hlt, fun hle => ?_, hoffset, hsize⟩
    rw [hsize, (share_eq_zero_iff hlt).2 hle] at hpos
    exact absurd hpos (lt_irrefl 0)
  · rintro ⟨hlt, hle, hoffset, hsize⟩
    refine ⟨hlt, ?_, hoffset, hsize⟩
    rw [hsize]
    exact Nat.pos_of_ne_zero fun h => hle ((share_eq_zero_iff hlt).1 h)

/-- A device reports the end of a launch only if it has been started. -/
theorem start_of_done (history : List DeviceAction) (d : ℕ) :
    ((after K .init history).devices d).done = true →
      ((after K .init history).devices d).start = true := by
  induction history using List.reverseRecOn with
  | nil => exact fun h => absurd h Bool.false_ne_true
  | append_singleton history a ih =>
    rw [after, Calls.after_append]
    cases a with
    | launch totalWarps programLen =>
      exact applyParts_keeps (P := fun dev : Device => dev.done = true → dev.start = true)
        (fun _ _ _ => rfl) _ _ ih
    | finish f =>
      show ((Function.update (after K .init history).devices f
          ((after K .init history).devices f).finish) d).done = true →
        ((Function.update (after K .init history).devices f
          ((after K .init history).devices f).finish) d).start = true
      by_cases hd : d = f
      · subst hd
        rw [Function.update_self]
        exact id
      · rw [Function.update_of_ne hd]
        exact ih

/-- A launch does what it should exactly if every device that gets no warp was done before. -/
theorem multiDeviceLaunch_iff (history : List DeviceAction) (totalWarps programLen : BitVec 32) :
    MultiDeviceLaunch K history totalWarps programLen ↔
      ∀ d < K.numDevices.toNat, totalWarps.toNat ≤ d →
        ((after K .init history).devices d).done = true := by
  constructor
  · intro h d hd hle
    have hall := (h.complete ((launches K totalWarps).map Part.index)).2
      fun p hp => List.mem_map_of_mem hp
    have hdone := (isComplete_iff _).1 hall d hd
    have hout : d ∉ (launches K totalWarps).map Part.index := by
      intro hmem
      obtain ⟨p, hp, rfl⟩ := List.mem_map.1 hmem
      exact (mem_launches.1 hp).2.1 hle
    rw [devices_after_launch _ hd] at hdone
    simpa only [if_neg hout, if_pos hle] using hdone
  · intro h
    refine ⟨?_, fun K' hK => ?_, fun p hp => ?_, fun finished => ?_⟩
    · rw [launches_eq]
      exact fairSplit_parts K.numDevices_pos
    · rw [launches_eq, Golden.SystemTop.launches_eq, hK]
    · obtain ⟨hlt, hle, hoffset, hsize⟩ := mem_launches.1 hp
      show (after K .init (history ++ .launch totalWarps programLen ::
        ([] : List ℕ).map .finish)).devices p.index = _
      rw [devices_after_launch [] hlt]
      simp only [if_neg hle, List.not_mem_nil, if_false, Device.launch, hoffset, hsize]
    · rw [isComplete_iff]
      constructor
      · intro hdone p hp
        obtain ⟨hlt, hle, -, -⟩ := mem_launches.1 hp
        by_contra hfin
        have hone := hdone p.index hlt
        rw [devices_after_launch _ hlt] at hone
        simp only [if_neg hfin, if_neg hle, Device.launch] at hone
        exact Bool.false_ne_true hone
      · intro hfin d hd
        rw [devices_after_launch _ hd]
        by_cases hle : totalWarps.toNat ≤ d
        · have hdone := h d hd hle
          simp only [if_pos hle]
          split_ifs
          · exact start_of_done history d hdone
          · exact hdone
        · have hpart : (⟨d, start totalWarps.toNat K.numDevices.toNat d,
              Split.share totalWarps.toNat K.numDevices.toNat d⟩ : Part) ∈ launches K totalWarps :=
            mem_launches.2 ⟨hd, hle, rfl, rfl⟩
          simp only [if_neg hle, if_pos (hfin _ hpart), Device.launch, Device.finish]

/-- The first launch on two devices, of one warp. -/
theorem not_multiDeviceLaunch : ¬ ∀ (K : SystemTopHls.Config) (history : List DeviceAction)
    (totalWarps programLen : BitVec 32), MultiDeviceLaunch K history totalWarps programLen := by
  intro h
  let twoDevices : SystemTopHls.Config := ⟨2, by decide⟩
  have hpart : ∀ p ∈ launches twoDevices 1, p.index ∈ [0] := by decide
  have hcomplete := ((h twoDevices [] 1 1).complete [0]).2 hpart
  exact absurd hcomplete (by decide)

end RiscvGpgpu.Parity
