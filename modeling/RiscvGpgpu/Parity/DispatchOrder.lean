import RiscvGpgpu.Hls.Placement
import RiscvGpgpu.Golden.Scheduling

/-!
# The order in which a compute unit gets its warps

`submitKernel` deals the warps of a launch into the queues of the compute units and `selectWarp`
pops them; `launchSlots` computes which warp a slot holds and the scheduler of a CU dispatches the
lowest ready slot. Both give CU `c` of `n` the warps `c`, `c + n`, `c + 2 n` and so on: an idle
golden scheduler has nothing to rebalance. The HLS side leaves this order where a CU number does not
fit in `cu_id_t` or a slot number in `slot_id_t`, the golden side where an id is `INVALID_WARP_ID`.
-/

namespace RiscvGpgpu

/-! ## Dealing -/

/-- How many of `total` warps dealt in turn go to unit `cu` of `n`. -/
def share (n total cu : ℕ) : ℕ := (total + (n - 1 - cu)) / n

section Share

variable {n cu : ℕ} (hcu : cu < n)

include hcu

theorem lt_share_iff (total slot : ℕ) : slot < share n total cu ↔ cu + slot * n < total := by
  unfold share
  rw [Nat.lt_iff_add_one_le, Nat.le_div_iff_mul_le (by omega), Nat.add_mul, Nat.one_mul]
  omega

/-- The warp after `total` others goes to the unit whose turn it is. -/
theorem share_succ (total : ℕ) :
    share n (total + 1) cu = share n total cu + if total % n = cu then 1 else 0 := by
  have hturn : n ∣ total + (n - 1 - cu) + 1 ↔ total % n = cu := by
    have hrest : total + (n - 1 - cu) + 1 = total + (n - cu) := by omega
    have hmod := Nat.mod_lt total (by omega : 0 < n)
    rw [hrest, Nat.dvd_iff_mod_eq_zero, ← Nat.mod_add_mod]
    constructor
    · intro h
      rcases Nat.lt_or_ge (total % n + (n - cu)) n with hlt | hge
      · rw [Nat.mod_eq_of_lt hlt] at h
        omega
      · rw [Nat.mod_eq_sub_mod hge, Nat.mod_eq_of_lt (by omega)] at h
        omega
    · intro h
      rw [h, show cu + (n - cu) = n by omega, Nat.mod_self]
  unfold share
  rw [show total + 1 + (n - 1 - cu) = total + (n - 1 - cu) + 1 by omega, Nat.succ_div]
  simp only [hturn]

theorem add_share_mul {total : ℕ} (h : total % n = cu) : cu + share n total cu * n = total := by
  have hlow := (lt_share_iff hcu total (share n total cu)).not.1 (lt_irrefl _)
  have hhigh := (lt_share_iff hcu (total + 1) (share n total cu)).1 (by
    rw [share_succ hcu, if_pos h]
    omega)
  omega

end Share

/-- The shares differ by one at most. -/
theorem share_le (n total cu cu' : ℕ) (hn : 0 < n) : share n total cu ≤ share n total cu' + 1 := by
  unfold share
  calc (total + (n - 1 - cu)) / n ≤ (total + (n - 1 - cu') + n) / n :=
        Nat.div_le_div_right (by omega)
    _ = (total + (n - 1 - cu')) / n + 1 := Nat.add_div_right _ hn

namespace Golden.WarpScheduler

/-! ## The golden scheduler -/

/-- The warps that a compute unit gets from calls of `selectWarp` for any units. -/
def received (K : Config) (cuId : ℕ) : List ℕ → WarpScheduler → List WarpId
  | [], _ => []
  | call :: calls, s =>
    let (warpId, s) := s.selectWarp K call
    if call = cuId ∧ warpId ≠ invalidWarpId then warpId :: received K cuId calls s
    else received K cuId calls s

variable {K : Config} {s : WarpScheduler}

theorem received_cons (cuId call : ℕ) (calls : List ℕ) (s : WarpScheduler) :
    s.received K cuId (call :: calls) =
      if call = cuId ∧ (s.selectWarp K call).1 ≠ invalidWarpId then
        (s.selectWarp K call).1 :: (s.selectWarp K call).2.received K cuId calls
      else (s.selectWarp K call).2.received K cuId calls := rfl

theorem selectWarp_other {call cuId : ℕ} (hne : call ≠ cuId) :
    (s.selectWarp K call).2.readyQueues cuId = s.readyQueues cuId := by
  by_cases hcall : call < K.numComputeUnits
  · rw [(selectWarp_eq hcall).2, Function.update_of_ne hne.symm]
  · unfold selectWarp
    rw [if_pos (Nat.not_lt.1 hcall)]

/-- Calls for other units do not matter; an id that is `INVALID_WARP_ID` is popped unseen. -/
theorem received_eq {cuId : ℕ} (hcu : cuId < K.numComputeUnits) (calls : List ℕ)
    (s : WarpScheduler) : s.received K cuId calls =
      ((s.readyQueues cuId).take (calls.count cuId)).filter (· ≠ invalidWarpId) := by
  induction calls generalizing s with
  | nil => rfl
  | cons call calls ih =>
    rw [received_cons, ih]
    by_cases hcall : call = cuId
    · subst hcall
      obtain ⟨hid, hq⟩ := selectWarp_eq (s := s) hcu
      rw [hid, hq, Function.update_self, List.count_cons_self]
      cases s.readyQueues call with
      | nil =>
        rw [if_neg (by simp)]
        simp
      | cons id rest =>
        rw [List.take_succ_cons, List.filter_cons]
        simp
    · rw [if_neg (fun h => hcall h.1), selectWarp_other hcall, List.count_cons_of_ne hcall]

/-- The ids that unit `cuId` gets of the first `total` of a launch. -/
def dealt (K : Config) (first : WarpId) (total cuId : ℕ) : List WarpId :=
  (List.range (share K.numComputeUnits total cuId)).map
    fun r => first + BitVec.ofNat 32 (cuId + r * K.numComputeUnits)

theorem generateWarp_readyQueues (s : WarpScheduler) (i cuId : ℕ) :
    (generateWarp K s i).readyQueues cuId = if i % K.numComputeUnits = cuId then
      s.readyQueues cuId ++ [s.kernelWarpCounter] else s.readyQueues cuId := by
  unfold generateWarp
  split_ifs with h
  · rw [← h]
    exact Function.update_self _ _ _
  · exact Function.update_of_ne (Ne.symm h) _ _

/-- The turns of `generateWarps` deal the warps. -/
theorem generateWarps_dealt (s : WarpScheduler) {cuId : ℕ} (hcu : cuId < K.numComputeUnits)
    (total : ℕ) : ((List.range total).foldl (generateWarp K) s).readyQueues cuId =
      s.readyQueues cuId ++ dealt K s.kernelWarpCounter total cuId := by
  induction total with
  | zero =>
    have hshare : share K.numComputeUnits 0 cuId = 0 := by
      have h := (lt_share_iff hcu 0 0).not.2 (by omega)
      omega
    rw [dealt, hshare]
    exact (List.append_nil _).symm
  | succ total ih =>
    have hcounter := (generateWarps_submitted K total s).counter
    rw [List.range_succ, List.foldl_append, List.foldl_cons, List.foldl_nil,
      generateWarp_readyQueues, ih, hcounter, dealt, dealt, share_succ hcu]
    split_ifs with hturn
    · rw [List.range_succ, List.map_append, List.append_assoc, List.map_cons, List.map_nil,
        add_share_mul hcu hturn]
    · rw [Nat.add_zero]

/-- Queues whose lengths differ by one at most stay as they are. -/
theorem balanceLoop_even {q : WarpQueues}
    (h : ∀ i < K.numComputeUnits, ∀ j < K.numComputeUnits, (q i).length ≤ (q j).length + 1) :
    balanceLoop K q = q := by
  have hnone : rebalance K q = none := by
    unfold rebalance
    rw [if_neg (Nat.not_lt.2 (h _ (maxCu_lt q) _ (minCu_lt q)))]
  unfold balanceLoop
  split
  · next q' hsome => exact absurd (hnone.symm.trans hsome) (by simp)
  · rfl

theorem readyQueues_of_isComplete (hidle : s.isComplete K = true) {cuId : ℕ}
    (hcu : cuId < K.numComputeUnits) : s.readyQueues cuId = [] := by
  have h := List.all_eq_true.1 hidle cuId (List.mem_range.2 hcu)
  rw [Bool.and_eq_true, List.isEmpty_iff] at h
  exact h.1

/-- Nothing is moved when a launch meets an idle scheduler. -/
theorem submitKernel_dealt (hidle : s.isComplete K = true) (gridX gridY : BitVec 32) {cuId : ℕ}
    (hcu : cuId < K.numComputeUnits) : (s.submitKernel K gridX gridY).readyQueues cuId =
      dealt K s.kernelWarpCounter (gridX * gridY).toNat cuId := by
  have hq : ∀ c < K.numComputeUnits, (s.generateWarps K gridX gridY).readyQueues c =
      dealt K s.kernelWarpCounter (gridX * gridY).toNat c := by
    intro c hc
    have hgen := generateWarps_dealt s hc (gridX * gridY).toNat
    rwa [readyQueues_of_isComplete hidle hc, List.nil_append] at hgen
  unfold submitKernel balanceLoadAcrossUnits
  split_ifs with hone
  · exact hq cuId hcu
  · show balanceLoop K _ cuId = _
    rw [balanceLoop_even, hq cuId hcu]
    intro i hi j hj
    rw [hq i hi, hq j hj, dealt, dealt, List.length_map, List.length_map, List.length_range,
      List.length_range]
    exact share_le _ _ _ _ K.numComputeUnits_pos

end Golden.WarpScheduler

namespace Hls.BuildConfig

/-! ## The scheduler of a CU -/

def buildDispatch (slots : ℕ → WarpSlot) (slot : SlotId) : WarpDispatch × (ℕ → WarpSlot) :=
  ({ slotId := slot
     warpId := (slots slot.toNat).warpId
     activeMaskInit := BitVec.allOnes 32
     resumePc := (slots slot.toNat).resumePc
     freshLaunch := (slots slot.toNat).fresh },
    Function.update slots slot.toNat { slots slot.toNat with fresh := false })

def recordResult (slots : ℕ → WarpSlot) (slot : SlotId) (status : WarpStatus) : ℕ → WarpSlot :=
  Function.update slots slot.toNat (slotWithResult (slots slot.toNat) status)

/-- The fresh warps that a CU dispatches as the results come in, one for each dispatch. -/
def freshWarps (B : BuildConfig) : List WarpStatus → (ℕ → WarpSlot) → List WarpId
  | [], _ => []
  | status :: results, slots =>
    let slot := B.nextReadySlot slots
    if slot.toNat ≠ B.maxWarpsPerCu then
      let (d, slots) := buildDispatch slots slot
      (if d.freshLaunch then [d.warpId] else []) ++
        freshWarps B results (recordResult slots slot status)
    else freshWarps B results slots

variable {B : BuildConfig}

/-- The slots behind a dispatch and its result. -/
def served (slots : ℕ → WarpSlot) (slot : SlotId) (status : WarpStatus) : ℕ → WarpSlot :=
  recordResult (buildDispatch slots slot).2 slot status

theorem freshWarps_cons (status : WarpStatus) (results : List WarpStatus) (slots : ℕ → WarpSlot) :
    B.freshWarps (status :: results) slots =
      if (B.nextReadySlot slots).toNat ≠ B.maxWarpsPerCu then
        (if (slots (B.nextReadySlot slots).toNat).fresh then
          [(slots (B.nextReadySlot slots).toNat).warpId] else []) ++
        B.freshWarps results (served slots (B.nextReadySlot slots) status)
      else B.freshWarps results slots := rfl

theorem served_self (slots : ℕ → WarpSlot) (slot : SlotId) (status : WarpStatus) :
    (served slots slot status slot.toNat).state ≠ .ready ∧
      (served slots slot status slot.toNat).fresh = false := by
  have hself : served slots slot status slot.toNat =
      slotWithResult { slots slot.toNat with fresh := false } status := by
    unfold served recordResult buildDispatch
    dsimp only
    rw [Function.update_self, Function.update_self]
  rw [hself, slotWithResult]
  split <;> exact ⟨SlotState.noConfusion, rfl⟩

theorem served_other (slots : ℕ → WarpSlot) {slot : SlotId} (status : WarpStatus) {n : ℕ}
    (h : n ≠ slot.toNat) : served slots slot status n = slots n := by
  unfold served recordResult buildDispatch
  dsimp only
  rw [Function.update_of_ne h, Function.update_of_ne h]

/-- `done` of the `held` slots that a launch has filled are served; a slot number can reach no
other fresh slot. -/
structure Progress (filled : ℕ → WarpSlot) (held done : ℕ) (slots : ℕ → WarpSlot) : Prop where
  waiting : ∀ n, done ≤ n → n < held → slots n = filled n
  served : ∀ n < done, (slots n).state ≠ .ready
  stale : ∀ n < 16, n < done ∨ held ≤ n → (slots n).fresh = false

section Rounds

variable {filled slots : ℕ → WarpSlot} {held done : ℕ}

/-- A dispatch of a slot that does not wait changes nothing that counts. -/
theorem Progress.serve_other (h : Progress filled held done slots) {slot : SlotId}
    (hslot : slot.toNat < done ∨ held ≤ slot.toNat) (status : WarpStatus) :
    Progress filled held done (BuildConfig.served slots slot status) where
  waiting := by
    intro n hdone hheld
    rw [served_other slots status (by omega)]
    exact h.waiting n hdone hheld
  served := by
    intro n hn
    by_cases heq : n = slot.toNat
    · rw [heq]
      exact (served_self slots slot status).1
    · rw [served_other slots status heq]
      exact h.served n hn
  stale := by
    intro n hn hor
    by_cases heq : n = slot.toNat
    · rw [heq]
      exact (served_self slots slot status).2
    · rw [served_other slots status heq]
      exact h.stale n hn hor

/-- The dispatch of the first waiting slot. -/
theorem Progress.serve_first (h : Progress filled held done slots) {slot : SlotId}
    (hslot : slot.toNat = done) (status : WarpStatus) :
    Progress filled held (done + 1) (BuildConfig.served slots slot status) where
  waiting := by
    intro n hdone hheld
    rw [served_other slots status (by omega)]
    exact h.waiting n (by omega) hheld
  served := by
    intro n hn
    by_cases heq : n = slot.toNat
    · rw [heq]
      exact (served_self slots slot status).1
    · rw [served_other slots status heq]
      exact h.served n (by omega)
  stale := by
    intro n hn hor
    by_cases heq : n = slot.toNat
    · rw [heq]
      exact (served_self slots slot status).2
    · rw [served_other slots status heq]
      exact h.stale n hn (by omega)

/-- The lowest ready slot is the first that waits. -/
theorem Progress.nextReadySlot_eq (h : Progress filled held done slots) (hdone : done < held)
    (hready : (filled done).state = .ready) (hheld : held ≤ B.maxWarpsPerCu) :
    B.nextReadySlot slots = BitVec.ofNat 4 done := by
  have hfind : (List.range B.maxWarpsPerCu).find?
      (fun slot => (slots slot).state = .ready) = some done := by
    rw [List.find?_range_eq_some]
    refine ⟨?_, List.mem_range.2 (by omega), ?_⟩
    · rw [h.waiting done le_rfl hdone]
      exact decide_eq_true hready
    · intro n hn
      simpa using h.served n hn
  unfold nextReadySlot
  rw [hfind]
  rfl

/-- A CU dispatches its waiting warps by their slots, up to the last that a slot number can name. -/
theorem Progress.freshWarps_eq (h : Progress filled held done slots)
    (hfilled : ∀ n < held, (filled n).state = .ready ∧ (filled n).fresh = true)
    (hheld : held ≤ B.maxWarpsPerCu) (hdone : done ≤ min held 16) (results : List WarpStatus) :
    B.freshWarps results slots =
      ((List.range' done (min held 16 - done)).take results.length).map
        fun n => (filled n).warpId := by
  induction results generalizing slots done with
  | nil => rfl
  | cons status results ih =>
    rw [freshWarps_cons]
    by_cases hlt : done < min held 16
    · obtain ⟨hready, hfresh⟩ := hfilled done (by omega)
      have hslot := h.nextReadySlot_eq (by omega) hready hheld
      have hnat : (B.nextReadySlot slots).toNat = done := by
        rw [hslot, BitVec.toNat_ofNat, Nat.mod_eq_of_lt (by omega)]
      have hcount : min held 16 - done = min held 16 - (done + 1) + 1 := by omega
      rw [if_pos (by omega), hnat, h.waiting done le_rfl (by omega), if_pos hfresh,
        ih (h.serve_first hnat status) (by omega), hcount, List.range'_succ, List.length_cons,
        List.take_succ_cons, List.map_cons, List.singleton_append]
    · have hsmall : (B.nextReadySlot slots).toNat < 16 := (B.nextReadySlot slots).isLt
      have hor : (B.nextReadySlot slots).toNat < done ∨ held ≤ (B.nextReadySlot slots).toNat := by
        omega
      have hnone : min held 16 - done = 0 := by omega
      have hstay := ih (h.serve_other hor status) hdone
      have hidle := ih h hdone
      rw [hnone, List.range'_zero, List.take_nil] at hstay hidle
      rw [hnone, h.stale _ hsmall hor, if_neg Bool.false_ne_true, List.nil_append, hstay, hidle,
        List.range'_zero, List.take_nil]
      exact ite_id _

end Rounds

/-! ## What a launch fills -/

section Launch

variable (totalWarps warpIdOffset : WarpId) {cu : ℕ}

theorem launchSlots_eq (hN : B.numCus ≤ 8) (hcu : cu < B.numCus) (old : ℕ → WarpSlot) {slot : ℕ}
    (hslot : slot < B.maxWarpsPerCu) (hfit : cu + slot * B.numCus < 2 ^ 32) :
    B.launchSlots old (BitVec.ofNat 3 cu) totalWarps warpIdOffset slot =
      if cu + slot * B.numCus < totalWarps.toNat then
        ⟨warpIdOffset + BitVec.ofNat 32 (cu + slot * B.numCus), 0, 0, .ready, true⟩
      else { old slot with state := .empty } := by
  have hid : (BitVec.ofNat 3 cu).setWidth 32 = BitVec.ofNat 32 cu := by
    refine BitVec.eq_of_toNat_eq ?_
    rw [BitVec.toNat_setWidth, BitVec.toNat_ofNat, BitVec.toNat_ofNat]
    omega
  have hlt : BitVec.ofNat 32 (cu + slot * B.numCus) < totalWarps ↔
      cu + slot * B.numCus < totalWarps.toNat := by
    rw [BitVec.lt_def, BitVec.toNat_ofNat, Nat.mod_eq_of_lt hfit]
  unfold launchSlots assignSlot
  rw [if_pos hslot, hid, ← BitVec.ofNat_mul, ← BitVec.ofNat_add]
  dsimp only
  by_cases h : cu + slot * B.numCus < totalWarps.toNat
  · rw [if_pos (hlt.2 h), if_pos h]
  · rw [if_neg (mt hlt.1 h), if_neg h]

/-- A launch fills as many slots as the golden scheduler deals warps to the unit. -/
theorem launchSlots_progress (hN : B.numCus ≤ 8) (hcu : cu < B.numCus)
    {old : ℕ → WarpSlot} (hold : ∀ slot, (old slot).fresh = false) :
    Progress (B.launchSlots old (BitVec.ofNat 3 cu) totalWarps warpIdOffset)
      (share B.numCus totalWarps.toNat cu) 0
      (B.launchSlots old (BitVec.ofNat 3 cu) totalWarps warpIdOffset) where
  waiting := fun _ _ _ => rfl
  served := fun _ h => absurd h (Nat.not_lt_zero _)
  stale := by
    intro n hn hor
    have hempty : ¬ cu + n * B.numCus < totalWarps.toNat := fun h =>
      absurd ((lt_share_iff hcu _ _).2 h) (by omega)
    by_cases hslot : n < B.maxWarpsPerCu
    · have hmul : n * B.numCus ≤ 15 * 8 := Nat.mul_le_mul (by omega) hN
      rw [launchSlots_eq _ _ hN hcu old hslot (by omega), if_neg hempty]
      exact hold n
    · unfold launchSlots
      rw [if_neg hslot]
      exact hold n

theorem launchSlots_filled (hN : B.numCus ≤ 8) (hcu : cu < B.numCus) (old : ℕ → WarpSlot)
    (hcap : totalWarps.toNat ≤ B.capacity) :
    share B.numCus totalWarps.toNat cu ≤ B.maxWarpsPerCu ∧
      ∀ n < share B.numCus totalWarps.toNat cu,
        B.launchSlots old (BitVec.ofNat 3 cu) totalWarps warpIdOffset n =
          ⟨warpIdOffset + BitVec.ofNat 32 (cu + n * B.numCus), 0, 0, .ready, true⟩ := by
  have hle : share B.numCus totalWarps.toNat cu ≤ B.maxWarpsPerCu := by
    by_contra hlt
    have hin := (lt_share_iff hcu totalWarps.toNat B.maxWarpsPerCu).1 (Nat.lt_of_not_le hlt)
    rw [capacity, Nat.mul_comm] at hcap
    omega
  refine ⟨hle, fun n hn => ?_⟩
  have hin := (lt_share_iff hcu totalWarps.toNat n).1 hn
  have htotal := totalWarps.isLt
  rw [launchSlots_eq _ _ hN hcu old (by omega) (by omega), if_pos hin]

/-- The fresh warps that a CU of a small build dispatches, relative to the first id. -/
theorem freshWarps_launch (hN : B.numCus ≤ 8) (hcu : cu < B.numCus)
    (hcap : totalWarps.toNat ≤ B.capacity) {old : ℕ → WarpSlot}
    (hold : ∀ slot, (old slot).fresh = false) (results : List WarpStatus) :
    (B.freshWarps results (B.launchSlots old (BitVec.ofNat 3 cu) totalWarps warpIdOffset)).map
        (· - warpIdOffset) =
      ((List.range (min (share B.numCus totalWarps.toNat cu) 16)).take results.length).map
        fun n => BitVec.ofNat 32 (cu + n * B.numCus) := by
  obtain ⟨hheld, hfilled⟩ := launchSlots_filled totalWarps warpIdOffset hN hcu old hcap
  have hprogress := launchSlots_progress totalWarps warpIdOffset hN hcu hold
  rw [hprogress.freshWarps_eq (fun n hn => by rw [hfilled n hn]; exact ⟨rfl, rfl⟩) hheld
    (Nat.zero_le _), Nat.sub_zero, ← List.range_eq_range', List.map_map]
  refine List.map_congr_left fun n hn => ?_
  have hlt := List.mem_range.1 (List.mem_of_mem_take hn)
  rw [Function.comp_apply, hfilled n (by omega)]
  exact add_sub_cancel_left _ _

end Launch

/-! ## The two orders -/

/-- The golden scheduler beside a build. -/
def golden (B : BuildConfig) : Golden.WarpScheduler.Config where
  numComputeUnits := B.numCus
  maxWarpsPerCu := B.maxWarpsPerCu
  numComputeUnits_pos := B.numCus_pos
  maxWarpsPerCu_pos := B.maxWarpsPerCu_pos

open Golden (WarpScheduler)

/-- Each compute unit gets its warps in the same order on both sides, whatever the first id of the
launch, the calls for other units in between and the results. An idle CU holds no fresh warp. -/
def SameOrder (B : BuildConfig) (s : WarpScheduler) (gridX gridY : BitVec 32) : Prop :=
  ∀ cu < B.numCus, ∀ (warpIdOffset : WarpId) (old : ℕ → WarpSlot),
    (∀ slot, (old slot).fresh = false) → ∀ (calls : List ℕ) (results : List WarpStatus),
      results.length = calls.count cu →
        ((s.submitKernel B.golden gridX gridY).received B.golden cu calls).map
            (· - s.kernelWarpCounter) =
          (B.freshWarps results (B.launchSlots old (BitVec.ofNat 3 cu) (gridX * gridY)
            warpIdOffset)).map (· - warpIdOffset)

/-- A warp of a launch has a valid id. -/
def ValidId (s : WarpScheduler) (w : ℕ) : Prop :=
  s.kernelWarpCounter + BitVec.ofNat 32 w ≠ WarpScheduler.invalidWarpId

instance (s : WarpScheduler) (w : ℕ) : Decidable (ValidId s w) :=
  inferInstanceAs (Decidable (_ ≠ _))

variable {s : WarpScheduler} {gridX gridY : BitVec 32}

/-- The warps that a golden unit gets, relative to the first id. -/
theorem received_submit (hidle : s.isComplete B.golden = true) {cu : ℕ} (hcu : cu < B.numCus)
    (calls : List ℕ) :
    ((s.submitKernel B.golden gridX gridY).received B.golden cu calls).map
        (· - s.kernelWarpCounter) =
      (((List.range (share B.numCus (gridX * gridY).toNat cu)).take (calls.count cu)).filter
        fun n => ValidId s (cu + n * B.numCus)).map fun n =>
          BitVec.ofNat 32 (cu + n * B.numCus) := by
  rw [WarpScheduler.received_eq hcu, WarpScheduler.submitKernel_dealt hidle gridX gridY hcu,
    WarpScheduler.dealt, ← List.map_take, List.filter_map, List.map_map]
  refine List.map_congr_left fun n _ => ?_
  exact add_sub_cancel_left _ _

theorem range_filter_lt (a b : ℕ) : (List.range a).filter (· < b) = List.range (min a b) := by
  induction a with
  | zero => rw [Nat.zero_min]; rfl
  | succ a ih =>
    rw [List.range_succ, List.filter_append, ih]
    by_cases h : a < b
    · rw [min_eq_left h.le, min_eq_left (by omega), List.range_succ]
      simp [h]
    · rw [min_eq_right (by omega), min_eq_right (by omega)]
      simp [h]

theorem take_range_min (a b k : ℕ) :
    (List.range (min a b)).take k = ((List.range a).take k).filter (· < b) := by
  rw [List.take_range, List.take_range, range_filter_lt, min_assoc]

/-- Two conditions that keep equally many numbers of every initial range agree on the range. -/
theorem iff_of_filter_range {p q : ℕ → Prop} [DecidablePred p] [DecidablePred q] {m : ℕ}
    (h : ∀ k ≤ m, ((List.range k).filter p).length = ((List.range k).filter q).length) {n : ℕ}
    (hn : n < m) : p n ↔ q n := by
  have hnow := h n hn.le
  have hnext := h (n + 1) hn
  rw [List.range_succ, List.filter_append, List.filter_append, List.length_append,
    List.length_append, hnow, Nat.add_left_cancel_iff] at hnext
  by_cases hp : p n <;> by_cases hq : q n <;> simp [hp, hq] at hnext ⊢

/-- A small build: the orders agree while the valid ids are those of the slots that a slot number
can name. -/
theorem sameOrder_small (hN : B.numCus ≤ 8) (hidle : s.isComplete B.golden = true)
    (hcap : (gridX * gridY).toNat ≤ B.capacity) :
    SameOrder B s gridX gridY ↔
      ∀ w < (gridX * gridY).toNat, ValidId s w ↔ w / B.numCus < 16 := by
  have hdiv : ∀ cu < B.numCus, ∀ n, (cu + n * B.numCus) / B.numCus = n := by
    intro cu hcu n
    rw [Nat.add_mul_div_right _ _ B.numCus_pos, Nat.div_eq_of_lt hcu, Nat.zero_add]
  constructor
  · intro h w hw
    have hcu : w % B.numCus < B.numCus := Nat.mod_lt _ B.numCus_pos
    have hw' : w % B.numCus + w / B.numCus * B.numCus = w := by
      rw [Nat.mul_comm]
      exact Nat.mod_add_div _ _
    have hslot := (lt_share_iff hcu (gridX * gridY).toNat (w / B.numCus)).2 (by rwa [hw'])
    have heq := iff_of_filter_range (p := fun n => ValidId s (w % B.numCus + n * B.numCus))
      (q := (· < 16)) (fun k hk => ?_) hslot
    · rwa [hw'] at heq
    have horder := congrArg List.length (h _ hcu 0 (fun _ => {}) (fun _ => rfl)
      (List.replicate k (w % B.numCus)) (List.replicate k { code := .complete })
      (by rw [List.length_replicate, List.count_replicate_self]))
    rw [received_submit hidle hcu, freshWarps_launch _ _ hN hcu hcap (fun _ => rfl),
      List.length_map, List.length_map, List.count_replicate_self, List.length_replicate,
      take_range_min, List.take_range, min_eq_left hk] at horder
    exact horder
  · intro h cu hcu warpIdOffset old hold calls results hlen
    rw [received_submit hidle hcu, freshWarps_launch _ _ hN hcu hcap hold, hlen, take_range_min]
    congr 1
    refine List.filter_congr fun n hn => ?_
    have hlt := List.mem_range.1 (List.mem_of_mem_take hn)
    have hvalid := h _ ((lt_share_iff hcu (gridX * gridY).toNat n).1 hlt)
    rw [decide_eq_decide, hvalid, hdiv cu hcu]

/-- With nine CUs or more the ninth dispatches warp 0. -/
theorem not_sameOrder_large (hN : 9 ≤ B.numCus) (hidle : s.isComplete B.golden = true)
    (hpos : gridX * gridY ≠ 0) : ¬ SameOrder B s gridX gridY := by
  intro h
  have hcu : 8 < B.numCus := hN
  have horder := h 8 hcu 0 (fun _ => {}) (fun _ => rfl) [8] [{ code := .complete }] rfl
  have hready : B.launchSlots (fun _ => {}) (BitVec.ofNat 3 8) (gridX * gridY) 0 0 =
      ⟨0, 0, 0, .ready, true⟩ := by
    unfold launchSlots assignSlot
    rw [if_pos B.maxWarpsPerCu_pos]
    have hzero : (BitVec.ofNat 3 8).setWidth 32 + BitVec.ofNat 32 0 * BitVec.ofNat 32 B.numCus =
        (0 : WarpId) := by
      rw [BitVec.zero_mul]
      rfl
    have hlt : (0 : WarpId) < gridX * gridY := (BitVec.pos_iff_ne_zero _).2 hpos
    rw [hzero]
    exact if_pos hlt
  have hslot : B.nextReadySlot (B.launchSlots (fun _ => {}) (BitVec.ofNat 3 8) (gridX * gridY) 0) =
      0 := by
    have hfind : (List.range B.maxWarpsPerCu).find? (fun slot => (B.launchSlots (fun _ => {})
        (BitVec.ofNat 3 8) (gridX * gridY) 0 slot).state = .ready) = some 0 := by
      rw [List.find?_range_eq_some]
      refine ⟨?_, List.mem_range.2 B.maxWarpsPerCu_pos, fun n hn => absurd hn (Nat.not_lt_zero n)⟩
      rw [hready]
      rfl
    unfold nextReadySlot
    rw [hfind]
    rfl
  have hfirst : B.freshWarps [{ code := .complete }]
      (B.launchSlots (fun _ => {}) (BitVec.ofNat 3 8) (gridX * gridY) 0) = [0] := by
    have hne : (0 : SlotId).toNat ≠ B.maxWarpsPerCu := B.maxWarpsPerCu_pos.ne
    have hnat : (0 : SlotId).toNat = 0 := rfl
    rw [freshWarps_cons, hslot, if_pos hne, hnat, hready]
    rfl
  rw [received_submit hidle hcu, hfirst] at horder
  -- the golden scheduler deals warp 8 to the unit, or none
  have hmem : (0 : WarpId) ∈ [(0 : WarpId)].map (· - 0) := by simp
  rw [← horder] at hmem
  obtain ⟨n, hn, hzero⟩ := List.mem_map.1 hmem
  have hone : n ∈ (List.range (share B.numCus (gridX * gridY).toNat 8)).take 1 :=
    List.mem_of_mem_filter hn
  have hn0 : n = 0 := by
    rw [List.take_range, List.mem_range] at hone
    omega
  rw [hn0, Nat.zero_mul] at hzero
  exact absurd hzero (by decide)

/-- An empty launch fills no slot. -/
theorem freshWarps_empty (cuId : CuId) (warpIdOffset : WarpId) {old : ℕ → WarpSlot}
    (hold : ∀ slot, (old slot).fresh = false) (results : List WarpStatus) :
    B.freshWarps results (B.launchSlots old cuId 0 warpIdOffset) = [] := by
  have hstale : ∀ slot, (B.launchSlots old cuId 0 warpIdOffset slot).fresh = false := by
    intro slot
    unfold launchSlots assignSlot
    split_ifs <;> exact hold slot
  have hprogress : Progress (fun _ => {}) 0 0 (B.launchSlots old cuId 0 warpIdOffset) :=
    ⟨fun _ _ h => absurd h (Nat.not_lt_zero _), fun _ h => absurd h (Nat.not_lt_zero _),
      fun n _ _ => hstale n⟩
  rw [hprogress.freshWarps_eq (fun _ h => absurd h (Nat.not_lt_zero _)) (Nat.zero_le _)
    (Nat.zero_le _), Nat.zero_min, Nat.sub_zero, List.range'_zero, List.take_nil, List.map_nil]

/-- **Dispatch order.** An idle golden scheduler and the schedulers of a build give every compute
unit the warps of a launch in the same order exactly when the launch is empty, or the build has at
most eight CUs and the ids that are valid are those of the slots that a slot number can name. -/
theorem sameOrder_iff (hidle : s.isComplete B.golden = true)
    (hcap : (gridX * gridY).toNat ≤ B.capacity) :
    SameOrder B s gridX gridY ↔ gridX * gridY = 0 ∨
      B.numCus ≤ 8 ∧ ∀ w < (gridX * gridY).toNat, ValidId s w ↔ w / B.numCus < 16 := by
  by_cases hN : B.numCus ≤ 8
  · rw [sameOrder_small hN hidle hcap, and_iff_right hN]
    refine ⟨.inr, fun h => ?_⟩
    rcases h with hzero | hids
    · intro w hw
      rw [hzero] at hw
      exact absurd hw (Nat.not_lt_zero w)
    · exact hids
  · constructor
    · intro h
      by_contra hnot
      rw [not_or] at hnot
      exact not_sameOrder_large (Nat.lt_of_not_le hN) hidle hnot.1 h
    · rintro (hzero | ⟨hle, -⟩)
      · intro cu hcu warpIdOffset old hold calls results _
        have hshare : share B.numCus (gridX * gridY).toNat cu = 0 := by
          have hnot := (lt_share_iff hcu (gridX * gridY).toNat 0).not.2 (by
            rw [hzero]
            exact Nat.not_lt_zero _)
          omega
        rw [received_submit hidle hcu, hshare, hzero, freshWarps_empty _ _ hold]
        simp
      · exact absurd hle hN

theorem sameOrder_iff_reset : SameOrder ⟨2, 4, by decide, by decide⟩ .reset 3 2 :=
  (sameOrder_iff (by decide) (by decide)).2 (.inr ⟨by decide, by decide⟩)

/-- Nine CUs and one warp: the ninth CU dispatches it, too. -/
theorem not_sameOrder_nine : ¬ ∀ (B : BuildConfig) (s : WarpScheduler) (gridX gridY : BitVec 32),
    s.isComplete B.golden = true → (gridX * gridY).toNat ≤ B.capacity →
      SameOrder B s gridX gridY := by
  intro hall
  exact not_sameOrder_large (B := ⟨9, 8, by decide, by decide⟩) (by decide) (by decide) (by decide)
    (hall _ .reset 1 1 (by decide) (by decide))

end Hls.BuildConfig

end RiscvGpgpu
