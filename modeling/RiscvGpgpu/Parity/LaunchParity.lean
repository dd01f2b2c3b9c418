import RiscvGpgpu.Golden.SerialLaunch
import RiscvGpgpu.Hls.LaunchResult
import RiscvGpgpu.Parity.DispatchParity

/-!
# One launch on the two tops

A launch on the golden top and on the flat HLS top leaves the same memory, in every run of the
latter (`launch_parity`), if no CU stores to a word that another one accesses, the accesses stay
outside the two windows, and the dispatches are regular. The golden top runs the warps of all CUs
in one order, and what a CU adds to the memory is what it does alone (`Follows`).
-/

namespace RiscvGpgpu.Parity

open Golden Hls Hls.Launch

/-! ## What is stored last -/

/-- With all stores to a word by one CU, its flat memory holds the word stored last. -/
theorem flatAfter_own (mem : GlobalMem) {reqs : List MemReq} {req : MemReq} {id : CuId}
    (hg : isGlobal req = true)
    (hown : ∀ r ∈ reqs, writesWord r (reqWord req) → r.cuId = id) :
    flatAfter (flatInit mem) (requestsOf id reqs) (reqWord req) =
      lastStored mem reqs (reqWord req) := by
  induction reqs using List.reverseRecOn with
  | nil =>
    rw [requestsOf_nil, flatAfter_nil, flatInit_reqWord, if_pos hg]
    rfl
  | append_singleton reqs last ih =>
    have ih := ih fun r hr => hown r (List.mem_append_left _ hr)
    have hlast := hown last (by simp)
    have hsplit : requestsOf id (reqs ++ [last]) =
        requestsOf id reqs ++ requestsOf id [last] := List.filter_append ..
    rw [hsplit, requestsOf_cons, requestsOf_nil, lastStored_concat]
    by_cases hid : last.cuId = id
    · rw [if_pos hid, flatAfter_concat, flatRequest]
      cases hw : last.isWrite with
      | false => simpa using ih
      | true =>
        by_cases heq : reqWord last = reqWord req
        · simp [heq]
        · simpa [heq, Function.update_of_ne (Ne.symm heq)] using ih
    · rw [if_neg hid, List.append_nil, ih, if_neg]
      intro hstore
      rw [Bool.and_eq_true, beq_iff_eq] at hstore
      exact hid (hlast hstore)

theorem lastStored_frame {mem : GlobalMem} {reqs : List MemReq} {word : BitVec 32}
    (h : ∀ req ∈ reqs, ¬ writesWord req word) : lastStored mem reqs word = mem word := by
  induction reqs using List.reverseRecOn with
  | nil => rfl
  | append_singleton reqs last ih =>
    rw [lastStored_concat, if_neg, ih fun r hr => h r (List.mem_append_left _ hr)]
    intro hstore
    rw [Bool.and_eq_true, beq_iff_eq] at hstore
    exact h last (by simp) hstore

/-- The golden hierarchy keeps up with the requests. -/
theorem Mirrors.concat {h : MemoryHierarchy} {mem : GlobalMem} {reqs : List MemReq}
    (hm : Mirrors h (lastStored mem reqs)) (req : MemReq) :
    Mirrors (hierarchyRequest h req).2 (lastStored mem (reqs ++ [req])) := by
  have hlast : lastStored mem (reqs ++ [req]) = if req.isWrite then
      Function.update (lastStored mem reqs) (reqWord req) req.writeData
      else lastStored mem reqs := by
    funext word
    rw [lastStored_concat]
    cases req.isWrite with
    | false => rfl
    | true =>
      by_cases heq : reqWord req = word
      · simp [heq]
      · simp [heq, Function.update_of_ne (Ne.symm heq)]
  rw [hlast]
  exact (hm.step req).1

/-! ## Waves -/

section Waves

variable {L : Launch} {c : L.Cus}

/-- A dispatch passes the next barrier, if there is one. -/
theorem scanStatus_barriersLeft {program : List Instruction}
    (hlen : program.length ≤ maxProgramLen) {i : ℕ} {rest : List Instruction}
    (hrest : rest = program.drop i) (count : Word) :
    if barriersLeft rest = 0 then (scanStatus i rest count).code = .complete
    else (scanStatus i rest count).code = .stalledAtBarrier ∧
      barriersLeft (program.drop (scanStatus i rest count).resumePc.toNat) + 1 =
        barriersLeft rest := by
  induction rest generalizing i count with
  | nil => exact rfl
  | cons instr rest ih =>
    have htail : rest = program.drop (i + 1) := by rw [← List.tail_drop, ← hrest, List.tail_cons]
    rw [scanStatus, barriersLeft]
    by_cases hh : instr.opcode = .halt
    · rw [if_pos hh, if_pos hh]
      exact rfl
    rw [if_neg hh, if_neg hh]
    by_cases hb : instr.opcode = .barrier
    · rw [if_pos hb, if_pos hb, if_neg (Nat.succ_ne_zero _)]
      have hi : i < program.length := by
        by_contra hge
        rw [List.drop_eq_nil_of_le (by omega)] at hrest
        exact List.cons_ne_nil _ _ hrest
      have hpc : (BitVec.ofNat 16 (i + 1)).toNat = i + 1 := by
        rw [BitVec.toNat_ofNat]
        unfold maxProgramLen at hlen
        omega
      dsimp only
      rw [hpc, ← htail]
      exact ⟨rfl, rfl⟩
    · rw [if_neg hb, if_neg hb]
      exact ih htail _

/-- The barriers of a launch. -/
def barriersOf (L : Launch) : ℕ := barriersLeft (decodeProgram L.program L.programLen)

theorem waveStatus_cases (L : Launch) (g : ℕ)
    (hg : barriersLeft ((decodeProgram L.program L.programLen).drop (L.wavePc g).toNat) + g =
      barriersOf L) :
    if g = barriersOf L then (L.waveStatus g).code = .complete
    else (L.waveStatus g).code = .stalledAtBarrier ∧
      barriersLeft ((decodeProgram L.program L.programLen).drop (L.wavePc (g + 1)).toNat) +
        (g + 1) = barriersOf L := by
  have hlen := length_decodeProgram L.program L.programLen
  have hscan := scanStatus_barriersLeft hlen (i := (L.wavePc g).toNat) rfl 0
  unfold waveStatus
  rw [show L.wavePc (g + 1) = (L.dispatchStatus (L.wavePc g)).resumePc from rfl]
  unfold dispatchStatus
  rw [List.take_of_length_le hlen]
  by_cases hlast : g = barriersOf L
  · rw [if_pos (by omega)] at hscan
    rwa [if_pos hlast]
  · rw [if_neg (by omega)] at hscan
    rw [if_neg hlast]
    exact ⟨hscan.1, by omega⟩

theorem wavePc_barriersLeft (L : Launch) {g : ℕ} (hg : g ≤ barriersOf L) :
    barriersLeft ((decodeProgram L.program L.programLen).drop (L.wavePc g).toNat) + g =
      barriersOf L := by
  induction g with
  | zero => exact Nat.add_zero _
  | succ g ih =>
    have hcases := waveStatus_cases L g (ih (by omega))
    rw [if_neg (by omega)] at hcases
    exact hcases.2

theorem waveStatus_stalled {g : ℕ} (hg : g < barriersOf L) :
    (L.waveStatus g).code = .stalledAtBarrier := by
  have hcases := waveStatus_cases L g (wavePc_barriersLeft L hg.le)
  rw [if_neg (by omega)] at hcases
  exact hcases.1

/-- The warps complete in the wave behind the last barrier. -/
theorem lastWave_eq (L : Launch) : L.lastWave = barriersOf L := by
  have hcases := waveStatus_cases L (barriersOf L) (wavePc_barriersLeft L le_rfl)
  rw [if_pos rfl] at hcases
  exact (eq_lastWave (fun g hg => waveStatus_stalled hg) hcases).symm

/-! ## Slots -/

/-- The slots that hold a warp are the first ones. -/
theorem residentSlots_eq (hcap : L.totalWarps.toNat ≤ L.capacity) (c : L.Cus) :
    L.residentSlots c =
      (List.range (share L.numCus L.totalWarps.toNat c)).map (BitVec.ofNat 4) := by
  have hM := L.maxWarpsPerCu_lt
  have hle : share L.numCus L.totalWarps.toNat c ≤ L.maxWarpsPerCu := by
    by_contra hlt
    have hin := (lt_share_iff c.isLt L.totalWarps.toNat L.maxWarpsPerCu).1 (Nat.lt_of_not_le hlt)
    have hcap' : L.totalWarps.toNat ≤ L.numCus * L.maxWarpsPerCu := hcap
    rw [Nat.mul_comm] at hcap'
    omega
  unfold residentSlots GpuSize.slotIds
  rw [List.filter_map]
  congr 1
  have hfilter : (List.range L.maxWarpsPerCu).filter
      ((fun slot => decide (L.Resident c slot)) ∘ BitVec.ofNat 4) =
      (List.range L.maxWarpsPerCu).filter fun i =>
        decide (i < share L.numCus L.totalWarps.toNat c) := by
    refine List.filter_congr fun i hi => ?_
    rw [List.mem_range] at hi
    have hslot : (BitVec.ofNat 4 i).toNat = i := by
      rw [BitVec.toNat_ofNat]
      omega
    rw [Function.comp_apply, decide_eq_decide, lt_share_iff c.isLt, Resident, localWarp, hslot]
    exact and_iff_right hi
  rw [hfilter, BuildConfig.range_filter_lt, min_eq_right hle]

theorem share_localWarp (c : L.Cus) (slot : SlotId) :
    share L.numCus (L.localWarp c slot) c = slot.toNat := by
  have hplace := add_share_mul c.isLt (localWarp_mod c slot)
  have hpos : 0 < L.numCus := lt_of_le_of_lt (Nat.zero_le _) c.isLt
  unfold localWarp at hplace ⊢
  exact Nat.eq_of_mul_eq_mul_right hpos (Nat.add_left_cancel hplace)

/-- After a warp its CU is one dispatch further, and the others are where they were. -/
theorem share_localWarp_succ (c c' : L.Cus) (slot : SlotId) :
    share L.numCus (L.localWarp c slot + 1) c' =
      if c' = c then slot.toNat + 1 else share L.numCus (L.localWarp c slot) c' := by
  rw [share_succ c'.isLt, localWarp_mod]
  by_cases hc : c' = c
  · subst hc
    rw [if_pos rfl, if_pos rfl, share_localWarp]
  · rw [if_neg fun heq => hc (Fin.ext heq.symm), if_neg hc, Nat.add_zero]

/-- The next dispatch of a CU. -/
theorem scheduleTo_slot (hcap : L.totalWarps.toNat ≤ L.capacity) {slot : SlotId}
    (hres : L.Resident c slot) (v : ℕ) :
    L.scheduleTo c v (slot.toNat + 1) =
      L.scheduleTo c v slot.toNat ++ [L.waveDispatch c v slot] := by
  have hslots := residentSlots_eq hcap c
  have hlt : slot.toNat < (L.residentSlots c).length := by
    rw [hslots, List.length_map, List.length_range, lt_share_iff c.isLt]
    exact hres.2
  have hget : (L.residentSlots c).get ⟨slot.toNat, hlt⟩ = slot := by
    simp [hslots]
  rw [scheduleTo_succ hlt, hget]

theorem scheduleTo_share (hcap : L.totalWarps.toNat ≤ L.capacity) (c : L.Cus) (v : ℕ) :
    L.scheduleTo c v (share L.numCus L.totalWarps.toNat c) = L.scheduleTo c (v + 1) 0 := by
  have hlen : (L.residentSlots c).length = share L.numCus L.totalWarps.toNat c := by
    rw [residentSlots_eq hcap, List.length_map, List.length_range]
  rw [← hlen, scheduleTo_full]

end Waves

/-! ## The same launch -/

/-- The launch that the golden top begins in `start` is the launch of the HLS top. -/
structure SameLaunch (K : GpgpuTop.Config) (start : GpgpuTop) (L : Launch) (mem : GlobalMem)
    (regs : L.Cus → SlotId → RegFile) : Prop where
  units : SameUnits L K.cu
  program : start.kernelProgram = decodeProgram L.program L.programLen
  warps : start.totalWarps = L.totalWarps
  fits : L.totalWarps.toNat ≤ L.capacity
  memory : Mirrors start.memory mem
  regs : ∀ c slot, L.Resident c slot →
    (start.launchedContexts K (L.localWarp c slot)).regs = regs c slot

instance (h : MemoryHierarchy) (word : BitVec 32) : Decidable (outsideWindow h word) :=
  inferInstanceAs (Decidable (_ = _))

/-- What a CU does alone can be compared: nothing is shared, no access is in one of the windows, and
every dispatch is regular. -/
structure Comparable (h : MemoryHierarchy) (L : Launch) (mem : GlobalMem)
    (regs : L.Cus → SlotId → RegFile) : Prop where
  noSharing : L.NoSharing mem regs
  reach : ∀ req ∈ L.soloRequests mem regs, isGlobal req = true ∧ outsideWindow h (reqWord req)
  regular : ∀ c, ∀ k (hk : k < (L.schedule c).length), RegularDispatch c (flatInit mem)
    (L.soloRun c (flatInit mem) (regs c) ((L.schedule c).take k)) ((L.schedule c).get ⟨k, hk⟩)

/-- `k` warps of wave `v` have run, and the requests so far are those of each CU alone. -/
structure Follows (h₀ : MemoryHierarchy) (L : Launch) (mem : GlobalMem)
    (regs : L.Cus → SlotId → RegFile) (v k : ℕ) (reqs : List MemReq) (s : Serial) : Prop where
  own : ∀ c : L.Cus, requestsOf (cuId c) reqs = (L.soloRun c (flatInit mem) (regs c)
    (L.scheduleTo c v (share L.numCus k c))).log
  stamped : ∀ req ∈ reqs, ∃ c : L.Cus, req.cuId = cuId c
  mirrors : Mirrors s.memory (lastStored mem reqs)
  size : s.memory.sharedMemSize = h₀.sharedMemSize
  sameRegs : ∀ c slot, L.Resident c slot → (s.contexts (L.localWarp c slot)).regs =
    (L.soloRun c (flatInit mem) (regs c) (L.scheduleTo c v (share L.numCus k c))).regs slot
  waiting : ∀ c slot, L.Resident c slot → k ≤ L.localWarp c slot →
    (s.contexts (L.localWarp c slot)).pc = (L.wavePc v).toNat
  stopped : ∀ c slot, L.Resident c slot → L.localWarp c slot < k →
    (L.waveStatus v).code = .stalledAtBarrier →
      (s.contexts (L.localWarp c slot)).pc = (L.wavePc (v + 1)).toNat

section Follows

variable {K : GpgpuTop.Config} {start : GpgpuTop} {h₀ : MemoryHierarchy} {L : Launch}
  {mem : GlobalMem} {regs : L.Cus → SlotId → RegFile} {c : L.Cus} {v k : ℕ} {reqs : List MemReq}
  {s s' : Serial}

theorem Comparable.regular_initial (hcomp : Comparable h₀ L mem regs) {ds : List WarpDispatch}
    {d : WarpDispatch} (hds : ds ++ [d] <+: L.schedule c) :
    RegularDispatch c (flatInit mem) (L.soloRun c (flatInit mem) (regs c) ds) d := by
  obtain ⟨rest, hrest⟩ := hds
  have hk : ds.length < (L.schedule c).length := by
    rw [← hrest]
    simp
  have hregular := hcomp.regular c ds.length hk
  have htake : (L.schedule c).take ds.length = ds := by
    rw [← hrest, List.append_assoc, List.take_left']
    rfl
  have hget : (L.schedule c).get ⟨ds.length, hk⟩ = d := by
    simp [← hrest]
  rwa [htake, hget] at hregular

/-- All that a CU has asked, it asks alone. -/
theorem Follows.mem_solo (h : Follows h₀ L mem regs v k reqs s)
    (hv : ∀ g < v, (L.waveStatus g).code = .stalledAtBarrier) {req : MemReq} (hreq : req ∈ reqs) :
    req ∈ L.soloRequests mem regs := by
  obtain ⟨c, hid⟩ := h.stamped req hreq
  have hown : req ∈ requestsOf (cuId c) reqs := List.mem_filter.2 ⟨hreq, decide_eq_true hid⟩
  rw [h.own c] at hown
  have hinitial : L.scheduleTo c v (share L.numCus k c) <+: L.schedule c := scheduleTo_prefix hv
  have hlog : (L.soloRun c (flatInit mem) (regs c) (L.scheduleTo c v (share L.numCus k c))).log <+:
      (L.solo c mem (regs c)).log := soloRun_log_prefix hinitial
  exact mem_soloRequests.2 ⟨c, hlog.subset hown⟩

/-- The golden memory while a CU runs a dispatch: `new` are the requests of the dispatch so far. -/
def Tracks (h₀ : MemoryHierarchy) (mem : GlobalMem) (allowed : MemReq → Prop)
    (reqs : List MemReq) (id : CuId) (log : List MemReq) (h : MemoryHierarchy) : Prop :=
  ∃ new, log = requestsOf id reqs ++ new ∧ (∀ req ∈ new, allowed req) ∧
    Mirrors h (lastStored mem (reqs ++ new)) ∧ h.sharedMemSize = h₀.sharedMemSize

/-- The memory that all CUs share answers a CU as its own flat memory does. -/
theorem Comparable.serveAlike (hcomp : Comparable h₀ L mem regs) (c : L.Cus)
    (hreqs : ∀ req ∈ reqs, req ∈ L.soloRequests mem regs) :
    ServeAlike (flatInit mem) (· ∈ (L.solo c mem (regs c)).log)
      (Tracks h₀ mem (· ∈ (L.solo c mem (regs c)).log) reqs (cuId c)) := by
  rintro log h req ⟨new, rfl, hnew, hmirrors, hsize⟩ hreq
  have hstamp : ∀ q ∈ (L.solo c mem (regs c)).log, q.cuId = cuId c := soloRun_stamped
  have hsolo := mem_soloRequests.2 ⟨c, hreq⟩
  obtain ⟨hg, hout⟩ := hcomp.reach req hsolo
  have hnone : requestsOf (cuId c) new = new :=
    List.filter_eq_self.2 fun q hq => decide_eq_true (hstamp q (hnew q hq))
  have hall : requestsOf (cuId c) (reqs ++ new) = requestsOf (cuId c) reqs ++ new := by
    rw [requestsOf, List.filter_append]
    exact congrArg _ hnone
  have hout' : outsideWindow h (reqWord req) := by
    unfold outsideWindow MemoryHierarchy.isSharedMemoryAddress at hout ⊢
    rwa [hsize]
  refine ⟨?_, new ++ [req], by rw [List.append_assoc], ?_, ?_, ?_⟩
  · cases hw : req.isWrite with
    | true => exact .inl hw
    | false =>
      right
      -- a store of another CU would break the isolation
      have hown : ∀ r ∈ reqs ++ new, writesWord r (reqWord req) → r.cuId = cuId c := by
        intro r hr hstore
        have hrsolo : r ∈ L.soloRequests mem regs := by
          obtain hr | hr := List.mem_append.1 hr
          · exact hreqs r hr
          · exact mem_soloRequests.2 ⟨c, hnew r hr⟩
        rw [← hstamp req hreq]
        exact hcomp.noSharing r hrsolo req hsolo hstore.1 (hcomp.reach r hrsolo).1 hstore.2
      have hflat := flatAfter_own mem hg hown
      rw [hall] at hflat
      rw [flatServer, flatRequest, hw, if_neg Bool.false_ne_true, hierarchyRequest, hw,
        if_neg Bool.false_ne_true, MemoryHierarchy.loadWord_global _ hmirrors.coherent,
        alignAddress_setWidth, hmirrors.words _ hout', ← hflat]
      · rfl
      · rw [alignAddress_setWidth]
        exact hout'
  · intro q hq
    obtain hq | hq := List.mem_append.1 hq
    · exact hnew q hq
    · rwa [List.mem_singleton.1 hq]
  · rw [← List.append_assoc]
    exact hmirrors.concat req
  · exact (hmirrors.step req).2.trans hsize

/-- One more warp. -/
theorem Follows.step (hlaunch : SameLaunch K start L mem regs)
    (hcomp : Comparable h₀ L mem regs) (hv : ∀ g < v, (L.waveStatus g).code = .stalledAtBarrier)
    (h : Follows h₀ L mem regs v k reqs s) (hk : k < L.totalWarps.toNat)
    (hran : Serial.Ran K.cu start.kernelProgram k s s') :
    ∃ reqs', Follows h₀ L mem regs v (k + 1) reqs' s' := by
  obtain ⟨c, slot, hres, rfl⟩ := exists_resident hlaunch.fits hk
  obtain ⟨cu, rfl⟩ := hran
  rw [hlaunch.program]
  set w := L.localWarp c slot with hw
  set solo := L.soloRun c (flatInit mem) (regs c) (L.scheduleTo c v slot.toNat) with hsolo
  set d := L.waveDispatch c v slot with hd
  have hshare : share L.numCus w c = slot.toNat := share_localWarp c slot
  have hnext : L.scheduleTo c v (slot.toNat + 1) = L.scheduleTo c v slot.toNat ++ [d] :=
    scheduleTo_slot hlaunch.fits hres v
  have hprefix : L.scheduleTo c v slot.toNat ++ [d] <+: L.schedule c := by
    rw [← hnext]
    exact scheduleTo_prefix hv
  have hlog : requestsOf (cuId c) reqs = solo.log := by rw [h.own c, hshare]
  have hpc : (s.contexts w).pc = d.resumePc.toNat := h.waiting c slot hres le_rfl
  have hregs : (s.contexts w).regs = solo.regs d.slotId := by
    rw [h.sameRegs c slot hres, hshare]
    rfl
  have hallowed : ∀ req ∈ (L.soloDispatch c (flatInit mem) solo d).log,
      req ∈ (L.solo c mem (regs c)).log := by
    have hinitial : (L.soloRun c (flatInit mem) (regs c)
        (L.scheduleTo c v slot.toNat ++ [d])).log <+: (L.solo c mem (regs c)).log :=
      soloRun_log_prefix hprefix
    rw [← soloRun_concat]
    exact fun req hreq => hinitial.subset hreq
  have hstart : Tracks h₀ mem (· ∈ (L.solo c mem (regs c)).log) reqs (cuId c) solo.log s.memory :=
    ⟨[], by rw [hlog, List.append_nil], fun _ hq => absurd hq List.not_mem_nil,
      by rw [List.append_nil]; exact h.mirrors, h.size⟩
  obtain ⟨⟨new, hnew, hfrom, hmirrors, hsize⟩, hout⟩ :=
    execute_serve (hcomp.serveAlike c fun req hreq => h.mem_solo hv hreq) hlaunch.units rfl hpc
      hregs cu (hcomp.regular_initial hprefix) hstart hallowed
  have hstatus : ((L.execute c d (solo.regs d.slotId)).serve (flatServer (flatInit mem))
      solo.log).2.status = L.waveStatus v := (execute_status L c d _).serve _ _
  set r := (L.execute c d (solo.regs d.slotId)).serve (flatServer (flatInit mem)) solo.log with hr
  set o := (executeWarp K.cu (decodeProgram L.program L.programLen) cu (s.contexts w)).serve
    GpgpuTop.serveAccess s.memory with ho
  have hrun : L.soloRun c (flatInit mem) (regs c) (L.scheduleTo c v (slot.toNat + 1)) =
      ⟨Function.update solo.regs slot r.2.regs, r.1⟩ := by
    rw [hnext, soloRun_concat]
    rfl
  have hstamped : ∀ req ∈ new, req.cuId = cuId c := fun req hreq =>
    soloRun_stamped req (hfrom req hreq)
  have hother {c' : L.Cus} {slot' : SlotId} (hne : ¬ (c' = c ∧ slot' = slot)) :
      Function.update s.contexts w o.2.ctx (L.localWarp c' slot') =
        s.contexts (L.localWarp c' slot') :=
    Function.update_of_ne (fun heq => hne (localWarp_inj heq)) _ _
  refine ⟨reqs ++ new, fun c' => ?_, fun req hreq => ?_, hmirrors, hsize, fun c' slot' hres' => ?_,
    fun c' slot' hres' hle => ?_, fun c' slot' hres' hlt hstall => ?_⟩
  · rw [requestsOf, List.filter_append, share_localWarp_succ]
    by_cases hc : c' = c
    · subst hc
      rw [if_pos rfl, hrun, List.filter_eq_self.2 fun q hq => decide_eq_true (hstamped q hq)]
      exact hnew.symm
    · have hnone : new.filter (fun q => q.cuId = cuId c') = [] :=
        List.filter_eq_nil_iff.2 fun q hq heq =>
          hc (cuId_inj ((of_decide_eq_true heq).symm.trans (hstamped q hq)))
      rw [if_neg hc, hnone, List.append_nil]
      exact h.own c'
  · obtain hreq | hreq := List.mem_append.1 hreq
    · exact h.stamped req hreq
    · exact ⟨c, hstamped req hreq⟩
  · dsimp only
    rw [share_localWarp_succ]
    by_cases hc : c' = c
    · subst hc
      rw [if_pos rfl, hrun]
      dsimp only
      by_cases hslot : slot' = slot
      · subst hslot
        rw [Function.update_self, Function.update_self]
        exact hout.regs.symm
      · rw [hother fun heq => hslot heq.2, Function.update_of_ne hslot, h.sameRegs c' slot' hres',
          hshare]
    · rw [if_neg hc, hother fun heq => hc heq.1]
      exact h.sameRegs c' slot' hres'
  · dsimp only
    rw [hother]
    · exact h.waiting c' slot' hres' (by omega)
    · rintro ⟨rfl, rfl⟩
      omega
  · dsimp only
    by_cases heq : c' = c ∧ slot' = slot
    · obtain ⟨rfl, rfl⟩ := heq
      rw [Function.update_self]
      have hresume := hout.resumePc (by rw [hstatus]; exact hstall)
      rw [← hresume, hstatus]
      rfl
    · rw [hother heq]
      refine h.stopped c' slot' hres' (lt_of_le_of_ne (Nat.lt_succ_iff.1 hlt) ?_) hstall
      exact fun hw' => heq (localWarp_inj hw')

/-- A wave that has stopped at a barrier is the beginning of the next one. -/
theorem Follows.next (hcap : L.totalWarps.toNat ≤ L.capacity)
    (hv : (L.waveStatus v).code = .stalledAtBarrier)
    (h : Follows h₀ L mem regs v L.totalWarps.toNat reqs s) :
    Follows h₀ L mem regs (v + 1) 0 reqs s := by
  have hzero (c : L.Cus) : L.scheduleTo c v (share L.numCus L.totalWarps.toNat c) =
      L.scheduleTo c (v + 1) (share L.numCus 0 c) := by
    have hnone : share L.numCus 0 c = 0 := by
      have hnot := (lt_share_iff c.isLt 0 0).not.2 (by omega)
      omega
    rw [scheduleTo_share hcap, hnone]
  refine ⟨fun c => ?_, h.stamped, h.mirrors, h.size, fun c slot hres => ?_,
    fun c slot hres _ => h.stopped c slot hres hres.2 hv,
    fun _ _ _ hlt => absurd hlt (Nat.not_lt_zero _)⟩
  · rw [← hzero]
    exact h.own c
  · rw [← hzero]
    exact h.sameRegs c slot hres

/-- The serial run of the golden top, up to the wave behind the last barrier. -/
theorem follows_runs (hlaunch : SameLaunch K start L mem regs)
    (hcomp : Comparable start.memory L mem regs) (hv : v ≤ barriersOf L)
    (hk : k ≤ L.totalWarps.toNat)
    (hruns : Serial.Runs K.cu start.kernelProgram ⟨start.memory, start.launchedContexts K⟩
      (Serial.waves L.totalWarps.toNat v ++ List.range k) s) :
    ∃ reqs, Follows start.memory L mem regs v k reqs s := by
  induction v generalizing k s with
  | zero =>
    induction k generalizing s with
    | zero =>
      obtain rfl := hruns.nil_inv
      have hzero (c : L.Cus) : L.scheduleTo c 0 (share L.numCus 0 c) = [] := by
        have hnot := (lt_share_iff c.isLt 0 0).not.2 (by omega)
        rw [show share L.numCus 0 c = 0 by omega]
        rfl
      refine ⟨[], fun c => ?_, fun _ hreq => absurd hreq List.not_mem_nil, hlaunch.memory, rfl,
        fun c slot hres => ?_, fun _ _ _ _ => rfl, fun _ _ _ hlt => absurd hlt (Nat.not_lt_zero _)⟩
      · rw [hzero]
        rfl
      · rw [hzero]
        exact hlaunch.regs c slot hres
    | succ k ih =>
      rw [List.range_succ, ← List.append_assoc] at hruns
      obtain ⟨s₁, hruns, hran⟩ := hruns.snoc_inv
      obtain ⟨reqs, hfollows⟩ := ih (by omega) hruns
      exact hfollows.step hlaunch hcomp (fun g hg => absurd hg (Nat.not_lt_zero g)) hk hran
  | succ v ihv =>
    have hstalled : ∀ g < v + 1, (L.waveStatus g).code = .stalledAtBarrier := fun g hg =>
      waveStatus_stalled (by omega)
    induction k generalizing s with
    | zero =>
      rw [List.range_zero, List.append_nil, Serial.waves_succ] at hruns
      obtain ⟨reqs, hfollows⟩ := ihv (by omega) le_rfl hruns
      exact ⟨reqs, hfollows.next hlaunch.fits (hstalled v (Nat.lt_succ_self v))⟩
    | succ k ih =>
      rw [List.range_succ, ← List.append_assoc] at hruns
      obtain ⟨s₁, hruns, hran⟩ := hruns.snoc_inv
      obtain ⟨reqs, hfollows⟩ := ih (by omega) hruns
      exact hfollows.step hlaunch hcomp hstalled hk hran

/-- What the golden run of a launch leaves, in terms of the CUs alone. -/
theorem follows_launch (hlaunch : SameLaunch K start L mem regs)
    (hcomp : Comparable start.memory L mem regs) {final : List WarpContext} {g' : GpgpuTop}
    (hserial : GpgpuTop.SerialEnd K start final g' s) :
    ∃ reqs, Follows start.memory L mem regs (barriersOf L) L.totalWarps.toNat reqs s := by
  have hbarriers : start.barriers = barriersOf L := by
    unfold GpgpuTop.barriers barriersOf
    rw [hlaunch.program]
  have hruns := hserial.runs
  rw [hbarriers, hlaunch.warps, Serial.waves_succ] at hruns
  exact follows_runs hlaunch hcomp le_rfl le_rfl hruns

/-- In the end every warp has the registers that its CU computes alone. -/
theorem Follows.soloRegs (hcap : L.totalWarps.toNat ≤ L.capacity)
    (h : Follows h₀ L mem regs (barriersOf L) L.totalWarps.toNat reqs s) {slot : SlotId}
    (hres : L.Resident c slot) :
    (s.contexts (L.localWarp c slot)).regs = (L.solo c mem (regs c)).regs slot := by
  rw [h.sameRegs c slot hres, scheduleTo_share hcap, solo, schedule, lastWave_eq, scheduleTo,
    List.take_zero, List.append_nil]

/-- In the end the golden memory holds what the CUs store alone. -/
theorem Follows.soloMemory (hcap : L.totalWarps.toNat ≤ L.capacity)
    (hcomp : Comparable h₀ L mem regs)
    (h : Follows h₀ L mem regs (barriersOf L) L.totalWarps.toNat reqs s) :
    Mirrors s.memory (L.soloMemory mem regs) := by
  have hv : ∀ g < barriersOf L, (L.waveStatus g).code = .stalledAtBarrier := fun g hg =>
    waveStatus_stalled hg
  have hown (c : L.Cus) : requestsOf (cuId c) reqs = (L.solo c mem (regs c)).log := by
    rw [h.own c, scheduleTo_share hcap, solo, schedule, lastWave_eq, scheduleTo, List.take_zero,
      List.append_nil]
  refine ⟨h.mirrors.coherent, fun word hword => ?_⟩
  rw [h.mirrors.words word hword, Launch.soloMemory]
  split
  · next store hfind =>
    have hstore := List.find?_some hfind
    simp only [Bool.and_eq_true, decide_eq_true_eq] at hstore
    obtain ⟨hg, hw, rfl⟩ := hstore
    have hmem := List.mem_of_find?_eq_some hfind
    obtain ⟨c, hreq⟩ := mem_soloRequests.1 hmem
    have hid : store.cuId = cuId c := soloRun_stamped store hreq
    rw [hid, requestsOf_soloRequests, ← hown c, flatAfter_own mem hg]
    intro r hr hwrites
    have hrsolo := h.mem_solo hv hr
    rw [← hid]
    exact hcomp.noSharing r hrsolo store hmem hwrites.1 (hcomp.reach r hrsolo).1 hwrites.2
  · next hfind =>
    rw [List.find?_eq_none] at hfind
    refine lastStored_frame fun req hreq hwrites => ?_
    have hsolo := h.mem_solo hv hreq
    have hnot := hfind req hsolo
    rw [(hcomp.reach req hsolo).1, decide_eq_true hwrites] at hnot
    exact hnot rfl

end Follows

/-! ## Main result -/

/-- A launch on an idle golden top ends, and every run of the HLS top that is done with the same
launch has the same words in its memory, outside the golden window. -/
theorem launch_parity {K : GpgpuTop.Config} {g : GpgpuTop} {L : Launch} {mem : GlobalMem}
    {regs : L.Cus → SlotId → RegFile} {gridX gridY : BitVec 32} {program : List Instruction}
    {warpIdOffset : BitVec 32} (hidle : g.process = .idle)
    (hcomplete : g.isKernelComplete K = true)
    (hids : g.scheduler.kernelWarpCounter.toNat + (gridX * gridY).toNat < 2 ^ 32)
    (hlaunch : SameLaunch K (g.launchKernel K gridX gridY program warpIdOffset) L mem regs)
    (hcomp : Comparable g.memory L mem regs) :
    ∃ turns g' tr, (GpgpuTop.transition K).exec (fun _ => True) g
        (.launch gridX gridY program warpIdOffset :: List.replicate turns .resume) =
          some (g', tr) ∧
      GpgpuTop.Ended K (g.launchKernel K gridX gridY program warpIdOffset) tr g' ∧
      Mirrors g'.memory (L.soloMemory mem regs) ∧
      ∀ (D : SideDepths) (m : MemorySubsystem) (s : System L) (tr' : List Hls.TopEvent),
        FreshRun L D m mem regs s tr' → s.gpu.core.done = true →
          Mirrors g'.memory s.side.mem.2 := by
  obtain ⟨turns, g', tr, s, hexec, hended, hserial⟩ :=
    (GpgpuTop.ends_launchKernel gridX gridY program warpIdOffset hidle hcomplete hids).exec_launch
  obtain ⟨reqs, hfollows⟩ := follows_launch hlaunch hcomp hserial
  have hsolo := hfollows.soloMemory hlaunch.fits hcomp
  rw [hserial.memory] at hsolo
  refine ⟨turns, g', tr, hexec, hended, hsolo, fun D m s tr' hrun hdone => ?_⟩
  rw [(hrun.followsSolo hlaunch.fits hcomp.noSharing).memory hdone]
  exact hsolo

/-! ### Two warps that store their numbers -/

/-- Lane 0 of each warp stores the number of the warp in the launch. -/
def warpNumbers : Launch :=
  { twoStores with
    program := programStore [encodeInstruction .addi 5 0 0 31, encodeInstruction .and 4 1 5 0,
      encodeInstruction .vbranch 0 4 0 0, encodeInstruction .sw 0 2 3 0,
      encodeInstruction .halt 0 0 0 0]
    programLen := 5 }

def warpNumbersConfig : GpgpuTop.Config where
  numComputeUnits := 3
  maxWarpsPerCu := 5
  numComputeUnits_pos := by decide
  maxWarpsPerCu_pos := by decide
  cu := ⟨32, warpNumbers.fp⟩
  threadsPerWarp_pos := by decide
  threadsPerWarp_le := by decide

def warpNumbersProgram : List Instruction :=
  decodeProgram warpNumbers.program warpNumbers.programLen

def warpNumbersStart : GpgpuTop :=
  (GpgpuTop.reset GpgpuTop.emptyMemory).launchKernel warpNumbersConfig 2 1 warpNumbersProgram 0

def warpNumbersRegs (c : warpNumbers.Cus) (slot : SlotId) : RegFile :=
  (warpNumbersStart.launchedContexts warpNumbersConfig (warpNumbers.localWarp c slot)).regs

def warpNumbersRun : System warpNumbers × List Hls.TopEvent :=
  followLaunch warpNumbers ⟨1, 1⟩ emptySubsystem (fun _ => 0) warpNumbersRegs
    (launchActions 30 (launchRound _))

theorem freshRun_warpNumbers : FreshRun warpNumbers ⟨1, 1⟩ emptySubsystem (fun _ => 0)
    warpNumbersRegs warpNumbersRun.1 warpNumbersRun.2 := freshRun_followLaunch _

theorem mirrors_emptyMemory : Mirrors GpgpuTop.emptyMemory (fun _ => 0) :=
  ⟨⟨fun _ _ h => absurd h.symm (Option.some_ne_none _),
    fun _ _ h => absurd h.symm (Option.some_ne_none _)⟩, fun _ _ => rfl⟩

theorem launch_parity_warpNumbers : ∃ turns g' tr,
    (GpgpuTop.transition warpNumbersConfig).exec (fun _ => True)
      (GpgpuTop.reset GpgpuTop.emptyMemory)
      (.launch 2 1 warpNumbersProgram 0 :: List.replicate turns .resume) = some (g', tr) ∧
    Mirrors g'.memory warpNumbersRun.1.side.mem.2 := by
  have hdone : warpNumbersRun.1.gpu.core.done = true := by decide +kernel
  have hlaunch : SameLaunch warpNumbersConfig warpNumbersStart warpNumbers (fun _ => 0)
      warpNumbersRegs :=
    ⟨⟨rfl, rfl, rfl⟩, by simp only [warpNumbersStart, GpgpuTop.launchKernel, warpNumbersProgram],
      rfl, by decide, mirrors_emptyMemory, fun _ _ _ => rfl⟩
  have hcomp : Comparable GpgpuTop.emptyMemory warpNumbers (fun _ => 0) warpNumbersRegs :=
    ⟨by decide +kernel, by decide +kernel, by decide +kernel⟩
  obtain ⟨turns, g', tr, hexec, -, -, hparity⟩ :=
    launch_parity rfl (by decide) (by decide) hlaunch hcomp
  exact ⟨turns, g', tr, hexec, hparity _ _ _ _ freshRun_warpNumbers hdone⟩

end RiscvGpgpu.Parity
