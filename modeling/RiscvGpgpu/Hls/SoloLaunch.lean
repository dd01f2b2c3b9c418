import RiscvGpgpu.Hls.MemArbitration
import RiscvGpgpu.Hls.PrivateMemory
import RiscvGpgpu.Hls.Waves

/-!
# A launch, one CU at a time

`Launch.solo` is what a launch means for a CU that is alone. Its warps are dispatched wave by wave
and from the lowest slot on, each runs to its next barrier or to its end before the next one starts,
and the memory is flat. No stream, no cache and no other CU is in it.
-/

namespace RiscvGpgpu.Hls

open Launch

/-- Flat memory as a server, whose state is the requests so far. -/
def flatServer (mem : GlobalMem) (log : List MemReq) (req : MemReq) : MemResp × List MemReq :=
  ((flatRequest (flatAfter mem log) req).1, log ++ [req])

theorem prefix_serve {R : Type} (mem : GlobalMem) (log : List MemReq)
    (p : Interact MemReq MemResp R) : log <+: (p.serve (flatServer mem) log).1 := by
  induction p generalizing log with
  | ret r => exact List.prefix_rfl
  | ask q k ih => exact (List.prefix_append log [q]).trans (ih _ _)

/-- What a program asks is appended to the log. -/
theorem forall_mem_serve {R : Type} {P : MemReq → Prop} {mem : GlobalMem} {log : List MemReq}
    {p : Interact MemReq MemResp R} (hlog : ∀ req ∈ log, P req) (hp : p.AllAsks P) :
    ∀ req ∈ (p.serve (flatServer mem) log).1, P req := by
  induction p generalizing log with
  | ret r => exact hlog
  | ask q k ih =>
    refine ih _ (fun req hreq => ?_) (hp.2 _)
    obtain hreq | hreq := List.mem_append.1 hreq
    · exact hlog req hreq
    · rw [List.mem_singleton.1 hreq]
      exact hp.1

/-- Of a list with one entry for each index, the entry of one index. -/
theorem flatMap_ite {ι α : Type} [DecidableEq ι] {l : List ι} (hl : l.Nodup) {i : ι} (hi : i ∈ l)
    (f : ι → List α) : (l.flatMap fun j => if j = i then f j else []) = f i := by
  induction l with
  | nil => exact absurd hi List.not_mem_nil
  | cons j l ih =>
    obtain ⟨hj, hl⟩ := List.nodup_cons.1 hl
    rw [List.flatMap_cons]
    by_cases heq : j = i
    · subst heq
      have hnil : (l.flatMap fun j' => if j' = j then f j' else []) = [] :=
        List.flatMap_eq_nil_iff.2 fun j' hj' => if_neg fun h : j' = j => hj (h ▸ hj')
      rw [if_pos rfl, hnil, List.append_nil]
    · have hi : i ∈ l := (List.mem_cons.1 hi).resolve_left (Ne.symm heq)
      rw [if_neg heq, List.nil_append, ih hl hi]

/-- The registers of a CU and the requests that it has made. -/
structure Solo where
  regs : SlotId → RegFile
  log : List MemReq

namespace Launch

variable (L : Launch) (c : L.Cus)

/-! ## The order of the dispatches -/

/-- The slots of a CU that hold a warp, from the lowest on. -/
def residentSlots : List SlotId := L.slotIds.filter fun slot => L.Resident c slot

/-- The dispatch of the warp of a slot in wave `g`. -/
def waveDispatch (g : ℕ) (slot : SlotId) : WarpDispatch where
  slotId := slot
  warpId := L.warpIdOf c slot
  activeMaskInit := BitVec.allOnes 32
  resumePc := L.wavePc g
  freshLaunch := g = 0

def waveSchedule (g : ℕ) : List WarpDispatch := (L.residentSlots c).map (L.waveDispatch c g)

/-- The dispatches of the waves before `g`, and the first `k` of wave `g`. -/
def scheduleTo (g k : ℕ) : List WarpDispatch :=
  (List.range g).flatMap (L.waveSchedule c) ++ (L.waveSchedule c g).take k

/-- The wave in which the warps complete. -/
def lastWave : ℕ :=
  ((List.range (maxProgramLen + 1)).find? fun g => (L.waveStatus g).code = .complete).getD 0

/-- All dispatches of a CU. -/
def schedule : List WarpDispatch := (List.range (L.lastWave + 1)).flatMap (L.waveSchedule c)

/-! ## Running them -/

/-- A dispatch runs to its end on flat memory. -/
def soloDispatch (mem : GlobalMem) (s : Solo) (d : WarpDispatch) : Solo :=
  let r := (L.execute c d (s.regs d.slotId)).serve (flatServer mem) s.log
  ⟨Function.update s.regs d.slotId r.2.regs, r.1⟩

def soloRun (mem : GlobalMem) (regs : SlotId → RegFile) (ds : List WarpDispatch) : Solo :=
  ds.foldl (L.soloDispatch c mem) ⟨regs, []⟩

/-- What the launch does on one CU. -/
def solo (mem : GlobalMem) (regs : SlotId → RegFile) : Solo :=
  L.soloRun c (flatInit mem) regs (L.schedule c)

/-- The requests of all CUs, each alone. -/
def soloRequests (mem : GlobalMem) (regs : L.Cus → SlotId → RegFile) : List MemReq :=
  (List.finRange L.numCus).flatMap fun c => (L.solo c mem (regs c)).log

/-- No CU stores to a global word that another one accesses. -/
def NoSharing (mem : GlobalMem) (regs : L.Cus → SlotId → RegFile) : Prop :=
  Isolated (L.soloRequests mem regs)

instance (mem : GlobalMem) (regs : L.Cus → SlotId → RegFile) : Decidable (L.NoSharing mem regs) :=
  inferInstanceAs (Decidable (Isolated _))

/-- The memory after the launch: the words that a CU has stored, and the old ones. -/
def soloMemory (mem : GlobalMem) (regs : L.Cus → SlotId → RegFile) : GlobalMem := fun word =>
  match (L.soloRequests mem regs).find? fun req => isGlobal req && decide (writesWord req word) with
  | some store =>
    flatAfter (flatInit mem) (requestsOf store.cuId (L.soloRequests mem regs)) word
  | none => mem word

variable {L c}

/-! ## Slots and waves -/

theorem mem_residentSlots {slot : SlotId} : slot ∈ L.residentSlots c ↔ L.Resident c slot := by
  unfold residentSlots
  rw [List.mem_filter, decide_eq_true_eq, mem_slotIds]
  exact ⟨fun h => h.2, fun h => ⟨h.1, h⟩⟩

theorem nodup_residentSlots : (L.residentSlots c).Nodup := by
  refine List.Nodup.filter _ (List.Nodup.map_on (fun i hi j hj heq => ?_) List.nodup_range)
  have hM := L.maxWarpsPerCu_lt
  rw [List.mem_range] at hi hj
  have hn := congrArg BitVec.toNat heq
  rw [BitVec.toNat_ofNat, BitVec.toNat_ofNat, Nat.mod_eq_of_lt (by omega),
    Nat.mod_eq_of_lt (by omega)] at hn
  exact hn

@[simp] theorem length_waveSchedule (g : ℕ) :
    (L.waveSchedule c g).length = (L.residentSlots c).length := List.length_map _

/-- A wave that is through is the beginning of the next one. -/
theorem scheduleTo_full (g : ℕ) :
    L.scheduleTo c g (L.residentSlots c).length = L.scheduleTo c (g + 1) 0 := by
  unfold scheduleTo
  rw [← length_waveSchedule g, List.take_length, List.take_zero, List.append_nil, List.range_succ,
    List.flatMap_append, List.flatMap_singleton]

theorem scheduleTo_succ {g k : ℕ} (hk : k < (L.residentSlots c).length) :
    L.scheduleTo c g (k + 1) =
      L.scheduleTo c g k ++ [L.waveDispatch c g ((L.residentSlots c).get ⟨k, hk⟩)] := by
  unfold scheduleTo
  rw [List.append_assoc]
  congr 1
  unfold waveSchedule
  rw [← List.map_take, List.take_succ_eq_append_getElem hk, List.map_append, List.map_take]
  rfl

/-- A stall is reported behind where the dispatch started, and within the program. -/
theorem scanStatus_stalled {i : ℕ} {code : List Instruction} {count : Word}
    (h : (scanStatus i code count).code = .stalledAtBarrier) :
    ∃ j, i ≤ j ∧ j < i + code.length ∧
      (scanStatus i code count).resumePc = BitVec.ofNat 16 (j + 1) := by
  induction code generalizing i count with
  | nil => exact absurd h (by simp [scanStatus])
  | cons instr rest ih =>
    unfold scanStatus at h ⊢
    split at h
    · exact absurd h (by simp)
    · next hhalt =>
      rw [if_neg hhalt]
      split at h
      · next hbar =>
        rw [if_pos hbar]
        exact ⟨i, le_rfl, by simp, rfl⟩
      · next hbar =>
        rw [if_neg hbar]
        obtain ⟨j, hij, hj, hpc⟩ := ih h
        exact ⟨j, by omega, by rw [List.length_cons]; omega, hpc⟩

theorem wavePc_lt {g : ℕ} (h : (L.waveStatus g).code = .stalledAtBarrier) :
    (L.wavePc g).toNat < (L.wavePc (g + 1)).toNat ∧ (L.wavePc (g + 1)).toNat ≤ maxProgramLen := by
  obtain ⟨j, hij, hj, hpc⟩ := scanStatus_stalled h
  have hlen := length_decodeProgram L.program L.programLen
  rw [List.length_drop, List.length_take] at hj
  have hnext : (L.wavePc (g + 1)).toNat = j + 1 := by
    show (L.dispatchStatus (L.wavePc g)).resumePc.toNat = j + 1
    unfold dispatchStatus
    unfold maxProgramLen at hj hlen
    rw [hpc, BitVec.toNat_ofNat, Nat.mod_eq_of_lt (by omega)]
  rw [hnext]
  omega

theorem le_wavePc {g : ℕ} (h : ∀ g' < g, (L.waveStatus g').code = .stalledAtBarrier) :
    g ≤ (L.wavePc g).toNat := by
  induction g with
  | zero => exact Nat.zero_le _
  | succ g ih =>
    have hlt := (wavePc_lt (h g (Nat.lt_succ_self g))).1
    have := ih fun g' hg' => h g' (by omega)
    omega

/-- The last wave is the first one that ends in completion. -/
theorem lastWave_spec : (L.waveStatus L.lastWave).code = .complete ∧
    ∀ g < L.lastWave, (L.waveStatus g).code ≠ .complete := by
  unfold lastWave
  cases hf : (List.range (maxProgramLen + 1)).find? fun g => (L.waveStatus g).code = .complete with
  | some g =>
    rw [List.find?_range_eq_some] at hf
    exact ⟨by simpa using hf.1, by simpa using hf.2.2⟩
  | none =>
    -- a program has fewer barriers than words
    rw [List.find?_range_eq_none] at hf
    have hall (g : ℕ) (hg : g < maxProgramLen + 1) :
        (L.waveStatus g).code = .stalledAtBarrier := by
      have := hf g hg
      cases hcode : (L.waveStatus g).code with
      | complete => simp [hcode] at this
      | stalledAtBarrier => rfl
    have hle := le_wavePc (L := L) (g := maxProgramLen + 1) hall
    have := (wavePc_lt (hall maxProgramLen (Nat.lt_succ_self _))).2
    omega

theorem le_lastWave {g : ℕ} (h : ∀ g' < g, (L.waveStatus g').code = .stalledAtBarrier) :
    g ≤ L.lastWave := by
  by_contra hlt
  have hstalled := h L.lastWave (by omega)
  rw [lastWave_spec.1] at hstalled
  exact absurd hstalled (by decide)

theorem eq_lastWave {g : ℕ} (h : ∀ g' < g, (L.waveStatus g').code = .stalledAtBarrier)
    (hg : (L.waveStatus g).code = .complete) : g = L.lastWave := by
  have hle := le_lastWave h
  by_contra hne
  exact lastWave_spec.2 g (by omega) hg

/-- The dispatches so far are the first ones of the launch. -/
theorem scheduleTo_prefix {g k : ℕ}
    (h : ∀ g' < g, (L.waveStatus g').code = .stalledAtBarrier) :
    L.scheduleTo c g k <+: L.schedule c := by
  have hle := le_lastWave h
  have hrange : L.lastWave + 1 = g + 1 + (L.lastWave - g) := by omega
  have hsplit : L.schedule c = (List.range g).flatMap (L.waveSchedule c) ++ (L.waveSchedule c g ++
      ((List.range (L.lastWave - g)).map (g + 1 + ·)).flatMap (L.waveSchedule c)) := by
    unfold schedule
    rw [hrange, List.range_add, List.flatMap_append, List.range_succ, List.flatMap_append,
      List.flatMap_singleton, List.append_assoc]
  rw [hsplit]
  exact (List.prefix_append_right_inj _).2
    ((List.take_prefix _ _).trans (List.prefix_append _ _))

/-! ## Runs of one CU -/

section Runs

variable {mem : GlobalMem} {regs : SlotId → RegFile} {ds ds' : List WarpDispatch}

theorem soloRun_concat (d : WarpDispatch) : L.soloRun c mem regs (ds ++ [d]) =
    L.soloDispatch c mem (L.soloRun c mem regs ds) d := by
  unfold soloRun
  rw [List.foldl_append]
  rfl

theorem soloRun_log_prefix (h : ds <+: ds') :
    (L.soloRun c mem regs ds).log <+: (L.soloRun c mem regs ds').log := by
  obtain ⟨rest, rfl⟩ := h
  induction rest using List.reverseRecOn with
  | nil => rw [List.append_nil]
  | append_singleton rest d ih =>
    rw [← List.append_assoc, soloRun_concat]
    exact ih.trans (prefix_serve _ _ _)

/-- The CU stamps its requests with its number. -/
theorem soloRun_stamped : ∀ req ∈ (L.soloRun c mem regs ds).log, req.cuId = cuId c := by
  induction ds using List.reverseRecOn with
  | nil => simp [soloRun]
  | append_singleton ds d ih =>
    rw [soloRun_concat]
    exact forall_mem_serve ih (asks_execute c d _)

end Runs

theorem requestsOf_soloRequests (mem : GlobalMem) (regs : L.Cus → SlotId → RegFile) (c : L.Cus) :
    requestsOf (cuId c) (L.soloRequests mem regs) = (L.solo c mem (regs c)).log := by
  unfold soloRequests requestsOf
  rw [List.filter_flatMap]
  have hof (c' : L.Cus) : (L.solo c' mem (regs c')).log.filter (fun req => req.cuId = cuId c) =
      if c' = c then (L.solo c' mem (regs c')).log else [] := by
    by_cases hc : c' = c
    · subst hc
      rw [if_pos rfl, List.filter_eq_self]
      exact fun req hreq => decide_eq_true (soloRun_stamped req hreq)
    · rw [if_neg hc, List.filter_eq_nil_iff]
      intro req hreq hid
      rw [decide_eq_true_eq, soloRun_stamped req hreq] at hid
      exact hc (cuId_inj hid)
  simp only [hof]
  exact flatMap_ite (List.nodup_finRange _) (List.mem_finRange c) _

theorem mem_soloRequests {mem : GlobalMem} {regs : L.Cus → SlotId → RegFile} {req : MemReq} :
    req ∈ L.soloRequests mem regs ↔ ∃ c, req ∈ (L.solo c mem (regs c)).log := by
  simp [soloRequests]

end Launch

end RiscvGpgpu.Hls
