import RiscvGpgpu.Hls.MemArbiter
import RiscvGpgpu.Hls.WarpRun

/-!
# Memory arbitration

Every request of a CU is at one place between the write of the compute pipeline and the read of
`memory_pipeline`, and every response at one place on its way back. `SideInv` accounts for both,
and bounds how many requests of other CUs the arbiter can still grant before that of a CU.
-/

namespace RiscvGpgpu.Hls

open Launch

/-! ## What has happened to the requests of a CU -/

def TopEvent.mem? : TopEvent → Option MemEvent
  | warp _ => none
  | mem e => some e

/-- The events on the memory side. -/
def memEvents (tr : List TopEvent) : List MemEvent := tr.filterMap TopEvent.mem?

def MemEvent.issuedBy? (c : ℕ) : MemEvent → Option MemReq
  | issued c' req => if c' = c then some req else none
  | _ => none

def MemEvent.servedFor? (id : CuId) : MemEvent → Option (MemReq × MemResp)
  | served req resp => if req.cuId = id then some (req, resp) else none
  | _ => none

def MemEvent.receivedBy? (c : ℕ) : MemEvent → Option MemResp
  | received c' resp => if c' = c then some resp else none
  | _ => none

/-- The requests a CU has issued, in order. -/
def issuedBy (tr : List MemEvent) (c : ℕ) : List MemReq := tr.filterMap (MemEvent.issuedBy? c)

/-- The requests with a CU number that were served, in order, with their responses. -/
def servedFor (tr : List MemEvent) (id : CuId) : List (MemReq × MemResp) :=
  tr.filterMap (MemEvent.servedFor? id)

/-- The responses a CU has received, in order. -/
def receivedBy (tr : List MemEvent) (c : ℕ) : List MemResp := tr.filterMap (MemEvent.receivedBy? c)

/-- The arbiter grants a request of a CU other than `c`. -/
def MemEvent.passes (c : ℕ) : MemEvent → Bool
  | granted c' _ => c' ≠ c
  | _ => false

/-- How many requests of other CUs were granted while one of `c` has been waiting; `none` while
none is. -/
def passedOver (c : ℕ) : Option ℕ → MemEvent → Option ℕ
  | w, .issued c' _ => if c' = c then some (w.getD 0) else w
  | w, .granted c' _ => if c' = c then none else w.map (· + 1)
  | w, _ => w

def passed (tr : List MemEvent) (c : ℕ) : Option ℕ := tr.foldl (passedOver c) none

/-- While a request waits, every grant counts. -/
theorem foldl_passedOver {c : ℕ} {mid : List MemEvent} (h : ∀ req, .granted c req ∉ mid) (n : ℕ) :
    mid.foldl (passedOver c) (some n) = some (n + mid.countP (MemEvent.passes c)) := by
  induction mid generalizing n with
  | nil => rfl
  | cons e mid ih =>
    have ih := ih fun req hr => h req (List.mem_cons_of_mem _ hr)
    rw [List.foldl_cons, List.countP_cons]
    cases e with
    | granted c' req =>
      have hne : c' ≠ c := by
        rintro rfl
        exact h req List.mem_cons_self
      rw [passedOver, if_neg hne, Option.map_some, ih]
      simp only [MemEvent.passes, ne_eq, hne, not_false_eq_true, decide_true, if_true]
      congr 1
      omega
    | issued c' req =>
      rw [passedOver]
      split <;> exact ih n
    | served req resp => exact ih n
    | received c' resp => exact ih n

/-! ## Where requests and responses are -/

namespace MemorySide

variable (side : MemorySide) (id : CuId)

def forwarding : List MemReq :=
  match side.arbiter.pc with
  | .forward _ req => if req.cuId = id then [req] else []
  | _ => []

def delivering : List MemResp :=
  match side.arbiter.pc with
  | .deliver resp => if resp.cuId = id then [resp] else []
  | _ => []

def responding : List MemResp :=
  match side.process with
  | .respond resp => if resp.cuId = id then [resp] else []
  | .ready => []

/-- The requests with a CU number that the memory side has taken and not served, oldest first. -/
def reqsFor : List MemReq := side.reqOut.filter (fun req => req.cuId = id) ++ side.forwarding id

/-- The responses with a CU number that the memory side has not delivered, oldest first. -/
def respsFor : List MemResp :=
  side.delivering id ++ side.respIn.filter (fun resp => resp.cuId = id) ++ side.responding id

end MemorySide

namespace System

variable {L : Launch} (s : System L) (c : L.Cus)

/-- The requests of a CU that are not served yet, oldest first. -/
def pendingReqs : List MemReq := s.side.reqsFor (cuId c) ++ (s.gpu.cus c).memReq

/-- The responses to a CU that it has not read yet, oldest first. -/
def pendingResps : List MemResp := (s.gpu.cus c).memResp ++ s.side.respsFor (cuId c)

end System

/-- The pipeline has written a request and not read its response. -/
def Pipeline.isWaiting : Pipeline → Bool
  | waiting _ _ => true
  | _ => false

/-- Every request the pipeline can still write carries the CU number. -/
def Pipeline.Stamped (id : CuId) : Pipeline → Prop
  | idle => True
  | running _ rest => rest.AllAsks fun req => req.cuId = id
  | waiting _ rest => ∀ resp, (rest resp).AllAsks fun req => req.cuId = id

/-! ## Round robin -/

/-- How far behind `p` a scan of `N` streams finds stream `c`. -/
def ahead (N p c : ℕ) : ℕ := if p ≤ c then c - p else c + N - p

theorem mod_eq_iff_ahead {N p c i : ℕ} (hp : p < N) (hc : c < N) (hi : i < N) :
    (p + i) % N = c ↔ i = ahead N p c := by
  unfold ahead
  by_cases h : p + i < N
  · rw [Nat.mod_eq_of_lt h]
    split <;> omega
  · have hmod : (p + i) % N = p + i - N := by
      rw [Nat.mod_eq_sub_mod (by omega), Nat.mod_eq_of_lt (by omega)]
    rw [hmod]
    split <;> omega

theorem ahead_lt {N p c : ℕ} (hp : p < N) (hc : c < N) : ahead N p c < N := by
  unfold ahead
  split <;> omega

/-- The most requests of others that the arbiter grants before one of `c` that waits. -/
def MemArbiter.distance (N : ℕ) (arb : MemArbiter) (c : ℕ) : ℕ :=
  let t := ahead N arb.nextCu c
  match arb.pc with
  | .scan i => if i ≤ t then t else N + t - i
  | .forward idx _ => ahead N ((idx + 1) % N) c
  | _ => t

/-- Behind the stream at distance `j` of the scan, the next scan is that much closer. -/
theorem ahead_next {N p c j : ℕ} (hp : p < N) (hc : c < N) (hj : j < N) (hne : j ≠ ahead N p c) :
    ahead N (((p + j) % N + 1) % N) c =
      if j ≤ ahead N p c then ahead N p c - j - 1 else N + ahead N p c - j - 1 := by
  have hpos : 0 < N := by omega
  have hq : (p + j) % N < N := Nat.mod_lt _ hpos
  have hcases : (p + j) % N = if p + j < N then p + j else p + j - N := by
    by_cases h : p + j < N
    · rw [if_pos h, Nat.mod_eq_of_lt h]
    · rw [if_neg h, Nat.mod_eq_sub_mod (by omega), Nat.mod_eq_of_lt (by omega)]
  have hnext : ((p + j) % N + 1) % N = if (p + j) % N + 1 < N then (p + j) % N + 1 else 0 := by
    by_cases h : (p + j) % N + 1 < N
    · rw [if_pos h, Nat.mod_eq_of_lt h]
    · rw [if_neg h, show (p + j) % N + 1 = N by omega, Nat.mod_self]
  rw [hnext, hcases]
  unfold ahead at hne ⊢
  split_ifs at hne ⊢ <;> omega

theorem distance_lt {N c : ℕ} {arb : MemArbiter} (hp : arb.nextCu < N) (hc : c < N) :
    arb.distance N c ≤ N - 1 := by
  have ht := ahead_lt hp hc
  unfold MemArbiter.distance
  dsimp only
  split
  · split <;> omega
  · next idx _ _ =>
    have := ahead_lt (Nat.mod_lt (idx + 1) (by omega : 0 < N)) hc
    omega
  · omega

/-! ## The invariant -/

/-- All requests and responses are accounted for. -/
structure SideInv {L : Launch} (s : System L) (tr : List MemEvent) : Prop where
  reqs : ∀ c : L.Cus, issuedBy tr c = (servedFor tr (cuId c)).map Prod.fst ++ s.pendingReqs c
  resps : ∀ c : L.Cus, (servedFor tr (cuId c)).map Prod.snd = receivedBy tr c ++ s.pendingResps c
  outstanding : ∀ c, (s.pendingReqs c).length + (s.pendingResps c).length =
    if (s.gpu.cus c).pipeline.isWaiting then 1 else 0
  stamped : ∀ c, (s.gpu.cus c).pipeline.Stamped (cuId c)
  reqIn : ∀ c, ∀ req ∈ (s.gpu.cus c).memReq, req.cuId = cuId c
  forward : ∀ idx req, s.side.arbiter.pc = .forward idx req → ∃ c : L.Cus, (c : ℕ) = idx ∧
    req.cuId = cuId c
  reqOut : ∀ req ∈ s.side.reqOut, ∃ c : L.Cus, req.cuId = cuId c
  respond : ∀ resp, s.side.process = .respond resp → ∃ c : L.Cus, resp.cuId = cuId c
  respIn : ∀ resp ∈ s.side.respIn, ∃ c : L.Cus, resp.cuId = cuId c
  deliver : ∀ resp, s.side.arbiter.pc = .deliver resp → ∃ c : L.Cus, resp.cuId = cuId c
  served : ∀ req resp, .served req resp ∈ tr → ∃ c : L.Cus, req.cuId = cuId c
  nextCu : 0 < L.numCus → s.side.arbiter.nextCu < L.numCus
  scan : ∀ i, s.side.arbiter.pc = .scan i → i ≤ L.numCus
  passed : ∀ (c : L.Cus) n, passed tr c = some n → (s.gpu.cus c).memReq ≠ [] ∧
    n + s.side.arbiter.distance L.numCus c ≤ L.numCus - 1

section Steps

variable {L : Launch} {D : SideDepths} {s : System L} {tr : List MemEvent}

theorem cuId_inj {c c' : L.Cus} (h : cuId c = cuId c') : c = c' := by
  have hN := L.numCus_le
  have hc := c.isLt
  have hc' := c'.isLt
  have hn := congrArg BitVec.toNat h
  unfold cuId at hn
  rw [BitVec.toNat_ofNat, BitVec.toNat_ofNat] at hn
  exact Fin.ext (by omega)

theorem cuId_toNat_mod (c : L.Cus) : (cuId c).toNat % L.numCus = c := by
  have hN := L.numCus_le
  have hc := c.isLt
  unfold cuId
  rw [BitVec.toNat_ofNat, Nat.mod_eq_of_lt (a := (c : ℕ)) (by omega), Nat.mod_eq_of_lt hc]

@[simp] theorem issuedBy_append (tr ev : List MemEvent) (c : ℕ) :
    issuedBy (tr ++ ev) c = issuedBy tr c ++ issuedBy ev c := List.filterMap_append ..

@[simp] theorem servedFor_append (tr ev : List MemEvent) (id : CuId) :
    servedFor (tr ++ ev) id = servedFor tr id ++ servedFor ev id := List.filterMap_append ..

@[simp] theorem receivedBy_append (tr ev : List MemEvent) (c : ℕ) :
    receivedBy (tr ++ ev) c = receivedBy tr c ++ receivedBy ev c := List.filterMap_append ..

section Singletons

variable (c c' : ℕ) (req : MemReq) (resp : MemResp) (id : CuId)

@[simp] theorem issuedBy_issued :
    issuedBy [.issued c' req] c = if c' = c then [req] else [] := by
  unfold issuedBy
  split <;> simp_all [MemEvent.issuedBy?]

@[simp] theorem issuedBy_granted : issuedBy [.granted c' req] c = [] := rfl

@[simp] theorem issuedBy_served : issuedBy [.served req resp] c = [] := rfl

@[simp] theorem issuedBy_received : issuedBy [.received c' resp] c = [] := rfl

@[simp] theorem servedFor_issued : servedFor [.issued c' req] id = [] := rfl

@[simp] theorem servedFor_granted : servedFor [.granted c' req] id = [] := rfl

@[simp] theorem servedFor_served :
    servedFor [.served req resp] id = if req.cuId = id then [(req, resp)] else [] := by
  unfold servedFor
  split <;> simp_all [MemEvent.servedFor?]

@[simp] theorem servedFor_received : servedFor [.received c' resp] id = [] := rfl

@[simp] theorem receivedBy_issued : receivedBy [.issued c' req] c = [] := rfl

@[simp] theorem receivedBy_granted : receivedBy [.granted c' req] c = [] := rfl

@[simp] theorem receivedBy_served : receivedBy [.served req resp] c = [] := rfl

@[simp] theorem receivedBy_received :
    receivedBy [.received c' resp] c = if c' = c then [resp] else [] := by
  unfold receivedBy
  split <;> simp_all [MemEvent.receivedBy?]

end Singletons

theorem passed_append (tr : List MemEvent) (e : MemEvent) (c : ℕ) :
    passed (tr ++ [e]) c = passedOver c (passed tr c) e := by
  unfold passed
  rw [List.foldl_append]
  rfl

theorem SideInv.reset (h : s.IsReset) : SideInv s [] := by
  obtain ⟨⟨-, hcus⟩, harb, hout, hin, hproc⟩ := h
  have hcu (c : L.Cus) : (s.gpu.cus c).memReq = [] ∧ (s.gpu.cus c).memResp = [] ∧
      (s.gpu.cus c).pipeline = .idle := by
    obtain ⟨regs, hr⟩ := hcus c
    rw [hr]
    exact ⟨rfl, rfl, rfl⟩
  have hreqs (c : L.Cus) : s.pendingReqs c = [] := by
    simp [System.pendingReqs, MemorySide.reqsFor, MemorySide.forwarding, hout, harb, (hcu c).1]
  have hresps (c : L.Cus) : s.pendingResps c = [] := by
    simp [System.pendingResps, MemorySide.respsFor, MemorySide.delivering, MemorySide.responding,
      hin, harb, hproc, (hcu c).2.1]
  refine ⟨fun c => ?_, fun c => ?_, fun c => ?_, fun c => ?_, fun c => ?_, ?_, ?_, ?_, ?_, ?_,
    by simp, ?_, ?_, ?_⟩
  · rw [hreqs]
    rfl
  · rw [hresps]
    rfl
  · rw [hreqs, hresps, (hcu c).2.2]
    rfl
  · rw [(hcu c).2.2]
    trivial
  · rw [(hcu c).1]
    simp
  · rw [harb]
    simp
  · rw [hout]
    simp
  · rw [hproc]
    simp
  · rw [hin]
    simp
  · rw [harb]
    simp
  · rw [harb]
    exact id
  · rw [harb]
    simp
  · intro c n hn
    exact absurd hn (by simp [Hls.passed])

/-! ## Steps of the CUs -/

/-- What a step leaves of the streams of the CUs and of their pipelines. -/
structure SameStreams (gpu gpu' : Gpu L) : Prop where
  memReq : ∀ c, (gpu'.cus c).memReq = (gpu.cus c).memReq
  memResp : ∀ c, (gpu'.cus c).memResp = (gpu.cus c).memResp
  waiting : ∀ c, (gpu'.cus c).pipeline.isWaiting = (gpu.cus c).pipeline.isWaiting
  stamped : ∀ c, (gpu.cus c).pipeline.Stamped (cuId c) → (gpu'.cus c).pipeline.Stamped (cuId c)

theorem SideInv.gpu {gpu : Gpu L} (h : SideInv s tr) (hsame : SameStreams s.gpu gpu) :
    SideInv { s with gpu := gpu } tr := by
  have hreqs (c : L.Cus) : ({ s with gpu := gpu } : System L).pendingReqs c = s.pendingReqs c := by
    unfold System.pendingReqs
    rw [hsame.memReq c]
  have hresps (c : L.Cus) : ({ s with gpu := gpu } : System L).pendingResps c =
      s.pendingResps c := by
    unfold System.pendingResps
    rw [hsame.memResp c]
  refine ⟨fun c => ?_, fun c => ?_, fun c => ?_, fun c => hsame.stamped c (h.stamped c),
    fun c => ?_, h.forward, h.reqOut, h.respond, h.respIn, h.deliver, h.served, h.nextCu,
    h.scan, fun c n hn => ?_⟩
  · rw [hreqs]
    exact h.reqs c
  · rw [hresps]
    exact h.resps c
  · rw [hreqs, hresps]
    dsimp only
    rw [hsame.waiting c]
    exact h.outstanding c
  · dsimp only
    rw [hsame.memReq c]
    exact h.reqIn c
  · dsimp only
    rw [hsame.memReq c]
    exact h.passed c n hn

theorem SameStreams.of_setCu {c : L.Cus} {cu : Cu} (hreq : cu.memReq = (s.gpu.cus c).memReq)
    (hresp : cu.memResp = (s.gpu.cus c).memResp)
    (hw : cu.pipeline.isWaiting = (s.gpu.cus c).pipeline.isWaiting)
    (hst : (s.gpu.cus c).pipeline.Stamped (cuId c) → cu.pipeline.Stamped (cuId c)) :
    SameStreams s.gpu (s.gpu.setCu c cu) := by
  refine ⟨fun c' => ?_, fun c' => ?_, fun c' => ?_, fun c' => ?_⟩ <;> by_cases hc : c' = c
  all_goals first
    | (subst hc; simpa [Gpu.setCu] using by assumption)
    | (simp [Gpu.setCu, hc])

/-- A scheduler touches neither its pipeline nor the memory streams. -/
theorem schedulerStep_frame {c : L.Cus} {cu cu' : Cu} {start : Bool} {ev : List Event}
    (h : cu.schedulerStep L c start = some (cu', ev)) :
    cu'.memReq = cu.memReq ∧ cu'.memResp = cu.memResp ∧ cu'.pipeline = cu.pipeline := by
  unfold Cu.schedulerStep at h
  dsimp only at h
  split at h
  · split at h
    · unfold Cu.dispatchRound at h
      dsimp only at h
      split at h
      · obtain ⟨queue, -, heq⟩ := Option.map_eq_some_iff.1 h
        obtain ⟨rfl, -⟩ := Prod.mk.inj heq
        exact ⟨rfl, rfl, rfl⟩
      · obtain ⟨rfl, -⟩ := Prod.mk.inj (Option.some.inj h)
        exact ⟨rfl, rfl, rfl⟩
    · split at h <;> obtain ⟨rfl, -⟩ := Prod.mk.inj (Option.some.inj h) <;> exact ⟨rfl, rfl, rfl⟩
  · split at h <;> obtain ⟨rfl, -⟩ := Prod.mk.inj (Option.some.inj h) <;> exact ⟨rfl, rfl, rfl⟩
  · obtain ⟨rfl, -⟩ := Prod.mk.inj (Option.some.inj h)
    unfold Cu.readStatus
    split <;> exact ⟨rfl, rfl, rfl⟩
  · obtain ⟨queue, -, heq⟩ := Option.map_eq_some_iff.1 h
    obtain ⟨rfl, -⟩ := Prod.mk.inj heq
    exact ⟨rfl, rfl, rfl⟩
  · obtain ⟨rfl, -⟩ := Prod.mk.inj (Option.some.inj h)
    unfold Cu.readSignal
    split <;> exact ⟨rfl, rfl, rfl⟩

/-- A pipeline stamps its requests with the number of its CU. -/
theorem asks_execute (c : L.Cus) (d : WarpDispatch) (regs : RegFile) :
    (L.execute c d regs).AllAsks fun req => req.cuId = cuId c := by
  have hlanes (instr : Instruction) (mask : ThreadMask) (ts : List Lane) :
      ∀ regs, (memOpLanes (cuId c) d.warpId instr mask ts regs).AllAsks
        fun req => req.cuId = cuId c := by
    induction ts with
    | nil => exact fun _ => trivial
    | cons t ts ih =>
      intro regs
      unfold memOpLanes
      split
      · exact ⟨rfl, fun _ => ih _⟩
      · exact ih _
  have hinstr (instr : Instruction) (simt : DivergenceStack) (regs : RegFile) :
      (executeInstr (L.pipelineParams c) d.warpId instr simt regs).AllAsks
        fun req => req.cuId = cuId c := by
    unfold executeInstr
    dsimp only
    split
    · trivial
    · split
      · trivial
      · split
        · exact (hlanes _ _ _ _).bind fun _ => trivial
        · split <;> trivial
  have hloop (code : List Instruction) : ∀ i simt regs count,
      (decodeLoop (L.pipelineParams c) d.warpId i code simt regs count).AllAsks
        fun req => req.cuId = cuId c := by
    induction code with
    | nil => exact fun _ _ _ _ => trivial
    | cons instr rest ih =>
      intro i simt regs count
      unfold decodeLoop
      split
      · trivial
      · split
        · trivial
        · exact (hinstr _ _ _).bind fun _ => ih _ _ _ _
  exact hloop _ _ _ _ _

/-- The streams of the other CUs after a step of one. -/
theorem setCu_of_ne {gpu : Gpu L} {c c' : L.Cus} (cu : Cu) (h : c' ≠ c) :
    (gpu.setCu c cu).cus c' = gpu.cus c' := Function.update_of_ne h _ _

theorem setCu_self (gpu : Gpu L) (c : L.Cus) (cu : Cu) : (gpu.setCu c cu).cus c = cu :=
  Function.update_self _ _ _

/-- How a step moves requests and responses along. -/
structure Moves (s s' : System L) (ev : List MemEvent) (c : L.Cus) : Prop where
  reqs : s.pendingReqs c ++ issuedBy ev c =
    (servedFor ev (cuId c)).map Prod.fst ++ s'.pendingReqs c
  resps : s.pendingResps c ++ (servedFor ev (cuId c)).map Prod.snd =
    receivedBy ev c ++ s'.pendingResps c
  waiting : (if (s'.gpu.cus c).pipeline.isWaiting then 1 else 0) + (receivedBy ev c).length =
    (if (s.gpu.cus c).pipeline.isWaiting then 1 else 0) + (issuedBy ev c).length

/-- What is moved along stays accounted for. -/
theorem SideInv.account {s' : System L} {ev : List MemEvent} (h : SideInv s tr)
    (hm : ∀ c, Moves s s' ev c) (c : L.Cus) :
    issuedBy (tr ++ ev) c = (servedFor (tr ++ ev) (cuId c)).map Prod.fst ++ s'.pendingReqs c ∧
      (servedFor (tr ++ ev) (cuId c)).map Prod.snd =
        receivedBy (tr ++ ev) c ++ s'.pendingResps c ∧
      (s'.pendingReqs c).length + (s'.pendingResps c).length =
        if (s'.gpu.cus c).pipeline.isWaiting then 1 else 0 := by
  obtain ⟨hreqs, hresps, hw⟩ := hm c
  refine ⟨?_, ?_, ?_⟩
  · rw [issuedBy_append, servedFor_append, List.map_append, h.reqs c, List.append_assoc, hreqs,
      List.append_assoc]
  · rw [servedFor_append, receivedBy_append, List.map_append, h.resps c, List.append_assoc, hresps,
      List.append_assoc]
  · have hout := h.outstanding c
    have h1 := congrArg List.length hreqs
    have h2 := congrArg List.length hresps
    simp only [List.length_append, List.length_map] at h1 h2
    omega

/-- A pipeline writes a request. -/
theorem SideInv.issue {c : L.Cus} {d : WarpDispatch} {req : MemReq}
    {k : MemResp → Interact MemReq MemResp WarpResult} (h : SideInv s tr)
    (hp : (s.gpu.cus c).pipeline = .running d (.ask req k)) :
    SideInv { s with gpu := s.gpu.setCu c { s.gpu.cus c with
      memReq := (s.gpu.cus c).memReq ++ [req], pipeline := .waiting d k } }
      (tr ++ [.issued c req]) := by
  set cu' : Cu := { s.gpu.cus c with
    memReq := (s.gpu.cus c).memReq ++ [req], pipeline := .waiting d k } with hcu'
  set s' : System L := { s with gpu := s.gpu.setCu c cu' } with hs'
  have hside : s'.side = s.side := rfl
  have hself : s'.gpu.cus c = cu' := setCu_self _ _ _
  have hother (c' : L.Cus) (hc : c' ≠ c) : s'.gpu.cus c' = s.gpu.cus c' := setCu_of_ne _ hc
  have hstamp := h.stamped c
  rw [hp] at hstamp
  have hmoves (c' : L.Cus) : Moves s s' [.issued c req] c' := by
    by_cases hc : c' = c
    · subst hc
      refine ⟨?_, ?_, ?_⟩
      · simp [System.pendingReqs, hself, hcu', hside]
      · simp [System.pendingResps, hself, hcu', hside]
      · simp [hself, hcu', hp, Pipeline.isWaiting]
    · have hne : (c : ℕ) ≠ c' := fun heq => hc (Fin.ext heq.symm)
      refine ⟨?_, ?_, ?_⟩
      · simp [System.pendingReqs, hother c' hc, hne, hside]
      · simp [System.pendingResps, hother c' hc, hside]
      · simp [hother c' hc, hne]
  have hacc := h.account hmoves
  refine ⟨fun c' => (hacc c').1, fun c' => (hacc c').2.1, fun c' => (hacc c').2.2, fun c' => ?_,
    fun c' r hr => ?_, h.forward, h.reqOut, h.respond, h.respIn, h.deliver,
    fun r resp hr => ?_, h.nextCu, h.scan, fun c' n hn => ?_⟩
  · by_cases hc : c' = c
    · subst hc
      rw [hself]
      exact hstamp.2
    · rw [hother c' hc]
      exact h.stamped c'
  · by_cases hc : c' = c
    · subst hc
      rw [hself] at hr
      obtain hr | hr := List.mem_append.1 hr
      · exact h.reqIn c' r hr
      · rw [List.mem_singleton.1 hr]
        exact hstamp.1
    · rw [hother c' hc] at hr
      exact h.reqIn c' r hr
  · obtain hr | hr := List.mem_append.1 hr
    · exact h.served r resp hr
    · exact absurd (List.mem_singleton.1 hr) (by simp)
  · rw [passed_append, passedOver] at hn
    by_cases hc : c' = c
    · subst hc
      -- nothing of the CU is on its way, so the request is the first one waiting
      have hout := h.outstanding c'
      rw [hp] at hout
      have hempty : (s.gpu.cus c').memReq = [] := by
        have hlen : (s.pendingReqs c').length = 0 := by
          simp only [Pipeline.isWaiting, Bool.false_eq_true, if_false] at hout
          omega
        rw [System.pendingReqs, List.length_append] at hlen
        exact List.length_eq_zero_iff.1 (by omega)
      have hbefore : Hls.passed tr c' = none := by
        cases hw : Hls.passed tr c' with
        | none => rfl
        | some m => exact absurd hempty (h.passed c' m hw).1
      rw [if_pos rfl, hbefore] at hn
      obtain rfl := Option.some.inj hn
      refine ⟨by simp [hself, hcu'], ?_⟩
      have hlt := c'.isLt
      have hd : s.side.arbiter.distance L.numCus c' ≤ L.numCus - 1 :=
        distance_lt (h.nextCu (by omega)) hlt
      show (0 : ℕ) + s.side.arbiter.distance L.numCus c' ≤ L.numCus - 1
      omega
    · rw [if_neg (fun heq => hc (Fin.ext heq.symm))] at hn
      rw [hother c' hc]
      exact h.passed c' n hn

/-- A pipeline reads its response. -/
theorem SideInv.receive {c : L.Cus} {d : WarpDispatch} {resp : MemResp} {rest : List MemResp}
    {k : MemResp → Interact MemReq MemResp WarpResult} (h : SideInv s tr)
    (hp : (s.gpu.cus c).pipeline = .waiting d k) (hq : (s.gpu.cus c).memResp = resp :: rest) :
    SideInv { s with gpu := s.gpu.setCu c { s.gpu.cus c with
      memResp := rest, pipeline := .running d (k resp) } } (tr ++ [.received c resp]) := by
  set cu' : Cu := { s.gpu.cus c with
    memResp := rest, pipeline := .running d (k resp) } with hcu'
  set s' : System L := { s with gpu := s.gpu.setCu c cu' } with hs'
  have hside : s'.side = s.side := rfl
  have hself : s'.gpu.cus c = cu' := setCu_self _ _ _
  have hother (c' : L.Cus) (hc : c' ≠ c) : s'.gpu.cus c' = s.gpu.cus c' := setCu_of_ne _ hc
  have hreq (c' : L.Cus) : (s'.gpu.cus c').memReq = (s.gpu.cus c').memReq := by
    by_cases hc : c' = c
    · subst hc
      rw [hself]
    · rw [hother c' hc]
  have hmoves (c' : L.Cus) : Moves s s' [.received c resp] c' := by
    by_cases hc : c' = c
    · subst hc
      refine ⟨?_, ?_, ?_⟩
      · simp [System.pendingReqs, hself, hcu', hside]
      · simp [System.pendingResps, hself, hcu', hq, hside]
      · simp [hself, hcu', hp, Pipeline.isWaiting]
    · have hne : (c : ℕ) ≠ c' := fun heq => hc (Fin.ext heq.symm)
      refine ⟨?_, ?_, ?_⟩
      · simp [System.pendingReqs, hother c' hc, hside]
      · simp [System.pendingResps, hother c' hc, hne, hside]
      · simp [hother c' hc, hne]
  have hacc := h.account hmoves
  refine ⟨fun c' => (hacc c').1, fun c' => (hacc c').2.1, fun c' => (hacc c').2.2, fun c' => ?_,
    fun c' r hr => ?_, h.forward, h.reqOut, h.respond, h.respIn, h.deliver,
    fun r r' hr => ?_, h.nextCu, h.scan, fun c' n hn => ?_⟩
  · by_cases hc : c' = c
    · subst hc
      have hstamp := h.stamped c'
      rw [hp] at hstamp
      rw [hself]
      exact hstamp resp
    · rw [hother c' hc]
      exact h.stamped c'
  · rw [hreq] at hr
    exact h.reqIn c' r hr
  · obtain hr | hr := List.mem_append.1 hr
    · exact h.served r r' hr
    · exact absurd (List.mem_singleton.1 hr) (by simp)
  · rw [passed_append] at hn
    rw [hreq]
    exact h.passed c' n hn

/-- Every step of a pipeline keeps the account. -/
theorem SideInv.pipeline {c : L.Cus} {cu : Cu} {ev : List Event} (h : SideInv s tr)
    (hs : (s.gpu.cus c).pipelineStep L c = some (cu, ev)) :
    SideInv { s with gpu := s.gpu.setCu c cu }
      (tr ++ System.pipelineEvents c (s.gpu.cus c)) := by
  unfold Cu.pipelineStep at hs
  unfold System.pipelineEvents
  split at hs
  · next hp =>
    rw [hp]
    dsimp only
    rw [List.append_nil]
    split at hs
    · obtain ⟨rfl, -⟩ := Prod.mk.inj (Option.some.inj hs)
      exact h.gpu (.of_setCu rfl rfl rfl id)
    · obtain ⟨rfl, -⟩ := Prod.mk.inj (Option.some.inj hs)
      refine h.gpu (.of_setCu rfl rfl ?_ fun _ => asks_execute c _ _)
      rw [hp]
      rfl
  · next d req k hp =>
    obtain ⟨queue, hq, heq⟩ := Option.map_eq_some_iff.1 hs
    obtain ⟨rfl, -⟩ := Prod.mk.inj heq
    obtain rfl := push_eq_some hq
    rw [hp]
    exact h.issue hp
  · next d result hp =>
    obtain ⟨queue, hq, heq⟩ := Option.map_eq_some_iff.1 hs
    obtain ⟨rfl, -⟩ := Prod.mk.inj heq
    rw [hp]
    dsimp only
    rw [List.append_nil]
    refine h.gpu (.of_setCu rfl rfl ?_ fun _ => trivial)
    rw [hp]
    rfl
  · next d k hp =>
    split at hs
    · exact absurd hs (by simp)
    · next resp rest hq =>
      obtain ⟨rfl, -⟩ := Prod.mk.inj (Option.some.inj hs)
      rw [hp, hq]
      exact h.receive hp hq

/-! ## Steps of the arbiter -/

/-- The arbiter moves on without a grant. -/
theorem SideInv.arbiterMove {arb : MemArbiter} (h : SideInv s tr)
    (hfwd : ∀ id, ({ s.side with arbiter := arb } : MemorySide).reqsFor id = s.side.reqsFor id)
    (hdel : ∀ id, ({ s.side with arbiter := arb } : MemorySide).respsFor id = s.side.respsFor id)
    (hpc : ∀ idx req, arb.pc ≠ .forward idx req) (hpc' : ∀ resp, arb.pc ≠ .deliver resp)
    (hnext : 0 < L.numCus → arb.nextCu < L.numCus) (hscan : ∀ i, arb.pc = .scan i → i ≤ L.numCus)
    (hdist : ∀ c : L.Cus, (s.gpu.cus c).memReq ≠ [] →
      arb.distance L.numCus c ≤ s.side.arbiter.distance L.numCus c) :
    SideInv (s.withArbiter arb s.ports) tr := by
  have hreqs (c : L.Cus) : (s.withArbiter arb s.ports).pendingReqs c = s.pendingReqs c :=
    congrArg (· ++ _) (hfwd _)
  have hresps (c : L.Cus) : (s.withArbiter arb s.ports).pendingResps c = s.pendingResps c :=
    congrArg (_ ++ ·) (hdel _)
  refine ⟨fun c => ?_, fun c => ?_, fun c => ?_, h.stamped, h.reqIn,
    fun idx req hf => absurd hf (hpc idx req), h.reqOut, h.respond, h.respIn,
    fun resp hf => absurd hf (hpc' resp), h.served, hnext, hscan, fun c n hn => ?_⟩
  · rw [hreqs]
    exact h.reqs c
  · rw [hresps]
    exact h.resps c
  · rw [hreqs, hresps]
    exact h.outstanding c
  · obtain ⟨hne, hle⟩ := h.passed c n hn
    have := hdist c hne
    exact ⟨hne, show n + arb.distance L.numCus c ≤ L.numCus - 1 by omega⟩

theorem distance_scan {arb : MemArbiter} {N i c : ℕ} (hpc : arb.pc = .scan i) :
    arb.distance N c = if i ≤ ahead N arb.nextCu c then ahead N arb.nextCu c
      else N + ahead N arb.nextCu c - i := by
  unfold MemArbiter.distance
  rw [hpc]

/-- The arbiter finds a stream of its scan empty. -/
theorem SideInv.scanMiss {i : ℕ} {idx : L.Cus} (h : SideInv s tr)
    (hpc : s.side.arbiter.pc = .scan i) (hi : i < L.numCus)
    (hidx : (s.side.arbiter.nextCu + i) % L.numCus = idx) (hempty : (s.gpu.cus idx).memReq = []) :
    SideInv (s.withArbiter { s.side.arbiter with pc := .scan (i + 1) } s.ports) tr := by
  have hnext := h.nextCu (by omega)
  refine h.arbiterMove (fun id => ?_) (fun id => ?_) (by simp) (by simp) h.nextCu ?_
    fun c hne => ?_
  · simp [MemorySide.reqsFor, MemorySide.forwarding, hpc]
  · simp [MemorySide.respsFor, MemorySide.delivering, MemorySide.responding, hpc]
  · intro j hj
    obtain rfl : i + 1 = j := by simpa using hj
    exact hi
  · have hlt := ahead_lt hnext c.isLt
    have hi' : i ≠ ahead L.numCus s.side.arbiter.nextCu c := by
      intro heq
      have hc := (mod_eq_iff_ahead hnext c.isLt hi).2 heq
      obtain rfl : c = idx := Fin.ext (hc.symm.trans hidx)
      exact hne hempty
    rw [distance_scan hpc, distance_scan (i := i + 1) rfl]
    dsimp only
    split <;> split <;> omega

/-- The arbiter reads a request. -/
theorem SideInv.grant {i : ℕ} {idx : L.Cus} {req : MemReq} {rest : List MemReq} (h : SideInv s tr)
    (hpc : s.side.arbiter.pc = .scan i) (hi : i < L.numCus)
    (hidx : (s.side.arbiter.nextCu + i) % L.numCus = idx)
    (hq : (s.gpu.cus idx).memReq = req :: rest) :
    SideInv (s.withArbiter { s.side.arbiter with pc := .forward idx req }
      { s.ports with reqIn := Function.update s.ports.reqIn idx rest })
      (tr ++ [.granted idx req]) := by
  set s' := s.withArbiter { s.side.arbiter with pc := .forward idx req }
    { s.ports with reqIn := Function.update s.ports.reqIn idx rest } with hs'
  have hnext := h.nextCu (by omega)
  have hid : req.cuId = cuId idx := h.reqIn idx req (by rw [hq]; exact List.mem_cons_self)
  have hself : (s'.gpu.cus idx).memReq = rest := Function.update_self ..
  have hother (c : L.Cus) (hc : c ≠ idx) : (s'.gpu.cus c).memReq = (s.gpu.cus c).memReq :=
    Function.update_of_ne hc ..
  have hresps (c : L.Cus) : s'.pendingResps c = s.pendingResps c := by
    simp [System.pendingResps, hs', System.withArbiter, MemorySide.respsFor, MemorySide.delivering,
      MemorySide.responding, hpc, System.ports]
  have hmoves (c : L.Cus) : Moves s s' [.granted idx req] c := by
    refine ⟨?_, by simp [hresps], by simp; rfl⟩
    have hfwd : s'.side.reqsFor (cuId c) = s.side.reqsFor (cuId c) ++
        if cuId idx = cuId c then [req] else [] := by
      simp [hs', System.withArbiter, MemorySide.reqsFor, MemorySide.forwarding, hpc, hid,
        System.ports]
    rw [issuedBy_granted, servedFor_granted, List.append_nil, List.map_nil, List.nil_append,
      System.pendingReqs, System.pendingReqs, hfwd]
    by_cases hc : c = idx
    · subst hc
      rw [if_pos rfl, hself, hq, List.append_assoc]
      rfl
    · rw [if_neg (fun heq => hc (cuId_inj heq).symm), hother c hc, List.append_nil]
  have hacc := h.account hmoves
  refine ⟨fun c => (hacc c).1, fun c => (hacc c).2.1, fun c => (hacc c).2.2, h.stamped,
    fun c r hr => ?_, fun idx' req' hf => ?_, h.reqOut, h.respond, h.respIn,
    by simp [hs', System.withArbiter],
    fun r resp hr => ?_, h.nextCu, by simp [hs', System.withArbiter], fun c n hn => ?_⟩
  · by_cases hc : c = idx
    · subst hc
      rw [hself] at hr
      exact h.reqIn c r (by rw [hq]; exact List.mem_cons_of_mem _ hr)
    · rw [hother c hc] at hr
      exact h.reqIn c r hr
  · obtain ⟨rfl, rfl⟩ : (idx : ℕ) = idx' ∧ req = req' := by
      simpa [hs', System.withArbiter] using hf
    exact ⟨idx, rfl, hid⟩
  · obtain hr | hr := List.mem_append.1 hr
    · exact h.served r resp hr
    · exact absurd (List.mem_singleton.1 hr) (by simp)
  · rw [passed_append, passedOver] at hn
    by_cases hc : c = idx
    · rw [if_pos (by rw [hc])] at hn
      exact absurd hn (by simp)
    · rw [if_neg (fun heq => hc (Fin.ext heq.symm))] at hn
      obtain ⟨m, hm, rfl⟩ := Option.map_eq_some_iff.1 hn
      obtain ⟨hne, hle⟩ := h.passed c m hm
      refine ⟨by rw [hother c hc]; exact hne, ?_⟩
      have hlt := ahead_lt hnext c.isLt
      have hi' : i ≠ ahead L.numCus s.side.arbiter.nextCu c := fun heq =>
        hc (Fin.ext (((mod_eq_iff_ahead hnext c.isLt hi).2 heq).symm.trans hidx))
      have hdist : s'.side.arbiter.distance L.numCus c =
          ahead L.numCus ((idx + 1) % L.numCus) c := rfl
      rw [distance_scan hpc] at hle
      rw [hdist, ← hidx, ahead_next hnext c.isLt hi hi']
      split at hle <;> split <;> omega

/-- The arbiter writes the request it has read. -/
theorem SideInv.forwarded {idx : ℕ} {req : MemReq} (h : SideInv s tr)
    (hpc : s.side.arbiter.pc = .forward idx req) :
    SideInv (s.withArbiter { s.side.arbiter with pc := .route, nextCu := (idx + 1) % L.numCus }
      { s.ports with reqOut := s.side.reqOut ++ [req] }) tr := by
  set s' := s.withArbiter { s.side.arbiter with pc := .route, nextCu := (idx + 1) % L.numCus }
    { s.ports with reqOut := s.side.reqOut ++ [req] } with hs'
  obtain ⟨c₀, rfl, hid⟩ := h.forward idx req hpc
  have hreqs (c : L.Cus) : s'.pendingReqs c = s.pendingReqs c := by
    by_cases hc : req.cuId = cuId c <;>
      simp [System.pendingReqs, hs', System.withArbiter, MemorySide.reqsFor, MemorySide.forwarding,
        hpc, System.ports, hc]
  have hresps (c : L.Cus) : s'.pendingResps c = s.pendingResps c := by
    simp [System.pendingResps, hs', System.withArbiter, MemorySide.respsFor, MemorySide.delivering,
      MemorySide.responding, hpc, System.ports]
  refine ⟨fun c => ?_, fun c => ?_, fun c => ?_, h.stamped, h.reqIn,
    by simp [hs', System.withArbiter],
    fun r hr => ?_, h.respond, h.respIn, by simp [hs', System.withArbiter], h.served,
    fun hpos => Nat.mod_lt _ hpos, by simp [hs', System.withArbiter], fun c n hn => ?_⟩
  · rw [hreqs]
    exact h.reqs c
  · rw [hresps]
    exact h.resps c
  · rw [hreqs, hresps]
    exact h.outstanding c
  · obtain hr | hr := List.mem_append.1 hr
    · exact h.reqOut r hr
    · rw [List.mem_singleton.1 hr]
      exact ⟨c₀, hid⟩
  · have hold := h.passed c n hn
    simpa [MemArbiter.distance, hpc, hs', System.withArbiter, System.ports] using hold

/-- The arbiter reads a response. -/
theorem SideInv.routed {resp : MemResp} {rest : List MemResp} (h : SideInv s tr)
    (hpc : s.side.arbiter.pc = .route) (hq : s.side.respIn = resp :: rest) :
    SideInv (s.withArbiter { s.side.arbiter with pc := .deliver resp }
      { s.ports with respIn := rest }) tr := by
  set s' := s.withArbiter { s.side.arbiter with pc := .deliver resp }
    { s.ports with respIn := rest } with hs'
  have hreqs (c : L.Cus) : s'.pendingReqs c = s.pendingReqs c := by
    simp [System.pendingReqs, hs', System.withArbiter, MemorySide.reqsFor, MemorySide.forwarding,
      hpc, System.ports]
  have hresps (c : L.Cus) : s'.pendingResps c = s.pendingResps c := by
    by_cases hc : resp.cuId = cuId c <;>
      simp [System.pendingResps, hs', System.withArbiter, MemorySide.respsFor,
        MemorySide.delivering, MemorySide.responding, hpc, hq, System.ports, hc]
  refine ⟨fun c => ?_, fun c => ?_, fun c => ?_, h.stamped, h.reqIn,
    by simp [hs', System.withArbiter],
    h.reqOut, h.respond, fun r hr => ?_, fun r hr => ?_, h.served, h.nextCu,
    by simp [hs', System.withArbiter], fun c n hn => ?_⟩
  · rw [hreqs]
    exact h.reqs c
  · rw [hresps]
    exact h.resps c
  · rw [hreqs, hresps]
    exact h.outstanding c
  · exact h.respIn r (by rw [hq]; exact List.mem_cons_of_mem _ hr)
  · obtain rfl : resp = r := by simpa [hs', System.withArbiter] using hr
    exact h.respIn resp (by rw [hq]; exact List.mem_cons_self)
  · have hold := h.passed c n hn
    simpa [MemArbiter.distance, hpc, hs', System.withArbiter, System.ports] using hold

/-- The arbiter writes a response to the CU whose number it carries. -/
theorem SideInv.delivered {resp : MemResp} {idx : L.Cus} (h : SideInv s tr)
    (hpc : s.side.arbiter.pc = .deliver resp) (hidx : resp.cuId.toNat % L.numCus = idx) :
    SideInv (s.withArbiter { s.side.arbiter with pc := .scan 0 }
      { s.ports with
        respOut :=
          Function.update s.ports.respOut idx ((s.gpu.cus idx).memResp ++ [resp]) }) tr := by
  set s' := s.withArbiter { s.side.arbiter with pc := .scan 0 }
    { s.ports with
      respOut := Function.update s.ports.respOut idx ((s.gpu.cus idx).memResp ++ [resp]) } with hs'
  obtain ⟨c₀, hid⟩ := h.deliver resp hpc
  obtain rfl : idx = c₀ := by
    rw [hid, cuId_toNat_mod] at hidx
    exact Fin.ext hidx.symm
  have hself : (s'.gpu.cus idx).memResp = (s.gpu.cus idx).memResp ++ [resp] :=
    Function.update_self ..
  have hother (c : L.Cus) (hc : c ≠ idx) : (s'.gpu.cus c).memResp = (s.gpu.cus c).memResp :=
    Function.update_of_ne hc ..
  have hreqs (c : L.Cus) : s'.pendingReqs c = s.pendingReqs c := by
    simp [System.pendingReqs, hs', System.withArbiter, MemorySide.reqsFor, MemorySide.forwarding,
      hpc, System.ports]
  have hside (c : L.Cus) : s.side.respsFor (cuId c) =
      (if cuId idx = cuId c then [resp] else []) ++ s'.side.respsFor (cuId c) := by
    simp [hs', System.withArbiter, MemorySide.respsFor, MemorySide.delivering,
      MemorySide.responding, hpc, hid, System.ports]
  have hresps (c : L.Cus) : s'.pendingResps c = s.pendingResps c := by
    unfold System.pendingResps
    rw [hside c]
    by_cases hc : c = idx
    · subst hc
      rw [hself, if_pos rfl, List.append_assoc]
    · rw [hother c hc, if_neg (fun heq => hc (cuId_inj heq).symm), List.nil_append]
  refine ⟨fun c => ?_, fun c => ?_, fun c => ?_, h.stamped, h.reqIn,
    by simp [hs', System.withArbiter],
    h.reqOut, h.respond, h.respIn, by simp [hs', System.withArbiter], h.served, h.nextCu,
    fun i hi => ?_, fun c n hn => ?_⟩
  · rw [hreqs]
    exact h.reqs c
  · rw [hresps]
    exact h.resps c
  · rw [hreqs, hresps]
    exact h.outstanding c
  · obtain rfl : 0 = i := by simpa [hs', System.withArbiter] using hi
    exact Nat.zero_le _
  · have hold := h.passed c n hn
    simpa [MemArbiter.distance, hpc, hs', System.withArbiter, System.ports] using hold

/-- The scan is over. -/
theorem SideInv.scanned {i : ℕ} (h : SideInv s tr) (hpc : s.side.arbiter.pc = .scan i)
    (hi : L.numCus ≤ i) :
    SideInv (s.withArbiter { s.side.arbiter with pc := .route } s.ports) tr := by
  refine h.arbiterMove (fun id => ?_) (fun id => ?_) (by simp) (by simp) h.nextCu (by simp)
    fun c hne => ?_
  · simp [MemorySide.reqsFor, MemorySide.forwarding, hpc]
  · simp [MemorySide.respsFor, MemorySide.delivering, MemorySide.responding, hpc]
  · have hle := h.scan i hpc
    have hlt := ahead_lt (h.nextCu (by have := c.isLt; omega)) c.isLt
    rw [distance_scan hpc]
    show ahead L.numCus s.side.arbiter.nextCu c ≤ _
    split <;> omega

/-- No response is there, and the scan begins anew. -/
theorem SideInv.rescan (h : SideInv s tr) (hpc : s.side.arbiter.pc = .route) :
    SideInv (s.withArbiter { s.side.arbiter with pc := .scan 0 } s.ports) tr := by
  refine h.arbiterMove (fun id => ?_) (fun id => ?_) (by simp) (by simp) h.nextCu (by simp)
    fun c hne => ?_
  · simp [MemorySide.reqsFor, MemorySide.forwarding, hpc]
  · simp [MemorySide.respsFor, MemorySide.delivering, MemorySide.responding, hpc]
  · rw [distance_scan (i := 0) rfl, if_pos (Nat.zero_le _)]
    simp [MemArbiter.distance, hpc]

/-- Every step of the arbiter keeps the account. -/
theorem SideInv.arbiter {arb : MemArbiter} {p : ArbiterPorts L.numCus} {ev : List MemEvent}
    (h : SideInv s tr)
    (hs : arbiterStep L.numCus D.reqOut L.depths.memResp s.side.arbiter s.ports =
      some (arb, p, ev)) :
    SideInv (s.withArbiter arb p) (tr ++ ev) := by
  cases arbiterStep_turns hs with
  | miss hpc hi hidx hq =>
    rw [List.append_nil]
    exact h.scanMiss hpc hi hidx hq
  | grant hpc hi hidx hq => exact h.grant hpc hi hidx hq
  | scanned hpc hi =>
    rw [List.append_nil]
    exact h.scanned hpc hi
  | forward hpc =>
    rw [List.append_nil]
    exact h.forwarded hpc
  | quiet hpc =>
    rw [List.append_nil]
    exact h.rescan hpc
  | route hpc hq =>
    rw [List.append_nil]
    exact h.routed hpc hq
  | deliver hpc hidx =>
    rw [List.append_nil]
    exact h.delivered hpc hidx

/-! ## Steps of the memory pipeline -/

theorem handleRequest_ids (σ : MemState) (req : MemReq) :
    (handleRequest σ req).1.cuId = req.cuId ∧ (handleRequest σ req).1.warpId = req.warpId ∧
      (handleRequest σ req).1.laneId = req.laneId := by
  unfold handleRequest
  dsimp only
  split
  · split <;> exact ⟨rfl, rfl, rfl⟩
  · split <;> exact ⟨rfl, rfl, rfl⟩

/-- Every step of `memory_pipeline` keeps the account. -/
theorem SideInv.memory {side : MemorySide} {ev : List MemEvent} (h : SideInv s tr)
    (hs : s.side.memoryStep D = some (side, ev)) : SideInv { s with side := side } (tr ++ ev) := by
  unfold MemorySide.memoryStep at hs
  split at hs
  · next hproc =>
    split at hs
    · exact absurd hs (by simp)
    · next req rest hq =>
      obtain ⟨rfl, rfl⟩ := Prod.mk.inj (Option.some.inj hs)
      obtain ⟨hid, -, -⟩ := handleRequest_ids s.side.mem req
      obtain ⟨c₀, hc₀⟩ := h.reqOut req (by rw [hq]; exact List.mem_cons_self)
      set resp := (handleRequest s.side.mem req).1 with hresp
      set side' : MemorySide := { s.side with
        reqOut := rest, process := .respond resp,
        mem := (handleRequest s.side.mem req).2 } with hside
      have hmoves (c : L.Cus) : Moves s { s with side := side' } [.served req resp] c := by
        refine ⟨?_, ?_, by simp⟩
        · by_cases hc : req.cuId = cuId c <;>
            simp [System.pendingReqs, MemorySide.reqsFor, MemorySide.forwarding, hq, hc, hside]
        · by_cases hc : req.cuId = cuId c <;>
            simp [System.pendingResps, MemorySide.respsFor, MemorySide.delivering,
              MemorySide.responding, hproc, hid, hc, hside]
      have hacc := h.account hmoves
      refine ⟨fun c => (hacc c).1, fun c => (hacc c).2.1, fun c => (hacc c).2.2, h.stamped, h.reqIn,
        h.forward, fun r hr => h.reqOut r (by rw [hq]; exact List.mem_cons_of_mem _ hr),
        fun r hr => ?_, h.respIn, h.deliver, fun r r' hr => ?_, h.nextCu, h.scan, fun c n hn => ?_⟩
      · obtain rfl : resp = r := by simpa [hside] using hr
        exact ⟨c₀, hid.trans hc₀⟩
      · obtain hr | hr := List.mem_append.1 hr
        · exact h.served r r' hr
        · obtain ⟨rfl, -⟩ : r = req ∧ r' = resp := by simpa using hr
          exact ⟨c₀, hc₀⟩
      · rw [passed_append] at hn
        exact h.passed c n hn
  · next resp hproc =>
    obtain ⟨queue, hq, heq⟩ := Option.map_eq_some_iff.1 hs
    obtain ⟨rfl, rfl⟩ := Prod.mk.inj heq
    obtain rfl := push_eq_some hq
    rw [List.append_nil]
    set side' : MemorySide := { s.side with
      respIn := s.side.respIn ++ [resp], process := .ready } with hside
    have hresps (c : L.Cus) : ({ s with side := side' } : System L).pendingResps c =
        s.pendingResps c := by
      by_cases hc : resp.cuId = cuId c <;>
        simp [System.pendingResps, MemorySide.respsFor, MemorySide.delivering,
          MemorySide.responding, hproc, hc, hside]
    refine ⟨h.reqs, fun c => ?_, fun c => ?_, h.stamped, h.reqIn, h.forward, h.reqOut,
      by simp [hside],
      fun r hr => ?_, h.deliver, h.served, h.nextCu, h.scan, h.passed⟩
    · rw [hresps]
      exact h.resps c
    · rw [hresps]
      exact h.outstanding c
    · obtain hr | hr := List.mem_append.1 hr
      · exact h.respIn r hr
      · rw [List.mem_singleton.1 hr]
        exact h.respond resp hproc

/-! ## Runs -/

@[simp] theorem memEvents_append (tr ev : List TopEvent) :
    memEvents (tr ++ ev) = memEvents tr ++ memEvents ev := List.filterMap_append ..

@[simp] theorem memEvents_mem (ev : List MemEvent) : memEvents (ev.map .mem) = ev := by
  unfold memEvents
  rw [List.filterMap_map]
  exact List.filterMap_some

@[simp] theorem memEvents_warp (ev : List Event) : memEvents (ev.map .warp) = [] := by
  unfold memEvents
  rw [List.filterMap_map]
  exact List.filterMap_none _

theorem SideInv.step {s' : System L} {a : SystemAction L} {tr ev : List TopEvent}
    (h : SideInv s (memEvents tr)) (hs : s.step D a = some (s', ev)) :
    SideInv s' (memEvents (tr ++ ev)) := by
  rw [memEvents_append]
  cases a with
  | arbiter =>
    obtain ⟨⟨arb, p, ev⟩, hr, heq⟩ := Option.map_eq_some_iff.1 hs
    obtain ⟨rfl, rfl⟩ := Prod.mk.inj heq
    rw [memEvents_mem]
    exact h.arbiter hr
  | memory =>
    obtain ⟨⟨side, ev⟩, hr, heq⟩ := Option.map_eq_some_iff.1 hs
    obtain ⟨rfl, rfl⟩ := Prod.mk.inj heq
    rw [memEvents_mem]
    exact h.memory hr
  | gpu a =>
    have hplain {gpu : Gpu L} {ev' : List Event} (hsame : SameStreams s.gpu gpu) :
        SideInv { s with gpu := gpu }
          (memEvents tr ++ memEvents (ev'.map .warp ++ ([] : List MemEvent).map .mem)) := by
      rw [memEvents_append, memEvents_warp, memEvents_mem, List.append_nil, List.append_nil]
      exact h.gpu hsame
    cases a with
    | takeRequest c => exact absurd hs (by simp [System.step])
    | giveResponse c resp => exact absurd hs (by simp [System.step])
    | setStart b =>
      obtain ⟨rfl, rfl⟩ := Prod.mk.inj (Option.some.inj hs)
      exact hplain ⟨fun _ => rfl, fun _ => rfl, fun _ => rfl, fun _ => id⟩
    | programLoaded c =>
      obtain ⟨r, hr, heq⟩ := Option.map_eq_some_iff.1 hs
      obtain ⟨rfl, rfl⟩ := Prod.mk.inj heq
      unfold Gpu.step at hr
      dsimp only at hr
      split at hr
      · obtain rfl := Option.some.inj hr
        exact hplain (.of_setCu rfl rfl rfl id)
      · exact absurd hr (by simp)
    | scheduler c =>
      obtain ⟨r, hr, heq⟩ := Option.map_eq_some_iff.1 hs
      obtain ⟨rfl, rfl⟩ := Prod.mk.inj heq
      obtain ⟨⟨cu, ev⟩, hr', rfl⟩ := Option.map_eq_some_iff.1 hr
      obtain ⟨h1, h2, h3⟩ := schedulerStep_frame hr'
      exact hplain (.of_setCu h1 h2 (by rw [h3]) (by rw [h3]; exact id))
    | pipeline c =>
      obtain ⟨r, hr, heq⟩ := Option.map_eq_some_iff.1 hs
      obtain ⟨rfl, rfl⟩ := Prod.mk.inj heq
      obtain ⟨⟨cu, ev⟩, hr', rfl⟩ := Option.map_eq_some_iff.1 hr
      rw [memEvents_append, memEvents_warp, memEvents_mem, List.nil_append]
      exact h.pipeline hr'
    | barrier =>
      obtain ⟨r, hr, heq⟩ := Option.map_eq_some_iff.1 hs
      obtain ⟨rfl, rfl⟩ := Prod.mk.inj heq
      obtain ⟨⟨core, ports⟩, -, rfl⟩ := Option.map_eq_some_iff.1 hr
      exact hplain ⟨fun _ => rfl, fun _ => rfl, fun _ => rfl, fun _ => id⟩

theorem SideInv.run {P : System L → Prop} {tr : List TopEvent} (h : (system L D).Run P s tr) :
    SideInv s (memEvents tr) :=
  h.invariant (fun s tr => SideInv s (memEvents tr)) (fun _ hreset _ => .reset hreset)
    fun _ _ _ _ _ _ hinv hs _ => hinv.step hs

end Steps

/-! ## What the arbiter guarantees -/

/-- Nothing of a CU is lost, doubled or misrouted, and its waiting request is passed over at most
`NUM_CUS - 1` times. -/
structure Arbitrated {L : Launch} (s : System L) (tr : List MemEvent) (c : L.Cus) : Prop where
  /-- The requests served are the first ones issued, in order; the others are on their way. -/
  served : issuedBy tr c = (servedFor tr (cuId c)).map Prod.fst ++ s.pendingReqs c
  /-- The responses received are the first ones served, in order; the others are on their way. -/
  received : (servedFor tr (cuId c)).map Prod.snd = receivedBy tr c ++ s.pendingResps c
  /-- A CU that waits for no response has had all of its requests answered. -/
  settled : (s.gpu.cus c).pipeline.isWaiting = false →
    issuedBy tr c = (servedFor tr (cuId c)).map Prod.fst ∧
      receivedBy tr c = (servedFor tr (cuId c)).map Prod.snd
  bypass : ∀ pre req mid, tr = pre ++ .issued c req :: mid → (∀ r, .granted c r ∉ mid) →
    mid.countP (MemEvent.passes c) ≤ L.numCus - 1

theorem SideInv.toArbitrated {L : Launch} {s : System L} {tr : List MemEvent} (h : SideInv s tr)
    (c : L.Cus) : Arbitrated s tr c where
  served := h.reqs c
  received := h.resps c
  settled := by
    intro hw
    have hout := h.outstanding c
    rw [hw] at hout
    simp only [Bool.false_eq_true, if_false, Nat.add_eq_zero_iff, List.length_eq_zero_iff] at hout
    have hreqs := h.reqs c
    have hresps := h.resps c
    rw [hout.1, List.append_nil] at hreqs
    rw [hout.2, List.append_nil] at hresps
    exact ⟨hreqs, hresps.symm⟩
  bypass := by
    rintro pre req mid rfl hmid
    have hfold : Hls.passed (pre ++ .issued c req :: mid) c =
        some ((Hls.passed pre c).getD 0 + mid.countP (MemEvent.passes c)) := by
      unfold Hls.passed
      rw [List.foldl_append, List.foldl_cons]
      rw [passedOver, if_pos rfl]
      exact foldl_passedOver hmid _
    have := (h.passed c _ hfold).2
    omega

/-- In every run of the flat top every request is served once and in the order of its CU, every
response reaches the CU of its request, and a waiting request is passed over at most `NUM_CUS - 1`
times. -/
theorem arbitrated {L : Launch} {D : SideDepths} {s : System L} {tr : List TopEvent}
    (h : (system L D).Run (fun _ => True) s tr) :
    (∀ c, Arbitrated s (memEvents tr) c) ∧
      ∀ req resp, .served req resp ∈ memEvents tr → ∃ c : L.Cus, req.cuId = cuId c :=
  ⟨(SideInv.run h).toArbitrated, (SideInv.run h).served⟩

/-! ### Two CUs that load -/

/-- Two CUs of one slot, each with a warp that loads word 0. -/
def twoLoads : Launch where
  toGpuSize := twoCus
  depths := ⟨2, 2, 2, 2, 1, 2, 1⟩
  fp := ⟨fun a _ => a, fun a _ => a, fun a _ => a, fun a _ _ => a⟩
  vectorOps := true
  program := programStore [encodeInstruction .lw 1 0 0 0, encodeInstruction .halt 0 0 0 0]
  programLen := 2
  totalWarps := 2
  warpIdOffset := 0

/-- Reset, with `start` high, empty caches and all memory zero. -/
def startedSystem (L : Launch) : System L where
  gpu := ⟨true, fun _ => Gpu.resetCu fun _ _ _ => 0, {}⟩
  side := ⟨{}, [], [], .ready, (emptySubsystem, fun _ => 0)⟩

/-- Every process of the flat top takes a step. -/
def systemRound : List (SystemAction twoLoads) :=
  [.gpu (.scheduler (0 : Fin 2)), .gpu (.pipeline (0 : Fin 2)), .gpu (.scheduler (1 : Fin 2)),
    .gpu (.pipeline (1 : Fin 2)), .gpu .barrier, .arbiter, .arbiter]

/-- Both pipelines issue a request, and the first one is served. -/
def twoLoadsRun : Option (System twoLoads × List TopEvent) :=
  (system twoLoads ⟨1, 1⟩).exec (fun _ => True) (startedSystem twoLoads)
    ([.gpu (.programLoaded (0 : Fin 2)), .gpu (.programLoaded (1 : Fin 2))] ++
      systemRound ++ systemRound ++ systemRound ++ systemRound ++
      [.arbiter, .arbiter, .memory, .memory, .arbiter, .arbiter, .gpu (.pipeline (0 : Fin 2))])

theorem arbitrated_twoLoads : ∃ r, twoLoadsRun = some r ∧
    receivedBy (memEvents r.2) 0 ≠ [] ∧ ∀ c, Arbitrated r.1 (memEvents r.2) c := by
  have hrun : twoLoadsRun.any (fun r => receivedBy (memEvents r.2) 0 ≠ []) = true := by
    decide +kernel
  obtain ⟨r, hr, hrecv⟩ := (Option.any_eq_true _ _).1 hrun
  have hinit : (system twoLoads ⟨1, 1⟩).Run (fun _ => True) (startedSystem twoLoads) [] :=
    .init ⟨⟨rfl, fun _ => ⟨_, rfl⟩⟩, rfl, rfl, rfl, rfl⟩ trivial
  exact ⟨r, hr, by simpa using hrecv, (arbitrated (hinit.exec _ hr)).1⟩

end RiscvGpgpu.Hls
