import RiscvGpgpu.Hls.CuCluster
import RiscvGpgpu.Hls.MemArbitration
import RiscvGpgpu.Hls.CacheInvariant

/-!
# Routing in the clustered top

A response goes back by the CU number it carries: `superMemArbiter` compares it with `CLUSTER_SIZE`
and the arbiter of the cluster takes a remainder. `RouteInv` follows the requests and responses of
every CU; it needs only that the two tests undo the numbering of the CUs that have a pipeline,
which `routed_iff` turns into a bound on `NUM_CUS`.
-/

namespace RiscvGpgpu.Hls

namespace ClusterEvent

variable {B : ClusteredBuild}

def issuedBy? (i : B.CuIndex) : ClusterEvent B → Option MemReq
  | issued j req => if j = i then some req else none
  | _ => none

def exchange? : ClusterEvent B → Option (MemReq × MemResp)
  | served req resp => some (req, resp)
  | _ => none

def routedTo? (k : Fin B.numClusters) : ClusterEvent B → Option MemResp
  | routed j resp => if j = k then some resp else none
  | _ => none

def receivedBy? (i : B.CuIndex) : ClusterEvent B → Option MemResp
  | received j resp => if j = i then some resp else none
  | _ => none

variable (tr : List (ClusterEvent B))

/-- The requests a CU has issued, in order. -/
def issuedReqs (i : B.CuIndex) : List MemReq := tr.filterMap (issuedBy? i)

/-- The requests the memory pipeline has served, in order, with their responses. -/
def exchanges : List (MemReq × MemResp) := tr.filterMap exchange?

/-- The responses written to a cluster, in order. -/
def routedResps (k : Fin B.numClusters) : List MemResp := tr.filterMap (routedTo? k)

/-- The responses a CU has received, in order. -/
def receivedResps (i : B.CuIndex) : List MemResp := tr.filterMap (receivedBy? i)

/-- The exchanges whose owner is in a set of CUs. -/
def owned (owner : List B.CuIndex) (p : B.CuIndex → Bool) : List (MemReq × MemResp) :=
  (((exchanges tr).zip owner).filter fun x => p x.2).map Prod.fst

/-- With `owner` as the issuers of the requests served: a CU's requests are served in the order of
issue, and the responses to them go to its cluster and to it, and to nobody else, in that order. -/
structure RoutedBack (owner : List B.CuIndex) : Prop where
  length_eq : owner.length = (exchanges tr).length
  served : ∀ i, (owned tr owner fun j => j = i).map Prod.fst <+: issuedReqs tr i
  routed : ∀ k, routedResps tr k <+: (owned tr owner fun j => j.1 = k).map Prod.snd
  received : ∀ i, receivedResps tr i <+: (owned tr owner fun j => j = i).map Prod.snd

end ClusterEvent

def ArbiterPc.forwarding : ArbiterPc → List MemReq
  | forward _ req => [req]
  | _ => []

def ArbiterPc.delivering : ArbiterPc → List MemResp
  | deliver resp => [resp]
  | _ => []

def MemoryProcess.responding : MemoryProcess → List MemResp
  | respond resp => [resp]
  | ready => []

section Held

variable (idx i : ℕ) (req : MemReq) (resp : MemResp)

@[simp] theorem ArbiterPc.forwarding_scan : (scan i).forwarding = [] := rfl

@[simp] theorem ArbiterPc.forwarding_forward : (forward idx req).forwarding = [req] := rfl

@[simp] theorem ArbiterPc.forwarding_deliver : (deliver resp).forwarding = [] := rfl

@[simp] theorem ArbiterPc.delivering_scan : (scan i).delivering = [] := rfl

@[simp] theorem ArbiterPc.delivering_deliver : (deliver resp).delivering = [resp] := rfl

@[simp] theorem MemoryProcess.responding_ready : ready.responding = [] := rfl

@[simp] theorem MemoryProcess.responding_respond : (respond resp).responding = [resp] := rfl

end Held

namespace ClusterSide

variable {B : ClusteredBuild} (s : ClusterSide B)

/-- No request and no response is on its way. -/
structure Drained : Prop where
  cuMemReq : ∀ i, s.cuMemReq i = []
  cuMemResp : ∀ i, s.cuMemResp i = []
  arbiter : ∀ k, (s.arbiterPc k).forwarding = [] ∧ (s.arbiterPc k).delivering = []
  cluster : ∀ k, s.clusterReq k = [] ∧ s.clusterResp k = []
  superArbiter : s.side.arbiter.pc.forwarding = [] ∧ s.side.arbiter.pc.delivering = []
  memory : s.side.reqOut = [] ∧ s.side.respIn = [] ∧ s.side.process.responding = []

/-- The requests on their way from a cluster, oldest first. -/
def reqPath (k : Fin B.numClusters) : List MemReq :=
  s.side.reqOut ++ s.side.arbiter.pc.forwarding ++ s.clusterReq k ++ (s.arbiterPc k).forwarding

/-- The responses that `superMemArbiter` has not written yet, oldest first. -/
def superPath : List MemResp :=
  s.side.arbiter.pc.delivering ++ s.side.respIn ++ s.side.process.responding

/-- The responses on their way to a cluster, oldest first. -/
def respPath (k : Fin B.numClusters) : List MemResp :=
  (s.arbiterPc k).delivering ++ s.clusterResp k ++ s.superPath

/-- The requests of a CU that are not served yet, oldest first. -/
def pendingReqs (i : B.CuIndex) : List MemReq :=
  (s.reqPath i.1).filter (fun req => B.destination req.cuId = i) ++ s.cuMemReq i

/-- The responses to a CU that it has not read yet, oldest first. -/
def pendingResps (i : B.CuIndex) : List MemResp :=
  s.cuMemResp i ++ (s.respPath i.1).filter fun resp => B.destination resp.cuId = i

end ClusterSide

/-! ## Steps of an arbiter -/

/-- What a step of an arbiter moves. -/
inductive ArbiterMove {N : ℕ} (arb arb' : MemArbiter) (p p' : ArbiterPorts N) : Prop where
  | idle (hp : p' = p) (hfwd : arb'.pc.forwarding = arb.pc.forwarding)
      (hdel : arb'.pc.delivering = arb.pc.delivering)
  | grant (idx : Fin N) (req : MemReq) (rest : List MemReq) (hq : p.reqIn idx = req :: rest)
      (hp : p' = { p with reqIn := Function.update p.reqIn idx rest })
      (hfwd : arb.pc.forwarding = [] ∧ arb'.pc.forwarding = [req])
      (hdel : arb.pc.delivering = [] ∧ arb'.pc.delivering = [])
  | forward (req : MemReq) (hp : p' = { p with reqOut := p.reqOut ++ [req] })
      (hfwd : arb.pc.forwarding = [req] ∧ arb'.pc.forwarding = [])
      (hdel : arb.pc.delivering = [] ∧ arb'.pc.delivering = [])
  | route (resp : MemResp) (rest : List MemResp) (hq : p.respIn = resp :: rest)
      (hp : p' = { p with respIn := rest })
      (hfwd : arb.pc.forwarding = [] ∧ arb'.pc.forwarding = [])
      (hdel : arb.pc.delivering = [] ∧ arb'.pc.delivering = [resp])
  | deliver (idx : Fin N) (resp : MemResp) (hpc : arb.pc = .deliver resp)
      (hidx : (idx : ℕ) = resp.cuId.toNat % N)
      (hp : p' = { p with respOut := Function.update p.respOut idx (p.respOut idx ++ [resp]) })
      (hfwd : arb.pc.forwarding = [] ∧ arb'.pc.forwarding = [])
      (hdel : arb.pc.delivering = [resp] ∧ arb'.pc.delivering = [])

theorem arbiterStep_moves {N reqDepth respDepth : ℕ} {arb arb' : MemArbiter}
    {p p' : ArbiterPorts N} {ev : List MemEvent}
    (h : arbiterStep N reqDepth respDepth arb p = some (arb', p', ev)) :
    ArbiterMove arb arb' p p' := by
  cases arbiterStep_turns h with
  | grant hpc _ _ hq => exact .grant _ _ _ hq rfl ⟨by rw [hpc]; rfl, rfl⟩ ⟨by rw [hpc]; rfl, rfl⟩
  | forward hpc => exact .forward _ rfl ⟨by rw [hpc]; rfl, rfl⟩ ⟨by rw [hpc]; rfl, rfl⟩
  | miss hpc | scanned hpc | quiet hpc =>
    exact .idle rfl (by rw [hpc]; rfl) (by rw [hpc]; rfl)
  | route hpc hq => exact .route _ _ hq rfl ⟨by rw [hpc]; rfl, rfl⟩ ⟨by rw [hpc]; rfl, rfl⟩
  | deliver hpc hidx =>
    exact .deliver _ _ hpc hidx.symm rfl ⟨by rw [hpc]; rfl, rfl⟩ ⟨by rw [hpc]; rfl, rfl⟩

/-! ## The invariant -/

namespace ClusterEvent

variable {B : ClusteredBuild} (tr : List (ClusterEvent B)) (req : MemReq) (resp : MemResp)

/-- The exchanges of the requests whose CU number leads to a set of CUs. -/
def exchangesFor (p : B.CuIndex → Bool) : List (MemReq × MemResp) :=
  (exchanges tr).filter fun x => p (B.destination x.1.cuId)

@[simp] theorem issuedReqs_append (ev : List (ClusterEvent B)) (i : B.CuIndex) :
    issuedReqs (tr ++ ev) i = issuedReqs tr i ++ issuedReqs ev i := List.filterMap_append ..

@[simp] theorem routedResps_append (ev : List (ClusterEvent B)) (k : Fin B.numClusters) :
    routedResps (tr ++ ev) k = routedResps tr k ++ routedResps ev k := List.filterMap_append ..

@[simp] theorem receivedResps_append (ev : List (ClusterEvent B)) (i : B.CuIndex) :
    receivedResps (tr ++ ev) i = receivedResps tr i ++ receivedResps ev i :=
      List.filterMap_append ..

@[simp] theorem exchangesFor_append (ev : List (ClusterEvent B)) (p : B.CuIndex → Bool) :
    exchangesFor (tr ++ ev) p = exchangesFor tr p ++ exchangesFor ev p := by
  unfold exchangesFor exchanges
  rw [List.filterMap_append, List.filter_append]

section Singletons

variable (i j : B.CuIndex) (k k' : Fin B.numClusters) (p : B.CuIndex → Bool)

@[simp] theorem issuedReqs_issued :
    issuedReqs [.issued j req] i = if j = i then [req] else [] := by
  unfold issuedReqs
  split <;> simp_all [issuedBy?]

@[simp] theorem issuedReqs_served : issuedReqs [.served req resp] i = [] := rfl

@[simp] theorem issuedReqs_routed : issuedReqs [.routed k resp] i = [] := rfl

@[simp] theorem issuedReqs_received : issuedReqs [.received j resp] i = [] := rfl

@[simp] theorem exchangesFor_issued : exchangesFor [.issued j req] p = [] := rfl

@[simp] theorem exchangesFor_served : exchangesFor [.served req resp] p =
    if p (B.destination req.cuId) then [(req, resp)] else [] := by
  unfold exchangesFor exchanges
  split <;> simp_all [exchange?]

@[simp] theorem exchangesFor_routed : exchangesFor [.routed k resp] p = [] := rfl

@[simp] theorem exchangesFor_received : exchangesFor [.received j resp] p = [] := rfl

@[simp] theorem routedResps_issued : routedResps [.issued j req] k = [] := rfl

@[simp] theorem routedResps_served : routedResps [.served req resp] k = [] := rfl

@[simp] theorem routedResps_routed :
    routedResps [.routed k' resp] k = if k' = k then [resp] else [] := by
  unfold routedResps
  split <;> simp_all [routedTo?]

@[simp] theorem routedResps_received : routedResps [.received j resp] k = [] := rfl

@[simp] theorem receivedResps_issued : receivedResps [.issued j req] i = [] := rfl

@[simp] theorem receivedResps_served : receivedResps [.served req resp] i = [] := rfl

@[simp] theorem receivedResps_routed : receivedResps [.routed k resp] i = [] := rfl

@[simp] theorem receivedResps_received :
    receivedResps [.received j resp] i = if j = i then [resp] else [] := by
  unfold receivedResps
  split <;> simp_all [receivedBy?]

end Singletons

end ClusterEvent

open ClusterEvent

/-- Every request and every response is where its CU number leads. -/
structure RouteInv {B : ClusteredBuild} (s : ClusterSide B) (tr : List (ClusterEvent B)) :
    Prop where
  reqs : ∀ i, issuedReqs tr i = (exchangesFor tr fun j => j = i).map Prod.fst ++ s.pendingReqs i
  resps : ∀ i, (exchangesFor tr fun j => j = i).map Prod.snd =
    receivedResps tr i ++ s.pendingResps i
  routed : ∀ k, (exchangesFor tr fun j => j.1 = k).map Prod.snd =
    routedResps tr k ++ s.superPath.filter fun resp => B.clusterOf resp.cuId = k
  reqIn : ∀ i, ∀ req ∈ s.cuMemReq i, B.destination req.cuId = i
  clusterReq : ∀ k, ∀ req ∈ s.clusterReq k ++ (s.arbiterPc k).forwarding, B.clusterOf req.cuId = k
  clusterResp : ∀ k, ∀ resp ∈ (s.arbiterPc k).delivering ++ s.clusterResp k,
    B.clusterOf resp.cuId = k

section Steps

variable {B : ClusteredBuild} {s : ClusterSide B} {tr : List (ClusterEvent B)}

theorem RouteInv.reset (h : s.IsReset) : RouteInv s [] := by
  obtain ⟨mem, rfl⟩ := h
  refine ⟨fun i => ?_, fun i => ?_, fun k => ?_, by simp, by simp [ArbiterPc.forwarding],
    by simp [ArbiterPc.delivering]⟩
  · simp [issuedReqs, exchangesFor, exchanges, ClusterSide.pendingReqs, ClusterSide.reqPath,
      ArbiterPc.forwarding]
  · simp [receivedResps, exchangesFor, exchanges, ClusterSide.pendingResps, ClusterSide.respPath,
      ClusterSide.superPath, ArbiterPc.delivering, MemoryProcess.responding]
  · simp [routedResps, exchangesFor, exchanges, ClusterSide.superPath, ArbiterPc.delivering,
      MemoryProcess.responding]

/-- A step without an event that leaves the accounts of all CUs keeps the invariant. -/
theorem RouteInv.of_accounts {s' : ClusterSide B} (h : RouteInv s tr)
    (hreqs : ∀ i, s'.pendingReqs i = s.pendingReqs i)
    (hresps : ∀ i, s'.pendingResps i = s.pendingResps i) (hsuper : s'.superPath = s.superPath)
    (hreqIn : ∀ i, ∀ req ∈ s'.cuMemReq i, B.destination req.cuId = i)
    (hclusterReq : ∀ k, ∀ req ∈ s'.clusterReq k ++ (s'.arbiterPc k).forwarding,
      B.clusterOf req.cuId = k)
    (hclusterResp : ∀ k, ∀ resp ∈ (s'.arbiterPc k).delivering ++ s'.clusterResp k,
      B.clusterOf resp.cuId = k) : RouteInv s' tr where
  reqs i := by rw [hreqs]; exact h.reqs i
  resps i := by rw [hresps]; exact h.resps i
  routed k := by rw [hsuper]; exact h.routed k
  reqIn := hreqIn
  clusterReq := hclusterReq
  clusterResp := hclusterResp

/-! ## Steps of the arbiter of a cluster -/

section Arbiter

variable {k : Fin B.numClusters} {arb : MemArbiter} {p : ArbiterPorts B.clusterSize}

theorem pendingReqs_withArbiter (j : Fin B.clusterSize) :
    (s.withArbiter k arb p).pendingReqs (k, j) =
      (s.side.reqOut ++ s.side.arbiter.pc.forwarding ++ p.reqOut ++ arb.pc.forwarding).filter
        (fun req => B.destination req.cuId = (k, j)) ++ p.reqIn j := by
  simp [ClusterSide.pendingReqs, ClusterSide.reqPath, ClusterSide.withArbiter]

theorem pendingResps_withArbiter (j : Fin B.clusterSize) :
    (s.withArbiter k arb p).pendingResps (k, j) =
      p.respOut j ++ (arb.pc.delivering ++ p.respIn ++ s.superPath).filter
        fun resp => B.destination resp.cuId = (k, j) := by
  simp [ClusterSide.pendingResps, ClusterSide.respPath, ClusterSide.withArbiter,
    ClusterSide.superPath]

theorem pending_withArbiter_of_ne {i : B.CuIndex} (hi : i.1 ≠ k) :
    (s.withArbiter k arb p).pendingReqs i = s.pendingReqs i ∧
      (s.withArbiter k arb p).pendingResps i = s.pendingResps i := by
  simp [ClusterSide.pendingReqs, ClusterSide.reqPath, ClusterSide.pendingResps,
    ClusterSide.respPath, ClusterSide.withArbiter, ClusterSide.superPath, hi]

/-- A step of the arbiter of a cluster keeps the invariant if it does within the cluster. -/
theorem RouteInv.withArbiter (h : RouteInv s tr)
    (hreqs : ∀ j, (s.withArbiter k arb p).pendingReqs (k, j) = s.pendingReqs (k, j))
    (hresps : ∀ j, (s.withArbiter k arb p).pendingResps (k, j) = s.pendingResps (k, j))
    (hreqIn : ∀ j, ∀ req ∈ p.reqIn j, B.destination req.cuId = (k, j))
    (hclusterReq : ∀ req ∈ p.reqOut ++ arb.pc.forwarding, B.clusterOf req.cuId = k)
    (hclusterResp : ∀ resp ∈ arb.pc.delivering ++ p.respIn, B.clusterOf resp.cuId = k) :
    RouteInv (s.withArbiter k arb p) tr := by
  refine h.of_accounts (fun i => ?_) (fun i => ?_) rfl (fun i => ?_) (fun k' => ?_) fun k' => ?_
  · by_cases hi : i.1 = k
    · obtain ⟨_, j⟩ := i
      subst hi
      exact hreqs j
    · exact (pending_withArbiter_of_ne hi).1
  · by_cases hi : i.1 = k
    · obtain ⟨_, j⟩ := i
      subst hi
      exact hresps j
    · exact (pending_withArbiter_of_ne hi).2
  · by_cases hi : i.1 = k
    · obtain ⟨_, j⟩ := i
      subst hi
      simpa [ClusterSide.withArbiter] using hreqIn j
    · simpa [ClusterSide.withArbiter, hi] using h.reqIn i
  · by_cases hk : k' = k
    · subst hk
      simpa [ClusterSide.withArbiter] using hclusterReq
    · simpa [ClusterSide.withArbiter, hk] using h.clusterReq k'
  · by_cases hk : k' = k
    · subst hk
      simpa [ClusterSide.withArbiter] using hclusterResp
    · simpa [ClusterSide.withArbiter, hk] using h.clusterResp k'

theorem RouteInv.arbiter (h : RouteInv s tr)
    (hmove : ArbiterMove ⟨s.arbiterPc k, s.nextCu⟩ arb (s.ports k) p) :
    RouteInv (s.withArbiter k arb p) tr := by
  have hreqIn (j : Fin B.clusterSize) := h.reqIn (k, j)
  have hclusterReq := h.clusterReq k
  have hclusterResp := h.clusterResp k
  cases hmove with
  | idle hp hfwd hdel =>
    subst hp
    dsimp only at hfwd hdel
    refine h.withArbiter (fun j => ?_) (fun j => ?_) hreqIn ?_ ?_
    · rw [pendingReqs_withArbiter, hfwd]
      rfl
    · rw [pendingResps_withArbiter, hdel]
      rfl
    · rw [hfwd]
      exact hclusterReq
    · rw [hdel]
      exact hclusterResp
  | grant idx req rest hq hp hfwd hdel =>
    subst hp
    dsimp only [ClusterSide.ports] at hq hfwd hdel
    have hdest : B.destination req.cuId = (k, idx) :=
      hreqIn idx req (by rw [hq]; exact List.mem_cons_self)
    refine h.withArbiter (fun j => ?_) (fun j => ?_) (fun j => ?_) ?_ ?_
    · rw [pendingReqs_withArbiter]
      by_cases hj : j = idx
      · subst hj
        simp [ClusterSide.pendingReqs, ClusterSide.reqPath, ClusterSide.ports, hq, hfwd, hdest]
      · simp [ClusterSide.pendingReqs, ClusterSide.reqPath, ClusterSide.ports, hfwd, hdest, hj,
          Ne.symm hj]
    · rw [pendingResps_withArbiter]
      simp [ClusterSide.pendingResps, ClusterSide.respPath, ClusterSide.ports, hdel]
    · by_cases hj : j = idx
      · subst hj
        intro r hr
        exact hreqIn j r (by rw [hq]; exact List.mem_cons_of_mem _ (by simpa using hr))
      · simpa [hj, ClusterSide.ports] using hreqIn j
    · rw [hfwd.2]
      intro r hr
      obtain hr | hr := List.mem_append.1 hr
      · exact hclusterReq r (List.mem_append_left _ hr)
      · obtain rfl := List.mem_singleton.1 hr
        exact congrArg Prod.fst hdest
    · rw [hdel.2, ← hdel.1]
      exact hclusterResp
  | forward req hp hfwd hdel =>
    subst hp
    dsimp only [ClusterSide.ports] at hfwd hdel
    refine h.withArbiter (fun j => ?_) (fun j => ?_) hreqIn ?_ ?_
    · rw [pendingReqs_withArbiter]
      simp [ClusterSide.pendingReqs, ClusterSide.reqPath, ClusterSide.ports, hfwd]
    · rw [pendingResps_withArbiter]
      simp [ClusterSide.pendingResps, ClusterSide.respPath, ClusterSide.ports, hdel]
    · rw [hfwd.1] at hclusterReq
      rw [hfwd.2, List.append_nil]
      exact hclusterReq
    · rw [hdel.2, ← hdel.1]
      exact hclusterResp
  | route resp rest hq hp hfwd hdel =>
    subst hp
    dsimp only [ClusterSide.ports] at hq hfwd hdel
    refine h.withArbiter (fun j => ?_) (fun j => ?_) hreqIn ?_ ?_
    · rw [pendingReqs_withArbiter]
      simp [ClusterSide.pendingReqs, ClusterSide.reqPath, ClusterSide.ports, hfwd]
    · rw [pendingResps_withArbiter]
      simp [ClusterSide.pendingResps, ClusterSide.respPath, ClusterSide.ports, hq, hdel]
    · rw [hfwd.2, ← hfwd.1]
      exact hclusterReq
    · rw [hdel.1, hq] at hclusterResp
      rw [hdel.2]
      exact hclusterResp
  | deliver idx resp hpc hidx hp hfwd hdel =>
    subst hp
    dsimp only [ClusterSide.ports] at hpc hfwd hdel
    have hcluster : B.clusterOf resp.cuId = k :=
      hclusterResp resp (by rw [hpc]; exact List.mem_append_left _ (List.mem_singleton_self _))
    have hdest : B.destination resp.cuId = (k, idx) :=
      Prod.ext hcluster (Fin.ext hidx.symm)
    refine h.withArbiter (fun j => ?_) (fun j => ?_) hreqIn ?_ ?_
    · rw [pendingReqs_withArbiter]
      simp [ClusterSide.pendingReqs, ClusterSide.reqPath, ClusterSide.ports, hfwd]
    · rw [pendingResps_withArbiter]
      by_cases hj : j = idx
      · subst hj
        simp [ClusterSide.pendingResps, ClusterSide.respPath, ClusterSide.ports, hdel, hdest]
      · simp [ClusterSide.pendingResps, ClusterSide.respPath, ClusterSide.ports, hdel, hdest, hj,
          Ne.symm hj]
    · rw [hfwd.2, ← hfwd.1]
      exact hclusterReq
    · rw [hdel.2]
      exact fun r hr => hclusterResp r (List.mem_append_right _ hr)

end Arbiter

/-! ## Steps of `superMemArbiter` -/

section Super

variable {arb : MemArbiter} {p : ArbiterPorts B.numClusters}

theorem pendingReqs_withSuper (i : B.CuIndex) :
    (s.withSuper arb p).pendingReqs i =
      (p.reqOut ++ arb.pc.forwarding ++ p.reqIn i.1 ++ (s.arbiterPc i.1).forwarding).filter
        (fun req => B.destination req.cuId = i) ++ s.cuMemReq i := rfl

theorem superPath_withSuper : (s.withSuper arb p).superPath =
    arb.pc.delivering ++ p.respIn ++ s.side.process.responding := rfl

theorem pendingResps_withSuper (i : B.CuIndex) :
    (s.withSuper arb p).pendingResps i =
      s.cuMemResp i ++ ((s.arbiterPc i.1).delivering ++ p.respOut i.1 ++
        (arb.pc.delivering ++ p.respIn ++ s.side.process.responding)).filter
          fun resp => B.destination resp.cuId = i := rfl

/-- A number that leads to another cluster does not lead to this CU. -/
theorem destination_ne {id : CuId} {k : Fin B.numClusters} {i : B.CuIndex}
    (hk : B.clusterOf id = k) (hi : i.1 ≠ k) : B.destination id ≠ i := by
  rintro rfl
  exact hi hk

theorem RouteInv.superMove (h : RouteInv s tr)
    (hmove : ArbiterMove s.side.arbiter arb s.superPorts p)
    (hpc : ∀ resp, s.side.arbiter.pc ≠ .deliver resp) : RouteInv (s.withSuper arb p) tr := by
  cases hmove with
  | idle hp hfwd hdel =>
    subst hp
    refine h.of_accounts (fun i => ?_) (fun i => ?_) ?_ h.reqIn h.clusterReq h.clusterResp
    · rw [pendingReqs_withSuper, hfwd]
      rfl
    · rw [pendingResps_withSuper, hdel]
      rfl
    · rw [superPath_withSuper, hdel]
      rfl
  | grant idx req rest hq hp hfwd hdel =>
    subst hp
    dsimp only [ClusterSide.superPorts] at hq
    have hcluster : B.clusterOf req.cuId = idx :=
      h.clusterReq idx req (by rw [hq]; exact List.mem_cons_self)
    refine h.of_accounts (fun i => ?_) (fun i => ?_) ?_ h.reqIn (fun k r hr => ?_) h.clusterResp
    · rw [pendingReqs_withSuper]
      by_cases hi : i.1 = idx
      · subst hi
        simp [ClusterSide.pendingReqs, ClusterSide.reqPath, ClusterSide.superPorts, hq, hfwd]
      · simp [ClusterSide.pendingReqs, ClusterSide.reqPath, ClusterSide.superPorts, hfwd, hi,
          destination_ne hcluster hi]
    · rw [pendingResps_withSuper]
      simp [ClusterSide.pendingResps, ClusterSide.respPath, ClusterSide.superPath,
        ClusterSide.superPorts, hdel]
    · rw [superPath_withSuper]
      simp [ClusterSide.superPath, ClusterSide.superPorts, hdel]
    · by_cases hk : k = idx
      · subst hk
        refine h.clusterReq k r ?_
        rw [hq]
        simp only [ClusterSide.withSuper, Function.update_self] at hr
        exact List.mem_cons_of_mem _ hr
      · refine h.clusterReq k r ?_
        simpa [ClusterSide.withSuper, ClusterSide.superPorts, hk] using hr
  | forward req hp hfwd hdel =>
    subst hp
    refine h.of_accounts (fun i => ?_) (fun i => ?_) ?_ h.reqIn h.clusterReq h.clusterResp
    · rw [pendingReqs_withSuper]
      simp [ClusterSide.pendingReqs, ClusterSide.reqPath, ClusterSide.superPorts, hfwd]
    · rw [pendingResps_withSuper]
      simp [ClusterSide.pendingResps, ClusterSide.respPath, ClusterSide.superPath,
        ClusterSide.superPorts, hdel]
    · rw [superPath_withSuper]
      simp [ClusterSide.superPath, ClusterSide.superPorts, hdel]
  | route resp rest hq hp hfwd hdel =>
    subst hp
    dsimp only [ClusterSide.superPorts] at hq
    refine h.of_accounts (fun i => ?_) (fun i => ?_) ?_ h.reqIn h.clusterReq h.clusterResp
    · rw [pendingReqs_withSuper]
      simp [ClusterSide.pendingReqs, ClusterSide.reqPath, ClusterSide.superPorts, hfwd]
    · rw [pendingResps_withSuper]
      simp [ClusterSide.pendingResps, ClusterSide.respPath, ClusterSide.superPath,
        ClusterSide.superPorts, hq, hdel]
    · rw [superPath_withSuper]
      simp [ClusterSide.superPath, hq, hdel]
  | deliver idx resp hdeliver => exact absurd hdeliver (hpc resp)

/-- The write of a response to a cluster. -/
theorem RouteInv.route (h : RouteInv s tr) {resp : MemResp}
    (hpc : s.side.arbiter.pc = .deliver resp) :
    RouteInv (s.withSuper { s.side.arbiter with pc := .scan 0 }
      { s.superPorts with
        respOut := Function.update s.clusterResp (B.clusterOf resp.cuId)
          (s.clusterResp (B.clusterOf resp.cuId) ++ [resp]) })
      (tr ++ [.routed (B.clusterOf resp.cuId) resp]) := by
  refine ⟨fun i => ?_, fun i => ?_, fun k => ?_, h.reqIn, h.clusterReq, fun k r hr => ?_⟩
  · rw [pendingReqs_withSuper]
    simpa [ClusterSide.superPorts, ClusterSide.pendingReqs, ClusterSide.reqPath, hpc] using h.reqs i
  · rw [pendingResps_withSuper]
    have hresps := h.resps i
    by_cases hi : i.1 = B.clusterOf resp.cuId
    · simpa [ClusterSide.superPorts, ClusterSide.pendingResps, ClusterSide.respPath,
        ClusterSide.superPath, hpc, hi] using hresps
    · have hne := destination_ne rfl hi
      simpa [ClusterSide.superPorts, ClusterSide.pendingResps, ClusterSide.respPath,
        ClusterSide.superPath, hpc, hi, hne] using hresps
  · rw [superPath_withSuper]
    have hrouted := h.routed k
    by_cases hk : B.clusterOf resp.cuId = k
    · simpa [ClusterSide.superPorts, ClusterSide.superPath, hpc, hk] using hrouted
    · simpa [ClusterSide.superPorts, ClusterSide.superPath, hpc, hk] using hrouted
  · by_cases hk : k = B.clusterOf resp.cuId
    · subst hk
      simp only [ClusterSide.withSuper, Function.update_self, ← List.append_assoc] at hr
      obtain hr | hr := List.mem_append.1 hr
      · exact h.clusterResp _ r hr
      · rw [List.mem_singleton.1 hr]
    · refine h.clusterResp k r ?_
      simpa [ClusterSide.withSuper, hk] using hr

theorem RouteInv.superStep {D : SideDepths} {s' : ClusterSide B} {ev : List (ClusterEvent B)}
    (h : RouteInv s tr) (hs : s.superStep D = some (s', ev)) : RouteInv s' (tr ++ ev) := by
  unfold ClusterSide.superStep at hs
  split at hs
  · next resp hpc =>
    obtain ⟨queue, hq, heq⟩ := Option.map_eq_some_iff.1 hs
    obtain rfl := push_eq_some hq
    obtain ⟨rfl, rfl⟩ := Prod.mk.inj heq
    exact h.route hpc
  · next hpc =>
    obtain ⟨⟨arb, p, ev⟩, hr, heq⟩ := Option.map_eq_some_iff.1 hs
    obtain ⟨rfl, rfl⟩ := Prod.mk.inj heq
    rw [List.append_nil]
    exact h.superMove (arbiterStep_moves hr) hpc

end Super

/-! ## Steps of the memory pipeline and of the CUs -/

theorem RouteInv.memory {D : SideDepths} {side : MemorySide} {ev : List MemEvent}
    (h : RouteInv s tr) (hs : s.side.memoryStep D = some (side, ev)) :
    RouteInv { s with side := side } (tr ++ ev.filterMap ClusterSide.servedEvent?) := by
  unfold MemorySide.memoryStep at hs
  split at hs
  · next hproc =>
    split at hs
    · exact absurd hs (by simp)
    · next req rest hq =>
      obtain ⟨rfl, rfl⟩ := Prod.mk.inj (Option.some.inj hs)
      obtain ⟨hid, -, -⟩ := handleRequest_ids s.side.mem req
      refine ⟨fun i => ?_, fun i => ?_, fun k => ?_, h.reqIn, h.clusterReq, h.clusterResp⟩
      · have hreqs := h.reqs i
        by_cases hi : B.destination req.cuId = i <;>
          simpa [ClusterSide.servedEvent?, ClusterSide.pendingReqs, ClusterSide.reqPath, hq,
            hi] using hreqs
      · have hresps := h.resps i
        by_cases hi : B.destination req.cuId = i <;>
          simp [ClusterSide.servedEvent?, ClusterSide.pendingResps, ClusterSide.respPath,
            ClusterSide.superPath, hproc, hid, hi] at hresps ⊢ <;>
          simp [hresps]
      · have hrouted := h.routed k
        by_cases hk : B.clusterOf req.cuId = k <;>
          simp [ClusterSide.servedEvent?, ClusterSide.superPath, hproc, hid, hk,
            ClusteredBuild.destination] at hrouted ⊢ <;>
          simp [hrouted]
  · next resp hproc =>
    obtain ⟨queue, hq, heq⟩ := Option.map_eq_some_iff.1 hs
    obtain ⟨rfl, rfl⟩ := Prod.mk.inj heq
    obtain rfl := push_eq_some hq
    rw [List.filterMap_nil, List.append_nil]
    have hsuper : ({ s with side := { s.side with
        respIn := s.side.respIn ++ [resp], process := .ready } } : ClusterSide B).superPath =
        s.superPath := by
      simp [ClusterSide.superPath, hproc]
    refine h.of_accounts (fun i => rfl) (fun i => ?_) hsuper h.reqIn h.clusterReq h.clusterResp
    unfold ClusterSide.pendingResps ClusterSide.respPath
    rw [hsuper]

theorem RouteInv.receive {s' : ClusterSide B} {i : B.CuIndex} {ev : List (ClusterEvent B)}
    (h : RouteInv s tr) (hs : s.receive i = some (s', ev)) : RouteInv s' (tr ++ ev) := by
  unfold ClusterSide.receive at hs
  split at hs
  · exact absurd hs (by simp)
  · next resp rest hq =>
    obtain ⟨rfl, rfl⟩ := Prod.mk.inj (Option.some.inj hs)
    refine ⟨fun j => ?_, fun j => ?_, fun k => ?_, h.reqIn, h.clusterReq, h.clusterResp⟩
    · simpa [ClusterSide.pendingReqs, ClusterSide.reqPath] using h.reqs j
    · have hresps := h.resps j
      by_cases hj : i = j
      · subst hj
        simpa [ClusterSide.pendingResps, ClusterSide.respPath, ClusterSide.superPath, hq]
          using hresps
      · simpa [ClusterSide.pendingResps, ClusterSide.respPath, ClusterSide.superPath, hj,
          Ne.symm hj]
          using hresps
    · simpa [ClusterSide.superPath] using h.routed k

/-- A request that leads back to its CU may be issued. -/
theorem RouteInv.issue {s' : ClusterSide B} {i : B.CuIndex} {req : MemReq}
    {ev : List (ClusterEvent B)} (h : RouteInv s tr)
    (hroute : ∀ i, B.hasPipeline i = true → B.destination (B.cuIdOf i) = i)
    (hs : s.issue i req = some (s', ev)) : RouteInv s' (tr ++ ev) := by
  unfold ClusterSide.issue at hs
  split at hs
  · next hreq =>
    obtain ⟨queue, hq, heq⟩ := Option.map_eq_some_iff.1 hs
    obtain rfl := push_eq_some hq
    obtain ⟨rfl, rfl⟩ := Prod.mk.inj heq
    have hdest : B.destination req.cuId = i := by
      rw [hreq.2]
      exact hroute i hreq.1
    refine ⟨fun j => ?_, fun j => ?_, fun k => ?_, fun j r hr => ?_, h.clusterReq, h.clusterResp⟩
    · have hreqs := h.reqs j
      by_cases hj : i = j
      · subst hj
        simp [ClusterSide.pendingReqs, ClusterSide.reqPath] at hreqs ⊢
        simp [hreqs]
      · simpa [ClusterSide.pendingReqs, ClusterSide.reqPath, hj, Ne.symm hj] using hreqs
    · simpa [ClusterSide.pendingResps, ClusterSide.respPath, ClusterSide.superPath] using h.resps j
    · simpa [ClusterSide.superPath] using h.routed k
    · by_cases hj : j = i
      · subst hj
        simp only [Function.update_self] at hr
        obtain hr | hr := List.mem_append.1 hr
        · exact h.reqIn j r hr
        · rw [List.mem_singleton.1 hr]
          exact hdest
      · refine h.reqIn j r ?_
        simpa [hj] using hr
  · exact absurd hs (by simp)

end Steps

/-! ## The build -/

section Build

variable {B : ClusteredBuild} {D : SideDepths} {s : ClusterSide B} {tr : List (ClusterEvent B)}

theorem RouteInv.run (hroute : ∀ i, B.hasPipeline i = true → B.destination (B.cuIdOf i) = i)
    (h : (clusterSystem B D).Run (fun _ => True) s tr) : RouteInv s tr := by
  refine h.invariant RouteInv (fun _ hreset _ => .reset hreset) fun s tr a s' ev _ hinv hs _ => ?_
  cases a with
  | issue i req => exact hinv.issue hroute hs
  | receive i => exact hinv.receive hs
  | arbiter k =>
    obtain ⟨⟨arb, p, ev⟩, hr, heq⟩ := Option.map_eq_some_iff.1 hs
    obtain ⟨rfl, rfl⟩ := Prod.mk.inj heq
    rw [List.append_nil]
    exact hinv.arbiter (arbiterStep_moves hr)
  | superArbiter => exact hinv.superStep hs
  | memory =>
    obtain ⟨⟨side, ev⟩, hr, heq⟩ := Option.map_eq_some_iff.1 hs
    obtain ⟨rfl, rfl⟩ := Prod.mk.inj heq
    exact hinv.memory hr

theorem owned_map_destination (p : B.CuIndex → Bool) :
    owned tr ((exchanges tr).map fun x => B.destination x.1.cuId) p = exchangesFor tr p := by
  unfold owned exchangesFor
  generalize exchanges tr = xs
  induction xs with
  | nil => rfl
  | cons x xs ih =>
    rw [List.map_cons, List.zip_cons_cons, List.filter_cons, List.filter_cons]
    dsimp only
    split
    · rw [List.map_cons, ih]
    · exact ih

theorem RouteInv.routedBack (h : RouteInv s tr) :
    RoutedBack tr ((exchanges tr).map fun x => B.destination x.1.cuId) where
  length_eq := List.length_map ..
  served i := by
    rw [owned_map_destination, h.reqs]
    exact List.prefix_append ..
  routed k := by
    rw [owned_map_destination, h.routed]
    exact List.prefix_append ..
  received i := by
    rw [owned_map_destination, h.resps]
    exact List.prefix_append ..

theorem RouteInv.drained (h : RouteInv s tr) (hs : s.Drained) (i : B.CuIndex) :
    issuedReqs tr i = (exchangesFor tr fun j => j = i).map Prod.fst ∧
      (exchangesFor tr fun j => j = i).map Prod.snd = receivedResps tr i := by
  have hreqs : s.pendingReqs i = [] := by
    simp [ClusterSide.pendingReqs, ClusterSide.reqPath, hs.cuMemReq, hs.arbiter, hs.cluster,
      hs.superArbiter, hs.memory]
  have hresps : s.pendingResps i = [] := by
    simp [ClusterSide.pendingResps, ClusterSide.respPath, ClusterSide.superPath, hs.cuMemResp,
      hs.arbiter, hs.cluster, hs.superArbiter, hs.memory]
  have h1 := h.reqs i
  have h2 := h.resps i
  rw [hreqs, List.append_nil] at h1
  rw [hresps, List.append_nil] at h2
  exact ⟨h1, h2⟩

end Build

namespace ClusteredBuild

variable (B : ClusteredBuild)

/-- In every run each response goes back to the cluster and the CU whose request it answers, in the
order in which the CU has issued its requests; once nothing is on its way, every request has been
answered. -/
def Routed : Prop :=
  ∀ D s tr, (clusterSystem B D).Run (fun _ => True) s tr →
    ∃ owner, RoutedBack tr owner ∧ (s.Drained → ∀ i,
      issuedReqs tr i = (owned tr owner fun j => j = i).map Prod.fst ∧
        (owned tr owner fun j => j = i).map Prod.snd = receivedResps tr i)

def cluster (k : Fin 2) : Fin B.numClusters := k.cast B.numClusters_eq.symm

theorem clusterSize_pos : 0 < B.clusterSize := by
  have := B.clusterSize_ge
  omega

/-- The CU of a cluster that has a pipeline. -/
def firstCu (k : Fin 2) : B.CuIndex := (B.cluster k, ⟨0, B.clusterSize_pos⟩)

theorem hasPipeline_iff (i : B.CuIndex) : B.hasPipeline i = true ↔ (i.2 : ℕ) = 0 := by
  have h := B.clustered_le
  simp [BuildConfig.hasPipeline, BuildConfig.clustered, BuildConfig.clusterSizeMacro, h]

theorem cuIdOf_firstCu : (B.cuIdOf (B.firstCu 1)).toNat = B.clusterSize % 8 := by
  unfold BuildConfig.cuIdOf BuildConfig.baseCuId firstCu cluster
  simp

/-- The two tests undo the numbering of the CUs that have a pipeline. -/
theorem destination_cuIdOf (hN : B.numCus ≤ 15) (i : B.CuIndex) (hi : B.hasPipeline i = true) :
    B.destination (B.cuIdOf i) = i := by
  have hS := B.clusterSize_ge
  have hSN := B.clusterSize_eq
  have h2 := (B.hasPipeline_iff i).1 hi
  have h1 : (i.1 : ℕ) = 0 ∨ (i.1 : ℕ) = 1 := by
    have hlt := i.1.isLt
    have hN := B.numClusters_eq
    omega
  have hid : (B.cuIdOf i).toNat = i.1 * B.clusterSize := by
    unfold BuildConfig.cuIdOf BuildConfig.baseCuId
    rw [h2, BitVec.toNat_ofNat, BitVec.toNat_ofNat]
    obtain h1 | h1 := h1 <;> rw [h1] <;> omega
  refine Prod.ext (Fin.ext ?_) (Fin.ext ?_)
  · show (if (B.cuIdOf i).toNat < B.clusterSize then 0 else 1) = (i.1 : ℕ)
    rw [hid]
    obtain h1 | h1 := h1
    · rw [h1, Nat.zero_mul, if_pos (by omega)]
    · rw [h1, Nat.one_mul, if_neg (lt_irrefl _)]
  · show (B.cuIdOf i).toNat % B.clusterSize = (i.2 : ℕ)
    rw [hid, h2, Nat.mul_mod_left]

theorem routed_of_le (hN : B.numCus ≤ 15) : B.Routed := by
  intro D s tr h
  have hinv := RouteInv.run (B.destination_cuIdOf hN) h
  refine ⟨_, hinv.routedBack, fun hs i => ?_⟩
  rw [owned_map_destination]
  exact hinv.drained hs i

/-! ### A misrouted response -/

def resetSide (mem : MemState) : ClusterSide B where
  cuMemReq := fun _ => []
  cuMemResp := fun _ => []
  arbiterPc := fun _ => .scan 0
  nextCu := 0
  clusterReq := fun _ => []
  clusterResp := fun _ => []
  side := ⟨{}, [], [], .ready, mem⟩

/-- The only request is one of the second cluster, and its response is written to a cluster. -/
theorem exec_second (mem : MemState) (req : MemReq) (hid : req.cuId = B.cuIdOf (B.firstCu 1)) :
    ∃ s', ((clusterSystem B ⟨1, 1⟩).exec (fun _ => True) (B.resetSide mem)
      [.issue (B.firstCu 1) req, .arbiter (B.cluster 1), .arbiter (B.cluster 1), .superArbiter,
        .superArbiter, .superArbiter, .memory, .memory, .superArbiter, .superArbiter]) =
      some (s', [.issued (B.firstCu 1) req, .served req (handleRequest mem req).1,
        .routed (B.clusterOf (B.cuIdOf (B.firstCu 1))) (handleRequest mem req).1]) := by
  have hpipe : B.hasPipeline (B.firstCu 1) = true := (B.hasPipeline_iff _).2 rfl
  have hS : 0 < B.clusterSize := lt_of_lt_of_le (by decide) B.clusterSize_ge
  have hN := B.numClusters_eq
  have hzero : 0 < B.numClusters := by omega
  have hone : 1 < B.numClusters := by omega
  have hmod : 1 % B.numClusters = 1 := Nat.mod_eq_of_lt hone
  have hne : B.cluster 0 ≠ B.cluster 1 := by simp [cluster]
  have hresp : (handleRequest mem req).1.cuId = B.cuIdOf (B.firstCu 1) :=
    (handleRequest_ids mem req).1.trans hid
  have h0 (h) : (⟨0, h⟩ : Fin B.numClusters) = B.cluster 0 := rfl
  have h1 (h) : (⟨1, h⟩ : Fin B.numClusters) = B.cluster 1 := rfl
  have hcu : (B.cluster 1, (⟨0, hS⟩ : Fin B.clusterSize)) = B.firstCu 1 := rfl
  simp [Transition.exec, clusterSystem, ClusterSide.step, ClusterSide.issue, hpipe, hid, resetSide,
    push, arbiterStep, scanStep, ClusterSide.ports, ClusterSide.withArbiter, hS,
    ClusterSide.superStep, ClusterSide.superPorts, ClusterSide.withSuper, MemorySide.memoryStep,
    ClusterSide.servedEvent?, hzero, hone, hmod, hne, h0, h1, hcu, hresp]

theorem not_routed (hN : 16 ≤ B.numCus) : ¬ B.Routed := by
  intro hrouted
  let req : MemReq := ⟨B.cuIdOf (B.firstCu 1), 0, 0, 0, false, 0⟩
  obtain ⟨s, hs⟩ := B.exec_second (emptySubsystem, fun _ => 0) req rfl
  have hinit : (clusterSystem B ⟨1, 1⟩).Run (fun _ => True)
      (B.resetSide (emptySubsystem, fun _ => 0)) [] := .init ⟨_, rfl⟩ trivial
  have hcluster : B.clusterOf (B.cuIdOf (B.firstCu 1)) = B.cluster 0 := by
    have hS := B.clusterSize_eq
    refine Fin.ext ?_
    show (if (B.cuIdOf (B.firstCu 1)).toNat < B.clusterSize then 0 else 1) = 0
    rw [cuIdOf_firstCu, if_pos (by omega)]
  have hrun := hinit.exec _ hs
  rw [hcluster] at hrun
  obtain ⟨owner, h, -⟩ := hrouted _ _ _ hrun
  generalize (handleRequest (emptySubsystem, fun _ => 0) req).1 = resp at h
  have hex : exchanges ([] ++ [.issued (B.firstCu 1) req, .served req resp,
      .routed (B.cluster 0) resp]) = [(req, resp)] := rfl
  -- the only owner of the exchange is the CU that has issued a request
  obtain ⟨i, rfl⟩ : ∃ i, owner = [i] := List.length_eq_one_iff.1 h.length_eq
  have hi : B.firstCu 1 = i := by
    by_contra hne
    have hserved := h.served i
    rw [owned, hex] at hserved
    simp [issuedReqs, issuedBy?, List.filterMap_cons, hne] at hserved
  have hrouted := h.routed (B.cluster 0)
  have hne : i.1 ≠ B.cluster 0 := by
    rw [← hi]
    simp [firstCu, cluster]
  rw [owned, hex] at hrouted
  simp [routedResps, routedTo?, List.filterMap_cons, hne] at hrouted

/-- The clustered top routes well exactly in the builds of fewer than 16 CUs. -/
theorem routed_iff : B.Routed ↔ B.numCus ≤ 15 := by
  constructor
  · intro h
    by_contra hN
    exact B.not_routed (by omega) h
  · exact B.routed_of_le

/-- The smallest build in which CU 8 is number 0. -/
def sixteenCus : ClusteredBuild where
  numCus := 16
  maxWarpsPerCu := 8
  numCus_pos := by decide
  maxWarpsPerCu_pos := by decide
  clustered_le := by decide

theorem not_routed_sixteen : ¬ sixteenCus.Routed := not_routed _ (by decide)

end ClusteredBuild

end RiscvGpgpu.Hls
