import RiscvGpgpu.Hls.MemArbiter
import RiscvGpgpu.Hls.Placement

/-!
# The clustered top

The memory side of a build of 13 CUs or more: `cuCluster` merges the requests of its CUs with an
arbiter of its own, and `superMemArbiter` merges those of the clusters. The compute pipelines issue
requests under their CU number and read responses, each at any time.
-/

namespace RiscvGpgpu.Hls

/-- A build that selects the clustered top. -/
structure ClusteredBuild extends BuildConfig where
  clustered_le : 13 ≤ numCus

namespace ClusteredBuild

variable (B : ClusteredBuild)

theorem numClusters_eq : B.numClusters = 2 := by
  have h := B.clustered_le
  unfold BuildConfig.numClusters BuildConfig.clustered
  rw [decide_eq_true h]
  rfl

theorem clusterSize_eq : B.clusterSize = B.numCus / 2 := by
  have h := B.clustered_le
  unfold BuildConfig.clusterSize BuildConfig.clustered
  rw [decide_eq_true h]
  rfl

theorem clusterSize_ge : 6 ≤ B.clusterSize := by
  have h := B.clustered_le
  rw [clusterSize_eq]
  omega

/-- The stream `cluster_resp[cid < CLUSTER_SIZE ? 0 : 1]`. -/
def clusterOf (id : CuId) : Fin B.numClusters :=
  ⟨if id.toNat < B.clusterSize then 0 else 1, by rw [numClusters_eq]; split <;> decide⟩

/-- The stream `resp_out[int(resp.cu_id) % N]` of a cluster. -/
def indexOf (id : CuId) : Fin B.clusterSize :=
  ⟨id.toNat % B.clusterSize, Nat.mod_lt _ (by have := B.clusterSize_ge; omega)⟩

/-- Where the two arbiters send the responses with a CU number. -/
def destination (id : CuId) : B.CuIndex := (B.clusterOf id, B.indexOf id)

end ClusteredBuild

inductive ClusterEvent (B : ClusteredBuild) where
  | issued (i : B.CuIndex) (req : MemReq)
  | served (req : MemReq) (resp : MemResp)
  /-- `superMemArbiter` writes a response to a cluster. -/
  | routed (k : Fin B.numClusters) (resp : MemResp)
  | received (i : B.CuIndex) (resp : MemResp)

/-- The memory side of the clustered top; the arbiter next to the memory pipeline is
`superMemArbiter`. -/
structure ClusterSide (B : ClusteredBuild) where
  cuMemReq : B.CuIndex → List MemReq
  cuMemResp : B.CuIndex → List MemResp
  arbiterPc : Fin B.numClusters → ArbiterPc
  /-- `arb` is static in `mem_arbiter_n`, so the clusters share its pointer. -/
  nextCu : ℕ
  clusterReq : Fin B.numClusters → List MemReq
  clusterResp : Fin B.numClusters → List MemResp
  side : MemorySide

inductive ClusterAction (B : ClusteredBuild) where
  | issue (i : B.CuIndex) (req : MemReq)
  | receive (i : B.CuIndex)
  | arbiter (k : Fin B.numClusters)
  | superArbiter
  | memory

namespace ClusterSide

variable {B : ClusteredBuild} (D : SideDepths) (s : ClusterSide B)

/-- A pipeline writes a request under its CU number. -/
def issue (i : B.CuIndex) (req : MemReq) : Option (ClusterSide B × List (ClusterEvent B)) :=
  if B.hasPipeline i ∧ req.cuId = B.cuIdOf i then
    (push 2 (s.cuMemReq i) req).map fun queue =>
      ({ s with cuMemReq := Function.update s.cuMemReq i queue }, [.issued i req])
  else none

def receive (i : B.CuIndex) : Option (ClusterSide B × List (ClusterEvent B)) :=
  match s.cuMemResp i with
  | [] => none
  | resp :: rest =>
    some ({ s with cuMemResp := Function.update s.cuMemResp i rest }, [.received i resp])

def ports (k : Fin B.numClusters) : ArbiterPorts B.clusterSize where
  reqIn i := s.cuMemReq (k, i)
  respOut i := s.cuMemResp (k, i)
  reqOut := s.clusterReq k
  respIn := s.clusterResp k

/-- The state after a step of the arbiter of a cluster. -/
def withArbiter (k : Fin B.numClusters) (arb : MemArbiter) (p : ArbiterPorts B.clusterSize) :
    ClusterSide B where
  cuMemReq i := if i.1 = k then p.reqIn i.2 else s.cuMemReq i
  cuMemResp i := if i.1 = k then p.respOut i.2 else s.cuMemResp i
  arbiterPc := Function.update s.arbiterPc k arb.pc
  nextCu := arb.nextCu
  clusterReq := Function.update s.clusterReq k p.reqOut
  clusterResp := Function.update s.clusterResp k p.respIn
  side := s.side

def superPorts : ArbiterPorts B.numClusters where
  reqIn := s.clusterReq
  respOut := s.clusterResp
  reqOut := s.side.reqOut
  respIn := s.side.respIn

/-- The state after a step of `superMemArbiter`. -/
def withSuper (arb : MemArbiter) (p : ArbiterPorts B.numClusters) : ClusterSide B :=
  { s with
    clusterReq := p.reqIn
    clusterResp := p.respOut
    side := { s.side with arbiter := arb, reqOut := p.reqOut, respIn := p.respIn } }

/-- One step of `superMemArbiter`: a round-robin arbiter but for the stream of a response, which it
finds by comparison with `CLUSTER_SIZE`. -/
def superStep : Option (ClusterSide B × List (ClusterEvent B)) :=
  match s.side.arbiter.pc with
  | .deliver resp =>
    let k := B.clusterOf resp.cuId
    (push 2 (s.clusterResp k) resp).map fun queue =>
      (s.withSuper { s.side.arbiter with pc := .scan 0 }
        { s.superPorts with respOut := Function.update s.clusterResp k queue }, [.routed k resp])
  | _ =>
    (arbiterStep B.numClusters D.reqOut 2 s.side.arbiter s.superPorts).map fun r =>
      (s.withSuper r.1 r.2.1, [])

def servedEvent? : MemEvent → Option (ClusterEvent B)
  | .served req resp => some (.served req resp)
  | _ => none

def step : ClusterAction B → Option (ClusterSide B × List (ClusterEvent B))
  | .issue i req => s.issue i req
  | .receive i => s.receive i
  | .arbiter k =>
    (arbiterStep B.clusterSize 2 2 ⟨s.arbiterPc k, s.nextCu⟩ (s.ports k)).map fun r =>
      (s.withArbiter k r.1 r.2.1, [])
  | .superArbiter => s.superStep D
  | .memory =>
    (s.side.memoryStep D).map fun r => ({ s with side := r.1 }, r.2.filterMap servedEvent?)

/-- Nothing is on its way at reset; the memory holds anything. -/
def IsReset : Prop :=
  ∃ mem, s =
    { cuMemReq := fun _ => []
      cuMemResp := fun _ => []
      arbiterPc := fun _ => .scan 0
      nextCu := 0
      clusterReq := fun _ => []
      clusterResp := fun _ => []
      side := ⟨{}, [], [], .ready, mem⟩ }

end ClusterSide

def clusterSystem (B : ClusteredBuild) (D : SideDepths) :
    Transition (ClusterSide B) (ClusterAction B) (ClusterEvent B) where
  init := ClusterSide.IsReset
  step := ClusterSide.step D

end RiscvGpgpu.Hls
