import Arsonist.Mesh.PeerRegistry
import Arsonist.Shared.Models

/-! The choice of a peer for a job (`mesh/mesh_router.py`). -/
namespace Arsonist.Mesh
open Arsonist.Library Arsonist.Shared

structure RouteDecision where
  targetClusterId : ClusterId
  targetPublicUrl : String
  score : ℚ
  reason : String
  hops : ℤ := 1

/-- `PeerRegistry.list_peers`. -/
def PeerRegistry.listPeers (reg : PeerRegistry) : List PeerRecord :=
  reg.entries.insertionSort fun a b => a.clusterId ≤ b.clusterId

/-- `PeerRegistry.score_peer`. -/
def PeerRegistry.scorePeer (peer : PeerRecord) : ℚ :=
  let health : ℚ :=
    if peer.health = "healthy" then 1 else if peer.health = "degraded" then 5/10 else 1/10
  peer.reliabilityScore*health*10 - peer.load*2 - min peer.queueDepth 500*(5/100)
    - min peer.latencyEstimateMs 5000/500 - min peer.hopDistance 6*(7/100)

structure MeshRouter where
  registry : PeerRegistry
  localClusterId : ClusterId
  localRegion : String
  distanceWeight : ℚ := 8/100

namespace MeshRouter
variable (router : MeshRouter) (job : JobRecord)

/-- The score of a peer that cannot take the job. -/
def excluded : ℚ := -1000000000

/-- `_score_peer`: the score and its reason. -/
def scorePeer (peer : PeerRecord) : ℚ × String :=
  if job.gpuRequired ∧ peer.gpuCapacity ≤ 0 then (excluded,"no_gpu")
  else if peer.health = "offline" then (excluded,"offline")
  else
    let sameRegion := peer.region = router.localRegion
    let regionBonus : ℚ := if sameRegion then 35/100 else 0
    let hopPenalty := router.distanceWeight*min peer.hopDistance 8
    let gpuBonus : ℚ :=
      if job.gpuRequired then min peer.gpuCapacity 32*(4/100)
      else min peer.gpuCapacity 32*(1/100)
    (PeerRegistry.scorePeer peer+regionBonus+gpuBonus-hopPenalty,
      if sameRegion then "region" else "remote_region")

/-- The other clusters, best first. -/
def rankPeersForJob : List RouteDecision :=
  ((router.registry.listPeers.filter fun p => p.clusterId ≠ router.localClusterId).map fun p =>
    let scored := router.scorePeer job p
    { targetClusterId := p.clusterId
      targetPublicUrl := p.publicUrl
      score := scored.1
      reason := scored.2
      hops := max 1 (if p.hopDistance = 0 then 1 else p.hopDistance) }).insertionSort
    fun a b => b.score ≤ a.score

def bestForward : Option RouteDecision :=
  (router.rankPeersForJob job).head?.filter fun r => -100000000 < r.score

/-- A job is never forwarded to the cluster itself. -/
theorem bestForward_ne {decision : RouteDecision} (h : router.bestForward job = some decision) :
    decision.targetClusterId ≠ router.localClusterId := by
  obtain ⟨hhead,-⟩ := Option.filter_eq_some_iff.mp h
  have hmem := List.mem_of_head? hhead
  rw [rankPeersForJob, List.mem_insertionSort] at hmem
  obtain ⟨p,hp,rfl⟩ := List.mem_map.mp hmem
  simpa using (List.mem_filter.mp hp).2

end MeshRouter
end Arsonist.Mesh
