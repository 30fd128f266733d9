import Arsonist.Federation.Registry
import Arsonist.Scheduler.Weighted

/-! The choice of a cluster: `global_scheduler/cross_cluster_scheduler.py` and
`federation/router.py`, over exact rationals. -/
namespace Arsonist.Federation
open Arsonist.Library Arsonist.Mesh Arsonist.Scheduler

def healthWeight : ClusterHealth → ℚ
  | .healthy => 20/100
  | .degraded => 10/100
  | .unknown => 5/100
  | .offline => 0

/-- Both regions are given and agree, up to case and surrounding blanks. -/
def sameRegion (preferred : Option String) (region : String) : Bool :=
  match preferred with
  | none => false
  | some p => p ≠ "" && region ≠ "" &&
      Text.lower (Text.strip p) = Text.lower (Text.strip region)

def scoreCluster (job : GlobalJobRecord) (c : ClusterRecord) : ℚ :=
  if c.healthState = .offline then -1 else
  let loadPenalty := c.currentLoad*(35/100)
  let queuePenalty := min (c.queueDepth : ℚ) 500/500*(22/100)
  let latencyComponent := max 0 (1-min c.avgLatencyMs 3000/3000)*(18/100)
  let gpuBonus := min (c.gpuCapacity : ℚ) 64/64*(if job.gpuRequired then 40/100 else 10/100)
  let nodeCapacity := min (c.nodeCount : ℚ) 100/100*(5/100)
  let regionBonus := if sameRegion job.preferredRegion c.region then 12/100 else 0
  roundHalfEven ((1-loadPenalty-queuePenalty+latencyComponent+gpuBonus+
    healthWeight c.healthState+nodeCapacity+regionBonus)*1000000)/1000000

/-- Offline clusters and negative scores are left out; equal scores keep their order. -/
def rankClusters (job : GlobalJobRecord) (clusters : List ClusterRecord) :
    List (ClusterRecord × ℚ) :=
  let candidates := clusters.filter fun c => c.healthState ≠ .offline
  let scored := candidates.map fun c => (c,scoreCluster job c)
  (scored.filter fun p => 0 ≤ p.2).insertionSort fun a b => b.2 ≤ a.2

structure RankedCluster where
  clusterId : ClusterId
  region : String
  score : ℚ
  deriving DecidableEq

/-- The best cluster and the ranking. The time it took is left out. -/
def bestCluster (job : GlobalJobRecord) (clusters : List ClusterRecord) :
    Option ClusterRecord × List RankedCluster :=
  let ranked := rankClusters job clusters
  (ranked.head?.map Prod.fst,ranked.map fun p => ⟨p.1.clusterId,p.1.region,p.2⟩)

structure RoutingDecision where
  targetClusterId : ClusterId
  score : ℚ
  ranked : List RankedCluster := []
  deriving DecidableEq

def decideRoute (reg : FederationRegistry) (job : GlobalJobRecord) : RoutingDecision :=
  let healthy := reg.listClusters.filter fun c => c.healthState ≠ .offline
  let best := bestCluster job healthy
  match best.1 with
  | none => ⟨"",0,best.2⟩
  | some target => ⟨target.clusterId,(best.2.head?.map RankedCluster.score).getD 0,best.2⟩

theorem mem_rankClusters {job : GlobalJobRecord} {clusters : List ClusterRecord}
    {p : ClusterRecord × ℚ} :
    p ∈ rankClusters job clusters ↔ p.1 ∈ clusters ∧ p.1.healthState ≠ .offline ∧
      0 ≤ p.2 ∧ p.2 = scoreCluster job p.1 := by
  rw [rankClusters, List.mem_insertionSort, List.mem_filter, List.mem_map]
  constructor
  · rintro ⟨⟨c,hc,rfl⟩,hp⟩
    rw [List.mem_filter] at hc
    exact ⟨hc.1,by simpa using hc.2,by simpa using hp,rfl⟩
  · rintro ⟨hmem,honline,hp,hscore⟩
    refine ⟨⟨p.1,List.mem_filter.mpr ⟨hmem,by simpa using honline⟩,?_⟩,by simpa using hp⟩
    rw [← hscore]

/-- The chosen cluster is one of those given, and not an offline one. -/
theorem bestCluster_mem {job : GlobalJobRecord} {clusters : List ClusterRecord}
    {c : ClusterRecord} (h : (bestCluster job clusters).1 = some c) :
    c ∈ clusters ∧ c.healthState ≠ .offline := by
  obtain ⟨p,hp,rfl⟩ := Option.map_eq_some_iff.mp h
  have hmem := mem_rankClusters.mp (List.mem_of_head? hp)
  exact ⟨hmem.1,hmem.2.1⟩

/-- No candidate has a better score than the chosen cluster. -/
theorem bestCluster_best {job : GlobalJobRecord} {clusters : List ClusterRecord}
    {b c : ClusterRecord} (h : (bestCluster job clusters).1 = some b) (hc : c ∈ clusters)
    (honline : c.healthState ≠ .offline) (hscore : 0 ≤ scoreCluster job c) :
    scoreCluster job c ≤ scoreCluster job b := by
  obtain ⟨p,hp,rfl⟩ := Option.map_eq_some_iff.mp h
  have hsorted : (rankClusters job clusters).Pairwise fun a b => b.2 ≤ a.2 :=
    List.pairwise_insertionSort _ _
  have hmem : (c,scoreCluster job c) ∈ rankClusters job clusters :=
    mem_rankClusters.mpr ⟨hc,honline,hscore,rfl⟩
  have hbest := (mem_rankClusters.mp (List.mem_of_head? hp)).2.2.2
  rw [← hbest]
  cases hl : rankClusters job clusters with
  | nil => rw [hl] at hmem; simp at hmem
  | cons q l =>
    rw [hl] at hsorted hmem hp
    obtain rfl : q = p := Option.some.inj hp
    obtain rfl | hin := List.mem_cons.mp hmem
    · exact le_rfl
    · exact (List.pairwise_cons.mp hsorted).1 _ hin

/-- A route that is decided leads to a stored cluster that is not offline. -/
theorem getCluster_decideRoute {reg : FederationRegistry} {job : GlobalJobRecord}
    (h : (decideRoute reg job).targetClusterId ≠ "") :
    ∃ c, reg.getCluster (decideRoute reg job).targetClusterId = some c ∧
      c.healthState ≠ .offline := by
  unfold decideRoute at h ⊢
  dsimp only at h ⊢
  cases hbest : (bestCluster job
      (reg.listClusters.filter fun c => c.healthState ≠ .offline)).1 with
  | none => rw [hbest] at h; exact absurd rfl h
  | some c =>
    obtain ⟨hmem,honline⟩ := bestCluster_mem hbest
    rw [List.mem_filter] at hmem
    exact ⟨c,FederationRegistry.mem_listClusters.mp hmem.1,honline⟩

end Arsonist.Federation
