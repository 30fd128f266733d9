import Arsonist.Federation.Registry

/-! Heartbeats and the sweep for clusters without one (`federation/heartbeat.py`). -/
namespace Arsonist.Federation
open Arsonist.Library Arsonist.Mesh

/-- The record that a heartbeat writes over the one it has read. -/
def beatRecord (now : ℚ) (existing : ClusterRecord) (payload : FederationHeartbeatPayload) :
    ClusterRecord :=
  { existing with
    nodeCount := payload.nodeCount
    gpuCapacity := payload.gpuCapacity
    currentLoad := payload.currentLoad
    queueDepth := payload.queueDepth
    avgLatencyMs := payload.avgLatencyMs
    healthState := payload.healthState
    lastHeartbeat := now
    consecutiveMisses := 0 }

/-- `none` stands for the `KeyError` of an unknown cluster. -/
def applyHeartbeat (reg : FederationRegistry) (now : ℚ)
    (payload : FederationHeartbeatPayload) : Option (FederationRegistry × ClusterRecord) :=
  match reg.getCluster payload.clusterId with
  | none => none
  | some existing =>
    let written := beatRecord now existing payload
    some (reg.upsertCluster written,written)

/-- The sweep passes over a cluster that is offline already or has never been heard of. -/
def stale (timeout now : ℚ) (c : ClusterRecord) : Bool :=
  c.healthState ≠ .offline && 0 < c.lastHeartbeat && timeout < now-c.lastHeartbeat

def offlineRecord (c : ClusterRecord) : ClusterRecord :=
  { c with healthState := .offline, consecutiveMisses := c.consecutiveMisses+1 }

/-- The registry afterwards, and the clusters that are newly offline. -/
def sweepStaleClusters (reg : FederationRegistry) (now timeout : ℚ) :
    FederationRegistry × List ClusterId :=
  let found := reg.listClusters.filter (stale timeout now)
  (found.foldl (fun reg c => reg.upsertCluster (offlineRecord c)) reg,
    found.map fun c => c.clusterId)

@[simp] theorem beatRecord_clusterId (now : ℚ) (existing : ClusterRecord)
    (payload : FederationHeartbeatPayload) :
    (beatRecord now existing payload).clusterId = existing.clusterId := rfl

@[simp] theorem offlineRecord_clusterId (c : ClusterRecord) :
    (offlineRecord c).clusterId = c.clusterId := rfl

theorem clusters_sweepStaleClusters (reg : FederationRegistry) (now timeout : ℚ) :
    (sweepStaleClusters reg now timeout).1.clusters =
      (reg.listClusters.filter (stale timeout now)).foldl
        (fun t c => t.replace (offlineRecord c)) reg.clusters :=
  (List.foldl_hom FederationRegistry.clusters fun _ _ => rfl).symm

theorem globalJobs_sweepStaleClusters (reg : FederationRegistry) (now timeout : ℚ) :
    (sweepStaleClusters reg now timeout).1.globalJobs = reg.globalJobs := by
  unfold sweepStaleClusters
  dsimp only
  generalize reg.listClusters.filter (stale timeout now) = found
  induction found generalizing reg with
  | nil => rfl
  | cons c found ih => exact ih _

theorem mem_found {reg : FederationRegistry} {now timeout : ℚ} {c : ClusterRecord} :
    c ∈ reg.listClusters.filter (stale timeout now) ↔
      reg.clusters.get? (Keyed.key c) = some c ∧ stale timeout now c = true := by
  rw [List.mem_filter, FederationRegistry.mem_listClusters]
  rfl

/-- The sweep turns the stale clusters offline and touches no other. -/
theorem getCluster_sweepStaleClusters (reg : FederationRegistry) (now timeout : ℚ)
    (id : ClusterId) :
    (sweepStaleClusters reg now timeout).1.getCluster id =
      (reg.getCluster id).map fun c => if stale timeout now c then offlineRecord c else c := by
  rw [FederationRegistry.getCluster, clusters_sweepStaleClusters,
    Table.get?_foldl_replace offlineRecord (fun _ => rfl) _
      (reg.listClusters_nodup.sublist (List.filter_sublist.map _)),
    Table.find?_of_mem_iff (fun _ => mem_found)]
  change _ = (reg.clusters.get? id).map _
  cases reg.clusters.get? id with
  | none => rfl
  | some c =>
    rw [Option.filter_some, Option.map_some]
    by_cases hstale : stale timeout now c = true
    · rw [if_pos hstale, if_pos hstale]
      rfl
    · rw [if_neg hstale, if_neg hstale]
      rfl

/-- The newly offline clusters are those that were stale. -/
theorem mem_sweepStaleClusters {reg : FederationRegistry} {now timeout : ℚ} {id : ClusterId} :
    id ∈ (sweepStaleClusters reg now timeout).2 ↔
      ∃ c, reg.getCluster id = some c ∧ stale timeout now c = true := by
  rw [sweepStaleClusters, List.mem_map]
  constructor
  · rintro ⟨c,hc,rfl⟩
    exact ⟨c,mem_found.mp hc⟩
  · rintro ⟨c,hget,hstale⟩
    have hid := FederationRegistry.clusterId_of_getCluster hget
    refine ⟨c,mem_found.mpr ⟨?_,hstale⟩,hid⟩
    change reg.getCluster c.clusterId = some c
    rw [hid, hget]

end Arsonist.Federation
