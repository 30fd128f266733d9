import Arsonist.Federation.FederationModels
import Mathlib.Data.List.Sort

/-! The registry of `federation/registry.py`: one row per cluster and one per global job, each
written as a whole. Its events and metrics, which no decision reads, are left out. -/
namespace Arsonist.Federation
open Arsonist.Library Arsonist.Mesh

structure FederationRegistry where
  clusters : Table ClusterRecord := .empty
  globalJobs : Table GlobalJobRecord := .empty

namespace FederationRegistry
variable (reg : FederationRegistry)

def upsertCluster (cluster : ClusterRecord) : FederationRegistry :=
  { reg with clusters := reg.clusters.replace cluster }

def getCluster (id : ClusterId) : Option ClusterRecord := reg.clusters.get? id

/-- In the order of their ids. -/
def listClusters : List ClusterRecord :=
  reg.clusters.entries.insertionSort fun a b => a.clusterId ≤ b.clusterId

/-- The record is stamped before it is written. -/
def saveGlobalJob (now : ℚ) (job : GlobalJobRecord) : FederationRegistry :=
  { reg with globalJobs := reg.globalJobs.replace (job.stamp now) }

def getGlobalJob (id : GlobalJobId) : Option GlobalJobRecord := reg.globalJobs.get? id

/-- The record written last comes first. -/
def listGlobalJobs : List GlobalJobRecord :=
  reg.globalJobs.entries.insertionSort fun a b => b.updatedAt ≤ a.updatedAt

variable {reg}

@[simp] theorem getCluster_upsertCluster (cluster : ClusterRecord) (id : ClusterId) :
    (reg.upsertCluster cluster).getCluster id =
      if id = cluster.clusterId then some cluster else reg.getCluster id :=
  Table.get?_replace reg.clusters cluster id

@[simp] theorem getGlobalJob_upsertCluster (cluster : ClusterRecord) (id : GlobalJobId) :
    (reg.upsertCluster cluster).getGlobalJob id = reg.getGlobalJob id := rfl

@[simp] theorem getCluster_saveGlobalJob (now : ℚ) (job : GlobalJobRecord) (id : ClusterId) :
    (reg.saveGlobalJob now job).getCluster id = reg.getCluster id := rfl

@[simp] theorem getGlobalJob_saveGlobalJob (now : ℚ) (job : GlobalJobRecord)
    (id : GlobalJobId) :
    (reg.saveGlobalJob now job).getGlobalJob id =
      if id = job.id then some (job.stamp now) else reg.getGlobalJob id :=
  Table.get?_replace reg.globalJobs (job.stamp now) id

theorem mem_listClusters {c : ClusterRecord} :
    c ∈ reg.listClusters ↔ reg.getCluster c.clusterId = some c := by
  rw [listClusters, List.mem_insertionSort]
  exact Table.mem_iff_get?

theorem mem_listGlobalJobs {job : GlobalJobRecord} :
    job ∈ reg.listGlobalJobs ↔ reg.getGlobalJob job.id = some job := by
  rw [listGlobalJobs, List.mem_insertionSort]
  exact Table.mem_iff_get?

/-- The list of clusters names each of them once. -/
theorem listClusters_nodup : (reg.listClusters.map fun c => c.clusterId).Nodup :=
  ((List.perm_insertionSort _ _).map _).nodup_iff.mpr reg.clusters.nodup

theorem listGlobalJobs_nodup : (reg.listGlobalJobs.map fun job => job.id).Nodup :=
  ((List.perm_insertionSort _ _).map _).nodup_iff.mpr reg.globalJobs.nodup

theorem clusterId_of_getCluster {id : ClusterId} {c : ClusterRecord}
    (h : reg.getCluster id = some c) : c.clusterId = id := Table.key_of_get? h

end FederationRegistry
end Arsonist.Federation
