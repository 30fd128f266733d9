import Arsonist.Library.Json
import Arsonist.Library.Keyed
import Arsonist.Mesh.MeshProtocol

/-! The records of `federation/federation_models.py`: clusters, global jobs, and the payloads
with which clusters and clients call the controller. -/
namespace Arsonist.Federation
open Arsonist.Library Arsonist.Mesh

abbrev GlobalJobId := String

inductive ClusterHealth | healthy | degraded | offline | unknown
  deriving DecidableEq, Repr

structure ClusterRegistration where
  clusterId : ClusterId
  region : String := "default"
  controlPlaneUrl : String
  apiToken : String := ""
  nodeCount : ℤ := 0
  gpuCapacity : ℤ := 0
  currentLoad : ℚ := 0
  queueDepth : ℤ := 0
  avgLatencyMs : ℚ := 50
  healthState : ClusterHealth := .healthy
  deriving DecidableEq

structure ClusterRecord extends ClusterRegistration where
  lastHeartbeat : ℚ := 0
  registeredAt : ℚ := 0
  consecutiveMisses : ℤ := 0
  deriving DecidableEq

instance : Keyed ClusterRecord ClusterId := ⟨fun c => c.clusterId⟩

@[simp] theorem ClusterRecord.key_eq (c : ClusterRecord) : Keyed.key c = c.clusterId := rfl

inductive GlobalJobStatus | queued | routed | running | completed | failed | migrated
  deriving DecidableEq, Repr

namespace GlobalJobStatus

/-- The outcome of a job is known. -/
def finished (s : GlobalJobStatus) : Bool := s = .completed || s = .failed

/-- The statuses that count as active, for the failover and for the metrics. -/
def active (s : GlobalJobStatus) : Bool :=
  s ∈ [queued,routed,running,migrated]

/-- The job is said to be with its cluster. -/
def handedOver (s : GlobalJobStatus) : Bool := s = .routed || s = .migrated

/-- Every status is active or final, and none is both. -/
theorem active_eq_not_finished (s : GlobalJobStatus) : s.active = !s.finished := by
  cases s <;> rfl

theorem not_queued_of_finished {s : GlobalJobStatus} (h : s.finished = true) :
    s ≠ queued ∧ s.handedOver = false := by
  cases s with
  | completed => exact ⟨by decide,rfl⟩
  | failed => exact ⟨by decide,rfl⟩
  | _ => cases h

end GlobalJobStatus

/-- A line of `execution_logs`, which the source writes as the time, a colon and the text. -/
structure LogLine where
  ts : ℚ
  text : String
  deriving DecidableEq

structure GlobalJobRecord where
  id : GlobalJobId
  type : String
  task : String
  requiredNodes : ℤ := 1
  power : String := "low"
  gpuRequired : Bool := false
  status : GlobalJobStatus := .queued
  originatingClusterId : Option ClusterId := none
  preferredRegion : Option String := none
  assignedClusterId : Option ClusterId := none
  executionLogs : List LogLine := []
  result : Option Json.Object := none
  createdAt : ℚ := 0
  updatedAt : ℚ := 0

instance : Keyed GlobalJobRecord GlobalJobId := ⟨fun job => job.id⟩

@[simp] theorem GlobalJobRecord.key_eq (job : GlobalJobRecord) : Keyed.key job = job.id := rfl

/-- What `save_global_job` does to the record it is given. -/
def GlobalJobRecord.stamp (now : ℚ) (job : GlobalJobRecord) : GlobalJobRecord :=
  { job with updatedAt := now }

@[simp] theorem GlobalJobRecord.stamp_id (now : ℚ) (job : GlobalJobRecord) :
    (job.stamp now).id = job.id := rfl

@[simp] theorem GlobalJobRecord.stamp_status (now : ℚ) (job : GlobalJobRecord) :
    (job.stamp now).status = job.status := rfl

@[simp] theorem GlobalJobRecord.stamp_assignedClusterId (now : ℚ) (job : GlobalJobRecord) :
    (job.stamp now).assignedClusterId = job.assignedClusterId := rfl

structure FederationHeartbeatPayload where
  clusterId : ClusterId
  nodeCount : ℤ := 0
  gpuCapacity : ℤ := 0
  currentLoad : ℚ := 0
  queueDepth : ℤ := 0
  avgLatencyMs : ℚ := 50
  healthState : ClusterHealth := .healthy

structure GlobalJobCompletePayload where
  jobId : GlobalJobId
  clusterId : ClusterId
  ok : Bool
  result : Option Json.Object := none

/-- The body of a submission; the bounds of `required_nodes` are checked when it is read. -/
structure SubmitGlobalJobBody where
  id : Option GlobalJobId := none
  type : String := "code"
  task : String := ""
  requiredNodes : ℤ := 1
  requiredNodes_bounds : 1 ≤ requiredNodes ∧ requiredNodes ≤ 5 := by decide
  power : String := "low"
  gpuRequired : Bool := false
  originatingClusterId : Option ClusterId := none
  preferredRegion : Option String := none

theorem oneNode_bounds : (1 : ℤ) ≤ 1 ∧ (1 : ℤ) ≤ 5 := by decide

end Arsonist.Federation
