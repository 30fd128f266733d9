import Arsonist.Federation.Failover
import Arsonist.Federation.Heartbeat
import Arsonist.Library.Text

/-! The handlers of `federation/controller.py`, each taken as a whole. A push of a job to a
cluster is an outcome from outside: the text of an exception, or none. -/
namespace Arsonist.Federation
open Arsonist.Library Arsonist.Mesh

/-- The `HTTPException` that a handler raises. -/
structure HttpError where
  statusCode : ℕ
  detail : String
  deriving DecidableEq

/-- `_normalize_cp_url`. -/
def normalizeCpUrl (url : String) : String := Text.lower (Text.rstrip '/' url)

/-- The first other cluster that has the address. -/
def urlHolder (reg : FederationRegistry) (body : ClusterRegistration) : Option ClusterRecord :=
  reg.listClusters.find? fun c => c.clusterId ≠ body.clusterId &&
    normalizeCpUrl c.controlPlaneUrl = normalizeCpUrl body.controlPlaneUrl

def registrationRecord (reg : FederationRegistry) (now : ℚ) (body : ClusterRegistration) :
    ClusterRecord :=
  { body with
    lastHeartbeat := now
    registeredAt := ((reg.getCluster body.clusterId).map ClusterRecord.registeredAt).getD now
    consecutiveMisses := 0 }

def registerCluster (reg : FederationRegistry) (now : ℚ) (body : ClusterRegistration) :
    Except HttpError FederationRegistry :=
  match urlHolder reg body with
  | some c =>
    .error ⟨409,"control_plane_url already registered as cluster_id=" ++ c.clusterId⟩
  | none => .ok (reg.upsertCluster (registrationRecord reg now body))

/-- `body.id or str(uuid4())`: an empty id counts as none. -/
def submittedId (body : SubmitGlobalJobBody) (fresh : GlobalJobId) : GlobalJobId :=
  match body.id with
  | none => fresh
  | some id => if id = "" then fresh else id

def acceptedJob (now : ℚ) (id : GlobalJobId) (body : SubmitGlobalJobBody) :
    GlobalJobRecord where
  id := id
  type := body.type
  task := body.task
  requiredNodes := body.requiredNodes
  power := body.power
  gpuRequired := body.gpuRequired
  status := .queued
  originatingClusterId := body.originatingClusterId
  preferredRegion := body.preferredRegion
  createdAt := now
  updatedAt := now
  executionLogs := [⟨now,"accepted by federation"⟩]

def routedJob (now : ℚ) (gj : GlobalJobRecord) (target : ClusterId) : GlobalJobRecord :=
  { gj with
    assignedClusterId := some target
    status := .routed
    executionLogs := gj.executionLogs ++ [⟨now,"routed to " ++ target⟩] }

/-- What is written when the push of a routed job fails. -/
def pushFailedJob (now : ℚ) (routed : GlobalJobRecord) (exc : String) : GlobalJobRecord :=
  { routed with
    status := .queued
    assignedClusterId := none
    executionLogs := routed.executionLogs ++ [⟨now,"route push failed: " ++ exc⟩] }

inductive SubmitAnswer
  | queued (jobId : GlobalJobId) (reason : String) (ranked : List RankedCluster)
  | routed (jobId : GlobalJobId) (targetClusterId : ClusterId) (score : ℚ)
      (ranked : List RankedCluster)
  deriving DecidableEq

def submitGlobalJob (reg : FederationRegistry) (now : ℚ) (body : SubmitGlobalJobBody)
    (fresh : GlobalJobId) (pushError : Option String) :
    FederationRegistry × Except HttpError SubmitAnswer :=
  let gj := (acceptedJob now (submittedId body fresh) body).stamp now
  let reg := reg.saveGlobalJob now gj
  let decision := decideRoute reg gj
  if decision.targetClusterId = "" then
    (reg,.ok (.queued gj.id "no_healthy_cluster" decision.ranked))
  else
    let routed := (routedJob now gj decision.targetClusterId).stamp now
    let reg := reg.saveGlobalJob now routed
    match reg.getCluster decision.targetClusterId with
    | none => (reg,.error ⟨500,"cluster disappeared during route"⟩)
    | some _ =>
      match pushError with
      | none =>
        (reg,.ok (.routed gj.id decision.targetClusterId decision.score decision.ranked))
      | some exc =>
        (reg.saveGlobalJob now (pushFailedJob now routed exc),
          .error ⟨502,"cluster_unreachable: " ++ exc⟩)

def reportedStatus (payload : GlobalJobCompletePayload) : GlobalJobStatus :=
  if payload.ok then .completed else .failed

/-- The record that a report writes over the one it has read. -/
def doneJob (now : ℚ) (payload : GlobalJobCompletePayload) (job : GlobalJobRecord) :
    GlobalJobRecord :=
  { job with
    status := reportedStatus payload
    result := some (payload.result.getD [])
    executionLogs := job.executionLogs ++ [⟨now,"completed by " ++ payload.clusterId ++ " ok=" ++
      (if payload.ok then "True" else "False")⟩] }

def globalJobComplete (reg : FederationRegistry) (now : ℚ)
    (payload : GlobalJobCompletePayload) : Except HttpError FederationRegistry :=
  match reg.getGlobalJob payload.jobId with
  | none => .error ⟨404,"unknown global job"⟩
  | some job => .ok (reg.saveGlobalJob now (doneJob now payload job))

/-- The failover of each dead cluster in turn, with the pushes that are tried after each. -/
def failoverAll (now : ℚ) : FederationRegistry → List ClusterId →
    FederationRegistry × List (GlobalJobRecord × ClusterRecord)
  | reg, [] => (reg,[])
  | reg, dead :: rest =>
    let moved := rerouteJobsFromDeadCluster reg now dead
    let later := failoverAll now moved.1 rest
    (later.1,moved.2.2 ++ later.2)

/-- One iteration of `federation_watch_loop`. The outcome of its pushes is only logged. -/
def watchIteration (reg : FederationRegistry) (now timeout : ℚ) :
    FederationRegistry × List (GlobalJobRecord × ClusterRecord) :=
  let swept := sweepStaleClusters reg now timeout
  failoverAll now swept.1 swept.2

end Arsonist.Federation
