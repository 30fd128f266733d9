import Arsonist.Library.Json
import Arsonist.Library.Keyed

/-! The records of `shared/models.py`: jobs, nodes and events, and their JSON form as
`model_dump` writes it and the model constructors read it back. -/
namespace Arsonist.Shared
open Arsonist.Library Json

abbrev JobId := String
abbrev NodeId := String

inductive JobType | ai | code | system | shell
  deriving DecidableEq, Repr

inductive JobPower | low | medium | high
  deriving DecidableEq, Repr

inductive NodeType | gpu | cpu | edge
  deriving DecidableEq, Repr

/-- The four states of a job. The source keeps them as plain strings. -/
inductive JobStatus | queued | running | completed | failed
  deriving DecidableEq, Repr

instance : StrEnum JobType where
  all := [.ai,.code,.system,.shell]
  value
    | .ai => "ai"
    | .code => "code"
    | .system => "system"
    | .shell => "shell"
  mem_all a := by cases a <;> simp
  value_injective a b h := by cases a <;> cases b <;> simp_all

instance : StrEnum JobPower where
  all := [.low,.medium,.high]
  value
    | .low => "low"
    | .medium => "medium"
    | .high => "high"
  mem_all a := by cases a <;> simp
  value_injective a b h := by cases a <;> cases b <;> simp_all

instance : StrEnum NodeType where
  all := [.gpu,.cpu,.edge]
  value
    | .gpu => "GPU"
    | .cpu => "CPU"
    | .edge => "EDGE"
  mem_all a := by cases a <;> simp
  value_injective a b h := by cases a <;> cases b <;> simp_all

instance : StrEnum JobStatus where
  all := [.queued,.running,.completed,.failed]
  value
    | .queued => "queued"
    | .running => "running"
    | .completed => "completed"
    | .failed => "failed"
  mem_all a := by cases a <;> simp
  value_injective a b h := by cases a <;> cases b <;> simp_all

/-- A request that passed validation: between one and five nodes. -/
structure JobRequest where
  id : JobId
  type : JobType
  task : String
  requiredNodes : ℕ := 1
  power : JobPower
  gpuRequired : Bool := false
  requiredNodes_ge : 1 ≤ requiredNodes := by decide
  requiredNodes_le : requiredNodes ≤ 5 := by decide

structure JobRecord extends JobRequest where
  assignedNodes : List NodeId := []
  status : JobStatus := .queued
  result : Option Object := none
  attempts : ℕ := 0
  createdAt : ℚ := 0
  updatedAt : ℚ := 0
  startedAt : ℚ := 0
  finishedAt : ℚ := 0
  executionLogs : List String := []
  originatingClusterId : Option String := none
  reportToFederation : Bool := false
  federationControllerUrl : Option String := none

structure NodeRegistration where
  nodeId : NodeId
  host : String
  port : ℤ
  nodeType : NodeType
  hasGpu : Bool := false
  nodeSecret : String := ""

structure NodeState extends NodeRegistration where
  currentLoad : ℚ := 0
  healthy : Bool := true
  runningJobs : List JobId := []
  lastSeen : ℚ := 0
  avgLatencyMs : ℚ := 0
  queueSize : ℤ := 0
  jobsCompletedOk : ℕ := 0
  jobsFailed : ℕ := 0
  totalCpuMs : ℚ := 0
  historicalLoadEma : ℚ := 0

structure EventRecord where
  ts : ℚ
  level : String
  event : String
  details : Object := []

instance : Keyed JobRecord JobId := ⟨fun job => job.id⟩
instance : Keyed NodeState NodeId := ⟨fun node => node.nodeId⟩

@[simp] theorem JobRecord.key_eq (job : JobRecord) : Keyed.key job = job.id := rfl
@[simp] theorem NodeState.key_eq (node : NodeState) : Keyed.key node = node.nodeId := rfl

theorem oneNode_ge : 1 ≤ 1 := le_rfl

theorem oneNode_le : 1 ≤ 5 := by decide

/-- A job is over, as far as the scheduler is concerned. -/
def JobStatus.terminal (status : JobStatus) : Prop := status = .completed ∨ status = .failed

instance (status : JobStatus) : Decidable status.terminal :=
  inferInstanceAs (Decidable (_ ∨ _))

def JobRecord.modelDump (job : JobRecord) : Object :=
  [("id",str job.id),
   ("type",str (StrEnum.value job.type)),
   ("task",str job.task),
   ("required_nodes",int job.requiredNodes),
   ("power",str (StrEnum.value job.power)),
   ("gpu_required",bool job.gpuRequired),
   ("assigned_nodes",ofStrings job.assignedNodes),
   ("status",str (StrEnum.value job.status)),
   ("result",ofOption obj job.result),
   ("attempts",int job.attempts),
   ("created_at",float job.createdAt),
   ("updated_at",float job.updatedAt),
   ("started_at",float job.startedAt),
   ("finished_at",float job.finishedAt),
   ("execution_logs",ofStrings job.executionLogs),
   ("originating_cluster_id",ofOption str job.originatingClusterId),
   ("report_to_federation",bool job.reportToFederation),
   ("federation_controller_url",ofOption str job.federationControllerUrl)]

/-- `JobRecord(**o)`. A number of nodes outside the validated range is refused. -/
def JobRecord.ofJson (o : Object) : Option JobRecord := do
  let id ← required o "id" asStr
  let type ← required o "type" asEnum
  let task ← required o "task" asStr
  let requiredNodes ← defaulted o "required_nodes" asNat 1
  let power ← required o "power" asEnum
  let gpuRequired ← defaulted o "gpu_required" asBool false
  let assignedNodes ← defaulted o "assigned_nodes" asStrings []
  let status ← defaulted o "status" asEnum JobStatus.queued
  let result ← defaulted o "result" (asOption asObject) none
  let attempts ← defaulted o "attempts" asNat 0
  let createdAt ← defaulted o "created_at" asFloat 0
  let updatedAt ← defaulted o "updated_at" asFloat 0
  let startedAt ← defaulted o "started_at" asFloat 0
  let finishedAt ← defaulted o "finished_at" asFloat 0
  let executionLogs ← defaulted o "execution_logs" asStrings []
  let originatingClusterId ← defaulted o "originating_cluster_id" (asOption asStr) none
  let reportToFederation ← defaulted o "report_to_federation" asBool false
  let federationControllerUrl ← defaulted o "federation_controller_url" (asOption asStr) none
  if h : 1 ≤ requiredNodes ∧ requiredNodes ≤ 5 then
    some {
      id, type, task, requiredNodes, power, gpuRequired, assignedNodes, status, result,
      attempts, createdAt, updatedAt, startedAt, finishedAt, executionLogs,
      originatingClusterId, reportToFederation, federationControllerUrl,
      requiredNodes_ge := h.1, requiredNodes_le := h.2 }
  else none

def NodeState.modelDump (node : NodeState) : Object :=
  [("node_id",str node.nodeId),
   ("host",str node.host),
   ("port",int node.port),
   ("node_type",str (StrEnum.value node.nodeType)),
   ("has_gpu",bool node.hasGpu),
   ("node_secret",str node.nodeSecret),
   ("current_load",float node.currentLoad),
   ("healthy",bool node.healthy),
   ("running_jobs",ofStrings node.runningJobs),
   ("last_seen",float node.lastSeen),
   ("avg_latency_ms",float node.avgLatencyMs),
   ("queue_size",int node.queueSize),
   ("jobs_completed_ok",int node.jobsCompletedOk),
   ("jobs_failed",int node.jobsFailed),
   ("total_cpu_ms",float node.totalCpuMs),
   ("historical_load_ema",float node.historicalLoadEma)]

/-- `NodeState(**o)`. -/
def NodeState.ofJson (o : Object) : Option NodeState := do
  let nodeId ← required o "node_id" asStr
  let host ← required o "host" asStr
  let port ← required o "port" asInt
  let nodeType ← required o "node_type" asEnum
  let hasGpu ← defaulted o "has_gpu" asBool false
  let nodeSecret ← defaulted o "node_secret" asStr ""
  let currentLoad ← defaulted o "current_load" asFloat 0
  let healthy ← defaulted o "healthy" asBool true
  let runningJobs ← defaulted o "running_jobs" asStrings []
  let lastSeen ← defaulted o "last_seen" asFloat 0
  let avgLatencyMs ← defaulted o "avg_latency_ms" asFloat 0
  let queueSize ← defaulted o "queue_size" asInt 0
  let jobsCompletedOk ← defaulted o "jobs_completed_ok" asNat 0
  let jobsFailed ← defaulted o "jobs_failed" asNat 0
  let totalCpuMs ← defaulted o "total_cpu_ms" asFloat 0
  let historicalLoadEma ← defaulted o "historical_load_ema" asFloat 0
  some {
    nodeId, host, port, nodeType, hasGpu, nodeSecret, currentLoad, healthy, runningJobs,
    lastSeen, avgLatencyMs, queueSize, jobsCompletedOk, jobsFailed, totalCpuMs,
    historicalLoadEma }

def EventRecord.modelDump (event : EventRecord) : Object :=
  [("ts",float event.ts),
   ("level",str event.level),
   ("event",str event.event),
   ("details",obj event.details)]

/-- `EventRecord(**o)`. -/
def EventRecord.ofJson (o : Object) : Option EventRecord := do
  let ts ← required o "ts" asFloat
  let level ← required o "level" asStr
  let event ← required o "event" asStr
  let details ← defaulted o "details" asObject []
  some { ts, level, event, details }

/-- What `model_dump` writes is read back as the same record. -/
@[simp] theorem JobRecord.ofJson_modelDump (job : JobRecord) :
    JobRecord.ofJson job.modelDump = some job := by
  have h : 1 ≤ job.requiredNodes ∧ job.requiredNodes ≤ 5 :=
    ⟨job.requiredNodes_ge,job.requiredNodes_le⟩
  simp [JobRecord.ofJson, JobRecord.modelDump, required, defaulted, List.lookup_cons, h]

@[simp] theorem NodeState.ofJson_modelDump (node : NodeState) :
    NodeState.ofJson node.modelDump = some node := by
  simp [NodeState.ofJson, NodeState.modelDump, required, defaulted, List.lookup_cons]

@[simp] theorem EventRecord.ofJson_modelDump (event : EventRecord) :
    EventRecord.ofJson event.modelDump = some event := by
  simp [EventRecord.ofJson, EventRecord.modelDump, required, defaulted, List.lookup_cons]

end Arsonist.Shared
