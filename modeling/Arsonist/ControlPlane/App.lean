import Arsonist.ControlPlane.Nodes
import Arsonist.Library.Runs
import Arsonist.Scheduler.Weighted

/-! The request handlers and the scheduler step of `control_plane/app.py`, the inbound route
of `control_plane/federation_api.py` and the completion report of
`control_plane/federation_callbacks.py`. -/
namespace Arsonist.ControlPlane
open Arsonist.Library Arsonist.Shared Arsonist.Scheduler

/-- What a handler answers. `raised` stands for an exception outside of `HTTPException`. -/
inductive Response
  | ok (status : String)
  | httpError (code : ℕ) (detail : String)
  | raised
  deriving DecidableEq, Repr

/-- What a scheduler step meets outside of the process: the coordinator's answer, and the
reply of each node to a dispatch. -/
structure Surroundings where
  leader : Bool := true
  reply : NodeId → Reply

/-- An argument of a loosely typed payload: not given, not convertible, or a value. -/
inductive Arg (α : Type)
  | absent
  | invalid
  | given (value : α)

def Arg.resolve {α : Type} (default : α) : Arg α → Option α
  | absent => some default
  | invalid => none
  | given value => some value

/-- The body of a heartbeat. A node agent lists its jobs as strings. -/
structure HeartbeatPayload where
  currentLoad : Arg ℚ := .absent
  runningJobs : Option (List JobId) := none
  queueSize : Arg ℤ := .absent
  avgLatencyMs : Arg ℚ := .absent

/-- `s.rstrip("/")`. -/
def rstripSlash (s : String) : String :=
  String.ofList ((s.toList.reverse.dropWhile (· = '/')).reverse)

/-! The changes in place of the handlers, one record at a time. -/

def assigned (nodes : List NodeId) (job : JobRecord) : JobRecord :=
  { job with assignedNodes := nodes }

def withResult (payload : Json.Object) (job : JobRecord) : JobRecord :=
  { job with result := some payload }

/-- The reporting node's own counters, and its load average. -/
def credited (beta : ℚ) (ok : Bool) (n : NodeState) : NodeState :=
  let n :=
    if ok then { n with jobsCompletedOk := n.jobsCompletedOk+1 }
    else { n with jobsFailed := n.jobsFailed+1 }
  { n with historicalLoadEma := beta*n.currentLoad+(1-beta)*n.historicalLoadEma }

/-- An assigned node gives a job back: its load falls, the job leaves its list. -/
def released (job : JobId) (n : NodeState) : NodeState :=
  { n with currentLoad := max 0 (n.currentLoad-2/10), runningJobs := n.runningJobs.erase job }

def withLoad (load : ℚ) (jobs : List JobId) (n : NodeState) : NodeState :=
  { n with currentLoad := load, runningJobs := jobs }

def withQueueSize (size : ℤ) (n : NodeState) : NodeState := { n with queueSize := size }

def withLatency (latency : ℚ) (n : NodeState) : NodeState := { n with avgLatencyMs := latency }

/-- The end of a heartbeat: the node is alive. -/
def beaten (ts beta : ℚ) (n : NodeState) : NodeState :=
  { n with
    lastSeen := ts
    healthy := true
    historicalLoadEma := beta*n.currentLoad+(1-beta)*n.historicalLoadEma }

namespace State
variable (cfg : Config)

/-- The dispatch loop: the ids of the nodes whose call returned, in order. -/
def dispatchAll (job : JobId) (reply : NodeId → Reply) (s : State) :
    List NodeId → State × List NodeId
  | [] => (s,[])
  | node :: nodes =>
    let t := s.dispatchJob node job (reply node)
    if (reply node).returns then
      let rest := dispatchAll job reply t nodes
      (rest.1,node :: rest.2)
    else dispatchAll job reply (t.logJob job ("dispatch failure node=" ++ node)) nodes

/-- `schedule_once` for a job that has just been popped. -/
def placeJob (env : Surroundings) (s : State) (job : JobRecord) : State :=
  if job.status.terminal then s
  else if maxJobRetries ≤ job.attempts then
    (((s.modifyJob job.id (withStatus .failed)).act (.exhausted job.id)).holding none).logJob
      job.id "retry limit reached before dispatch"
  else
    let candidates := selectNodes job.toJobRequest s.memory.nodes.entries
    if candidates.length < job.requiredNodes then
      (s.requeueOrFail cfg job.id "insufficient_nodes").emit "warning" "insufficient_nodes"
        [("job_id",.str job.id)]
    else
      let round := (s.markRunning job.id).dispatchAll job.id env.reply
        (candidates.map fun node => node.nodeId)
      if job.requiredNodes ≤ round.2.length then
        ((round.1.modifyJob job.id (assigned round.2)).saveJob job.id).persistQueue cfg
      else round.1.requeueOrFail cfg job.id "partial_dispatch_failure"

def scheduleOnce (env : Surroundings) (s : State) : State :=
  if env.leader then
    match s.popNextJob cfg with
    | (s,none) => s
    | (s,some job) => s.placeJob cfg env job
  else s

/-- The part of `submit_job` before it calls the scheduler. -/
def acceptJob (s : State) (payload : JobRequest) : State :=
  (s.enqueueJob cfg (buildJobRecord s.now payload)).emit "info" "job_submitted"
    [("job_id",.str payload.id),("type",.str (StrEnum.value payload.type))]

def submitJob (s : State) (payload : JobRequest) (env : Surroundings) : State × Response :=
  ((s.acceptJob cfg payload).scheduleOnce cfg env,.ok "accepted")

/-- The record that the inbound route builds. -/
def inboundRecord (s : State) (payload : JobRequest) (origin : Option String) : JobRecord :=
  { buildJobRecord s.now payload with
    originatingClusterId := origin
    reportToFederation := true
    federationControllerUrl := some cfg.federationUrl }

/-- `inbound_job`, once the envelope is verified and validated. -/
def inboundJob (s : State) (payload : JobRequest) (origin : Option String)
    (env : Surroundings) : State × Response :=
  match s.job? payload.id with
  | some _ => (s,.ok "duplicate")
  | none =>
    ((s.enqueueJob cfg (s.inboundRecord cfg payload origin)).scheduleOnce cfg env,.ok "accepted")

/-- The report that is sent for a record, if one is. -/
def completionReport (job : JobRecord) : Option Report :=
  if job.reportToFederation && rstripSlash cfg.federationUrl ≠ "" then
    some ⟨job.id,cfg.clusterId,job.status = .completed,job.result.getD []⟩
  else none

def maybeReportGlobalCompletion (s : State) (id : JobId) : State :=
  match (s.job? id).bind (completionReport cfg) with
  | some report => s.act (.reported report)
  | none => s

/-- `bool(payload.get("ok", False))`. -/
def reportsOk (payload : Json.Object) : Bool :=
  match payload.lookup "ok" with
  | some v => v.truthy
  | none => false

/-- The step for the reporting node, if it is known. -/
def creditNode (s : State) (id : NodeId) (ok : Bool) : State :=
  s.touchNode id (credited cfg.loadEmaBeta ok)

/-- The step for one assigned node, if it is known. -/
def releaseNode (job : JobId) (s : State) (id : NodeId) : State := s.touchNode id (released job)

/-- The part of `job_result` before it calls the scheduler, for a known job. -/
def recordResult (s : State) (node : NodeId) (job : JobRecord) (payload : Json.Object) : State :=
  let ok := reportsOk payload
  let s := (s.modifyJob job.id (withResult payload)).markFinished job.id ok
  let s := s.creditNode cfg node ok
  let s := job.assignedNodes.foldl (releaseNode job.id) s
  let s := s.emit "info" "job_finished"
    [("job_id",.str job.id),
     ("status",.str (StrEnum.value (verdict ok))),
     ("node_id",.str node)]
  let s := s.maybeReportGlobalCompletion cfg job.id
  if ok then s else s.requeueOrFail cfg job.id "node_reported_failure"

/-- `job_result`, called by the node that authentication has established. -/
def jobResult (s : State) (node : NodeId) (id : JobId) (payload : Json.Object)
    (env : Surroundings) : State × Response :=
  match s.job? id with
  | none => (s,.httpError 404 "job not found")
  | some job => ((s.recordResult cfg node job payload).scheduleOnce cfg env,.ok "recorded")

/-- The end of `heartbeat`: the node is stamped, persisted and entered in the registry. -/
def noteHeartbeat (s : State) (id : NodeId) : State :=
  let s := s.touchNode id (beaten s.now cfg.loadEmaBeta)
  match s.node? id with
  | none => s
  | some n =>
    s.registryPut ("node:" ++ id)
      [("host",.str n.host),("port",.int n.port),("last_seen",.float n.lastSeen),
       ("load",.float n.currentLoad),("healthy",.bool n.healthy)]

/-- `heartbeat`, called by the node that authentication has established. The fields are
assigned one by one, so a bad one leaves the earlier ones behind in memory. -/
def heartbeat (s : State) (id : NodeId) (payload : HeartbeatPayload) : State × Response :=
  match s.node? id with
  | none => (s,.httpError 404 "node not registered")
  | some node =>
    match payload.currentLoad.resolve node.currentLoad with
    | none => (s,.raised)
    | some load =>
      let jobs := payload.runningJobs.getD node.runningJobs
      let s := s.modifyNode id (withLoad load jobs)
      match payload.queueSize.resolve (jobs.length : ℤ) with
      | none => (s,.raised)
      | some size =>
        let s := s.modifyNode id (withQueueSize size)
        match payload.avgLatencyMs.resolve node.avgLatencyMs with
        | none => (s,.raised)
        | some latency =>
          let s := s.modifyNode id (withLatency latency)
          (s.noteHeartbeat cfg id,.ok "ok")

end State

/-- The operations of a control plane, each taken as a whole. -/
inductive Op
  | clock (now : ℚ)
  | registerNode (payload : NodeRegistration)
  | submitJob (payload : JobRequest) (env : Surroundings)
  | inboundJob (payload : JobRequest) (origin : Option String) (env : Surroundings)
  | scheduleOnce (env : Surroundings)
  | jobResult (node : NodeId) (job : JobId) (payload : Json.Object) (env : Surroundings)
  | heartbeat (node : NodeId) (payload : HeartbeatPayload)
  | checkNodesOnce (deadAfterSec : ℚ)
  | executionEnds (node : NodeId) (job : JobId)

namespace State
variable (cfg : Config)

def perform (s : State) : Op → State × Response
  | .clock now => ({ s with now := now },.ok "")
  | .registerNode payload => (s.registerNode payload,.ok "registered")
  | .submitJob payload env => s.submitJob cfg payload env
  | .inboundJob payload origin env => s.inboundJob cfg payload origin env
  | .scheduleOnce env => (s.scheduleOnce cfg env,.ok "ok")
  | .jobResult node job payload env => s.jobResult cfg node job payload env
  | .heartbeat node payload => s.heartbeat cfg node payload
  | .checkNodesOnce deadAfterSec => (s.checkNodesOnce cfg deadAfterSec,.ok "")
  | .executionEnds node job => ({ s with executing := s.executing.erase (node,job) },.ok "")

def exec (s : State) (op : Op) : State := (s.perform cfg op).1

end State

/-! ### Inputs for the runs that are worked out by hand -/

def cpuNode (id : NodeId) : NodeRegistration := ⟨id,"10.0.0.1",9001,.cpu,false,"secret"⟩

def soloJob (id : JobId) : JobRequest :=
  { id := id, type := .shell, task := "true", power := .low, requiredNodes_ge := oneNode_ge
    requiredNodes_le := oneNode_le }

def pairJob (id : JobId) : JobRequest :=
  { id := id, type := .shell, task := "true", power := .low, requiredNodes := 2 }

/-- Every node takes the job. -/
def allAccept : Surroundings := { reply := fun _ => .accepted 5 }

/-- One node takes the job, the others refuse the connection. -/
def onlyAccepts (node : NodeId) : Surroundings :=
  { reply := fun n => if n = node then .accepted 5 else .failed false "refused" }

def succeeded : Json.Object := [("ok",.bool true)]

def notSucceeded : Json.Object := [("ok",.bool false)]

end Arsonist.ControlPlane
