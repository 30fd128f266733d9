import Arsonist.Federation.Controller
import Arsonist.Library.Interleaving

/-! The controller with all that it does at the same time. A request and an iteration of the
watch loop are processes that share the registry: each step is one read or one write of it, or
one push. `register_cluster` does not yield and is a single event. -/
namespace Arsonist.Federation
open Arsonist.Library Arsonist.Mesh

/-- A push that has ended. -/
structure Push where
  job : GlobalJobId
  cluster : ClusterId
  accepted : Bool
  deriving DecidableEq

/-- The registry and the clock, and as history the pushes that have ended, the last one first,
and the times of the heartbeats that have been written. -/
structure ControllerState where
  registry : FederationRegistry := {}
  now : ℚ := 0
  pushes : List Push := []
  beats : List (ClusterId × ℚ) := []

namespace ControllerState
variable (s : ControllerState)

def save (job : GlobalJobRecord) : ControllerState :=
  { s with registry := s.registry.saveGlobalJob s.now job }

def upsert (c : ClusterRecord) : ControllerState :=
  { s with registry := s.registry.upsertCluster c }

/-- A heartbeat, or the first one that a registration stands for. -/
def beat (c : ClusterRecord) : ControllerState :=
  { s.upsert c with beats := (c.clusterId,c.lastHeartbeat) :: s.beats }

def pushed (job : GlobalJobId) (cluster : ClusterId) (accepted : Bool) : ControllerState :=
  { s with pushes := ⟨job,cluster,accepted⟩ :: s.pushes }

end ControllerState

abbrev PendingPushes := List (GlobalJobRecord × ClusterRecord)

/-- Where a process stands: the next thing it does, and what it has read so far. -/
inductive Process
  | submitting (id : GlobalJobId) (body : SubmitGlobalJobBody)
  | deciding (gj : GlobalJobRecord)
  | routing (gj : GlobalJobRecord) (target : ClusterId)
  | fetching (routed : GlobalJobRecord) (target : ClusterId)
  | pushing (routed : GlobalJobRecord) (cluster : ClusterRecord)
  | completing (payload : GlobalJobCompletePayload)
  | recording (payload : GlobalJobCompletePayload) (job : GlobalJobRecord)
  | beating (payload : FederationHeartbeatPayload)
  | stamping (payload : FederationHeartbeatPayload) (existing : ClusterRecord)
  | storing (written : ClusterRecord)
  | watching (timeout : ℚ)
  | listing (timeout now : ℚ)
  | sweeping (timeout : ℚ) (todo : List ClusterRecord) (dead : List ClusterId)
  | failover (dead : List ClusterId)
  | collecting (dead : ClusterId) (others : List ClusterRecord) (rest : List ClusterId)
  | rerouting (dead : ClusterId) (others : List ClusterRecord) (todo : List GlobalJobRecord)
      (pushes : PendingPushes) (rest : List ClusterId)
  | handing (pushes : PendingPushes) (rest : List ClusterId)
  | done

inductive Request
  | submit (body : SubmitGlobalJobBody) (fresh : GlobalJobId)
  | complete (payload : GlobalJobCompletePayload)
  | heartbeat (payload : FederationHeartbeatPayload)
  | watch (timeout : ℚ)

inductive Outside
  | clock (now : ℚ)
  | register (body : ClusterRegistration)

/-- A registration that is refused changes nothing. -/
def outside (s : ControllerState) : Outside → ControllerState
  | .clock now => { s with now }
  | .register body =>
    match urlHolder s.registry body with
    | some _ => s
    | none => s.beat (registrationRecord s.registry s.now body)

def enter : Request → Process
  | .submit body fresh => .submitting (submittedId body fresh) body
  | .complete payload => .completing payload
  | .heartbeat payload => .beating payload
  | .watch timeout => .watching timeout

/-- One step of a process. A push ends with `pushError`; the handler of a submission writes its
record back in the step in which the push fails, the watch loop only logs the failure. -/
def next (s : ControllerState) (p : Process) (pushError : Option String) :
    ControllerState × Process :=
  match p with
  | .submitting id body =>
    let gj := acceptedJob s.now id body
    (s.save gj,.deciding (gj.stamp s.now))
  | .deciding gj =>
    let decision := decideRoute s.registry gj
    if decision.targetClusterId = "" then (s,.done)
    else (s,.routing gj decision.targetClusterId)
  | .routing gj target =>
    let routed := routedJob s.now gj target
    (s.save routed,.fetching (routed.stamp s.now) target)
  | .fetching routed target =>
    match s.registry.getCluster target with
    | none => (s,.done)
    | some cluster => (s,.pushing routed cluster)
  | .pushing routed cluster =>
    match pushError with
    | none => (s.pushed routed.id cluster.clusterId true,.done)
    | some exc =>
      ((s.pushed routed.id cluster.clusterId false).save (pushFailedJob s.now routed exc),.done)
  | .completing payload =>
    match s.registry.getGlobalJob payload.jobId with
    | none => (s,.done)
    | some job => (s,.recording payload job)
  | .recording payload job => (s.save (doneJob s.now payload job),.done)
  | .beating payload =>
    match s.registry.getCluster payload.clusterId with
    | none => (s,.done)
    | some existing => (s,.stamping payload existing)
  | .stamping payload existing => (s,.storing (beatRecord s.now existing payload))
  | .storing written => (s.beat written,.done)
  | .watching timeout => (s,.listing timeout s.now)
  | .listing timeout now =>
    (s,.sweeping timeout (s.registry.listClusters.filter (stale timeout now)) [])
  | .sweeping _ [] dead => (s,.failover dead)
  | .sweeping timeout (c :: todo) dead =>
    (s.upsert (offlineRecord c),.sweeping timeout todo (dead ++ [c.clusterId]))
  | .failover [] => (s,.done)
  | .failover (dead :: rest) => (s,.collecting dead (otherClusters s.registry dead) rest)
  | .collecting dead others rest =>
    (s,.rerouting dead others (s.registry.listGlobalJobs.filter (affected dead)) [] rest)
  | .rerouting _ _ [] pushes rest => (s,.handing pushes rest)
  | .rerouting dead others (job :: todo) pushes rest =>
    (s.save (rerouteJob s.now dead others job).1,
      .rerouting dead others todo (pushes ++ reroutePush s.now dead others job) rest)
  | .handing [] rest => (s,.failover rest)
  | .handing ((job,cluster) :: pushes) rest =>
    (s.pushed job.id cluster.clusterId pushError.isNone,.handing pushes rest)
  | .done => (s,.done)

/-- The job record that the next step of a process saves. -/
def savedJob (s : ControllerState) (p : Process) (pushError : Option String) :
    Option GlobalJobRecord :=
  match p with
  | .submitting id body => some (acceptedJob s.now id body)
  | .routing gj target => some (routedJob s.now gj target)
  | .pushing routed _ => pushError.map (pushFailedJob s.now routed)
  | .recording payload job => some (doneJob s.now payload job)
  | .rerouting dead others (job :: _) _ _ => some (rerouteJob s.now dead others job).1
  | _ => none

/-- The cluster record that the next step of a process writes. -/
def writtenCluster : Process → Option ClusterRecord
  | .storing written => some written
  | .sweeping _ (c :: _) _ => some (offlineRecord c)
  | _ => none

/-- What a step may do to the registry: it saves one job, or writes one cluster, or neither. -/
theorem registry_next (s : ControllerState) (p : Process) (pushError : Option String) :
    (next s p pushError).1.registry =
      match savedJob s p pushError with
      | some job => s.registry.saveGlobalJob s.now job
      | none =>
        match writtenCluster p with
        | some c => s.registry.upsertCluster c
        | none => s.registry := by
  cases p with
  | deciding gj =>
    change (if (decideRoute s.registry gj).targetClusterId = "" then (s,Process.done)
      else (s,.routing gj (decideRoute s.registry gj).targetClusterId)).1.registry = s.registry
    split <;> rfl
  | fetching routed target =>
    rw [next]
    cases s.registry.getCluster target <;> rfl
  | pushing routed cluster => cases pushError <;> rfl
  | completing payload =>
    rw [next]
    cases s.registry.getGlobalJob payload.jobId <;> rfl
  | beating payload =>
    rw [next]
    cases s.registry.getCluster payload.clusterId <;> rfl
  | sweeping timeout todo dead => cases todo <;> rfl
  | failover dead => cases dead <;> rfl
  | rerouting dead others todo pushes rest => cases todo <;> rfl
  | handing pushes rest => cases pushes <;> rfl
  | _ => rfl

/-- A step that saves a job writes no cluster. -/
theorem writtenCluster_of_savedJob {s : ControllerState} {p : Process}
    {pushError : Option String} {job : GlobalJobRecord} (h : savedJob s p pushError = some job) :
    writtenCluster p = none := by
  cases p with
  | storing written => cases h
  | sweeping timeout todo dead => cases h
  | _ => rfl

theorem getGlobalJob_next (s : ControllerState) (p : Process) (pushError : Option String)
    (id : GlobalJobId) :
    (next s p pushError).1.registry.getGlobalJob id =
      match savedJob s p pushError with
      | some job => if id = job.id then some (job.stamp s.now) else s.registry.getGlobalJob id
      | none => s.registry.getGlobalJob id := by
  rw [registry_next]
  cases savedJob s p pushError with
  | some job => exact FederationRegistry.getGlobalJob_saveGlobalJob s.now job id
  | none => cases writtenCluster p <;> rfl

theorem getCluster_next (s : ControllerState) (p : Process) (pushError : Option String)
    (id : ClusterId) :
    (next s p pushError).1.registry.getCluster id =
      match writtenCluster p with
      | some c => if id = c.clusterId then some c else s.registry.getCluster id
      | none => s.registry.getCluster id := by
  rw [registry_next]
  cases hjob : savedJob s p pushError with
  | some job =>
    rw [writtenCluster_of_savedJob hjob]
    rfl
  | none =>
    cases writtenCluster p with
    | some c => exact FederationRegistry.getCluster_upsertCluster c id
    | none => rfl

def controller : Program ControllerState Process Outside Request (Option String) :=
  ⟨outside,enter,next⟩

abbrev Controller := Pool ControllerState Process
abbrev ControllerEvent := PoolEvent Outside Request (Option String)

namespace Controller

/-- The controller after some events, from an empty registry. -/
def reach (events : List ControllerEvent) : Controller :=
  run (Pool.step controller) ⟨{},[]⟩ events

end Controller
end Arsonist.Federation
