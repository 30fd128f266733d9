import Arsonist.Shared.Models

/-! `ClusterMemory` of `control_plane/memory.py`: the live maps of nodes and jobs, the
queue, and the database behind them. Objects are referred to by their ids: a handle on a
record is its key in the live map, and a change in place is a change of that entry. -/
namespace Arsonist.ControlPlane
open Arsonist.Library Arsonist.Shared

inductive Backend | sqlite | postgres
  deriving DecidableEq, Repr

/-- The process environment: `ARSONIST_DATABASE_URL` selects the backend. -/
structure Config where
  backend : Backend := .sqlite
  federationUrl : String := ""
  clusterId : String := ""
  loadEmaBeta : ℚ := 1/4

/-- A row of the node or job table: the key column and the serialised record. -/
structure Row where
  key : String
  payload : Json.Object

structure SecretRow where
  nodeId : NodeId
  nodeSecret : String

structure RegistryRow where
  k : String
  v : Json.Object
  updatedAt : ℚ

instance : Keyed Row String := ⟨Row.key⟩
instance : Keyed SecretRow NodeId := ⟨SecretRow.nodeId⟩
instance : Keyed RegistryRow String := ⟨RegistryRow.k⟩

@[simp] theorem Row.key_mk (k : String) (o : Json.Object) : Keyed.key (Row.mk k o) = k := rfl

structure Database where
  nodes : Table Row := .empty
  jobs : Table Row := .empty
  queue : List JobId := []
  events : List Json.Object := []
  nodeSecrets : Table SecretRow := .empty
  registryKv : Table RegistryRow := .empty

structure ClusterMemory where
  nodes : Table NodeState := .empty
  jobs : Table JobRecord := .empty
  queue : List JobId := []
  events : List EventRecord := []

/-- The payload of a completion report. -/
structure Report where
  jobId : JobId
  clusterId : String
  ok : Bool
  result : Json.Object

/-- What the control plane does to a job, in the order in which it does it. -/
inductive Action
  | submitted (job : JobId) (federated : Bool)
  | requeued (job : JobId)
  | exhausted (job : JobId)
  | started (job : JobId)
  | dispatched (node : NodeId) (job : JobId)
  | finished (job : JobId) (ok : Bool)
  | reported (report : Report)

/-- The database just after a transaction, and the job that is in hand at that point. -/
structure Commit where
  db : Database
  hand : Option JobId

/-- One control-plane process, its database, the clock, and the executions that nodes have
begun. The last three fields are history that no operation reads: the actions so far, the
commits so far, and the job in hand. A job is in hand from the commit
that takes it out of the durable queue, or saves it as queued outside of that queue, until
the operation has a place for it from which a restart finds it. -/
structure State where
  memory : ClusterMemory := {}
  db : Database := {}
  now : ℚ := 0
  executing : List (NodeId × JobId) := []
  actions : List Action := []
  commits : List Commit := []
  hand : Option JobId := none

/-- `time.time()` rendered by an f-string in front of a log message. -/
def stamp (ts : ℚ) (message : String) : String := toString ts ++ ": " ++ message

/-- A node record just after `add_node` has stamped it. -/
def seen (ts : ℚ) (node : NodeState) : NodeState := { node with lastSeen := ts }

/-- A stored node takes over the address and the kind of a registration, and is healthy. -/
def merged (node existing : NodeState) : NodeState :=
  { existing with
    host := node.host, port := node.port, nodeType := node.nodeType, hasGpu := node.hasGpu
    healthy := true }

namespace State

abbrev job? (s : State) (id : JobId) : Option JobRecord := s.memory.jobs.get? id
abbrev node? (s : State) (id : NodeId) : Option NodeState := s.memory.nodes.get? id

/-- Run one transaction. -/
def commit (s : State) (f : Database → Database) : State :=
  { s with db := f s.db, commits := s.commits ++ [⟨f s.db,s.hand⟩] }

def act (s : State) (a : Action) : State := { s with actions := s.actions ++ [a] }

def holding (s : State) (job : Option JobId) : State := { s with hand := job }

/-- Take a job in hand, unless the durable queue holds it. -/
def takeInHand (s : State) (id : JobId) : State :=
  s.holding (if id ∈ s.db.queue then none else some id)

/-- Change a job record in place. -/
def modifyJob (s : State) (id : JobId) (f : JobRecord → JobRecord) : State :=
  { s with memory := { s.memory with jobs := s.memory.jobs.modify id f } }

/-- Change a node record in place. -/
def modifyNode (s : State) (id : NodeId) (f : NodeState → NodeState) : State :=
  { s with memory := { s.memory with nodes := s.memory.nodes.modify id f } }

def putJob (s : State) (job : JobRecord) : State :=
  { s with memory := { s.memory with jobs := s.memory.jobs.put job } }

def putNode (s : State) (node : NodeState) : State :=
  { s with memory := { s.memory with nodes := s.memory.nodes.put node } }

def dropNode (s : State) (id : NodeId) : State :=
  { s with memory := { s.memory with nodes := s.memory.nodes.erase id } }

def setQueue (s : State) (queue : List JobId) : State :=
  { s with memory := { s.memory with queue := queue } }

def emit (s : State) (level event : String) (details : Json.Object) : State :=
  let record : EventRecord := ⟨s.now,level,event,details⟩
  { s with memory := { s.memory with events := s.memory.events ++ [record] } }.commit
    fun db => { db with events := db.events ++ [record.modelDump] }

/-- `save_job`. The map entry is already the record itself. -/
def saveJob (s : State) (id : JobId) : State :=
  match s.job? id with
  | none => s
  | some job => s.commit fun db => { db with jobs := db.jobs.replace ⟨job.id,job.modelDump⟩ }

def persistNode (s : State) (id : NodeId) : State :=
  match s.node? id with
  | none => s
  | some node =>
    s.commit fun db => { db with nodes := db.nodes.replace ⟨node.nodeId,node.modelDump⟩ }

def persistQueueSqlite (s : State) : State :=
  s.commit fun db => { db with queue := s.memory.queue }

def appendQueuePg (s : State) (id : JobId) : State :=
  s.commit fun db => { db with queue := if id ∈ db.queue then db.queue else db.queue ++ [id] }

def saveNodeSecret (s : State) (id : NodeId) (secret : String) : State :=
  s.commit fun db => { db with nodeSecrets := db.nodeSecrets.replace ⟨id,secret⟩ }

def getNodeSecret (s : State) (id : NodeId) : Option String :=
  (s.db.nodeSecrets.get? id).map SecretRow.nodeSecret

def registryPut (s : State) (k : String) (v : Json.Object) : State :=
  s.commit fun db => { db with registryKv := db.registryKv.replace ⟨k,v,s.now⟩ }

variable (cfg : Config)

/-- `persist_queue`: the shared queue table of PostgreSQL is never rewritten. -/
def persistQueue (s : State) : State :=
  match cfg.backend with
  | .sqlite => s.persistQueueSqlite
  | .postgres => s

/-- The second half of `enqueue_job` and of `ensure_job_queued`. -/
def writeQueue (s : State) (id : JobId) : State :=
  match cfg.backend with
  | .sqlite => s.persistQueueSqlite
  | .postgres => s.appendQueuePg id

def appendQueue (s : State) (id : JobId) : State :=
  if id ∈ s.memory.queue then s else s.setQueue (s.memory.queue ++ [id])

def ensureJobQueued (s : State) (id : JobId) : State :=
  ((s.appendQueue id).holding none).writeQueue cfg id

def enqueueJob (s : State) (job : JobRecord) : State :=
  let s := (s.putJob job).act (.submitted job.id job.reportToFederation)
  let s := (s.appendQueue job.id).takeInHand job.id
  ((s.saveJob job.id).holding none).writeQueue cfg job.id

/-- What is in hand once the queue has given up an id. -/
def inHand (s : State) (id : JobId) : Option JobId :=
  match s.job? id with
  | some job => if job.status.terminal then none else some id
  | none => none

/-- The SQLite branch of `pop_next_job`. -/
def popNextJobSqlite (s : State) : State × Option JobRecord :=
  match s.memory.queue with
  | [] => (s,none)
  | id :: rest =>
    let s := s.setQueue rest
    ((s.holding (s.inHand id)).persistQueueSqlite,s.job? id)

/-- The PostgreSQL branch: the head row of the shared queue is deleted, and a record that
this process holds already is preferred to the saved row. -/
def popNextJobPg (s : State) : State × Option JobRecord :=
  match s.db.queue with
  | [] => (s,none)
  | id :: rest =>
    let t := (s.holding (s.inHand id)).commit fun db => { db with queue := rest }
    if id = "" then (t,none)
    else
      match s.job? id with
      | some job => (t.setQueue (s.memory.queue.erase id),some job)
      | none =>
        match (s.db.jobs.get? id).bind (fun row => JobRecord.ofJson row.payload) with
        | none => (t,none)
        | some job => ((t.putJob job).setQueue (s.memory.queue.erase id),some job)

def popNextJob (s : State) : State × Option JobRecord :=
  match cfg.backend with
  | .sqlite => s.popNextJobSqlite
  | .postgres => s.popNextJobPg

/-- The record that `add_node` stores: a known node takes over the address and the kind of
the given record and keeps everything else, a new one is stored as it is. -/
def joined (s : State) (node : NodeState) : NodeState :=
  match s.node? node.nodeId with
  | some existing => merged node existing
  | none => node

/-- `add_node`: the stored record is stamped as just seen and persisted. -/
def addNode (s : State) (node : NodeState) : State :=
  ((s.putNode (seen s.now (s.joined node))).persistNode node.nodeId).emit "info" "node_joined"
    [("node_id",.str node.nodeId)]

/-- `add_node(node)` where `node` is the stored object itself. -/
def refreshNode (s : State) (id : NodeId) : State :=
  match s.node? id with
  | some node => s.addNode node
  | none => s

/-- The change of a stored node that handlers make: some fields in place, then `add_node`. -/
def touchNode (s : State) (id : NodeId) (f : NodeState → NodeState) : State :=
  (s.modifyNode id f).refreshNode id

def removeNode (s : State) (id : NodeId) : State :=
  let node := s.node? id
  let s := (s.dropNode id).commit fun db => { db with nodes := db.nodes.erase id }
  match node with
  | some _ => s.emit "warning" "node_removed" [("node_id",.str id)]
  | none => s

end State

/-! ### Frames -/

/-- Everything of a state that concerns jobs. -/
structure JobSide where
  jobs : Table JobRecord
  queue : List JobId
  jobRows : Table Row
  queueRows : List JobId
  actions : List Action
  hand : Option JobId

/-- Everything of a state that concerns nodes, and the clock. -/
structure NodeSide where
  nodes : Table NodeState
  nodeRows : Table Row
  executing : List (NodeId × JobId)
  now : ℚ

namespace State

def jobSide (s : State) : JobSide :=
  ⟨s.memory.jobs,s.memory.queue,s.db.jobs,s.db.queue,s.actions,s.hand⟩

def nodeSide (s : State) : NodeSide := ⟨s.memory.nodes,s.db.nodes,s.executing,s.now⟩

variable (s : State)

@[simp] theorem emit_jobSide (l e : String) (d : Json.Object) :
    (s.emit l e d).jobSide = s.jobSide := rfl
@[simp] theorem emit_nodeSide (l e : String) (d : Json.Object) :
    (s.emit l e d).nodeSide = s.nodeSide := rfl

@[simp] theorem saveJob_nodeSide (id : JobId) : (s.saveJob id).nodeSide = s.nodeSide := by
  unfold saveJob; split <;> rfl
@[simp] theorem saveJob_memory (id : JobId) : (s.saveJob id).memory = s.memory := by
  unfold saveJob; split <;> rfl
@[simp] theorem saveJob_actions (id : JobId) : (s.saveJob id).actions = s.actions := by
  unfold saveJob; split <;> rfl
@[simp] theorem saveJob_queueRows (id : JobId) : (s.saveJob id).db.queue = s.db.queue := by
  unfold saveJob; split <;> rfl
@[simp] theorem saveJob_hand (id : JobId) : (s.saveJob id).hand = s.hand := by
  unfold saveJob; split <;> rfl

variable (cfg : Config)

@[simp] theorem persistQueue_nodeSide : (s.persistQueue cfg).nodeSide = s.nodeSide := by
  unfold persistQueue; split <;> rfl
@[simp] theorem appendQueue_nodeSide (id : JobId) : (s.appendQueue id).nodeSide = s.nodeSide := by
  unfold appendQueue; split <;> rfl
@[simp] theorem writeQueue_nodeSide (id : JobId) :
    (s.writeQueue cfg id).nodeSide = s.nodeSide := by
  unfold writeQueue; split <;> rfl
@[simp] theorem ensureJobQueued_nodeSide (id : JobId) :
    (s.ensureJobQueued cfg id).nodeSide = s.nodeSide := by
  rw [ensureJobQueued, writeQueue_nodeSide]
  exact appendQueue_nodeSide s id

@[simp] theorem enqueueJob_nodeSide (job : JobRecord) :
    (s.enqueueJob cfg job).nodeSide = s.nodeSide := by
  rw [enqueueJob, writeQueue_nodeSide]
  exact (saveJob_nodeSide _ _).trans (appendQueue_nodeSide _ _)

@[simp] theorem popNextJob_nodeSide : (s.popNextJob cfg).1.nodeSide = s.nodeSide := by
  unfold popNextJob
  split
  · unfold popNextJobSqlite; split <;> rfl
  · unfold popNextJobPg
    split
    · rfl
    · dsimp only
      split
      · rfl
      · split
        · rfl
        · split <;> rfl

@[simp] theorem persistNode_jobSide (id : NodeId) : (s.persistNode id).jobSide = s.jobSide := by
  unfold persistNode; split <;> rfl
@[simp] theorem persistNode_memory (id : NodeId) : (s.persistNode id).memory = s.memory := by
  unfold persistNode; split <;> rfl
@[simp] theorem persistNode_executing (id : NodeId) :
    (s.persistNode id).executing = s.executing := by
  unfold persistNode; split <;> rfl
@[simp] theorem persistNode_now (id : NodeId) : (s.persistNode id).now = s.now := by
  unfold persistNode; split <;> rfl

@[simp] theorem addNode_jobSide (node : NodeState) : (s.addNode node).jobSide = s.jobSide := by
  rw [addNode, emit_jobSide, persistNode_jobSide]
  rfl

@[simp] theorem refreshNode_jobSide (id : NodeId) : (s.refreshNode id).jobSide = s.jobSide := by
  unfold refreshNode
  split
  · exact addNode_jobSide s _
  · rfl

@[simp] theorem touchNode_jobSide (id : NodeId) (f : NodeState → NodeState) :
    (s.touchNode id f).jobSide = s.jobSide := refreshNode_jobSide _ id

@[simp] theorem removeNode_jobSide (id : NodeId) : (s.removeNode id).jobSide = s.jobSide := by
  unfold removeNode
  dsimp only
  split <;> rfl

end State

/-- `_restore_sqlite` into an empty memory. A row that does not decode stops the process. -/
def restoreSqlite (db : Database) : Option ClusterMemory := do
  let nodes ← db.nodes.entries.mapM (fun row => NodeState.ofJson row.payload)
  let jobs ← db.jobs.entries.mapM (fun row => JobRecord.ofJson row.payload)
  let events ← db.events.mapM EventRecord.ofJson
  some {
    nodes := nodes.foldl Table.put .empty
    jobs := jobs.foldl Table.put .empty
    queue := db.queue
    events := events }

end Arsonist.ControlPlane
