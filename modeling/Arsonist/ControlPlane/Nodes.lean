import Arsonist.ControlPlane.JobQueue
import Arsonist.ControlPlane.Membership

/-! Registration and dispatch (`control_plane/nodes.py`), and the health check that buries
dead nodes (`control_plane/health.py`). -/
namespace Arsonist.ControlPlane
open Arsonist.Library Arsonist.Shared

/-- What a dispatch request comes to. A node may have begun to execute the job although its
answer is unusable or never arrives; an accepting agent has started the execution before it
answers. -/
inductive Reply
  | accepted (latencyMs : ℚ)
  | unreadable (began : Bool) (latencyMs : ℚ) (error : String)
  | failed (began : Bool) (error : String)

/-- The node executes the job from now on. -/
def Reply.began : Reply → Bool
  | accepted _ => true
  | unreadable b _ _ => b
  | failed b _ => b

/-- The node answered with a success status. -/
def Reply.answered : Reply → Bool
  | accepted _ => true
  | unreadable _ _ _ => true
  | failed _ _ => false

/-- The dispatch call returns instead of raising. -/
def Reply.returns : Reply → Bool
  | accepted _ => true
  | unreadable _ _ _ => false
  | failed _ _ => false

/-- What a success status does to a node's record: the job goes on its list, its load grows
by a fifth up to one. -/
def taken (ts : ℚ) (job : JobId) (latencyMs : ℚ) (n : NodeState) : NodeState :=
  { n with
    currentLoad := min 1 (n.currentLoad+2/10)
    runningJobs := n.runningJobs ++ [job]
    lastSeen := ts
    avgLatencyMs :=
      if n.avgLatencyMs = 0 then latencyMs else n.avgLatencyMs*(7/10)+latencyMs*(3/10)
    queueSize := (n.runningJobs ++ [job]).length }

def unwell (n : NodeState) : NodeState := { n with healthy := false }

/-- A node has been silent for too long. -/
def isDead (now deadAfterSec : ℚ) (node : NodeState) : Prop := deadAfterSec < now-node.lastSeen

instance (now deadAfterSec : ℚ) (node : NodeState) : Decidable (isDead now deadAfterSec node) :=
  inferInstanceAs (Decidable (_ < _))

namespace State

def registerNode (s : State) (payload : NodeRegistration) : State :=
  let s := s.addNode { payload with lastSeen := s.now }
  if payload.nodeSecret = "" then s else s.saveNodeSecret payload.nodeId payload.nodeSecret

def noteAnswer (s : State) (node : NodeId) (job : JobId) (latencyMs : ℚ) : State :=
  ((s.holding none).touchNode node (taken s.now job latencyMs)).emit "info" "job_dispatched"
    [("job_id",.str job),("node_id",.str node)]

def dispatchFailed (s : State) (node : NodeId) (job : JobId) (error : String) : State :=
  s.emit "error" "job_dispatch_failed"
    [("job_id",.str job),("node_id",.str node),("error",.str error)]

/-- The request reaches the node or is lost on the way. -/
def sendJob (s : State) (node : NodeId) (job : JobId) (reply : Reply) : State :=
  let s := s.act (.dispatched node job)
  if reply.began then { s with executing := s.executing ++ [(node,job)] } else s

def dispatchJob (s : State) (node : NodeId) (job : JobId) (reply : Reply) : State :=
  let s := s.sendJob node job reply
  match reply with
  | .accepted latencyMs => s.noteAnswer node job latencyMs
  | .unreadable _ latencyMs error =>
    (s.noteAnswer node job latencyMs).dispatchFailed node job error
  | .failed _ error => s.dispatchFailed node job error

section
variable (cfg : Config)

/-- `_requeue_jobs`. -/
def requeueJobs (s : State) : List JobId → State
  | [] => s
  | id :: ids =>
    match s.job? id with
    | none => s.requeueJobs ids
    | some _ =>
      ((s.requeueOrFail cfg id "node_dead_recovery").emit "warning" "job_requeued"
        [("job_id",.str id)]).requeueJobs ids

/-- One turn of the loop of `check_nodes_once`, for a dead node. -/
def buryNode (s : State) (node : NodeState) : State :=
  let s := s.modifyNode node.nodeId unwell
  let s := s.emit "error" "node_dead"
    [("node_id",.str node.nodeId),("last_seen",.float node.lastSeen)]
  (s.removeNode node.nodeId).requeueJobs cfg node.runningJobs

def checkNodes (now deadAfterSec : ℚ) (s : State) : List NodeState → State
  | [] => s
  | node :: nodes =>
    if isDead now deadAfterSec node then (s.buryNode cfg node).checkNodes now deadAfterSec nodes
    else s.checkNodes now deadAfterSec nodes

/-- `check_nodes_once`: the loop runs over a copy of the node map. -/
def checkNodesOnce (s : State) (deadAfterSec : ℚ) : State :=
  s.checkNodes cfg s.now deadAfterSec s.memory.nodes.entries

/-! ### What registration and dispatch do -/

end

variable (cfg : Config) (s : State)

theorem registerNode_jobSide (payload : NodeRegistration) :
    (s.registerNode payload).jobSide = s.jobSide := by
  unfold registerNode
  dsimp only
  split
  · rw [addNode_jobSide]
  · exact addNode_jobSide _ _

theorem stamps_registerNode (payload : NodeRegistration) :
    Stamps s.nodeSide [payload.nodeId] (s.registerNode payload).nodeSide := by
  have h := stamps_addNode s { payload with lastSeen := s.now } fun _ => rfl
  unfold registerNode
  dsimp only
  split <;> exact h

section
variable (node : NodeId) (job : JobId)

theorem sendJob_memory (reply : Reply) : (s.sendJob node job reply).memory = s.memory := by
  unfold sendJob
  dsimp only
  split <;> rfl

theorem sendJob_db (reply : Reply) : (s.sendJob node job reply).db = s.db := by
  unfold sendJob
  dsimp only
  split <;> rfl

theorem sendJob_now (reply : Reply) : (s.sendJob node job reply).now = s.now := by
  unfold sendJob
  dsimp only
  split <;> rfl

theorem does_sendJob (reply : Reply) :
    Does s.jobSide [.dispatched node job] (s.sendJob node job reply).jobSide := by
  have h : Does s.jobSide [.dispatched node job] (s.act (.dispatched node job)).jobSide :=
    .of_edits ⟨rfl,fun k => (replay_dispatched k job _ [node]).symm,fun k => .inr ⟨rfl,rfl⟩⟩
      rfl rfl rfl
  unfold sendJob
  dsimp only
  split <;> exact h

theorem does_noteAnswer (latencyMs : ℚ) :
    Does s.jobSide [] (s.noteAnswer node job latencyMs).jobSide := by
  have h : Does s.jobSide [] (s.holding none).jobSide := .of_edits
    ((Edits.refl s.jobSide).of_same rfl rfl rfl) rfl rfl rfl
  exact h.then_eq (touchNode_jobSide (s.holding none) _ _)

theorem tends_noteAnswer (latencyMs : ℚ) :
    Tends s.nodeSide [node] (s.noteAnswer node job latencyMs).nodeSide :=
  tends_touchNode (s.holding none) node (taken s.now job latencyMs) fun _ => rfl

theorem does_dispatchJob (reply : Reply) :
    Does s.jobSide [.dispatched node job] (s.dispatchJob node job reply).jobSide := by
  unfold dispatchJob
  have hsend := does_sendJob s node job reply
  cases reply with
  | accepted l => exact hsend.quiet (does_noteAnswer _ node job l)
  | unreadable b l e => exact hsend.quiet (does_noteAnswer _ node job l)
  | failed b e => exact hsend

/-- Whom a dispatch stamps: the node, if it answered with a success status. -/
def answering (reply : NodeId → Reply) (nodes : List NodeId) : List NodeId :=
  nodes.filter fun n => (reply n).answered

theorem tends_sendJob (reply : Reply) :
    Tends s.nodeSide [] (s.sendJob node job reply).nodeSide := by
  have hm := sendJob_memory s node job reply
  have hd := sendJob_db s node job reply
  refine ⟨⟨sendJob_now s node job reply,?_,by simp,?_⟩,?_⟩ <;>
    simp [nodeSide, hm, hd]

theorem tends_dispatchJob (reply : Reply) :
    Tends s.nodeSide (if reply.answered then [node] else [])
      (s.dispatchJob node job reply).nodeSide := by
  unfold dispatchJob
  have hsend := tends_sendJob s node job reply
  cases reply with
  | accepted l => exact hsend.trans (tends_noteAnswer _ node job l)
  | unreadable b l e => exact hsend.trans (tends_noteAnswer _ node job l)
  | failed b e => exact hsend

end

/-! ### What the health check does -/

theorem requeueActions_congr {id : JobId} {p q : Option Phase}
    (h : p.map Phase.attempts = q.map Phase.attempts) :
    requeueActions id p = requeueActions id q := by
  cases p with
  | none => cases q with
    | none => rfl
    | some d => simp at h
  | some c => cases q with
    | none => simp at h
    | some d => simp only [Option.map_some, Option.some.injEq] at h; simp [requeueActions, h]

/-- Requeueing uses up no attempt. -/
theorem attempts_requeueActions (id k : JobId) (p q : Option Phase) :
    (replay k p (requeueActions id q)).map Phase.attempts = p.map Phase.attempts := by
  cases q with
  | none => rfl
  | some c =>
    by_cases hk : id = k <;> by_cases hc : maxJobRetries ≤ c.attempts <;>
      simp [requeueActions, Action.apply, Action.job, Action.next, hk, hc, Function.comp_def]

/-- The actions of `_requeue_jobs`, from the phases before it. -/
def requeuesActions (phase : JobId → Option Phase) (ids : List JobId) : List Action :=
  ids.flatMap fun id => requeueActions id (phase id)

theorem attempts_requeuesActions (k : JobId) (p : Option Phase) (phase : JobId → Option Phase)
    (ids : List JobId) :
    (replay k p (requeuesActions phase ids)).map Phase.attempts = p.map Phase.attempts := by
  induction ids generalizing p with
  | nil => rfl
  | cons id ids ih =>
    rw [requeuesActions, List.flatMap_cons, replay_append]
    exact (ih _).trans (attempts_requeueActions id k p _)

theorem requeuesActions_congr {phase phase' : JobId → Option Phase}
    (h : ∀ k, (phase k).map Phase.attempts = (phase' k).map Phase.attempts) (ids : List JobId) :
    requeuesActions phase ids = requeuesActions phase' ids := by
  unfold requeuesActions
  congr 1
  funext id
  exact requeueActions_congr (h id)

theorem does_requeueJobs (ids : List JobId) :
    Does s.jobSide (requeuesActions s.jobSide.phase ids) (s.requeueJobs cfg ids).jobSide := by
  induction ids generalizing s with
  | nil => exact .refl _
  | cons id ids ih =>
    unfold requeueJobs
    cases h : s.job? id with
    | none =>
      have hp : s.jobSide.phase id = none := by simp [JobSide.phase, jobSide, h]
      have hid : requeuesActions s.jobSide.phase (id :: ids) =
          requeuesActions s.jobSide.phase ids := by
        simp [requeuesActions, hp, requeueActions]
      rw [hid]
      exact ih s
    | some job =>
      have h1 := does_requeueOrFail cfg s id "node_dead_recovery"
      have h2 := ih ((s.requeueOrFail cfg id "node_dead_recovery").emit "warning" "job_requeued"
        [("job_id",.str id)])
      rw [emit_jobSide] at h2
      have hphase : requeuesActions (s.requeueOrFail cfg id "node_dead_recovery").jobSide.phase
          ids = requeuesActions s.jobSide.phase ids := by
        apply requeuesActions_congr
        intro k
        rw [h1.phase]
        exact attempts_requeueActions id k _ _
      rw [hphase] at h2
      exact h1.trans h2

@[simp] theorem requeueJobs_nodeSide (ids : List JobId) :
    (s.requeueJobs cfg ids).nodeSide = s.nodeSide := by
  induction ids generalizing s with
  | nil => rfl
  | cons id ids ih =>
    unfold requeueJobs
    split
    · exact ih s
    · rw [ih, emit_nodeSide, requeueOrFail_nodeSide]

theorem does_buryNode (node : NodeState) :
    Does s.jobSide (requeuesActions s.jobSide.phase node.runningJobs)
      (s.buryNode cfg node).jobSide := by
  unfold buryNode
  dsimp only
  set t := (((s.modifyNode node.nodeId unwell).emit "error" "node_dead"
    [("node_id",.str node.nodeId),("last_seen",.float node.lastSeen)]).removeNode node.nodeId)
  have hts : t.jobSide = s.jobSide := removeNode_jobSide _ _
  rw [← hts]
  exact does_requeueJobs cfg t node.runningJobs

/-- The nodes that the health check takes for dead. -/
def deadNodes (now deadAfterSec : ℚ) (nodes : List NodeState) : List NodeState :=
  nodes.filter fun n => isDead now deadAfterSec n

/-- The actions of `check_nodes_once`, from the phases before it. -/
def checkActions (now deadAfterSec : ℚ) (phase : JobId → Option Phase)
    (nodes : List NodeState) : List Action :=
  (deadNodes now deadAfterSec nodes).flatMap fun n => requeuesActions phase n.runningJobs

theorem does_checkNodes (now deadAfterSec : ℚ) (nodes : List NodeState) :
    Does s.jobSide (checkActions now deadAfterSec s.jobSide.phase nodes)
      (s.checkNodes cfg now deadAfterSec nodes).jobSide := by
  induction nodes generalizing s with
  | nil => exact .refl _
  | cons node nodes ih =>
    unfold checkNodes
    by_cases hdead : isDead now deadAfterSec node
    · rw [if_pos hdead]
      have h1 := does_buryNode cfg s node
      have h2 := ih (s.buryNode cfg node)
      have hphase : checkActions now deadAfterSec (s.buryNode cfg node).jobSide.phase nodes =
          checkActions now deadAfterSec s.jobSide.phase nodes := by
        unfold checkActions
        congr 1
        funext n
        apply requeuesActions_congr
        intro k
        rw [h1.phase]
        exact attempts_requeuesActions k _ _ _
      rw [hphase] at h2
      have hsplit : checkActions now deadAfterSec s.jobSide.phase (node :: nodes) =
          requeuesActions s.jobSide.phase node.runningJobs ++
            checkActions now deadAfterSec s.jobSide.phase nodes := by
        simp [checkActions, deadNodes, hdead]
      rw [hsplit]
      exact h1.trans h2
    · rw [if_neg hdead]
      have hsplit : checkActions now deadAfterSec s.jobSide.phase (node :: nodes) =
          checkActions now deadAfterSec s.jobSide.phase nodes := by
        simp [checkActions, deadNodes, hdead]
      rw [hsplit]
      exact ih s

theorem buries_buryNode (node : NodeState) :
    Buries s.nodeSide [node.nodeId] (s.buryNode cfg node).nodeSide := by
  unfold buryNode
  dsimp only
  rw [requeueJobs_nodeSide]
  have h := buries_removeNode ((s.modifyNode node.nodeId unwell).emit "error" "node_dead"
    [("node_id",.str node.nodeId),("last_seen",.float node.lastSeen)]) node.nodeId
  refine ⟨h.now,fun k => (h.nodes k).trans ?_,h.rows⟩
  by_cases hk : k ∈ [node.nodeId]
  · rw [if_pos hk, if_pos hk]
  · rw [if_neg hk, if_neg hk]
    refine (node?_modifyNode s node.nodeId unwell (fun _ => rfl) k).trans ?_
    exact if_neg (by simpa using hk)

theorem buries_checkNodes (now deadAfterSec : ℚ) (nodes : List NodeState) :
    Buries s.nodeSide ((deadNodes now deadAfterSec nodes).map fun n => n.nodeId)
      (s.checkNodes cfg now deadAfterSec nodes).nodeSide := by
  induction nodes generalizing s with
  | nil => exact .refl _
  | cons node nodes ih =>
    unfold checkNodes
    by_cases hdead : isDead now deadAfterSec node
    · rw [if_pos hdead, deadNodes, List.filter_cons_of_pos (by simpa using hdead)]
      exact (buries_buryNode cfg s node).trans (ih _)
    · rw [if_neg hdead, deadNodes, List.filter_cons_of_neg (by simpa using hdead)]
      exact ih s

end State
end Arsonist.ControlPlane
