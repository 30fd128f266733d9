import Mathlib.Data.List.MinMax
import Mathlib.Data.Prod.Lex
import Mathlib.Data.String.Basic
import Arsonist.Library.History
import Arsonist.Library.Json
import Arsonist.Library.Keyed
import Arsonist.Library.Steps
import Arsonist.Library.Text

/-! Nodes that elect a leader and vote in rounds. Who the leader is, is written down twice: as the
leader's id, and in the state of each node. A vote does not say who casts it. -/
namespace Arsonist.Coordination
open Arsonist.Library

inductive ConsensusState where
  | leader
  | follower
  | candidate
  | observer
  deriving DecidableEq

inductive VoteResult where
  | pending
  | accepted
  | rejected
  | timeout
  deriving DecidableEq

structure MeshNode where
  nodeId : String
  region : String := ""
  state : ConsensusState := .follower
  term : ℕ := 0
  lastHeartbeat : ℚ := 0
  isHealthy : Bool := true
  deriving DecidableEq

instance : Keyed MeshNode String where
  key := MeshNode.nodeId

structure ConsensusRound where
  roundId : String
  topic : String := ""
  term : ℕ := 0
  votesFor : ℤ := 0
  votesAgainst : ℤ := 0
  quorum : ℤ := 1
  result : VoteResult := .pending
  proposedAt : ℚ := 0
  decidedAt : ℚ := 0
  deriving DecidableEq

instance : Keyed ConsensusRound String where
  key := ConsensusRound.roundId

structure ConsensusMesh where
  quorumFraction : ℚ := 1/2
  maxHistory : ℤ := 500
  nodes : Table MeshNode := Table.empty
  rounds : Table ConsensusRound := Table.empty
  completedRounds : List ConsensusRound := []
  currentTerm : ℕ := 0
  leaderId : Option String := none
  events : List Json.Object := []

namespace ConsensusMesh
variable (m : ConsensusMesh)

def registerNode (now : ℚ) (n : MeshNode) : ConsensusMesh :=
  { m with nodes := m.nodes.put { n with lastHeartbeat := now, term := m.currentTerm },
           events := m.events ++ [[("type",.str "node_joined"),("node_id",.str n.nodeId),
             ("region",.str n.region),("ts",.float now)]] }

def removeNode (nodeId : String) : ConsensusMesh × Bool :=
  match m.nodes.get? nodeId with
  | none => (m,false)
  | some _ =>
    ({ m with nodes := m.nodes.erase nodeId,
              leaderId := if m.leaderId = some nodeId then none else m.leaderId },true)

def heartbeat (now : ℚ) (nodeId : String) : ConsensusMesh × Bool :=
  match m.nodes.get? nodeId with
  | none => (m,false)
  | some n =>
    ({ m with nodes := m.nodes.put { n with lastHeartbeat := now, isHealthy := true } },true)

/-- The nodes that `check_health` finds silent. -/
def silent (now timeout : ℚ) : List MeshNode :=
  m.nodes.entries.filter fun n => timeout < now-n.lastHeartbeat

def checkHealth (now timeout : ℚ) : ConsensusMesh × List String :=
  ({ m with nodes := (m.silent now timeout).foldl
              (fun t n => t.put { n with isHealthy := false }) m.nodes },
    (m.silent now timeout).map MeshNode.nodeId)

def healthy : List MeshNode := m.nodes.entries.filter fun n => n.isHealthy

/-- The healthy node with the latest heartbeat, and among those the largest id. -/
def best : Option MeshNode := m.healthy.argmax fun n => toLex (n.lastHeartbeat,n.nodeId)

def electLeader (now : ℚ) : ConsensusMesh × Option String :=
  let m := { m with currentTerm := m.currentTerm+1 }
  match m.best with
  | none => ({ m with leaderId := none },none)
  | some best =>
    let followers := m.nodes.entries.foldl
      (fun t n => t.put { n with state := .follower, term := m.currentTerm }) m.nodes
    ({ m with
        nodes := followers.put { best with state := .leader, term := m.currentTerm },
        leaderId := some best.nodeId,
        events := truncated m.maxHistory (m.events ++ [[("type",.str "leader_elected"),
          ("leader",.str best.nodeId),("term",.int m.currentTerm),("ts",.float now)]]) },
      some best.nodeId)

/-- The quorum of a round that is proposed now. -/
def quorumNow : ℤ := max 1 (Text.truncate (m.healthy.length*m.quorumFraction)+1)

def proposeRound (now : ℚ) (r : ConsensusRound) : ConsensusMesh × ConsensusRound :=
  let r := { r with proposedAt := now, term := m.currentTerm, quorum := m.quorumNow }
  ({ m with rounds := m.rounds.put r,
            events := m.events ++ [[("type",.str "round_proposed"),("round_id",.str r.roundId),
              ("topic",.str r.topic),("quorum",.int r.quorum),("ts",.float now)]] },r)

/-- `_finalize_round`, for a round that is there. -/
def finalizeRound (r : ConsensusRound) : ConsensusMesh :=
  { m with rounds := m.rounds.erase r.roundId,
           completedRounds := truncated m.maxHistory (m.completedRounds ++ [r]) }

end ConsensusMesh

/-- A vote is counted. -/
def ConsensusRound.voted (r : ConsensusRound) (approve : Bool) : ConsensusRound :=
  if approve then { r with votesFor := r.votesFor+1 }
  else { r with votesAgainst := r.votesAgainst+1 }

namespace ConsensusMesh
variable (m : ConsensusMesh)

def voteRound (now : ℚ) (roundId : String) (approve : Bool) :
    ConsensusMesh × Option ConsensusRound :=
  match m.rounds.get? roundId with
  | none => (m,none)
  | some r =>
    if r.result ≠ .pending then (m,none)
    else
      let r := r.voted approve
      if r.quorum ≤ r.votesFor then
        let r := { r with result := .accepted, decidedAt := now }
        (m.finalizeRound r,some r)
      else if r.quorum ≤ r.votesAgainst then
        let r := { r with result := .rejected, decidedAt := now }
        (m.finalizeRound r,some r)
      else ({ m with rounds := m.rounds.put r },some r)

def autoApproveRound (now : ℚ) (roundId : String) : ConsensusMesh × Option ConsensusRound :=
  match m.rounds.get? roundId with
  | none => (m,none)
  | some r =>
    let r := { r with votesFor := r.quorum, result := .accepted, decidedAt := now }
    (m.finalizeRound r,some r)

end ConsensusMesh

/-- A call of the mesh, with the time that it reads. -/
inductive MeshCall where
  | registerNode (now : ℚ) (n : MeshNode)
  | removeNode (nodeId : String)
  | heartbeat (now : ℚ) (nodeId : String)
  | checkHealth (now timeout : ℚ)
  | electLeader (now : ℚ)
  | proposeRound (now : ℚ) (r : ConsensusRound)
  | voteRound (now : ℚ) (roundId : String) (approve : Bool)
  | autoApproveRound (now : ℚ) (roundId : String)

def ConsensusMesh.exec (m : ConsensusMesh) : MeshCall → ConsensusMesh
  | .registerNode now n => m.registerNode now n
  | .removeNode id => (m.removeNode id).1
  | .heartbeat now id => (m.heartbeat now id).1
  | .checkHealth now timeout => (m.checkHealth now timeout).1
  | .electLeader now => (m.electLeader now).1
  | .proposeRound now r => (m.proposeRound now r).1
  | .voteRound now id approve => (m.voteRound now id approve).1
  | .autoApproveRound now id => (m.autoApproveRound now id).1

end Arsonist.Coordination
