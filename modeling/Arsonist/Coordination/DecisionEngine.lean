import Arsonist.Library.History
import Arsonist.Library.Json
import Arsonist.Library.Keyed
import Arsonist.Library.Steps

/-! Decisions about the infrastructure: they are proposed, voted on, executed and completed. -/
namespace Arsonist.Coordination
open Arsonist.Library

inductive DecisionType where
  | scaling
  | migration
  | placement
  | repair
  | failover
  | rebalance
  | carbonShift
  deriving DecidableEq

def DecisionType.value : DecisionType → String
  | scaling => "scaling"
  | migration => "migration"
  | placement => "placement"
  | repair => "repair"
  | failover => "failover"
  | rebalance => "rebalance"
  | carbonShift => "carbon_shift"

inductive DecisionPriority where
  | critical
  | high
  | normal
  | low
  deriving DecidableEq

def DecisionPriority.value : DecisionPriority → String
  | critical => "critical"
  | high => "high"
  | normal => "normal"
  | low => "low"

inductive DecisionStatus where
  | proposed
  | voting
  | approved
  | executing
  | completed
  | rejected
  | failed
  deriving DecidableEq

structure DecisionProposal where
  proposalId : String
  decisionType : DecisionType := .placement
  priority : DecisionPriority := .normal
  status : DecisionStatus := .proposed
  votesFor : ℤ := 0
  votesAgainst : ℤ := 0
  quorumNeeded : ℤ := 1
  proposedAt : ℚ := 0
  decidedAt : ℚ := 0
  executedAt : ℚ := 0
  deriving DecidableEq

instance : Keyed DecisionProposal String where
  key := DecisionProposal.proposalId

structure DecisionEvent where
  type : String
  proposalId : String
  ts : ℚ
  extra : Json.Object := []

structure DistributedDecisionEngine where
  quorumSize : ℤ := 3
  maxHistory : ℤ := 500
  proposals : Table DecisionProposal := Table.empty
  completed : List DecisionProposal := []
  totalProposed : ℕ := 0
  totalApproved : ℕ := 0
  totalRejected : ℕ := 0
  totalExecuted : ℕ := 0
  events : List DecisionEvent := []

/-- A vote is counted. -/
def DecisionProposal.voted (p : DecisionProposal) (approve : Bool) : DecisionProposal :=
  if approve then { p with votesFor := p.votesFor+1 }
  else { p with votesAgainst := p.votesAgainst+1 }

namespace DistributedDecisionEngine
variable (e : DistributedDecisionEngine)

def addEvent (now : ℚ) (type proposalId : String) (extra : Json.Object) :
    DistributedDecisionEngine :=
  { e with events := truncated e.maxHistory (e.events ++ [⟨type,proposalId,now,extra⟩]) }

/-- `_finalize`, for a proposal that is there. -/
def finalize (p : DecisionProposal) : DistributedDecisionEngine :=
  { e with proposals := e.proposals.erase p.proposalId,
           completed := truncated e.maxHistory (e.completed ++ [p]) }

/-- A proposal has changed in place. -/
def setProposal (p : DecisionProposal) : DistributedDecisionEngine :=
  { e with proposals := e.proposals.put p }

def propose (now : ℚ) (p : DecisionProposal) : DistributedDecisionEngine × DecisionProposal :=
  let p := { p with proposedAt := now, status := .proposed, quorumNeeded := e.quorumSize }
  (({ e.setProposal p with totalProposed := e.totalProposed+1 }).addEvent now "decision_proposed"
      p.proposalId [("decision_type",.str p.decisionType.value),("priority",.str p.priority.value)],
    p)

def vote (now : ℚ) (proposalId : String) (approve : Bool) :
    DistributedDecisionEngine × Option DecisionProposal :=
  match e.proposals.get? proposalId with
  | none => (e,none)
  | some p =>
    let p := p.voted approve
    if p.quorumNeeded ≤ p.votesFor then
      let p := { p with status := .approved, decidedAt := now }
      (({ e.setProposal p with totalApproved := e.totalApproved+1 }).addEvent now
        "decision_approved" proposalId [],some p)
    else if p.quorumNeeded ≤ p.votesAgainst then
      let p := { p with status := .rejected, decidedAt := now }
      ((({ e.setProposal p with totalRejected := e.totalRejected+1 }).finalize p).addEvent now
        "decision_rejected" proposalId [],some p)
    else (e.setProposal p,some p)

def autoApprove (now : ℚ) (proposalId : String) :
    DistributedDecisionEngine × Option DecisionProposal :=
  match e.proposals.get? proposalId with
  | none => (e,none)
  | some p =>
    let p := { p with votesFor := p.quorumNeeded, status := .approved, decidedAt := now }
    (({ e.setProposal p with totalApproved := e.totalApproved+1 }).addEvent now
      "decision_auto_approved" proposalId [],some p)

def execute (now : ℚ) (proposalId : String) :
    DistributedDecisionEngine × Option DecisionProposal :=
  match e.proposals.get? proposalId with
  | none => (e,none)
  | some p =>
    if p.status ≠ .approved then (e,none)
    else
      let p := { p with status := .executing, executedAt := now }
      (e.setProposal p,some p)

def complete (now : ℚ) (proposalId : String) (success : Bool) :
    DistributedDecisionEngine × Option DecisionProposal :=
  match e.proposals.get? proposalId with
  | none => (e,none)
  | some p =>
    let p := { p with status := if success then .completed else .failed }
    ((({ e.setProposal p with totalExecuted := e.totalExecuted+1 }).finalize p).addEvent now
      (if success then "decision_completed" else "decision_failed") proposalId [],some p)

end DistributedDecisionEngine

/-- A call of the engine, with the time that it reads. -/
inductive DecisionCall where
  | propose (now : ℚ) (p : DecisionProposal)
  | vote (now : ℚ) (proposalId : String) (approve : Bool)
  | autoApprove (now : ℚ) (proposalId : String)
  | execute (now : ℚ) (proposalId : String)
  | complete (now : ℚ) (proposalId : String) (success : Bool)

namespace DecisionCall

def proposalId : DecisionCall → String
  | propose _ p => p.proposalId
  | vote _ id _ => id
  | autoApprove _ id => id
  | execute _ id => id
  | complete _ id _ => id

/-- The id that is proposed. -/
def proposes : DecisionCall → Option String
  | propose _ p => some p.proposalId
  | _ => none

/-- The id that is executed. -/
def executes : DecisionCall → Option String
  | execute _ id => some id
  | _ => none

/-- The id that is completed. -/
def completes : DecisionCall → Option String
  | complete _ id _ => some id
  | _ => none

end DecisionCall

namespace DistributedDecisionEngine

/-- The engine after a call, and the proposal that the call returns. -/
def call (e : DistributedDecisionEngine) :
    DecisionCall → DistributedDecisionEngine × Option DecisionProposal
  | .propose now p => ((e.propose now p).1,some (e.propose now p).2)
  | .vote now id approve => e.vote now id approve
  | .autoApprove now id => e.autoApprove now id
  | .execute now id => e.execute now id
  | .complete now id success => e.complete now id success

def exec (e : DistributedDecisionEngine) (c : DecisionCall) : DistributedDecisionEngine :=
  (e.call c).1

def answer (e : DistributedDecisionEngine) (c : DecisionCall) : Option DecisionProposal :=
  (e.call c).2

end DistributedDecisionEngine
end Arsonist.Coordination
