import Mathlib.Data.List.Sort
import Mathlib.Data.Rat.Defs
import Arsonist.Library.Keyed
import Arsonist.Library.Runs

/-! The scheduler of the workloads of edge nodes: a queue that a submission sorts by priority, the
workloads that run, and for each node how many of them it may take and has. -/
namespace Arsonist.Edge
open Arsonist.Library

inductive EdgeWorkloadStatus | queued | running | completed | failed
  deriving DecidableEq, Repr

structure EdgeWorkload where
  workloadId : String
  priority : ℤ := 0
  startedAt : ℚ := 0
  completedAt : ℚ := 0
  status : EdgeWorkloadStatus := .queued
  assignedNode : String := ""
  deriving DecidableEq

instance : Keyed EdgeWorkload String := ⟨EdgeWorkload.workloadId⟩

/-- An item of `_node_capacity` or of `_node_current_load`. -/
structure NodeCount where
  nodeId : String
  count : ℤ
  deriving DecidableEq

instance : Keyed NodeCount String := ⟨NodeCount.nodeId⟩

theorem NodeCount.key_eq (node : NodeCount) : Keyed.key node = node.nodeId := rfl

structure EdgeScheduler where
  queue : List EdgeWorkload := []
  running : Table EdgeWorkload := .empty
  completed : List EdgeWorkload := []
  nodeCapacity : Table NodeCount := .empty
  nodeCurrentLoad : Table NodeCount := .empty

/-- A call to the scheduler, with the time that it reads. -/
inductive EdgeSchedulerCall where
  | registerNode (nodeId : String) (capacity : ℤ)
  | unregisterNode (nodeId : String)
  | submit (workload : EdgeWorkload)
  | scheduleNext (now : ℚ)
  | complete (now : ℚ) (workloadId : String) (success : Bool)

def EdgeWorkload.requeued (wl : EdgeWorkload) : EdgeWorkload :=
  { wl with status := .queued, assignedNode := "" }

def EdgeWorkload.started (wl : EdgeWorkload) (nodeId : String) (now : ℚ) : EdgeWorkload :=
  { wl with assignedNode := nodeId, startedAt := now, status := .running }

def EdgeWorkload.ended (wl : EdgeWorkload) (now : ℚ) (success : Bool) : EdgeWorkload :=
  { wl with completedAt := now, status := if success then .completed else .failed }

namespace EdgeScheduler
variable (s : EdgeScheduler)

def registerNode (nodeId : String) (capacity : ℤ) : EdgeScheduler :=
  { s with
    nodeCapacity := s.nodeCapacity.put ⟨nodeId,capacity⟩,
    nodeCurrentLoad := match s.nodeCurrentLoad.get? nodeId with
      | some _ => s.nodeCurrentLoad
      | none => s.nodeCurrentLoad.put ⟨nodeId,0⟩ }

/-- The running workloads that `unregister_node` puts back. -/
def toRequeue (nodeId : String) : List EdgeWorkload :=
  (s.running.entries.filter fun wl => wl.assignedNode = nodeId).map EdgeWorkload.requeued

def unregisterNode (nodeId : String) : EdgeScheduler × List EdgeWorkload :=
  let orphaned := s.toRequeue nodeId
  ({ s with
      queue := s.queue ++ orphaned,
      running := orphaned.foldl (fun running wl => running.erase wl.workloadId) s.running,
      nodeCapacity := s.nodeCapacity.erase nodeId,
      nodeCurrentLoad := s.nodeCurrentLoad.erase nodeId },orphaned)

/-- `sort` with `reverse=True` keeps the order of workloads with one priority. -/
def submit (workload : EdgeWorkload) : EdgeScheduler :=
  { s with queue := (s.queue ++ [workload]).insertionSort fun a b => b.priority ≤ a.priority }

/-- The load of a node, 0 for one without a counter. -/
def currentLoad (nodeId : String) : ℤ :=
  (s.nodeCurrentLoad.get? nodeId).elim 0 NodeCount.count

/-- One round of the loop of `_pick_node`, with the best node so far and its headroom. -/
def pickStep (best : Option String × ℤ) (node : NodeCount) : Option String × ℤ :=
  let headroom := node.count-s.currentLoad node.nodeId
  if 0 < headroom ∧ best.2 < headroom then (some node.nodeId,headroom) else best

def pickNode : Option String := (s.nodeCapacity.entries.foldl s.pickStep (none,-1)).1

/-- A node with the empty id counts as none. -/
def scheduleNext (now : ℚ) : EdgeScheduler × Option EdgeWorkload :=
  match s.queue with
  | [] => (s,none)
  | workload :: queue =>
    match s.pickNode with
    | none => (s,none)
    | some bestNode =>
      if bestNode = "" then (s,none)
      else
        let workload := workload.started bestNode now
        ({ s with
            queue := queue,
            running := s.running.put workload,
            nodeCurrentLoad := s.nodeCurrentLoad.put ⟨bestNode,s.currentLoad bestNode+1⟩ },
          some workload)

/-- The loads when a workload of a node has ended, not below 0. -/
def released (nodeId : String) : Table NodeCount :=
  match s.nodeCurrentLoad.get? nodeId with
  | some load => s.nodeCurrentLoad.put ⟨nodeId,max 0 (load.count-1)⟩
  | none => s.nodeCurrentLoad

/-- The last 500 of the completed workloads are kept. -/
def recorded (wl : EdgeWorkload) : List EdgeWorkload :=
  let completed := s.completed ++ [wl]
  if 500 < completed.length then completed.drop (completed.length-500) else completed

def complete (now : ℚ) (workloadId : String) (success : Bool) :
    EdgeScheduler × Option EdgeWorkload :=
  match s.running.get? workloadId with
  | none => (s,none)
  | some wl =>
    let wl := wl.ended now success
    ({ s with
        running := s.running.erase workloadId,
        nodeCurrentLoad := s.released wl.assignedNode,
        completed := s.recorded wl },
      some wl)

def exec (s : EdgeScheduler) : EdgeSchedulerCall → EdgeScheduler
  | .registerNode nodeId capacity => s.registerNode nodeId capacity
  | .unregisterNode nodeId => (s.unregisterNode nodeId).1
  | .submit workload => s.submit workload
  | .scheduleNext now => (s.scheduleNext now).1
  | .complete now workloadId success => (s.complete now workloadId success).1

variable {s}

/-- The node that is picked is registered, and has room for one workload more. -/
theorem room_of_pickNode {nodeId : String} (h : s.pickNode = some nodeId) :
    ∃ capacity, s.nodeCapacity.get? nodeId = some ⟨nodeId,capacity⟩ ∧
      s.currentLoad nodeId < capacity := by
  have hloop : ∀ nodes : List NodeCount, (∀ node ∈ nodes, node ∈ s.nodeCapacity.entries) →
      (nodes.foldl s.pickStep (none,-1)).1 = some nodeId →
      ∃ capacity, s.nodeCapacity.get? nodeId = some ⟨nodeId,capacity⟩ ∧
        s.currentLoad nodeId < capacity := by
    intro nodes hnodes hbest
    induction nodes using List.reverseRecOn with
    | nil => cases hbest
    | append_singleton nodes node ih =>
      obtain ⟨hnodes,hnode⟩ := List.forall_mem_append.mp hnodes
      rw [List.foldl_append, List.foldl_cons, List.foldl_nil, pickStep] at hbest
      split_ifs at hbest with hroom
      · obtain rfl := Option.some.inj hbest
        exact ⟨node.count,Table.get?_of_mem (hnode node List.mem_cons_self),by omega⟩
      · exact ih hnodes hbest
  exact hloop _ (fun _ hnode => hnode) h

/-- A workload that is returned was the first of the queue, and is given to the node that is
picked. -/
theorem scheduleNext_cases (s : EdgeScheduler) (now : ℚ) :
    s.scheduleNext now = (s,none) ∨
      ∃ first queue nodeId, s.queue = first :: queue ∧ s.pickNode = some nodeId ∧ nodeId ≠ "" ∧
        s.scheduleNext now =
          ({ s with
              queue := queue,
              running := s.running.put (first.started nodeId now),
              nodeCurrentLoad := s.nodeCurrentLoad.put ⟨nodeId,s.currentLoad nodeId+1⟩ },
            some (first.started nodeId now)) := by
  rw [scheduleNext]
  cases hqueue : s.queue with
  | nil => exact Or.inl rfl
  | cons first queue =>
    cases hpick : s.pickNode with
    | none => exact Or.inl rfl
    | some nodeId =>
      dsimp only
      by_cases hempty : nodeId = ""
      · rw [if_pos hempty]
        exact Or.inl rfl
      · rw [if_neg hempty]
        exact Or.inr ⟨first,queue,nodeId,rfl,rfl,hempty,rfl⟩

end EdgeScheduler
end Arsonist.Edge
