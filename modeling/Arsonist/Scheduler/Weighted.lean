import Arsonist.Shared.Models
import Mathlib.Data.List.Sort
import Mathlib.Data.Rat.Floor

/-! The weighted scheduler of `scheduler/weighted.py`, over exact rationals. -/
namespace Arsonist.Scheduler
open Arsonist.Library Arsonist.Shared

/-- The larger of the measured latency and the load average's hint, and at least one. -/
def latencyPredictionMs (node : NodeState) : ℚ :=
  max (max node.avgLatencyMs (node.historicalLoadEma*1200)) 1

def historyReliability (node : NodeState) : ℚ :=
  let total := node.jobsCompletedOk + node.jobsFailed
  if total = 0 then 1/2 else (node.jobsCompletedOk : ℚ)/total

/-- Round to the nearest integer, ties to even. -/
def roundHalfEven (q : ℚ) : ℤ :=
  let n := ⌊q⌋
  if q-n < 1/2 then n else if 1/2 < q-n then n+1 else if n % 2 = 0 then n else n+1

def nodeScore (node : NodeState) (job : JobRequest) : ℚ :=
  let load := max 0 (1-node.currentLoad)*(32/100)
  let gpu := if job.gpuRequired && node.hasGpu then 28/100 else if node.hasGpu then 12/100 else 0
  let latency := max 0 (1-min (latencyPredictionMs node) 2500/2500)*(18/100)
  let queue := max 0 (1-min (node.queueSize : ℚ) 50/50)*(10/100)
  let history := (historyReliability node-1/2)*(30/100)
  let gpu := if job.power = .high && !node.hasGpu then gpu-25/100 else gpu
  let gpu := if job.gpuRequired && !node.hasGpu then gpu-55/100 else gpu
  roundHalfEven ((load+gpu+latency+queue+history)*1000000)/1000000

/-- The eligible nodes with their scores, best first. Equal scores keep their order. -/
def rankNodes (job : JobRequest) (nodes : List NodeState) : List (NodeState × ℚ) :=
  let eligible := nodes.filter (fun n => n.healthy)
  let eligible := if job.gpuRequired then eligible.filter (fun n => n.hasGpu) else eligible
  (eligible.map (fun n => (n,nodeScore n job))).insertionSort (fun a b => b.2 ≤ a.2)

def selectBestNodes (job : JobRequest) (nodes : List NodeState) : List NodeState :=
  ((rankNodes job nodes).take job.requiredNodes).map Prod.fst

/-- `control_plane/scheduler.py` forwards to the weighted scheduler. -/
def selectNodes (job : JobRequest) (candidates : List NodeState) : List NodeState :=
  selectBestNodes job candidates

/-- Ranking permutes a part of the nodes. -/
lemma rankNodes_subperm (job : JobRequest) (nodes : List NodeState) :
    ((rankNodes job nodes).map Prod.fst).Subperm nodes := by
  have hsort := (List.perm_insertionSort (fun a b : NodeState × ℚ => b.2 ≤ a.2)
    ((if job.gpuRequired then (nodes.filter (fun n => n.healthy)).filter (fun n => n.hasGpu)
      else nodes.filter (fun n => n.healthy)).map (fun n => (n,nodeScore n job)))).map Prod.fst
  rw [List.map_map, show (Prod.fst ∘ fun n => (n,nodeScore n job)) = id from rfl,
    List.map_id] at hsort
  refine hsort.subperm.trans ?_
  split_ifs
  · exact (List.filter_sublist.trans List.filter_sublist).subperm
  · exact List.filter_sublist.subperm

lemma selectNodes_subperm (job : JobRequest) (nodes : List NodeState) :
    (selectNodes job nodes).Subperm nodes :=
  ((List.take_sublist _ _).map Prod.fst).subperm.trans (rankNodes_subperm job nodes)

/-- Selected nodes are among the candidates. -/
theorem selectNodes_subset {job : JobRequest} {nodes : List NodeState} {n : NodeState}
    (h : n ∈ selectNodes job nodes) : n ∈ nodes := (selectNodes_subperm job nodes).subset h

theorem selectNodes_length (job : JobRequest) (nodes : List NodeState) :
    (selectNodes job nodes).length ≤ job.requiredNodes := by
  simp [selectNodes, selectBestNodes]

/-- No node of a table is selected twice. -/
theorem selectNodes_nodup (job : JobRequest) (nodes : Table NodeState) :
    ((selectNodes job nodes.entries).map (fun n => n.nodeId)).Nodup := by
  obtain ⟨l,hperm,hsub⟩ := selectNodes_subperm job nodes.entries
  exact (hperm.map (fun n => n.nodeId)).nodup_iff.mp (nodes.nodup.sublist (hsub.map _))

end Arsonist.Scheduler
