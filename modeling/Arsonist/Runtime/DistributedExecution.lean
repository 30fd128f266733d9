import Arsonist.Library.History
import Arsonist.Library.Json
import Arsonist.Library.Keyed
import Arsonist.Library.Steps
import Arsonist.Library.Text
import Arsonist.Scheduler.Weighted

/-! Workloads that are split into shards. The manager counts the reports about the shards of an
execution, and finishes the execution when there are as many reports as shards. -/
namespace Arsonist.Runtime
open Arsonist.Library

/-- `round(x, 2)`. -/
def round2 (x : ℚ) : ℚ := Scheduler.roundHalfEven (x*100)/100

inductive ExecutionMode where
  | singleNode
  | dataParallel
  | modelParallel
  | pipelineParallel
  | hybrid
  deriving DecidableEq

def ExecutionMode.value : ExecutionMode → String
  | singleNode => "single_node"
  | dataParallel => "data_parallel"
  | modelParallel => "model_parallel"
  | pipelineParallel => "pipeline_parallel"
  | hybrid => "hybrid"

inductive ShardState where
  | pending
  | running
  | completed
  | failed
  deriving DecidableEq

structure ExecutionShard where
  shardId : String
  executionId : String := ""
  region : String := ""
  state : ShardState := .pending
  tokensProcessed : ℤ := 0
  executionTimeMs : ℚ := 0
  startedAt : ℚ := 0
  completedAt : ℚ := 0
  deriving DecidableEq

structure DistributedExecution where
  executionId : String
  workloadId : String := ""
  mode : ExecutionMode := .singleNode
  totalShards : ℤ := 1
  completedShards : ℤ := 0
  failedShards : ℤ := 0
  regions : List String := []
  shards : List ExecutionShard := []
  totalTokens : ℤ := 0
  aggregateTimeMs : ℚ := 0
  createdAt : ℚ := 0
  completedAt : ℚ := 0
  deriving DecidableEq

instance : Keyed DistributedExecution String where
  key := DistributedExecution.executionId

namespace DistributedExecution
variable (e : DistributedExecution)

/-- The first shard of the name. -/
def shard (shardId : String) : Option ExecutionShard :=
  e.shards.find? fun s => s.shardId = shardId

/-- The shards, with the first one of the name changed. -/
def withShard (shardId : String) (f : ExecutionShard → ExecutionShard) : List ExecutionShard :=
  e.shards.replaceF fun s => if s.shardId = shardId then some (f s) else none

end DistributedExecution

def ExecutionShard.started (now : ℚ) (s : ExecutionShard) : ExecutionShard :=
  { s with state := .running, startedAt := now }

def ExecutionShard.reported (now : ℚ) (tokens : ℤ) (success : Bool) (s : ExecutionShard) :
    ExecutionShard :=
  { s with completedAt := now,
           executionTimeMs := if s.startedAt ≠ 0 then round2 ((now-s.startedAt)*1000) else 0,
           tokensProcessed := tokens,
           state := if success then .completed else .failed }

structure DistributedExecutionManager where
  maxHistory : ℤ := 500
  executions : Table DistributedExecution := Table.empty
  completed : List DistributedExecution := []
  totalCreated : ℕ := 0
  totalCompleted : ℕ := 0
  totalShardsCompleted : ℕ := 0
  events : List Json.Object := []

namespace DistributedExecutionManager
variable (m : DistributedExecutionManager)

def createExecution (now : ℚ) (e : DistributedExecution) : DistributedExecutionManager :=
  let e := { e with createdAt := now, totalShards := e.shards.length }
  { m with executions := m.executions.put e,
           totalCreated := m.totalCreated+1,
           events := truncated m.maxHistory (m.events ++ [[("type",.str "execution_created"),
             ("execution_id",.str e.executionId),("mode",.str e.mode.value),
             ("shards",.int e.totalShards),("regions",.ofStrings e.regions),
             ("ts",.float now)]]) }

/-- The execution that `plan_execution` creates. A region may come without an id. -/
def planned (now : ℚ) (workloadId : String) (mode : ExecutionMode)
    (regions : List (Option String)) (shardCount : ℤ) : DistributedExecution :=
  let executionId := "exec-" ++ workloadId ++ "-" ++ (Text.truncate now).repr
  let regionIds := regions.mapIdx fun i r => r.getD ("region-" ++ i.repr)
  { executionId := executionId,
    workloadId := workloadId,
    mode := mode,
    regions := regionIds,
    shards := (List.range shardCount.toNat).map fun i =>
      { shardId := executionId ++ "-shard-" ++ i.repr,
        executionId := executionId,
        region := if regionIds = [] then "" else regionIds.getD (i % regionIds.length) "" } }

def planExecution (now : ℚ) (workloadId : String) (mode : ExecutionMode)
    (regions : List (Option String)) (shardCount : ℤ) : DistributedExecutionManager :=
  m.createExecution now (planned now workloadId mode regions shardCount)

def startShard (now : ℚ) (executionId shardId : String) : DistributedExecutionManager × Bool :=
  match m.executions.get? executionId with
  | none => (m,false)
  | some e =>
    match e.shard shardId with
    | none => (m,false)
    | some _ =>
      ({ m with executions := m.executions.put
                  { e with shards := e.withShard shardId (ExecutionShard.started now) } },true)

end DistributedExecutionManager

/-- The execution with the report about one of its shards counted. -/
def DistributedExecution.reported (e : DistributedExecution) (now : ℚ) (shardId : String)
    (tokens : ℤ) (success : Bool) : DistributedExecution :=
  { e with shards := e.withShard shardId (ExecutionShard.reported now tokens success),
           completedShards := if success then e.completedShards+1 else e.completedShards,
           failedShards := if success then e.failedShards else e.failedShards+1,
           totalTokens := e.totalTokens+tokens }

/-- There are as many reports as shards. -/
def DistributedExecution.Full (e : DistributedExecution) : Prop :=
  e.totalShards ≤ e.completedShards+e.failedShards

instance (e : DistributedExecution) : Decidable e.Full := inferInstanceAs (Decidable (_ ≤ _))

def DistributedExecution.closed (e : DistributedExecution) (now : ℚ) : DistributedExecution :=
  { e with completedAt := now, aggregateTimeMs := round2 ((now-e.createdAt)*1000) }

namespace DistributedExecutionManager
variable (m : DistributedExecutionManager)

/-- `_finalize_execution`, for an execution that is active. -/
def finalizeExecution (now : ℚ) (e : DistributedExecution) : DistributedExecutionManager :=
  let e := e.closed now
  { m with executions := m.executions.erase e.executionId,
           totalCompleted := m.totalCompleted+1,
           completed := truncated m.maxHistory (m.completed ++ [e]),
           events := m.events ++ [[("type",.str "execution_completed"),
             ("execution_id",.str e.executionId),("shards",.int e.totalShards),
             ("completed",.int e.completedShards),("failed",.int e.failedShards),
             ("tokens",.int e.totalTokens),("time_ms",.float e.aggregateTimeMs),
             ("ts",.float now)]] }

def completeShard (now : ℚ) (executionId shardId : String) (tokens : ℤ) (success : Bool) :
    DistributedExecutionManager × Bool :=
  match m.executions.get? executionId with
  | none => (m,false)
  | some e =>
    match e.shard shardId with
    | none => (m,false)
    | some _ =>
      let e := e.reported now shardId tokens success
      let m := { m with
        executions := m.executions.put e,
        totalShardsCompleted :=
          if success then m.totalShardsCompleted+1 else m.totalShardsCompleted }
      if e.Full then (m.finalizeExecution now e,true) else (m,true)

end DistributedExecutionManager

/-- A call of the manager, with the time that it reads. -/
inductive ExecutionCall where
  | createExecution (now : ℚ) (e : DistributedExecution)
  | planExecution (now : ℚ) (workloadId : String) (mode : ExecutionMode)
      (regions : List (Option String)) (shardCount : ℤ)
  | startShard (now : ℚ) (executionId shardId : String)
  | completeShard (now : ℚ) (executionId shardId : String) (tokens : ℤ) (success : Bool)

def DistributedExecutionManager.exec (m : DistributedExecutionManager) :
    ExecutionCall → DistributedExecutionManager
  | .createExecution now e => m.createExecution now e
  | .planExecution now workloadId mode regions shardCount =>
    m.planExecution now workloadId mode regions shardCount
  | .startShard now executionId shardId => (m.startShard now executionId shardId).1
  | .completeShard now executionId shardId tokens success =>
    (m.completeShard now executionId shardId tokens success).1

end Arsonist.Runtime
