import Mathlib.Data.List.Sort
import Arsonist.Runtime.DistributedExecution

/-! A runtime that queues jobs, dispatches them by priority and counts what becomes of them. A job
is known by its id in three places: the table of jobs, the queue, and the table of running jobs. -/
namespace Arsonist.Runtime
open Arsonist.Library

inductive JobState where
  | queued
  | dispatched
  | running
  | streaming
  | completed
  | failed
  | cancelled
  deriving DecidableEq

inductive JobPriority where
  | critical
  | high
  | normal
  | low
  | background
  deriving DecidableEq

def JobPriority.value : JobPriority → String
  | critical => "critical"
  | high => "high"
  | normal => "normal"
  | low => "low"
  | background => "background"

/-- `priority_order`. -/
def JobPriority.order : JobPriority → ℕ
  | critical => 0
  | high => 1
  | normal => 2
  | low => 3
  | background => 4

/-- A job. The serial number says which accepted submission it comes from; no call reads it. -/
structure RuntimeJob where
  jobId : String
  state : JobState := .queued
  priority : JobPriority := .normal
  tokensGenerated : ℤ := 0
  tokensPerSecond : ℚ := 0
  queueTimeMs : ℚ := 0
  executionTimeMs : ℚ := 0
  createdAt : ℚ := 0
  startedAt : ℚ := 0
  completedAt : ℚ := 0
  serial : ℕ := 0
  deriving DecidableEq

instance : Keyed RuntimeJob String where
  key := RuntimeJob.jobId

structure UltraScaleRuntime where
  maxConcurrent : ℤ := 1000000
  maxQueue : ℤ := 5000000
  maxHistory : ℤ := 1000
  jobs : Table RuntimeJob := Table.empty
  queued : List String := []
  running : Table RuntimeJob := Table.empty
  completed : List RuntimeJob := []
  totalSubmitted : ℕ := 0
  totalCompleted : ℕ := 0
  totalFailed : ℕ := 0
  totalTokens : ℤ := 0
  events : List Json.Object := []

/-- `__init__`. -/
abbrev UltraScaleRuntime.init (maxConcurrent maxQueue maxHistory : ℤ) : UltraScaleRuntime :=
  { maxConcurrent := maxConcurrent, maxQueue := maxQueue, maxHistory := maxHistory }

/-- The job as it leaves the queue. -/
def RuntimeJob.dispatched (job : RuntimeJob) (now : ℚ) : RuntimeJob :=
  { job with state := .dispatched, startedAt := now,
             queueTimeMs := round2 ((now-job.createdAt)*1000) }

namespace UltraScaleRuntime
variable (m : UltraScaleRuntime)

def submit (now : ℚ) (job : RuntimeJob) : UltraScaleRuntime × Bool :=
  if m.maxQueue ≤ m.queued.length then (m,false)
  else
    let job := { job with state := .queued, createdAt := now, serial := m.totalSubmitted }
    ({ m with jobs := m.jobs.put job,
              queued := m.queued ++ [job.jobId],
              totalSubmitted := m.totalSubmitted+1,
              events := truncated m.maxHistory (m.events ++ [[("type",.str "job_submitted"),
                ("job_id",.str job.jobId),("priority",.str job.priority.value),
                ("ts",.float now)]]) },true)

/-- The jobs of a batch in the order in which they are submitted. -/
def batchOrder (jobs : List RuntimeJob) : List RuntimeJob :=
  jobs.insertionSort fun a b => a.priority.order ≤ b.priority.order

def submitBatch (now : ℚ) (jobs : List RuntimeJob) : UltraScaleRuntime × ℕ :=
  (batchOrder jobs).foldl
    (fun x job => ((x.1.submit now job).1,if (x.1.submit now job).2 then x.2+1 else x.2)) (m,0)

/-- The priority of a queued id; an id without a job counts as normal. -/
def queueOrder (jobId : String) : ℕ :=
  ((m.jobs.get? jobId).elim .normal RuntimeJob.priority).order

/-- The loop of `dispatch`. An id without a job is dropped, and counts as a turn. -/
def dispatchLoop (now : ℚ) : ℕ → UltraScaleRuntime → UltraScaleRuntime × List RuntimeJob
  | 0, m => (m,[])
  | n+1, m =>
    match m.queued with
    | [] => (m,[])
    | jobId :: rest =>
      match m.jobs.get? jobId with
      | none => dispatchLoop now n { m with queued := rest }
      | some job =>
        let job := job.dispatched now
        let r := dispatchLoop now n { m with
          queued := rest,
          jobs := m.jobs.put job,
          running := m.running.put job }
        (r.1,job :: r.2)

def toDispatch (maxDispatch : ℤ) : ℤ :=
  min (min (m.maxConcurrent-m.running.entries.length) maxDispatch) m.queued.length

def dispatch (now : ℚ) (maxDispatch : ℤ) : UltraScaleRuntime × List RuntimeJob :=
  dispatchLoop now (m.toDispatch maxDispatch).toNat
    { m with queued := m.queued.insertionSort fun a b => m.queueOrder a ≤ m.queueOrder b }

/-- A running job changes. The table of jobs holds the same object, unless a later submission of
the id has taken its place. -/
def update (job : RuntimeJob) : UltraScaleRuntime :=
  { m with running := m.running.put job,
           jobs := if (m.jobs.get? job.jobId).map RuntimeJob.serial = some job.serial
                   then m.jobs.put job else m.jobs }

def markRunning (jobId : String) (streaming : Bool) : UltraScaleRuntime × Bool :=
  match m.running.get? jobId with
  | none => (m,false)
  | some job => (m.update { job with state := if streaming then .streaming else .running },true)

def updateTokens (jobId : String) (tokens : ℤ) (tps : ℚ) : UltraScaleRuntime × Bool :=
  match m.running.get? jobId with
  | none => (m,false)
  | some job =>
    let m := m.update { job with tokensGenerated := tokens, tokensPerSecond := tps }
    ({ m with totalTokens := m.totalTokens+tokens },true)

def completeJob (now : ℚ) (jobId : String) (success : Bool) :
    UltraScaleRuntime × Option RuntimeJob :=
  match m.running.get? jobId with
  | none => (m,none)
  | some job =>
    let job := { job with
      completedAt := now,
      executionTimeMs := if job.startedAt ≠ 0 then round2 ((now-job.startedAt)*1000) else 0,
      state := if success then .completed else .failed }
    ({ m with running := m.running.erase jobId,
              totalCompleted := if success then m.totalCompleted+1 else m.totalCompleted,
              totalFailed := if success then m.totalFailed else m.totalFailed+1,
              completed := truncated m.maxHistory (m.completed ++ [job]),
              jobs := m.jobs.erase jobId },some job)

def cancelJob (jobId : String) : UltraScaleRuntime × Bool :=
  if (m.running.get? jobId).isSome then
    ({ m with running := m.running.erase jobId, jobs := m.jobs.erase jobId },true)
  else if jobId ∈ m.queued then
    ({ m with queued := m.queued.erase jobId, jobs := m.jobs.erase jobId },true)
  else (m,false)

end UltraScaleRuntime

/-- A call of the runtime, with the time that it reads. -/
inductive RuntimeCall where
  | submit (now : ℚ) (job : RuntimeJob)
  | submitBatch (now : ℚ) (jobs : List RuntimeJob)
  | dispatch (now : ℚ) (maxDispatch : ℤ)
  | markRunning (jobId : String) (streaming : Bool)
  | updateTokens (jobId : String) (tokens : ℤ) (tps : ℚ)
  | completeJob (now : ℚ) (jobId : String) (success : Bool)
  | cancelJob (jobId : String)

namespace UltraScaleRuntime

def exec (m : UltraScaleRuntime) : RuntimeCall → UltraScaleRuntime
  | .submit now job => (m.submit now job).1
  | .submitBatch now jobs => (m.submitBatch now jobs).1
  | .dispatch now maxDispatch => (m.dispatch now maxDispatch).1
  | .markRunning jobId streaming => (m.markRunning jobId streaming).1
  | .updateTokens jobId tokens tps => (m.updateTokens jobId tokens tps).1
  | .completeJob now jobId success => (m.completeJob now jobId success).1
  | .cancelJob jobId => (m.cancelJob jobId).1

/-- The jobs that a call returns from the queue. -/
def returned (m : UltraScaleRuntime) : RuntimeCall → List RuntimeJob
  | .dispatch now maxDispatch => (m.dispatch now maxDispatch).2
  | _ => []

/-- The jobs that a run has returned from the queue. -/
def dispatched (m : UltraScaleRuntime) (calls : List RuntimeCall) : List RuntimeJob :=
  (steps exec m calls).flatMap fun x => x.1.returned x.2

end UltraScaleRuntime
end Arsonist.Runtime
