import Arsonist.ControlPlane.Lifecycle

/-! The job bookkeeping of `storage/job_queue.py`. -/
namespace Arsonist.ControlPlane
open Arsonist.Library Arsonist.Shared

/-- `MAX_JOB_RETRIES`. -/
def maxJobRetries : ℕ := 3

def buildJobRecord (ts : ℚ) (payload : JobRequest) : JobRecord :=
  { payload with
    status := .queued, createdAt := ts, updatedAt := ts
    executionLogs := [stamp ts "job accepted"] }

/-! The changes in place, one record at a time. -/

def withStatus (status : JobStatus) (job : JobRecord) : JobRecord := { job with status := status }

def logged (ts : ℚ) (message : String) (job : JobRecord) : JobRecord :=
  { job with
    updatedAt := ts
    executionLogs := job.executionLogs ++ [stamp ts message] }

def begun (ts : ℚ) (job : JobRecord) : JobRecord :=
  { job with
    startedAt := if job.startedAt = 0 then ts else job.startedAt
    status := .running
    updatedAt := ts
    attempts := job.attempts+1 }

def ended (ts : ℚ) (status : JobStatus) (job : JobRecord) : JobRecord :=
  { job with finishedAt := ts, updatedAt := ts, status := status }

/-- The status that a node's verdict gives. -/
def verdict (ok : Bool) : JobStatus := if ok then .completed else .failed

namespace State

def logJob (s : State) (id : JobId) (message : String) : State :=
  (s.modifyJob id (logged s.now message)).saveJob id

def markRunning (s : State) (id : JobId) : State :=
  ((s.modifyJob id (begun s.now)).act (.started id)).logJob id "job running"

def markFinished (s : State) (id : JobId) (ok : Bool) : State :=
  ((s.modifyJob id (ended s.now (verdict ok))).act (.finished id ok)).logJob id
    ("job finished status=" ++ StrEnum.value (verdict ok))

def requeueOrFail (cfg : Config) (s : State) (id : JobId) (reason : String) : State :=
  match s.job? id with
  | none => s
  | some job =>
    if maxJobRetries ≤ job.attempts then
      let s := (s.modifyJob id (withStatus .failed)).act (.exhausted id)
      (s.holding none).logJob id ("retry exhausted; failed: " ++ reason)
    else
      let s := (s.modifyJob id (withStatus .queued)).act (.requeued id)
      ((s.takeInHand id).logJob id ("requeued: " ++ reason)).ensureJobQueued cfg id

/-! ### What the bookkeeping does -/

theorem job?_modifyJob (s : State) (id : JobId) (f : JobRecord → JobRecord)
    (hf : ∀ job, (f job).id = job.id) (k : JobId) :
    (s.modifyJob id f).job? k = if k = id then (s.job? id).map f else s.job? k :=
  Table.get?_modify _ _ _ hf _

section
variable (s : State) (id : JobId)

@[simp] theorem logJob_nodeSide (m : String) : (s.logJob id m).nodeSide = s.nodeSide :=
  saveJob_nodeSide _ id
@[simp] theorem logJob_queue (m : String) : (s.logJob id m).memory.queue = s.memory.queue := by
  rw [logJob, saveJob_memory]; rfl
@[simp] theorem logJob_queueRows (m : String) : (s.logJob id m).db.queue = s.db.queue :=
  saveJob_queueRows _ id
@[simp] theorem logJob_hand (m : String) : (s.logJob id m).hand = s.hand := saveJob_hand _ id
@[simp] theorem logJob_actions (m : String) : (s.logJob id m).actions = s.actions :=
  saveJob_actions _ id

@[simp] theorem markRunning_nodeSide : (s.markRunning id).nodeSide = s.nodeSide :=
  logJob_nodeSide _ id _
@[simp] theorem markRunning_queue : (s.markRunning id).memory.queue = s.memory.queue :=
  logJob_queue _ id _
@[simp] theorem markRunning_queueRows : (s.markRunning id).db.queue = s.db.queue :=
  logJob_queueRows _ id _

@[simp] theorem markFinished_nodeSide (ok : Bool) :
    (s.markFinished id ok).nodeSide = s.nodeSide := logJob_nodeSide _ id _
@[simp] theorem markFinished_queue (ok : Bool) :
    (s.markFinished id ok).memory.queue = s.memory.queue := logJob_queue _ id _
@[simp] theorem markFinished_queueRows (ok : Bool) :
    (s.markFinished id ok).db.queue = s.db.queue := logJob_queueRows _ id _

@[simp] theorem requeueOrFail_nodeSide (cfg : Config) (reason : String) :
    (s.requeueOrFail cfg id reason).nodeSide = s.nodeSide := by
  unfold requeueOrFail
  split
  · rfl
  · dsimp only
    split
    · rw [logJob_nodeSide]; rfl
    · rw [ensureJobQueued_nodeSide, logJob_nodeSide]; rfl

end

/-- The rule for a change in place that is logged: the actions `new` account for it. -/
theorem edits_logJob_of {s t : State} {id : JobId} {f : JobRecord → JobRecord}
    {new : List Action}
    (jobs : ∀ k, t.job? k = if k = id then (s.job? id).map f else s.job? k)
    (rows : t.db.jobs = s.db.jobs)
    (actions : t.actions = s.actions ++ new) (other : ∀ a ∈ new, a.job = id)
    (phase : ∀ job, replay id (some (phaseOf job)) new = some (phaseOf (f job)))
    (missing : replay id none new = none) (message : String) :
    Edits s.jobSide new (t.logJob id message).jobSide := by
  have hget : ∀ k, (t.modifyJob id (logged t.now message)).job? k =
      if k = id then (s.job? id).map (logged t.now message ∘ f) else s.job? k := by
    intro k
    rw [job?_modifyJob t id (logged t.now message) (fun _ => rfl)]
    simp only [jobs]
    split_ifs
    · simp
    · rfl
  apply edits_saveJob
  · intro k hk
    rw [hget, if_neg hk]
  · intro h
    rw [hget, if_pos rfl] at h
    simpa using h
  · exact rows
  · exact actions
  · intro k
    rw [hget]
    by_cases hk : k = id
    · subst hk
      rw [if_pos rfl]
      cases s.job? k with
      | none => exact missing.symm
      | some job => exact (phase job).symm
    · rw [if_neg hk, replay_of_other fun a ha he => hk (he.symm.trans (other a ha))]

theorem does_logJob (s : State) (id : JobId) (message : String) :
    Does s.jobSide [] (s.logJob id message).jobSide := by
  apply Does.of_edits
  · apply edits_logJob_of (f := fun job => job)
    · intro k
      split_ifs with hk
      · simp [hk]
      · rfl
    · rfl
    · simp
    · simp
    · simp
    · rfl
  · exact logJob_queue s id message
  · exact logJob_queueRows s id message
  · rfl

theorem does_markRunning (s : State) (id : JobId) :
    Does s.jobSide [.started id] (s.markRunning id).jobSide := by
  apply Does.of_edits
  · apply edits_logJob_of (f := begun s.now)
    · exact job?_modifyJob s id _ fun _ => rfl
    · rfl
    · rfl
    · simp [Action.job]
    · intro job
      simp [Action.apply, Action.job, Action.next, phaseOf, begun]
    · simp [Action.apply, Action.job, Action.next]
  · exact markRunning_queue s id
  · exact markRunning_queueRows s id
  · rfl

/-- A record may change in other fields before it is marked finished. -/
theorem does_markFinished (s : State) (id : JobId) (ok : Bool) (f : JobRecord → JobRecord)
    (hf : ∀ job, (f job).id = job.id) (hphase : ∀ job, phaseOf (f job) = phaseOf job) :
    Does s.jobSide [.finished id ok] ((s.modifyJob id f).markFinished id ok).jobSide := by
  apply Does.of_edits
  · apply edits_logJob_of (f := ended s.now (verdict ok) ∘ f)
    · intro k
      refine (job?_modifyJob _ id (ended s.now (verdict ok)) (fun _ => rfl) k).trans ?_
      rw [job?_modifyJob s id f hf, job?_modifyJob s id f hf, if_pos rfl]
      split_ifs
      · simp
      · rfl
    · rfl
    · rfl
    · simp [Action.job]
    · intro job
      have h := hphase job
      simp only [phaseOf, Phase.mk.injEq] at h
      simp [Action.apply, Action.job, Action.next, phaseOf, h, ended, verdict]
    · simp [Action.apply, Action.job, Action.next]
  · exact markFinished_queue _ id ok
  · exact markFinished_queueRows _ id ok
  · rfl

/-- The actions of `requeue_or_fail` for a job in the given phase. -/
def requeueActions (id : JobId) : Option Phase → List Action
  | none => []
  | some c => if maxJobRetries ≤ c.attempts then [.exhausted id] else [.requeued id]

/-- A requeue sets the status and takes the place in the queue. -/
theorem edits_withStatus (s : State) (id : JobId) (hand : Option JobId) (message : String)
    {status : JobStatus} {a : Action} (ha : a.job = id)
    (hnext : ∀ p, a.next p = p.map fun c => { c with status := status }) :
    Edits s.jobSide [a]
      ((((s.modifyJob id (withStatus status)).act a).holding hand).logJob id message).jobSide := by
  apply edits_logJob_of (f := withStatus status)
  · exact job?_modifyJob s id _ fun _ => rfl
  · rfl
  · rfl
  · simpa using ha
  · intro job
    simp [Action.apply, ha, hnext, phaseOf, withStatus]
  · simp [Action.apply, ha, hnext]

@[simp] theorem appendQueue_queue (s : State) (id : JobId) :
    (s.appendQueue id).memory.queue =
      if id ∈ s.memory.queue then s.memory.queue else s.memory.queue ++ [id] := by
  unfold appendQueue
  split <;> rfl

@[simp] theorem writeQueue_memory (cfg : Config) (s : State) (id : JobId) :
    (s.writeQueue cfg id).memory = s.memory := by
  unfold writeQueue
  split <;> rfl

/-- Once a job is in the queue, `writeQueue` makes the queue durable: the whole of it, or
`_append_queue_pg` does to the table what was done to the list. -/
theorem does_writeQueue (cfg : Config) {s t : State} {id : JobId} {new : List Action}
    (h : Edits s.jobSide new t.jobSide) (queue : t.memory.queue = queueAfter s.memory.queue new)
    (rows : t.db.queue = s.db.queue)
    (place : ∀ q, queueAfter q new = if id ∈ q then q else q ++ [id]) :
    Does s.jobSide new (t.writeQueue cfg id).jobSide := by
  have hmem := writeQueue_memory cfg t id
  refine ⟨h.of_same (congrArg ClusterMemory.jobs hmem) ?_ ?_,?_,?_⟩
  · unfold writeQueue; split <;> rfl
  · unfold writeQueue; split <;> rfl
  · exact (congrArg ClusterMemory.queue hmem).trans queue
  · intro hs
    have hs' : s.db.queue = s.memory.queue := hs
    refine Eq.trans ?_ (congrArg ClusterMemory.queue hmem).symm
    unfold writeQueue
    split
    · rfl
    · change (if id ∈ t.db.queue then t.db.queue else t.db.queue ++ [id]) = t.memory.queue
      rw [rows, hs', queue, place]

theorem does_requeueOrFail (cfg : Config) (s : State) (id : JobId) (reason : String) :
    Does s.jobSide (requeueActions id (s.jobSide.phase id))
      (s.requeueOrFail cfg id reason).jobSide := by
  unfold requeueOrFail
  cases h : s.job? id with
  | none =>
    have hp : s.jobSide.phase id = none := by simp [JobSide.phase, jobSide, h]
    rw [hp]
    exact .refl _
  | some job =>
    have hp : s.jobSide.phase id = some (phaseOf job) := by simp [JobSide.phase, jobSide, h]
    rw [hp]
    by_cases hmax : maxJobRetries ≤ job.attempts
    · rw [show requeueActions id (some (phaseOf job)) = [.exhausted id] from if_pos hmax]
      simp only [if_pos hmax]
      apply Does.of_edits
      · exact edits_withStatus s id none _ rfl fun _ => rfl
      · exact logJob_queue _ _ _
      · exact logJob_queueRows _ _ _
      · rfl
    · rw [show requeueActions id (some (phaseOf job)) = [.requeued id] from if_neg hmax]
      simp only [if_neg hmax]
      unfold ensureJobQueued
      apply does_writeQueue cfg
      · have hedits := edits_withStatus s id (if id ∈ s.db.queue then none else some id)
          ("requeued: " ++ reason) (a := .requeued id) rfl fun _ => rfl
        refine hedits.of_same ?_ ?_ ?_
        all_goals unfold appendQueue; split <;> rfl
      · refine (appendQueue_queue _ id).trans ?_
        rw [logJob_queue]
        rfl
      · unfold appendQueue
        split <;> exact logJob_queueRows _ _ _
      · exact fun q => rfl

/-- A submission replaces the record and forgets the attempts of an earlier one. -/
theorem does_enqueueJob (cfg : Config) (s : State) (job : JobRecord)
    (hstatus : job.status = .queued) (hattempts : job.attempts = 0) :
    Does s.jobSide [.submitted job.id job.reportToFederation] (s.enqueueJob cfg job).jobSide := by
  let t := (((s.putJob job).act (.submitted job.id job.reportToFederation)).appendQueue
    job.id).takeInHand job.id
  have hjobs : t.memory.jobs = s.memory.jobs.put job := by
    dsimp only [t]; unfold appendQueue; split <;> rfl
  have hget : ∀ k, t.job? k = if k = job.id then some job else s.job? k := by
    intro k
    rw [job?, hjobs, Table.get?_put]; rfl
  change Does _ _ ((((t.saveJob job.id).holding none).writeQueue cfg job.id).jobSide)
  apply does_writeQueue cfg
  · refine Edits.of_same (v := (t.saveJob job.id).jobSide) ?_ rfl rfl rfl
    apply edits_saveJob
    · intro k hk
      rw [hget, if_neg hk]
    · intro h
      simp [hget] at h
    · dsimp only [t]; unfold appendQueue; split <;> rfl
    · dsimp only [t]; unfold appendQueue; split <;> rfl
    · intro k
      rw [hget]
      by_cases hk : k = job.id
      · subst hk
        simp [Action.apply, Action.job, Action.next, phaseOf, hstatus, hattempts]
      · rw [if_neg hk, replay_of_other]
        simpa [Action.job] using Ne.symm hk
  · refine (congrArg ClusterMemory.queue (saveJob_memory t job.id)).trans ?_
    exact appendQueue_queue _ _
  · refine (saveJob_queueRows t job.id).trans ?_
    dsimp only [t]; unfold appendQueue; split <;> rfl
  · exact fun q => rfl

end State
end Arsonist.ControlPlane
