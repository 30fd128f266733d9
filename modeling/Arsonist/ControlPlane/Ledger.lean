import Arsonist.ControlPlane.App

/-! The account of each operation: which actions it takes, as a function of the state before
it, and whom it stamps. The faithful operations move the jobs by exactly these actions. -/
namespace Arsonist.ControlPlane
open Arsonist.Library Arsonist.Shared Arsonist.Scheduler

/-- No job is saved that this process does not know. -/
def JobSide.Known (v : JobSide) : Prop := ∀ k, v.jobs.get? k = none → v.jobRows.get? k = none

namespace State
variable (cfg : Config) (s : State)

/-! ### The next job -/

/-- The record that `pop_next_job` is about to return. -/
def nextJob : Option JobRecord :=
  match cfg.backend with
  | .sqlite => s.memory.queue.head?.bind s.job?
  | .postgres =>
    match s.db.queue.head? with
    | none => none
    | some id =>
      if id = "" then none
      else (s.job? id).or ((s.db.jobs.get? id).bind fun row => JobRecord.ofJson row.payload)

theorem popNextJob_snd : (s.popNextJob cfg).2 = s.nextJob cfg := by
  unfold popNextJob nextJob
  cases cfg.backend with
  | sqlite =>
    dsimp only
    unfold popNextJobSqlite
    cases s.memory.queue <;> rfl
  | postgres =>
    dsimp only
    unfold popNextJobPg
    cases s.db.queue with
    | nil => rfl
    | cons id rest =>
      dsimp only [List.head?_cons]
      split_ifs
      · rfl
      · cases s.job? id with
        | some job => rfl
        | none =>
          dsimp only [Option.none_or]
          cases (s.db.jobs.get? id).bind fun row => JobRecord.ofJson row.payload <;> rfl

/-- The popped record is a live record from then on, and no other record changes. -/
theorem job?_popNextJob (k : JobId) :
    (s.popNextJob cfg).1.job? k =
      match s.nextJob cfg with
      | some job => if k = job.id then some job else s.job? k
      | none => s.job? k := by
  have hown : ∀ id, (match s.job? id with
      | some job => if k = job.id then some job else s.job? k
      | none => s.job? k) = s.job? k := by
    intro id
    cases h : s.job? id with
    | none => rfl
    | some job =>
      have hid : job.id = id := Table.key_of_get? h
      dsimp only
      split_ifs with hk
      · rw [hk, hid, h]
      · rfl
  unfold popNextJob nextJob
  cases cfg.backend with
  | sqlite =>
    dsimp only
    unfold popNextJobSqlite
    cases s.memory.queue with
    | nil => rfl
    | cons id rest => exact (hown id).symm
  | postgres =>
    dsimp only
    unfold popNextJobPg
    cases s.db.queue with
    | nil => rfl
    | cons id rest =>
      dsimp only [List.head?_cons]
      split_ifs
      · rfl
      · have hid := hown id
        cases h : s.job? id with
        | some job =>
          rw [h] at hid
          exact hid.symm
        | none =>
          dsimp only [Option.none_or]
          cases (s.db.jobs.get? id).bind fun row => JobRecord.ofJson row.payload with
          | none => rfl
          | some job => exact Table.get?_put _ _ _

theorem popNextJob_rows : (s.popNextJob cfg).1.db.jobs = s.db.jobs := by
  unfold popNextJob
  split
  · unfold popNextJobSqlite; split <;> rfl
  · unfold popNextJobPg
    split
    · rfl
    · dsimp only
      split_ifs
      · rfl
      · split
        · rfl
        · split <;> rfl

theorem popNextJob_actions : (s.popNextJob cfg).1.actions = s.actions := by
  unfold popNextJob
  split
  · unfold popNextJobSqlite; split <;> rfl
  · unfold popNextJobPg
    split
    · rfl
    · dsimp only
      split_ifs
      · rfl
      · split
        · rfl
        · split <;> rfl

/-- When all jobs are known, the next job is a live record. -/
theorem job?_of_nextJob {job : JobRecord} (hk : s.jobSide.Known)
    (h : s.nextJob cfg = some job) : s.job? job.id = some job := by
  have hown : ∀ id, s.job? id = some job → s.job? job.id = some job := by
    intro id hid
    rwa [show job.id = id from Table.key_of_get? hid]
  unfold nextJob at h
  cases hb : cfg.backend with
  | sqlite =>
    rw [hb] at h
    obtain ⟨id,-,hid⟩ := Option.bind_eq_some_iff.mp h
    exact hown id hid
  | postgres =>
    rw [hb] at h
    dsimp only at h
    cases hq : s.db.queue.head? with
    | none => rw [hq] at h; exact absurd h (by simp)
    | some id =>
      rw [hq] at h
      dsimp only at h
      split_ifs at h
      obtain hid | ⟨hnone,hrow⟩ := Option.or_eq_some_iff.mp h
      · exact hown id hid
      · rw [show s.db.jobs.get? id = none from hk id hnone] at hrow
        exact absurd hrow (by simp)

/-- Popping edits no record. -/
theorem edits_popNextJob (hk : s.jobSide.Known) :
    Edits s.jobSide [] (s.popNextJob cfg).1.jobSide := by
  have hjobs : ∀ k, (s.popNextJob cfg).1.job? k = s.job? k := by
    intro k
    rw [job?_popNextJob]
    cases h : s.nextJob cfg with
    | none => rfl
    | some job =>
      dsimp only
      split_ifs with hkj
      · rw [hkj, job?_of_nextJob cfg s hk h]
      · rfl
  refine ⟨?_,?_,?_⟩
  · simpa [jobSide] using popNextJob_actions cfg s
  · intro k
    exact congrArg (Option.map phaseOf) (hjobs k)
  · intro k
    exact .inr ⟨hjobs k,congrArg (fun t => Table.get? t k) (popNextJob_rows cfg s)⟩

/-! ### Dispatching -/

section
variable (job : JobId) (reply : NodeId → Reply) (nodes : List NodeId)

/-- The loop assigns the nodes whose call returns. -/
theorem dispatchAll_snd :
    (s.dispatchAll job reply nodes).2 = nodes.filter fun n => (reply n).returns := by
  induction nodes generalizing s with
  | nil => rfl
  | cons node nodes ih =>
    unfold dispatchAll
    dsimp only
    rw [List.filter_cons]
    split
    · exact congrArg (node :: ·) (ih _)
    · exact ih _

theorem does_dispatchAll :
    Does s.jobSide (nodes.map fun n => .dispatched n job)
      (s.dispatchAll job reply nodes).1.jobSide := by
  induction nodes generalizing s with
  | nil => exact .refl _
  | cons node nodes ih =>
    unfold dispatchAll
    dsimp only
    have h := does_dispatchJob s node job (reply node)
    split
    · exact h.trans (ih _)
    · exact (h.quiet (does_logJob _ _ _)).trans (ih _)

theorem tends_dispatchAll :
    Tends s.nodeSide (answering reply nodes) (s.dispatchAll job reply nodes).1.nodeSide := by
  induction nodes generalizing s with
  | nil => exact .refl _
  | cons node nodes ih =>
    have hsplit : answering reply (node :: nodes) =
        (if (reply node).answered then [node] else []) ++ answering reply nodes := by
      unfold answering
      rw [List.filter_cons]
      split <;> rfl
    rw [hsplit]
    have h := tends_dispatchJob s node job (reply node)
    unfold dispatchAll
    dsimp only
    by_cases hret : (reply node).returns = true
    · rw [if_pos hret]
      exact h.trans (ih _)
    · rw [if_neg hret]
      exact (h.then_eq (logJob_nodeSide _ _ _)).trans (ih _)

end

/-! ### A scheduler step -/

/-- The ids of the nodes that a job would be dispatched to. -/
def candidateIds (nodes : List NodeState) (job : JobRecord) : List NodeId :=
  (selectNodes job.toJobRequest nodes).map fun n => n.nodeId

/-- The step gets as far as dispatching. -/
def Dispatches (nodes : List NodeState) (job : JobRecord) : Prop :=
  ¬job.status.terminal ∧ job.attempts < maxJobRetries ∧
    job.requiredNodes ≤ (candidateIds nodes job).length

instance (nodes : List NodeState) (job : JobRecord) : Decidable (Dispatches nodes job) :=
  inferInstanceAs (Decidable (_ ∧ _ ∧ _))

/-- Enough nodes take the job. -/
def Suffices (reply : NodeId → Reply) (nodes : List NodeState) (job : JobRecord) : Prop :=
  job.requiredNodes ≤ ((candidateIds nodes job).filter fun n => (reply n).returns).length

instance (reply : NodeId → Reply) (nodes : List NodeState) (job : JobRecord) :
    Decidable (Suffices reply nodes job) := inferInstanceAs (Decidable (_ ≤ _))

/-- How a job with some attempts used is put aside. -/
def asideActions (job : JobId) (attempts : ℕ) : List Action :=
  if maxJobRetries ≤ attempts then [.exhausted job] else [.requeued job]

/-- The actions of a dispatch round. -/
def roundActions (reply : NodeId → Reply) (nodes : List NodeState) (job : JobRecord) :
    List Action :=
  .started job.id :: (candidateIds nodes job).map (fun n => .dispatched n job.id) ++
    if Suffices reply nodes job then [] else asideActions job.id (job.attempts+1)

/-- The actions of `schedule_once` for a job that it has popped. -/
def placeActions (reply : NodeId → Reply) (nodes : List NodeState) (job : JobRecord) :
    List Action :=
  if job.status.terminal then []
  else if Dispatches nodes job then roundActions reply nodes job
  else asideActions job.id job.attempts

/-- Whom `schedule_once` stamps for a job that it has popped. -/
def placeStamps (reply : NodeId → Reply) (nodes : List NodeState) (job : JobRecord) :
    List NodeId :=
  if Dispatches nodes job then answering reply (candidateIds nodes job) else []

theorem requeueActions_some (id : JobId) (c : Phase) :
    requeueActions id (some c) = asideActions id c.attempts := rfl

/-- The end of a full dispatch: the assignment is saved and the queue persisted. -/
theorem does_assign (id : JobId) (nodes : List NodeId) :
    Does s.jobSide []
      (((s.modifyJob id (assigned nodes)).saveJob id).persistQueue cfg).jobSide := by
  have hmod := job?_modifyJob s id (assigned nodes) fun _ => rfl
  have hsave : Edits s.jobSide [] ((s.modifyJob id (assigned nodes)).saveJob id).jobSide := by
    apply edits_saveJob
    · intro k hk
      rw [hmod, if_neg hk]
    · intro h
      rw [hmod, if_pos rfl] at h
      simpa using h
    · rfl
    · simp [modifyJob]
    · intro k
      rw [hmod]
      split_ifs with hk
      · rw [hk]
        cases s.job? id <;> rfl
      · rfl
  have hq : ((s.modifyJob id (assigned nodes)).saveJob id).memory.queue = s.memory.queue := by
    rw [saveJob_memory]; rfl
  have hr : ((s.modifyJob id (assigned nodes)).saveJob id).db.queue = s.db.queue :=
    saveJob_queueRows _ id
  unfold persistQueue
  split
  · exact ⟨hsave.of_same rfl rfl rfl,hq,fun _ => rfl⟩
  · exact ⟨hsave,hq,fun h => hr.trans (Eq.trans h hq.symm)⟩

theorem does_placeJob (env : Surroundings) {job : JobRecord} (h : s.job? job.id = some job) :
    Does s.jobSide (placeActions env.reply s.memory.nodes.entries job)
      (s.placeJob cfg env job).jobSide := by
  have hphase : s.jobSide.phase job.id = some (phaseOf job) := congrArg (Option.map phaseOf) h
  unfold placeJob placeActions
  by_cases hterm : job.status.terminal
  · rw [if_pos hterm, if_pos hterm]
    exact .refl _
  rw [if_neg hterm, if_neg hterm]
  by_cases hmax : maxJobRetries ≤ job.attempts
  · rw [if_pos hmax, if_neg fun hd => absurd hd.2.1 (not_lt.mpr hmax), asideActions, if_pos hmax]
    apply Does.of_edits
    · exact edits_withStatus s job.id none _ rfl fun _ => rfl
    · exact logJob_queue _ _ _
    · exact logJob_queueRows _ _ _
    · rfl
  rw [if_neg hmax]
  dsimp only
  by_cases hfew : (selectNodes job.toJobRequest s.memory.nodes.entries).length < job.requiredNodes
  · rw [if_pos hfew, if_neg fun hd => absurd hd.2.2 (by simpa [candidateIds] using hfew)]
    have hdoes := does_requeueOrFail cfg s job.id "insufficient_nodes"
    rw [hphase, requeueActions_some] at hdoes
    exact hdoes
  have hdis : Dispatches s.memory.nodes.entries job :=
    ⟨hterm,not_le.mp hmax,by simpa [candidateIds] using hfew⟩
  rw [if_neg hfew, if_pos hdis, roundActions]
  have hround := (does_markRunning s job.id).trans
    (does_dispatchAll (s.markRunning job.id) job.id env.reply
      (candidateIds s.memory.nodes.entries job))
  have hnames : ((s.markRunning job.id).dispatchAll job.id env.reply
      (candidateIds s.memory.nodes.entries job)).2 =
      (candidateIds s.memory.nodes.entries job).filter fun n => (env.reply n).returns :=
    dispatchAll_snd _ _ _ _
  change Does _ _ (jobSide (if _ ≤ (((s.markRunning job.id).dispatchAll job.id env.reply
      (candidateIds s.memory.nodes.entries job)).2).length then _ else _))
  rw [hnames]
  by_cases hsuff : Suffices env.reply s.memory.nodes.entries job
  · rw [if_pos hsuff, if_pos (show _ ≤ _ from hsuff), List.append_nil]
    exact hround.quiet (does_assign cfg _ _ _)
  · rw [if_neg hsuff, if_neg (show ¬_ ≤ _ from hsuff)]
    have hput := does_requeueOrFail cfg ((s.markRunning job.id).dispatchAll job.id env.reply
      (candidateIds s.memory.nodes.entries job)).1 job.id "partial_dispatch_failure"
    have hrun : ((s.markRunning job.id).dispatchAll job.id env.reply
        (candidateIds s.memory.nodes.entries job)).1.jobSide.phase job.id =
        some ⟨.running,job.attempts+1,job.reportToFederation⟩ := by
      rw [hround.phase, hphase, List.singleton_append, replay_cons, replay_dispatched]
      simp [Action.apply, Action.job, Action.next, phaseOf]
    rw [hrun, requeueActions_some] at hput
    exact hround.trans hput

/-- The nodes are those after the dispatch round, if there is one. -/
theorem placeJob_nodeSide (env : Surroundings) (job : JobRecord) :
    (s.placeJob cfg env job).nodeSide =
      if Dispatches s.memory.nodes.entries job then
        ((s.markRunning job.id).dispatchAll job.id env.reply
          (candidateIds s.memory.nodes.entries job)).1.nodeSide
      else s.nodeSide := by
  unfold placeJob
  by_cases hterm : job.status.terminal
  · rw [if_pos hterm, if_neg fun hd => hd.1 hterm]
  rw [if_neg hterm]
  by_cases hmax : maxJobRetries ≤ job.attempts
  · rw [if_pos hmax, if_neg fun hd => absurd hd.2.1 (not_lt.mpr hmax)]
    exact logJob_nodeSide _ _ _
  rw [if_neg hmax]
  dsimp only
  by_cases hfew : (selectNodes job.toJobRequest s.memory.nodes.entries).length < job.requiredNodes
  · rw [if_pos hfew, if_neg fun hd => absurd hd.2.2 (by simpa [candidateIds] using hfew)]
    exact requeueOrFail_nodeSide _ _ _ _
  have hdis : Dispatches s.memory.nodes.entries job :=
    ⟨hterm,not_le.mp hmax,by simpa [candidateIds] using hfew⟩
  rw [if_neg hfew, if_pos hdis]
  split
  · rw [persistQueue_nodeSide, saveJob_nodeSide]
    rfl
  · exact requeueOrFail_nodeSide _ _ _ _

theorem tends_placeJob (env : Surroundings) (job : JobRecord) :
    Tends s.nodeSide (placeStamps env.reply s.memory.nodes.entries job)
      (s.placeJob cfg env job).nodeSide := by
  rw [placeJob_nodeSide, placeStamps]
  split_ifs
  · have hround := tends_dispatchAll (s.markRunning job.id) job.id env.reply
      (candidateIds s.memory.nodes.entries job)
    rw [markRunning_nodeSide] at hround
    exact hround
  · exact .refl _

/-- The actions of `schedule_once`. -/
def scheduleActions (env : Surroundings) : List Action :=
  if env.leader then
    match s.nextJob cfg with
    | none => []
    | some job => placeActions env.reply s.memory.nodes.entries job
  else []

/-- Whom `schedule_once` stamps. -/
def scheduleStamps (env : Surroundings) : List NodeId :=
  if env.leader then
    match s.nextJob cfg with
    | none => []
    | some job => placeStamps env.reply s.memory.nodes.entries job
  else []

/-- `schedule_once`, with its first call evaluated. -/
theorem scheduleOnce_eq (env : Surroundings) :
    s.scheduleOnce cfg env =
      if env.leader then
        match s.nextJob cfg with
        | none => (s.popNextJob cfg).1
        | some job => (s.popNextJob cfg).1.placeJob cfg env job
      else s := by
  rw [← popNextJob_snd]
  unfold scheduleOnce
  split
  · rcases s.popNextJob cfg with ⟨t,_ | job⟩ <;> rfl
  · rfl

theorem popNextJob_nodes : (s.popNextJob cfg).1.memory.nodes = s.memory.nodes :=
  congrArg NodeSide.nodes (popNextJob_nodeSide s cfg)

theorem edits_scheduleOnce (env : Surroundings) (hk : s.jobSide.Known) :
    Edits s.jobSide (s.scheduleActions cfg env) (s.scheduleOnce cfg env).jobSide := by
  rw [scheduleOnce_eq, scheduleActions]
  split
  · have hpop := edits_popNextJob cfg s hk
    cases h : s.nextJob cfg with
    | none => exact hpop
    | some job =>
      have hjob : (s.popNextJob cfg).1.job? job.id = some job := by
        rw [job?_popNextJob, h]
        exact if_pos rfl
      have hplace := does_placeJob cfg (s.popNextJob cfg).1 env hjob
      rw [popNextJob_nodes] at hplace
      exact hpop.trans hplace.toEdits
  · exact .refl _

theorem tends_scheduleOnce (env : Surroundings) :
    Tends s.nodeSide (s.scheduleStamps cfg env) (s.scheduleOnce cfg env).nodeSide := by
  rw [scheduleOnce_eq, scheduleStamps]
  split
  · cases s.nextJob cfg with
    | none => exact .of_eq (popNextJob_nodeSide s cfg)
    | some job =>
      have hplace := tends_placeJob cfg (s.popNextJob cfg).1 env job
      rw [popNextJob_nodes, popNextJob_nodeSide] at hplace
      exact hplace
  · exact .refl _

/-! ### A result -/

/-- A completion report for the job is sent. -/
def Reports (job : JobRecord) : Prop :=
  job.reportToFederation = true ∧ rstripSlash cfg.federationUrl ≠ ""

instance (job : JobRecord) : Decidable (Reports cfg job) := inferInstanceAs (Decidable (_ ∧ _))

/-- The report about a result. -/
def resultReport (job : JobRecord) (payload : Json.Object) : Report :=
  ⟨job.id,cfg.clusterId,reportsOk payload,payload⟩

/-- The actions of `job_result` for a known job, before it calls the scheduler. -/
def recordActions (job : JobRecord) (payload : Json.Object) : List Action :=
  .finished job.id (reportsOk payload) ::
    (if Reports cfg job then [.reported (resultReport cfg job payload)] else []) ++
    if reportsOk payload then [] else asideActions job.id job.attempts

section
variable (job : JobId)

theorem releaseAll_jobSide (nodes : List NodeId) :
    (nodes.foldl (releaseNode job) s).jobSide = s.jobSide := by
  induction nodes generalizing s with
  | nil => rfl
  | cons node nodes ih =>
    rw [List.foldl_cons, ih]
    exact touchNode_jobSide _ _ _

/-- Crediting the sender and releasing the nodes leaves the jobs alone. -/
theorem releaseNodes_jobSide (node : NodeId) (nodes : List NodeId) (ok : Bool)
    (details : Json.Object) :
    ((nodes.foldl (releaseNode job) (s.creditNode cfg node ok)).emit "info" "job_finished"
      details).jobSide = s.jobSide :=
  (releaseAll_jobSide _ _ _).trans (touchNode_jobSide _ _ _)

theorem tends_releaseAll (nodes : List NodeId) :
    Tends s.nodeSide nodes (nodes.foldl (releaseNode job) s).nodeSide := by
  induction nodes generalizing s with
  | nil => exact .refl _
  | cons node nodes ih =>
    exact (tends_touchNode s node (released job) fun _ => rfl).trans (ih (s.releaseNode job node))

end

/-- The record of a job that has just been marked finished. -/
theorem job?_markFinished {job : JobRecord} (h : s.job? job.id = some job)
    (payload : Json.Object) (ok : Bool) :
    ((s.modifyJob job.id (withResult payload)).markFinished job.id ok).job? job.id =
      some (logged s.now ("job finished status=" ++ StrEnum.value (verdict ok))
        (ended s.now (verdict ok) (withResult payload job))) := by
  have h1 := job?_modifyJob s job.id (withResult payload) (fun _ => rfl) job.id
  have h2 := job?_modifyJob (s.modifyJob job.id (withResult payload)) job.id
    (ended s.now (verdict ok)) (fun _ => rfl) job.id
  have h3 := job?_modifyJob (((s.modifyJob job.id (withResult payload)).modifyJob job.id
    (ended s.now (verdict ok))).act (.finished job.id ok)) job.id
    (logged s.now ("job finished status=" ++ StrEnum.value (verdict ok))) (fun _ => rfl) job.id
  rw [if_pos rfl, h] at h1
  rw [if_pos rfl, h1] at h2
  rw [if_pos rfl] at h3
  replace h3 := h3.trans (congrArg _ h2)
  rw [markFinished, logJob, job?, saveJob_memory]
  exact h3

/-- The action of `maybe_report_global_completion`. -/
def reportActions (job : Option JobRecord) : List Action :=
  match job.bind (completionReport cfg) with
  | some report => [.reported report]
  | none => []

theorem does_maybeReport (id : JobId) :
    Does s.jobSide (reportActions cfg (s.job? id))
      (s.maybeReportGlobalCompletion cfg id).jobSide := by
  unfold maybeReportGlobalCompletion reportActions
  cases (s.job? id).bind (completionReport cfg) with
  | none => exact .refl _
  | some report =>
    refine Does.of_edits (w := (s.act (.reported report)).jobSide)
      ⟨rfl,?_,fun _ => .inr ⟨rfl,rfl⟩⟩ rfl rfl rfl
    intro k
    simp only [replay_cons, replay_nil, Action.apply, Action.next]
    split_ifs <;> rfl

theorem maybeReport_nodeSide (id : JobId) :
    (s.maybeReportGlobalCompletion cfg id).nodeSide = s.nodeSide := by
  unfold maybeReportGlobalCompletion
  split <;> rfl

theorem maybeReport_memory (id : JobId) :
    (s.maybeReportGlobalCompletion cfg id).memory = s.memory := by
  unfold maybeReportGlobalCompletion
  split <;> rfl

/-- The report for a finished record. -/
theorem reportActions_finished (job : JobRecord) (payload : Json.Object) (ts : ℚ) (m : String) :
    reportActions cfg (some (logged ts m
        (ended ts (verdict (reportsOk payload)) (withResult payload job)))) =
      if Reports cfg job then [.reported (resultReport cfg job payload)] else [] := by
  have hok : decide (verdict (reportsOk payload) = .completed) = reportsOk payload := by
    cases reportsOk payload <;> rfl
  have hiff : (job.reportToFederation && decide (rstripSlash cfg.federationUrl ≠ "")) = true ↔
      Reports cfg job := by simp [Reports]
  simp only [reportActions, Option.bind_some, completionReport, logged, ended, withResult,
    resultReport, hok, hiff, Option.getD_some]
  split_ifs <;> rfl

theorem does_recordResult (node : NodeId) {job : JobRecord} (h : s.job? job.id = some job)
    (payload : Json.Object) :
    Does s.jobSide (recordActions cfg job payload)
      (s.recordResult cfg node job payload).jobSide := by
  have hphase : s.jobSide.phase job.id = some (phaseOf job) := congrArg (Option.map phaseOf) h
  have hfin := does_markFinished s job.id (reportsOk payload) (withResult payload)
    (fun _ => rfl) fun _ => rfl
  have hrec := job?_markFinished s h payload (reportsOk payload)
  unfold recordResult recordActions
  dsimp only
  set t := (s.modifyJob job.id (withResult payload)).markFinished job.id (reportsOk payload)
  -- what follows leaves the jobs alone, up to the report
  set u := (job.assignedNodes.foldl (releaseNode job.id)
    (t.creditNode cfg node (reportsOk payload))).emit "info" "job_finished"
    [("job_id",.str job.id),("status",.str (StrEnum.value (verdict (reportsOk payload)))),
      ("node_id",.str node)]
  have hu : u.jobSide = t.jobSide := releaseNodes_jobSide _ _ _ _ _ _ _
  have hrep := does_maybeReport cfg u job.id
  have hju : u.job? job.id = t.job? job.id := by
    have := congrArg JobSide.jobs hu
    exact congrArg (fun j => Table.get? j job.id) this
  rw [hju, hrec, reportActions_finished] at hrep
  have hdone := (hfin.then_eq hu).trans hrep
  by_cases hok : reportsOk payload = true
  · rw [if_pos hok, if_pos hok, List.append_nil]
    exact hdone
  · rw [if_neg hok, if_neg hok]
    have hput := does_requeueOrFail cfg (u.maybeReportGlobalCompletion cfg job.id) job.id
      "node_reported_failure"
    have hq : (u.maybeReportGlobalCompletion cfg job.id).jobSide.phase job.id =
        some ⟨verdict (reportsOk payload),job.attempts,job.reportToFederation⟩ := by
      rw [hdone.phase, hphase, List.singleton_append, replay_cons]
      split_ifs <;>
        simp [Action.apply, Action.job, Action.next, phaseOf, resultReport, verdict]
    rw [hq, requeueActions_some] at hput
    exact hdone.trans hput

theorem tends_recordResult (node : NodeId) (job : JobRecord) (payload : Json.Object) :
    Tends s.nodeSide (node :: job.assignedNodes)
      (s.recordResult cfg node job payload).nodeSide := by
  unfold recordResult
  dsimp only
  set t := (s.modifyJob job.id (withResult payload)).markFinished job.id (reportsOk payload)
  have ht : t.nodeSide = s.nodeSide := markFinished_nodeSide _ _ _
  have hcredit := tends_touchNode t node (credited cfg.loadEmaBeta (reportsOk payload)) fun n => by
    unfold credited; split <;> rfl
  have hrel := hcredit.trans (tends_releaseAll (t.creditNode cfg node (reportsOk payload)) job.id
    job.assignedNodes)
  rw [ht] at hrel
  split
  · exact hrel.then_eq (maybeReport_nodeSide _ _ _)
  · exact hrel.then_eq ((requeueOrFail_nodeSide _ _ _ _).trans (maybeReport_nodeSide _ _ _))

/-! ### Which job the actions are about -/

theorem asideActions_job {job : JobId} {n : ℕ} {a : Action} (h : a ∈ asideActions job n) :
    a = .exhausted job ∨ a = .requeued job := by
  unfold asideActions at h
  split_ifs at h
  · exact .inl (List.mem_singleton.mp h)
  · exact .inr (List.mem_singleton.mp h)

theorem mem_roundActions {reply : NodeId → Reply} {nodes : List NodeState} {job : JobRecord}
    {a : Action} (h : a ∈ roundActions reply nodes job) :
    a = .started job.id ∨ (∃ n ∈ candidateIds nodes job, a = .dispatched n job.id) ∨
      a = .exhausted job.id ∨ a = .requeued job.id := by
  unfold roundActions at h
  obtain h | h := List.mem_append.mp h
  · obtain h | h := List.mem_cons.mp h
    · exact .inl h
    · obtain ⟨n,hn,rfl⟩ := List.mem_map.mp h
      exact .inr (.inl ⟨n,hn,rfl⟩)
  · split_ifs at h
    · exact absurd h (by simp)
    · exact .inr (.inr (asideActions_job h))

theorem mem_placeActions {reply : NodeId → Reply} {nodes : List NodeState} {job : JobRecord}
    {a : Action} (h : a ∈ placeActions reply nodes job) :
    a = .started job.id ∨ (∃ n ∈ candidateIds nodes job, a = .dispatched n job.id) ∨
      a = .exhausted job.id ∨ a = .requeued job.id := by
  unfold placeActions at h
  split_ifs at h
  · exact absurd h (by simp)
  · exact mem_roundActions h
  · exact .inr (.inr (asideActions_job h))

theorem placeActions_job {reply : NodeId → Reply} {nodes : List NodeState} {job : JobRecord}
    {a : Action} (h : a ∈ placeActions reply nodes job) : a.job = job.id := by
  rcases mem_placeActions h with rfl | ⟨n,-,rfl⟩ | rfl | rfl <;> rfl

theorem placeActions_sets {reply : NodeId → Reply} {nodes : List NodeState} {job : JobRecord}
    {a : Action} (h : a ∈ placeActions reply nodes job) : a.sets ≠ some .completed := by
  rcases mem_placeActions h with rfl | ⟨n,-,rfl⟩ | rfl | rfl <;> simp [Action.sets]

/-- The actions for a job that has just been popped put it aside, unless it is over. -/
theorem placeActions_sets_some (reply : NodeId → Reply) (nodes : List NodeState)
    {job : JobRecord} (hterm : ¬job.status.terminal) :
    ∃ a ∈ placeActions reply nodes job, a.job = job.id ∧ a.sets ≠ none := by
  unfold placeActions
  rw [if_neg hterm]
  split_ifs
  · exact ⟨.started job.id,by simp [roundActions],rfl,by simp [Action.sets]⟩
  · unfold asideActions
    split_ifs
    · exact ⟨_,List.mem_singleton_self _,rfl,by simp [Action.sets]⟩
    · exact ⟨_,List.mem_singleton_self _,rfl,by simp [Action.sets]⟩

/-- A scheduler step is about the next job alone. -/
theorem mem_scheduleActions {env : Surroundings} {a : Action}
    (h : a ∈ s.scheduleActions cfg env) :
    ∃ job, s.nextJob cfg = some job ∧ a ∈ placeActions env.reply s.memory.nodes.entries job := by
  unfold scheduleActions at h
  split at h
  · cases hn : s.nextJob cfg with
    | none => rw [hn] at h; exact absurd h (by simp)
    | some job => rw [hn] at h; exact ⟨job,rfl,h⟩
  · exact absurd h (by simp)

theorem scheduleActions_sets {env : Surroundings} {a : Action}
    (h : a ∈ s.scheduleActions cfg env) : a.sets ≠ some .completed := by
  obtain ⟨job,-,ha⟩ := mem_scheduleActions cfg s h
  exact placeActions_sets ha

/-- A scheduler step accepts no job and reports none. -/
theorem submitted_not_mem_scheduleActions {env : Surroundings} (k : JobId) (fed : Bool) :
    .submitted k fed ∉ s.scheduleActions cfg env := by
  intro h
  obtain ⟨job,-,h⟩ := mem_scheduleActions cfg s h
  rcases mem_placeActions h with he | ⟨_,-,he⟩ | he | he <;> exact absurd he (by simp)

theorem reported_not_mem_scheduleActions {env : Surroundings} (r : Report) :
    .reported r ∉ s.scheduleActions cfg env := by
  intro h
  obtain ⟨job,-,h⟩ := mem_scheduleActions cfg s h
  rcases mem_placeActions h with he | ⟨_,-,he⟩ | he | he <;> exact absurd he (by simp)

/-- A scheduler step leaves a finished job alone. -/
theorem scheduleActions_of_terminal {env : Surroundings} {k : JobId} {c : Phase}
    (hk : s.jobSide.Known) (hphase : s.jobSide.phase k = some c) (hterm : c.status.terminal)
    {a : Action} (h : a ∈ s.scheduleActions cfg env) : a.job ≠ k := by
  obtain ⟨job,hnext,ha⟩ := mem_scheduleActions cfg s h
  rw [placeActions_job ha]
  rintro rfl
  have hjob := job?_of_nextJob cfg s hk hnext
  have hc : phaseOf job = c := by
    have : s.jobSide.phase job.id = some (phaseOf job) := congrArg (Option.map phaseOf) hjob
    exact Option.some.inj (this.symm.trans hphase)
  rw [placeActions, if_pos (show job.status.terminal by rw [← hc] at hterm; exact hterm)] at ha
  exact absurd ha (by simp)

theorem mem_recordActions {job : JobRecord} {payload : Json.Object} {a : Action}
    (h : a ∈ recordActions cfg job payload) :
    a = .finished job.id (reportsOk payload) ∨
      (Reports cfg job ∧ a = .reported (resultReport cfg job payload)) ∨
      (reportsOk payload = false ∧ a ∈ asideActions job.id job.attempts) := by
  unfold recordActions at h
  obtain h | h := List.mem_append.mp h
  · obtain h | h := List.mem_cons.mp h
    · exact .inl h
    · split_ifs at h with hr
      · exact .inr (.inl ⟨hr,List.mem_singleton.mp h⟩)
      · exact absurd h (by simp)
  · split_ifs at h with hok
    · exact absurd h (by simp)
    · exact .inr (.inr ⟨by simpa using hok,h⟩)

theorem recordActions_job {job : JobRecord} {payload : Json.Object} {a : Action}
    (h : a ∈ recordActions cfg job payload) : a.job = job.id := by
  obtain rfl | ⟨-,rfl⟩ | ⟨-,h⟩ := mem_recordActions cfg h
  · rfl
  · rfl
  · rcases asideActions_job h with rfl | rfl <;> rfl

theorem mem_checkActions {now deadAfterSec : ℚ} {phase : JobId → Option Phase}
    {nodes : List NodeState} {a : Action} :
    a ∈ checkActions now deadAfterSec phase nodes ↔
      ∃ n ∈ deadNodes now deadAfterSec nodes, ∃ id ∈ n.runningJobs, ∃ c, phase id = some c ∧
        a ∈ asideActions id c.attempts := by
  simp only [checkActions, requeuesActions, List.mem_flatMap]
  refine exists_congr fun n => and_congr_right fun _ => exists_congr fun id =>
    and_congr_right fun _ => ?_
  cases phase id with
  | none => simp [requeueActions]
  | some c => simp [requeueActions_some]

/-- The health check puts aside a known job that a dead node lists, whatever its status is:
it fails if it has no attempt left, and is queued otherwise. -/
theorem status_checkNodesOnce {deadAfterSec : ℚ} {n : NodeState} {id : JobId}
    {record : JobRecord} (hn : n ∈ deadNodes s.now deadAfterSec s.memory.nodes.entries)
    (hmem : id ∈ n.runningJobs) (hrecord : s.job? id = some record) :
    (s.checkNodesOnce cfg deadAfterSec).status id =
        some (if maxJobRetries ≤ record.attempts then .failed else .queued) ∧
      (record.attempts < maxJobRetries → id ∈ (s.checkNodesOnce cfg deadAfterSec).memory.queue) := by
  have hd := does_checkNodes cfg s s.now deadAfterSec s.memory.nodes.entries
  have hphase : s.jobSide.phase id = some (phaseOf record) :=
    congrArg (Option.map phaseOf) hrecord
  have hall : ∀ a ∈ checkActions s.now deadAfterSec s.jobSide.phase s.memory.nodes.entries,
      a.job = id → a ∈ asideActions id record.attempts := by
    intro a ha hj
    obtain ⟨_,-,id',-,c,hc,ha⟩ := mem_checkActions.mp ha
    obtain rfl : id' = id := by rcases asideActions_job ha with rfl | rfl <;> exact hj
    obtain rfl := Option.some.inj (hphase.symm.trans hc)
    exact ha
  obtain ⟨a,ha,hj,hset⟩ : ∃ a ∈ asideActions id record.attempts, a.job = id ∧
      a.sets = some (if maxJobRetries ≤ record.attempts then .failed else .queued) := by
    unfold asideActions
    split_ifs
    · exact ⟨_,List.mem_singleton_self _,rfl,rfl⟩
    · exact ⟨_,List.mem_singleton_self _,rfl,rfl⟩
  have hex : a ∈ checkActions s.now deadAfterSec s.jobSide.phase s.memory.nodes.entries :=
    mem_checkActions.mpr ⟨n,hn,id,hmem,_,hphase,ha⟩
  constructor
  · rw [status_eq, checkNodesOnce, hd.phase]
    refine status_replay_all (fun b hb hbj => ?_) ⟨a,hex,hj⟩ (by rw [hphase]; simp)
    have hb := hall b hb hbj
    unfold asideActions at hb
    split_ifs at hb ⊢ <;> rw [List.mem_singleton.mp hb] <;> rfl
  · intro hleft
    refine (congrArg (id ∈ ·) hd.queue).mpr (mem_queueAfter.mpr (.inr ⟨a,hex,hj,?_⟩))
    rw [hset, if_neg (not_le.mpr hleft)]

/-! ### All operations -/

theorem does_acceptJob (payload : JobRequest) :
    Does s.jobSide [.submitted payload.id false] (s.acceptJob cfg payload).jobSide :=
  does_enqueueJob cfg s (buildJobRecord s.now payload) rfl rfl

theorem does_acceptInbound (payload : JobRequest) (origin : Option String) :
    Does s.jobSide [.submitted payload.id true]
      (s.enqueueJob cfg (s.inboundRecord cfg payload origin)).jobSide :=
  does_enqueueJob cfg s (s.inboundRecord cfg payload origin) rfl rfl

theorem noteHeartbeat_jobSide (id : NodeId) : (s.noteHeartbeat cfg id).jobSide = s.jobSide := by
  unfold noteHeartbeat
  dsimp only
  split
  · exact touchNode_jobSide _ _ _
  · exact touchNode_jobSide _ _ _

theorem heartbeat_jobSide (id : NodeId) (payload : HeartbeatPayload) :
    (s.heartbeat cfg id payload).1.jobSide = s.jobSide := by
  unfold heartbeat
  cases s.node? id with
  | none => rfl
  | some node =>
    dsimp only
    cases payload.currentLoad.resolve node.currentLoad with
    | none => rfl
    | some load =>
      dsimp only
      cases payload.queueSize.resolve ((payload.runningJobs.getD node.runningJobs).length : ℤ) with
      | none => rfl
      | some size =>
        dsimp only
        cases payload.avgLatencyMs.resolve node.avgLatencyMs with
        | none => rfl
        | some latency => exact noteHeartbeat_jobSide cfg _ _

/-- A change of a node's record that says nothing about its being alive. -/
structure KeepsPulse (f : NodeState → NodeState) : Prop where
  nodeId : ∀ n, (f n).nodeId = n.nodeId
  lastSeen : ∀ n, (f n).lastSeen = n.lastSeen
  healthy : ∀ n, (f n).healthy = n.healthy

/-- A heartbeat with a bad field leaves some of the earlier ones behind, in memory only. -/
theorem heartbeat_raised {id : NodeId} {payload : HeartbeatPayload}
    (h : (s.heartbeat cfg id payload).2 = .raised) :
    ∃ f, KeepsPulse f ∧ (s.heartbeat cfg id payload).1 = s.modifyNode id f := by
  unfold heartbeat at h ⊢
  cases hn : s.node? id with
  | none =>
    rw [hn] at h
    exact absurd h (by simp)
  | some node =>
    rw [hn] at h
    dsimp only at h ⊢
    cases hload : payload.currentLoad.resolve node.currentLoad with
    | none => exact ⟨fun n => n,⟨fun _ => rfl,fun _ => rfl,fun _ => rfl⟩,(modifyNode_id s id).symm⟩
    | some load =>
      rw [hload] at h
      dsimp only at h ⊢
      cases hsize : payload.queueSize.resolve
        ((payload.runningJobs.getD node.runningJobs).length : ℤ) with
      | none =>
        exact ⟨withLoad load (payload.runningJobs.getD node.runningJobs),
          ⟨fun _ => rfl,fun _ => rfl,fun _ => rfl⟩,rfl⟩
      | some size =>
        rw [hsize] at h
        dsimp only at h ⊢
        cases hlat : payload.avgLatencyMs.resolve node.avgLatencyMs with
        | none =>
          exact ⟨withQueueSize size ∘ withLoad load (payload.runningJobs.getD node.runningJobs),
            ⟨fun _ => rfl,fun _ => rfl,fun _ => rfl⟩,
            modifyNode_modifyNode s id (withLoad _ _) (fun _ => rfl) (withQueueSize size)
              fun _ => rfl⟩
        | some latency =>
          rw [hlat] at h
          exact absurd h (by simp)

theorem noteHeartbeat_nodeSide (id : NodeId) :
    (s.noteHeartbeat cfg id).nodeSide = (s.touchNode id (beaten s.now cfg.loadEmaBeta)).nodeSide := by
  unfold noteHeartbeat
  dsimp only
  split <;> rfl

/-- A heartbeat without a bad field stamps its node. -/
theorem tends_heartbeat {id : NodeId} {payload : HeartbeatPayload}
    (h : (s.heartbeat cfg id payload).2 ≠ .raised) :
    Tends s.nodeSide [id] (s.heartbeat cfg id payload).1.nodeSide := by
  unfold heartbeat at h ⊢
  cases hn : s.node? id with
  | none =>
    have htouch := tends_touchNode s id (fun n => n) fun _ => rfl
    rw [touchNode_of_none s id _ hn] at htouch
    exact htouch
  | some node =>
    rw [hn] at h
    dsimp only at h ⊢
    cases hload : payload.currentLoad.resolve node.currentLoad with
    | none =>
      rw [hload] at h
      exact absurd rfl h
    | some load =>
      rw [hload] at h
      dsimp only at h ⊢
      cases hsize : payload.queueSize.resolve
        ((payload.runningJobs.getD node.runningJobs).length : ℤ) with
      | none =>
        rw [hsize] at h
        exact absurd rfl h
      | some size =>
        rw [hsize] at h
        dsimp only at h ⊢
        cases hlat : payload.avgLatencyMs.resolve node.avgLatencyMs with
        | none =>
          rw [hlat] at h
          exact absurd rfl h
        | some latency =>
          dsimp only
          set jobs := payload.runningJobs.getD node.runningJobs
          rw [modifyNode_modifyNode s id (withLoad load jobs) (fun _ => rfl) (withQueueSize size)
            (fun _ => rfl), modifyNode_modifyNode s id (withQueueSize size ∘ withLoad load jobs)
            (fun _ => rfl) (withLatency latency) (fun _ => rfl), noteHeartbeat_nodeSide,
            touchNode_modifyNode s id (withLatency latency ∘ withQueueSize size ∘ withLoad load jobs)
            (fun _ => rfl) (beaten _ _) (fun _ => rfl)]
          exact tends_touchNode s id _ fun _ => rfl

/-- The actions of an operation. -/
def opActions : Op → List Action
  | .submitJob payload env =>
    .submitted payload.id false :: (s.acceptJob cfg payload).scheduleActions cfg env
  | .inboundJob payload origin env =>
    match s.job? payload.id with
    | some _ => []
    | none =>
      .submitted payload.id true ::
        (s.enqueueJob cfg (s.inboundRecord cfg payload origin)).scheduleActions cfg env
  | .scheduleOnce env => s.scheduleActions cfg env
  | .jobResult node id payload env =>
    match s.job? id with
    | none => []
    | some job =>
      recordActions cfg job payload ++
        (s.recordResult cfg node job payload).scheduleActions cfg env
  | .checkNodesOnce deadAfterSec =>
    checkActions s.now deadAfterSec s.jobSide.phase s.memory.nodes.entries
  | _ => []

theorem opActions_jobResult {id : JobId} {job : JobRecord} (h : s.job? id = some job)
    (node : NodeId) (payload : Json.Object) (env : Surroundings) :
    s.opActions cfg (.jobResult node id payload env) = recordActions cfg job payload ++
      (s.recordResult cfg node job payload).scheduleActions cfg env := by
  unfold opActions
  dsimp only
  rw [h]

/-- Every operation moves the jobs by its actions. -/
theorem edits_exec (op : Op) (hk : s.jobSide.Known) :
    Edits s.jobSide (s.opActions cfg op) (s.exec cfg op).jobSide := by
  have hthen : ∀ {as : List Action} {t : State} (env : Surroundings),
      Edits s.jobSide as t.jobSide →
      Edits s.jobSide (as ++ t.scheduleActions cfg env) (t.scheduleOnce cfg env).jobSide :=
    fun env h => h.trans (edits_scheduleOnce cfg _ env (h.known hk))
  unfold exec perform opActions
  cases op with
  | clock now => exact .refl _
  | registerNode payload =>
    dsimp only
    rw [registerNode_jobSide]
    exact .refl _
  | submitJob payload env => exact hthen env (does_acceptJob cfg s payload).toEdits
  | inboundJob payload origin env =>
    dsimp only
    unfold inboundJob
    cases s.job? payload.id with
    | some job => exact .refl _
    | none => exact hthen env (does_acceptInbound cfg s payload origin).toEdits
  | scheduleOnce env => exact edits_scheduleOnce cfg s env hk
  | jobResult node id payload env =>
    dsimp only
    unfold jobResult
    cases h : s.job? id with
    | none => exact .refl _
    | some job =>
      have hid : job.id = id := Table.key_of_get? h
      rw [← hid] at h
      exact hthen env (does_recordResult cfg s node h payload).toEdits
  | heartbeat node payload =>
    dsimp only
    rw [heartbeat_jobSide]
    exact .refl _
  | checkNodesOnce deadAfterSec => exact (does_checkNodes cfg s _ _ _).toEdits
  | executionEnds node job => exact .refl _

theorem known_exec (op : Op) (hk : s.jobSide.Known) : (s.exec cfg op).jobSide.Known :=
  (edits_exec cfg s op hk).known hk

theorem known_init : ({} : State).jobSide.Known := fun _ _ => rfl

/-- A submission uses a job id that is not known yet. -/
def Fresh (s : State) : Op → Prop
  | .submitJob payload _ => s.job? payload.id = none
  | _ => True

instance (s : State) (op : Op) : Decidable (s.Fresh op) :=
  match op with
  | .submitJob payload _ => inferInstanceAs (Decidable (s.job? payload.id = none))
  | .clock _ | .registerNode _ | .inboundJob _ _ _ | .scheduleOnce _ | .jobResult _ _ _ _
  | .heartbeat _ _ | .checkNodesOnce _ | .executionEnds _ _ => .isTrue trivial

/-- The actions of an operation about a job that is over. They come from a result for it, or
from the recovery from a dead node that lists it; if these leave it in a final state, the
scheduler does not touch it. -/
theorem opActions_of_terminal {s : State} {op : Op} {job : JobId} {c : Phase}
    (hk : s.jobSide.Known) (hfresh : s.Fresh op) (hphase : s.jobSide.phase job = some c)
    (hterm : c.status.terminal) {P : Action → Prop}
    (hresult : ∀ node payload env record, op = .jobResult node job payload env →
      s.job? job = some record → ∀ a ∈ recordActions cfg record payload, P a)
    (hcheck : ∀ deadAfterSec, op = .checkNodesOnce deadAfterSec →
      (∃ n ∈ deadNodes s.now deadAfterSec s.memory.nodes.entries, job ∈ n.runningJobs) →
      ∀ a ∈ asideActions job c.attempts, P a)
    (hfinal : ∀ a, P a → ∀ st, a.sets = some st → st.terminal) :
    ∀ a ∈ s.opActions cfg op, a.job = job → P a := by
  have hknown : ∀ id, s.job? id = none → id ≠ job := by
    rintro id hid rfl
    rw [JobSide.phase, show s.jobSide.jobs.get? id = none from hid] at hphase
    exact absurd hphase (by simp)
  have hthen : ∀ {as : List Action} {t : State} (env : Surroundings),
      Edits s.jobSide as t.jobSide → (∀ a ∈ as, a.job = job → P a) →
      ∀ a ∈ as ++ t.scheduleActions cfg env, a.job = job → P a := by
    intro as t env hedits has a ha hj
    obtain ⟨d,hd,hdt⟩ := terminal_replay (fun a ha hj => hfinal a (has a ha hj)) hterm
    rw [← hphase, ← hedits.phase] at hd
    obtain ha | ha := List.mem_append.mp ha
    · exact has a ha hj
    · exact absurd hj (scheduleActions_of_terminal cfg t (hedits.known hk) hd hdt ha)
  have hsubmit : ∀ {id : JobId} {fed : Bool}, id ≠ job →
      ∀ a ∈ [Action.submitted id fed], a.job = job → P a := by
    intro id fed hne a ha hj
    rw [List.mem_singleton.mp ha] at hj
    exact absurd hj hne
  unfold opActions
  cases op with
  | submitJob payload env =>
    exact hthen env (does_acceptJob cfg s payload).toEdits (hsubmit (hknown _ hfresh))
  | inboundJob payload origin env =>
    dsimp only
    cases hid : s.job? payload.id with
    | some _ => simp
    | none =>
      exact hthen env (does_acceptInbound cfg s payload origin).toEdits (hsubmit (hknown _ hid))
  | scheduleOnce env => exact hthen env (.refl s.jobSide) (by simp)
  | jobResult node id payload env =>
    dsimp only
    cases hid : s.job? id with
    | none => simp
    | some record =>
      have hkey : record.id = id := Table.key_of_get? hid
      have hrecord : s.job? record.id = some record := by rw [hkey, hid]
      apply hthen env (does_recordResult cfg s node hrecord payload).toEdits
      intro a ha hj
      obtain rfl : id = job := hkey.symm.trans ((recordActions_job cfg ha).symm.trans hj)
      exact hresult node payload env record rfl hid a ha
  | checkNodesOnce deadAfterSec =>
    intro a ha hj
    obtain ⟨n,hn,id,hid,d,hd,ha⟩ := mem_checkActions.mp ha
    obtain rfl : id = job := by rcases asideActions_job ha with rfl | rfl <;> exact hj
    obtain rfl := Option.some.inj (hphase.symm.trans hd)
    exact hcheck deadAfterSec rfl ⟨n,hn,hid⟩ a ha
  | clock now => simp
  | registerNode payload => simp
  | heartbeat node payload => simp
  | executionEnds node id => simp

/-- The nodes that answer a dispatch of an operation. -/
def opAnswers : Op → List NodeId
  | .submitJob payload env => (s.acceptJob cfg payload).scheduleStamps cfg env
  | .inboundJob payload origin env =>
    match s.job? payload.id with
    | some _ => []
    | none => (s.enqueueJob cfg (s.inboundRecord cfg payload origin)).scheduleStamps cfg env
  | .scheduleOnce env => s.scheduleStamps cfg env
  | .jobResult node id payload env =>
    match s.job? id with
    | none => []
    | some job => (s.recordResult cfg node job payload).scheduleStamps cfg env
  | _ => []

/-- Whom an operation stamps: the sender of a request, the nodes that a finished job was
assigned to, and the nodes that answer a dispatch. -/
def opStamps (op : Op) : List NodeId :=
  (match op with
    | .jobResult node id _ _ =>
      match s.job? id with
      | none => []
      | some job => node :: job.assignedNodes
    | .heartbeat node _ => [node]
    | _ => []) ++ s.opAnswers cfg op

/-- The node side of an operation: the clock moves, a node registers, the dead are buried, a
heartbeat fails half way, or the nodes that the operation stamps are tended. -/
inductive NodeStep (s : State) : Op → Prop
  | registers (payload : NodeRegistration)
    (h : Stamps s.nodeSide [payload.nodeId] (s.exec cfg (.registerNode payload)).nodeSide) :
    NodeStep s (.registerNode payload)
  | clock (now : ℚ) (h : (s.exec cfg (.clock now)).nodeSide = { s.nodeSide with now := now }) :
    NodeStep s (.clock now)
  | buries (deadAfterSec : ℚ)
    (h : Buries s.nodeSide ((deadNodes s.now deadAfterSec s.memory.nodes.entries).map
      fun n => n.nodeId) (s.exec cfg (.checkNodesOnce deadAfterSec)).nodeSide) :
    NodeStep s (.checkNodesOnce deadAfterSec)
  | raised (node : NodeId) (payload : HeartbeatPayload) (f : NodeState → NodeState)
    (hf : KeepsPulse f) (h : s.exec cfg (.heartbeat node payload) = s.modifyNode node f)
    (hr : (s.perform cfg (.heartbeat node payload)).2 = .raised) :
    NodeStep s (.heartbeat node payload)
  | tends (op : Op) (h : Tends s.nodeSide (s.opStamps cfg op) (s.exec cfg op).nodeSide) :
    NodeStep s op

theorem nodeStep_exec (op : Op) : s.NodeStep cfg op := by
  have hthen : ∀ {as : List NodeId} {t : State} (env : Surroundings),
      Tends s.nodeSide as t.nodeSide →
      Tends s.nodeSide (as ++ t.scheduleStamps cfg env) (t.scheduleOnce cfg env).nodeSide :=
    fun env h => h.trans (tends_scheduleOnce cfg _ env)
  cases op with
  | clock now => exact .clock now rfl
  | registerNode payload => exact .registers payload (stamps_registerNode s payload)
  | submitJob payload env =>
    exact .tends _ (hthen (t := s.acceptJob cfg payload) env
      (.of_eq (enqueueJob_nodeSide s cfg (buildJobRecord s.now payload))))
  | inboundJob payload origin env =>
    apply NodeStep.tends
    unfold exec perform opStamps opAnswers inboundJob
    dsimp only
    cases s.job? payload.id with
    | some job => exact .refl _
    | none => exact hthen env (.of_eq (enqueueJob_nodeSide _ _ _))
  | scheduleOnce env => exact .tends _ (tends_scheduleOnce cfg s env)
  | jobResult node id payload env =>
    apply NodeStep.tends
    unfold exec perform opStamps opAnswers jobResult
    dsimp only
    cases s.job? id with
    | none => exact .refl _
    | some job => exact hthen env (tends_recordResult cfg s node job payload)
  | heartbeat node payload =>
    by_cases h : (s.heartbeat cfg node payload).2 = .raised
    · obtain ⟨f,hf,hs⟩ := heartbeat_raised cfg s h
      exact .raised node payload f hf hs h
    · exact .tends _ (tends_heartbeat cfg s h)
  | checkNodesOnce deadAfterSec => exact .buries _ (buries_checkNodes cfg s _ _ _)
  | executionEnds node job =>
    exact .tends _ ⟨⟨rfl,fun _ _ => rfl,by simp [opStamps, opAnswers],fun _ => .inr ⟨rfl,rfl⟩⟩,
      fun _ => Iff.rfl⟩

end State
end Arsonist.ControlPlane
