import Arsonist.ControlPlane.Completion

/-! Completion reports to the federation. `job_result` sends one for every result that it
records; the two other ways in which a job fails for good send none. -/
namespace Arsonist.ControlPlane
open Arsonist.Library Arsonist.Shared Arsonist.Scheduler

namespace JobSide
variable {v w : JobSide} {as : List Action}

/-- A report with the given outcome has been sent for the job. -/
def Told (v : JobSide) (job : JobId) (ok : Bool) : Prop :=
  ∃ r : Report, .reported r ∈ v.actions ∧ r.jobId = job ∧ r.ok = ok

theorem Told.mono (h : Edits v as w) {job : JobId} {ok : Bool} (ht : v.Told job ok) :
    w.Told job ok := by
  obtain ⟨r,hr,hj,hok⟩ := ht
  exact ⟨r,by rw [h.actions]; exact List.mem_append_left _ hr,hj,hok⟩

/-- Actions without a report tell nothing new. -/
theorem told_of_silent (h : Edits v as w) (hsilent : ∀ r, .reported r ∉ as) {job : JobId}
    {ok : Bool} : w.Told job ok ↔ v.Told job ok := by
  refine ⟨fun ⟨r,hr,hj,hok⟩ => ⟨r,?_,hj,hok⟩,Told.mono h⟩
  rw [h.actions] at hr
  exact (List.mem_append.mp hr).resolve_right (hsilent r)

/-- Every outcome of a job that a federation waits for has been reported. -/
def OutcomesTold (v : JobSide) : Prop :=
  ∀ job c, v.phase job = some c → c.federated = true →
    (c.status = .completed → v.Told job true) ∧ (c.status = .failed → v.Told job false)

/-- A report accounts for every final status that the actions set. -/
theorem OutcomesTold.edits (hv : v.OutcomesTold) (h : Edits v as w)
    (hsub : ∀ job fed, .submitted job fed ∈ as → fed = false ∨ v.phase job = none)
    (hset : ∀ job c, w.phase job = some c → c.federated = true → ∀ a ∈ as, a.job = job →
      (a.sets = some .completed → w.Told job true) ∧ (a.sets = some .failed → w.Told job false)) :
    w.OutcomesTold := by
  intro job c hc hfed
  have hold : ∀ st, c.status = st → v.phase job ≠ none →
      (v.phase job).map Phase.status = some st →
      ∃ d, v.phase job = some d ∧ d.federated = true ∧ d.status = st := by
    intro st _ _ hst
    obtain ⟨d,hd,hds⟩ := Option.map_eq_some_iff.mp hst
    refine ⟨d,hd,?_,hds⟩
    by_contra hnot
    have hfalse : ∀ fed, .submitted job fed ∈ as → fed = false := fun fed hmem =>
      (hsub job fed hmem).resolve_right (by rw [hd]; simp)
    obtain ⟨e,he,hefed⟩ := federated_replay hfalse (by simpa using hnot : d.federated = false)
    rw [← hd, ← h.phase, hc, Option.some.injEq] at he
    rw [← he, hfed] at hefed
    exact absurd hefed (by simp)
  have hcase : ∀ st, c.status = st →
      (∃ d, v.phase job = some d ∧ d.federated = true ∧ d.status = st) ∨
        ∃ a ∈ as, a.job = job ∧ a.sets = some st := by
    intro st hst
    have hw : (replay job (v.phase job) as).map Phase.status = some st := by
      rw [← h.phase, hc]
      exact congrArg some hst
    obtain hp | ha := status_of_replay hw
    · exact .inl (hold st hst (fun hn => by rw [hn] at hp; exact absurd hp (by simp)) hp)
    · exact .inr ha
  constructor
  · intro hst
    obtain ⟨d,hd,hdf,hds⟩ | ⟨a,ha,hj,hs⟩ := hcase _ hst
    · exact ((hv job d hd hdf).1 hds).mono h
    · exact (hset job c hc hfed a ha hj).1 hs
  · intro hst
    obtain ⟨d,hd,hdf,hds⟩ | ⟨a,ha,hj,hs⟩ := hcase _ hst
    · exact ((hv job d hd hdf).2 hds).mono h
    · exact (hset job c hc hfed a ha hj).2 hs

end JobSide

namespace State
open JobSide
variable (cfg : Config)

/-! ### The ways in which a job fails without a report -/

/-- The scheduler gives the job up: it is popped with no attempt left, or it is on its last
attempt and not enough nodes take it. -/
def LastTry (reply : NodeId → Reply) (nodes : List NodeState) (job : JobRecord) : Prop :=
  ¬job.status.terminal ∧
    if Dispatches nodes job then
      ¬Suffices reply nodes job ∧ maxJobRetries ≤ job.attempts+1
    else maxJobRetries ≤ job.attempts

/-- A scheduler step would give up a job without a word to its federation. -/
def Forfeits (s : State) (env : Surroundings) : Prop :=
  ∃ job, env.leader = true ∧ s.nextJob cfg = some job ∧ job.reportToFederation = true ∧
    LastTry env.reply s.memory.nodes.entries job ∧ ¬s.jobSide.Told job.id false

/-- A step that fails a job for good without a word to its federation. In the handlers it
is the call of the scheduler that does. -/
def ForfeitsIn (s : State) : Op → Prop
  | .submitJob payload env => (s.acceptJob cfg payload).Forfeits cfg env
  | .inboundJob payload origin env => s.job? payload.id = none ∧
    (s.enqueueJob cfg (s.inboundRecord cfg payload origin)).Forfeits cfg env
  | .scheduleOnce env => s.Forfeits cfg env
  | .jobResult node id payload env => ∃ job, s.job? id = some job ∧
    (s.recordResult cfg node job payload).Forfeits cfg env
  | .checkNodesOnce deadAfterSec =>
    ∃ n ∈ deadNodes s.now deadAfterSec s.memory.nodes.entries, ∃ id ∈ n.runningJobs,
      ∃ job, s.job? id = some job ∧ job.reportToFederation = true ∧
        maxJobRetries ≤ job.attempts ∧ ¬s.jobSide.Told id false
  | _ => False

theorem exhausted_mem_asideActions {job : JobId} {n : ℕ} :
    .exhausted job ∈ asideActions job n ↔ maxJobRetries ≤ n := by
  unfold asideActions
  split_ifs with h <;> simp [h]

/-- Giving up is the last thing that a scheduler step does. -/
theorem placeActions_of_lastTry {reply : NodeId → Reply} {nodes : List NodeState}
    {job : JobRecord} (h : LastTry reply nodes job) :
    ∃ as, placeActions reply nodes job = as ++ [.exhausted job.id] := by
  obtain ⟨hterm,h⟩ := h
  unfold placeActions
  rw [if_neg hterm]
  split_ifs with hdis
  · rw [if_pos hdis] at h
    rw [roundActions, if_neg h.1, asideActions, if_pos h.2]
    exact ⟨_,rfl⟩
  · rw [if_neg hdis] at h
    rw [asideActions, if_pos h]
    exact ⟨[],rfl⟩

theorem lastTry_of_exhausted {reply : NodeId → Reply} {nodes : List NodeState}
    {job : JobRecord} (h : .exhausted job.id ∈ placeActions reply nodes job) :
    LastTry reply nodes job := by
  unfold placeActions at h
  split_ifs at h with hterm hdis
  · exact absurd h (by simp)
  · refine ⟨hterm,?_⟩
    rw [if_pos hdis]
    rw [roundActions] at h
    obtain h | h := List.mem_append.mp h
    · simp at h
    · split_ifs at h with hsuff
      · exact absurd h (by simp)
      · exact ⟨hsuff,exhausted_mem_asideActions.mp h⟩
  · refine ⟨hterm,?_⟩
    rw [if_neg hdis]
    exact exhausted_mem_asideActions.mp h

/-! ### One step -/

theorem outcomesTold_scheduleOnce {s : State} {env : Surroundings} (hk : s.jobSide.Known)
    (h : s.jobSide.OutcomesTold) (hno : ¬s.Forfeits cfg env) :
    (s.scheduleOnce cfg env).jobSide.OutcomesTold := by
  have hedits := edits_scheduleOnce cfg s env hk
  refine h.edits hedits ?_ ?_
  · exact fun job fed hmem => absurd hmem (submitted_not_mem_scheduleActions cfg s job fed)
  · intro job c hc hfed a ha hj
    refine ⟨fun hs => absurd hs (scheduleActions_sets cfg s ha),fun hs => Told.mono hedits ?_⟩
    by_contra hnot
    apply hno
    have hlead : env.leader = true := by
      by_contra hl
      rw [scheduleActions, if_neg hl] at ha
      exact absurd ha (by simp)
    obtain ⟨record,hnext,hmem⟩ := mem_scheduleActions cfg s ha
    have hid : record.id = job := (placeActions_job hmem).symm.trans hj
    have hex : a = .exhausted record.id := by
      obtain rfl | ⟨_,-,rfl⟩ | rfl | rfl := mem_placeActions hmem
      · exact absurd hs (by simp [Action.sets])
      · exact absurd hs (by simp [Action.sets])
      · rfl
      · exact absurd hs (by simp [Action.sets])
    have hlive := job?_of_nextJob cfg s hk hnext
    have hsome : s.jobSide.phase job = some (phaseOf record) := by
      rw [← hid]
      exact congrArg (Option.map phaseOf) hlive
    have hflag : c.federated = record.reportToFederation := hedits.federated
      (fun fed => submitted_not_mem_scheduleActions cfg s job fed) hsome hc
    exact ⟨record,hlead,hnext,hflag ▸ hfed,lastTry_of_exhausted (hex ▸ hmem),hid ▸ hnot⟩

/-- A step that gives up a job without a word leaves an outcome untold. -/
theorem untold_of_forfeits {s : State} {env : Surroundings} (hk : s.jobSide.Known)
    (h : s.Forfeits cfg env) : ¬(s.scheduleOnce cfg env).jobSide.OutcomesTold := by
  obtain ⟨job,hlead,hnext,hfed,hlast,hnot⟩ := h
  intro htold
  have hedits := edits_scheduleOnce cfg s env hk
  have hsome : s.jobSide.phase job.id = some (phaseOf job) :=
    congrArg (Option.map phaseOf) (job?_of_nextJob cfg s hk hnext)
  obtain ⟨as,has⟩ := placeActions_of_lastTry hlast
  have hact : s.scheduleActions cfg env = as ++ [.exhausted job.id] := by
    rw [scheduleActions, if_pos hlead, hnext]
    exact has
  have hend : (s.scheduleOnce cfg env).status job.id = some .failed := by
    rw [status_eq, hedits.phase, hact, replay_append, hsome]
    obtain ⟨d,hd⟩ := Option.ne_none_iff_exists'.mp
      (replay_ne_none (show some (phaseOf job) ≠ none by simp) as)
    rw [hd]
    simp [Action.apply, Action.job, Action.next]
  obtain ⟨d,hd,hds⟩ := Option.map_eq_some_iff.mp ((status_eq _ _).symm.trans hend)
  have hdf : d.federated = job.reportToFederation := hedits.federated
    (fun fed => submitted_not_mem_scheduleActions cfg s job.id fed) hsome hd
  have hsaid := (htold job.id d hd (hdf.trans hfed)).2 hds
  rw [told_of_silent hedits (reported_not_mem_scheduleActions cfg s)] at hsaid
  exact hnot hsaid

/-- An accepted job has no outcome yet. -/
theorem outcomesTold_submitted {s t : State} {id : JobId} {fed : Bool}
    (h : s.jobSide.OutcomesTold) (hd : Does s.jobSide [.submitted id fed] t.jobSide)
    (hnew : fed = false ∨ s.jobSide.phase id = none) : t.jobSide.OutcomesTold := by
  refine h.edits hd.toEdits ?_ ?_
  · intro job fed' hmem
    obtain ⟨rfl,rfl⟩ : job = id ∧ fed' = fed := by simpa using hmem
    exact hnew
  · intro job c _ _ a ha _
    obtain rfl := List.mem_singleton.mp ha
    exact ⟨fun hs => absurd hs (by simp [Action.sets]),fun hs => absurd hs (by simp [Action.sets])⟩

/-- A recorded result is reported. -/
theorem outcomesTold_recordResult {s : State} (hurl : rstripSlash cfg.federationUrl ≠ "")
    (h : s.jobSide.OutcomesTold) (node : NodeId) {record : JobRecord}
    (hrecord : s.job? record.id = some record) (payload : Json.Object) :
    (s.recordResult cfg node record payload).jobSide.OutcomesTold := by
  have hd := does_recordResult cfg s node hrecord payload
  have hsub : ∀ job fed, .submitted job fed ∉ recordActions cfg record payload := by
    intro job fed hmem
    obtain he | ⟨-,he⟩ | ⟨-,hmem⟩ := mem_recordActions cfg hmem
    · exact absurd he (by simp)
    · exact absurd he (by simp)
    · rcases asideActions_job hmem with he | he <;> exact absurd he (by simp)
  refine h.edits hd.toEdits (fun job fed hmem => absurd hmem (hsub job fed)) ?_
  intro job c hc hfed a ha hj
  have hid : record.id = job := (recordActions_job cfg ha).symm.trans hj
  subst hid
  have hsome : s.jobSide.phase record.id = some (phaseOf record) :=
    congrArg (Option.map phaseOf) hrecord
  have hflag : c.federated = record.reportToFederation :=
    hd.federated (hsub record.id) hsome hc
  have htold : (s.recordResult cfg node record payload).jobSide.Told record.id
      (reportsOk payload) := by
    refine ⟨resultReport cfg record payload,?_,rfl,rfl⟩
    rw [hd.actions, recordActions, if_pos ⟨hflag ▸ hfed,hurl⟩]
    simp
  obtain rfl | ⟨-,rfl⟩ | ⟨hok,ha⟩ := mem_recordActions cfg ha
  · cases hok : reportsOk payload with
    | true =>
      rw [hok] at htold
      exact ⟨fun _ => htold,fun hs => absurd hs (by simp [Action.sets])⟩
    | false =>
      rw [hok] at htold
      exact ⟨fun hs => absurd hs (by simp [Action.sets]),fun _ => htold⟩
  · exact ⟨fun hs => absurd hs (by simp [Action.sets]),fun hs => absurd hs (by simp [Action.sets])⟩
  · rw [hok] at htold
    obtain rfl | rfl := asideActions_job ha
    · exact ⟨fun hs => absurd hs (by simp [Action.sets]),fun _ => htold⟩
    · exact ⟨fun hs => absurd hs (by simp [Action.sets]),
        fun hs => absurd hs (by simp [Action.sets])⟩

theorem outcomesTold_exec {s : State} {op : Op} (hurl : rstripSlash cfg.federationUrl ≠ "")
    (hk : s.jobSide.Known) (h : s.jobSide.OutcomesTold) (hno : ¬s.ForfeitsIn cfg op) :
    (s.exec cfg op).jobSide.OutcomesTold := by
  unfold exec perform
  cases op with
  | clock now => exact h
  | registerNode payload =>
    dsimp only
    rw [registerNode_jobSide]
    exact h
  | submitJob payload env =>
    have hd := does_acceptJob cfg s payload
    exact outcomesTold_scheduleOnce cfg (hd.known hk) (outcomesTold_submitted h hd (.inl rfl)) hno
  | inboundJob payload origin env =>
    dsimp only
    unfold inboundJob
    cases hid : s.job? payload.id with
    | some job => exact h
    | none =>
      have hd := does_acceptInbound cfg s payload origin
      have hnone : s.jobSide.phase payload.id = none := congrArg (Option.map phaseOf) hid
      exact outcomesTold_scheduleOnce cfg (hd.known hk)
        (outcomesTold_submitted h hd (.inr hnone)) fun hf => hno ⟨hid,hf⟩
  | scheduleOnce env => exact outcomesTold_scheduleOnce cfg hk h hno
  | jobResult node id payload env =>
    dsimp only
    unfold jobResult
    cases hid : s.job? id with
    | none => exact h
    | some record =>
      have hrecord : s.job? record.id = some record := by
        rw [show record.id = id from Table.key_of_get? hid, hid]
      have hd := does_recordResult cfg s node hrecord payload
      exact outcomesTold_scheduleOnce cfg (hd.known hk)
        (outcomesTold_recordResult cfg hurl h node hrecord payload) fun hf => hno ⟨record,hid,hf⟩
  | heartbeat node payload =>
    dsimp only
    rw [heartbeat_jobSide]
    exact h
  | checkNodesOnce deadAfterSec =>
    have hd := does_checkNodes cfg s s.now deadAfterSec s.memory.nodes.entries
    have hsub : ∀ job fed, .submitted job fed ∉ checkActions s.now deadAfterSec s.jobSide.phase
        s.memory.nodes.entries := by
      intro job fed hmem
      obtain ⟨_,-,_,-,_,-,hmem⟩ := mem_checkActions.mp hmem
      rcases asideActions_job hmem with he | he <;> exact absurd he (by simp)
    refine h.edits hd.toEdits (fun job fed hmem => absurd hmem (hsub job fed)) ?_
    intro job c hc hfed a ha hj
    obtain ⟨n,hn,id,hid,d,hphase,ha⟩ := mem_checkActions.mp ha
    obtain rfl | rfl := asideActions_job ha
    · obtain rfl : id = job := hj
      refine ⟨fun hs => absurd hs (by simp [Action.sets]),fun _ => Told.mono hd.toEdits ?_⟩
      by_contra hnot
      obtain ⟨record,hrecord,rfl⟩ := Option.map_eq_some_iff.mp hphase
      have hflag : c.federated = record.reportToFederation := hd.federated (hsub id) hphase hc
      exact hno ⟨n,hn,id,hid,record,hrecord,hflag ▸ hfed,exhausted_mem_asideActions.mp ha,hnot⟩
    · exact ⟨fun hs => absurd hs (by simp [Action.sets]),
        fun hs => absurd hs (by simp [Action.sets])⟩
  | executionEnds node job => exact h

/-- The health check fails a job that has no attempt left. -/
theorem untold_checkNodes {s : State} {deadAfterSec : ℚ} {n : NodeState} {id : JobId}
    {record : JobRecord} (hn : n ∈ deadNodes s.now deadAfterSec s.memory.nodes.entries)
    (hmem : id ∈ n.runningJobs) (hrecord : s.job? id = some record)
    (hfed : record.reportToFederation = true) (hmax : maxJobRetries ≤ record.attempts)
    (hnot : ¬s.jobSide.Told id false) :
    ¬(s.checkNodesOnce cfg deadAfterSec).jobSide.OutcomesTold := by
  intro htold
  have hd := does_checkNodes cfg s s.now deadAfterSec s.memory.nodes.entries
  have hphase : s.jobSide.phase id = some (phaseOf record) := congrArg (Option.map phaseOf) hrecord
  have hsilent : ∀ a ∈ checkActions s.now deadAfterSec s.jobSide.phase s.memory.nodes.entries,
      a = .exhausted a.job ∨ a = .requeued a.job := by
    intro a ha
    obtain ⟨_,-,_,-,_,-,ha⟩ := mem_checkActions.mp ha
    obtain rfl | rfl := asideActions_job ha
    · exact .inl rfl
    · exact .inr rfl
  have hend := (status_checkNodesOnce cfg s hn hmem hrecord).1
  rw [if_pos hmax, status_eq] at hend
  obtain ⟨d,hdp,hds⟩ := Option.map_eq_some_iff.mp hend
  have hdf : d.federated = record.reportToFederation := hd.federated (fun fed hm => by
    rcases hsilent _ hm with he | he <;> exact absurd he (by simp)) hphase hdp
  refine hnot ((told_of_silent hd.toEdits ?_).mp ((htold id d hdp (hdf.trans hfed)).2 hds))
  intro report hm
  rcases hsilent _ hm with he | he <;> exact absurd he (by simp)

theorem untold_of_forfeitsIn {s : State} {op : Op} (hk : s.jobSide.Known)
    (h : s.ForfeitsIn cfg op) : ¬(s.exec cfg op).jobSide.OutcomesTold := by
  unfold exec perform
  cases op with
  | submitJob payload env =>
    exact untold_of_forfeits cfg ((does_acceptJob cfg s payload).known hk) h
  | inboundJob payload origin env =>
    obtain ⟨hid,h⟩ := h
    dsimp only
    unfold inboundJob
    rw [hid]
    exact untold_of_forfeits cfg ((does_acceptInbound cfg s payload origin).known hk) h
  | scheduleOnce env => exact untold_of_forfeits cfg hk h
  | jobResult node id payload env =>
    obtain ⟨record,hid,h⟩ := h
    have hrecord : s.job? record.id = some record := by
      rw [show record.id = id from Table.key_of_get? hid, hid]
    dsimp only
    unfold jobResult
    rw [hid]
    exact untold_of_forfeits cfg ((does_recordResult cfg s node hrecord payload).known hk) h
  | checkNodesOnce deadAfterSec =>
    obtain ⟨n,hn,id,hmem,record,hrecord,hfed,hmax,hnot⟩ := h
    exact untold_checkNodes cfg hn hmem hrecord hfed hmax hnot
  | clock now => exact absurd h id
  | registerNode payload => exact absurd h id
  | heartbeat node payload => exact absurd h id
  | executionEnds node job => exact absurd h (fun h => h)

/-- In every state of a run, each job that a federation waits for and that is completed or
failed has had a report with that outcome. -/
def AllReported (ops : List Op) : Prop :=
  ∀ p q, ops = p ++ q → ∀ id job, (run (exec cfg) {} p).job? id = some job →
    job.reportToFederation = true →
    (job.status = .completed →
      ∃ r, .reported r ∈ (run (exec cfg) {} p).actions ∧ r.jobId = id ∧ r.ok = true) ∧
    (job.status = .failed →
      ∃ r, .reported r ∈ (run (exec cfg) {} p).actions ∧ r.jobId = id ∧ r.ok = false)

theorem allReported_iff_told (ops : List Op) :
    AllReported cfg ops ↔
      ∀ p q, ops = p ++ q → (run (exec cfg) {} p).jobSide.OutcomesTold := by
  constructor
  · intro h p q hops id c hc hfed
    obtain ⟨job,hjob,rfl⟩ := Option.map_eq_some_iff.mp hc
    exact h p q hops id job hjob hfed
  · intro h p q hops id job hjob hfed
    exact h p q hops id (phaseOf job) (congrArg (Option.map phaseOf) hjob) hfed

/-- Every final outcome is reported in exactly the runs in which no job that a federation
waits for is given up, by the scheduler or by the health check, without an earlier report of
its failure. -/
theorem allReported_iff (hurl : rstripSlash cfg.federationUrl ≠ "") (ops : List Op) :
    AllReported cfg ops ↔ Along (exec cfg) (fun s op => ¬s.ForfeitsIn cfg op) {} ops := by
  rw [allReported_iff_told]
  constructor
  · intro h
    rw [along_iff]
    intro p op q hops hf
    have hend := h (p ++ [op]) q (by rw [hops, List.append_assoc]; rfl)
    rw [run_concat] at hend
    exact untold_of_forfeitsIn cfg (known_run cfg p) hf hend
  · intro h p q hops
    rw [hops, along_append] at h
    have hboth : (run (exec cfg) {} p).jobSide.Known ∧
        (run (exec cfg) {} p).jobSide.OutcomesTold := by
      refine run_invariant (I := fun s : State => s.jobSide.Known ∧ s.jobSide.OutcomesTold) ?_
        h.1 ⟨known_init,?_⟩
      · rintro s op hno ⟨hk,htold⟩
        exact ⟨known_exec cfg s op hk,outcomesTold_exec cfg hurl hk htold hno⟩
      · exact fun job c hc => absurd hc (by simp [jobSide, JobSide.phase])
    exact hboth.2

/-- A member of a federation. -/
def member : Config := { federationUrl := "http://federation/", clusterId := "c1" }

/-- A federated job for two nodes, of which only one ever takes it. -/
def partialTries : List Op :=
  [.registerNode (cpuNode "a"),.registerNode (cpuNode "b"),
   .inboundJob (pairJob "j") none (onlyAccepts "a"),.scheduleOnce (onlyAccepts "a"),
   .scheduleOnce (onlyAccepts "a")]

theorem allReported_iff_partialTries :
    AllReported member partialTries ↔
      Along (exec member) (fun s op => ¬s.ForfeitsIn member op) {} partialTries :=
  allReported_iff member (by decide +kernel) partialTries

/-- The third partial dispatch fails the job, and no report is ever sent. -/
theorem not_allReported :
    ¬∀ (cfg : Config) (ops : List Op), rstripSlash cfg.federationUrl ≠ "" →
      AllReported cfg ops := by
  intro h
  have hend : ((run (exec member) {} partialTries).job? "j").map phaseOf =
      some ⟨.failed,3,true⟩ := by decide +kernel
  have hsilent : (run (exec member) {} partialTries).actions.all (fun a =>
      match a with
      | .reported _ => false
      | _ => true) = true := by decide +kernel
  obtain ⟨job,hjob,hphase⟩ := Option.map_eq_some_iff.mp hend
  simp only [phaseOf, Phase.mk.injEq] at hphase
  obtain ⟨r,hr,-⟩ := (h member partialTries (by decide +kernel) partialTries [] (by simp) "j" job
    hjob hphase.2.2).2 hphase.1
  exact absurd (List.all_eq_true.mp hsilent _ hr) (by simp)

end State
end Arsonist.ControlPlane
