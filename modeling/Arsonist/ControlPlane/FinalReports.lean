import Arsonist.ControlPlane.Reports

/-! Are failures that are reported final? `job_result` sends its report between
`mark_finished` and `requeue_or_fail`, so a report of a failure is final only when the job
has no attempt left and no other node can still report a success. -/
namespace Arsonist.ControlPlane
open Arsonist.Library Arsonist.Shared

/-- The job has failed with all of its attempts used, and a federation knows it. -/
structure Phase.Spent (c : Phase) : Prop where
  failed : c.status = .failed
  attempts : maxJobRetries ≤ c.attempts
  federated : c.federated = true

/-- An action that only confirms that the job has failed. -/
def Action.Confirms (job : JobId) (a : Action) : Prop :=
  a = .finished job false ∨ a = .exhausted job ∨ ∃ r, a = .reported r ∧ r.ok = false

theorem spent_apply {job : JobId} {a : Action} (h : a.job = job → a.Confirms job) {c : Phase}
    (hc : c.Spent) : ∃ d, a.apply job (some c) = some d ∧ d.Spent := by
  unfold Action.apply
  split_ifs with hj
  · obtain rfl | rfl | ⟨r,rfl,-⟩ := h hj
    · exact ⟨_,rfl,rfl,hc.attempts,hc.federated⟩
    · exact ⟨_,rfl,rfl,hc.attempts,hc.federated⟩
    · exact ⟨c,rfl,hc⟩
  · exact ⟨c,rfl,hc⟩

theorem spent_replay {job : JobId} {as : List Action}
    (h : ∀ a ∈ as, a.job = job → a.Confirms job) {c : Phase} (hc : c.Spent) :
    ∃ d, replay job (some c) as = some d ∧ d.Spent := by
  induction as generalizing c with
  | nil => exact ⟨c,rfl,hc⟩
  | cons a as ih =>
    obtain ⟨d,hd,hspent⟩ := spent_apply (h a (by simp)) hc
    rw [replay_cons, hd]
    exact ih (fun b hb => h b (by simp [hb])) hspent

namespace State
open JobSide
variable (cfg : Config)

/-- A result for a job that is reported comes as late as it must: a failure when no attempt
is left, a success when no failure has been reported. -/
def Settled (s : State) : Op → Prop
  | .jobResult _ id payload _ => ∀ job, s.job? id = some job → Reports cfg job →
    (reportsOk payload = false → maxJobRetries ≤ job.attempts) ∧
      (reportsOk payload = true → ¬s.jobSide.Told id false)
  | _ => True

/-- After each report of a failure, the actions on the job only confirm it, and the job is
failed. -/
def Final (s : State) : Prop :=
  ∀ p r q, s.actions = p ++ .reported r :: q → r.ok = false →
    (∀ a ∈ q, a.job = r.jobId → a.Confirms r.jobId) ∧ s.status r.jobId = some .failed

/-- What is known of a job whose failure has been reported. -/
def ToldSpent (s : State) : Prop :=
  ∀ job, s.jobSide.Told job false →
    rstripSlash cfg.federationUrl ≠ "" ∧ ∃ c, s.jobSide.phase job = some c ∧ c.Spent

theorem aside_of_spent {job : JobId} {n : ℕ} (hn : maxJobRetries ≤ n) {a : Action}
    (ha : a ∈ asideActions job n) : a = .exhausted job := by
  rw [asideActions, if_pos hn] at ha
  exact List.mem_singleton.mp ha

/-- A failure of a job without attempts is recorded, reported and confirmed. -/
theorem recordActions_confirm {job : JobRecord} {payload : Json.Object}
    (hok : reportsOk payload = false) (hmax : maxJobRetries ≤ job.attempts) :
    ∀ a ∈ recordActions cfg job payload, a.Confirms job.id := by
  intro a ha
  obtain rfl | ⟨-,rfl⟩ | ⟨-,ha⟩ := mem_recordActions cfg ha
  · rw [hok]
    exact .inl rfl
  · exact .inr (.inr ⟨_,rfl,hok⟩)
  · exact .inr (.inl (aside_of_spent hmax ha))

/-- No operation does anything but confirm a failure that has been reported. -/
theorem opActions_confirm {s : State} {op : Op} {job : JobId} {c : Phase}
    (hk : s.jobSide.Known) (hfresh : s.Fresh op) (hset : s.Settled cfg op)
    (htold : s.jobSide.Told job false) (hurl : rstripSlash cfg.federationUrl ≠ "")
    (hphase : s.jobSide.phase job = some c) (hc : c.Spent) :
    ∀ a ∈ s.opActions cfg op, a.job = job → a.Confirms job := by
  refine opActions_of_terminal cfg hk hfresh hphase (.inr hc.failed) (P := Action.Confirms job)
    ?_ ?_ ?_
  · rintro node payload env record rfl hrecord
    have hkey : record.id = job := Table.key_of_get? hrecord
    obtain rfl : phaseOf record = c := Option.some.inj
      ((congrArg (Option.map phaseOf) hrecord).symm.trans hphase)
    have hrep : Reports cfg record := ⟨hc.federated,hurl⟩
    have hok : reportsOk payload = false := by
      by_contra hne
      exact (hset record hrecord hrep).2 (by simpa using hne) htold
    rw [← hkey]
    exact recordActions_confirm cfg hok hc.attempts
  · rintro deadAfterSec rfl - a ha
    exact .inr (.inl (aside_of_spent hc.attempts ha))
  · rintro a (rfl | rfl | ⟨r,rfl,-⟩) st hst
    · exact .inr (Option.some.inj hst).symm
    · exact .inr (Option.some.inj hst).symm
    · exact absurd hst (by simp [Action.sets])

/-- Only `job_result` reports. -/
theorem reported_mem_opActions {s : State} {op : Op} {r : Report}
    (h : .reported r ∈ s.opActions cfg op) :
    ∃ node id payload env record, op = .jobResult node id payload env ∧
      s.job? id = some record ∧ Reports cfg record ∧ r = resultReport cfg record payload := by
  unfold opActions at h
  cases op with
  | submitJob payload env =>
    obtain h | h := List.mem_cons.mp h
    · exact absurd h (by simp)
    · exact absurd h (reported_not_mem_scheduleActions cfg _ r)
  | inboundJob payload origin env =>
    dsimp only at h
    split at h
    · exact absurd h (by simp)
    · obtain h | h := List.mem_cons.mp h
      · exact absurd h (by simp)
      · exact absurd h (reported_not_mem_scheduleActions cfg _ r)
  | scheduleOnce env => exact absurd h (reported_not_mem_scheduleActions cfg _ r)
  | jobResult node id payload env =>
    dsimp only at h
    cases hid : s.job? id with
    | none =>
      rw [hid] at h
      exact absurd h (by simp)
    | some record =>
      rw [hid] at h
      obtain h | h := List.mem_append.mp h
      · obtain he | ⟨hrep,he⟩ | ⟨-,h⟩ := mem_recordActions cfg h
        · exact absurd he (by simp)
        · exact ⟨node,id,payload,env,record,rfl,hid,hrep,by simpa using he⟩
        · rcases asideActions_job h with he | he <;> exact absurd he (by simp)
      · exact absurd h (reported_not_mem_scheduleActions cfg _ r)
  | checkNodesOnce deadAfterSec =>
    obtain ⟨_,-,_,-,_,-,h⟩ := mem_checkActions.mp h
    rcases asideActions_job h with he | he <;> exact absurd he (by simp)
  | clock now => exact absurd h (by simp)
  | registerNode payload => exact absurd h (by simp)
  | heartbeat node payload => exact absurd h (by simp)
  | executionEnds node id => exact absurd h (by simp)

/-- The step that reports a failure confirms it, and leaves the job spent. -/
theorem reports_confirm {s : State} {op : Op} {r : Report} (hk : s.jobSide.Known)
    (hset : s.Settled cfg op) (hr : .reported r ∈ s.opActions cfg op) (hfalse : r.ok = false) :
    rstripSlash cfg.federationUrl ≠ "" ∧
      (∀ a ∈ s.opActions cfg op, a.job = r.jobId → a.Confirms r.jobId) ∧
      ∃ d, replay r.jobId (s.jobSide.phase r.jobId) (s.opActions cfg op) = some d ∧ d.Spent := by
  obtain ⟨node,id,payload,env,record,rfl,hid,hrep,rfl⟩ := reported_mem_opActions cfg hr
  have hok : reportsOk payload = false := hfalse
  have hmax := (hset record hid hrep).1 hok
  have hkey : record.id = id := Table.key_of_get? hid
  have hrecord : s.job? record.id = some record := by rw [hkey, hid]
  have hphase : s.jobSide.phase record.id = some (phaseOf record) :=
    congrArg (Option.map phaseOf) hrecord
  have hd := does_recordResult cfg s node hrecord payload
  have hconf := recordActions_confirm cfg hok hmax
  -- the first action makes the job spent, the others confirm it
  obtain ⟨d,hdp,hds⟩ : ∃ d, replay record.id (s.jobSide.phase record.id)
      (recordActions cfg record payload) = some d ∧ d.Spent := by
    rw [hphase, recordActions, List.cons_append, replay_cons, hok]
    have hfirst : Phase.Spent { phaseOf record with status := .failed } := ⟨rfl,hmax,hrep.1⟩
    simp only [Action.apply, Action.job, if_true, Action.next, Option.map_some,
      Bool.false_eq_true, if_false]
    refine spent_replay (fun a ha _ => hconf a ?_) hfirst
    rw [recordActions, hok, List.cons_append]
    exact List.mem_cons_of_mem _ ha
  have hspent := hdp
  rw [← hd.phase] at hspent
  have hsched : ∀ a ∈ (s.recordResult cfg node record payload).scheduleActions cfg env,
      a.job ≠ record.id := fun a ha =>
    scheduleActions_of_terminal cfg _ (hd.known hk) hspent (.inr hds.failed) ha
  have hact := opActions_jobResult cfg s hid node payload env
  refine ⟨hrep.2,?_,d,?_,hds⟩
  · intro a ha hj
    rw [hact] at ha
    obtain ha | ha := List.mem_append.mp ha
    · exact hconf a ha
    · exact absurd hj (hsched a ha)
  · rw [hact, replay_append]
    exact (replay_of_other hsched _).trans hdp

/-- One step, for every job whose failure has been reported by the end of it. -/
theorem step_confirm {s : State} {op : Op} (hk : s.jobSide.Known) (hfresh : s.Fresh op)
    (hset : s.Settled cfg op) (hinv : s.ToldSpent cfg) {job : JobId}
    (htold : (s.exec cfg op).jobSide.Told job false) :
    rstripSlash cfg.federationUrl ≠ "" ∧
      (∀ a ∈ s.opActions cfg op, a.job = job → a.Confirms job) ∧
      ∃ d, (s.exec cfg op).jobSide.phase job = some d ∧ d.Spent := by
  have hedits := edits_exec cfg s op hk
  obtain ⟨r,hr,rfl,hfalse⟩ := htold
  rw [hedits.phase]
  rw [hedits.actions] at hr
  obtain hr | hr := List.mem_append.mp hr
  · have hold : s.jobSide.Told r.jobId false := ⟨r,hr,rfl,hfalse⟩
    obtain ⟨hurl,c,hphase,hc⟩ := hinv _ hold
    have hconf := opActions_confirm cfg hk hfresh hset hold hurl hphase hc
    rw [hphase]
    exact ⟨hurl,hconf,spent_replay hconf hc⟩
  · exact reports_confirm cfg hk hset hr hfalse

theorem final_exec {s : State} {op : Op} (hk : s.jobSide.Known) (hfresh : s.Fresh op)
    (hset : s.Settled cfg op) (hinv : s.ToldSpent cfg) (h : s.Final) :
    (s.exec cfg op).Final ∧ (s.exec cfg op).ToldSpent cfg := by
  have hedits := edits_exec cfg s op hk
  refine ⟨?_,fun job htold => ?_⟩
  · intro p r q hact hfalse
    have htold : (s.exec cfg op).jobSide.Told r.jobId false :=
      ⟨r,by rw [show (s.exec cfg op).jobSide.actions = _ from hact]; simp,rfl,hfalse⟩
    obtain ⟨-,hconf,d,hd,hds⟩ := step_confirm cfg hk hfresh hset hinv htold
    refine ⟨?_,?_⟩
    · rw [show (s.exec cfg op).actions = _ from hedits.actions] at hact
      obtain ⟨l,rfl,hl⟩ | ⟨l,hl,hq⟩ := List.append_eq_append_iff.mp hact
      · intro a ha
        exact hconf a (by rw [hl]; simp [ha])
      · cases l with
        | nil =>
          intro a ha
          rw [List.nil_append] at hq
          exact hconf a (by rw [← hq]; simp [ha])
        | cons b l =>
          obtain ⟨rfl,rfl⟩ := List.cons_eq_cons.mp hq
          intro a ha hj
          obtain ha | ha := List.mem_append.mp ha
          · exact (h p r l hl hfalse).1 a ha hj
          · exact hconf a ha hj
    · rw [status_eq, hd]
      exact congrArg some hds.failed
  · obtain ⟨hurl,-,hd⟩ := step_confirm cfg hk hfresh hset hinv htold
    exact ⟨hurl,hd⟩

/-- A step that is not settled leaves a report behind that is not final. -/
theorem settled_of_final {s : State} {op : Op} (hk : s.jobSide.Known)
    (h : (s.exec cfg op).Final) : s.Settled cfg op := by
  unfold Settled
  split
  · next node id payload env =>
    intro record hid hrep
    have hkey : record.id = id := Table.key_of_get? hid
    have hact : (s.exec cfg (.jobResult node id payload env)).actions = s.actions ++
        (recordActions cfg record payload ++
          (s.recordResult cfg node record payload).scheduleActions cfg env) := by
      rw [← opActions_jobResult cfg s hid]
      exact (edits_exec cfg s _ hk).actions
    constructor
    · intro hok
      by_contra hmax
      rw [recordActions, if_pos hrep, if_neg (by simp [hok]), asideActions, if_neg hmax] at hact
      have hfin := h (s.actions ++ [.finished record.id (reportsOk payload)])
        (resultReport cfg record payload)
        (.requeued record.id :: (s.recordResult cfg node record payload).scheduleActions cfg env)
        (by rw [hact]; simp) hok
      rcases hfin.1 _ (List.mem_cons_self ..) rfl with he | he | ⟨_,he,-⟩ <;>
        exact absurd he (by simp)
    · intro hok htold
      obtain ⟨r,hr,hj,hfalse⟩ := htold
      obtain ⟨p,q,hsplit⟩ := List.append_of_mem hr
      have hfin := h p r (q ++ (recordActions cfg record payload ++
          (s.recordResult cfg node record payload).scheduleActions cfg env))
        (by rw [hact, show s.actions = _ from hsplit]; simp) hfalse
      have hmem : .finished record.id (reportsOk payload) ∈ q ++ (recordActions cfg record payload ++
          (s.recordResult cfg node record payload).scheduleActions cfg env) := by
        simp [recordActions]
      obtain he | he | ⟨_,he,-⟩ := hfin.1 _ hmem (hkey.trans hj.symm)
      · rw [hok] at he
        exact absurd he (by simp)
      · exact absurd he (by simp)
      · exact absurd he (by simp)
  · trivial

/-- Every state of a run has final reports of failures only. -/
def FinalReports (ops : List Op) : Prop :=
  ∀ p q, ops = p ++ q → (run (exec cfg) {} p).Final

/-- The reports of failures are final in exactly the runs in which no node reports a failure
of a federated job that has an attempt left, or a success after a failure was reported. -/
theorem finalReports_iff (ops : List Op) (hfresh : Along (exec cfg) Fresh {} ops) :
    FinalReports cfg ops ↔ Along (exec cfg) (Settled cfg) {} ops := by
  constructor
  · intro h
    rw [along_iff]
    intro p op q hops
    have hend := h (p ++ [op]) q (by rw [hops, List.append_assoc]; rfl)
    rw [run_concat] at hend
    exact settled_of_final cfg (known_run cfg p) hend
  · intro h p q hops
    have hboth : Along (exec cfg) (fun s op => s.Fresh op ∧ s.Settled cfg op) {} ops := by
      rw [along_iff] at h hfresh ⊢
      exact fun p op q he => ⟨hfresh p op q he,h p op q he⟩
    rw [hops, along_append] at hboth
    have hall : (run (exec cfg) {} p).jobSide.Known ∧ (run (exec cfg) {} p).Final ∧
        (run (exec cfg) {} p).ToldSpent cfg := by
      refine run_invariant (I := fun s : State => s.jobSide.Known ∧ s.Final ∧ s.ToldSpent cfg) ?_
        hboth.1 ⟨known_init,?_,?_⟩
      · rintro s op ⟨hfresh,hset⟩ ⟨hk,hfin,htold⟩
        exact ⟨known_exec cfg s op hk,final_exec cfg hk hfresh hset htold hfin⟩
      · intro p r q hact
        exact absurd hact (by simp)
      · rintro job ⟨r,hr,-⟩
        exact absurd hr (by simp [jobSide])
    exact hall.2.1

/-- The only node of a federated job fails it at the first attempt. -/
def firstFailure : List Op :=
  [.registerNode (cpuNode "a"),.inboundJob (soloJob "j") none allAccept,
   .jobResult "a" "j" notSucceeded allAccept]

theorem finalReports_iff_firstFailure :
    FinalReports member firstFailure ↔ Along (exec member) (Settled member) {} firstFailure :=
  finalReports_iff member firstFailure (by decide +kernel)

/-- The failure is reported, and the job is requeued and started again at once. -/
theorem not_finalReports :
    ¬∀ (cfg : Config) (ops : List Op), Along (exec cfg) Fresh {} ops → FinalReports cfg ops := by
  intro h
  have hany : (run (exec member) {} firstFailure).actions.any (fun a =>
      match a with
      | .reported r => decide (r.jobId = "j") && !r.ok
      | _ => false) = true := by decide +kernel
  have hend : (run (exec member) {} firstFailure).status "j" = some .running := by decide +kernel
  obtain ⟨a,ha,hr⟩ := List.any_eq_true.mp hany
  obtain ⟨p,q,hsplit⟩ := List.append_of_mem ha
  cases a with
  | reported r =>
    simp only [Bool.and_eq_true, decide_eq_true_eq, Bool.not_eq_true'] at hr
    have hfin := (h member firstFailure (by decide +kernel) firstFailure [] (by simp) p r q hsplit
      hr.2).2
    rw [hr.1, hend] at hfin
    exact absurd hfin (by simp)
  | submitted j fed => exact absurd hr (by simp)
  | requeued j => exact absurd hr (by simp)
  | exhausted j => exact absurd hr (by simp)
  | started j => exact absurd hr (by simp)
  | dispatched n j => exact absurd hr (by simp)
  | finished j ok => exact absurd hr (by simp)

end State
end Arsonist.ControlPlane
