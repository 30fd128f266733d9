import Arsonist.ControlPlane.Completion
import Arsonist.ControlPlane.Recovery

/-! What the operations make of the saved rows. A record is saved as a whole, as it is in memory,
so that the rows move by the actions of an operation as long as the records that it takes up from
memory agree with their rows. -/
namespace Arsonist.ControlPlane
open Arsonist.Library Arsonist.Shared Arsonist.Scheduler

namespace JobSide

/-- The phase that is saved for a job. -/
def savedPhase (v : JobSide) (k : JobId) : Option Phase :=
  ((v.jobRows.get? k).bind fun row => JobRecord.ofJson row.payload).map phaseOf

/-- Memory and database agree on the phase of the job. -/
def CurrentAt (v : JobSide) (k : JobId) : Prop := v.phase k = v.savedPhase k

/-- If memory holds the job at all, it agrees with the database. -/
def AgreesAt (v : JobSide) (k : JobId) : Prop := v.phase k ≠ none → v.CurrentAt k

/-- The record of a job and its row are left alone. -/
def Leaves (k : JobId) (v w : JobSide) : Prop :=
  w.jobs.get? k = v.jobs.get? k ∧ w.jobRows.get? k = v.jobRows.get? k

variable {u v w : JobSide} {k : JobId}

theorem SyncedAt.current (h : v.SyncedAt k) : v.CurrentAt k := by
  rw [CurrentAt, savedPhase, h, phase]
  cases v.jobs.get? k with
  | none => rfl
  | some job =>
    rw [Option.map_some, Option.map_some, Option.bind_some, row, JobRecord.ofJson_modelDump]
    rfl

namespace Leaves

theorem refl (k : JobId) (v : JobSide) : Leaves k v v := ⟨rfl,rfl⟩

theorem of_eq (h : w = v) : Leaves k v w := h ▸ refl k v

theorem trans (huv : Leaves k u v) (hvw : Leaves k v w) : Leaves k u w :=
  ⟨hvw.1.trans huv.1,hvw.2.trans huv.2⟩

theorem phase (h : Leaves k v w) : w.phase k = v.phase k := by
  rw [JobSide.phase, JobSide.phase, h.1]

theorem savedPhase (h : Leaves k v w) : w.savedPhase k = v.savedPhase k := by
  rw [JobSide.savedPhase, JobSide.savedPhase, h.2]

theorem current (h : Leaves k v w) (hv : v.CurrentAt k) : w.CurrentAt k := by
  rw [CurrentAt, h.phase, h.savedPhase]
  exact hv

theorem agrees (h : Leaves k v w) (hv : v.AgreesAt k) : w.AgreesAt k := by
  intro hk
  rw [h.phase] at hk
  exact h.current (hv hk)

end Leaves
end JobSide

/-! ### Proper actions -/

/-- An action that may be taken on a job in the given phase: only a job that is not over and has
an attempt left is started, and a completed job stays so until it is submitted again. -/
structure Action.Proper (p : Option Phase) (a : Action) : Prop where
  start : ∀ j, a = .started j →
    ∃ c, p = some c ∧ ¬c.status.terminal ∧ c.attempts < maxJobRetries
  keep : p.map Phase.status = some .completed →
    a.sets = none ∨ a.sets = some .completed ∨ ∃ j fed, a = .submitted j fed

/-- All actions about the job are proper in the phase in which they find it. -/
def Proper (k : JobId) (p : Option Phase) (as : List Action) : Prop :=
  Along (Action.apply k) (fun p a => a.job = k → a.Proper p) p as

section
variable {k : JobId} {as : List Action}

theorem proper_append {bs : List Action} {p : Option Phase} :
    Proper k p (as ++ bs) ↔ Proper k p as ∧ Proper k (replay k p as) bs :=
  along_append _ p as bs

theorem proper_of_other (h : ∀ a ∈ as, a.job ≠ k) (p : Option Phase) : Proper k p as := by
  induction as generalizing p with
  | nil => trivial
  | cons a as ih =>
    refine ⟨fun he => absurd he (h a List.mem_cons_self),?_⟩
    exact ih (fun b hb => h b (List.mem_cons_of_mem a hb)) _

/-- What is done to a job that is not completed is proper, unless it starts the job; if it does
not complete the job either, the same holds of what follows. -/
theorem proper_of_open
    (h : ∀ a ∈ as, a.job = k → (∀ j, a ≠ .started j) ∧ a.sets ≠ some .completed)
    {p : Option Phase} (hp : p.map Phase.status ≠ some .completed) : Proper k p as := by
  induction as generalizing p with
  | nil => trivial
  | cons a as ih =>
    refine ⟨fun hk => ⟨fun j he => absurd he ((h a List.mem_cons_self hk).1 j),
      fun hc => absurd hc hp⟩,?_⟩
    apply ih fun b hb => h b (List.mem_cons_of_mem a hb)
    unfold Action.apply
    split_ifs with hk
    · exact Action.status_next_ne (h a List.mem_cons_self hk).2 fun _ => hp
    · exact hp

/-- Putting a job aside does neither. -/
theorem asideActions_open {job : JobId} {n : ℕ} {a : Action} (h : a ∈ State.asideActions job n) :
    (∀ j, a ≠ .started j) ∧ a.sets ≠ some .completed := by
  rcases State.asideActions_job h with rfl | rfl <;> simp [Action.sets]

theorem proper_placeActions (reply : NodeId → Reply) (nodes : List NodeState) (job : JobRecord) :
    Proper job.id (some (phaseOf job)) (State.placeActions reply nodes job) := by
  unfold State.placeActions
  split_ifs with hterm hdis
  · trivial
  · rw [State.roundActions, List.cons_append]
    refine ⟨fun _ => ⟨fun j _ => ⟨phaseOf job,rfl,hterm,hdis.2.1⟩,fun hc => ?_⟩,?_⟩
    · exact absurd (Or.inl (Option.some.inj hc)) hterm
    · refine proper_of_open (fun a ha _ => ?_) (by simp [Action.apply, Action.job, Action.next])
      obtain ha | ha := List.mem_append.mp ha
      · obtain ⟨n,-,rfl⟩ := List.mem_map.mp ha
        simp [Action.sets]
      · split_ifs at ha
        · cases ha
        · exact asideActions_open ha
  · refine proper_of_open (fun a ha _ => asideActions_open ha) fun hc => ?_
    exact hterm (Or.inl (Option.some.inj hc))

/-- A result is proper unless it is the failure of a completed job. -/
theorem proper_recordActions (cfg : Config) {job : JobRecord} {payload : Json.Object}
    (h : job.status = .completed → State.reportsOk payload = true) :
    Proper job.id (some (phaseOf job)) (State.recordActions cfg job payload) := by
  rw [State.recordActions, List.cons_append]
  by_cases hok : State.reportsOk payload = true
  · rw [hok, if_pos rfl, List.append_nil]
    refine ⟨fun _ => ⟨fun j he => (by cases he),fun _ => Or.inr (Or.inl rfl)⟩,?_⟩
    split_ifs
    · exact ⟨fun _ => ⟨fun j he => (by cases he),fun _ => Or.inl rfl⟩,trivial⟩
    · trivial
  · rw [if_neg hok]
    refine ⟨fun _ => ⟨fun j he => (by cases he),fun hc => ?_⟩,?_⟩
    · exact absurd (h (Option.some.inj hc)) hok
    · refine proper_of_open (fun a ha _ => ?_) ?_
      · obtain ha | ha := List.mem_append.mp ha
        · split_ifs at ha
          · rw [List.mem_singleton.mp ha]
            simp [Action.sets]
          · cases ha
        · exact asideActions_open ha
      · simp [Action.apply, Action.job, Action.next, hok]

end

open JobSide

/-- From `v` to `w` the saved phases move by exactly the actions `new`, each of them proper, and
memory and database agree wherever they did. -/
structure Saves (v : JobSide) (new : List Action) (w : JobSide) : Prop where
  actions : w.actions = v.actions ++ new
  saved : ∀ k, w.savedPhase k = replay k (v.savedPhase k) new
  current : ∀ k, v.CurrentAt k → w.CurrentAt k
  proper : ∀ k, Proper k (v.savedPhase k) new

namespace Saves
variable {u v w : JobSide} {as bs : List Action}

theorem refl (v : JobSide) : Saves v [] v :=
  ⟨(List.append_nil _).symm,fun _ => rfl,fun _ h => h,fun _ => trivial⟩

theorem of_eq (h : w = v) : Saves v [] w := h ▸ refl v

theorem trans (huv : Saves u as v) (hvw : Saves v bs w) : Saves u (as ++ bs) w where
  actions := by rw [hvw.actions, huv.actions, List.append_assoc]
  saved k := by rw [hvw.saved, huv.saved, replay_append]
  current k h := hvw.current k (huv.current k h)
  proper k := proper_append.mpr ⟨huv.proper k,huv.saved k ▸ hvw.proper k⟩

/-- Edits save what they do, if they leave alone what memory and database do not agree on and
are proper elsewhere. -/
theorem of_edits (h : Edits v as w)
    (hframe : ∀ k, v.CurrentAt k ∧ Proper k (v.phase k) as ∨
      Leaves k v w ∧ ∀ a ∈ as, a.job ≠ k) : Saves v as w := by
  have hcurrent : ∀ k, v.CurrentAt k → w.CurrentAt k := by
    intro k hk
    obtain hs | hl := h.saved k
    · exact SyncedAt.current hs
    · exact Leaves.current hl hk
  refine ⟨h.actions,fun k => ?_,hcurrent,fun k => ?_⟩
  · obtain ⟨hk,-⟩ | ⟨hl,hother⟩ := hframe k
    · rw [← hcurrent k hk, h.phase, hk]
    · rw [hl.savedPhase, replay_of_other hother]
  · obtain ⟨hk,hproper⟩ | ⟨-,hother⟩ := hframe k
    · rwa [← show v.phase k = _ from hk]
    · exact proper_of_other hother _

end Saves

namespace State
variable (cfg : Config) (s : State) {k : JobId}

/-! ### What is left alone -/

theorem leaves_writeQueue (id : JobId) : Leaves k s.jobSide (s.writeQueue cfg id).jobSide := by
  unfold writeQueue
  split <;> exact ⟨rfl,rfl⟩

theorem leaves_appendQueue (id : JobId) : Leaves k s.jobSide (s.appendQueue id).jobSide := by
  unfold appendQueue
  split <;> exact ⟨rfl,rfl⟩

theorem leaves_ensureJobQueued (id : JobId) :
    Leaves k s.jobSide (s.ensureJobQueued cfg id).jobSide :=
  (leaves_appendQueue s id).trans (leaves_writeQueue cfg ((s.appendQueue id).holding none) id)

theorem leaves_dispatchJob (node : NodeId) (job : JobId) (reply : Reply) :
    Leaves k s.jobSide (s.dispatchJob node job reply).jobSide := by
  have hsend : Leaves k s.jobSide (s.sendJob node job reply).jobSide := by
    unfold sendJob
    dsimp only
    split <;> exact ⟨rfl,rfl⟩
  have hnote : ∀ l, Leaves k s.jobSide
      ((s.sendJob node job reply).noteAnswer node job l).jobSide := by
    intro l
    have htouch := touchNode_jobSide ((s.sendJob node job reply).holding none) node
      (taken (s.sendJob node job reply).now job l)
    exact Leaves.trans (v := ((s.sendJob node job reply).holding none).jobSide) hsend
      (.of_eq htouch)
  unfold dispatchJob
  cases reply with
  | accepted l => exact hnote l
  | unreadable b l e => exact hnote l
  | failed b e => exact hsend

section
variable {id : JobId} (hne : k ≠ id)
include hne

theorem leaves_modifyJob (f : JobRecord → JobRecord) (hf : ∀ job, (f job).id = job.id) :
    Leaves k s.jobSide (s.modifyJob id f).jobSide := by
  refine ⟨?_,rfl⟩
  exact (job?_modifyJob s id f hf k).trans (if_neg hne)

theorem leaves_saveJob : Leaves k s.jobSide (s.saveJob id).jobSide := by
  unfold saveJob
  cases h : s.job? id with
  | none => exact .refl k _
  | some job =>
    refine ⟨rfl,?_⟩
    have hid : job.id = id := Table.key_of_get? h
    change (s.db.jobs.replace (row job)).get? k = s.db.jobs.get? k
    rw [Table.get?_replace, if_neg]
    simpa [row, hid] using hne

theorem leaves_logJob (message : String) :
    Leaves k s.jobSide (s.logJob id message).jobSide :=
  (leaves_modifyJob s hne (logged s.now message) fun _ => rfl).trans (leaves_saveJob _ hne)

theorem leaves_markRunning : Leaves k s.jobSide (s.markRunning id).jobSide :=
  (leaves_modifyJob s hne (begun s.now) fun _ => rfl).trans
    (leaves_logJob ((s.modifyJob id (begun s.now)).act (.started id)) hne _)

theorem leaves_markFinished (ok : Bool) : Leaves k s.jobSide (s.markFinished id ok).jobSide :=
  (leaves_modifyJob s hne (ended s.now (verdict ok)) fun _ => rfl).trans
    (leaves_logJob ((s.modifyJob id (ended s.now (verdict ok))).act (.finished id ok)) hne _)

theorem leaves_requeueOrFail (reason : String) :
    Leaves k s.jobSide (s.requeueOrFail cfg id reason).jobSide := by
  unfold requeueOrFail
  cases s.job? id with
  | none => exact .refl k _
  | some job =>
    dsimp only
    split_ifs
    · exact (leaves_modifyJob s hne (withStatus .failed) fun _ => rfl).trans
        (leaves_logJob (((s.modifyJob id (withStatus .failed)).act (.exhausted id)).holding none)
          hne _)
    · have hlog := (leaves_modifyJob s hne (withStatus .queued) fun _ => rfl).trans
        (leaves_logJob (((s.modifyJob id (withStatus .queued)).act (.requeued id)).takeInHand id)
          hne ("requeued: " ++ reason))
      refine hlog.trans (leaves_ensureJobQueued cfg _ id)

theorem leaves_dispatchAll (reply : NodeId → Reply) (nodes : List NodeId) :
    Leaves k s.jobSide (s.dispatchAll id reply nodes).1.jobSide := by
  induction nodes generalizing s with
  | nil => exact .refl k _
  | cons node nodes ih =>
    unfold dispatchAll
    dsimp only
    have hdispatch : Leaves k s.jobSide (s.dispatchJob node id (reply node)).jobSide :=
      leaves_dispatchJob s node id (reply node)
    split
    · exact hdispatch.trans (ih _)
    · exact (hdispatch.trans (leaves_logJob _ hne _)).trans (ih _)

theorem leaves_assign (nodes : List NodeId) :
    Leaves k s.jobSide
      (((s.modifyJob id (assigned nodes)).saveJob id).persistQueue cfg).jobSide := by
  have hsave := (leaves_modifyJob s hne (assigned nodes) fun _ => rfl).trans
    (leaves_saveJob (s.modifyJob id (assigned nodes)) hne)
  unfold persistQueue
  split <;> exact hsave

end

section
variable {job : JobRecord} (hne : k ≠ job.id)
include hne

/-- A dispatch round saves no other job. -/
theorem leaves_placeJob (env : Surroundings) :
    Leaves k s.jobSide (s.placeJob cfg env job).jobSide := by
  unfold placeJob
  dsimp only
  split_ifs
  · exact .refl k _
  · exact (leaves_modifyJob s hne (withStatus .failed) fun _ => rfl).trans
      (leaves_logJob (((s.modifyJob job.id (withStatus .failed)).act
        (.exhausted job.id)).holding none) hne _)
  · exact leaves_requeueOrFail cfg s hne _
  all_goals
    have hround := (leaves_markRunning s hne).trans
      (leaves_dispatchAll (s.markRunning job.id) hne env.reply
        ((selectNodes job.toJobRequest s.memory.nodes.entries).map fun node => node.nodeId))
  · exact hround.trans (leaves_assign cfg _ hne _)
  · exact hround.trans (leaves_requeueOrFail cfg _ hne _)

/-- A result saves no other job. -/
theorem leaves_recordResult (node : NodeId) (payload : Json.Object) :
    Leaves k s.jobSide (s.recordResult cfg node job payload).jobSide := by
  have hreport : ∀ t : State,
      Leaves k t.jobSide (t.maybeReportGlobalCompletion cfg job.id).jobSide := by
    intro t
    unfold maybeReportGlobalCompletion
    split <;> exact ⟨rfl,rfl⟩
  have hfin := (leaves_modifyJob s hne (withResult payload) fun _ => rfl).trans
    (leaves_markFinished (s.modifyJob job.id (withResult payload)) hne (reportsOk payload))
  have htold := (hfin.trans (.of_eq (releaseNodes_jobSide cfg _ job.id node job.assignedNodes
    (reportsOk payload) [("job_id",.str job.id),("status",.str (StrEnum.value
      (verdict (reportsOk payload)))),("node_id",.str node)]))).trans (hreport _)
  unfold recordResult
  dsimp only
  split_ifs
  · exact htold
  · exact htold.trans (leaves_requeueOrFail cfg _ hne _)

end

/-- The recovery of a list of jobs saves those of them that have a record. -/
theorem leaves_requeueJobs (ids : List JobId) (h : k ∈ ids → s.job? k = none) :
    Leaves k s.jobSide (s.requeueJobs cfg ids).jobSide := by
  induction ids generalizing s with
  | nil => exact .refl k _
  | cons id ids ih =>
    unfold requeueJobs
    cases hid : s.job? id with
    | none => exact ih s fun hk => h (List.mem_cons_of_mem id hk)
    | some job =>
      have hne : k ≠ id := by
        rintro rfl
        rw [h List.mem_cons_self] at hid
        cases hid
      have hput := leaves_requeueOrFail cfg s hne "node_dead_recovery"
      refine hput.trans (ih ((s.requeueOrFail cfg id "node_dead_recovery").emit "warning"
        "job_requeued" [("job_id",.str id)]) fun hk => ?_)
      exact hput.1.trans (h (List.mem_cons_of_mem id hk))

theorem leaves_buryNode (node : NodeState) (h : k ∈ node.runningJobs → s.job? k = none) :
    Leaves k s.jobSide (s.buryNode cfg node).jobSide := by
  unfold buryNode
  dsimp only
  set t := (((s.modifyNode node.nodeId unwell).emit "error" "node_dead"
    [("node_id",.str node.nodeId),("last_seen",.float node.lastSeen)]).removeNode node.nodeId)
  have hts : Leaves k s.jobSide t.jobSide := .of_eq (removeNode_jobSide _ _)
  exact hts.trans (leaves_requeueJobs cfg t _ fun hk => hts.1.trans (h hk))

theorem leaves_checkNodes (now deadAfterSec : ℚ) (nodes : List NodeState)
    (h : ∀ n ∈ deadNodes now deadAfterSec nodes, k ∈ n.runningJobs → s.job? k = none) :
    Leaves k s.jobSide (s.checkNodes cfg now deadAfterSec nodes).jobSide := by
  induction nodes generalizing s with
  | nil => exact .refl k _
  | cons node nodes ih =>
    unfold checkNodes
    by_cases hdead : isDead now deadAfterSec node
    · rw [if_pos hdead]
      rw [deadNodes, List.filter_cons_of_pos (by simpa using hdead)] at h
      have hbury := leaves_buryNode cfg s node (h node List.mem_cons_self)
      exact hbury.trans (ih _ fun n hn hk => hbury.1.trans (h n (List.mem_cons_of_mem node hn) hk))
    · rw [if_neg hdead]
      rw [deadNodes, List.filter_cons_of_neg (by simpa using hdead)] at h
      exact ih s h

/-! ### What is saved -/

section
variable (job : JobRecord)

theorem leaves_enqueueJob (hne : k ≠ job.id) :
    Leaves k s.jobSide (s.enqueueJob cfg job).jobSide := by
  let t := (s.putJob job).act (.submitted job.id job.reportToFederation)
  have hput : Leaves k s.jobSide t.jobSide := by
    refine ⟨?_,rfl⟩
    change (s.memory.jobs.put job).get? k = s.memory.jobs.get? k
    rw [Table.get?_put]
    exact if_neg hne
  refine (hput.trans (leaves_appendQueue t job.id)).trans ?_
  refine (leaves_saveJob ((t.appendQueue job.id).takeInHand job.id) hne).trans ?_
  exact leaves_writeQueue cfg
    ((((t.appendQueue job.id).takeInHand job.id).saveJob job.id).holding none) job.id

theorem synced_enqueueJob : (s.enqueueJob cfg job).jobSide.SyncedAt job.id := by
  let t := (((s.putJob job).act (.submitted job.id job.reportToFederation)).appendQueue
    job.id).takeInHand job.id
  have hjobs : t.memory.jobs = s.memory.jobs.put job := by
    dsimp only [t]
    unfold appendQueue
    split <;> rfl
  have hget : t.job? job.id = some job := by
    rw [job?, hjobs, Table.get?_put]
    exact if_pos rfl
  have hsave : (t.saveJob job.id).jobSide.SyncedAt job.id := by
    change (t.saveJob job.id).db.jobs.get? job.id = ((t.saveJob job.id).job? job.id).map row
    unfold saveJob
    rw [hget]
    change (t.db.jobs.replace (row job)).get? job.id = (t.job? job.id).map row
    rw [Table.get?_replace, hget]
    exact if_pos rfl
  have hleave := leaves_writeQueue (k := job.id) cfg ((t.saveJob job.id).holding none) job.id
  change (((t.saveJob job.id).holding none).writeQueue cfg job.id).jobSide.SyncedAt job.id
  rw [SyncedAt, hleave.1, hleave.2]
  exact hsave

/-- A submission writes over whatever is saved. -/
theorem saves_enqueueJob (hstatus : job.status = .queued) (hattempts : job.attempts = 0) :
    Saves s.jobSide [.submitted job.id job.reportToFederation] (s.enqueueJob cfg job).jobSide := by
  have hdoes := does_enqueueJob cfg s job hstatus hattempts
  have hsynced := (synced_enqueueJob cfg s job).current
  refine ⟨hdoes.actions,fun k => ?_,fun k hk => ?_,fun k => ⟨fun _ => ?_,trivial⟩⟩
  · by_cases hne : k = job.id
    · rw [hne, ← hsynced, hdoes.phase]
      simp [Action.apply, Action.job, Action.next]
    · rw [(leaves_enqueueJob cfg s job hne).savedPhase, replay_of_other]
      simpa [Action.job] using Ne.symm hne
  · by_cases hne : k = job.id
    · rw [hne]
      exact hsynced
    · exact (leaves_enqueueJob cfg s job hne).current hk
  · exact ⟨fun j he => (by cases he),fun _ => Or.inr (Or.inr ⟨_,_,rfl⟩)⟩

end

theorem saves_placeJob (env : Surroundings) {job : JobRecord} (h : s.job? job.id = some job)
    (hcurrent : s.jobSide.CurrentAt job.id) :
    Saves s.jobSide (placeActions env.reply s.memory.nodes.entries job)
      (s.placeJob cfg env job).jobSide := by
  refine .of_edits (does_placeJob cfg s env h).toEdits fun k => ?_
  by_cases hne : k = job.id
  · rw [hne, show s.jobSide.phase job.id = some (phaseOf job) from
      congrArg (Option.map phaseOf) h]
    exact Or.inl ⟨hcurrent,proper_placeActions _ _ _⟩
  · refine Or.inr ⟨leaves_placeJob cfg s hne env,fun a ha he => ?_⟩
    exact hne (he.symm.trans (placeActions_job ha))

theorem saves_recordResult (node : NodeId) {job : JobRecord} (h : s.job? job.id = some job)
    (hcurrent : s.jobSide.CurrentAt job.id) {payload : Json.Object}
    (hkeep : job.status = .completed → reportsOk payload = true) :
    Saves s.jobSide (recordActions cfg job payload)
      (s.recordResult cfg node job payload).jobSide := by
  refine .of_edits (does_recordResult cfg s node h payload).toEdits fun k => ?_
  by_cases hne : k = job.id
  · rw [hne, show s.jobSide.phase job.id = some (phaseOf job) from
      congrArg (Option.map phaseOf) h]
    exact Or.inl ⟨hcurrent,proper_recordActions cfg hkeep⟩
  · refine Or.inr ⟨leaves_recordResult cfg s hne node payload,fun a ha he => ?_⟩
    exact hne (he.symm.trans (recordActions_job cfg ha))

theorem saves_checkNodes (now deadAfterSec : ℚ) (nodes : List NodeState)
    (h : ∀ n ∈ deadNodes now deadAfterSec nodes, ∀ k ∈ n.runningJobs, s.jobSide.AgreesAt k)
    (hkeep : ∀ n ∈ deadNodes now deadAfterSec nodes, ∀ k ∈ n.runningJobs,
      s.status k ≠ some .completed) :
    Saves s.jobSide (checkActions now deadAfterSec s.jobSide.phase nodes)
      (s.checkNodes cfg now deadAfterSec nodes).jobSide := by
  refine .of_edits (does_checkNodes cfg s now deadAfterSec nodes).toEdits fun k => ?_
  by_cases hlisted : (∃ n ∈ deadNodes now deadAfterSec nodes, k ∈ n.runningJobs) ∧
      s.jobSide.phase k ≠ none
  · obtain ⟨⟨n,hn,hk⟩,hphase⟩ := hlisted
    refine Or.inl ⟨h n hn k hk hphase,proper_of_open (fun a ha _ => ?_) ?_⟩
    · obtain ⟨_,-,_,-,_,-,ha⟩ := mem_checkActions.mp ha
      exact asideActions_open ha
    · rw [← status_eq]
      exact hkeep n hn k hk
  · rw [not_and, not_not] at hlisted
    refine Or.inr ⟨leaves_checkNodes cfg s now deadAfterSec nodes fun n hn hk => ?_,?_⟩
    · exact Option.map_eq_none_iff.mp (hlisted ⟨n,hn,hk⟩)
    · intro a ha he
      obtain ⟨n,hn,id,hid,c,hc,ha⟩ := mem_checkActions.mp ha
      obtain rfl : id = k := by rcases asideActions_job ha with rfl | rfl <;> exact he
      rw [hlisted ⟨n,hn,hid⟩] at hc
      cases hc

/-! ### The shared queue -/

/-- The scheduler is called by the leader and finds the job at the head of the shared queue. -/
def Pops (env : Surroundings) (k : JobId) : Prop :=
  env.leader = true ∧ s.db.queue.head? = some k

section
variable {cfg} (hb : cfg.backend = .postgres)
include hb

/-- The next job is the head of the shared queue, from memory or from its row. -/
theorem nextJob_postgres {job : JobRecord} (hs : s.db.Sound) (h : s.nextJob cfg = some job) :
    s.db.queue.head? = some job.id ∧ (s.job? job.id = some job ∨
      s.job? job.id = none ∧ s.jobSide.savedPhase job.id = some (phaseOf job)) := by
  rw [nextJob, hb] at h
  dsimp only at h
  cases hhead : s.db.queue.head? with
  | none =>
    rw [hhead] at h
    cases h
  | some id =>
    rw [hhead] at h
    dsimp only at h
    split_ifs at h
    obtain hmem | ⟨hnone,hrow⟩ := Option.or_eq_some_iff.mp h
    · obtain rfl : job.id = id := Table.key_of_get? hmem
      exact ⟨rfl,Or.inl hmem⟩
    · obtain ⟨r,hr,hdecode⟩ := Option.bind_eq_some_iff.mp hrow
      obtain ⟨saved,rfl⟩ := hs.jobs id r hr
      obtain rfl : saved = job := by
        rw [row, JobRecord.ofJson_modelDump] at hdecode
        exact Option.some.inj hdecode
      obtain rfl : saved.id = id := Table.key_of_get? hr
      refine ⟨rfl,Or.inr ⟨hnone,?_⟩⟩
      rw [savedPhase, show s.jobSide.jobRows.get? saved.id = _ from hr, Option.bind_some, row,
        JobRecord.ofJson_modelDump]
      rfl

/-- Popping saves nothing; a record that it loads agrees with its row. -/
theorem saves_popNextJob (hs : s.db.Sound) :
    Saves s.jobSide [] (s.popNextJob cfg).1.jobSide := by
  have hrows : ∀ k, (s.popNextJob cfg).1.jobSide.savedPhase k = s.jobSide.savedPhase k := by
    intro k
    rw [savedPhase, savedPhase, show (s.popNextJob cfg).1.jobSide.jobRows = s.jobSide.jobRows from
      popNextJob_rows cfg s]
  refine ⟨?_,hrows,fun k hk => ?_,fun _ => trivial⟩
  · rw [List.append_nil]
    exact popNextJob_actions cfg s
  · rw [CurrentAt, hrows, ← show s.jobSide.phase k = _ from hk]
    change ((s.popNextJob cfg).1.job? k).map phaseOf = (s.job? k).map phaseOf
    rw [job?_popNextJob]
    cases hnext : s.nextJob cfg with
    | none => rfl
    | some job =>
      dsimp only
      split_ifs with hkey
      · obtain hmem | ⟨hnone,hsaved⟩ := (nextJob_postgres s hb hs hnext).2
        · rw [hkey, hmem]
        · rw [CurrentAt, hkey, hsaved] at hk
          rw [hkey]
          exact hk.symm
      · rfl

theorem current_popNextJob {job : JobRecord} (hs : s.db.Sound) (h : s.nextJob cfg = some job)
    (hagree : s.jobSide.AgreesAt job.id) :
    (s.popNextJob cfg).1.jobSide.CurrentAt job.id := by
  obtain hmem | ⟨hnone,hsaved⟩ := (nextJob_postgres s hb hs h).2
  · apply (saves_popNextJob s hb hs).current
    apply hagree
    rw [show s.jobSide.phase job.id = some (phaseOf job) from congrArg (Option.map phaseOf) hmem]
    simp
  · have hjob : (s.popNextJob cfg).1.job? job.id = some job := by
      rw [job?_popNextJob, h]
      exact if_pos rfl
    have hphase : (s.popNextJob cfg).1.jobSide.phase job.id = some (phaseOf job) :=
      congrArg (Option.map phaseOf) hjob
    rw [CurrentAt, hphase, (saves_popNextJob s hb hs).saved, hsaved, replay_nil]

theorem saves_scheduleOnce (env : Surroundings) (hs : s.db.Sound)
    (hagree : ∀ k, s.Pops env k → s.jobSide.AgreesAt k) :
    Saves s.jobSide (s.scheduleActions cfg env) (s.scheduleOnce cfg env).jobSide := by
  rw [scheduleOnce_eq, scheduleActions]
  by_cases hleader : env.leader = true
  · rw [if_pos hleader, if_pos hleader]
    have hpop := saves_popNextJob s hb hs
    cases hnext : s.nextJob cfg with
    | none => exact hpop
    | some job =>
      have hjob : (s.popNextJob cfg).1.job? job.id = some job := by
        rw [job?_popNextJob, hnext]
        exact if_pos rfl
      have hhead := (nextJob_postgres s hb hs hnext).1
      have hplace := saves_placeJob cfg (s.popNextJob cfg).1 env hjob
        (current_popNextJob s hb hs hnext (hagree job.id ⟨hleader,hhead⟩))
      rw [popNextJob_nodes] at hplace
      exact hpop.trans hplace
  · rw [if_neg hleader, if_neg hleader]
    exact .refl _

theorem writeQueue_queueRows (id : JobId) :
    (s.writeQueue cfg id).db.queue = s.db.queue ∨
      (s.writeQueue cfg id).db.queue = s.db.queue ++ [id] := by
  rw [writeQueue, hb]
  change (if id ∈ s.db.queue then s.db.queue else s.db.queue ++ [id]) = _ ∨
    (if id ∈ s.db.queue then s.db.queue else s.db.queue ++ [id]) = _
  split_ifs
  · exact Or.inl rfl
  · exact Or.inr rfl

theorem enqueueJob_queueRows (job : JobRecord) :
    (s.enqueueJob cfg job).db.queue = s.db.queue ∨
      (s.enqueueJob cfg job).db.queue = s.db.queue ++ [job.id] := by
  let t := (((s.putJob job).act (.submitted job.id job.reportToFederation)).appendQueue
    job.id).takeInHand job.id
  have hrows : (t.saveJob job.id).db.queue = s.db.queue := by
    rw [saveJob_queueRows]
    dsimp only [t]
    unfold appendQueue
    split <;> rfl
  rw [← hrows]
  exact writeQueue_queueRows ((t.saveJob job.id).holding none) hb job.id

theorem requeueOrFail_queueRows (id : JobId) (reason : String) :
    (s.requeueOrFail cfg id reason).db.queue = s.db.queue ∨
      (s.requeueOrFail cfg id reason).db.queue = s.db.queue ++ [id] := by
  unfold requeueOrFail
  cases s.job? id with
  | none => exact Or.inl rfl
  | some job =>
    dsimp only
    split_ifs
    · exact Or.inl (logJob_queueRows _ _ _)
    · let t := (((s.modifyJob id (withStatus .queued)).act (.requeued id)).takeInHand id).logJob id
        ("requeued: " ++ reason)
      have hrows : ((t.appendQueue id).holding none).db.queue = s.db.queue := by
        refine Eq.trans ?_ (logJob_queueRows (((s.modifyJob id (withStatus .queued)).act
          (.requeued id)).takeInHand id) id ("requeued: " ++ reason))
        change (t.appendQueue id).db.queue = t.db.queue
        unfold appendQueue
        split <;> rfl
      rw [← hrows]
      exact writeQueue_queueRows _ hb id

theorem recordResult_queueRows (node : NodeId) (job : JobRecord) (payload : Json.Object) :
    (s.recordResult cfg node job payload).db.queue = s.db.queue ∨
      (s.recordResult cfg node job payload).db.queue = s.db.queue ++ [job.id] := by
  unfold recordResult
  dsimp only
  set t := (s.modifyJob job.id (withResult payload)).markFinished job.id (reportsOk payload)
  set u := (job.assignedNodes.foldl (releaseNode job.id)
    (t.creditNode cfg node (reportsOk payload))).emit "info" "job_finished"
    [("job_id",.str job.id),("status",.str (StrEnum.value (verdict (reportsOk payload)))),
      ("node_id",.str node)]
  have hu : u.jobSide = t.jobSide := releaseNodes_jobSide _ _ _ _ _ _ _
  have hrows : (u.maybeReportGlobalCompletion cfg job.id).db.queue = s.db.queue := by
    have htold : (u.maybeReportGlobalCompletion cfg job.id).db = u.db := by
      unfold maybeReportGlobalCompletion
      split <;> rfl
    rw [htold, show u.db.queue = t.db.queue from congrArg JobSide.queueRows hu]
    exact markFinished_queueRows _ _ _
  split_ifs
  · exact Or.inl hrows
  · rw [← hrows]
    exact requeueOrFail_queueRows _ hb _ _

end

/-- A queue that grows at its end has a new head only if it was empty. -/
theorem agrees_of_grows {s t : State} {id : JobId} {env : Surroundings}
    (hqueue : t.db.queue = s.db.queue ∨ t.db.queue = s.db.queue ++ [id])
    (hid : t.jobSide.CurrentAt id) (hother : ∀ k, k ≠ id → Leaves k s.jobSide t.jobSide)
    (h : ∀ k, k ≠ id → s.Pops env k → s.jobSide.AgreesAt k) :
    ∀ k, t.Pops env k → t.jobSide.AgreesAt k := by
  rintro k ⟨hleader,hhead⟩
  by_cases hne : k = id
  · rw [hne]
    exact fun _ => hid
  · refine (hother k hne).agrees (h k hne ⟨hleader,?_⟩)
    obtain hsame | hgrown := hqueue
    · rwa [hsame] at hhead
    · rw [hgrown] at hhead
      cases hs : s.db.queue with
      | nil =>
        rw [hs] at hhead
        exact absurd (Option.some.inj hhead).symm hne
      | cons j rest =>
        rw [hs] at hhead
        exact hhead

/-! ### All operations -/

/-- The jobs whose records an operation takes up, from memory where it has them: the job that
it reports or recovers, and the job that it schedules, unless it submits that job itself. -/
def Handles : Op → JobId → Prop
  | .submitJob payload env, k => k ≠ payload.id ∧ s.Pops env k
  | .inboundJob payload _ env, k => s.job? payload.id = none ∧ s.Pops env k
  | .scheduleOnce env, k => s.Pops env k
  | .jobResult _ id _ env, k => s.job? id ≠ none ∧ (k = id ∨ s.Pops env k)
  | .checkNodesOnce deadAfterSec, k =>
    ∃ n ∈ deadNodes s.now deadAfterSec s.memory.nodes.entries, k ∈ n.runningJobs
  | _, _ => False

/-- Every operation saves its actions, if what it takes up from memory agrees with the database
and it revives no completed job. -/
theorem saves_exec (hb : cfg.backend = .postgres) (op : Op) (hs : s.db.Sound)
    (hagree : ∀ k, s.Handles op k → s.jobSide.AgreesAt k) (hnone : s.RevivesNone op) :
    Saves s.jobSide (s.opActions cfg op) (s.exec cfg op).jobSide := by
  have hthen : ∀ {as : List Action} {t : State} {id : JobId} (env : Surroundings),
      Saves s.jobSide as t.jobSide → t.db.Sound →
      t.db.queue = s.db.queue ∨ t.db.queue = s.db.queue ++ [id] → t.jobSide.CurrentAt id →
      (∀ k, k ≠ id → Leaves k s.jobSide t.jobSide) →
      (∀ k, k ≠ id → s.Pops env k → s.jobSide.AgreesAt k) →
      Saves s.jobSide (as ++ t.scheduleActions cfg env) (t.scheduleOnce cfg env).jobSide :=
    fun env h ht hqueue hid hother hpops =>
      h.trans (saves_scheduleOnce _ hb env ht (agrees_of_grows hqueue hid hother hpops))
  unfold exec perform opActions
  cases op with
  | clock now => exact .refl _
  | registerNode payload => exact .of_eq (registerNode_jobSide s payload)
  | submitJob payload env =>
    let job := buildJobRecord s.now payload
    exact hthen (t := s.acceptJob cfg payload) env (saves_enqueueJob cfg s job rfl rfl)
      (((Writes.refl s.journal).enqueueJob cfg job).emit _ _ _ |>.db hs)
      (enqueueJob_queueRows s hb job) (synced_enqueueJob cfg s job).current
      (fun k => leaves_enqueueJob cfg s job) fun k hne hpops => hagree k ⟨hne,hpops⟩
  | inboundJob payload origin env =>
    dsimp only
    unfold inboundJob
    cases hid : s.job? payload.id with
    | some job => exact .refl _
    | none =>
      let job := s.inboundRecord cfg payload origin
      exact hthen (t := s.enqueueJob cfg job) env (saves_enqueueJob cfg s job rfl rfl)
        (((Writes.refl s.journal).enqueueJob cfg job).db hs)
        (enqueueJob_queueRows s hb job) (synced_enqueueJob cfg s job).current
        (fun k => leaves_enqueueJob cfg s job) fun k _ hpops => hagree k ⟨hid,hpops⟩
  | scheduleOnce env => exact saves_scheduleOnce s hb env hs hagree
  | jobResult node id payload env =>
    dsimp only
    unfold jobResult
    cases hid : s.job? id with
    | none => exact .refl _
    | some job =>
      obtain rfl : job.id = id := Table.key_of_get? hid
      have hknown : s.job? job.id ≠ none := by
        rw [hid]
        simp
      have hcurrent : s.jobSide.CurrentAt job.id := by
        refine hagree job.id ⟨hknown,Or.inl rfl⟩ ?_
        rw [show s.jobSide.phase job.id = some (phaseOf job) from
          congrArg (Option.map phaseOf) hid]
        simp
      have hkeep : job.status = .completed → reportsOk payload = true := by
        intro hcompleted
        by_contra hfailed
        refine hnone job.id ?_ ⟨rfl,by simpa using hfailed⟩
        rw [status, hid, Option.map_some, hcompleted]
      have hrecord := saves_recordResult cfg s node hid hcurrent hkeep
      exact hthen env hrecord (((Writes.refl s.journal).recordResult cfg node job payload).db hs)
        (recordResult_queueRows s hb node job payload) (hrecord.current _ hcurrent)
        (fun k hne => leaves_recordResult cfg s hne node payload)
        fun k _ hpops => hagree k ⟨hknown,Or.inr hpops⟩
  | heartbeat node payload => exact .of_eq (heartbeat_jobSide cfg s node payload)
  | checkNodesOnce deadAfterSec =>
    exact saves_checkNodes cfg s _ _ _ (fun n hn k hk => hagree k ⟨n,hn,hk⟩)
      fun n hn k hk hcompleted => hnone k hcompleted ⟨n,hn,hk⟩
  | executionEnds node job => exact .refl _

end State
end Arsonist.ControlPlane
