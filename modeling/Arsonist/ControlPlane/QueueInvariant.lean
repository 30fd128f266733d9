import Arsonist.ControlPlane.Recovery

/-! The queue and the status field are two structures that six operations update in
different orders. They are tied together by an invariant of the job side alone, which the
actions of an operation preserve, and which a restart finds again in the database. Records are
changed in place and persisted by separate calls; after a complete operation the live state and the
durable one agree again. -/
namespace Arsonist.ControlPlane
open Arsonist.Library Arsonist.Shared

/-- The queue holds every queued job, once, and known jobs only; the database is up to
date. -/
structure JobSide.Orderly (v : JobSide) : Prop where
  nodup : v.queue.Nodup
  known : ∀ k ∈ v.queue, v.phase k ≠ none
  queued : ∀ k, (v.phase k).map Phase.status = some .queued → k ∈ v.queue
  attempts : ∀ k c, v.phase k = some c → c.attempts ≤ maxJobRetries
  durable : v.queueRows = v.queue
  synced : ∀ k, v.SyncedAt k

namespace JobSide.Orderly
variable {v w : JobSide} {as : List Action}

theorem init : ({} : State).jobSide.Orderly where
  nodup := List.nodup_nil
  known := by simp [State.jobSide]
  queued k h := absurd h (by simp [State.jobSide, JobSide.phase])
  attempts k c h := absurd h (by simp [State.jobSide, JobSide.phase])
  durable := rfl
  synced _ := rfl

/-- A saved job is a known one. -/
theorem saved_known (h : v.Orderly) : v.Known := fun k hk => by rw [h.synced k, hk]; rfl

/-- What puts a job in the queue: a submission, or a requeue of a known job. -/
def Legal (v : JobSide) (as : List Action) : Prop :=
  ∀ a ∈ as, a.sets = some .queued → (∃ fed, a = .submitted a.job fed) ∨ v.phase a.job ≠ none

/-- The part of the invariant that does not depend on the attempts, for a queue that may have
lost a job which the actions put aside. -/
theorem queue_does (h : v.Orderly) {q : List JobId} (hsub : q.Sublist v.queue)
    (hout : ∀ k ∈ v.queue, k ∉ q →
      (v.phase k).map Phase.status = some .queued → ∃ a ∈ as, a.job = k ∧ a.sets ≠ none)
    (hphase : ∀ k, w.phase k = replay k (v.phase k) as) (hqueue : w.queue = queueAfter q as)
    (hlegal : Legal v as) :
    w.queue.Nodup ∧ (∀ k ∈ w.queue, w.phase k ≠ none) ∧
      ∀ k, (w.phase k).map Phase.status = some .queued → k ∈ w.queue := by
  refine ⟨?_,?_,?_⟩
  · rw [hqueue]
    exact queueAfter_nodup (h.nodup.sublist hsub) as
  · intro k hk
    rw [hphase]
    rw [hqueue, mem_queueAfter] at hk
    obtain hk | ⟨a,ha,rfl,hset⟩ := hk
    · exact replay_ne_none (h.known k (hsub.subset hk)) as
    · obtain ⟨fed,hsubm⟩ | hknown := hlegal a ha hset
      · exact replay_submitted (hsubm ▸ ha) _
      · exact replay_ne_none hknown as
  · intro k hk
    rw [hphase] at hk
    rw [hqueue, mem_queueAfter]
    obtain ⟨hv,hnone⟩ | hput := queued_of_replay hk
    · left
      by_contra hnot
      obtain ⟨a,ha,hj,hset⟩ := hout k (h.queued k hv) hnot hv
      exact hset (hnone a ha hj)
    · exact .inr hput

/-- An operation that starts no job. -/
theorem does (h : v.Orderly) (hd : Does v as w) (hlegal : Legal v as)
    (hstart : ∀ k, .started k ∉ as) : w.Orderly := by
  obtain ⟨hnodup,hknown,hqueued⟩ := h.queue_does (List.Sublist.refl _)
    (fun k hk hnk => absurd hk hnk) hd.phase hd.queue hlegal
  refine ⟨hnodup,hknown,hqueued,?_,hd.durable h.durable,fun k => hd.synced (h.synced k)⟩
  intro k c hc
  rw [hd.phase] at hc
  exact attempts_replay (hstart k) (h.attempts k) c hc

end JobSide.Orderly

namespace State
open JobSide
variable (cfg : Config) (hb : cfg.backend = .sqlite) {s : State}
include hb

/-- The next job of the SQLite queue is its head. -/
theorem nextJob_sqlite : s.nextJob cfg = s.memory.queue.head?.bind s.job? := by
  rw [nextJob, hb]

/-- Popping takes the head off both queues. -/
theorem popNextJob_queue (h : s.jobSide.Orderly) :
    (s.popNextJob cfg).1.memory.queue = s.memory.queue.tail ∧
      (s.popNextJob cfg).1.db.queue = (s.popNextJob cfg).1.memory.queue := by
  have hd : s.db.queue = s.memory.queue := h.durable
  rw [popNextJob, hb]
  dsimp only
  unfold popNextJobSqlite
  cases hq : s.memory.queue with
  | nil => exact ⟨hq,hd⟩
  | cons id rest => exact ⟨rfl,rfl⟩

omit hb in
/-- One start per dispatch round, and only of a job that has an attempt left. -/
theorem attempts_placeActions {reply : NodeId → Reply} {nodes : List NodeState}
    {job : JobRecord} (hle : job.attempts ≤ maxJobRetries) :
    ∀ c, replay job.id (some (phaseOf job)) (placeActions reply nodes job) = some c →
      c.attempts ≤ maxJobRetries := by
  have haside : ∀ n, .started job.id ∉ asideActions job.id n := fun n hmem => by
    rcases asideActions_job hmem with he | he <;> exact absurd he (by simp)
  unfold placeActions
  split_ifs with hterm hdis
  · intro c hc
    obtain rfl := Option.some.inj hc
    exact hle
  · rw [roundActions, List.cons_append, replay_cons]
    apply attempts_replay
    · intro hmem
      obtain hmem | hmem := List.mem_append.mp hmem
      · simp at hmem
      · split_ifs at hmem
        · exact absurd hmem (by simp)
        · exact haside _ hmem
    · intro c hc
      simp only [Action.apply, Action.job, if_true, Action.next, Option.map_some,
        Option.some.injEq] at hc
      rw [← hc]
      exact hdis.2.1
  · apply attempts_replay (haside _)
    intro c hc
    obtain rfl := Option.some.inj hc
    exact hle

/-- A known job would be found, so without a next job the queue is empty. -/
theorem queue_eq_nil (h : s.jobSide.Orderly) (hn : s.nextJob cfg = none) :
    s.memory.queue = [] := by
  have hnext := nextJob_sqlite cfg hb (s := s)
  cases hq : s.memory.queue with
  | nil => rfl
  | cons id rest =>
    rw [hn, hq, List.head?_cons, Option.bind_some] at hnext
    have hk := h.known id (by simp [jobSide, hq])
    rw [JobSide.phase, show s.jobSide.jobs.get? id = none from hnext.symm] at hk
    exact absurd rfl hk

/-- What leaves the queue is the next job. -/
theorem id_of_popped {job : JobRecord} (hn : s.nextJob cfg = some job) {k : JobId}
    (hk : k ∈ s.memory.queue) (hnt : k ∉ s.memory.queue.tail) : k = job.id := by
  have hnext := nextJob_sqlite cfg hb (s := s)
  cases hq : s.memory.queue with
  | nil =>
    rw [hq] at hk
    exact absurd hk List.not_mem_nil
  | cons id rest =>
    rw [hn, hq, List.head?_cons, Option.bind_some] at hnext
    rw [hq] at hk hnt
    obtain rfl | hk := List.mem_cons.mp hk
    · exact (Table.key_of_get? hnext.symm).symm
    · exact absurd hk hnt

theorem orderly_scheduleOnce (env : Surroundings) (h : s.jobSide.Orderly) :
    (s.scheduleOnce cfg env).jobSide.Orderly := by
  rw [scheduleOnce_eq]
  split
  swap
  · exact h
  have hpop := edits_popNextJob cfg s h.saved_known
  obtain ⟨hqueue,hrows⟩ := popNextJob_queue cfg hb h
  have hphase : ∀ k, (s.popNextJob cfg).1.jobSide.phase k = s.jobSide.phase k := hpop.phase
  have htail : s.memory.queue.tail.Sublist s.jobSide.queue := List.tail_sublist _
  cases hn : s.nextJob cfg with
  | none =>
    have hempty := queue_eq_nil cfg hb h hn
    have hlegal : Orderly.Legal s.jobSide [] := fun a ha => absurd ha (by simp)
    obtain ⟨hnodup,hknown,hqueued⟩ := h.queue_does htail
      (fun k hk => by simp [jobSide, hempty] at hk) hphase hqueue hlegal
    exact ⟨hnodup,hknown,hqueued,fun k c hc => h.attempts k c (hphase k ▸ hc),hrows,
      fun k => hpop.synced (h.synced k)⟩
  | some job =>
    have hjob := job?_of_nextJob cfg s h.saved_known hn
    have hsome : s.jobSide.phase job.id = some (phaseOf job) := congrArg (Option.map phaseOf) hjob
    have hpopped : (s.popNextJob cfg).1.job? job.id = some job := by
      rw [job?_popNextJob, hn]
      exact if_pos rfl
    have hplace := does_placeJob cfg (s.popNextJob cfg).1 env hpopped
    have hreplay : ∀ k, ((s.popNextJob cfg).1.placeJob cfg env job).jobSide.phase k =
        replay k (s.jobSide.phase k) (placeActions env.reply
          (s.popNextJob cfg).1.memory.nodes.entries job) := fun k => by
      rw [hplace.phase, hphase]
    obtain ⟨hnodup,hknown,hqueued⟩ := h.queue_does htail
      (fun k hk hnt hstatus => by
        have hkj := id_of_popped cfg hb hn hk hnt
        rw [hkj, hsome] at hstatus
        obtain ⟨a,ha,hj,hset⟩ := placeActions_sets_some env.reply
          (s.popNextJob cfg).1.memory.nodes.entries (show ¬job.status.terminal by
            rw [show job.status = .queued from Option.some.inj hstatus]
            decide)
        exact ⟨a,ha,hj.trans hkj.symm,hset⟩)
      hreplay (hplace.queue.trans (by rw [← hqueue]; rfl))
      (fun a ha _ => .inr (by rw [placeActions_job ha, hsome]; simp))
    refine ⟨hnodup,hknown,hqueued,?_,hplace.durable hrows,
      fun k => hplace.synced (hpop.synced (h.synced k))⟩
    intro k c hc
    rw [hreplay] at hc
    by_cases hk : k = job.id
    · rw [hk, hsome] at hc
      exact attempts_placeActions (h.attempts job.id _ hsome) c hc
    · rw [replay_of_other fun a ha he => hk (he.symm.trans (placeActions_job ha))] at hc
      exact h.attempts k c hc

omit hb in
theorem legal_recordActions {job : JobRecord} (hjob : s.job? job.id = some job)
    (payload : Json.Object) : Orderly.Legal s.jobSide (recordActions cfg job payload) := by
  intro a ha _
  right
  have hsome : s.jobSide.phase job.id = some (phaseOf job) := congrArg (Option.map phaseOf) hjob
  rw [recordActions_job cfg ha, hsome]
  simp

omit hb in
theorem started_not_mem_recordActions (job : JobRecord) (payload : Json.Object) (k : JobId) :
    .started k ∉ recordActions cfg job payload := by
  intro hmem
  obtain he | ⟨-,he⟩ | ⟨-,hmem⟩ := mem_recordActions cfg hmem
  · exact absurd he (by simp)
  · exact absurd he (by simp)
  · rcases asideActions_job hmem with he | he <;> exact absurd he (by simp)

omit hb in
theorem orderly_submitted {t : State} {id : JobId} {fed : Bool} (h : s.jobSide.Orderly)
    (hd : Does s.jobSide [.submitted id fed] t.jobSide) : t.jobSide.Orderly := by
  refine h.does hd (fun a ha _ => .inl ⟨fed,?_⟩) (by simp)
  obtain rfl := List.mem_singleton.mp ha
  rfl

omit hb in
theorem orderly_acceptJob (h : s.jobSide.Orderly) (payload : JobRequest) :
    (s.acceptJob cfg payload).jobSide.Orderly :=
  orderly_submitted h (does_acceptJob cfg s payload)

omit hb in
theorem orderly_acceptInbound (h : s.jobSide.Orderly) (payload : JobRequest)
    (origin : Option String) :
    (s.enqueueJob cfg (s.inboundRecord cfg payload origin)).jobSide.Orderly :=
  orderly_submitted h (does_acceptInbound cfg s payload origin)

omit hb in
theorem orderly_recordResult (h : s.jobSide.Orderly) (node : NodeId) {job : JobRecord}
    (hjob : s.job? job.id = some job) (payload : Json.Object) :
    (s.recordResult cfg node job payload).jobSide.Orderly :=
  h.does (does_recordResult cfg s node hjob payload) (legal_recordActions cfg hjob payload)
    (started_not_mem_recordActions cfg job payload)

theorem orderly_exec (op : Op) (h : s.jobSide.Orderly) : (s.exec cfg op).jobSide.Orderly := by
  unfold exec perform
  cases op with
  | clock now => exact h
  | registerNode payload =>
    dsimp only
    rw [registerNode_jobSide]
    exact h
  | submitJob payload env => exact orderly_scheduleOnce cfg hb env (orderly_acceptJob cfg h payload)
  | inboundJob payload origin env =>
    dsimp only
    unfold inboundJob
    cases s.job? payload.id with
    | some job => exact h
    | none => exact orderly_scheduleOnce cfg hb env (orderly_acceptInbound cfg h payload origin)
  | scheduleOnce env => exact orderly_scheduleOnce cfg hb env h
  | jobResult node id payload env =>
    dsimp only
    unfold jobResult
    cases hid : s.job? id with
    | none => exact h
    | some job =>
      have hjob : s.job? job.id = some job := by
        rw [show job.id = id from Table.key_of_get? hid, hid]
      exact orderly_scheduleOnce cfg hb env (orderly_recordResult cfg h node hjob payload)
  | heartbeat node payload =>
    dsimp only
    rw [heartbeat_jobSide]
    exact h
  | checkNodesOnce deadAfterSec =>
    refine h.does (does_checkNodes cfg s _ _ _) ?_ ?_
    · intro a ha _
      obtain ⟨n,-,id,-,c,hc,ha⟩ := mem_checkActions.mp ha
      right
      rcases asideActions_job ha with rfl | rfl <;> exact hc ▸ by simp
    · intro k hmem
      obtain ⟨n,-,id,-,c,-,ha⟩ := mem_checkActions.mp hmem
      rcases asideActions_job ha with he | he <;> exact absurd he (by simp)
  | executionEnds node job => exact h

end State

/-! ### Restarts -/

/-- What happens to a control plane over time. -/
inductive Event
  | op (op : Op)
  | restart

namespace State
variable (cfg : Config)

/-- The process ends between two operations and a new one restores the database. If a row
does not decode, no new process comes up. -/
def restart (s : State) : State :=
  match restoreSqlite s.db with
  | some memory => { s with memory := memory }
  | none => s

def step (s : State) : Event → State
  | .op op => s.exec cfg op
  | .restart => s.restart

/-- What a restart finds is what there was. -/
theorem restart_jobSide {s : State} (h : s.jobSide.Orderly) (hdb : s.db.Sound) :
    (∀ k, s.restart.job? k = s.job? k) ∧ s.restart.memory.queue = s.memory.queue := by
  obtain ⟨m,hm,hqueue,hjobs,-⟩ := restoreSqlite_of_sound hdb
  rw [restart, hm]
  refine ⟨fun k => ?_,hqueue.trans h.durable⟩
  exact row_injective JobRecord.ofJson_modelDump ((hjobs k).symm.trans (h.synced k))

theorem orderly_restart {s : State} (h : s.jobSide.Orderly) (hdb : s.db.Sound) :
    s.restart.jobSide.Orderly := by
  obtain ⟨hjobs,hqueue⟩ := restart_jobSide h hdb
  have hphase : ∀ k, s.restart.jobSide.phase k = s.jobSide.phase k := fun k =>
    congrArg (Option.map phaseOf) (hjobs k)
  have hrows : s.restart.db = s.db := by
    unfold restart
    split <;> rfl
  have hq : s.restart.jobSide.queue = s.jobSide.queue := hqueue
  refine ⟨hq ▸ h.nodup,?_,?_,?_,?_,?_⟩
  · intro k hk
    rw [hphase]
    exact h.known k (hq ▸ hk)
  · intro k hk
    rw [hphase] at hk
    exact hq ▸ h.queued k hk
  · intro k c hc
    rw [hphase] at hc
    exact h.attempts k c hc
  · change s.restart.db.queue = _
    rw [hrows, hq]
    exact h.durable
  · intro k
    change s.restart.db.jobs.get? k = (s.restart.job? k).map JobSide.row
    rw [hrows, hjobs]
    exact h.synced k

/-- The process that the events lead to comes up after a restart, and its queue is in order. -/
structure QueueInOrder (s : State) : Prop where
  restores : ∃ memory, restoreSqlite s.db = some memory
  queued_once : ∀ job record, s.job? job = some record → record.status = .queued →
    s.memory.queue.count job = 1
  nodup : s.memory.queue.Nodup
  known : ∀ job ∈ s.memory.queue, ∃ record, s.job? job = some record
  attempts : ∀ job record, s.job? job = some record → record.attempts ≤ maxJobRetries

theorem queueInOrder_of_orderly {s : State} (h : s.jobSide.Orderly) (hdb : s.db.Sound) :
    s.QueueInOrder where
  restores := by
    obtain ⟨m,hm,-⟩ := restoreSqlite_of_sound hdb
    exact ⟨m,hm⟩
  queued_once job record hjob hstatus := by
    apply List.count_eq_one_of_mem h.nodup
    apply h.queued
    rw [JobSide.phase, show s.jobSide.jobs.get? job = some record from hjob]
    exact congrArg some hstatus
  nodup := h.nodup
  known job hjob := by
    have hk := h.known job hjob
    obtain ⟨c,hc⟩ := Option.ne_none_iff_exists'.mp hk
    obtain ⟨record,hrecord,-⟩ := Option.map_eq_some_iff.mp hc
    exact ⟨record,hrecord⟩
  attempts job record hjob := h.attempts job (phaseOf record) (congrArg (Option.map phaseOf) hjob)

/-- Both nodes of a job are dead, the job is back in the queue, the process starts anew. -/
def outage : List Event :=
  [.op (.registerNode (cpuNode "a")),.op (.registerNode (cpuNode "b")),
   .op (.submitJob (pairJob "j") allAccept),.op (.clock 60),.op (.checkNodesOnce 15),.restart]

example : (run (step {}) {} outage).memory.queue = ["j"] := by decide +kernel

end State

namespace State
variable (cfg : Config)

/-- The operation ends with a response, not in an exception that nobody catches. -/
def Responds (s : State) (op : Op) : Prop := (s.perform cfg op).2 ≠ .raised

instance (s : State) (op : Op) : Decidable (s.Responds cfg op) :=
  inferInstanceAs (Decidable (_ ≠ _))

/-- A new process finds the nodes, the jobs and the queue of the running one. -/
def Durable (s : State) : Prop :=
  ∃ memory, restoreSqlite s.db = some memory ∧
    (∀ k, memory.nodes.get? k = s.node? k) ∧ (∀ k, memory.jobs.get? k = s.job? k) ∧
    memory.queue = s.memory.queue

/-- The rows of the nodes stay up to date. -/
theorem synced_exec {s : State} {op : Op} (hop : s.Responds cfg op)
    (h : ∀ k, s.nodeSide.SyncedAt k) : ∀ k, (s.exec cfg op).nodeSide.SyncedAt k := by
  intro k
  cases nodeStep_exec cfg s op with
  | registers payload hs => exact hs.synced (h k)
  | clock now hs =>
    rw [hs]
    exact h k
  | buries deadAfterSec hs => exact hs.synced (h k)
  | raised node payload f hf hs hr => exact absurd hr hop
  | tends _ hs => exact hs.synced (h k)

theorem durable_of_synced {s : State} (hjobs : s.jobSide.Orderly)
    (hnodes : ∀ k, s.nodeSide.SyncedAt k) (hdb : s.db.Sound) : s.Durable := by
  obtain ⟨m,hm,hqueue,hj,hn⟩ := restoreSqlite_of_sound hdb
  refine ⟨m,hm,fun k => ?_,fun k => ?_,hqueue.trans hjobs.durable⟩
  · exact row_injective NodeState.ofJson_modelDump ((hn k).symm.trans (hnodes k))
  · exact row_injective JobRecord.ofJson_modelDump ((hj k).symm.trans (hjobs.synced k))

/-- After any operations that all respond, what a restart would find in the SQLite database
is what the process has in memory. -/
theorem durable_run (hb : cfg.backend = .sqlite) (ops : List Op)
    (hops : Along (exec cfg) (Responds cfg) {} ops) : (run (exec cfg) {} ops).Durable := by
  have h : (run (exec cfg) {} ops).jobSide.Orderly ∧
      (∀ k, (run (exec cfg) {} ops).nodeSide.SyncedAt k) ∧ (run (exec cfg) {} ops).db.Sound := by
    refine run_invariant (I := fun s : State => s.jobSide.Orderly ∧
      (∀ k, s.nodeSide.SyncedAt k) ∧ s.db.Sound) ?_ hops
      ⟨JobSide.Orderly.init,fun _ => rfl,sound_init⟩
    rintro s op hop ⟨horder,hsync,hdb⟩
    exact ⟨orderly_exec cfg hb op horder,synced_exec cfg hop hsync,
      ((Writes.refl s.journal).exec cfg op).db hdb⟩
  exact durable_of_synced h.1 h.2.1 h.2.2

/-- A job on two nodes, one of which fails it, then a heartbeat. -/
def failedPair : List Op :=
  [.registerNode (cpuNode "a"),.registerNode (cpuNode "b"),.submitJob (pairJob "j") allAccept,
   .jobResult "a" "j" notSucceeded (onlyAccepts "b"),
   .heartbeat "b" { currentLoad := .given (1/2), runningJobs := some ["j"] }]

theorem durable_failedPair : (run (exec {}) {} failedPair).Durable :=
  durable_run {} rfl failedPair (by decide +kernel)

end State
end Arsonist.ControlPlane
