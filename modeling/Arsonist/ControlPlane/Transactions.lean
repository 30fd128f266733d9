import Arsonist.ControlPlane.QueueInvariant

/-! The transactions of an operation, one by one. The SQLite control plane writes the queue,
the jobs and the nodes in transactions of their own, so that a job may be between two places
when one of them has been made and the next one has not. -/
namespace Arsonist.ControlPlane
open Arsonist.Library Arsonist.Shared Arsonist.Scheduler

namespace Database
variable (db : Database)

/-- A restart finds the saved job in the queue or with the nodes that it runs on, unless it is
over. -/
def Places (id : JobId) : Prop :=
  ∀ job, db.jobs.get? id = some (JobSide.row job) →
    job.status.terminal ∨ id ∈ db.queue ∨ (job.status = .running ∧ job.assignedNodes ≠ [])

/-- A stored node lists the job. -/
def Lists (id : JobId) : Prop :=
  ∃ k node, db.nodes.get? k = some (NodeSide.row node) ∧ id ∈ node.runningJobs

variable {db}

/-- Saving a job is about that job only. -/
theorem places_save {job : JobRecord} {k : JobId} :
    ({ db with jobs := db.jobs.replace (JobSide.row job) } : Database).Places k ↔
      if k = job.id then
        job.status.terminal ∨ k ∈ db.queue ∨ (job.status = .running ∧ job.assignedNodes ≠ [])
      else db.Places k := by
  have hget : (db.jobs.replace (JobSide.row job)).get? k =
      if k = job.id then some (JobSide.row job) else db.jobs.get? k := Table.get?_replace _ _ _
  unfold Places
  dsimp only
  rw [hget]
  split_ifs with hk
  · constructor
    · exact fun h => h job rfl
    · intro h job' hrow
      obtain rfl : job = job' := Option.some.inj
        (row_injective JobRecord.ofJson_modelDump (o := some job) (p := some job') hrow)
      exact h
  · rfl

/-- The queue and the rows of the jobs decide. -/
theorem Places.of_same {db' : Database} {k : JobId} (h : db.Places k)
    (jobs : db'.jobs = db.jobs) (queue : k ∈ db.queue → k ∈ db'.queue) : db'.Places k := by
  intro job hrow
  rw [jobs] at hrow
  exact (h job hrow).imp_right (Or.imp_left queue)

end Database

/-- At a commit a restart finds every saved job, but for those that are over and the one in
hand, and that one is not in the queue. -/
structure Commit.Good (c : Commit) : Prop where
  found : ∀ id, c.db.Places id ∨ c.db.Lists id ∨ c.hand = some id
  apart : ∀ id, c.hand = some id → id ∉ c.db.queue

namespace State

/-- The commit that has just been made, if one has. -/
def here (s : State) : Commit := ⟨s.db,s.hand⟩

/-- All commits from `s` to `t` satisfy `P`. -/
def Logs (P : Commit → Prop) (s t : State) : Prop :=
  ∃ new, t.commits = s.commits ++ new ∧ ∀ c ∈ new, P c

namespace Logs
variable {P Q : Commit → Prop} {s t u : State}

theorem of_eq (h : t.commits = s.commits) : Logs P s t := ⟨[],by simp [h],by simp⟩

theorem refl (s : State) : Logs P s s := of_eq rfl

theorem trans (hst : Logs P s t) (htu : Logs P t u) : Logs P s u := by
  obtain ⟨as,has,hP⟩ := hst
  obtain ⟨bs,hbs,hP'⟩ := htu
  refine ⟨as ++ bs,by rw [hbs, has, List.append_assoc],?_⟩
  intro c hc
  obtain hc | hc := List.mem_append.mp hc
  · exact hP c hc
  · exact hP' c hc

theorem mono (h : Logs P s t) (himp : ∀ c, P c → Q c) : Logs Q s t := by
  obtain ⟨new,hnew,hP⟩ := h
  exact ⟨new,hnew,fun c hc => himp c (hP c hc)⟩

theorem commit (h : Logs P s t) (f : Database → Database) (hP : P (t.commit f).here) :
    Logs P s (t.commit f) := by
  refine h.trans ⟨[(t.commit f).here],rfl,fun c hc => ?_⟩
  rw [List.mem_singleton.mp hc]
  exact hP

end Logs

/-! ### Transactions that leave the jobs alone -/

/-- No commit from `s` to `t` touches a job, the queue or the hand. -/
structure Quiet (s t : State) : Prop where
  logs : Logs (fun c => c.db.jobs = s.db.jobs ∧ c.db.queue = s.db.queue ∧ c.hand = s.hand) s t
  jobs : t.db.jobs = s.db.jobs
  queueRows : t.db.queue = s.db.queue
  hand : t.hand = s.hand
  queue : t.memory.queue = s.memory.queue

namespace Quiet
variable {u t : State}

theorem refl (s : State) : Quiet s s := ⟨.refl s,rfl,rfl,rfl,rfl⟩

variable (h : Quiet u t)
include h

theorem commit (f : Database → Database) (jobs : (f t.db).jobs = t.db.jobs)
    (queue : (f t.db).queue = t.db.queue) : Quiet u (t.commit f) :=
  ⟨h.logs.commit f ⟨jobs.trans h.jobs,queue.trans h.queueRows,h.hand⟩,jobs.trans h.jobs,
    queue.trans h.queueRows,h.hand,h.queue⟩

/-- A change in memory that leaves the queue alone. -/
theorem inMemory {v : State} (db : v.db = t.db) (commits : v.commits = t.commits)
    (hand : v.hand = t.hand) (queue : v.memory.queue = t.memory.queue) : Quiet u v :=
  ⟨h.logs.trans (.of_eq commits),db ▸ h.jobs,db ▸ h.queueRows,hand.trans h.hand,
    queue.trans h.queue⟩

theorem emit (l e : String) (d : Json.Object) : Quiet u (t.emit l e d) := by
  have hnote : Quiet u
      { t with memory := { t.memory with events := t.memory.events ++ [⟨t.now,l,e,d⟩] } } :=
    h.inMemory rfl rfl rfl rfl
  exact hnote.commit (fun db =>
    { db with events := db.events ++ [(⟨t.now,l,e,d⟩ : EventRecord).modelDump] }) rfl rfl

theorem persistNode (id : NodeId) : Quiet u (t.persistNode id) := by
  unfold State.persistNode
  split
  · exact h
  · exact h.commit _ rfl rfl

theorem addNode (node : NodeState) : Quiet u (t.addNode node) := by
  unfold State.addNode
  apply Quiet.emit
  apply Quiet.persistNode
  exact h.inMemory rfl rfl rfl rfl

theorem touchNode (id : NodeId) (f : NodeState → NodeState) : Quiet u (t.touchNode id f) := by
  have hmod : Quiet u (t.modifyNode id f) := h.inMemory rfl rfl rfl rfl
  unfold State.touchNode State.refreshNode
  split
  · exact hmod.addNode _
  · exact hmod

theorem removeNode (id : NodeId) : Quiet u (t.removeNode id) := by
  have hmem : Quiet u (t.dropNode id) := h.inMemory rfl rfl rfl rfl
  have hdrop : Quiet u ((t.dropNode id).commit fun db =>
      { db with nodes := db.nodes.erase id }) := hmem.commit _ rfl rfl
  unfold State.removeNode
  dsimp only
  split
  · exact hdrop.emit _ _ _
  · exact hdrop

theorem registerNode (payload : NodeRegistration) : Quiet u (t.registerNode payload) := by
  unfold State.registerNode
  dsimp only
  split_ifs
  · exact h.addNode _
  · exact (h.addNode _).commit _ rfl rfl

theorem releaseAll (job : JobId) (nodes : List NodeId) :
    Quiet u (nodes.foldl (releaseNode job) t) := by
  induction nodes generalizing t with
  | nil => exact h
  | cons node nodes ih => exact ih (h.touchNode node _)

theorem noteHeartbeat (cfg : Config) (id : NodeId) : Quiet u (t.noteHeartbeat cfg id) := by
  unfold State.noteHeartbeat
  dsimp only
  split
  · exact h.touchNode _ _
  · exact (h.touchNode _ _).commit _ rfl rfl

theorem heartbeat (cfg : Config) (id : NodeId) (payload : HeartbeatPayload) :
    Quiet u (t.heartbeat cfg id payload).1 := by
  have hmod : ∀ {v : State} {k : NodeId} (f : NodeState → NodeState), Quiet u v →
      Quiet u (v.modifyNode k f) := fun f hv => hv.inMemory rfl rfl rfl rfl
  unfold State.heartbeat
  cases t.node? id with
  | none => exact h
  | some node =>
    dsimp only
    cases payload.currentLoad.resolve node.currentLoad with
    | none => exact h
    | some load =>
      dsimp only
      cases payload.queueSize.resolve ((payload.runningJobs.getD node.runningJobs).length : ℤ) with
      | none => exact hmod _ h
      | some size =>
        dsimp only
        cases payload.avgLatencyMs.resolve node.avgLatencyMs with
        | none => exact hmod _ (hmod _ h)
        | some latency => exact (hmod _ (hmod _ (hmod _ h))).noteHeartbeat cfg id

theorem maybeReport (cfg : Config) (id : JobId) : Quiet u (t.maybeReportGlobalCompletion cfg id) := by
  unfold State.maybeReportGlobalCompletion
  split
  · exact h.inMemory rfl rfl rfl rfl
  · exact h

end Quiet

/-! ### Between two operations, and about one job -/

/-- Everything but at most one job has its place in the database. -/
structure Busy (id : JobId) (s : State) : Prop where
  hand : s.hand = none ∨ s.hand = some id
  durable : ∀ k ∈ s.db.queue, k ∈ s.memory.queue
  placed : ∀ k, k ≠ id → s.db.Places k

/-- Every saved job has its place in the database, and none is in hand. -/
structure Ready (s : State) : Prop where
  hand : s.hand = none
  durable : ∀ k ∈ s.db.queue, k ∈ s.memory.queue
  placed : ∀ k, s.db.Places k

theorem Ready.busy {s : State} (h : s.Ready) (id : JobId) : s.Busy id :=
  ⟨.inl h.hand,h.durable,fun k _ => h.placed k⟩

theorem Ready.good {s : State} (h : s.Ready) : s.here.Good :=
  ⟨fun id => .inl (h.placed id),fun id hid => absurd (h.hand.symm.trans hid) (by simp)⟩

/-- Transactions that leave the jobs alone lose none. -/
theorem Ready.quiet {s t : State} (h : s.Ready) (hq : Quiet s t) : t.Ready ∧ Logs Commit.Good s t := by
  refine ⟨⟨hq.hand.trans h.hand,?_,fun k => ?_⟩,hq.logs.mono ?_⟩
  · rw [hq.queueRows, hq.queue]
    exact h.durable
  · exact (h.placed k).of_same hq.jobs (by rw [hq.queueRows]; exact id)
  · rintro c ⟨hjobs,hqueue,hhand⟩
    refine ⟨fun k => .inl ((h.placed k).of_same hjobs (by rw [hqueue]; exact id)),fun k hk => ?_⟩
    rw [hhand, h.hand] at hk
    exact absurd hk (by simp)

/-! ### Saving a job -/

theorem saveJob_of_some {s : State} {id : JobId} {job : JobRecord} (h : s.job? id = some job) :
    s.saveJob id = s.commit fun db => { db with jobs := db.jobs.replace (JobSide.row job) } := by
  unfold saveJob
  rw [h]
  rfl

section
variable {s : State} {id : JobId} {job : JobRecord}

/-- After the save of the job that an operation is about. -/
theorem Busy.saveJob (h : s.Busy id) (hjob : s.job? id = some job) : (s.saveJob id).Busy id := by
  have hid : job.id = id := Table.key_of_get? hjob
  rw [saveJob_of_some hjob]
  refine ⟨h.hand,h.durable,fun k hk => ?_⟩
  exact Database.places_save.mpr (by rw [if_neg (hid.symm ▸ hk)]; exact h.placed k hk)

/-- A save that leaves the job with a place. -/
theorem places_saveJob (hjob : s.job? id = some job)
    (hplace : job.status.terminal ∨ id ∈ s.db.queue ∨
      (job.status = .running ∧ job.assignedNodes ≠ [])) :
    (s.saveJob id).db.Places id := by
  have hid : job.id = id := Table.key_of_get? hjob
  rw [saveJob_of_some hjob]
  exact Database.places_save.mpr (by rw [if_pos hid.symm]; exact hplace)

theorem logs_saveJob (hjob : s.job? id = some job) (hgood : (s.saveJob id).here.Good) :
    Logs Commit.Good s (s.saveJob id) := by
  rw [saveJob_of_some hjob] at hgood ⊢
  exact (Logs.refl s).commit _ hgood

/-- A job that has been logged is a live record with the changes so far. -/
theorem job?_logged (f : JobRecord → JobRecord) (hf : ∀ job, (f job).id = job.id)
    (h : s.job? id = some job) : (s.modifyJob id f).job? id = some (f job) := by
  rw [job?_modifyJob s id f hf, if_pos rfl, h]
  rfl

end

/-! ### Putting a job back -/

theorem Busy.good {s : State} {id : JobId} (h : s.Busy id)
    (hid : s.db.Places id ∨ s.db.Lists id ∨ s.hand = some id)
    (apart : s.hand = some id → id ∉ s.db.queue) : s.here.Good where
  found k := by
    by_cases hk : k = id
    · rw [hk]
      exact hid
    · exact .inl (h.placed k hk)
  apart k hk := by
    obtain hnone | hsome := h.hand
    · exact absurd (hnone.symm.trans hk) (by simp)
    · obtain rfl : id = k := Option.some.inj (hsome.symm.trans hk)
      exact apart hsome

theorem Busy.ready {s : State} {id : JobId} (h : s.Busy id) (hand : s.hand = none)
    (hid : s.db.Places id) : s.Ready where
  hand := hand
  durable := h.durable
  placed k := by
    by_cases hk : k = id
    · rw [hk]
      exact hid
    · exact h.placed k hk

section
variable {s t : State} {id : JobId} {job : JobRecord}

/-- A save that leaves the job with a place ends what the operation does to it. -/
theorem Busy.ready_saveJob (h : t.Busy id) (hand : t.hand = none) (hlive : t.job? id = some job)
    (hplace : job.status.terminal ∨ id ∈ t.db.queue ∨
      (job.status = .running ∧ job.assignedNodes ≠ []))
    (hcommits : t.commits = s.commits) :
    (t.saveJob id).Ready ∧ Logs Commit.Good s (t.saveJob id) := by
  have hready := (h.saveJob hlive).ready ((saveJob_hand t id).trans hand)
    (places_saveJob hlive hplace)
  exact ⟨hready,(Logs.of_eq hcommits).trans (logs_saveJob hlive hready.good)⟩

/-- A job that is saved outside of the durable queue is in hand at that point. -/
theorem Busy.good_saveJob (h : t.Busy id) (hlive : t.job? id = some job)
    (hhand : t.hand = if id ∈ t.db.queue then none else some id) :
    (t.saveJob id).here.Good := by
  apply (h.saveJob hlive).good
  · by_cases hin : id ∈ t.db.queue
    · exact .inl (places_saveJob hlive (.inr (.inl hin)))
    · exact .inr (.inr (by rw [saveJob_hand, hhand, if_neg hin]))
  · intro hsome hin
    rw [saveJob_queueRows] at hin
    rw [saveJob_hand, hhand, if_pos hin] at hsome
    cases hsome

/-- The job is given up. -/
theorem Busy.ready_exhausted (h : s.Busy id) (hjob : s.job? id = some job) (message : String) :
    ((((s.modifyJob id (withStatus .failed)).act (.exhausted id)).holding none).logJob id
      message).Ready ∧
      Logs Commit.Good s ((((s.modifyJob id (withStatus .failed)).act (.exhausted id)).holding
        none).logJob id message) := by
  set t := ((((s.modifyJob id (withStatus .failed)).act (.exhausted id)).holding none).modifyJob id
    (logged s.now message)) with ht
  have hlive : t.job? id = some (logged s.now message (withStatus .failed job)) :=
    job?_logged (s := ((s.modifyJob id (withStatus .failed)).act (.exhausted id)).holding none) _
      (fun _ => rfl) (job?_logged (withStatus .failed) (fun _ => rfl) hjob)
  have hbusy : t.Busy id := ⟨.inl rfl,h.durable,h.placed⟩
  exact hbusy.ready_saveJob rfl hlive (.inl (.inr rfl)) rfl

end

/-- Making the queue durable once the job is in it. -/
theorem ready_ensureJobQueued {cfg : Config} (hb : cfg.backend = .sqlite) {s : State} {id : JobId}
    (h : s.Busy id) :
    (s.ensureJobQueued cfg id).Ready ∧ Logs Commit.Good s (s.ensureJobQueued cfg id) := by
  set t := (s.appendQueue id).holding none with ht
  have hdb : t.db = s.db := by
    rw [ht]; unfold appendQueue; split <;> rfl
  have hcommits : t.commits = s.commits := by
    rw [ht]; unfold appendQueue; split <;> rfl
  have hqueue : t.memory.queue =
      if id ∈ s.memory.queue then s.memory.queue else s.memory.queue ++ [id] :=
    appendQueue_queue s id
  have hsub : ∀ k, k ∈ s.db.queue ∨ k = id → k ∈ t.memory.queue := by
    intro k hk
    have hk' := hk.imp_left (h.durable k)
    rw [hqueue]
    split_ifs with hin
    · exact hk'.elim (fun hmem => hmem) fun he => he ▸ hin
    · simpa using hk'
  have hwrite : s.ensureJobQueued cfg id = t.persistQueueSqlite := by
    rw [ensureJobQueued, writeQueue, hb]
  rw [hwrite]
  have hready : t.persistQueueSqlite.Ready := by
    refine ⟨rfl,fun k hk => hk,fun k => ?_⟩
    by_cases hk : k = id
    · intro job _
      exact .inr (.inl (hsub k (.inr hk)))
    · exact (h.placed k hk).of_same (show t.db.jobs = s.db.jobs by rw [hdb])
        fun hin => hsub k (.inl hin)
  exact ⟨hready,(Logs.of_eq hcommits).commit _ hready.good⟩

theorem ready_requeueOrFail {cfg : Config} (hb : cfg.backend = .sqlite) {s : State} {id : JobId}
    {job : JobRecord} (h : s.Busy id) (hjob : s.job? id = some job) (reason : String) :
    (s.requeueOrFail cfg id reason).Ready ∧
      Logs Commit.Good s (s.requeueOrFail cfg id reason) := by
  unfold requeueOrFail
  rw [hjob]
  dsimp only
  split_ifs
  · exact h.ready_exhausted hjob ("retry exhausted; failed: " ++ reason)
  · set t := ((((s.modifyJob id (withStatus .queued)).act (.requeued id)).takeInHand id).modifyJob id
      (logged s.now ("requeued: " ++ reason))) with ht
    have hlive : t.job? id = some (logged s.now ("requeued: " ++ reason)
        (withStatus .queued job)) :=
      job?_logged (s := ((s.modifyJob id (withStatus .queued)).act (.requeued id)).takeInHand id) _
        (fun _ => rfl) (job?_logged (withStatus .queued) (fun _ => rfl) hjob)
    have hhand : t.hand = if id ∈ s.db.queue then none else some id := rfl
    have hbusy : t.Busy id := by
      refine ⟨?_,h.durable,h.placed⟩
      rw [hhand]
      split_ifs
      · exact .inl rfl
      · exact .inr rfl
    change ((t.saveJob id).ensureJobQueued cfg id).Ready ∧
      Logs Commit.Good s ((t.saveJob id).ensureJobQueued cfg id)
    obtain ⟨hready,hlogs⟩ := ready_ensureJobQueued hb (hbusy.saveJob hlive)
    have hgood : (t.saveJob id).here.Good := hbusy.good_saveJob hlive hhand
    exact ⟨hready,((Logs.of_eq rfl).trans (logs_saveJob hlive hgood)).trans hlogs⟩

/-! ### Dispatching -/

/-- During a dispatch round the job is in hand, or a stored node lists it. -/
structure Round (id : JobId) (s : State) : Prop extends Busy id s where
  kept : s.hand = some id ∨ s.db.Lists id
  apart : s.hand = some id → id ∉ s.db.queue

section
variable {s t : State} {id : JobId}

theorem Round.good (h : s.Round id) : s.here.Good :=
  h.toBusy.good (.inr h.kept.symm) h.apart

/-- Nothing that matters to the round has changed. -/
theorem Round.of_same (h : s.Round id) (db : t.db = s.db) (hand : t.hand = s.hand)
    (queue : t.memory.queue = s.memory.queue) : t.Round id := by
  refine ⟨⟨?_,?_,?_⟩,?_,?_⟩
  · rw [hand]; exact h.hand
  · rw [db, queue]; exact h.durable
  · rw [db]; exact h.placed
  · rw [hand, db]; exact h.kept
  · rw [hand, db]; exact h.apart

/-- A transaction that leaves the jobs, the queue and the nodes alone. -/
theorem Round.commit (h : s.Round id) (f : Database → Database)
    (jobs : (f s.db).jobs = s.db.jobs) (queue : (f s.db).queue = s.db.queue)
    (nodes : (f s.db).nodes = s.db.nodes) :
    (s.commit f).Round id ∧ Logs Commit.Good s (s.commit f) := by
  have hround : (s.commit f).Round id := by
    refine ⟨⟨h.hand,fun k hk => h.durable k (queue ▸ hk),fun k hk => ?_⟩,h.kept.imp_right ?_,
      fun hs => ?_⟩
    · exact (h.placed k hk).of_same jobs fun hin => queue.symm ▸ hin
    · rintro ⟨n,node,hrow,hmem⟩
      exact ⟨n,node,nodes.symm ▸ hrow,hmem⟩
    · exact fun hin => h.apart hs (queue ▸ hin)
  exact ⟨hround,(Logs.refl s).commit f hround.good⟩

theorem Round.emit (h : s.Round id) (l e : String) (d : Json.Object) :
    (s.emit l e d).Round id ∧ Logs Commit.Good s (s.emit l e d) := by
  have hnote : Round id
      { s with memory := { s.memory with events := s.memory.events ++ [⟨s.now,l,e,d⟩] } } :=
    h.of_same rfl rfl rfl
  obtain ⟨hround,hlogs⟩ := hnote.commit (fun db =>
    { db with events := db.events ++ [(⟨s.now,l,e,d⟩ : EventRecord).modelDump] }) rfl rfl rfl
  exact ⟨hround,(Logs.of_eq rfl).trans hlogs⟩

/-- A log line for the job, whatever it says. -/
theorem Round.logJob {job : JobRecord} (h : s.Round id) (hjob : s.job? id = some job)
    (message : String) : (s.logJob id message).Round id ∧ Logs Commit.Good s (s.logJob id message) := by
  set t := s.modifyJob id (logged s.now message) with ht
  have hlive : t.job? id = some (logged s.now message job) := job?_logged _ (fun _ => rfl) hjob
  have hround : t.Round id := h.of_same rfl rfl rfl
  have hsaved : (t.saveJob id).Round id := by
    have hnodes : (t.saveJob id).db.nodes = t.db.nodes := by
      rw [saveJob_of_some hlive]
      rfl
    refine ⟨hround.toBusy.saveJob hlive,?_,?_⟩
    · rw [saveJob_hand]
      refine hround.kept.imp_right ?_
      rintro ⟨n,node,hrow,hmem⟩
      exact ⟨n,node,hnodes.symm ▸ hrow,hmem⟩
    · rw [saveJob_hand, saveJob_queueRows]
      exact hround.apart
  exact ⟨hsaved,(Logs.of_eq rfl).trans (logs_saveJob hlive hsaved.good)⟩

/-- An answer puts the job on the list of its node, in memory and in the node's row. -/
theorem Round.noteAnswer (h : s.Round id) {node : NodeId} (hnode : s.node? node ≠ none)
    (latencyMs : ℚ) :
    (s.noteAnswer node id latencyMs).Round id ∧
      Logs Commit.Good s (s.noteAnswer node id latencyMs) := by
  obtain ⟨n,hn⟩ := Option.ne_none_iff_exists'.mp hnode
  set f := taken s.now id latencyMs with hf
  set t := (s.holding none).modifyNode node f with ht
  have htn : t.node? node = some (f n) := by
    rw [ht, node?_modifyNode _ node f fun _ => rfl, if_pos rfl]
    exact congrArg (Option.map f) hn
  set record := seen t.now (t.joined (f n)) with hrecord
  have hlist : id ∈ record.runningJobs := by
    have hjoin : t.joined (f n) = merged (f n) (f n) := by
      rw [joined, show (f n).nodeId = node from Table.key_of_get? hn, htn]
    rw [hrecord, hjoin]
    simp [seen, merged, hf, taken]
  set w := t.putNode record with hw
  have hput : w.node? (f n).nodeId = some record := by
    rw [hw]
    change (t.memory.nodes.put record).get? _ = _
    rw [Table.get?_put, if_pos]
    exact (joined_nodeId t (f n)).symm
  have hpersist : w.persistNode (f n).nodeId = w.commit fun db =>
      { db with nodes := db.nodes.replace (NodeSide.row record) } := by
    unfold persistNode
    rw [hput]
    rfl
  have hround : (w.persistNode (f n).nodeId).Round id := by
    rw [hpersist]
    refine ⟨⟨.inl rfl,h.durable,h.placed⟩,.inr ⟨record.nodeId,record,?_,hlist⟩,fun hs => ?_⟩
    · change (w.db.nodes.replace (NodeSide.row record)).get? _ = _
      rw [Table.get?_replace]
      exact if_pos rfl
    · exact absurd (show (none : Option JobId) = some id from hs) (by simp)
  have hlogs : Logs Commit.Good s (w.persistNode (f n).nodeId) := by
    rw [hpersist] at hround ⊢
    exact (Logs.of_eq rfl).trans ((Logs.refl w).commit _ hround.good)
  obtain ⟨hjoined,hlogs'⟩ := hround.emit "info" "node_joined" [("node_id",.str (f n).nodeId)]
  obtain ⟨hdone,hlogs''⟩ := hjoined.emit "info" "job_dispatched"
    [("job_id",.str id),("node_id",.str node)]
  unfold State.noteAnswer
  rw [touchNode_of_some (s.holding none) node f (fun _ => rfl) hn]
  exact ⟨hdone,(hlogs.trans hlogs').trans hlogs''⟩

theorem Round.dispatchJob (h : s.Round id) {node : NodeId} (hnode : s.node? node ≠ none)
    (reply : Reply) :
    (s.dispatchJob node id reply).Round id ∧
      Logs Commit.Good s (s.dispatchJob node id reply) := by
  set t := s.sendJob node id reply with ht
  have hsame : t.db = s.db ∧ t.commits = s.commits ∧ t.hand = s.hand ∧ t.memory = s.memory := by
    rw [ht]
    unfold sendJob
    dsimp only
    split <;> exact ⟨rfl,rfl,rfl,rfl⟩
  obtain ⟨hdb,hcommits,hhand,hmem⟩ := hsame
  have hsent : t.Round id := h.of_same hdb hhand (congrArg ClusterMemory.queue hmem)
  have hlogs : Logs Commit.Good s t := .of_eq hcommits
  have hknown : t.node? node ≠ none := by
    rw [node?, hmem]
    exact hnode
  unfold State.dispatchJob
  rw [← ht]
  cases reply with
  | accepted l =>
    obtain ⟨hround,hnote⟩ := hsent.noteAnswer hknown l
    exact ⟨hround,hlogs.trans hnote⟩
  | unreadable b l e =>
    obtain ⟨hround,hnote⟩ := hsent.noteAnswer hknown l
    obtain ⟨hround',hemit⟩ := hround.emit "error" "job_dispatch_failed"
      [("job_id",.str id),("node_id",.str node),("error",.str e)]
    exact ⟨hround',(hlogs.trans hnote).trans hemit⟩
  | failed b e =>
    obtain ⟨hround,hemit⟩ := hsent.emit "error" "job_dispatch_failed"
      [("job_id",.str id),("node_id",.str node),("error",.str e)]
    exact ⟨hround,hlogs.trans hemit⟩

/-- The loop needs the live records of the job and of the nodes. -/
theorem Round.dispatchAll (h : s.Round id) (hjob : s.jobSide.phase id ≠ none)
    (reply : NodeId → Reply) (nodes : List NodeId) (hnodes : ∀ n ∈ nodes, s.node? n ≠ none) :
    (s.dispatchAll id reply nodes).1.Round id ∧
      Logs Commit.Good s (s.dispatchAll id reply nodes).1 := by
  induction nodes generalizing s with
  | nil => exact ⟨h,.refl s⟩
  | cons node nodes ih =>
    obtain ⟨hround,hlogs⟩ := h.dispatchJob (hnodes node (by simp)) (reply node)
    have hknown : ∀ n ∈ nodes, (s.dispatchJob node id (reply node)).node? n ≠ none := by
      intro n hn hnone
      exact hnodes n (by simp [hn]) (((tends_dispatchJob s node id (reply node)).known n).mp hnone)
    have hlive : (s.dispatchJob node id (reply node)).jobSide.phase id ≠ none := by
      rw [(does_dispatchJob s node id (reply node)).phase]
      exact replay_ne_none hjob _
    unfold State.dispatchAll
    dsimp only
    split_ifs
    · obtain ⟨hend,hrest⟩ := ih hround hlive hknown
      exact ⟨hend,hlogs.trans hrest⟩
    · set t := s.dispatchJob node id (reply node)
      obtain ⟨job,hsome⟩ : ∃ job, t.job? id = some job := by
        obtain ⟨c,hc⟩ := Option.ne_none_iff_exists'.mp hlive
        obtain ⟨job,hsome,-⟩ := Option.map_eq_some_iff.mp hc
        exact ⟨job,hsome⟩
      obtain ⟨hlogged,hlog⟩ := hround.logJob hsome ("dispatch failure node=" ++ node)
      have hlive' : (t.logJob id ("dispatch failure node=" ++ node)).jobSide.phase id ≠ none := by
        rw [(does_logJob t id ("dispatch failure node=" ++ node)).phase]
        exact replay_ne_none hlive _
      have hnodes' := logJob_nodeSide t id ("dispatch failure node=" ++ node)
      obtain ⟨hend,hrest⟩ := ih hlogged hlive' fun n hn hnone =>
        hknown n hn ((congrArg (fun v : NodeSide => v.nodes.get? n) hnodes').symm.trans hnone)
      exact ⟨hend,(hlogs.trans hlog).trans hrest⟩

/-- Nothing is in hand once a node has answered. -/
theorem dispatchAll_hand (s : State) (reply : NodeId → Reply) (nodes : List NodeId) :
    (s.dispatchAll id reply nodes).1.hand =
      if answering reply nodes = [] then s.hand else none := by
  induction nodes generalizing s with
  | nil => rfl
  | cons node nodes ih =>
    have hdispatch : (s.dispatchJob node id (reply node)).hand =
        if (reply node).answered then none else s.hand := by
      have hnote : ∀ t l, (State.noteAnswer t node id l).hand = none := fun t l =>
        congrArg JobSide.hand (touchNode_jobSide (t.holding none) node (taken t.now id l))
      have hsend : (s.sendJob node id (reply node)).hand = s.hand := by
        unfold sendJob
        dsimp only
        split <;> rfl
      unfold State.dispatchJob
      rw [← hsend]
      cases reply node with
      | accepted l => exact hnote _ l
      | unreadable b l e => exact hnote _ l
      | failed b e => rfl
    have hstep : ∀ t : State, t.hand = (s.dispatchJob node id (reply node)).hand →
        (t.dispatchAll id reply nodes).1.hand =
          if answering reply (node :: nodes) = [] then s.hand else none := by
      intro t ht
      rw [ih, ht, hdispatch, answering, answering, List.filter_cons]
      by_cases ha : (reply node).answered = true
      · simp [ha]
      · simp [ha]
    unfold State.dispatchAll
    dsimp only
    by_cases hret : (reply node).returns = true
    · rw [if_pos hret]
      exact hstep _ rfl
    · rw [if_neg hret]
      exact hstep _ (logJob_hand _ _ _)

end

theorem Reply.answered_of_returns {r : Reply} (h : r.returns = true) : r.answered = true := by
  cases r with
  | accepted l => rfl
  | unreadable b l e => exact absurd h (by simp [Reply.returns])
  | failed b e => exact absurd h (by simp [Reply.returns])

theorem Round.markRunning {s : State} {job : JobRecord} (h : s.Round job.id)
    (hjob : s.job? job.id = some job) :
    (s.markRunning job.id).Round job.id ∧ Logs Commit.Good s (s.markRunning job.id) := by
  set t := (s.modifyJob job.id (begun s.now)).act (.started job.id) with ht
  have ht' : t.Round job.id := h.of_same rfl rfl rfl
  obtain ⟨hround,hlogs⟩ := ht'.logJob (job?_logged (begun s.now) (fun _ => rfl) hjob) "job running"
  exact ⟨hround,(Logs.of_eq rfl).trans hlogs⟩

/-- A dispatch round leaves the job running, in hand or on the list of a node. -/
theorem Round.dispatches {s : State} {job : JobRecord} (h : s.Round job.id)
    (hjob : s.job? job.id = some job) (reply : NodeId → Reply) {ids : List NodeId}
    (hids : ∀ n ∈ ids, s.node? n ≠ none) :
    ((s.markRunning job.id).dispatchAll job.id reply ids).1.Round job.id ∧
      Logs Commit.Good s ((s.markRunning job.id).dispatchAll job.id reply ids).1 ∧
      ∃ record, ((s.markRunning job.id).dispatchAll job.id reply ids).1.job? job.id =
        some record ∧ record.status = .running := by
  obtain ⟨hmark,hlogs⟩ := h.markRunning hjob
  have hphase : s.jobSide.phase job.id = some (phaseOf job) := congrArg (Option.map phaseOf) hjob
  have hstart : (s.markRunning job.id).jobSide.phase job.id =
      some ⟨.running,job.attempts+1,job.reportToFederation⟩ := by
    rw [(does_markRunning s job.id).phase, hphase]
    simp [Action.apply, Action.job, Action.next, phaseOf]
  have hknown : ∀ n ∈ ids, (s.markRunning job.id).node? n ≠ none := by
    intro n hn hnone
    have hsame := congrArg (fun v : NodeSide => v.nodes.get? n) (markRunning_nodeSide s job.id)
    exact hids n hn (hsame.symm.trans hnone)
  obtain ⟨hround,hrest⟩ := hmark.dispatchAll (by rw [hstart]; simp) reply ids hknown
  have hend := (does_dispatchAll (s.markRunning job.id) job.id reply ids).phase job.id
  rw [hstart, replay_dispatched] at hend
  obtain ⟨record,hrecord,hrun⟩ := Option.map_eq_some_iff.mp hend
  exact ⟨hround,hlogs.trans hrest,record,hrecord,congrArg Phase.status hrun⟩

/-! ### A scheduler step -/

theorem Ready.persistQueue {cfg : Config} (hb : cfg.backend = .sqlite) {s : State}
    (h : s.Ready) : (s.persistQueue cfg).Ready ∧ Logs Commit.Good s (s.persistQueue cfg) := by
  have hsame : s.persistQueue cfg = s.persistQueueSqlite := by rw [State.persistQueue, hb]
  have hready : s.persistQueueSqlite.Ready :=
    ⟨h.hand,fun k hk => hk,fun k => (h.placed k).of_same rfl (h.durable k)⟩
  rw [hsame]
  exact ⟨hready,(Logs.refl s).commit _ hready.good⟩

section
variable {cfg : Config} (hb : cfg.backend = .sqlite) {s : State} {job : JobRecord}
include hb

/-- The assignment of a job that some node has taken is saved. -/
theorem ready_assign (h : s.Round job.id) (hlive : s.job? job.id = some job)
    (hrun : job.status = .running) (hnone : s.hand = none) {nodes : List NodeId}
    (hnodes : nodes ≠ []) :
    (((s.modifyJob job.id (assigned nodes)).saveJob job.id).persistQueue cfg).Ready ∧
      Logs Commit.Good s
        (((s.modifyJob job.id (assigned nodes)).saveJob job.id).persistQueue cfg) := by
  have hlive' := job?_logged (assigned nodes) (fun _ => rfl) hlive
  have hbusy : (s.modifyJob job.id (assigned nodes)).Busy job.id :=
    ⟨.inl hnone,h.durable,h.placed⟩
  have hplace : (assigned nodes job).status = .running ∧ (assigned nodes job).assignedNodes ≠ [] :=
    ⟨hrun,hnodes⟩
  obtain ⟨hready,hlogs⟩ := hbusy.ready_saveJob (s := s) hnone hlive' (.inr (.inr hplace)) rfl
  obtain ⟨hready',hlogs'⟩ := hready.persistQueue hb
  exact ⟨hready',hlogs.trans hlogs'⟩

theorem ready_placeJob (h : s.Round job.id) (hjob : s.job? job.id = some job)
    (hterm : ¬job.status.terminal) (env : Surroundings) :
    (s.placeJob cfg env job).Ready ∧ Logs Commit.Good s (s.placeJob cfg env job) := by
  unfold placeJob
  rw [if_neg hterm]
  split_ifs with hmax
  · exact h.toBusy.ready_exhausted hjob "retry limit reached before dispatch"
  dsimp only
  split_ifs with hfew hsuff
  · obtain ⟨hready,hlogs⟩ := ready_requeueOrFail hb h.toBusy hjob "insufficient_nodes"
    obtain ⟨hready',hlogs'⟩ := hready.quiet ((Quiet.refl _).emit "warning" "insufficient_nodes"
      [("job_id",.str job.id)])
    exact ⟨hready',hlogs.trans hlogs'⟩
  all_goals
    set ids := (selectNodes job.toJobRequest s.memory.nodes.entries).map fun n => n.nodeId with hids
    have hknown : ∀ n ∈ ids, s.node? n ≠ none := by
      intro n hn
      obtain ⟨node,hnode,rfl⟩ := List.mem_map.mp hn
      have hget : s.node? node.nodeId = some node := Table.get?_of_mem (selectNodes_subset hnode)
      rw [hget]
      simp
    obtain ⟨hround,hlogs,record,hrecord,hrun⟩ := h.dispatches hjob env.reply hknown
    have hnames := dispatchAll_snd (s.markRunning job.id) job.id env.reply ids
    have hhand : ((s.markRunning job.id).dispatchAll job.id env.reply ids).1.hand =
        if answering env.reply ids = [] then (s.markRunning job.id).hand else none :=
      dispatchAll_hand _ env.reply ids
    set round := (s.markRunning job.id).dispatchAll job.id env.reply ids with hr
    obtain hid : record.id = job.id := Table.key_of_get? hrecord
  · have hpos : round.2 ≠ [] := by
      intro hnil
      rw [hnil] at hsuff
      exact absurd hsuff (by have := job.requiredNodes_ge; simp; omega)
    have hnone : round.1.hand = none := by
      have hans : answering env.reply ids ≠ [] := by
        obtain ⟨n,hn⟩ := List.exists_mem_of_ne_nil _ hpos
        rw [hnames, List.mem_filter] at hn
        exact List.ne_nil_of_mem (List.mem_filter.mpr ⟨hn.1,Reply.answered_of_returns hn.2⟩)
      rw [if_neg hans] at hhand
      exact hhand
    rw [← hid] at hround hrecord ⊢
    obtain ⟨hready,hassign⟩ := ready_assign hb hround hrecord hrun hnone hpos
    exact ⟨hready,hlogs.trans hassign⟩
  · obtain ⟨hready,hput⟩ := ready_requeueOrFail hb hround.toBusy hrecord
      "partial_dispatch_failure"
    exact ⟨hready,hlogs.trans hput⟩

/-- Popping takes the job in hand, unless it is over. -/
theorem popNextJob_walk (h : s.Ready) (ho : s.jobSide.Orderly) :
    Logs Commit.Good s (s.popNextJob cfg).1 ∧
      ((∀ job, s.nextJob cfg = some job → job.status.terminal) → (s.popNextJob cfg).1.Ready) ∧
      ∀ job, s.nextJob cfg = some job → ¬job.status.terminal →
        (s.popNextJob cfg).1.Round job.id := by
  have hnext := nextJob_sqlite cfg hb (s := s)
  cases hq : s.memory.queue with
  | nil =>
    have hpop : (s.popNextJob cfg).1 = s := by
      rw [popNextJob, hb]
      dsimp only
      rw [popNextJobSqlite, hq]
    rw [hpop]
    refine ⟨.refl s,fun _ => h,fun job hjob => ?_⟩
    rw [hnext, hq] at hjob
    exact absurd hjob (by simp)
  | cons id rest =>
    rw [hq] at hnext
    have hnext' : s.nextJob cfg = s.job? id := hnext
    set t := (s.setQueue rest).holding (s.inHand id) with ht
    have hpop : (s.popNextJob cfg).1 = t.persistQueueSqlite := by
      rw [popNextJob, hb]
      dsimp only
      rw [popNextJobSqlite, hq]
      rfl
    rw [hpop]
    have hnodup : (id :: rest).Nodup := hq ▸ ho.nodup
    have hhand : t.persistQueueSqlite.hand = s.inHand id := rfl
    have hplaced : ∀ k, k ≠ id → t.persistQueueSqlite.db.Places k := by
      intro k hk
      refine (h.placed k).of_same rfl fun hin => ?_
      have hmem := h.durable k hin
      rw [hq] at hmem
      exact (List.mem_cons.mp hmem).resolve_left hk
    have hover : (∀ job, s.nextJob cfg = some job → job.status.terminal) →
        t.persistQueueSqlite.Ready := by
      intro hterm
      have hnone : s.inHand id = none := by
        unfold inHand
        cases hj : s.job? id with
        | none => rfl
        | some job => exact if_pos (hterm job (hnext'.trans hj))
      have hbusy : t.persistQueueSqlite.Busy id :=
        ⟨.inl (hhand.trans hnone),fun k hk => hk,hplaced⟩
      refine hbusy.ready (hhand.trans hnone) fun job hrow => .inl ?_
      have hrow' : s.db.jobs.get? id = some (JobSide.row job) := hrow
      rw [show s.db.jobs.get? id = (s.job? id).map JobSide.row from ho.synced id] at hrow'
      exact hterm job (hnext'.trans (row_injective JobRecord.ofJson_modelDump hrow'))
    have hround : ∀ job, s.nextJob cfg = some job → ¬job.status.terminal →
        t.persistQueueSqlite.Round job.id := by
      intro job hjob hterm
      have hj : s.job? id = some job := hnext'.symm.trans hjob
      obtain rfl : job.id = id := Table.key_of_get? hj
      have hsome : s.inHand job.id = some job.id := by
        unfold inHand
        rw [hj]
        exact if_neg hterm
      refine ⟨⟨.inr (hhand.trans hsome),fun k hk => hk,hplaced⟩,.inl (hhand.trans hsome),
        fun _ hin => ?_⟩
      exact (List.nodup_cons.mp hnodup).1 hin
    refine ⟨(Logs.of_eq rfl : Logs Commit.Good s t).commit _ ?_,hover,hround⟩
    by_cases hterm : ∀ job, s.nextJob cfg = some job → job.status.terminal
    · exact (hover hterm).good
    · rw [not_forall] at hterm
      obtain ⟨job,hterm⟩ := hterm
      rw [Classical.not_imp] at hterm
      exact (hround job hterm.1 hterm.2).good

theorem ready_scheduleOnce (h : s.Ready) (ho : s.jobSide.Orderly) (env : Surroundings) :
    (s.scheduleOnce cfg env).Ready ∧ Logs Commit.Good s (s.scheduleOnce cfg env) := by
  rw [scheduleOnce_eq]
  by_cases hlead : env.leader = true
  · rw [if_pos hlead]
    obtain ⟨hlogs,hover,hround⟩ := popNextJob_walk hb h ho
    cases hn : s.nextJob cfg with
    | none => exact ⟨hover fun job hjob => absurd (hn.symm.trans hjob) (by simp),hlogs⟩
    | some job =>
      by_cases hterm : job.status.terminal
      · have hready := hover fun job' hjob' =>
          (Option.some.inj (hn.symm.trans hjob')) ▸ hterm
        dsimp only
        rw [placeJob, if_pos hterm]
        exact ⟨hready,hlogs⟩
      · have hjob : (s.popNextJob cfg).1.job? job.id = some job := by
          rw [job?_popNextJob, hn]
          exact if_pos rfl
        obtain ⟨hready,hplace⟩ := ready_placeJob hb (hround job hn hterm) hjob hterm env
        exact ⟨hready,hlogs.trans hplace⟩
  · rw [if_neg hlead]
    exact ⟨h,.refl s⟩

/-! ### All operations -/

/-- A submission holds the job in hand until the queue is durable. -/
theorem ready_enqueueJob (h : s.Ready) (job : JobRecord) :
    (s.enqueueJob cfg job).Ready ∧ Logs Commit.Good s (s.enqueueJob cfg job) := by
  set t := (((s.putJob job).act (.submitted job.id job.reportToFederation)).appendQueue
    job.id).takeInHand job.id with ht
  have hlive : t.job? job.id = some job := by
    have hjobs : t.memory.jobs = s.memory.jobs.put job := by
      rw [ht]; unfold appendQueue; split <;> rfl
    rw [job?, hjobs, Table.get?_put]
    exact if_pos rfl
  have hdb : t.db = s.db := by
    rw [ht]; unfold appendQueue; split <;> rfl
  have hcommits : t.commits = s.commits := by
    rw [ht]; unfold appendQueue; split <;> rfl
  have hhand : t.hand = if job.id ∈ s.db.queue then none else some job.id := by
    rw [ht]; unfold appendQueue; split <;> rfl
  have hqueue : t.memory.queue =
      if job.id ∈ s.memory.queue then s.memory.queue else s.memory.queue ++ [job.id] :=
    appendQueue_queue _ _
  have hin : job.id ∈ t.memory.queue := by
    rw [hqueue]
    split_ifs with hmem
    · exact hmem
    · simp
  have hbusy : t.Busy job.id := by
    refine ⟨?_,fun k hk => ?_,fun k _ => hdb ▸ h.placed k⟩
    · rw [hhand]
      split_ifs
      · exact .inl rfl
      · exact .inr rfl
    · rw [hdb] at hk
      rw [hqueue]
      split_ifs
      · exact h.durable k hk
      · exact List.mem_append_left _ (h.durable k hk)
  have hsaved := hbusy.saveJob hlive
  have hgood : (t.saveJob job.id).here.Good := hbusy.good_saveJob hlive (by rw [hdb, hhand])
  have hwrite : s.enqueueJob cfg job = ((t.saveJob job.id).holding none).persistQueueSqlite := by
    rw [enqueueJob, writeQueue, hb]
  have hmem : (t.saveJob job.id).memory = t.memory := saveJob_memory t job.id
  have hready : ((t.saveJob job.id).holding none).persistQueueSqlite.Ready := by
    refine ⟨rfl,fun k hk => hk,fun k => ?_⟩
    by_cases hk : k = job.id
    · intro _ _
      refine .inr (.inl ?_)
      change k ∈ (t.saveJob job.id).memory.queue
      rw [hmem, hk]
      exact hin
    · exact (hsaved.placed k hk).of_same rfl (hsaved.durable k)
  rw [hwrite]
  exact ⟨hready,((Logs.of_eq hcommits).trans (logs_saveJob hlive hgood)).trans
    ((Logs.of_eq rfl).trans ((Logs.refl ((t.saveJob job.id).holding none)).commit _ hready.good))⟩

theorem ready_recordResult (h : s.Ready) (node : NodeId) (hjob : s.job? job.id = some job)
    (payload : Json.Object) :
    (s.recordResult cfg node job payload).Ready ∧
      Logs Commit.Good s (s.recordResult cfg node job payload) := by
  have hfin : ((s.modifyJob job.id (withResult payload)).markFinished job.id
      (reportsOk payload)).Ready ∧ Logs Commit.Good s
      ((s.modifyJob job.id (withResult payload)).markFinished job.id (reportsOk payload)) := by
    set message := "job finished status=" ++ StrEnum.value (verdict (reportsOk payload))
    set t := (((s.modifyJob job.id (withResult payload)).modifyJob job.id (ended s.now (verdict
      (reportsOk payload)))).act (.finished job.id (reportsOk payload))).modifyJob job.id
      (logged s.now message) with ht
    have hlive : t.job? job.id = some (logged s.now message (ended s.now (verdict
        (reportsOk payload)) (withResult payload job))) := by
      refine job?_logged (s := ((s.modifyJob job.id (withResult payload)).modifyJob job.id
        (ended s.now (verdict (reportsOk payload)))).act (.finished job.id (reportsOk payload)))
        _ (fun _ => rfl) ?_
      refine job?_logged (s := s.modifyJob job.id (withResult payload)) (ended s.now (verdict
        (reportsOk payload))) (fun _ => rfl) ?_
      exact job?_logged (withResult payload) (fun _ => rfl) hjob
    have hbusy : t.Busy job.id := ⟨.inl h.hand,h.durable,fun k _ => h.placed k⟩
    have hterm : (verdict (reportsOk payload)).terminal := by
      cases reportsOk payload
      · exact .inr rfl
      · exact .inl rfl
    exact hbusy.ready_saveJob h.hand hlive (.inl hterm) rfl
  unfold recordResult
  dsimp only
  set t := (s.modifyJob job.id (withResult payload)).markFinished job.id (reportsOk payload)
  have hquiet : Quiet t (((job.assignedNodes.foldl (releaseNode job.id)
      (t.creditNode cfg node (reportsOk payload))).emit "info" "job_finished"
      [("job_id",.str job.id),("status",.str (StrEnum.value (verdict (reportsOk payload)))),
        ("node_id",.str node)]).maybeReportGlobalCompletion cfg job.id) := by
    apply Quiet.maybeReport
    apply Quiet.emit
    apply Quiet.releaseAll
    exact (Quiet.refl t).touchNode node _
  obtain ⟨hready,hlogs⟩ := hfin.1.quiet hquiet
  split_ifs with hok
  · exact ⟨hready,hfin.2.trans hlogs⟩
  · set u := ((job.assignedNodes.foldl (releaseNode job.id)
      (t.creditNode cfg node (reportsOk payload))).emit "info" "job_finished"
      [("job_id",.str job.id),("status",.str (StrEnum.value (verdict (reportsOk payload)))),
        ("node_id",.str node)]) with hu
    have hjobs : u.jobSide = t.jobSide := releaseNodes_jobSide _ _ _ _ _ _ _
    have hlive : (u.maybeReportGlobalCompletion cfg job.id).job? job.id = t.job? job.id := by
      rw [job?, maybeReport_memory]
      exact congrArg (fun v : JobSide => v.jobs.get? job.id) hjobs
    obtain ⟨hend,hput⟩ := ready_requeueOrFail hb (hready.busy job.id)
      (hlive.trans (job?_markFinished s hjob payload (reportsOk payload))) "node_reported_failure"
    exact ⟨hend,(hfin.2.trans hlogs).trans hput⟩

theorem ready_requeueJobs (h : s.Ready) (ids : List JobId) :
    (s.requeueJobs cfg ids).Ready ∧ Logs Commit.Good s (s.requeueJobs cfg ids) := by
  induction ids generalizing s with
  | nil => exact ⟨h,.refl s⟩
  | cons id ids ih =>
    unfold requeueJobs
    cases hid : s.job? id with
    | none => exact ih h
    | some record =>
      obtain ⟨hput,hlogs⟩ := ready_requeueOrFail hb (h.busy id) hid "node_dead_recovery"
      obtain ⟨hready,hemit⟩ := hput.quiet ((Quiet.refl _).emit "warning" "job_requeued"
        [("job_id",.str id)])
      obtain ⟨hend,hrest⟩ := ih hready
      exact ⟨hend,(hlogs.trans hemit).trans hrest⟩

theorem ready_checkNodes (h : s.Ready) (now deadAfterSec : ℚ) (nodes : List NodeState) :
    (s.checkNodes cfg now deadAfterSec nodes).Ready ∧
      Logs Commit.Good s (s.checkNodes cfg now deadAfterSec nodes) := by
  induction nodes generalizing s with
  | nil => exact ⟨h,.refl s⟩
  | cons node nodes ih =>
    unfold checkNodes
    split_ifs
    · have hquiet : Quiet s (((s.modifyNode node.nodeId unwell).emit "error" "node_dead"
          [("node_id",.str node.nodeId),("last_seen",.float node.lastSeen)]).removeNode
          node.nodeId) := by
        apply Quiet.removeNode
        apply Quiet.emit
        exact (Quiet.refl s).inMemory rfl rfl rfl rfl
      obtain ⟨hgone,hlogs⟩ := h.quiet hquiet
      obtain ⟨hready,hput⟩ := ready_requeueJobs hb hgone node.runningJobs
      obtain ⟨hend,hrest⟩ := ih hready
      exact ⟨hend,(hlogs.trans hput).trans hrest⟩
    · exact ih h

/-- Every operation starts and ends with all saved jobs in their places, and each of its
commits is a good one. -/
theorem ready_exec (h : s.Ready) (ho : s.jobSide.Orderly) (op : Op) :
    (s.exec cfg op).Ready ∧ Logs Commit.Good s (s.exec cfg op) := by
  have hthen : ∀ {t : State} (env : Surroundings), t.Ready ∧ Logs Commit.Good s t →
      t.jobSide.Orderly →
      (t.scheduleOnce cfg env).Ready ∧ Logs Commit.Good s (t.scheduleOnce cfg env) := by
    rintro t env ⟨ht,hlogs⟩ hot
    obtain ⟨hend,hrest⟩ := ready_scheduleOnce hb ht hot env
    exact ⟨hend,hlogs.trans hrest⟩
  have hquiet : ∀ {t : State}, Quiet s t → t.Ready ∧ Logs Commit.Good s t := fun hq => h.quiet hq
  unfold exec perform
  cases op with
  | clock now => exact hquiet ((Quiet.refl s).inMemory rfl rfl rfl rfl)
  | registerNode payload => exact hquiet ((Quiet.refl s).registerNode payload)
  | submitJob payload env =>
    obtain ⟨hready,hlogs⟩ := ready_enqueueJob hb h (buildJobRecord s.now payload)
    obtain ⟨hready',hemit⟩ := hready.quiet ((Quiet.refl _).emit "info" "job_submitted"
      [("job_id",.str payload.id),("type",.str (StrEnum.value payload.type))])
    exact hthen env ⟨hready',hlogs.trans hemit⟩ (orderly_acceptJob cfg ho payload)
  | inboundJob payload origin env =>
    dsimp only
    unfold inboundJob
    cases s.job? payload.id with
    | some job => exact ⟨h,.refl s⟩
    | none =>
      exact hthen env (ready_enqueueJob hb h _) (orderly_acceptInbound cfg ho payload origin)
  | scheduleOnce env => exact hthen env ⟨h,.refl s⟩ ho
  | jobResult node id payload env =>
    dsimp only
    unfold jobResult
    cases hid : s.job? id with
    | none => exact ⟨h,.refl s⟩
    | some record =>
      have hrecord : s.job? record.id = some record := by
        rw [show record.id = id from Table.key_of_get? hid, hid]
      exact hthen env (ready_recordResult hb h node hrecord payload)
        (orderly_recordResult cfg ho node hrecord payload)
  | heartbeat node payload => exact hquiet ((Quiet.refl s).heartbeat cfg node payload)
  | checkNodesOnce deadAfterSec => exact ready_checkNodes hb h _ _ _
  | executionEnds node id => exact hquiet ((Quiet.refl s).inMemory rfl rfl rfl rfl)

end

end State
end Arsonist.ControlPlane
