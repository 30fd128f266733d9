import Arsonist.ControlPlane.Ledger

/-! What `_restore_sqlite` makes of the database. Every row that the control plane writes is
a serialised record, so a restart decodes all of them, whichever commit was the last one. -/
namespace Arsonist.ControlPlane
open Arsonist.Library Arsonist.Shared

/-- Every row is a serialised record under its own key. -/
structure Database.Sound (db : Database) : Prop where
  nodes : ∀ k r, db.nodes.get? k = some r → ∃ node, r = NodeSide.row node
  jobs : ∀ k r, db.jobs.get? k = some r → ∃ job, r = JobSide.row job
  events : ∃ es : List EventRecord, db.events = es.map EventRecord.modelDump

/-! ### Restoring a sound database -/

/-- A list of written values is read back as it was. -/
theorem mapM_decode {α β : Type} (encode : α → β) (decode : β → Option α)
    (h : ∀ a, decode (encode a) = some a) (as : List α) :
    (as.map encode).mapM decode = some as := by
  induction as with
  | nil => rfl
  | cons a as ih => simp [h, ih]

/-- What decodes is what was written. -/
lemma row_injective {α : Type} {row : α → Row} {decode : Json.Object → Option α}
    (h : ∀ a, decode (row a).payload = some a) {o p : Option α} (he : o.map row = p.map row) :
    o = p := by
  have hback : ∀ o : Option α, ((o.map row).bind fun r => decode r.payload) = o := by
    intro o
    cases o <;> simp [h]
  rw [← hback o, he, hback]

/-- A table of rows, read in any order, is restored to the table of their records. -/
theorem restore_table {α : Type} [Keyed α String] (decode : Json.Object → Option α)
    (row : α → Row) (hdecode : ∀ a, decode (row a).payload = some a)
    (hkey : ∀ a, (row a).key = Keyed.key a) (rows : Table Row)
    (hrows : ∀ k r, rows.get? k = some r → ∃ a, r = row a) {l : List Row}
    (hl : l.Perm rows.entries) :
    ∃ as, l.mapM (fun r => decode r.payload) = some as ∧
      ∀ k, rows.get? k = ((as.foldl Table.put (.empty : Table α)).get? k).map row := by
  obtain ⟨as,has⟩ : ∃ as : List α, as.map row = l := by
    have hmem : l ∈ Set.range (List.map row) := by
      rw [Set.range_list_map]
      intro r hr
      obtain ⟨a,ha⟩ := hrows _ r (Table.get?_of_mem (hl.mem_iff.mp hr))
      exact ⟨a,ha.symm⟩
    exact hmem
  have hkeys : as.map Keyed.key = l.map Keyed.key := by
    rw [← has, List.map_map]
    exact List.map_congr_left fun a _ => (hkey a).symm
  have hnodup : (as.map Keyed.key).Nodup := by
    rw [hkeys, (hl.map Keyed.key).nodup_iff]
    exact rows.nodup
  refine ⟨as,?_,fun k => ?_⟩
  · rw [← has]
    exact mapM_decode row (fun r => decode r.payload) hdecode as
  have hfind : l.find? (fun r => Keyed.key r = k) = rows.get? k := by
    rw [@Table.find?_of_mem_iff _ _ _ _ rows (fun _ => true) l fun r => ?_]
    · cases rows.get? k <;> rfl
    · rw [hl.mem_iff, Table.mem_iff_get?, and_iff_left rfl]
  rw [Table.get?_foldl_put as hnodup, Table.get?_empty, Option.or_none, ← hfind, ← has,
    List.find?_map]
  congr 2
  funext a
  exact congrArg (fun key => decide (key = k)) (hkey a)

/-- A restart from a sound database finds exactly what is saved. -/
theorem restoreSqlite_of_sound {db : Database} (h : db.Sound) :
    ∃ m, restoreSqlite db = some m ∧ m.queue = db.queue ∧
      (∀ k, db.jobs.get? k = (m.jobs.get? k).map JobSide.row) ∧
      ∀ k, db.nodes.get? k = (m.nodes.get? k).map NodeSide.row := by
  obtain ⟨nodes,hn,hnodes⟩ := restore_table NodeState.ofJson NodeSide.row
    NodeState.ofJson_modelDump (fun _ => rfl) db.nodes h.nodes (.refl _)
  obtain ⟨jobs,hj,hjobs⟩ := restore_table JobRecord.ofJson JobSide.row
    JobRecord.ofJson_modelDump (fun _ => rfl) db.jobs h.jobs (.refl _)
  obtain ⟨es,hes⟩ := h.events
  have he : db.events.mapM EventRecord.ofJson = some es := by
    rw [hes]
    exact mapM_decode _ _ EventRecord.ofJson_modelDump es
  let m : ClusterMemory :=
    { nodes := nodes.foldl Table.put .empty, jobs := jobs.foldl Table.put .empty
      queue := db.queue, events := es }
  refine ⟨m,?_,rfl,hjobs,hnodes⟩
  rw [restoreSqlite, hn, hj, he]
  rfl

/-! ### All commits are sound -/

/-- The database of a state and the commits that led to it. -/
structure Journal where
  db : Database
  commits : List Commit

/-- From `u` to `v` the database is only changed by commits, and each leaves it sound. -/
structure Writes (u v : Journal) : Prop where
  db : u.db.Sound → v.db.Sound
  commits : u.db.Sound → ∃ new, v.commits = u.commits ++ new ∧ ∀ c ∈ new, c.db.Sound

namespace Writes
variable {u v w : Journal}

theorem refl (u : Journal) : Writes u u := ⟨fun h => h,fun _ => ⟨[],by simp,by simp⟩⟩

theorem trans (huv : Writes u v) (hvw : Writes v w) : Writes u w where
  db h := hvw.db (huv.db h)
  commits h := by
    obtain ⟨as,has,hsound⟩ := huv.commits h
    obtain ⟨bs,hbs,hsound'⟩ := hvw.commits (huv.db h)
    refine ⟨as ++ bs,by rw [hbs, has, List.append_assoc],?_⟩
    intro c hc
    obtain hc | hc := List.mem_append.mp hc
    · exact hsound c hc
    · exact hsound' c hc

end Writes

def State.journal (s : State) : Journal := ⟨s.db,s.commits⟩

/-! Each operation may follow what has been written soundly. -/

namespace Writes
variable {u : Journal} {t : State} (h : Writes u t.journal)
include h

theorem commit (f : Database → Database) (hf : ∀ db : Database, db.Sound → (f db).Sound) :
    Writes u (t.commit f).journal :=
  h.trans ⟨hf t.db,fun hs => ⟨[⟨f t.db,t.hand⟩],rfl,fun c hc => by
    rw [List.mem_singleton.mp hc]
    exact hf t.db hs⟩⟩

theorem emit (l e : String) (d : Json.Object) : Writes u (t.emit l e d).journal := by
  refine h.commit (fun db => { db with events := db.events ++ [(⟨t.now,l,e,d⟩ : EventRecord).modelDump] })
    fun db hs => ⟨hs.nodes,hs.jobs,?_⟩
  obtain ⟨es,hes⟩ := hs.events
  exact ⟨es ++ [⟨t.now,l,e,d⟩],by simp [hes]⟩

theorem saveJob (id : JobId) : Writes u (t.saveJob id).journal := by
  unfold State.saveJob
  split
  · exact h
  · next job _ =>
    refine h.commit _ fun db hs => ⟨hs.nodes,?_,hs.events⟩
    intro k r hr
    rw [Table.get?_replace] at hr
    split_ifs at hr
    · exact ⟨job,(Option.some.inj hr).symm⟩
    · exact hs.jobs k r hr

theorem persistNode (id : NodeId) : Writes u (t.persistNode id).journal := by
  unfold State.persistNode
  split
  · exact h
  · next node _ =>
    refine h.commit _ fun db hs => ⟨?_,hs.jobs,hs.events⟩
    intro k r hr
    rw [Table.get?_replace] at hr
    split_ifs at hr
    · exact ⟨node,(Option.some.inj hr).symm⟩
    · exact hs.nodes k r hr

/-- A commit of the queue, the secrets or the registry. -/
theorem aside (f : Database → Database) (nodes : ∀ db, (f db).nodes = db.nodes)
    (jobs : ∀ db, (f db).jobs = db.jobs) (events : ∀ db, (f db).events = db.events) :
    Writes u (t.commit f).journal := by
  refine h.commit f fun db hs => ⟨?_,?_,?_⟩
  · rw [nodes]; exact hs.nodes
  · rw [jobs]; exact hs.jobs
  · rw [events]; exact hs.events

theorem persistQueueSqlite : Writes u t.persistQueueSqlite.journal :=
  h.aside (fun db => { db with queue := t.memory.queue }) (fun _ => rfl) (fun _ => rfl) fun _ => rfl

theorem persistQueue (cfg : Config) : Writes u (t.persistQueue cfg).journal := by
  unfold State.persistQueue
  split
  · exact h.persistQueueSqlite
  · exact h

theorem writeQueue (cfg : Config) (id : JobId) : Writes u (t.writeQueue cfg id).journal := by
  unfold State.writeQueue
  split
  · exact h.persistQueueSqlite
  · exact h.aside _ (fun _ => rfl) (fun _ => rfl) fun _ => rfl

theorem appendQueue (id : JobId) : Writes u (t.appendQueue id).journal := by
  unfold State.appendQueue
  split <;> exact h

theorem enqueueJob (cfg : Config) (job : JobRecord) :
    Writes u (t.enqueueJob cfg job).journal := by
  unfold State.enqueueJob
  apply Writes.writeQueue
  apply Writes.saveJob (t := State.takeInHand _ _)
  apply Writes.appendQueue
  exact h

theorem popNextJob (cfg : Config) : Writes u (t.popNextJob cfg).1.journal := by
  unfold State.popNextJob
  split
  · unfold State.popNextJobSqlite
    split
    · exact h
    · apply Writes.persistQueueSqlite
      exact h
  · unfold State.popNextJobPg
    split
    · exact h
    · next id rest _ =>
      have hpop := aside (t := t.holding (t.inHand id)) h (fun db => { db with queue := rest })
        (fun _ => rfl) (fun _ => rfl) fun _ => rfl
      dsimp only
      split_ifs
      · exact hpop
      · split
        · exact hpop
        · split <;> exact hpop

theorem addNode (node : NodeState) : Writes u (t.addNode node).journal := by
  unfold State.addNode
  apply Writes.emit
  apply Writes.persistNode
  exact h

theorem touchNode (id : NodeId) (f : NodeState → NodeState) :
    Writes u (t.touchNode id f).journal := by
  unfold State.touchNode State.refreshNode
  split
  · apply Writes.addNode
    exact h
  · exact h

theorem removeNode (id : NodeId) : Writes u (t.removeNode id).journal := by
  have hdrop : Writes u ((t.dropNode id).commit fun db =>
      { db with nodes := db.nodes.erase id }).journal := by
    refine commit (t := t.dropNode id) h _ fun db hs => ⟨?_,hs.jobs,hs.events⟩
    intro k r hr
    rw [Table.get?_erase] at hr
    split_ifs at hr
    exact hs.nodes k r hr
  unfold State.removeNode
  dsimp only
  split
  · exact hdrop.emit _ _ _
  · exact hdrop

theorem logJob (id : JobId) (m : String) : Writes u (t.logJob id m).journal := by
  unfold State.logJob
  apply Writes.saveJob
  exact h

theorem requeueOrFail (cfg : Config) (id : JobId) (reason : String) :
    Writes u (t.requeueOrFail cfg id reason).journal := by
  unfold State.requeueOrFail
  split
  · exact h
  · dsimp only
    split_ifs
    · apply Writes.logJob
      exact h
    · apply Writes.writeQueue
      apply Writes.appendQueue
      apply Writes.logJob
      exact h

theorem registerNode (payload : NodeRegistration) :
    Writes u (t.registerNode payload).journal := by
  unfold State.registerNode
  dsimp only
  split_ifs
  · exact h.addNode _
  · exact (h.addNode _).aside _ (fun _ => rfl) (fun _ => rfl) fun _ => rfl

theorem dispatchJob (node : NodeId) (job : JobId) (reply : Reply) :
    Writes u (t.dispatchJob node job reply).journal := by
  have hsend : Writes u (t.sendJob node job reply).journal := by
    unfold State.sendJob
    dsimp only
    split <;> exact h
  have hnote : ∀ l, Writes u ((t.sendJob node job reply).noteAnswer node job l).journal := by
    intro l
    unfold State.noteAnswer
    apply Writes.emit
    apply Writes.touchNode
    exact hsend
  unfold State.dispatchJob
  cases reply with
  | accepted l => exact hnote l
  | unreadable b l e => exact (hnote l).emit _ _ _
  | failed b e => exact hsend.emit _ _ _

theorem requeueJobs (cfg : Config) (ids : List JobId) :
    Writes u (t.requeueJobs cfg ids).journal := by
  induction ids generalizing t with
  | nil => exact h
  | cons id ids ih =>
    unfold State.requeueJobs
    split
    · exact ih h
    · apply ih
      apply Writes.emit
      exact h.requeueOrFail cfg id _

theorem checkNodes (cfg : Config) (now deadAfterSec : ℚ) (nodes : List NodeState) :
    Writes u (t.checkNodes cfg now deadAfterSec nodes).journal := by
  induction nodes generalizing t with
  | nil => exact h
  | cons node nodes ih =>
    unfold State.checkNodes
    split_ifs
    · apply ih
      unfold State.buryNode
      apply Writes.requeueJobs
      apply Writes.removeNode
      apply Writes.emit
      exact h
    · exact ih h

theorem dispatchAll (job : JobId) (reply : NodeId → Reply) (nodes : List NodeId) :
    Writes u (t.dispatchAll job reply nodes).1.journal := by
  induction nodes generalizing t with
  | nil => exact h
  | cons node nodes ih =>
    unfold State.dispatchAll
    dsimp only
    split_ifs
    · exact ih (h.dispatchJob _ _ _)
    · exact ih ((h.dispatchJob _ _ _).logJob _ _)

theorem placeJob (cfg : Config) (env : Surroundings) (job : JobRecord) :
    Writes u (t.placeJob cfg env job).journal := by
  unfold State.placeJob
  dsimp only
  split_ifs
  · exact h
  · apply Writes.logJob
    exact h
  · exact (h.requeueOrFail cfg _ _).emit _ _ _
  · apply Writes.persistQueue
    apply Writes.saveJob
    apply Writes.dispatchAll
    apply Writes.logJob
    exact h
  · apply Writes.requeueOrFail
    apply Writes.dispatchAll
    apply Writes.logJob
    exact h

theorem scheduleOnce (cfg : Config) (env : Surroundings) :
    Writes u (t.scheduleOnce cfg env).journal := by
  rw [State.scheduleOnce_eq]
  split
  · split
    · exact h.popNextJob cfg
    · exact (h.popNextJob cfg).placeJob cfg env _
  · exact h

theorem releaseAll (job : JobId) (nodes : List NodeId) :
    Writes u (nodes.foldl (State.releaseNode job) t).journal := by
  induction nodes generalizing t with
  | nil => exact h
  | cons node nodes ih => exact ih (h.touchNode node _)

theorem recordResult (cfg : Config) (node : NodeId) (job : JobRecord) (payload : Json.Object) :
    Writes u (t.recordResult cfg node job payload).journal := by
  have hreport : ∀ {s : State}, Writes u s.journal →
      Writes u (s.maybeReportGlobalCompletion cfg job.id).journal := by
    intro s hs
    unfold State.maybeReportGlobalCompletion
    split <;> exact hs
  have hdone : ∀ {s : State}, Writes u s.journal → Writes u ((job.assignedNodes.foldl
      (State.releaseNode job.id) (s.creditNode cfg node (State.reportsOk payload))).emit "info"
      "job_finished" [("job_id",.str job.id),("status",.str (StrEnum.value
        (verdict (State.reportsOk payload)))),("node_id",.str node)]).journal := by
    intro s hs
    apply Writes.emit
    apply Writes.releaseAll
    exact hs.touchNode _ _
  have hfin : Writes u ((t.modifyJob job.id (withResult payload)).markFinished job.id
      (State.reportsOk payload)).journal := by
    apply Writes.logJob
    exact h
  unfold State.recordResult
  dsimp only
  split_ifs
  · exact hreport (hdone hfin)
  · exact (hreport (hdone hfin)).requeueOrFail cfg _ _

theorem noteHeartbeat (cfg : Config) (id : NodeId) :
    Writes u (t.noteHeartbeat cfg id).journal := by
  unfold State.noteHeartbeat
  dsimp only
  split
  · exact h.touchNode _ _
  · exact (h.touchNode _ _).aside _ (fun _ => rfl) (fun _ => rfl) fun _ => rfl

theorem heartbeat (cfg : Config) (id : NodeId) (payload : HeartbeatPayload) :
    Writes u (t.heartbeat cfg id payload).1.journal := by
  unfold State.heartbeat
  cases t.node? id with
  | none => exact h
  | some node =>
    dsimp only
    cases payload.currentLoad.resolve node.currentLoad with
    | none => exact h
    | some load =>
      dsimp only
      cases payload.queueSize.resolve ((payload.runningJobs.getD node.runningJobs).length : ℤ) with
      | none => exact h
      | some size =>
        dsimp only
        cases payload.avgLatencyMs.resolve node.avgLatencyMs with
        | none => exact h
        | some latency =>
          apply Writes.noteHeartbeat
          exact h

/-- Every commit of every operation leaves a sound database. -/
theorem exec (cfg : Config) (op : Op) : Writes u (t.exec cfg op).journal := by
  unfold State.exec State.perform
  cases op with
  | clock now => exact h
  | registerNode payload => exact h.registerNode payload
  | submitJob payload env => exact ((h.enqueueJob cfg _).emit _ _ _).scheduleOnce cfg env
  | inboundJob payload origin env =>
    dsimp only
    unfold State.inboundJob
    split
    · exact h
    · exact (h.enqueueJob cfg _).scheduleOnce cfg env
  | scheduleOnce env => exact h.scheduleOnce cfg env
  | jobResult node id payload env =>
    dsimp only
    unfold State.jobResult
    split
    · exact h
    · exact (h.recordResult cfg node _ payload).scheduleOnce cfg env
  | heartbeat node payload => exact h.heartbeat cfg node payload
  | checkNodesOnce deadAfterSec => exact h.checkNodes cfg _ _ _
  | executionEnds node job => exact h

end Writes

theorem sound_init : ({} : State).db.Sound :=
  ⟨fun _ _ h => absurd h (by simp),fun _ _ h => absurd h (by simp),[],rfl⟩

end Arsonist.ControlPlane
