import Arsonist.ControlPlane.SavedRecords

/-! Several control planes on one PostgreSQL database. They share the queue, but each of them
keeps records of its own, which it prefers to the saved rows and which nothing brings up to
date. -/
namespace Arsonist.ControlPlane
open Arsonist.Library Arsonist.Shared

/-- The order in which the server returns the rows of a table that is read without one. -/
structure RowOrder where
  order : List Row → List Row
  perm : ∀ rows, (order rows).Perm rows

/-- `_restore_postgres` into an empty memory. -/
def restorePostgres (o : RowOrder) (db : Database) : Option ClusterMemory := do
  let nodes ← (o.order db.nodes.entries).mapM (fun row => NodeState.ofJson row.payload)
  let jobs ← (o.order db.jobs.entries).mapM (fun row => JobRecord.ofJson row.payload)
  let events ← db.events.mapM EventRecord.ofJson
  some {
    nodes := nodes.foldl Table.put .empty
    jobs := jobs.foldl Table.put .empty
    queue := db.queue
    events := events }

/-- Whatever the order, a replica that starts finds the jobs that are saved. -/
theorem restorePostgres_of_sound (o : RowOrder) {db : Database} (h : db.Sound) :
    ∃ m, restorePostgres o db = some m ∧
      ∀ k, db.jobs.get? k = (m.jobs.get? k).map JobSide.row := by
  obtain ⟨nodes,hn,-⟩ := restore_table NodeState.ofJson NodeSide.row
    NodeState.ofJson_modelDump (fun _ => rfl) db.nodes h.nodes (o.perm _)
  obtain ⟨jobs,hj,hjobs⟩ := restore_table JobRecord.ofJson JobSide.row
    JobRecord.ofJson_modelDump (fun _ => rfl) db.jobs h.jobs (o.perm _)
  obtain ⟨es,hes⟩ := h.events
  have he : db.events.mapM EventRecord.ofJson = some es := by
    rw [hes]
    exact mapM_decode _ _ EventRecord.ofJson_modelDump es
  let m : ClusterMemory :=
    { nodes := nodes.foldl Table.put .empty, jobs := jobs.foldl Table.put .empty
      queue := db.queue, events := es }
  refine ⟨m,?_,hjobs⟩
  rw [restorePostgres, hn, hj, he]
  rfl

/-- The shared database, the clock, the executions on the nodes, and the memory of each replica.
The history is who has done what to the jobs; no operation reads it. -/
structure Replicas (ρ : Type) where
  db : Database := {}
  now : ℚ := 0
  executing : List (NodeId × JobId) := []
  memories : ρ → ClusterMemory := fun _ => {}
  history : List (ρ × Action) := []

/-- A replica performs an operation, or its process starts. -/
inductive ReplicaEvent (ρ : Type)
  | op (r : ρ) (op : Op)
  | start (r : ρ) (order : RowOrder)

/-! ### What the history tells -/

section
variable {ρ : Type} (k : JobId)

def startsAfter (n : ℕ) : Action → ℕ
  | .submitted j _ => if j = k then 0 else n
  | .started j => if j = k then n+1 else n
  | _ => n

/-- How often the job has been marked running since it was last submitted. -/
def starts (h : List (ρ × Action)) : ℕ := h.foldl (fun n e => startsAfter k n e.2) 0

def completersAfter (rs : List ρ) : ρ × Action → List ρ
  | (_,.submitted j _) => if j = k then [] else rs
  | (r,.finished j true) => if j = k then r :: rs else rs
  | _ => rs

/-- Who has saved the job as completed since it was last submitted. -/
def completers (h : List (ρ × Action)) : List ρ := h.foldl (completersAfter k) []

variable {k} {p : Option Phase}

/-- A proper action counts as a start exactly when it uses up an attempt. -/
theorem startsAfter_eq {a : Action} (h : a.job = k → a.Proper p) :
    startsAfter k ((p.map Phase.attempts).getD 0) a =
      ((a.apply k p).map Phase.attempts).getD 0 := by
  by_cases hk : a.job = k
  · rw [Action.apply, if_pos hk]
    cases a with
    | submitted j fed => exact if_pos hk
    | started j =>
      obtain ⟨c,rfl,-⟩ := (h hk).start j rfl
      exact if_pos hk
    | _ => cases p <;> rfl
  · rw [Action.apply, if_neg hk]
    cases a with
    | submitted j fed => exact if_neg hk
    | started j => exact if_neg hk
    | _ => rfl

/-- What has been started is what the phase says. -/
theorem starts_eq {h : List (ρ × Action)} (hproper : Proper k none (h.map Prod.snd)) :
    starts k h = ((replay k none (h.map Prod.snd)).map Phase.attempts).getD 0 := by
  induction h using List.reverseRecOn with
  | nil => rfl
  | append_singleton h e ih =>
    rw [List.map_append, proper_append] at hproper
    rw [starts, List.foldl_append, List.map_append, replay_append]
    change startsAfter k (starts k h) e.2 = _
    rw [ih hproper.1]
    exact startsAfter_eq hproper.2.1

/-- Proper actions keep to the attempts that a job may use. -/
theorem attempts_of_proper {as : List Action} (hproper : Proper k p as)
    (hp : ∀ c, p = some c → c.attempts ≤ maxJobRetries) :
    ∀ c, replay k p as = some c → c.attempts ≤ maxJobRetries := by
  induction as generalizing p with
  | nil => exact hp
  | cons a as ih =>
    refine ih hproper.2 ?_
    by_cases hstart : a = .started k
    · obtain ⟨c,rfl,-,hlt⟩ := (hproper.1 (by rw [hstart]; rfl)).start k hstart
      intro d hd
      rw [hstart, Action.apply, if_pos (show (Action.started k).job = k from rfl)] at hd
      rw [← Option.some.inj hd]
      exact hlt
    · have hno : .started k ∉ [a] := by simpa using Ne.symm hstart
      exact attempts_replay hno hp

/-- A proper action leaves a completed job completed, unless it submits the job again. -/
theorem completed_of_proper {a : Action} (hproper : a.job = k → a.Proper p)
    (hsub : ∀ j fed, a ≠ .submitted j fed) (hp : ∀ c, p = some c → c.status = .completed) :
    ∀ c, a.apply k p = some c → c.status = .completed := by
  intro c hc
  by_cases hk : a.job = k
  · rw [Action.apply, if_pos hk] at hc
    cases p with
    | none =>
      cases a with
      | submitted j fed => exact absurd rfl (hsub j fed)
      | _ => cases hc
    | some d =>
      have hd := hp d rfl
      have hstatus := a.status_next d
      rw [hc, Option.map_some, hd] at hstatus
      obtain hset | hset | ⟨j,fed,he⟩ := (hproper hk).keep (congrArg some hd)
      · rw [hset] at hstatus
        exact Option.some.inj hstatus
      · rw [hset] at hstatus
        exact Option.some.inj hstatus
      · exact absurd he (hsub j fed)
  · rw [Action.apply, if_neg hk] at hc
    exact hp c hc

/-- A job that someone has completed since its submission is a completed job. -/
theorem completersAfter_completed {rs : List ρ} {e : ρ × Action}
    (hproper : e.2.job = k → e.2.Proper p)
    (h : rs ≠ [] → ∀ c, p = some c → c.status = .completed) :
    completersAfter k rs e ≠ [] → ∀ c, e.2.apply k p = some c → c.status = .completed := by
  obtain ⟨r,a⟩ := e
  intro hne
  cases a with
  | submitted j fed =>
    by_cases hj : j = k
    · rw [completersAfter, if_pos hj] at hne
      exact absurd rfl hne
    · rw [completersAfter, if_neg hj] at hne
      rw [Action.apply, if_neg (show ¬(Action.submitted j fed).job = k from hj)]
      exact h hne
  | finished j ok =>
    cases ok with
    | true =>
      by_cases hj : j = k
      · intro c hc
        rw [Action.apply, if_pos (show (Action.finished j true).job = k from hj)] at hc
        obtain ⟨d,-,rfl⟩ := Option.map_eq_some_iff.mp hc
        rfl
      · rw [completersAfter, if_neg hj] at hne
        exact completed_of_proper hproper (fun _ _ he => (by cases he)) (h hne)
    | false => exact completed_of_proper hproper (fun _ _ he => (by cases he)) (h hne)
  | _ => exact completed_of_proper hproper (fun _ _ he => (by cases he)) (h hne)

theorem completed_of_completers {h : List (ρ × Action)}
    (hproper : Proper k none (h.map Prod.snd)) :
    completers k h ≠ [] → ∀ c, replay k none (h.map Prod.snd) = some c →
      c.status = .completed := by
  induction h using List.reverseRecOn with
  | nil => exact fun hne => absurd rfl hne
  | append_singleton h e ih =>
    rw [List.map_append, proper_append] at hproper
    rw [completers, List.foldl_append, List.map_append, replay_append]
    exact completersAfter_completed hproper.2.1 (ih hproper.1)

end

namespace Replicas
variable {ρ : Type}

/-- The replicas together start no job more often than it may be tried, and none of them starts
a job that another one has saved as completed. -/
structure Coordinated (s : Replicas ρ) : Prop where
  attempts : ∀ k, starts k s.history ≤ maxJobRetries
  completed : ∀ k l r m, s.history = l ++ (r,.started k) :: m → ∀ q ∈ completers k l, q = r

variable [DecidableEq ρ] (cfg : ρ → Config) (s : Replicas ρ)

/-- A replica with its own part of the environment; `ARSONIST_DATABASE_URL` names the shared
database. -/
def configOf (r : ρ) : Config := { cfg r with backend := .postgres }

/-- The control plane of one replica. -/
def view (r : ρ) : State :=
  { memory := s.memories r, db := s.db, now := s.now, executing := s.executing }

def perform (r : ρ) (op : Op) : Replicas ρ :=
  let t := (s.view r).exec (configOf cfg r) op
  { db := t.db, now := t.now, executing := t.executing
    memories := Function.update s.memories r t.memory
    history := s.history ++ t.actions.map fun a => (r,a) }

/-- The process of a replica starts with what is saved. If a row does not decode, no new process
comes up. -/
def start (r : ρ) (o : RowOrder) : Replicas ρ :=
  match restorePostgres o s.db with
  | some memory => { s with memories := Function.update s.memories r memory }
  | none => s

def step (s : Replicas ρ) : ReplicaEvent ρ → Replicas ρ
  | .op r op => s.perform cfg r op
  | .start r o => s.start r o

/-- The state after the events. All replicas start on an empty database. -/
def reach (events : List (ReplicaEvent ρ)) : Replicas ρ := run (step cfg) {} events

/-- The records that the replica takes up from its memory agree with the saved rows on status
and attempts, and it puts no completed job back into play. -/
def UpToDate (s : Replicas ρ) : ReplicaEvent ρ → Prop
  | .op r op => (∀ k, (s.view r).Handles op k → (s.view r).jobSide.AgreesAt k) ∧
      (s.view r).RevivesNone op
  | .start _ _ => True

/-- The saved rows tell what the replicas have done, and all of it was proper. -/
structure Faithful (s : Replicas ρ) : Prop where
  sound : s.db.Sound
  saved : ∀ r k, (s.view r).jobSide.savedPhase k = replay k none (s.history.map Prod.snd)
  proper : ∀ k, Proper k none (s.history.map Prod.snd)

variable {s}

theorem Faithful.perform (h : s.Faithful) {r : ρ} {op : Op} (hup : s.UpToDate (.op r op)) :
    (s.perform cfg r op).Faithful := by
  have hsaves := State.saves_exec (configOf cfg r) (s.view r) rfl op h.sound hup.1 hup.2
  have hactions : ((s.view r).exec (configOf cfg r) op).actions =
      (s.view r).opActions (configOf cfg r) op := hsaves.actions
  have hhistory : (s.perform cfg r op).history.map Prod.snd =
      s.history.map Prod.snd ++ (s.view r).opActions (configOf cfg r) op := by
    rw [Replicas.perform]
    dsimp only
    rw [List.map_append, List.map_map, hactions]
    congr 1
    exact List.map_id _
  refine ⟨((Writes.refl (s.view r).journal).exec (configOf cfg r) op).db h.sound,?_,?_⟩
  · intro q k
    rw [hhistory, replay_append, ← h.saved r]
    exact hsaves.saved k
  · intro k
    rw [hhistory, proper_append, ← h.saved r]
    exact ⟨h.proper k,hsaves.proper k⟩

theorem Faithful.start (h : s.Faithful) (r : ρ) (o : RowOrder) : (s.start r o).Faithful := by
  unfold Replicas.start
  split
  · exact ⟨h.sound,fun q => h.saved q,h.proper⟩
  · exact h

omit [DecidableEq ρ] in
theorem Faithful.coordinated (h : s.Faithful) : s.Coordinated where
  attempts k := by
    rw [starts_eq (h.proper k)]
    have hle := attempts_of_proper (h.proper k) fun c hc => (by cases hc)
    cases hphase : replay k none (s.history.map Prod.snd) with
    | none => exact Nat.zero_le _
    | some c => exact hle c hphase
  completed k l r m hsplit q hq := by
    have hproper := h.proper k
    rw [hsplit, List.map_append, proper_append] at hproper
    obtain ⟨c,hc,hopen,-⟩ := (hproper.2.1 rfl).start k rfl
    have hcompleted := completed_of_completers hproper.1 (List.ne_nil_of_mem hq) c hc
    exact absurd (Or.inl hcompleted) hopen

/-- A replica that has just started is up to date on every job. -/
theorem current_start (h : s.Faithful) (r : ρ) (o : RowOrder) (k : JobId) :
    ((s.start r o).view r).jobSide.CurrentAt k := by
  obtain ⟨m,hm,hjobs⟩ := restorePostgres_of_sound o h.sound
  apply JobSide.SyncedAt.current
  rw [Replicas.start, hm]
  change s.db.jobs.get? k = ((Function.update s.memories r m r).jobs.get? k).map JobSide.row
  rw [Function.update_self]
  exact hjobs k

/-- In a run in which every replica is up to date on what it takes up, the replicas are
coordinated in every state. -/
theorem coordinated_of_upToDate (events : List (ReplicaEvent ρ))
    (h : Along (step cfg) UpToDate {} events) :
    ∀ p q, events = p ++ q → (reach cfg p).Coordinated := by
  intro p q hp
  rw [hp, along_append] at h
  refine Faithful.coordinated (run_invariant (fun s e hup hs => ?_) h.1 ?_)
  · cases e with
    | op r op => exact hs.perform cfg hup
    | start r o => exact hs.start r o
  · exact ⟨sound_init,fun _ _ => rfl,fun _ => trivial⟩

/-- A job waits for a node; the second replica starts, finds it and runs it to its end. -/
def handedOver : List (ReplicaEvent Bool) :=
  [.op false (.submitJob (soloJob "j") allAccept),.start true ⟨id,fun _ => .refl _⟩,
   .op true (.registerNode (cpuNode "n")),.op true (.scheduleOnce allAccept),
   .op true (.jobResult "n" "j" succeeded allAccept)]

theorem coordinated_handedOver :
    Along (step fun _ => {}) UpToDate {} handedOver ∧
      (reach (fun _ => {}) handedOver).Coordinated := by
  have hup : Along (step fun _ => {}) UpToDate {} handedOver := by
    refine ⟨⟨?_,fun _ _ h => h⟩,trivial,⟨fun k h => h.elim,fun _ _ h => h⟩,
      ⟨?_,fun _ _ h => h⟩,⟨?_,?_⟩,trivial⟩
    · rintro k ⟨-,-,hhead⟩
      cases hhead
    · rintro k ⟨-,hhead⟩
      have hj : (reach (fun _ => {}) (handedOver.take 3)).db.queue.head? = some "j" := by
        decide +kernel
      obtain rfl := Option.some.inj (hj.symm.trans hhead)
      unfold JobSide.AgreesAt JobSide.CurrentAt
      decide +kernel
    · rintro k ⟨-,rfl | ⟨-,hhead⟩⟩
      · unfold JobSide.AgreesAt JobSide.CurrentAt
        decide +kernel
      · have hnone : (reach (fun _ => {}) (handedOver.take 4)).db.queue.head? = none := by
          decide +kernel
        exact absurd (hnone.symm.trans hhead) (by simp)
    · rintro job - ⟨-,hfailed⟩
      exact absurd hfailed (by decide)
  exact ⟨hup,coordinated_of_upToDate _ handedOver hup handedOver [] (List.append_nil _).symm⟩

/-- Every node refuses the connection. -/
def allRefuse : Surroundings := { reply := fun _ => .failed false "refused" }

/-- The first replica has submitted the job. The second one starts it twice, buries the node
that runs it, and records that node's late success while it is not the leader. The first replica
takes over and finds the job in the queue. -/
def staleRecord : List (ReplicaEvent Bool) :=
  [.op false (.submitJob (soloJob "j") allAccept),.op true (.registerNode (cpuNode "n")),
   .op true (.scheduleOnce allRefuse),.op true (.scheduleOnce allAccept),.op true (.clock 1000),
   .op true (.checkNodesOnce 15),
   .op true (.jobResult "n" "j" succeeded { allAccept with leader := false }),
   .op false (.registerNode (cpuNode "m")),.op false (.scheduleOnce allRefuse),
   .op false (.scheduleOnce allAccept)]

/-- Its own record says that the job is queued and has never been started, so the first replica
starts the completed job, for a third and a fourth time. -/
theorem not_coordinated :
    ¬ ∀ (cfg : Bool → Config) (events p q : List (ReplicaEvent Bool)), events = p ++ q →
      (reach cfg p).Coordinated := by
  intro h
  have hcoordinated := h (fun _ => {}) staleRecord staleRecord [] (List.append_nil _).symm
  have hstarts : starts "j" (reach (fun _ => {}) staleRecord).history = 4 := by decide +kernel
  have hle := hcoordinated.attempts "j"
  rw [hstarts] at hle
  exact absurd hle (by decide)

example : completers "j" (reach (fun _ => {}) (staleRecord.take 8)).history = [true] := by
  decide +kernel

end Replicas
end Arsonist.ControlPlane
