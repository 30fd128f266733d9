import Arsonist.ControlPlane.Transactions

/-! Crashes. The process may stop between any two of its transactions; a new one restores the
database as the last transaction left it. A job that is in hand at that point is lost, unless
an earlier attempt has left a trace of it. -/
namespace Arsonist.ControlPlane
open Arsonist.Library Arsonist.Shared

/-- A restart finds the job, if it is saved and not over: in the queue, running on assigned
nodes, or on the list of a node. -/
def Database.Recovers (db : Database) (id : JobId) : Prop :=
  ∃ memory, restoreSqlite db = some memory ∧
    ∀ job, memory.jobs.get? id = some job → ¬job.status.terminal →
      id ∈ memory.queue ∨ (job.status = .running ∧ job.assignedNodes ≠ []) ∨
        ∃ k node, memory.nodes.get? k = some node ∧ id ∈ node.runningJobs

/-- The job is in hand, it is saved as unfinished but not as running on any nodes, and no
stored node lists it. -/
def Commit.Stranded (c : Commit) (id : JobId) : Prop :=
  c.hand = some id ∧ ¬c.db.Lists id ∧ ∃ job, c.db.jobs.get? id = some (JobSide.row job) ∧
    ¬job.status.terminal ∧ ¬(job.status = .running ∧ job.assignedNodes ≠ [])

/-- After a crash behind a good commit exactly the stranded jobs are lost. -/
theorem Commit.recovers_iff {c : Commit} (hdb : c.db.Sound) (hgood : c.Good) (id : JobId) :
    c.db.Recovers id ↔ ¬c.Stranded id := by
  obtain ⟨m,hm,hqueue,hjobs,hnodes⟩ := restoreSqlite_of_sound hdb
  have hrow : ∀ job, c.db.jobs.get? id = some (JobSide.row job) ↔ m.jobs.get? id = some job := by
    intro job
    rw [hjobs]
    constructor
    · intro h
      exact row_injective JobRecord.ofJson_modelDump h
    · intro h
      rw [h]
      rfl
  have hlists : c.db.Lists id ↔
      ∃ k node, m.nodes.get? k = some node ∧ id ∈ node.runningJobs := by
    refine exists_congr fun k => exists_congr fun node => and_congr_left fun _ => ?_
    rw [hnodes]
    constructor
    · intro h
      exact row_injective NodeState.ofJson_modelDump h
    · intro h
      rw [h]
      rfl
  constructor
  · rintro ⟨m',hm',hfind⟩ ⟨hhand,hlost,job,hjob,hterm,hrun⟩
    obtain rfl := Option.some.inj (hm.symm.trans hm')
    obtain hin | hin | hin := hfind job ((hrow job).mp hjob) hterm
    · rw [hqueue] at hin
      exact hgood.apart id hhand hin
    · exact hrun hin
    · exact hlost (hlists.mpr hin)
  · intro hnot
    refine ⟨m,hm,fun job hjob hterm => ?_⟩
    have hsaved := (hrow job).mpr hjob
    rw [hqueue, ← hlists]
    obtain hplace | hlist | hhand := hgood.found id
    · obtain hover | hin | hrun := hplace job hsaved
      · exact absurd hover hterm
      · exact .inl hin
      · exact .inr (.inl hrun)
    · exact .inr (.inr hlist)
    · by_contra hno
      rw [not_or, not_or] at hno
      exact hnot ⟨hhand,hno.2.2,job,hsaved,hterm,hno.2.1⟩

namespace State
variable (cfg : Config)

/-- Between two operations, in runs with restarts, all jobs are in their places. -/
theorem ready_run (hb : cfg.backend = .sqlite) (events : List Event) :
    (run (step cfg) {} events).Ready ∧ (run (step cfg) {} events).jobSide.Orderly ∧
      (run (step cfg) {} events).db.Sound := by
  refine run_always (I := fun s : State => s.Ready ∧ s.jobSide.Orderly ∧ s.db.Sound) ?_
    ⟨⟨rfl,fun k hk => hk,fun k job hrow => absurd hrow (by simp)⟩,JobSide.Orderly.init,
      sound_init⟩ events
  rintro s e ⟨hready,horder,hdb⟩
  cases e with
  | op op =>
    exact ⟨(ready_exec hb hready horder op).1,orderly_exec cfg hb op horder,
      ((Writes.refl s.journal).exec cfg op).db hdb⟩
  | restart =>
    have hrows : s.restart.db = s.db ∧ s.restart.hand = s.hand := by
      unfold restart
      split <;> exact ⟨rfl,rfl⟩
    refine ⟨⟨hrows.2.trans hready.hand,?_,fun k => ?_⟩,orderly_restart horder hdb,?_⟩
    · have hdurable : s.restart.db.queue = s.restart.memory.queue :=
        (orderly_restart horder hdb).durable
      intro k hk
      exact hdurable ▸ hk
    · change s.restart.db.Places k
      rw [hrows.1]
      exact hready.placed k
    · change s.restart.db.Sound
      rw [hrows.1]
      exact hdb

/-- The job has been accepted: `enqueue_job` has returned for it, before the operation that
starts in `s` or among its commits so far. -/
def Accepted (s : State) (commits : List Commit) (id : JobId) : Prop :=
  s.job? id ≠ none ∨ ∃ c ∈ commits, id ∈ c.db.queue

/-- Wherever the process stops in an operation after the events, a restart finds every
accepted job. -/
def CrashSafe (events : List Event) (op : Op) : Prop :=
  ∀ l c r, ((run (step cfg) {} events).exec cfg op).commits =
      (run (step cfg) {} events).commits ++ (l ++ c :: r) →
    ∀ id, (run (step cfg) {} events).Accepted (l ++ [c]) id → c.db.Recovers id

/-- An operation of the SQLite control plane survives a crash exactly at those points at which
no accepted job is stranded. -/
theorem crashSafe_iff (hb : cfg.backend = .sqlite) (events : List Event) (op : Op) :
    CrashSafe cfg events op ↔
      ∀ l c r, ((run (step cfg) {} events).exec cfg op).commits =
          (run (step cfg) {} events).commits ++ (l ++ c :: r) →
        ∀ id, (run (step cfg) {} events).Accepted (l ++ [c]) id → ¬c.Stranded id := by
  obtain ⟨hready,horder,hdb⟩ := ready_run cfg hb events
  set s := run (step cfg) {} events
  obtain ⟨new,hnew,hgood⟩ := (ready_exec hb hready horder op).2
  obtain ⟨new',hnew',hsound⟩ := ((Writes.refl s.journal).exec cfg op).commits hdb
  have hsame : new' = new := List.append_cancel_left (hnew'.symm.trans hnew)
  refine forall_congr' fun l => forall_congr' fun c => forall_congr' fun r => ?_
  refine imp_congr_right fun hcommits => forall_congr' fun id => imp_congr_right fun _ => ?_
  have hc : c ∈ new := by
    have hsplit : new = l ++ c :: r := List.append_cancel_left (hnew.symm.trans hcommits)
    rw [hsplit]
    simp
  exact Commit.recovers_iff (hsound c (hsame ▸ hc)) (hgood c hc) id

/-- A job is in the queue and a node is there to take it. -/
def waitingSolo : List Event :=
  [.op (.registerNode (cpuNode "a")),
   .op (.submitJob (soloJob "j") { leader := false, reply := fun _ => .accepted 5 })]

theorem crashSafe_iff_waitingSolo :
    CrashSafe {} waitingSolo (.scheduleOnce allAccept) ↔
      ∀ l c r, ((run (step {}) {} waitingSolo).exec {} (.scheduleOnce allAccept)).commits =
          (run (step {}) {} waitingSolo).commits ++ (l ++ c :: r) →
        ∀ id, (run (step {}) {} waitingSolo).Accepted (l ++ [c]) id → ¬c.Stranded id :=
  crashSafe_iff {} rfl waitingSolo (.scheduleOnce allAccept)

/-- The process stops after the commit of `pop_next_job`: the job is saved as queued, the queue
is empty, and no node has heard of the job. -/
theorem not_crashSafe : ¬∀ (cfg : Config) (events : List Event) (op : Op),
    cfg.backend = .sqlite → CrashSafe cfg events op := by
  intro h
  obtain ⟨hready,horder,-⟩ := ready_run {} rfl waitingSolo
  have hexec := @ready_exec {} rfl _ hready horder (.scheduleOnce allAccept)
  obtain ⟨new,hnew,-⟩ := hexec.2
  have hview : (new.head?.map fun c => (restoreSqlite c.db).map fun m =>
      (m.queue,(m.jobs.get? "j").map fun job => job.status,
        m.nodes.entries.map fun n => n.runningJobs)) =
      some (some ([],some .queued,[[]])) := by
    have hdrop : new = ((run (step {}) {} waitingSolo).exec {} (.scheduleOnce allAccept)).commits.drop
        (run (step {}) {} waitingSolo).commits.length := by
      rw [hnew, List.drop_left]
    rw [hdrop]
    decide +kernel
  cases new with
  | nil => exact absurd hview (by simp)
  | cons c r =>
    obtain ⟨m,hm,hview⟩ := Option.map_eq_some_iff.mp (Option.some.inj hview)
    simp only [Prod.mk.injEq] at hview
    obtain ⟨hqueue,hstatus,hnodes⟩ := hview
    obtain ⟨job,hjob,hstatus⟩ := Option.map_eq_some_iff.mp hstatus
    have hknown : (run (step {}) {} waitingSolo).Accepted [c] "j" := by
      left
      have hsome : ((run (step {}) {} waitingSolo).job? "j").isSome = true := by decide +kernel
      intro hnone
      rw [hnone] at hsome
      exact absurd hsome (by simp)
    obtain ⟨m',hm',hfind⟩ := h {} waitingSolo (.scheduleOnce allAccept) rfl [] c r hnew "j" hknown
    obtain rfl := Option.some.inj (hm.symm.trans hm')
    obtain hin | ⟨hrun,-⟩ | ⟨k,node,hnode,hin⟩ := hfind job hjob (by rw [hstatus]; decide)
    · rw [hqueue] at hin
      exact absurd hin (by simp)
    · rw [hstatus] at hrun
      exact absurd hrun (by simp)
    · have hmem : node.runningJobs ∈ m.nodes.entries.map fun n => n.runningJobs :=
        List.mem_map.mpr ⟨node,Table.mem_of_get? hnode,rfl⟩
      rw [hnodes, List.mem_singleton] at hmem
      rw [hmem] at hin
      exact absurd hin (by simp)

end State
end Arsonist.ControlPlane
