import Arsonist.ControlPlane.QueueInvariant

/-! Dispatch rounds that fail. The loop over the selected nodes changes one node after the
other before the successes are counted, and the branch that puts the job back takes nothing
of it back: neither the entries in the nodes' lists nor the executions that have begun. -/
namespace Arsonist.ControlPlane
open Arsonist.Library Arsonist.Shared Arsonist.Scheduler

/-- The nodes that begin to execute the job. -/
def beginning (reply : NodeId → Reply) (nodes : List NodeId) : List NodeId :=
  nodes.filter fun n => (reply n).began

namespace State
variable (cfg : Config) (s : State)

/-! ### What the loop leaves behind -/

section
variable (job : JobId) (reply : NodeId → Reply)

theorem dispatchJob_executing (node : NodeId) (r : Reply) :
    (s.dispatchJob node job r).executing =
      s.executing ++ if r.began then [(node,job)] else [] := by
  have hsend : (s.sendJob node job r).executing =
      s.executing ++ if r.began then [(node,job)] else [] := by
    unfold sendJob
    dsimp only
    split_ifs
    · rfl
    · simp [act]
  have hnote : ∀ t l, (State.noteAnswer t node job l).executing = t.executing := by
    intro t l
    change ((t.holding none).touchNode node (taken t.now job l)).executing = t.executing
    unfold touchNode refreshNode
    split
    · exact addNode_executing _ _
    · rfl
  have hfailed : ∀ t e, (State.dispatchFailed t node job e).executing = t.executing :=
    fun _ _ => rfl
  rw [← hsend]
  cases r with
  | accepted l => exact hnote (s.sendJob node job (.accepted l)) l
  | unreadable b l e =>
    rw [dispatchJob, hfailed, hnote]
  | failed b e => exact hfailed (s.sendJob node job (.failed b e)) e

theorem dispatchAll_executing (nodes : List NodeId) :
    (s.dispatchAll job reply nodes).1.executing =
      s.executing ++ (beginning reply nodes).map fun n => (n,job) := by
  induction nodes generalizing s with
  | nil => simp [dispatchAll, beginning]
  | cons node nodes ih =>
    have hstep : ∀ t : State, t.executing = (s.dispatchJob node job (reply node)).executing →
        (t.dispatchAll job reply nodes).1.executing =
          s.executing ++ (beginning reply (node :: nodes)).map fun n => (n,job) := by
      intro t ht
      rw [ih, ht, dispatchJob_executing, List.append_assoc, beginning, beginning, List.filter_cons]
      split_ifs <;> rfl
    unfold dispatchAll
    dsimp only
    split_ifs
    · exact hstep _ rfl
    · apply hstep
      exact congrArg NodeSide.executing (logJob_nodeSide _ _ _)

/-- The list of jobs of a node, if it is known. -/
def runningJobs? (s : State) (k : NodeId) : Option (List JobId) :=
  (s.node? k).map fun n => n.runningJobs

theorem runningJobs?_of_nodeSide {s t : State} (h : t.nodeSide = s.nodeSide) (k : NodeId) :
    t.runningJobs? k = s.runningJobs? k :=
  congrArg (fun v : NodeSide => (v.nodes.get? k).map fun n : NodeState => n.runningJobs) h

theorem dispatchJob_runningJobs? (node : NodeId) (r : Reply) (k : NodeId) :
    (s.dispatchJob node job r).runningJobs? k =
      (s.runningJobs? k).map (· ++ if r.answered ∧ k = node then [job] else []) := by
  have hsend : (s.sendJob node job r).runningJobs? k = s.runningJobs? k := by
    rw [runningJobs?, node?, sendJob_memory]
    rfl
  have hnote : ∀ t l, (State.noteAnswer t node job l).runningJobs? k =
      (t.runningJobs? k).map (· ++ if k = node then [job] else []) := by
    intro t l
    have h := node?_touchNode (t.holding none) node (taken t.now job l) (fun _ => rfl) k
    change (((t.holding none).touchNode node (taken t.now job l)).node? k).map _ = _
    rw [h, runningJobs?]
    split_ifs with hk
    · subst hk
      simp only [Option.map_map]
      rfl
    · simp only [List.append_nil, Option.map_id']
      rfl
  have hfailed : ∀ t e, (State.dispatchFailed t node job e).runningJobs? k = t.runningJobs? k :=
    fun _ _ => rfl
  rw [← hsend]
  cases r with
  | accepted l =>
    refine (hnote (s.sendJob node job (.accepted l)) l).trans ?_
    simp [Reply.answered]
  | unreadable b l e =>
    rw [dispatchJob, hfailed, hnote]
    simp [Reply.answered]
  | failed b e =>
    refine (hfailed (s.sendJob node job (.failed b e)) e).trans ?_
    simp only [Reply.answered, Bool.false_eq_true, false_and, if_false, List.append_nil,
      Option.map_id']

/-- Each answer adds an entry to the list of its node. -/
theorem dispatchAll_runningJobs? (nodes : List NodeId) (k : NodeId) :
    (s.dispatchAll job reply nodes).1.runningJobs? k =
      (s.runningJobs? k).map
        (· ++ List.replicate ((answering reply nodes).count k) job) := by
  induction nodes generalizing s with
  | nil => simp [dispatchAll, answering]
  | cons node nodes ih =>
    have hstep : ∀ t : State,
        t.runningJobs? k = (s.dispatchJob node job (reply node)).runningJobs? k →
        (t.dispatchAll job reply nodes).1.runningJobs? k = (s.runningJobs? k).map
          (· ++ List.replicate ((answering reply (node :: nodes)).count k) job) := by
      intro t ht
      rw [ih, ht, dispatchJob_runningJobs?, Option.map_map]
      congr 1
      funext jobs
      rw [Function.comp_apply, List.append_assoc]
      congr 1
      unfold answering
      rw [List.filter_cons]
      by_cases ha : (reply node).answered = true
      · by_cases hk : k = node
        · rw [if_pos ⟨ha,hk⟩, if_pos ha, hk, List.count_cons_self, List.replicate_succ]
          rfl
        · rw [if_neg fun h => hk h.2, if_pos ha, List.count_cons_of_ne fun h => hk h.symm]
          rfl
      · rw [if_neg fun h => ha h.1, if_neg ha]
        rfl
    unfold dispatchAll
    dsimp only
    split_ifs
    · exact hstep _ rfl
    · apply hstep
      exact runningJobs?_of_nodeSide (logJob_nodeSide _ _ _) k

end

variable {cfg s} {env : Surroundings} {job : JobRecord}

/-- The nodes after a scheduler step for a known job. -/
theorem scheduleOnce_nodeSide (hlead : env.leader = true) (hnext : s.nextJob cfg = some job) :
    (s.scheduleOnce cfg env).nodeSide =
      if Dispatches s.memory.nodes.entries job then
        (((s.popNextJob cfg).1.markRunning job.id).dispatchAll job.id env.reply
          (candidateIds s.memory.nodes.entries job)).1.nodeSide
      else s.nodeSide := by
  rw [scheduleOnce_eq, if_pos hlead, hnext]
  dsimp only
  rw [placeJob_nodeSide, popNextJob_nodes, popNextJob_nodeSide]

theorem markRunning_popNextJob_nodeSide (id : JobId) :
    ((s.popNextJob cfg).1.markRunning id).nodeSide = s.nodeSide :=
  (markRunning_nodeSide _ _).trans (popNextJob_nodeSide s cfg)

/-- The executions that a dispatch round begins. -/
theorem executing_of_dispatches (hlead : env.leader = true) (hnext : s.nextJob cfg = some job)
    (hdis : Dispatches s.memory.nodes.entries job) :
    (s.scheduleOnce cfg env).executing = s.executing ++
      (beginning env.reply (candidateIds s.memory.nodes.entries job)).map fun n => (n,job.id) := by
  have h := scheduleOnce_nodeSide hlead hnext
  rw [if_pos hdis] at h
  refine (congrArg NodeSide.executing h).trans ((dispatchAll_executing _ _ _ _).trans ?_)
  congr 1
  exact congrArg NodeSide.executing (markRunning_popNextJob_nodeSide job.id)

/-- The entries that a dispatch round leaves in the nodes' lists. -/
theorem runningJobs?_of_dispatches (hlead : env.leader = true)
    (hnext : s.nextJob cfg = some job) (hdis : Dispatches s.memory.nodes.entries job)
    (k : NodeId) :
    (s.scheduleOnce cfg env).runningJobs? k = (s.runningJobs? k).map (· ++ List.replicate
      ((answering env.reply (candidateIds s.memory.nodes.entries job)).count k) job.id) := by
  have h := scheduleOnce_nodeSide hlead hnext
  rw [if_pos hdis] at h
  have hround := dispatchAll_runningJobs? ((s.popNextJob cfg).1.markRunning job.id) job.id
    env.reply (candidateIds s.memory.nodes.entries job) k
  rw [runningJobs?_of_nodeSide (markRunning_popNextJob_nodeSide job.id)] at hround
  rw [← hround]
  exact runningJobs?_of_nodeSide h k

/-! ### Which steps put a job aside -/

/-- The dispatch round happens, and too few nodes take the job. -/
def AbortsRound (reply : NodeId → Reply) (nodes : List NodeState) (job : JobRecord) : Prop :=
  Dispatches nodes job ∧ ¬Suffices reply nodes job

theorem status_asideActions {id : JobId} {n : ℕ} {p : Option Phase} (hp : p ≠ none) :
    (replay id p (asideActions id n)).map Phase.status =
      some (if maxJobRetries ≤ n then .failed else .queued) := by
  refine status_replay_all ?_ ?_ hp
  · intro a ha _
    unfold asideActions at ha
    split_ifs at ha ⊢ <;> rw [List.mem_singleton.mp ha] <;> rfl
  · unfold asideActions
    split_ifs
    · exact ⟨_,List.mem_singleton_self _,rfl⟩
    · exact ⟨_,List.mem_singleton_self _,rfl⟩

variable (cfg s env job) in
/-- `schedule_once` takes a job that is not over from the queue, and ends with the job back in
the queue or failed. -/
def PutsAside : Prop :=
  env.leader = true ∧ s.nextJob cfg = some job ∧ ¬job.status.terminal ∧
    ((s.scheduleOnce cfg env).status job.id = some .queued ∨
      (s.scheduleOnce cfg env).status job.id = some .failed)

/-- A job is put aside when no dispatch round takes place, and when the round is aborted. -/
theorem putsAside_iff (hk : s.jobSide.Known) :
    s.PutsAside cfg env job ↔ env.leader = true ∧ s.nextJob cfg = some job ∧
      ¬job.status.terminal ∧ (Dispatches s.memory.nodes.entries job →
        AbortsRound env.reply s.memory.nodes.entries job) := by
  refine and_congr_right fun hlead => and_congr_right fun hnext => and_congr_right fun hterm => ?_
  have hsome : s.jobSide.phase job.id = some (phaseOf job) :=
    congrArg (Option.map phaseOf) (job?_of_nextJob cfg s hk hnext)
  have hstatus : (s.scheduleOnce cfg env).status job.id = (replay job.id (some (phaseOf job))
      (placeActions env.reply s.memory.nodes.entries job)).map Phase.status := by
    rw [status_eq, (edits_scheduleOnce cfg s env hk).phase, hsome, scheduleActions, if_pos hlead,
      hnext]
  have haside : ∀ {p : Option Phase} {n : ℕ}, p ≠ none →
      (replay job.id p (asideActions job.id n)).map Phase.status = some .queued ∨
      (replay job.id p (asideActions job.id n)).map Phase.status = some .failed := by
    intro p n hp
    rw [status_asideActions hp]
    split_ifs
    · exact .inr rfl
    · exact .inl rfl
  rw [hstatus, placeActions, if_neg hterm]
  by_cases hdis : Dispatches s.memory.nodes.entries job
  · rw [if_pos hdis, roundActions]
    by_cases hsuff : Suffices env.reply s.memory.nodes.entries job
    · have hrun : (replay job.id (some (phaseOf job)) (.started job.id ::
          (candidateIds s.memory.nodes.entries job).map (fun n => .dispatched n job.id))).map
          Phase.status = some .running := by
        rw [replay_cons]
        refine status_replay_keep ?_ (by simp [Action.apply, Action.job, Action.next])
        intro a ha _
        obtain ⟨n,-,rfl⟩ := List.mem_map.mp ha
        exact .inl rfl
      rw [if_pos hsuff, List.append_nil, hrun]
      simp [AbortsRound, hdis, hsuff]
    · rw [if_neg hsuff, replay_append]
      simp only [AbortsRound, hdis, hsuff, not_false_eq_true, and_self, imp_self, iff_true]
      exact haside (replay_ne_none (by simp) _)
  · rw [if_neg hdis]
    simp only [hdis, false_imp_iff, iff_true]
    exact haside (by simp)

/-! ### What an attempt leaves behind -/

/-- From `s` to `t` no node's list gains an entry for the job, no load changes, and no node
begins to execute the job. -/
structure NoTrace (s t : State) (job : JobId) : Prop where
  lists : ∀ k n n', s.node? k = some n → t.node? k = some n' →
    n'.runningJobs.count job ≤ n.runningJobs.count job
  loads : ∀ k n n', s.node? k = some n → t.node? k = some n' → n'.currentLoad = n.currentLoad
  executing : ∀ k, t.executing.count (k,job) ≤ s.executing.count (k,job)

/-- No selected node begins to execute the job or answers with a success status. -/
def Untouched (reply : NodeId → Reply) (nodes : List NodeState) (job : JobRecord) : Prop :=
  ∀ n ∈ candidateIds nodes job, (reply n).began = false ∧ (reply n).answered = false

theorem mem_beginning {reply : NodeId → Reply} {nodes : List NodeId} {n : NodeId} :
    n ∈ beginning reply nodes ↔ n ∈ nodes ∧ (reply n).began = true := List.mem_filter

theorem mem_answering {reply : NodeId → Reply} {nodes : List NodeId} {n : NodeId} :
    n ∈ answering reply nodes ↔ n ∈ nodes ∧ (reply n).answered = true := List.mem_filter

/-- A round that touches no node leaves no trace. -/
theorem noTrace_of_untouched (hlead : env.leader = true) (hnext : s.nextJob cfg = some job)
    (h : Dispatches s.memory.nodes.entries job → Untouched env.reply s.memory.nodes.entries job) :
    NoTrace s (s.scheduleOnce cfg env) job.id := by
  suffices hsame : (∀ k, (s.scheduleOnce cfg env).node? k = s.node? k) ∧
      (s.scheduleOnce cfg env).executing = s.executing by
    have hnode : ∀ {k n n'}, s.node? k = some n → (s.scheduleOnce cfg env).node? k = some n' →
        n' = n := by
      intro k n n' hn hn'
      rw [hsame.1, hn] at hn'
      exact (Option.some.inj hn').symm
    refine ⟨fun k n n' hn hn' => ?_,fun k n n' hn hn' => ?_,fun k => ?_⟩
    · rw [hnode hn hn']
    · rw [hnode hn hn']
    · rw [hsame.2]
  by_cases hdis : Dispatches s.memory.nodes.entries job
  · constructor
    · intro k
      refine (tends_scheduleOnce cfg s env).other k ?_
      rw [scheduleStamps, if_pos hlead, hnext]
      dsimp only
      rw [placeStamps, if_pos hdis, mem_answering]
      rintro ⟨hmem,ha⟩
      rw [(h hdis k hmem).2] at ha
      exact absurd ha (by simp)
    · have hnone : beginning env.reply (candidateIds s.memory.nodes.entries job) = [] := by
        apply List.filter_eq_nil_iff.mpr
        intro n hn
        simp [(h hdis n hn).1]
      rw [executing_of_dispatches hlead hnext hdis, hnone]
      simp
  · have hnodes : (s.scheduleOnce cfg env).nodeSide = _ := scheduleOnce_nodeSide hlead hnext
    rw [if_neg hdis] at hnodes
    exact ⟨fun k => congrArg (fun v : NodeSide => v.nodes.get? k) hnodes,
      congrArg NodeSide.executing hnodes⟩

/-- A node that begins to execute the job, or that answers, is a trace. -/
theorem untouched_of_noTrace (hlead : env.leader = true) (hnext : s.nextJob cfg = some job)
    (h : NoTrace s (s.scheduleOnce cfg env) job.id)
    (hdis : Dispatches s.memory.nodes.entries job) :
    Untouched env.reply s.memory.nodes.entries job := by
  intro k hk
  constructor
  · by_contra hb
    have hcount := h.executing k
    rw [executing_of_dispatches hlead hnext hdis, List.count_append] at hcount
    have hpos : 0 < ((beginning env.reply (candidateIds s.memory.nodes.entries job)).map
        fun n => (n,job.id)).count (k,job.id) := by
      apply List.count_pos_iff.mpr
      exact List.mem_map.mpr ⟨k,mem_beginning.mpr ⟨hk,by simpa using hb⟩,rfl⟩
    omega
  · by_contra ha
    obtain ⟨n,hn⟩ : ∃ n, s.node? k = some n := by
      obtain ⟨n,hn,rfl⟩ := List.mem_map.mp hk
      exact ⟨n,Table.get?_of_mem (selectNodes_subset hn)⟩
    obtain ⟨n',hn'⟩ : ∃ n', (s.scheduleOnce cfg env).node? k = some n' := by
      apply Option.ne_none_iff_exists'.mp
      intro hnone
      exact absurd (hn.symm.trans (((tends_scheduleOnce cfg s env).known k).mp hnone)) (by simp)
    have hlist := runningJobs?_of_dispatches hlead hnext hdis k
    rw [runningJobs?, runningJobs?, hn, hn', Option.map_some, Option.map_some, Option.map_some,
      Option.some.injEq] at hlist
    have hcount := h.lists k n n' hn hn'
    rw [hlist, List.count_append, List.count_replicate_self] at hcount
    have hpos : 0 < (answering env.reply (candidateIds s.memory.nodes.entries job)).count k :=
      List.count_pos_iff.mpr (mem_answering.mpr ⟨hk,by simpa using ha⟩)
    omega

variable (cfg) (env) in
/-- An attempt that puts the job aside leaves nothing running. -/
def CleansUp (s : State) : Prop :=
  ∀ job, s.PutsAside cfg env job → NoTrace s (s.scheduleOnce cfg env) job.id

variable (cfg) in
theorem known_events (events : List Event) : (run (step cfg) {} events).jobSide.Known := by
  have h : (run (step cfg) {} events).jobSide.Known ∧ (run (step cfg) {} events).db.Sound := by
    refine run_always (I := fun s : State => s.jobSide.Known ∧ s.db.Sound) ?_
      ⟨known_init,sound_init⟩ events
    rintro s e ⟨hk,hdb⟩
    cases e with
    | op op => exact ⟨known_exec cfg s op hk,((Writes.refl s.journal).exec cfg op).db hdb⟩
    | restart =>
      obtain ⟨m,hm,-,hjobs,-⟩ := restoreSqlite_of_sound hdb
      change s.restart.jobSide.Known ∧ s.restart.db.Sound
      rw [restart, hm]
      refine ⟨fun k hk => ?_,hdb⟩
      exact (hjobs k).trans (congrArg (Option.map JobSide.row) hk)
  exact h.1

variable (cfg) in
/-- In every state that operations and restarts lead to, a failed attempt leaves nothing
running exactly if no node was touched in the rounds that it aborts. -/
theorem cleansUp_iff (events : List Event) (env : Surroundings) :
    (run (step cfg) {} events).CleansUp cfg env ↔
      ∀ job, env.leader = true → (run (step cfg) {} events).nextJob cfg = some job →
        AbortsRound env.reply (run (step cfg) {} events).memory.nodes.entries job →
        Untouched env.reply (run (step cfg) {} events).memory.nodes.entries job := by
  have hk := known_events cfg events
  refine forall_congr' fun job => ?_
  rw [putsAside_iff hk]
  constructor
  · rintro h hlead hnext ⟨hdis,hfew⟩
    exact untouched_of_noTrace hlead hnext (h ⟨hlead,hnext,hdis.1,fun _ => ⟨hdis,hfew⟩⟩) hdis
  · rintro h ⟨hlead,hnext,-,habort⟩
    exact noTrace_of_untouched hlead hnext fun hdis => h hlead hnext (habort hdis)

/-- A job for two nodes is in the queue. -/
def waitingPair : List Event :=
  [.op (.registerNode (cpuNode "a")),.op (.registerNode (cpuNode "b")),
   .op (.submitJob (pairJob "j") { leader := false, reply := fun _ => .accepted 5 })]

/-- One node takes the job, the other one refuses it: the job is back in the queue, and the
first node executes it. -/
theorem not_cleansUp : ¬∀ (cfg : Config) (events : List Event) (env : Surroundings),
    (run (step cfg) {} events).CleansUp cfg env := by
  intro h
  obtain ⟨job,hjob,hid⟩ : ∃ job, (run (step {}) {} waitingPair).nextJob {} = some job ∧
      job.id = "j" :=
    Option.map_eq_some_iff.mp (by decide +kernel :
      ((run (step {}) {} waitingPair).nextJob {}).map (fun job => job.id) = some "j")
  have haside : (run (step {}) {} waitingPair).PutsAside {} (onlyAccepts "a") job := by
    refine ⟨rfl,hjob,?_,.inl ?_⟩
    · have hall : ((run (step {}) {} waitingPair).nextJob {}).map (fun job => job.status) =
          some .queued := by decide +kernel
      rw [hjob] at hall
      rw [show job.status = .queued from Option.some.inj hall]
      decide
    · rw [hid]
      decide +kernel
  have hcount := (h {} waitingPair (onlyAccepts "a") job haside).executing "a"
  rw [hid] at hcount
  exact absurd hcount (by decide +kernel)

end State
end Arsonist.ControlPlane
