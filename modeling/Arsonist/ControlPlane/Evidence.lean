import Arsonist.ControlPlane.Completion

/-! Signs of life. `add_node` both registers a node and persists it, and stamps it either
way; `job_result` persists with it all nodes that the job was assigned to, so that a silent
node is taken for alive when another one reports. -/
namespace Arsonist.ControlPlane
open Arsonist.Library Arsonist.Shared Arsonist.Scheduler

/-- The node that sends the request. -/
def Op.senders : Op → List NodeId
  | .registerNode payload => [payload.nodeId]
  | .jobResult node _ _ _ => [node]
  | .heartbeat node _ => [node]
  | _ => []

namespace State
variable (cfg : Config)

/-- The node itself shows that it is alive: it sends the request, or it answers a dispatch of
the operation with a success status. -/
def Evidence (s : State) (node : NodeId) (op : Op) : Prop :=
  node ∈ op.senders ∨ node ∈ s.opAnswers cfg op

instance (s : State) (node : NodeId) (op : Op) : Decidable (s.Evidence cfg node op) :=
  inferInstanceAs (Decidable (_ ∨ _))

/-- From `s` to `t` the node joins, its `last_seen` advances, or it becomes healthy. -/
def Advances (s t : State) (node : NodeId) : Prop :=
  ∃ n', t.node? node = some n' ∧
    ∀ n, s.node? node = some n → n.lastSeen < n'.lastSeen ∨ (n.healthy = false ∧ n'.healthy = true)

/-- No node advances in the step without evidence of its own. -/
def OwnPulse (s : State) (op : Op) : Prop :=
  ∀ node, s.Advances (s.exec cfg op) node → s.Evidence cfg node op

/-- The condition of a step: a result names no silent node. A known node that the job was
assigned to, and that shows no sign of life in this step, is up to date already. -/
def NoBystander (s : State) : Op → Prop
  | .jobResult node id payload env => ∀ job, s.job? id = some job → ∀ k ∈ job.assignedNodes,
    ∀ n, s.node? k = some n → s.Evidence cfg k (.jobResult node id payload env) ∨
      (s.now ≤ n.lastSeen ∧ n.healthy = true)
  | _ => True

variable {s t : State}

/-- A node that is as it was, or gone, does not advance. -/
theorem not_advances_of_kept {node : NodeId}
    (h : ∀ n', t.node? node = some n' → s.node? node = some n') : ¬s.Advances t node := by
  rintro ⟨n',hn',hadv⟩
  obtain hlt | ⟨hfalse,htrue⟩ := hadv n' (h n' hn')
  · exact lt_irrefl _ hlt
  · rw [hfalse] at htrue
    exact absurd htrue (by simp)

/-- What is kept of a node that does not advance. -/
theorem kept_of_not_advances {node : NodeId} (h : ¬s.Advances t node) {n' : NodeState}
    (hn' : t.node? node = some n') :
    ∃ n, s.node? node = some n ∧ n'.lastSeen ≤ n.lastSeen ∧
      (n'.healthy = true → n.healthy = true) := by
  by_contra hno
  refine h ⟨n',hn',fun n hn => ?_⟩
  by_contra hnot
  rw [not_or, not_lt, not_and] at hnot
  refine hno ⟨n,hn,hnot.1,fun htrue => ?_⟩
  by_contra hfalse
  exact hnot.2 (by simpa using hfalse) htrue

/-- Who is stamped by an operation without having shown a sign of life. -/
theorem mem_opStamps {node : NodeId} {op : Op} (h : node ∈ s.opStamps cfg op) :
    s.Evidence cfg node op ∨ ∃ sender id payload env job,
      op = .jobResult sender id payload env ∧ s.job? id = some job ∧ node ∈ job.assignedNodes := by
  obtain h | h := List.mem_append.mp h
  swap
  · exact .inl (.inr h)
  cases op with
  | jobResult sender id payload env =>
    dsimp only at h
    cases hjob : s.job? id with
    | none =>
      rw [hjob] at h
      exact absurd h (by simp)
    | some job =>
      rw [hjob] at h
      obtain rfl | h := List.mem_cons.mp h
      · exact .inl (.inl (by simp [Op.senders]))
      · exact .inr ⟨sender,id,payload,env,job,rfl,hjob,h⟩
  | heartbeat sender payload => exact .inl (.inl h)
  | clock now => exact absurd h (by simp)
  | registerNode payload => exact absurd h (by simp)
  | submitJob payload env => exact absurd h (by simp)
  | inboundJob payload origin env => exact absurd h (by simp)
  | scheduleOnce env => exact absurd h (by simp)
  | checkNodesOnce deadAfterSec => exact absurd h (by simp)
  | executionEnds sender id => exact absurd h (by simp)

/-- Without a bystander, nodes advance on their own evidence only. -/
theorem ownPulse_of_noBystander {op : Op} (h : s.NoBystander cfg op) : s.OwnPulse cfg op := by
  intro node hadv
  by_contra hev
  have hkeep : ∀ {t : State}, (∀ n', t.node? node = some n' → s.node? node = some n') →
      t = s.exec cfg op → False := by
    rintro t hk rfl
    exact not_advances_of_kept hk hadv
  cases nodeStep_exec cfg s op with
  | registers payload hs =>
    apply hkeep _ rfl
    intro n' hn'
    rw [← hn']
    exact (hs.other node fun hmem => hev (.inl hmem)).symm
  | clock now hs => exact hkeep (t := s.exec cfg (.clock now)) (fun n' hn' => hn') rfl
  | buries deadAfterSec hs =>
    apply hkeep _ rfl
    intro n' hn'
    have hget := (hs.nodes node).symm.trans hn'
    split_ifs at hget
    exact hget
  | raised sender payload f hf hs hr =>
    apply hkeep _ rfl
    intro n' hn'
    rw [hs, node?_modifyNode s sender f hf.nodeId, if_neg] at hn'
    · exact hn'
    · rintro rfl
      exact hev (.inl (by simp [Op.senders]))
  | tends _ hs =>
    by_cases hmem : node ∈ s.opStamps cfg op
    · -- a stamped node without evidence is a bystander of a result
      obtain ⟨sender,id,payload,env,job,rfl,hjob,hassigned⟩ := (mem_opStamps cfg hmem).resolve_left hev
      obtain ⟨n',hn',hmore⟩ := hadv
      obtain ⟨hseen,-⟩ := hs.stamped node hmem n' hn'
      have hnow : n'.lastSeen = s.now := hseen.trans hs.now
      obtain ⟨n,hn⟩ : ∃ n, s.node? node = some n := by
        apply Option.ne_none_iff_exists'.mp
        intro hnone
        have hgone := (hs.known node).mpr hnone
        rw [show (s.exec cfg _).nodeSide.nodes.get? node = some n' from hn'] at hgone
        exact absurd hgone (by simp)
      obtain ⟨hlast,hhealthy⟩ := (h job hjob node hassigned n hn).resolve_left hev
      obtain hlt | ⟨hfalse,-⟩ := hmore n hn
      · rw [hnow] at hlt
        exact absurd hlast (not_le.mpr hlt)
      · rw [hfalse] at hhealthy
        exact absurd hhealthy (by simp)
    · apply hkeep _ rfl
      intro n' hn'
      rw [← hn']
      exact (hs.other node hmem).symm

/-- A bystander that is not up to date advances. -/
theorem noBystander_of_ownPulse {op : Op} (h : s.OwnPulse cfg op) : s.NoBystander cfg op := by
  unfold NoBystander
  split
  swap
  · trivial
  next sender id payload env =>
  intro job hjob k hk n hn
  by_contra hno
  rw [not_or] at hno
  obtain ⟨hev,hstale⟩ := hno
  have hs : Tends s.nodeSide (s.opStamps cfg (.jobResult sender id payload env))
      (s.exec cfg (.jobResult sender id payload env)).nodeSide := by
    cases nodeStep_exec cfg s (.jobResult sender id payload env) with
    | tends _ hs => exact hs
  have hmem : k ∈ s.opStamps cfg (.jobResult sender id payload env) := by
    unfold opStamps
    dsimp only
    rw [hjob]
    exact List.mem_append_left _ (List.mem_cons_of_mem _ hk)
  obtain ⟨n',hn'⟩ : ∃ n', (s.exec cfg (.jobResult sender id payload env)).node? k = some n' := by
    apply Option.ne_none_iff_exists'.mp
    intro hnone
    exact absurd (hn.symm.trans ((hs.known k).mp hnone)) (by simp)
  obtain ⟨hseen,hhealthy⟩ := hs.stamped k hmem n' hn'
  have hnow : n'.lastSeen = s.now := hseen.trans hs.now
  refine hev (h k ⟨n',hn',fun m hm => ?_⟩)
  obtain rfl := Option.some.inj (hn.symm.trans hm)
  by_cases hlt : n.lastSeen < s.now
  · exact .inl (hnow ▸ hlt)
  · right
    refine ⟨?_,hhealthy⟩
    by_contra htrue
    exact hstale ⟨not_lt.mp hlt,by simpa using htrue⟩

/-! ### Silence -/

/-- A node that gives no evidence along a run is not seen later than it was at its start. -/
theorem lastSeen_of_silent {s : State} {node : NodeId} {last : ℚ} {q : List Op}
    (hq : Along (exec cfg) (fun s op => s.OwnPulse cfg op ∧ ¬s.Evidence cfg node op) s q)
    (hs : ∀ n, s.node? node = some n → n.lastSeen ≤ last) :
    ∀ n, (run (exec cfg) s q).node? node = some n → n.lastSeen ≤ last := by
  refine run_invariant (I := fun s : State => ∀ n, s.node? node = some n → n.lastSeen ≤ last)
    ?_ hq hs
  rintro s op ⟨hown,hsilent⟩ hs n' hn'
  obtain ⟨n,hn,hle,-⟩ := kept_of_not_advances (fun hadv => hsilent (hown node hadv)) hn'
  exact hle.trans (hs n hn)

/-- What the next health check does about a node that has been silent for too long: it is
removed, and the known jobs on its list go back to the queue, or fail when they have no
attempt left. -/
def Recovered (s : State) (node : NodeId) (deadAfterSec : ℚ) : Prop :=
  (s.exec cfg (.checkNodesOnce deadAfterSec)).node? node = none ∧
  ∀ n, s.node? node = some n → ∀ id ∈ n.runningJobs, ∀ job, s.job? id = some job →
    (s.exec cfg (.checkNodesOnce deadAfterSec)).status id =
        some (if maxJobRetries ≤ job.attempts then .failed else .queued) ∧
      (job.attempts < maxJobRetries →
        id ∈ (s.exec cfg (.checkNodesOnce deadAfterSec)).memory.queue)

theorem recovered_of_dead {s : State} {node : NodeId} {deadAfterSec : ℚ}
    (h : ∀ n, s.node? node = some n → isDead s.now deadAfterSec n) :
    s.Recovered cfg node deadAfterSec := by
  have hdead : ∀ n, s.node? node = some n →
      n ∈ deadNodes s.now deadAfterSec s.memory.nodes.entries := by
    intro n hn
    refine List.mem_filter.mpr ⟨Table.mem_of_get? hn,?_⟩
    simpa using h n hn
  have hgone := buries_checkNodes cfg s s.now deadAfterSec s.memory.nodes.entries
  refine ⟨(hgone.nodes node).trans ?_,fun n hn id hid job hjob => ?_⟩
  · split_ifs with hmem
    · rfl
    · by_contra hsome
      obtain ⟨n,hn⟩ := Option.ne_none_iff_exists'.mp hsome
      exact hmem (List.mem_map.mpr ⟨n,hdead n hn,Table.key_of_get? hn⟩)
  · exact status_checkNodesOnce cfg s (hdead n hn) hid hjob

/-- In a run nodes are kept alive by their own evidence only; so a health check recovers from
every node that has given none since a point after which more than `dead_after_sec` have
passed from its `last_seen`. -/
structure EvidenceOnly (ops : List Op) : Prop where
  own : Along (exec cfg) (OwnPulse cfg) {} ops
  recovered : ∀ p q deadAfterSec r, ops = p ++ (q ++ .checkNodesOnce deadAfterSec :: r) →
    ∀ node n, (run (exec cfg) {} p).node? node = some n →
      Along (exec cfg) (fun s op => ¬s.Evidence cfg node op) (run (exec cfg) {} p) q →
      deadAfterSec < (run (exec cfg) {} (p ++ q)).now-n.lastSeen →
      (run (exec cfg) {} (p ++ q)).Recovered cfg node deadAfterSec

/-- A job runs on two nodes, and only one of them is heard of again. -/
def silentPartner : List Op :=
  [.registerNode (cpuNode "a"),.registerNode (cpuNode "b"),.submitJob (pairJob "j") allAccept,
   .clock 60,.jobResult "a" "j" succeeded allAccept,.checkNodesOnce 15]

end State
end Arsonist.ControlPlane
