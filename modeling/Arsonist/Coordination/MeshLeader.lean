import Arsonist.Coordination.ConsensusMesh

/-! The leader of the mesh. It is written down as the id of the leader and as the state of a node,
and the two agree as long as no call changes only one of them. -/
namespace Arsonist.Coordination
open Arsonist.Library

namespace ConsensusMesh

/-- The node is registered, in the state of a leader. -/
def Leads (m : ConsensusMesh) (id : String) : Prop :=
  ∃ n, m.nodes.get? id = some n ∧ n.state = .leader

/-- The node with the leader's id, and no other, is in the state of a leader. -/
def Consistent (m : ConsensusMesh) : Prop := ∀ id, m.Leads id ↔ m.leaderId = some id

/-- A call changes the state of the leader together with its id: a node is registered as a leader
exactly when it is the leader, and a leader gives way to another one only. -/
def Keeps (m : ConsensusMesh) : MeshCall → Prop
  | .registerNode _ n => n.state = .leader ↔ m.leaderId = some n.nodeId
  | .electLeader _ => m.healthy ≠ [] ∨ m.leaderId = none
  | _ => True

instance (m : ConsensusMesh) : ∀ c, Decidable (m.Keeps c)
  | .registerNode _ n => inferInstanceAs (Decidable (n.state = .leader ↔ m.leaderId = some n.nodeId))
  | .electLeader _ => inferInstanceAs (Decidable (m.healthy ≠ [] ∨ m.leaderId = none))
  | .removeNode _ => .isTrue trivial
  | .heartbeat _ _ => .isTrue trivial
  | .checkHealth _ _ => .isTrue trivial
  | .proposeRound _ _ => .isTrue trivial
  | .voteRound _ _ _ => .isTrue trivial
  | .autoApproveRound _ _ => .isTrue trivial

variable {m : ConsensusMesh}

theorem key_node (n : MeshNode) : Keyed.key n = n.nodeId := rfl

/-- Who leads is decided by the states of the nodes and the leader's id alone. -/
theorem Consistent.of_eq {m' : ConsensusMesh} (h : m.Consistent)
    (hleader : m'.leaderId = m.leaderId) (hstate : ∀ id,
      (m'.nodes.get? id).map MeshNode.state = (m.nodes.get? id).map MeshNode.state) :
    m'.Consistent := by
  have hleads : ∀ (m : ConsensusMesh) (id : String),
      m.Leads id ↔ (m.nodes.get? id).map MeshNode.state = some .leader := fun m id => by
    rw [Leads, Option.map_eq_some_iff]
  intro id
  rw [hleads, hstate, ← hleads, hleader]
  exact h id

theorem consistent_registerNode (h : m.Consistent) (now : ℚ) (n : MeshNode) :
    (m.registerNode now n).Consistent ↔ (n.state = .leader ↔ m.leaderId = some n.nodeId) := by
  have hget : ∀ id, (m.registerNode now n).nodes.get? id =
      if id = n.nodeId then some { n with lastHeartbeat := now, term := m.currentTerm }
      else m.nodes.get? id := fun id => Table.get?_put _ _ _
  have hself : (m.registerNode now n).Leads n.nodeId ↔ n.state = .leader := by
    simp [Leads, hget]
  constructor
  · intro hnext
    rw [← hself]
    exact hnext n.nodeId
  · intro hn id
    by_cases hid : id = n.nodeId
    · subst hid
      rw [hself]
      exact hn
    · rw [Leads, hget, if_neg hid]
      exact h id

theorem consistent_removeNode (h : m.Consistent) (nodeId : String) :
    (m.removeNode nodeId).1.Consistent := by
  rw [removeNode]
  cases hget : m.nodes.get? nodeId with
  | none => exact h
  | some n =>
    intro id
    have hid := h id
    rw [Leads] at hid
    rw [Leads, Table.get?_erase]
    by_cases heq : id = nodeId
    · subst heq
      simp only [if_true]
      split_ifs with hleader <;> simp [hleader]
    · rw [if_neg heq, hid]
      dsimp only
      split_ifs with hleader
      · simp [hleader, Ne.symm heq]
      · rfl

theorem consistent_heartbeat (h : m.Consistent) (now : ℚ) (nodeId : String) :
    (m.heartbeat now nodeId).1.Consistent := by
  rw [heartbeat]
  cases hget : m.nodes.get? nodeId with
  | none => exact h
  | some n =>
    have hkey : n.nodeId = nodeId := Table.key_of_get? hget
    refine h.of_eq rfl fun id => ?_
    rw [Table.get?_put]
    split_ifs with hid
    · obtain rfl : id = nodeId := hid.trans hkey
      rw [hget]
      rfl
    · rfl

theorem consistent_checkHealth (h : m.Consistent) (now timeout : ℚ) :
    (m.checkHealth now timeout).1.Consistent := by
  refine h.of_eq rfl fun id => ?_
  have hall := Table.get?_foldl_put_filter m.nodes (fun n => timeout < now-n.lastHeartbeat)
    (fun n => { n with isHealthy := false }) (fun n => rfl) id
  rw [checkHealth, silent]
  dsimp only
  rw [hall, Option.map_map]
  congr 1
  funext n
  rw [Function.comp_apply]
  split_ifs <;> rfl

theorem best_eq_none : m.best = none ↔ m.healthy = [] := List.argmax_eq_none

theorem consistent_electLeader (h : m.Consistent) (now : ℚ) :
    (m.electLeader now).1.Consistent ↔ m.healthy ≠ [] ∨ m.leaderId = none := by
  rw [electLeader]
  cases hbest : m.best with
  | none =>
    have hnobody : m.healthy = [] := best_eq_none.mp hbest
    -- nobody is leader by id, and the node that was leader is so by its state
    rw [show best { m with currentTerm := m.currentTerm+1 } = none from hbest]
    constructor
    · intro hnext
      refine Or.inr (Option.eq_none_iff_forall_ne_some.mpr fun id hid => ?_)
      cases (hnext id).mp ((h id).mpr hid)
    · rintro (hsome | hleader) id
      · exact absurd hnobody hsome
      · exact (h id).trans (by rw [hleader])
  | some best =>
    have hsome : m.healthy ≠ [] := fun hnil => by rw [best_eq_none.mpr hnil] at hbest; cases hbest
    refine iff_of_true (fun id => ?_) (Or.inl hsome)
    rw [show ConsensusMesh.best { m with currentTerm := m.currentTerm+1 } = some best from hbest]
    have hall := Table.get?_foldl_put_filter m.nodes (fun _ => true)
      (fun n => { n with state := .follower, term := m.currentTerm+1 }) (fun n => rfl) id
    rw [List.filter_true] at hall
    simp only [Leads, Table.get?_put, key_node, Option.some.injEq, hall, if_true]
    by_cases hid : id = best.nodeId
    · simp [hid]
    · simp [hid, Ne.symm hid, Option.map_eq_some_iff]

/-- A call keeps the leader's state and id in agreement under exactly this condition. -/
theorem consistent_exec (h : m.Consistent) (c : MeshCall) :
    (m.exec c).Consistent ↔ m.Keeps c := by
  cases c with
  | registerNode now n => exact consistent_registerNode h now n
  | removeNode id => exact iff_of_true (consistent_removeNode h id) trivial
  | heartbeat now id => exact iff_of_true (consistent_heartbeat h now id) trivial
  | checkHealth now timeout => exact iff_of_true (consistent_checkHealth h now timeout) trivial
  | electLeader now => exact consistent_electLeader h now
  | proposeRound now r => exact iff_of_true h trivial
  | voteRound now id approve =>
    refine iff_of_true ?_ trivial
    rw [exec, voteRound]
    split
    · exact h
    · dsimp only
      split_ifs <;> exact h
  | autoApproveRound now id =>
    refine iff_of_true ?_ trivial
    rw [exec, autoApproveRound]
    split <;> exact h

theorem consistent_new (quorumFraction : ℚ) (maxHistory : ℤ) :
    Consistent { quorumFraction := quorumFraction, maxHistory := maxHistory } := by
  intro id
  constructor
  · rintro ⟨n,hget,-⟩
    cases hget
  · intro hid
    cases hid

/-- The state and the id of the leader agree throughout a run exactly when no call changes only
one of them. -/
theorem consistent_iff (quorumFraction : ℚ) (maxHistory : ℤ) (calls : List MeshCall) :
    (∀ p q, calls = p ++ q → Consistent
        (run exec { quorumFraction := quorumFraction, maxHistory := maxHistory } p)) ↔
      Along exec Keeps { quorumFraction := quorumFraction, maxHistory := maxHistory } calls := by
  rw [always_iff (consistent_new quorumFraction maxHistory)]
  exact along_congr (I := Consistent) (fun m c hc _ => hc) (fun m c hm => consistent_exec hm c)
    (consistent_new quorumFraction maxHistory)

/-- The leader registers again, as a follower. -/
def registeredAgain : List MeshCall :=
  [.registerNode 0 { nodeId := "a" },.electLeader 1,.registerNode 2 { nodeId := "a" }]

theorem not_consistent : ¬ ∀ (quorumFraction : ℚ) (maxHistory : ℤ) (calls : List MeshCall),
    (∀ now n, .registerNode now n ∈ calls → n.state = .follower) →
    Consistent (run exec { quorumFraction := quorumFraction, maxHistory := maxHistory } calls) := by
  intro h
  have hfollower : ∀ now n, .registerNode now n ∈ registeredAgain → n.state = .follower := by
    intro now n hn
    simp only [registeredAgain, List.mem_cons, MeshCall.registerNode.injEq, reduceCtorEq,
      List.not_mem_nil, false_or, or_false] at hn
    rcases hn with ⟨-,rfl⟩ | ⟨-,rfl⟩ <;> rfl
  have hleader : (run exec {} registeredAgain).leaderId = some "a" := by decide +kernel
  have hstate : ((run exec {} registeredAgain).nodes.get? "a").map MeshNode.state =
      some .follower := by decide +kernel
  obtain ⟨n,hget,hn⟩ := (h (1/2) 500 registeredAgain hfollower "a").mpr hleader
  rw [show (_ : ConsensusMesh).nodes.get? "a" = some n from hget, Option.map_some, hn] at hstate
  cases hstate

end ConsensusMesh
end Arsonist.Coordination
