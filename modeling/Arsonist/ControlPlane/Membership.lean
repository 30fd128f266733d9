import Arsonist.ControlPlane.Memory

/-! What the operations of `ClusterMemory` do to the nodes. Handlers change a stored node in
place and call `add_node` on it, which stamps and persists it. -/
namespace Arsonist.ControlPlane
open Arsonist.Library Arsonist.Shared

namespace NodeSide

def row (node : NodeState) : Row := ⟨node.nodeId,node.modelDump⟩

/-- The saved row of a node is its live record, or both are missing. -/
def SyncedAt (v : NodeSide) (k : NodeId) : Prop :=
  v.nodeRows.get? k = (v.nodes.get? k).map row

end NodeSide

/-- From `v` to `w` the nodes in `who` are stamped and persisted, and no other node is
touched. -/
structure Stamps (v : NodeSide) (who : List NodeId) (w : NodeSide) : Prop where
  now : w.now = v.now
  other : ∀ k, k ∉ who → w.nodes.get? k = v.nodes.get? k
  stamped : ∀ k ∈ who, ∀ n, w.nodes.get? k = some n → n.lastSeen = w.now ∧ n.healthy = true
  saved : ∀ k, w.SyncedAt k ∨
    (w.nodes.get? k = v.nodes.get? k ∧ w.nodeRows.get? k = v.nodeRows.get? k)

/-- Nodes are stamped, none joins and none leaves. -/
structure Tends (v : NodeSide) (who : List NodeId) (w : NodeSide) : Prop
    extends Stamps v who w where
  known : ∀ k, w.nodes.get? k = none ↔ v.nodes.get? k = none

namespace Stamps
variable {u v w : NodeSide} {as bs : List NodeId}

theorem refl (v : NodeSide) : Stamps v [] v := ⟨rfl,fun _ _ => rfl,by simp,fun _ => .inr ⟨rfl,rfl⟩⟩

theorem trans (huv : Stamps u as v) (hvw : Stamps v bs w) : Stamps u (as ++ bs) w where
  now := hvw.now.trans huv.now
  other k hk := by
    rw [List.mem_append, not_or] at hk
    exact (hvw.other k hk.2).trans (huv.other k hk.1)
  stamped k hk n hn := by
    by_cases hb : k ∈ bs
    · exact hvw.stamped k hb n hn
    · rw [hvw.other k hb] at hn
      rw [hvw.now]
      exact huv.stamped k ((List.mem_append.mp hk).resolve_right hb) n hn
  saved k := by
    obtain h | ⟨hn,hr⟩ := hvw.saved k
    · exact .inl h
    · obtain h | ⟨hn',hr'⟩ := huv.saved k
      · left
        rw [NodeSide.SyncedAt, hr, hn]
        exact h
      · exact .inr ⟨hn.trans hn',hr.trans hr'⟩

/-- What was synchronised stays so. -/
theorem synced (h : Stamps v as w) {k : NodeId} (hk : v.SyncedAt k) : w.SyncedAt k := by
  obtain hs | ⟨hn,hr⟩ := h.saved k
  · exact hs
  · rw [NodeSide.SyncedAt, hr, hn]
    exact hk

end Stamps

namespace Tends
variable {u v w : NodeSide} {as bs : List NodeId}

theorem refl (v : NodeSide) : Tends v [] v := ⟨.refl v,fun _ => Iff.rfl⟩

theorem of_eq (h : w = v) : Tends v [] w := h ▸ refl v

theorem trans (huv : Tends u as v) (hvw : Tends v bs w) : Tends u (as ++ bs) w :=
  ⟨huv.toStamps.trans hvw.toStamps,fun k => (hvw.known k).trans (huv.known k)⟩

theorem then_eq (huv : Tends u as v) (h : w = v) : Tends u as w := h ▸ huv

end Tends

/-- From `v` to `w` the nodes in `gone` are removed, with their rows, and nothing else
happens. -/
structure Buries (v : NodeSide) (gone : List NodeId) (w : NodeSide) : Prop where
  now : w.now = v.now
  nodes : ∀ k, w.nodes.get? k = if k ∈ gone then none else v.nodes.get? k
  rows : ∀ k, w.nodeRows.get? k = if k ∈ gone then none else v.nodeRows.get? k

namespace Buries
variable {u v w : NodeSide} {as bs : List NodeId}

theorem refl (v : NodeSide) : Buries v [] v := ⟨rfl,by simp,by simp⟩

theorem trans (huv : Buries u as v) (hvw : Buries v bs w) : Buries u (as ++ bs) w where
  now := hvw.now.trans huv.now
  nodes k := by
    rw [hvw.nodes, huv.nodes]
    by_cases ha : k ∈ as <;> by_cases hb : k ∈ bs <;> simp [ha, hb]
  rows k := by
    rw [hvw.rows, huv.rows]
    by_cases ha : k ∈ as <;> by_cases hb : k ∈ bs <;> simp [ha, hb]

theorem then_eq (huv : Buries u as v) (h : w = v) : Buries u as w := h ▸ huv

theorem synced (h : Buries v as w) {k : NodeId} (hk : v.SyncedAt k) : w.SyncedAt k := by
  rw [NodeSide.SyncedAt, h.rows, h.nodes]
  split_ifs
  · rfl
  · exact hk

end Buries

namespace State
variable (s : State)

theorem node?_modifyNode (id : NodeId) (f : NodeState → NodeState)
    (hf : ∀ node, (f node).nodeId = node.nodeId) (k : NodeId) :
    (s.modifyNode id f).node? k = if k = id then (s.node? id).map f else s.node? k :=
  Table.get?_modify _ _ _ hf _

@[simp] theorem joined_nodeId (node : NodeState) : (s.joined node).nodeId = node.nodeId := by
  unfold joined
  split
  · next existing h => exact Table.key_of_get? h
  · rfl

@[simp] theorem persistNode_nodes (id : NodeId) :
    (s.persistNode id).memory.nodes = s.memory.nodes := by
  rw [persistNode_memory]

/-- The row that `_persist_node` writes is the stored record. -/
theorem persistNode_rows (id k : NodeId) :
    (s.persistNode id).db.nodes.get? k =
      if k = id ∧ (s.node? id).isSome then (s.node? id).map NodeSide.row
      else s.db.nodes.get? k := by
  unfold persistNode
  cases h : s.node? id with
  | none => simp
  | some node =>
    have hid : node.nodeId = id := Table.key_of_get? h
    change (s.db.nodes.replace ⟨node.nodeId,node.modelDump⟩).get? k = _
    rw [Table.get?_replace]
    simp [hid, NodeSide.row]

@[simp] theorem emit_nodes (l e : String) (d : Json.Object) :
    (s.emit l e d).memory.nodes = s.memory.nodes := rfl

/-- The record stored by `add_node`, for the node itself and for every other one. -/
theorem node?_addNode (node : NodeState) (k : NodeId) :
    (s.addNode node).node? k =
      if k = node.nodeId then some (seen s.now (s.joined node)) else s.node? k := by
  rw [node?, addNode, emit_nodes, persistNode_nodes]
  change (s.memory.nodes.put (seen s.now (s.joined node))).get? k = _
  rw [Table.get?_put]
  simp [seen]

/-- `add_node` writes the row of the stored record. -/
theorem addNode_rows (node : NodeState) (k : NodeId) :
    (s.addNode node).db.nodes.get? k =
      if k = node.nodeId then ((s.addNode node).node? k).map NodeSide.row
      else s.db.nodes.get? k := by
  have hput : (s.putNode (seen s.now (s.joined node))).node? node.nodeId =
      some (seen s.now (s.joined node)) := by
    change (s.memory.nodes.put (seen s.now (s.joined node))).get? _ = _
    rw [Table.get?_put]
    simp [seen]
  rw [node?_addNode]
  change ((s.putNode (seen s.now (s.joined node))).persistNode node.nodeId).db.nodes.get? k = _
  rw [persistNode_rows, hput]
  by_cases hk : k = node.nodeId
  · simp [hk]
  · simp only [hk, false_and, if_false]
    rfl

@[simp] theorem addNode_executing (node : NodeState) :
    (s.addNode node).executing = s.executing := by
  unfold addNode
  exact persistNode_executing _ _

@[simp] theorem addNode_now (node : NodeState) : (s.addNode node).now = s.now := by
  unfold addNode
  exact persistNode_now _ _

theorem joined_healthy (node : NodeState)
    (h : s.node? node.nodeId = none → node.healthy = true) : (s.joined node).healthy = true := by
  unfold joined
  split
  · rfl
  · next hn => exact h hn

theorem stamps_addNode (node : NodeState)
    (h : s.node? node.nodeId = none → node.healthy = true) :
    Stamps s.nodeSide [node.nodeId] (s.addNode node).nodeSide where
  now := addNode_now s node
  other k hk := (node?_addNode s node k).trans (if_neg (by simpa using hk))
  stamped k hk n hn := by
    have hn' := (node?_addNode s node k).symm.trans hn
    rw [if_pos (by simpa using hk)] at hn'
    obtain rfl := Option.some.inj hn'
    exact ⟨(addNode_now s node).symm,joined_healthy s node h⟩
  saved k := by
    have hrows := addNode_rows s node k
    by_cases hk : k = node.nodeId
    · rw [if_pos hk] at hrows
      exact .inl hrows
    · rw [if_neg hk] at hrows
      exact .inr ⟨(node?_addNode s node k).trans (if_neg hk),hrows⟩

/-! ### A stored node -/

variable (id : NodeId)

theorem modifyNode_of_none (f : NodeState → NodeState) (h : s.node? id = none) :
    s.modifyNode id f = s := by
  have hmod : s.memory.nodes.modify id f = s.memory.nodes := by
    unfold Table.modify
    rw [show s.memory.nodes.get? id = none from h]
  rw [modifyNode, hmod]

/-- A change that changes nothing. -/
theorem modifyNode_id : (s.modifyNode id fun n => n) = s := by
  have hmod : s.memory.nodes.modify id (fun n => n) = s.memory.nodes := by
    unfold Table.modify
    cases h : s.memory.nodes.get? id with
    | none => rfl
    | some node => exact Table.put_self h
  rw [modifyNode, hmod]

theorem refreshNode_of_none (h : s.node? id = none) : s.refreshNode id = s := by
  unfold refreshNode
  rw [h]

theorem touchNode_of_none (f : NodeState → NodeState) (h : s.node? id = none) :
    s.touchNode id f = s := by
  rw [touchNode, modifyNode_of_none s id f h, refreshNode_of_none s id h]

theorem buries_removeNode : Buries s.nodeSide [id] (s.removeNode id).nodeSide := by
  have h : Buries s.nodeSide [id] ((s.dropNode id).commit fun db =>
      { db with nodes := db.nodes.erase id }).nodeSide := by
    refine ⟨rfl,fun k => ?_,fun k => ?_⟩
    · simp only [List.mem_singleton]
      exact Table.get?_erase _ _ _
    · simp only [List.mem_singleton]
      exact Table.get?_erase _ _ _
  unfold removeNode
  dsimp only
  split <;> exact h

variable (f : NodeState → NodeState) (hf : ∀ node, (f node).nodeId = node.nodeId)
include hf

theorem modifyNode_modifyNode (g : NodeState → NodeState)
    (hg : ∀ node, (g node).nodeId = node.nodeId) :
    (s.modifyNode id f).modifyNode id g = s.modifyNode id (g ∘ f) := by
  have h := Table.modify_modify s.memory.nodes id f g hf hg
  rw [modifyNode, modifyNode, modifyNode]
  dsimp only
  rw [h]

/-- A change in place before the last one is part of it. -/
theorem touchNode_modifyNode (g : NodeState → NodeState)
    (hg : ∀ node, (g node).nodeId = node.nodeId) :
    (s.modifyNode id f).touchNode id g = s.touchNode id (g ∘ f) := by
  rw [touchNode, touchNode, modifyNode_modifyNode s id f hf g hg]

theorem touchNode_of_some {node : NodeState} (h : s.node? id = some node) :
    s.touchNode id f = (s.modifyNode id f).addNode (f node) := by
  have hmod : (s.modifyNode id f).node? id = some (f node) := by
    rw [node?_modifyNode s id f hf, if_pos rfl, h]
    rfl
  rw [touchNode, refreshNode, hmod]

/-- The new record of a stored node that a handler changes: `add_node` on the stored object
itself marks it as healthy and seen. -/
theorem node?_touchNode (k : NodeId) :
    (s.touchNode id f).node? k =
      if k = id then (s.node? id).map fun n => seen s.now { f n with healthy := true }
      else s.node? k := by
  cases h : s.node? id with
  | none =>
    rw [touchNode_of_none s id f h]
    split_ifs with hk
    · rw [hk, h]; rfl
    · rfl
  | some node =>
    have hid : (f node).nodeId = id := (hf node).trans (Table.key_of_get? h)
    have hmod := node?_modifyNode s id f hf
    rw [touchNode_of_some s id f hf h, node?_addNode, joined, hid, hmod, hmod, if_pos rfl, h]
    split_ifs <;> rfl

theorem tends_touchNode : Tends s.nodeSide [id] (s.touchNode id f).nodeSide := by
  cases h : s.node? id with
  | none =>
    rw [touchNode_of_none s id f h]
    refine ⟨⟨rfl,fun _ _ => rfl,?_,fun _ => .inr ⟨rfl,rfl⟩⟩,fun _ => Iff.rfl⟩
    intro k hk n hn
    obtain rfl := List.mem_singleton.mp hk
    exact absurd (h.symm.trans hn) (by simp)
  | some node =>
    have hid : (f node).nodeId = id := (hf node).trans (Table.key_of_get? h)
    have hmod := node?_modifyNode s id f hf
    have hadd := stamps_addNode (s.modifyNode id f) (f node) fun hn => by
      rw [hid, hmod, if_pos rfl, h] at hn
      exact absurd hn (by simp)
    have hget := node?_touchNode s id f hf
    rw [touchNode_of_some s id f hf h] at hget ⊢
    rw [hid] at hadd
    refine ⟨⟨hadd.now,?_,hadd.stamped,?_⟩,?_⟩
    · exact fun k hk => (hget k).trans (if_neg (by simpa using hk))
    · intro k
      by_cases hk : k = id
      · left
        have hrows := addNode_rows (s.modifyNode id f) (f node) k
        rw [if_pos (hk.trans hid.symm)] at hrows
        exact hrows
      · obtain hs | ⟨hn,hr⟩ := hadd.saved k
        · exact .inl hs
        · exact .inr ⟨hn.trans ((hmod k).trans (if_neg hk)),hr⟩
    · intro k
      change (State.node? _ k = none) ↔ s.node? k = none
      rw [hget]
      split_ifs with hk
      · simp [hk, h]
      · rfl

end State
end Arsonist.ControlPlane
