import Mathlib.Data.Finset.Insert
import Mathlib.Data.List.Sort
import Mathlib.Data.Rat.Init
import Mathlib.Data.String.Basic
import Arsonist.Library.Keyed
import Arsonist.Library.Runs

/-! The graph of the infrastructure: its nodes, the links between them and, for each node, the set
of those it is linked with. Links are stored under one string for both of their ends. -/
namespace Arsonist.FabricCore
open Library

structure GraphNode where
  nodeId : String
  updatedAt : ℚ := 0
  deriving DecidableEq, Repr

structure GraphLink where
  source : String
  target : String
  latencyMs : ℚ := 0
  status : String := "active"
  updatedAt : ℚ := 0
  deriving DecidableEq, Repr

def linkKey (src tgt : String) : String := src ++ "::" ++ tgt

/-- An entry of `_adjacency`. -/
structure Adjacent where
  nodeId : String
  neighbours : Finset String
  deriving DecidableEq

instance : Keyed GraphNode String := ⟨GraphNode.nodeId⟩
instance : Keyed GraphLink String := ⟨fun link => linkKey link.source link.target⟩
instance : Keyed Adjacent String := ⟨Adjacent.nodeId⟩

@[simp] theorem key_node (node : GraphNode) : Keyed.key node = node.nodeId := rfl
@[simp] theorem key_link (link : GraphLink) :
    Keyed.key link = linkKey link.source link.target := rfl
@[simp] theorem key_adjacent (a : Adjacent) : Keyed.key a = a.nodeId := rfl

/-- The order in which a set is enumerated, which its elements do not determine. -/
structure SetOrder where
  list : Finset String → List String
  mem_list : ∀ s a, a ∈ list s ↔ a ∈ s
  nodup_list : ∀ s, (list s).Nodup

/-- One such order, that of the strings. -/
def SetOrder.sorted : SetOrder where
  list s := Quotient.liftOn s.val (fun l => l.insertionSort (· ≤ ·)) fun a b h =>
    ((List.perm_insertionSort _ a).trans (h.trans (List.perm_insertionSort _ b).symm)).eq_of_pairwise
      (fun _ _ _ _ => le_antisymm) (List.pairwise_insertionSort _ a)
      (List.pairwise_insertionSort _ b)
  mem_list s a := by
    obtain ⟨⟨l⟩,hn⟩ := s
    exact List.mem_insertionSort _
  nodup_list s := by
    obtain ⟨⟨l⟩,hn⟩ := s
    exact (List.perm_insertionSort _ l).nodup_iff.mpr hn

structure InfrastructureGraph where
  nodes : Table GraphNode
  links : Table GraphLink
  adjacency : Table Adjacent

namespace InfrastructureGraph

def empty : InfrastructureGraph := ⟨.empty,.empty,.empty⟩

/-- `_adjacency.get(node_id, set())`. -/
def neighbourSet (g : InfrastructureGraph) (nodeId : String) : Finset String :=
  ((g.adjacency.get? nodeId).map Adjacent.neighbours).getD ∅

def Registered (g : InfrastructureGraph) (nodeId : String) : Prop :=
  (g.nodes.get? nodeId).isSome

instance (g : InfrastructureGraph) (nodeId : String) : Decidable (g.Registered nodeId) :=
  inferInstanceAs (Decidable (_ = true))

def addNode (now : ℚ) (g : InfrastructureGraph) (node : GraphNode) : InfrastructureGraph where
  nodes := g.nodes.put { node with updatedAt := now }
  links := g.links
  adjacency :=
    if (g.adjacency.get? node.nodeId).isNone then g.adjacency.put ⟨node.nodeId,∅⟩
    else g.adjacency

/-- The body of the loop of `remove_node`. -/
def dropNeighbour (nodeId : String) (g : InfrastructureGraph) (n : String) :
    InfrastructureGraph where
  nodes := g.nodes
  links := (g.links.erase (linkKey nodeId n)).erase (linkKey n nodeId)
  adjacency := g.adjacency.modify n fun a => { a with neighbours := a.neighbours.erase nodeId }

def removeNode (order : SetOrder) (g : InfrastructureGraph) (nodeId : String) :
    Bool × InfrastructureGraph :=
  if g.Registered nodeId then
    (true,(order.list (g.neighbourSet nodeId)).foldl (dropNeighbour nodeId)
      ⟨g.nodes.erase nodeId,g.links,g.adjacency.erase nodeId⟩)
  else (false,g)

/-- `_adjacency.setdefault(u, set()).add(v)`. -/
def addNeighbour (adjacency : Table Adjacent) (u v : String) : Table Adjacent :=
  adjacency.put ⟨u,insert v (((adjacency.get? u).map Adjacent.neighbours).getD ∅)⟩

def addLink (now : ℚ) (g : InfrastructureGraph) (link : GraphLink) : InfrastructureGraph where
  nodes := g.nodes
  links := g.links.put { link with updatedAt := now }
  adjacency := addNeighbour (addNeighbour g.adjacency link.source link.target) link.target
    link.source

def getLink (g : InfrastructureGraph) (src tgt : String) : Option GraphLink :=
  (g.links.get? (linkKey src tgt)).or (g.links.get? (linkKey tgt src))

theorem neighbourSet_mk (nodes : Table GraphNode) (links : Table GraphLink)
    (adjacency : Table Adjacent) (u : String) :
    neighbourSet ⟨nodes,links,adjacency⟩ u =
      ((adjacency.get? u).map Adjacent.neighbours).getD ∅ := rfl

@[simp] theorem neighbourSet_addNode (now : ℚ) (g : InfrastructureGraph) (node : GraphNode)
    (u : String) : (g.addNode now node).neighbourSet u = g.neighbourSet u := by
  rw [addNode, neighbourSet_mk]
  split_ifs with h
  · rw [Table.get?_put]
    split_ifs with hu
    · rw [neighbourSet, hu, key_adjacent, Option.isNone_iff_eq_none.mp h]
      rfl
    · rfl
  · rfl

theorem mem_addNeighbour (adjacency : Table Adjacent) (u v a b : String) :
    b ∈ (((addNeighbour adjacency u v).get? a).map Adjacent.neighbours).getD ∅ ↔
      b ∈ ((adjacency.get? a).map Adjacent.neighbours).getD ∅ ∨ a = u ∧ b = v := by
  rw [addNeighbour, Table.get?_put, key_adjacent]
  by_cases h : a = u
  · subst h
    rw [if_pos rfl, Option.map_some, Option.getD_some, Finset.mem_insert]
    tauto
  · rw [if_neg h]
    tauto

theorem mem_neighbourSet_addLink (now : ℚ) (g : InfrastructureGraph) (link : GraphLink)
    (u v : String) : v ∈ (g.addLink now link).neighbourSet u ↔ v ∈ g.neighbourSet u ∨
      u = link.source ∧ v = link.target ∨ u = link.target ∧ v = link.source := by
  rw [addLink, neighbourSet_mk, mem_addNeighbour, mem_addNeighbour, or_assoc]
  rfl

theorem get?_addLink (now : ℚ) (g : InfrastructureGraph) (link : GraphLink) (k : String) :
    (g.addLink now link).links.get? k = if k = linkKey link.source link.target then
      some { link with updatedAt := now } else g.links.get? k :=
  Table.get?_put _ _ _

theorem mem_neighbourSet_dropNeighbour (g : InfrastructureGraph) (x n u v : String) :
    v ∈ (g.dropNeighbour x n).neighbourSet u ↔ v ∈ g.neighbourSet u ∧ (u = n → v ≠ x) := by
  have hget := Table.get?_modify g.adjacency n
    (fun a => { a with neighbours := a.neighbours.erase x }) (fun _ => rfl) u
  rw [dropNeighbour, neighbourSet_mk, hget]
  by_cases hu : u = n
  · subst hu
    rw [if_pos rfl, neighbourSet]
    cases g.adjacency.get? u with
    | none => simp
    | some a => simp [and_comm]
  · rw [if_neg hu]
    exact ⟨fun h => ⟨h,fun he => absurd he hu⟩,fun h => h.1⟩

theorem get?_dropNeighbour (g : InfrastructureGraph) (x n k : String) :
    (g.dropNeighbour x n).links.get? k =
      if k = linkKey x n ∨ k = linkKey n x then none else g.links.get? k := by
  rw [dropNeighbour, Table.get?_erase, Table.get?_erase]
  by_cases h : k = linkKey n x
  · rw [if_pos h, if_pos (Or.inr h)]
  · rw [if_neg h]
    by_cases h' : k = linkKey x n
    · rw [if_pos h', if_pos (Or.inl h')]
    · rw [if_neg h', if_neg (not_or.mpr ⟨h',h⟩)]

theorem mem_neighbourSet_foldl (x : String) (ns : List String) (g : InfrastructureGraph)
    (u v : String) : v ∈ (ns.foldl (dropNeighbour x) g).neighbourSet u ↔
      v ∈ g.neighbourSet u ∧ (u ∈ ns → v ≠ x) := by
  induction ns generalizing g with
  | nil => simp
  | cons n ns ih =>
    rw [List.foldl_cons, ih, mem_neighbourSet_dropNeighbour, List.mem_cons]
    tauto

theorem get?_foldl (x : String) (ns : List String) (g : InfrastructureGraph) (k : String) :
    (ns.foldl (dropNeighbour x) g).links.get? k =
      if ∃ n ∈ ns, k = linkKey x n ∨ k = linkKey n x then none else g.links.get? k := by
  induction ns generalizing g with
  | nil => simp
  | cons n ns ih =>
    rw [List.foldl_cons, ih, get?_dropNeighbour]
    simp only [List.mem_cons, exists_eq_or_imp]
    by_cases h : ∃ m ∈ ns, k = linkKey x m ∨ k = linkKey m x
    · rw [if_pos h, if_pos (Or.inr h)]
    · simp only [h, or_false, if_false]

section RemoveNode
variable {order : SetOrder} {g : InfrastructureGraph} {x : String}

theorem removeNode_of_not_registered (h : ¬ g.Registered x) :
    g.removeNode order x = (false,g) := if_neg h

theorem mem_neighbourSet_removeNode (h : g.Registered x) (u v : String) :
    v ∈ (g.removeNode order x).2.neighbourSet u ↔
      v ∈ g.neighbourSet u ∧ u ≠ x ∧ (u ∈ g.neighbourSet x → v ≠ x) := by
  rw [removeNode, if_pos h, mem_neighbourSet_foldl, order.mem_list, neighbourSet_mk,
    Table.get?_erase]
  by_cases hu : u = x
  · rw [if_pos hu]
    simp [hu]
  · rw [if_neg hu]
    exact and_congr_right fun _ => by simp [hu]

theorem get?_removeNode (h : g.Registered x) (k : String) :
    (g.removeNode order x).2.links.get? k =
      if ∃ n ∈ g.neighbourSet x, k = linkKey x n ∨ k = linkKey n x then none
      else g.links.get? k := by
  rw [removeNode, if_pos h, get?_foldl]
  simp only [order.mem_list]

end RemoveNode
end InfrastructureGraph

/-- A call that changes the graph, at the time it is made. -/
inductive GraphCall
  | addNode (now : ℚ) (node : GraphNode)
  | removeNode (order : SetOrder) (nodeId : String)
  | addLink (now : ℚ) (link : GraphLink)

namespace InfrastructureGraph

def exec (g : InfrastructureGraph) : GraphCall → InfrastructureGraph
  | .addNode now node => g.addNode now node
  | .removeNode order nodeId => (g.removeNode order nodeId).2
  | .addLink now link => g.addLink now link

/-- A stored link was stored before the call, or the call adds it. -/
theorem get?_exec {g : InfrastructureGraph} {call : GraphCall} {k : String} {link : GraphLink}
    (h : link ∈ (g.exec call).links.get? k) : link ∈ g.links.get? k ∨
      ∃ now new, call = .addLink now new ∧ link = { new with updatedAt := now } := by
  cases call with
  | addNode now node => exact Or.inl h
  | removeNode order nodeId =>
    left
    rw [exec] at h
    by_cases hx : g.Registered nodeId
    · rw [get?_removeNode hx] at h
      split_ifs at h
      · cases h
      · exact h
    · rwa [removeNode_of_not_registered hx] at h
  | addLink now new =>
    rw [exec, get?_addLink] at h
    split_ifs at h
    · exact Or.inr ⟨now,new,rfl,(Option.some.inj h).symm⟩
    · exact Or.inl h

end InfrastructureGraph
end Arsonist.FabricCore
