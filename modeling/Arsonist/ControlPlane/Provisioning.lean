import Arsonist.ControlPlane.Ledger

/-! `_provision_node` of `control_plane/app.py`. When the provisioner cannot be reached, the new node
gets its name and its port from the number of nodes that are known at that moment. -/
namespace Arsonist.ControlPlane
open Arsonist.Library Arsonist.Shared

/-- What becomes of the request to the provisioner. Without a connection, after an error status and
with a body that is not JSON, `requests` raises one of its own exceptions; data that makes no
registration raises another one. -/
inductive ProvisionerReply
  | provided (nodeId : NodeId) (host : String) (port : ℤ) (nodeType : NodeType) (hasGpu : Bool)
  | malformed
  | unreachable

/-- The operations of a control plane, and the provisioning of a node. -/
inductive ProvisionOp
  | control (op : Op)
  | provisionNode (nodeType : NodeType) (reply : ProvisionerReply)

def autoscaledId (count : ℕ) : NodeId := "autoscaled-" ++ toString count

/-- The digits of a number say which one it is. -/
theorem autoscaledId_inj {m n : ℕ} (h : autoscaledId m = autoscaledId n) : m = n := by
  have hdigits := congrArg String.toList ((String.append_right_inj _).mp h)
  simpa using congrArg (fun digits => Nat.ofDigitChars 10 digits 0) hdigits

namespace State
variable (cfg : Config) (s : State)

def nodeCount : ℕ := s.memory.nodes.entries.length

/-- The registration that `_provision_node` makes up. -/
def fallbackNode (nodeType : NodeType) : NodeRegistration :=
  let count := s.nodeCount+1
  { nodeId := autoscaledId count
    host := "127.0.0.1"
    port := 9100+count
    nodeType := nodeType
    hasGpu := nodeType = .gpu }

/-- `_provision_node`. -/
def provisionNode (nodeType : NodeType) : ProvisionerReply → State × Response
  | .provided nodeId host port nodeType hasGpu =>
    ((s.registerNode ⟨nodeId,host,port,nodeType,hasGpu,""⟩).emit "info" "node_spinup_requested"
      [("node_id",.str nodeId),("source",.str "provisioner")],.ok "requested")
  | .malformed => (s,.raised)
  | .unreachable =>
    let reg := s.fallbackNode nodeType
    ((s.registerNode reg).emit "warning" "node_spinup_fallback" [("node_id",.str reg.nodeId)],
      .ok "requested")

def proceed : ProvisionOp → State
  | .control op => s.exec cfg op
  | .provisionNode nodeType reply => (s.provisionNode nodeType reply).1

/-- The nodes that an operation removes. -/
def removedBy : ProvisionOp → List NodeId
  | .control (.checkNodesOnce deadAfterSec) =>
    (deadNodes s.now deadAfterSec s.memory.nodes.entries).map fun n => n.nodeId
  | _ => []

/-- The node that an operation registers. -/
def registeredBy : ProvisionOp → Option NodeId
  | .control (.registerNode payload) => some payload.nodeId
  | .provisionNode _ (.provided nodeId _ _ _ _) => some nodeId
  | .provisionNode nodeType .unreachable => some (s.fallbackNode nodeType).nodeId
  | _ => none

/-- An operation registers a node under the name that a fallback chooses when `count` nodes are
known. A fallback does so if it comes when as many are known. -/
def Takes (count : ℕ) : ProvisionOp → Prop
  | .control (.registerNode payload) => payload.nodeId = autoscaledId (count+1)
  | .provisionNode _ (.provided nodeId _ _ _ _) => nodeId = autoscaledId (count+1)
  | .provisionNode _ .unreachable => s.nodeCount = count
  | _ => False

/-- The node is removed at some point of the run. -/
def Removes (node : NodeId) (ops : List ProvisionOp) : Prop :=
  ∃ before op after, ops = before ++ op :: after ∧
    node ∈ (run (proceed cfg) s before).removedBy op

/-- A fallback registers a new node: no other record changes, and there is one more. -/
def FreshFallback : ProvisionOp → Prop
  | .provisionNode nodeType .unreachable =>
    s.node? (s.fallbackNode nodeType).nodeId = none ∧
      (∀ k node, s.node? k = some node →
        (s.proceed cfg (.provisionNode nodeType .unreachable)).node? k = some node) ∧
      (s.proceed cfg (.provisionNode nodeType .unreachable)).nodeCount = s.nodeCount+1
  | _ => True

/-- Whenever a fallback comes, a node under its name has been removed since, whether it was there at
the start, was registered under that name, or comes from a fallback with as many nodes. -/
def NamesVacated (ops : List ProvisionOp) : Prop :=
  ∀ before nodeType after, ops = before ++ .provisionNode nodeType .unreachable :: after →
    let count := (run (proceed cfg) s before).nodeCount
    (s.node? (autoscaledId (count+1)) ≠ none → s.Removes cfg (autoscaledId (count+1)) before) ∧
      ∀ earlier op since, before = earlier ++ op :: since →
        (run (proceed cfg) s earlier).Takes count op →
        (run (proceed cfg) s (earlier ++ [op])).Removes cfg (autoscaledId (count+1)) since

/-! ### What is known after an operation -/

theorem node?_registerNode (payload : NodeRegistration) (k : NodeId) :
    (s.registerNode payload).node? k =
      if k = payload.nodeId then
        some (seen s.now (s.joined { payload with lastSeen := s.now }))
      else s.node? k := by
  unfold registerNode
  dsimp only
  split
  · exact node?_addNode s _ k
  · exact node?_addNode s _ k

theorem nodeCount_registerNode (payload : NodeRegistration) :
    (s.registerNode payload).nodeCount =
      s.nodeCount+if (s.node? payload.nodeId).isSome then 0 else 1 := by
  have hput := Table.length_put s.memory.nodes
    (seen s.now (s.joined { payload with lastSeen := s.now }))
  have hkey : Keyed.key (seen s.now (s.joined { payload with lastSeen := s.now })) =
      payload.nodeId := joined_nodeId s _
  rw [hkey] at hput
  unfold registerNode nodeCount
  dsimp only
  split
  · rw [addNode, emit_nodes, persistNode_nodes]
    exact hput
  · change ((s.addNode _).memory.nodes.entries.length) = _
    rw [addNode, emit_nodes, persistNode_nodes]
    exact hput

/-- Only registrations and health checks change which nodes are known. -/
theorem known_of_control {op : Op} (hregister : ∀ payload, op ≠ .registerNode payload)
    (hcheck : ∀ deadAfterSec, op ≠ .checkNodesOnce deadAfterSec) (k : NodeId) :
    (s.exec cfg op).node? k = none ↔ s.node? k = none := by
  cases nodeStep_exec cfg s op with
  | registers payload h => exact absurd rfl (hregister payload)
  | clock now h => exact Iff.rfl
  | buries deadAfterSec h => exact absurd rfl (hcheck deadAfterSec)
  | raised node payload f hf h hr =>
    rw [h, node?_modifyNode s node f hf.nodeId]
    split_ifs with hk
    · rw [hk, Option.map_eq_none_iff]
    · rfl
  | tends op h => exact h.known k

theorem known_registerNode (payload : NodeRegistration) (k : NodeId) :
    (s.registerNode payload).node? k ≠ none ↔ some payload.nodeId = some k ∨ s.node? k ≠ none := by
  rw [node?_registerNode, Option.some_inj]
  split_ifs with hk
  · exact ⟨fun _ => Or.inl hk.symm,fun _ => Option.some_ne_none _⟩
  · exact ⟨Or.inr,fun h => h.resolve_left (Ne.symm hk)⟩

/-- A node is known after an operation that registers it, or if it was known and not removed. -/
theorem known_proceed (op : ProvisionOp) (k : NodeId) :
    (s.proceed cfg op).node? k ≠ none ↔
      s.registeredBy op = some k ∨ s.node? k ≠ none ∧ k ∉ s.removedBy op := by
  have hnone : ∀ {t : State}, (t.node? k = none ↔ s.node? k = none) → (t.node? k ≠ none ↔
      (none : Option NodeId) = some k ∨ s.node? k ≠ none ∧ k ∉ ([] : List NodeId)) := by
    intro t h
    simp only [ne_eq, h, reduceCtorEq, List.not_mem_nil, not_false_eq_true, and_true, false_or]
  have hregister : ∀ payload : NodeRegistration, (s.registerNode payload).node? k ≠ none ↔
      some payload.nodeId = some k ∨ s.node? k ≠ none ∧ k ∉ ([] : List NodeId) := by
    intro payload
    rw [known_registerNode, and_iff_left List.not_mem_nil]
  cases op with
  | control op =>
    cases op with
    | registerNode payload => exact hregister payload
    | checkNodesOnce deadAfterSec =>
      have hnodes := (buries_checkNodes cfg s s.now deadAfterSec s.memory.nodes.entries).nodes k
      by_cases hk : k ∈ s.removedBy (.control (.checkNodesOnce deadAfterSec))
      · exact iff_of_false (not_not.mpr (hnodes.trans (if_pos hk)))
          (not_or.mpr ⟨(Option.some_ne_none k).symm,fun h => h.2 hk⟩)
      · have hsame : (s.proceed cfg (.control (.checkNodesOnce deadAfterSec))).node? k =
            s.node? k := hnodes.trans (if_neg hk)
        rw [hsame]
        exact ⟨fun h => Or.inr ⟨h,hk⟩,fun h => (h.resolve_left (Option.some_ne_none k).symm).1⟩
    | _ =>
      refine hnone (known_of_control cfg s ?_ ?_ k)
      · intro payload h
        cases h
      · intro deadAfterSec h
        cases h
  | provisionNode nodeType reply =>
    cases reply with
    | provided nodeId host port nodeType hasGpu => exact hregister _
    | malformed => exact hnone Iff.rfl
    | unreachable => exact hregister _

theorem takes_iff (count : ℕ) (op : ProvisionOp) :
    s.Takes count op ↔ s.registeredBy op = some (autoscaledId (count+1)) := by
  cases op with
  | control op =>
    cases op with
    | registerNode payload => exact Option.some_inj.symm
    | _ => exact iff_of_false id (Option.some_ne_none _).symm
  | provisionNode nodeType reply =>
    cases reply with
    | provided nodeId host port nodeType hasGpu => exact Option.some_inj.symm
    | malformed => exact iff_of_false id (Option.some_ne_none _).symm
    | unreachable =>
      constructor
      · rintro rfl
        rfl
      · intro h
        exact Nat.succ_injective (autoscaledId_inj (Option.some.inj h))

/-- A node that is registered and was not known is one more. -/
theorem nodeCount_proceed {op : ProvisionOp} {k : NodeId} (h : s.registeredBy op = some k)
    (hk : s.node? k = none) : (s.proceed cfg op).nodeCount = s.nodeCount+1 := by
  have hone : ∀ payload : NodeRegistration, some payload.nodeId = some k →
      (s.registerNode payload).nodeCount = s.nodeCount+1 := by
    intro payload hpayload
    have hcount := nodeCount_registerNode s payload
    rwa [Option.some.inj hpayload, hk] at hcount
  cases op with
  | control op =>
    cases op with
    | registerNode payload => exact hone payload h
    | _ => cases h
  | provisionNode nodeType reply =>
    cases reply with
    | provided nodeId host port nodeType hasGpu => exact hone _ h
    | malformed => cases h
    | unreachable => exact hone _ h

/-- All that is said of a fresh fallback comes from its name being unknown. -/
theorem freshFallback_iff (nodeType : NodeType) :
    s.FreshFallback cfg (.provisionNode nodeType .unreachable) ↔
      s.node? (autoscaledId (s.nodeCount+1)) = none := by
  constructor
  · exact fun h => h.1
  · intro hnone
    refine ⟨hnone,fun k node hk => ?_,nodeCount_proceed cfg s rfl hnone⟩
    refine (node?_registerNode s (s.fallbackNode nodeType) k).trans ((if_neg ?_).trans hk)
    rintro rfl
    exact absurd (hnone.symm.trans hk) (Option.some_ne_none node).symm

variable {s} in
theorem freshFallback_of {op : ProvisionOp}
    (h : ∀ nodeType, op = .provisionNode nodeType .unreachable → s.FreshFallback cfg op) :
    s.FreshFallback cfg op := by
  cases op with
  | control op => trivial
  | provisionNode nodeType reply =>
    cases reply with
    | provided nodeId host port nodeType hasGpu => trivial
    | malformed => trivial
    | unreachable => exact h nodeType rfl

theorem not_removes_iff (node : NodeId) (ops : List ProvisionOp) :
    ¬s.Removes cfg node ops ↔ Along (proceed cfg) (fun s op => node ∉ s.removedBy op) s ops := by
  rw [← not_iff_not, not_not, not_along_iff, Removes]
  simp only [not_not]

/-- A node is unknown after a run if it has been removed since it was registered, each time, and
since the start if it was known then. -/
theorem unknown_run_iff (node : NodeId) (ops : List ProvisionOp) :
    (run (proceed cfg) s ops).node? node = none ↔
      (s.node? node ≠ none → s.Removes cfg node ops) ∧
      ∀ earlier op since, ops = earlier ++ op :: since →
        (run (proceed cfg) s earlier).registeredBy op = some node →
        (run (proceed cfg) s (earlier ++ [op])).Removes cfg node since := by
  have hpresent := @present_run_iff _ _ (proceed cfg) (fun s => s.node? node ≠ none)
    (fun s op => s.registeredBy op = some node) (fun s op => node ∈ s.removedBy op)
    (fun s op => known_proceed cfg s op node) s ops
  refine not_iff_not.mp (hpresent.trans ?_)
  simp only [← not_removes_iff, not_and_or, not_forall, exists_prop]

/-- Every fallback of a run registers a new node exactly if a node under its name, wherever it came
from, has been removed by then. -/
theorem freshFallbacks_iff (ops : List ProvisionOp) :
    Along (proceed cfg) (FreshFallback cfg) s ops ↔ s.NamesVacated cfg ops := by
  have hfresh := fun before nodeType =>
    (freshFallback_iff cfg (run (proceed cfg) s before) nodeType).trans
      (unknown_run_iff cfg s _ before)
  simp only [← takes_iff] at hfresh
  rw [along_iff]
  constructor
  · intro h before nodeType after hops
    exact (hfresh before nodeType).mp (h before _ after hops)
  · intro h before op after hops
    refine freshFallback_of cfg fun nodeType hop => ?_
    subst hop
    exact (hfresh before nodeType).mpr (h before nodeType after hops)

/-- Two fallbacks, the first node dies, and a third one. -/
def deadFirst : List ProvisionOp :=
  [.provisionNode .cpu .unreachable,.control (.clock 10),.provisionNode .cpu .unreachable,
    .control (.clock 20),.control (.checkNodesOnce 15)]

/-- The third fallback changes the type of the second node. -/
theorem not_freshFallback_deadFirst :
    ¬∀ (cfg : Config) (ops : List ProvisionOp) (nodeType : NodeType),
      (run (proceed cfg) {} ops).FreshFallback cfg (.provisionNode nodeType .unreachable) := by
  intro h
  have hknown : ((run (proceed {}) {} deadFirst).node? "autoscaled-2").isNone = false := by
    decide +kernel
  have hname : (run (proceed {}) {} deadFirst).nodeCount+1 = 2 := by decide +kernel
  have hnone := (freshFallback_iff _ _ _).mp (h {} deadFirst .gpu)
  rw [hname] at hnone
  rw [show (run (proceed {}) {} deadFirst).node? "autoscaled-2" = none from hnone] at hknown
  cases hknown

/-! ### Without removals -/

/-- No name of a fallback to come is in use. -/
def Numbered : Prop := ∀ n, s.node? (autoscaledId n) ≠ none → n ≤ s.nodeCount

/-- Nobody else uses the names of the fallbacks, and no node is removed. -/
def Undisturbed (op : ProvisionOp) : Prop :=
  s.removedBy op = [] ∧ ∀ n, s.registeredBy op = some (autoscaledId n) → n = s.nodeCount+1

variable {s}

theorem Numbered.freshFallback (h : s.Numbered) (nodeType : NodeType) :
    s.FreshFallback cfg (.provisionNode nodeType .unreachable) := by
  rw [freshFallback_iff]
  by_contra hknown
  exact absurd (h _ hknown) (Nat.not_succ_le_self _)

theorem nodeCount_le_proceed {op : ProvisionOp} (h : s.removedBy op = []) :
    s.nodeCount ≤ (s.proceed cfg op).nodeCount := by
  refine Table.length_le_of_known fun k hk => ?_
  by_contra hknown
  refine (known_proceed cfg s op k).mpr (Or.inr ⟨hknown,?_⟩) hk
  rw [h]
  exact List.not_mem_nil

theorem Numbered.proceed {op : ProvisionOp} (h : s.Numbered) (hop : s.Undisturbed op) :
    (s.proceed cfg op).Numbered := by
  intro n hn
  have hle := nodeCount_le_proceed cfg hop.1
  obtain hregistered | ⟨hknown,-⟩ := (known_proceed cfg s op _).mp hn
  · by_cases hknown : s.node? (autoscaledId n) = none
    · rw [nodeCount_proceed cfg s hregistered hknown]
      exact (hop.2 n hregistered).le
    · exact (h n hknown).trans hle
  · exact (h n hknown).trans hle

/-- As long as nobody else uses these names and no node is removed, every fallback registers a new
node. -/
theorem freshFallbacks_of_undisturbed (h : s.Numbered) {ops : List ProvisionOp}
    (hops : Along (proceed cfg) Undisturbed s ops) :
    Along (proceed cfg) (FreshFallback cfg) s ops := by
  induction ops generalizing s with
  | nil => trivial
  | cons op ops ih =>
    refine ⟨freshFallback_of cfg fun nodeType hop => ?_,ih (h.proceed cfg hops.1) hops.2⟩
    rw [hop]
    exact h.freshFallback cfg nodeType

end State
end Arsonist.ControlPlane
