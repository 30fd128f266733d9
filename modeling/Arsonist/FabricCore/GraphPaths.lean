import Mathlib.Data.List.MinMax
import Arsonist.FabricCore.Adjacency
import Arsonist.Library.ShortestPaths

/-! The shortest paths of the graph: the search settles one nearest registered node after the other
until it comes to the target. -/
namespace Arsonist.FabricCore
open Library Library.ShortestPaths

namespace InfrastructureGraph

/-- The body of the inner loop, after `unvisited.remove(current)`. -/
def look (g : InfrastructureGraph) (unvisited : Finset String) (current : String)
    (L : Labels String ℚ) (neighbor : String) : Labels String ℚ :=
  if neighbor ∉ unvisited then L
  else match g.getLink current neighbor with
    | none => L
    | some link =>
      if link.status ≠ "active" then L
      else
        let newDist := L.dist current+(link.latencyMs : WithTop ℚ)
        if newDist < L.dist neighbor then L.set neighbor newDist current else L

/-- The outer loop. Each round has its own orders for the set of the unvisited nodes and for that
of the neighbours. -/
def search (order order' : ℕ → SetOrder) (g : InfrastructureGraph) (tgt : String) :
    ℕ → Finset String → Labels String ℚ → Labels String ℚ
  | 0, _, L => L
  | n+1, unvisited, L =>
    match ((order n).list unvisited).argmin L.dist with
    | none => L
    | some current =>
      if L.dist current = ⊤ then L
      else if current = tgt then L
      else
        let unvisited := unvisited.erase current
        search order order' g tgt n unvisited
          (((order' n).list (g.neighbourSet current)).foldl (g.look unvisited current) L)

/-- `set(self._nodes.keys())`. -/
def nodeIds (g : InfrastructureGraph) : Finset String :=
  (g.nodes.entries.map GraphNode.nodeId).toFinset

/-- `none` when a loop does not end. -/
def shortestPath (order order' : ℕ → SetOrder) (g : InfrastructureGraph) (src tgt : String) :
    Option (List String × WithTop ℚ) :=
  if ¬ g.Registered src ∨ ¬ g.Registered tgt then some ([],⊤)
  else
    let L := search order order' g tgt g.nodeIds.card g.nodeIds (Labels.initial src)
    if L.dist tgt = ⊤ then some ([],⊤)
    else (followBack L.prev g.nodeIds.card (some tgt) []).map fun path =>
      (path.reverse,L.dist tgt)

/-- The weight of the edge between two nodes, if there is one: both are registered and adjacent,
and their link is active. -/
def edge (g : InfrastructureGraph) (u v : String) : Option ℚ :=
  if g.Registered u ∧ g.Registered v ∧ v ∈ g.neighbourSet u then
    ((g.getLink u v).filter fun link => link.status = "active").map GraphLink.latencyMs
  else none

variable {g : InfrastructureGraph} {src tgt u v : String} {L : Labels String ℚ}

theorem mem_nodeIds : u ∈ g.nodeIds ↔ g.Registered u := by
  rw [nodeIds, List.mem_toFinset, Registered, Option.isSome_iff_ne_none, ne_eq,
    Table.get?_eq_none_iff, not_not]
  rfl

theorem edge_of_not_registered (h : ¬ g.Registered v) : g.edge u v = none :=
  if_neg fun hreg => h hreg.2.1

/-- The edges from a node to some of the others. -/
def arcs (g : InfrastructureGraph) (u : String) (ns : List String) : List (String × ℚ) :=
  ns.filterMap fun n => (g.edge u n).map fun w => (n,w)

theorem mem_arcs {ns : List String} {w : ℚ} :
    (v,w) ∈ g.arcs u ns ↔ v ∈ ns ∧ g.edge u v = some w := by
  simp [arcs]

/-- Looking at a neighbour is looking at the edge to it, if there is one. -/
theorem look_eq_relax {visited unvisited : Finset String} (hu : g.Registered u)
    (hv : v ∈ g.neighbourSet u) (hvis : ∀ x, x ∈ unvisited ↔ g.Registered x ∧ x ∉ visited) :
    g.look unvisited u L v =
      (g.arcs u [v]).foldl (relax visited u (L.dist u)) L := by
  unfold look
  by_cases hmem : v ∈ unvisited
  · obtain ⟨hreg,hnot⟩ := (hvis v).mp hmem
    have hedge : g.edge u v = ((g.getLink u v).filter fun link => link.status = "active").map
      GraphLink.latencyMs := if_pos ⟨hu,hreg,hv⟩
    rw [if_neg (not_not.mpr hmem)]
    cases hlink : g.getLink u v with
    | none => simp [arcs, hedge, hlink]
    | some link =>
      by_cases hactive : link.status = "active"
      · simp [arcs, hedge, hlink, hactive, relax, hnot]
      · simp [arcs, hedge, hlink, hactive]
  · rw [if_pos hmem]
    by_cases hreg : g.Registered v
    · have hin : v ∈ visited := by
        by_contra hnot
        exact hmem ((hvis v).mpr ⟨hreg,hnot⟩)
      cases hedge : g.edge u v with
      | none => simp [arcs, hedge]
      | some w => simp [arcs, hedge, relax, hin]
    · simp [arcs, edge_of_not_registered hreg]

theorem look_foldl {visited unvisited : Finset String} (hu : g.Registered u)
    (hself : u ∈ visited) (hvis : ∀ x, x ∈ unvisited ↔ g.Registered x ∧ x ∉ visited)
    (ns : List String) (hns : ∀ n ∈ ns, n ∈ g.neighbourSet u) (L : Labels String ℚ) :
    ns.foldl (g.look unvisited u) L =
      (g.arcs u ns).foldl (relax visited u (L.dist u)) L := by
  induction ns generalizing L with
  | nil => rfl
  | cons n ns ih =>
    have hone := look_eq_relax (L := L) hu (hns n List.mem_cons_self) hvis
    have hdist : (g.look unvisited u L n).dist u = L.dist u := by
      rw [hone]
      exact ((looked_foldl visited u (L.dist u) (g.arcs u [n]) L).kept u hself).1
    have happ : g.arcs u (n :: ns) = g.arcs u [n] ++ g.arcs u ns :=
      List.filterMap_append (l := [n])
    rw [List.foldl_cons, ih (fun m hm => hns m (List.mem_cons_of_mem n hm)), hdist, happ,
      List.foldl_append, hone]

/-- The inner loop looks at all edges of a node. -/
theorem relaxed_foldl {visited unvisited : Finset String} (hu : g.Registered u)
    (hself : u ∈ visited) (hvis : ∀ x, x ∈ unvisited ↔ g.Registered x ∧ x ∉ visited)
    (order : SetOrder) (L : Labels String ℚ) :
    Relaxed g.edge visited u L
      ((order.list (g.neighbourSet u)).foldl (g.look unvisited u) L) := by
  rw [look_foldl hu hself hvis _ fun n hn => (order.mem_list _ n).mp hn]
  refine (looked_foldl visited u (L.dist u) _ L).relaxed ?_ ?_
  · intro v _ w hw
    refine mem_arcs.mpr ⟨(order.mem_list _ v).mpr ?_,hw⟩
    unfold edge at hw
    split_ifs at hw with hreg
    exact hreg.2.2
  · intro v _ w hw
    exact ⟨w,(mem_arcs.mp hw).2,le_rfl⟩

section Search
variable (hpos : ∀ u v w, g.edge u v = some w → 0 ≤ w) (hsrc : g.Registered src)

include hsrc in
/-- The nearest of the unvisited nodes is the nearest of all nodes that are not settled, since those
that are not registered are at no distance. -/
theorem nearest_of_argmin (order : SetOrder) {visited unvisited : Finset String}
    (hvis : ∀ x, x ∈ unvisited ↔ g.Registered x ∧ x ∉ visited) (h : Settled g.edge src visited L)
    (hmin : (order.list unvisited).argmin L.dist = some u) :
    g.Registered u ∧ Nearest visited L u := by
  obtain ⟨hreg,hnot⟩ := (hvis u).mp ((order.mem_list unvisited u).mp (List.argmin_mem hmin))
  refine ⟨hreg,hnot,fun v hv => ?_⟩
  by_cases hmem : v ∈ unvisited
  · exact List.le_of_mem_argmin ((order.mem_list unvisited v).mpr hmem) hmin
  · have hreg : ¬ g.Registered v := fun hreg => hmem ((hvis v).mpr ⟨hreg,hv⟩)
    have htop : L.dist v = ⊤ :=
      h.dist_eq_top (fun he => hreg (he ▸ hsrc)) fun x => edge_of_not_registered hreg
    rw [htop]
    exact le_top

include hpos hsrc

/-- At its end the search has found the nearest of the nodes that it has not settled: it is the
target. -/
theorem search_nearest (order order' : ℕ → SetOrder) (n : ℕ) {visited unvisited : Finset String}
    (hn : unvisited.card ≤ n) (htgt : tgt ∈ unvisited) (hsub : visited ⊆ g.nodeIds)
    (hvis : ∀ x, x ∈ unvisited ↔ g.Registered x ∧ x ∉ visited)
    (h : Settled g.edge src visited L) :
    ∃ settled, settled ⊆ g.nodeIds ∧
      Settled g.edge src settled (search order order' g tgt n unvisited L) ∧
      Nearest settled (search order order' g tgt n unvisited L) tgt := by
  induction n generalizing visited unvisited L with
  | zero =>
    rw [Nat.le_zero, Finset.card_eq_zero] at hn
    rw [hn] at htgt
    cases htgt
  | succ n ih =>
    rw [search]
    cases hmin : ((order n).list unvisited).argmin L.dist with
    | none =>
      have hmem := ((order n).mem_list unvisited tgt).mpr htgt
      rw [List.argmin_eq_none.mp hmin] at hmem
      cases hmem
    | some current =>
      obtain ⟨hreg,hnear⟩ := nearest_of_argmin hsrc (order n) hvis h hmin
      have hcur : current ∈ unvisited := (hvis current).mpr ⟨hreg,hnear.1⟩
      dsimp only
      by_cases hinf : L.dist current = ⊤
      · rw [if_pos hinf]
        refine ⟨visited,hsub,h,((hvis tgt).mp htgt).2,fun v hv => ?_⟩
        have htop : L.dist v = ⊤ := top_le_iff.mp (hinf ▸ hnear.2 v hv)
        rw [htop]
        exact le_top
      rw [if_neg hinf]
      by_cases hend : current = tgt
      · rw [if_pos hend]
        exact ⟨visited,hsub,h,hend ▸ hnear⟩
      rw [if_neg hend]
      have hvis' : ∀ x, x ∈ unvisited.erase current ↔
          g.Registered x ∧ x ∉ insert current visited := by
        intro x
        rw [Finset.mem_erase, hvis, Finset.mem_insert]
        tauto
      have hself := Finset.mem_insert_self current visited
      refine ih ?_ (Finset.mem_erase.mpr ⟨Ne.symm hend,htgt⟩)
        (Finset.insert_subset (mem_nodeIds.mpr hreg) hsub) hvis' ?_
      · rw [Finset.card_erase_of_mem hcur]
        omega
      · exact h.settle hpos hnear (relaxed_foldl hreg hself hvis' (order' n) L) hinf

/-- The search ends, and what it returns is a shortest walk, or nothing when there is no walk. -/
theorem shortestPath_spec (order order' : ℕ → SetOrder) (htgt : g.Registered tgt) :
    (∃ path d, g.shortestPath order order' src tgt = some (path,((d : ℚ) : WithTop ℚ)) ∧
        Walk g.edge src tgt path d ∧ ∀ p d', Walk g.edge src tgt p d' → d ≤ d') ∨
      (g.shortestPath order order' src tgt = some ([],⊤) ∧ ∀ p d, ¬ Walk g.edge src tgt p d) := by
  have hvis : ∀ x, x ∈ g.nodeIds ↔ g.Registered x ∧ x ∉ (∅ : Finset String) := fun x => by
    rw [mem_nodeIds]
    exact (and_iff_left (Finset.notMem_empty x)).symm
  obtain ⟨settled,hsub,h,hnear⟩ := search_nearest hpos hsrc order order' g.nodeIds.card le_rfl
    (mem_nodeIds.mpr htgt) (Finset.empty_subset _) hvis (settled_initial src)
  rw [shortestPath, if_neg (not_or.mpr ⟨not_not.mpr hsrc,not_not.mpr htgt⟩)]
  dsimp only
  generalize search order order' g tgt g.nodeIds.card g.nodeIds (Labels.initial src) = L
    at h hnear ⊢
  by_cases hinf : L.dist tgt = ⊤
  · right
    rw [if_pos hinf]
    refine ⟨rfl,fun p d hp => ?_⟩
    exact WithTop.not_top_le_coe d (hinf ▸ h.optimal hpos hnear hp)
  · left
    obtain ⟨d,hd⟩ := WithTop.ne_top_iff_exists.mp hinf
    have hcard : settled.card+1 ≤ g.nodeIds.card := by
      rw [← Finset.card_insert_of_notMem hnear.1]
      exact Finset.card_le_card (Finset.insert_subset (mem_nodeIds.mpr htgt) hsub)
    obtain ⟨path,hpath,hback⟩ := h.followBack hd.symm hcard
    refine ⟨path,d,?_,hpath,fun p d' hp => ?_⟩
    · rw [if_neg hinf, hback, Option.map_some, List.reverse_reverse, hd]
    · have hle := h.optimal hpos hnear hp
      rw [← hd] at hle
      exact WithTop.coe_le_coe.mp hle

end Search

end InfrastructureGraph

/-- The latency of a link that the call adds is not negative. -/
def GraphCall.NonNegative : GraphCall → Prop
  | .addLink _ link => 0 ≤ link.latencyMs
  | _ => True

namespace InfrastructureGraph

theorem latency_run {calls : List GraphCall} (h : ∀ call ∈ calls, call.NonNegative) (k : String) :
    ∀ link ∈ (run exec empty calls).links.get? k, 0 ≤ link.latencyMs := by
  have hstep : ∀ (g : InfrastructureGraph) (call : GraphCall), call.NonNegative →
      (∀ k, ∀ link ∈ g.links.get? k, 0 ≤ link.latencyMs) →
      ∀ k, ∀ link ∈ (g.exec call).links.get? k, 0 ≤ link.latencyMs := by
    intro g call hcall hg k link hlink
    obtain hlink | ⟨now,new,rfl,rfl⟩ := get?_exec hlink
    · exact hg k link hlink
    · exact hcall
  exact run_invariant hstep (along_of_forall h empty) (fun k link hlink => nomatch hlink) k

theorem edge_nonneg {g : InfrastructureGraph}
    (h : ∀ k, ∀ link ∈ g.links.get? k, 0 ≤ link.latencyMs) (u v : String) (w : ℚ)
    (hw : g.edge u v = some w) : 0 ≤ w := by
  unfold edge at hw
  split_ifs at hw
  obtain ⟨link,hlink,rfl⟩ := Option.map_eq_some_iff.mp hw
  have hstored := (Option.filter_eq_some_iff.mp hlink).1
  obtain hstored | ⟨-,hstored⟩ := Option.or_eq_some_iff.mp hstored
  · exact h _ link hstored
  · exact h _ link hstored

/-- Two hops of latency 1 against one of latency 5, which is stored the other way round. -/
def detour : List GraphCall :=
  [.addNode 0 { nodeId := "a" },.addNode 0 { nodeId := "b" },.addNode 0 { nodeId := "c" },
    .addLink 1 { source := "b", target := "a", latencyMs := 5 },
    .addLink 1 { source := "a", target := "c", latencyMs := 1 },
    .addLink 1 { source := "b", target := "c", latencyMs := 1 }]

end InfrastructureGraph
end Arsonist.FabricCore
