import Arsonist.Library.Keyed
import Arsonist.Library.ShortestPaths
import Mathlib.Data.List.MinMax
import Mathlib.Data.List.Sort
import Mathlib.Data.Prod.Lex
import Mathlib.Data.String.Basic

/-! The links between regions, and the path of least latency over the healthy ones: a search with a
heap, in which a region may stand more than once. -/
namespace Arsonist.Fabric
open Library Library.ShortestPaths

structure TopologyLink where
  source : String
  target : String
  latencyMs : ℚ := 0
  bandwidthMbps : ℚ := 0
  healthy : Bool := true
  updatedAt : ℚ := 0
  deriving DecidableEq, Repr

instance : Keyed TopologyLink (String × String) := ⟨fun link => (link.source,link.target)⟩

@[simp] theorem key_link (link : TopologyLink) :
    Keyed.key link = (link.source,link.target) := rfl

/-- An entry of `graph`: a region and the healthy links at it, in both directions. -/
structure GraphRow where
  region : String
  arcs : List (String × ℚ)
  deriving DecidableEq, Repr

instance : Keyed GraphRow String := ⟨GraphRow.region⟩

@[simp] theorem key_row (row : GraphRow) : Keyed.key row = row.region := rfl

structure TopologyManager where
  links : Table TopologyLink

/-- `graph.get(region, [])`. -/
def arcsOf (graph : Table GraphRow) (region : String) : List (String × ℚ) :=
  ((graph.get? region).map GraphRow.arcs).getD []

/-- `graph[src].append((dst, latency_ms))`, where `graph[src]` is made if need be. -/
def addArc (graph : Table GraphRow) (src dst : String) (latencyMs : ℚ) : Table GraphRow :=
  graph.put ⟨src,arcsOf graph src ++ [(dst,latencyMs)]⟩

/-- The body of the loop that builds `graph`. -/
def addLink (graph : Table GraphRow) (link : TopologyLink) : Table GraphRow :=
  if ¬ link.healthy then graph
  else addArc (addArc graph link.source link.target link.latencyMs) link.target link.source
    link.latencyMs

/-- An arc of the settled `node`, which has the distance `d`. -/
def lookAt (visited : Finset String) (node : String) (d : ℚ)
    (s : Labels String ℚ × List (ℚ × String)) (arc : String × ℚ) :
    Labels String ℚ × List (ℚ × String) :=
  let (neighbor,weight) := arc
  if neighbor ∈ visited then s
  else
    let newDist := d+weight
    if (newDist : WithTop ℚ) < s.1.dist neighbor then
      (s.1.set neighbor newDist node,s.2 ++ [(newDist,neighbor)])
    else s

/-- The loop over the heap, of which the least pair is popped. `none` when it needs more than so
many rounds, `some none` when the heap is empty at last. -/
def search (graph : Table GraphRow) (target : String) :
    ℕ → Labels String ℚ → List (ℚ × String) → Finset String → Option (Option (List String))
  | 0, _, _, _ => none
  | n+1, L, heap, visited =>
    match heap.argmin toLex with
    | none => some none
    | some (d,node) =>
      let heap := heap.erase (d,node)
      if node ∈ visited then search graph target n L heap visited
      else
        let visited := insert node visited
        if node = target then
          (followBack L.prev visited.card (some target) []).map fun path => some path.reverse
        else
          let (L,heap) := (arcsOf graph node).foldl (lookAt visited node d) (L,heap)
          search graph target n L heap visited

/-- The regions of the graph. -/
def regions (graph : Table GraphRow) : Finset String := (graph.entries.map GraphRow.region).toFinset

/-- A bound on the rounds of the loop: each arc is pushed at most once. -/
def rounds (graph : Table GraphRow) : ℕ :=
  (∑ region ∈ regions graph, (arcsOf graph region).length)+2

namespace TopologyManager

def updateLink (now : ℚ) (t : TopologyManager) (source target : String) (latencyMs : ℚ)
    (bandwidthMbps : ℚ) (healthy : Bool) : TopologyManager :=
  ⟨t.links.put ⟨source,target,latencyMs,bandwidthMbps,healthy,now⟩⟩

def removeLink (t : TopologyManager) (source target : String) : TopologyManager :=
  ⟨t.links.erase (source,target)⟩

/-- `sorted(result)`, where `result` collects the other ends of the healthy links of a region. -/
def neighbors (t : TopologyManager) (regionId : String) : List String :=
  let result := t.links.entries.filterMap fun link =>
    if ¬ link.healthy then none
    else if link.source = regionId then some link.target
    else if link.target = regionId then some link.source
    else none
  result.eraseDups.insertionSort (· ≤ ·)

def graph (t : TopologyManager) : Table GraphRow := t.links.entries.foldl addLink .empty

/-- `none` when a loop does not end. -/
def shortestPath (t : TopologyManager) (source target : String) : Option (Option (List String)) :=
  if (t.graph.get? source).isNone then some none
  else search t.graph target (rounds t.graph) (Labels.initial source) [(0,source)] ∅

/-- A healthy link joins two regions, in either direction. -/
def Joins (link : TopologyLink) (u v : String) : Prop :=
  link.healthy = true ∧
    (link.source = u ∧ link.target = v ∨ link.source = v ∧ link.target = u)

instance (link : TopologyLink) (u v : String) : Decidable (Joins link u v) :=
  inferInstanceAs (Decidable (_ ∧ _))

/-- Some healthy link joins two regions. -/
def Joined (t : TopologyManager) (u v : String) : Prop := ∃ link ∈ t.links.entries, Joins link u v

/-- The least latency of the healthy links that join two regions. -/
def latency (t : TopologyManager) (u v : String) : Option ℚ :=
  ((t.links.entries.filter fun link => Joins link u v).map TopologyLink.latencyMs).min?

end TopologyManager
end Arsonist.Fabric

/-! The path that the search over the heap finds has the least latency. Of the pairs in the heap
that name one region the least is its distance, and the others are skipped when they come. -/
namespace Arsonist.Fabric
open Library Library.ShortestPaths

section Graph
variable (graph : Table GraphRow) (link : TopologyLink) (x y : String) (w : ℚ)

theorem arcsOf_addArc (u v : String) : arcsOf (addArc graph u v w) x =
    if x = u then arcsOf graph u ++ [(v,w)] else arcsOf graph x := by
  rw [addArc, arcsOf, Table.get?_put, key_row]
  by_cases h : x = u
  · rw [if_pos h, if_pos h]
    rfl
  · rw [if_neg h, if_neg h]
    rfl

theorem mem_arcsOf_addArc (u v : String) : (y,w) ∈ arcsOf (addArc graph u v link.latencyMs) x ↔
    (y,w) ∈ arcsOf graph x ∨ (u = x ∧ v = y) ∧ link.latencyMs = w := by
  rw [arcsOf_addArc]
  by_cases h : x = u
  · subst h
    rw [if_pos rfl, List.mem_append, List.mem_singleton, Prod.mk.injEq]
    simp only [true_and, eq_comm]
  · rw [if_neg h]
    simp [Ne.symm h]

theorem mem_arcsOf_addLink : (y,w) ∈ arcsOf (addLink graph link) x ↔
    (y,w) ∈ arcsOf graph x ∨ TopologyManager.Joins link x y ∧ link.latencyMs = w := by
  unfold addLink TopologyManager.Joins
  cases link.healthy with
  | false => simp
  | true =>
    rw [if_neg (by simp), mem_arcsOf_addArc, mem_arcsOf_addArc]
    tauto

theorem mem_arcsOf_foldl (links : List TopologyLink) :
    (y,w) ∈ arcsOf (links.foldl addLink graph) x ↔ (y,w) ∈ arcsOf graph x ∨
      ∃ link ∈ links, TopologyManager.Joins link x y ∧ link.latencyMs = w := by
  induction links generalizing graph with
  | nil => simp
  | cons link links ih =>
    rw [List.foldl_cons, ih, mem_arcsOf_addLink, or_assoc]
    simp only [List.mem_cons, exists_eq_or_imp]

end Graph

namespace TopologyManager
variable {t : TopologyManager} {u v : String} {w : ℚ}

theorem mem_arcsOf_graph : (v,w) ∈ arcsOf t.graph u ↔
    ∃ link ∈ t.links.entries, Joins link u v ∧ link.latencyMs = w := by
  rw [graph, mem_arcsOf_foldl]
  exact or_iff_right List.not_mem_nil

theorem latency_eq_some : t.latency u v = some w ↔
    (v,w) ∈ arcsOf t.graph u ∧ ∀ w', (v,w') ∈ arcsOf t.graph u → w ≤ w' := by
  have hmem : ∀ x, x ∈ (t.links.entries.filter fun link => Joins link u v).map
      TopologyLink.latencyMs ↔ (v,x) ∈ arcsOf t.graph u := fun x => by
    rw [mem_arcsOf_graph]
    simp [and_assoc]
  rw [latency, List.min?_eq_some_iff, hmem]
  simp only [hmem]

theorem latency_isSome : (t.latency u v).isSome = true ↔ t.Joined u v := by
  rw [latency, List.isSome_min?_iff, ne_eq, List.map_eq_nil_iff, List.filter_eq_nil_iff]
  simp [Joined]

/-- The neighbours of a region are those that a healthy link joins with it. -/
theorem mem_neighbors : v ∈ t.neighbors u ↔ t.Joined u v := by
  rw [neighbors, List.mem_insertionSort, List.mem_eraseDups, List.mem_filterMap]
  refine exists_congr fun link => and_congr_right fun _ => ?_
  unfold Joins
  cases link.healthy with
  | false => simp
  | true =>
    rw [if_neg (by simp)]
    by_cases hsrc : link.source = u
    · rw [if_pos hsrc, Option.some.injEq]
      constructor
      · rintro rfl
        exact ⟨rfl,Or.inl ⟨hsrc,rfl⟩⟩
      · rintro ⟨-,⟨-,htgt⟩ | ⟨hv,hu⟩⟩
        · exact htgt
        · exact hu.trans (hsrc.symm.trans hv)
    · rw [if_neg hsrc]
      by_cases htgt : link.target = u
      · rw [if_pos htgt, Option.some.injEq]
        simp [hsrc, htgt]
      · rw [if_neg htgt]
        simp [hsrc, htgt]

/-- Each arc of the graph has the latency of its regions as its weight, or more. -/
theorem latency_le (h : (v,w) ∈ arcsOf t.graph u) : ∃ w', t.latency u v = some w' ∧ w' ≤ w := by
  obtain ⟨link,hlink,hjoins,-⟩ := mem_arcsOf_graph.mp h
  obtain ⟨w',hw'⟩ := Option.isSome_iff_exists.mp (latency_isSome.mpr ⟨link,hlink,hjoins⟩)
  exact ⟨w',hw',(latency_eq_some.mp hw').2 w h⟩

end TopologyManager

section Heap
variable {visited : Finset String} {L : Labels String ℚ} {heap : List (ℚ × String)}
  {node : String} {d : ℚ}

/-- The heap holds the distance of each region that is not settled, and no smaller value for it. -/
structure Queued (visited : Finset String) (L : Labels String ℚ) (heap : List (ℚ × String)) :
    Prop where
  le : ∀ e ∈ heap, L.dist e.2 ≤ (e.1 : ℚ)
  mem : ∀ v, v ∉ visited → ∀ d, L.dist v = ((d : ℚ) : WithTop ℚ) → (d,v) ∈ heap

theorem lookAt_fst (visited : Finset String) (node : String) (d : ℚ)
    (s : Labels String ℚ × List (ℚ × String)) (arc : String × ℚ) :
    (lookAt visited node d s arc).1 = relax visited node d s.1 arc := by
  unfold lookAt relax
  dsimp only
  rw [← WithTop.coe_add]
  split_ifs <;> rfl

theorem lookAt_length (visited : Finset String) (node : String) (d : ℚ)
    (s : Labels String ℚ × List (ℚ × String)) (arc : String × ℚ) :
    (lookAt visited node d s arc).2.length ≤ s.2.length+1 := by
  unfold lookAt
  dsimp only
  split_ifs
  · exact Nat.le_succ _
  · rw [List.length_append]
    rfl
  · exact Nat.le_succ _

theorem foldl_lookAt (visited : Finset String) (node : String) (d : ℚ) (arcs : List (String × ℚ))
    (s : Labels String ℚ × List (ℚ × String)) :
    (arcs.foldl (lookAt visited node d) s).1 = arcs.foldl (relax visited node d) s.1 ∧
      (arcs.foldl (lookAt visited node d) s).2.length ≤ s.2.length+arcs.length := by
  induction arcs generalizing s with
  | nil => exact ⟨rfl,le_rfl⟩
  | cons arc arcs ih =>
    obtain ⟨hL,hlen⟩ := ih (lookAt visited node d s arc)
    have hone := lookAt_length visited node d s arc
    rw [List.foldl_cons, List.foldl_cons, ← lookAt_fst, List.length_cons]
    exact ⟨hL,by omega⟩

theorem Queued.lookAt {s : Labels String ℚ × List (ℚ × String)} (h : Queued visited s.1 s.2)
    (arc : String × ℚ) :
    Queued visited (lookAt visited node d s arc).1 (lookAt visited node d s arc).2 := by
  obtain ⟨neighbor,weight⟩ := arc
  unfold Fabric.lookAt
  dsimp only
  by_cases hvis : neighbor ∈ visited
  · rw [if_pos hvis]
    exact h
  rw [if_neg hvis]
  by_cases hlt : ((d+weight : ℚ) : WithTop ℚ) < s.1.dist neighbor
  · rw [if_pos hlt]
    constructor
    · intro e he
      by_cases hv : e.2 = neighbor
      · rw [hv, Labels.set_dist_self]
        obtain he | he := List.mem_append.mp he
        · exact hlt.le.trans (hv ▸ h.le e he)
        · rw [List.mem_singleton.mp he]
      · rw [Labels.set_dist_of_ne _ _ _ hv]
        obtain he | he := List.mem_append.mp he
        · exact h.le e he
        · exact absurd (congrArg Prod.snd (List.mem_singleton.mp he)) hv
    · intro v hv x hx
      by_cases hn : v = neighbor
      · rw [hn, Labels.set_dist_self] at hx
        rw [← WithTop.coe_injective hx, hn]
        exact List.mem_append_right _ (List.mem_singleton.mpr rfl)
      · rw [Labels.set_dist_of_ne _ _ _ hn] at hx
        exact List.mem_append_left _ (h.mem v hv x hx)
  · rw [if_neg hlt]
    exact h

theorem Queued.foldl (arcs : List (String × ℚ)) {s : Labels String ℚ × List (ℚ × String)}
    (h : Queued visited s.1 s.2) :
    Queued visited (arcs.foldl (Fabric.lookAt visited node d) s).1
      (arcs.foldl (Fabric.lookAt visited node d) s).2 := by
  induction arcs generalizing s with
  | nil => exact h
  | cons arc arcs ih => exact ih (h.lookAt arc)

/-- A pair of a settled region may go. -/
theorem Queued.erase (h : Queued visited L heap) (hnode : node ∈ visited) :
    Queued visited L (heap.erase (d,node)) where
  le e he := h.le e (List.mem_of_mem_erase he)
  mem v hv x hx := by
    refine (List.mem_erase_of_ne ?_).mpr (h.mem v hv x hx)
    rintro he
    obtain ⟨-,rfl⟩ := Prod.mk.inj he
    exact hv hnode

theorem Queued.mono {visited' : Finset String} (h : Queued visited L heap)
    (hsub : visited ⊆ visited') : Queued visited' L heap :=
  ⟨h.le,fun v hv => h.mem v fun hmem => hv (hsub hmem)⟩

/-- The least pair, when it is that of a region not settled, is its distance, and no other region
is nearer. -/
theorem Queued.nearest (h : Queued visited L heap) (hmin : heap.argmin toLex = some (d,node))
    (hnode : node ∉ visited) : L.dist node = ((d : ℚ) : WithTop ℚ) ∧ Nearest visited L node := by
  have hleast : ∀ e ∈ heap, d ≤ e.1 := fun e he =>
    Prod.Lex.monotone_fst _ _ (List.le_of_mem_argmin he hmin)
  have hdist : L.dist node = ((d : ℚ) : WithTop ℚ) := by
    have hle := h.le (d,node) (List.argmin_mem hmin)
    obtain ⟨x,hx⟩ := WithTop.ne_top_iff_exists.mp (ne_top_of_le_ne_top (WithTop.coe_ne_top) hle)
    refine le_antisymm hle ?_
    rw [← hx]
    exact WithTop.coe_le_coe.mpr (hleast _ (h.mem node hnode x hx.symm))
  refine ⟨hdist,hnode,fun v hv => ?_⟩
  rw [hdist]
  cases hx : L.dist v with
  | top => exact le_top
  | coe x => exact WithTop.coe_le_coe.mpr (hleast _ (h.mem v hv x hx))

end Heap

section Rounds
variable {graph : Table GraphRow}

/-- The arcs that may still be pushed. -/
def pending (graph : Table GraphRow) (visited : Finset String) : ℕ :=
  ∑ region ∈ regions graph \ visited, (arcsOf graph region).length

theorem arcsOf_of_not_mem {x : String} (h : x ∉ regions graph) : arcsOf graph x = [] := by
  have hnone : graph.get? x = none := Table.get?_eq_none_iff.mpr fun hx =>
    h (List.mem_toFinset.mpr hx)
  rw [arcsOf, hnone]
  rfl

theorem pending_insert (graph : Table GraphRow) {visited : Finset String} {node : String}
    (h : node ∉ visited) :
    pending graph (insert node visited)+(arcsOf graph node).length = pending graph visited := by
  rw [pending, pending, Finset.sdiff_insert]
  by_cases hmem : node ∈ regions graph
  · exact Finset.sum_erase_add _ _ (Finset.mem_sdiff.mpr ⟨hmem,h⟩)
  · rw [arcsOf_of_not_mem hmem, List.length_nil, Nat.add_zero, Finset.erase_eq_of_notMem]
    exact fun hin => hmem (Finset.mem_sdiff.mp hin).1

end Rounds

section Search
variable {graph : Table GraphRow} {weight : String → String → Option ℚ} {source target : String}
  (hpos : ∀ u v w, weight u v = some w → 0 ≤ w)
  (hall : ∀ u v w, weight u v = some w → (v,w) ∈ arcsOf graph u)
  (hsome : ∀ u v w, (v,w) ∈ arcsOf graph u → ∃ w', weight u v = some w' ∧ w' ≤ w)

include hall hsome in
/-- The inner loop looks at all arcs of a region that is settled. -/
theorem relaxed_lookAt {visited : Finset String} {node : String} {d : ℚ}
    {L : Labels String ℚ} (hdist : L.dist node = ((d : ℚ) : WithTop ℚ))
    (heap : List (ℚ × String)) :
    Relaxed weight visited node L
      ((arcsOf graph node).foldl (lookAt visited node d) (L,heap)).1 := by
  rw [(foldl_lookAt visited node d (arcsOf graph node) (L,heap)).1, ← hdist]
  exact (looked_foldl _ _ _ _ _).relaxed (fun v _ w => hall node v w)
    fun v _ w => hsome node v w

include hpos in
/-- With an empty heap, no walk leads to a region that is not settled. -/
theorem no_walk_of_empty {visited : Finset String} {L : Labels String ℚ}
    (h : Settled weight source visited L) (hq : Queued visited L []) (htgt : target ∉ visited)
    (p : List String) (d : ℚ) : ¬ Walk weight source target p d := by
  intro hp
  have hfar : ∀ v, v ∉ visited → L.dist v = ⊤ := by
    intro v hv
    by_contra hfin
    obtain ⟨x,hx⟩ := WithTop.ne_top_iff_exists.mp hfin
    cases hq.mem v hv x hx.symm
  have hnear : Nearest visited L target := ⟨htgt,fun v hv => by rw [hfar v hv]; exact le_top⟩
  exact WithTop.not_top_le_coe d (hfar target htgt ▸ h.optimal hpos hnear hp)

include hpos hall hsome in
/-- The loop comes to its end, with the walk that the labels of the target name, or with an empty
heap, and then no walk leads to the target. -/
theorem search_spec (n : ℕ) {L : Labels String ℚ} {heap : List (ℚ × String)}
    {visited : Finset String} (hn : heap.length+pending graph visited < n)
    (h : Settled weight source visited L) (hq : Queued visited L heap) (htgt : target ∉ visited) :
    (∃ path d, search graph target n L heap visited = some (some path) ∧
        Walk weight source target path d ∧ ∀ p d', Walk weight source target p d' → d ≤ d') ∨
      (search graph target n L heap visited = some none ∧
        ∀ p d, ¬ Walk weight source target p d) := by
  induction n generalizing L heap visited with
  | zero => omega
  | succ n ih =>
    rw [search]
    cases hmin : heap.argmin toLex with
    | none =>
      obtain rfl := List.argmin_eq_none.mp hmin
      exact Or.inr ⟨rfl,no_walk_of_empty hpos h hq htgt⟩
    | some e =>
      obtain ⟨d,node⟩ := e
      have hlen := List.length_erase_of_mem (List.argmin_mem hmin)
      have hheap := List.length_pos_of_mem (List.argmin_mem hmin)
      dsimp only
      by_cases hvis : node ∈ visited
      · rw [if_pos hvis]
        exact ih (by omega) h (hq.erase hvis) htgt
      rw [if_neg hvis]
      obtain ⟨hdist,hnear⟩ := hq.nearest hmin hvis
      by_cases hend : node = target
      · left
        subst hend
        have hcard : visited.card+1 ≤ (insert node visited).card :=
          (Finset.card_insert_of_notMem hvis).ge
        obtain ⟨path,hpath,hback⟩ := h.followBack hdist hcard
        refine ⟨path,d,?_,hpath,fun p d' hp => ?_⟩
        · rw [if_pos rfl, hback, Option.map_some, List.reverse_reverse]
        · exact WithTop.coe_le_coe.mp (hdist ▸ h.optimal hpos hnear hp)
      · rw [if_neg hend]
        obtain ⟨-,hfold⟩ :=
          foldl_lookAt (insert node visited) node d (arcsOf graph node) (L,heap.erase (d,node))
        have hnext : Queued (insert node visited) L (heap.erase (d,node)) :=
          (hq.mono (Finset.subset_insert node visited)).erase
            (Finset.mem_insert_self node visited)
        have hpend := pending_insert graph hvis
        refine ih ?_ (h.settle hpos hnear (relaxed_lookAt hall hsome hdist _)
          (hdist ▸ WithTop.coe_ne_top)) (hnext.foldl (arcsOf graph node)) ?_
        · dsimp only at hfold
          omega
        · rw [Finset.mem_insert, not_or]
          exact ⟨Ne.symm hend,htgt⟩

end Search

namespace TopologyManager
variable {t : TopologyManager} {source target : String}

/-- What is returned, when no latency is negative. -/
theorem shortestPath_spec (hpos : ∀ link ∈ t.links.entries, 0 ≤ link.latencyMs)
    (hne : source ≠ target) :
    (∃ path d, t.shortestPath source target = some (some path) ∧
        Walk t.latency source target path d ∧
        ∀ p d', Walk t.latency source target p d' → d ≤ d') ∨
      (t.shortestPath source target = some none ∧ ∀ p d, ¬ Walk t.latency source target p d) := by
  have hlat : ∀ u v w, t.latency u v = some w → 0 ≤ w := by
    intro u v w hw
    obtain ⟨link,hlink,-,rfl⟩ := mem_arcsOf_graph.mp (latency_eq_some.mp hw).1
    exact hpos link hlink
  unfold shortestPath
  by_cases hin : (t.graph.get? source).isNone
  · right
    rw [if_pos hin]
    refine ⟨rfl,fun p d hp => ?_⟩
    have harcs : arcsOf t.graph source = [] := by
      rw [arcsOf, Option.isNone_iff_eq_none.mp hin]
      rfl
    have hnone : ∀ v, ¬ t.Joined source v := by
      rintro v ⟨link,hlink,hjoins⟩
      have hmem : (v,link.latencyMs) ∈ arcsOf t.graph source :=
        mem_arcsOf_graph.mpr ⟨link,hlink,hjoins,rfl⟩
      rw [harcs] at hmem
      cases hmem
    obtain heq | ⟨v,hv,-⟩ := (exists_walk_iff.mp ⟨p,d,hp⟩).cases_head
    · exact hne heq
    · exact hnone v (latency_isSome.mp hv)
  · rw [if_neg hin]
    have hsource : (Labels.initial source : Labels String ℚ).dist source = ((0 : ℚ) : WithTop ℚ) :=
      if_pos rfl
    have hqueued : Queued ∅ (Labels.initial source : Labels String ℚ) [(0,source)] := by
      constructor
      · intro e he
        rw [List.mem_singleton.mp he]
        exact hsource.le
      · intro v _ d hd
        by_cases hv : v = source
        · subst hv
          rw [← WithTop.coe_injective (hsource.symm.trans hd)]
          exact List.mem_singleton.mpr rfl
        · have htop : (Labels.initial source : Labels String ℚ).dist v = ⊤ := if_neg hv
          rw [htop] at hd
          cases hd
    refine search_spec hlat (fun u v w hw => (latency_eq_some.mp hw).1)
      (fun u v w hw => latency_le hw) _ ?_ (settled_initial source) hqueued
      (Finset.notMem_empty target)
    rw [rounds, pending, Finset.sdiff_empty, List.length_singleton]
    omega

/-- Two regions with links both ways, of which the quicker one is down, and a way round of two links
after a third one is gone. -/
def roundabout : TopologyManager :=
  let t : TopologyManager := ⟨.empty⟩
  let direct := (t.updateLink 0 "a" "b" 9 100 true).updateLink 0 "b" "a" 1 100 false
  let round := (direct.updateLink 0 "c" "a" 2 100 true).updateLink 0 "b" "c" 3 100 true
  (round.updateLink 0 "a" "d" 1 100 true).removeLink "a" "d"

end TopologyManager
end Arsonist.Fabric
