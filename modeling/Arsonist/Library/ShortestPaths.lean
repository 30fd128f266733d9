import Mathlib.Algebra.Order.Monoid.WithTop
import Mathlib.Data.Finset.Card
import Mathlib.Data.Finset.Insert
import Mathlib.Data.List.Nodup
import Mathlib.Logic.Relation
import Mathlib.Tactic

/-! Least distances from a source in a graph with weights of at least `0`: what a search that
settles one nearest vertex after the other knows about them. How it finds the nearest vertex, and
in which order it looks at the arcs of a vertex, is left to the search. -/
namespace Arsonist.Library.ShortestPaths

variable {V W : Type*}

/-- The walks from `s`, each with its end, the vertices it visits and its total weight. -/
inductive Walk [AddCommMonoid W] (weight : V → V → Option W) (s : V) : V → List V → W → Prop
  | start : Walk weight s s [s] 0
  | step {u v : V} {p : List V} {d w : W} :
      Walk weight s u p d → weight u v = some w → Walk weight s v (p ++ [v]) (d+w)

/-- The vertices that walks end at are those that arcs lead to. -/
theorem exists_walk_iff [AddCommMonoid W] {weight : V → V → Option W} {s v : V} :
    (∃ p d, Walk weight s v p d) ↔
      Relation.ReflTransGen (fun u v => (weight u v).isSome = true) s v := by
  constructor
  · rintro ⟨p,d,hp⟩
    induction hp with
    | start => exact .refl
    | step _ hw ih => exact ih.tail (Option.isSome_of_mem hw)
  · intro h
    induction h with
    | refl => exact ⟨[s],0,.start⟩
    | tail _ hw ih =>
      obtain ⟨p,d,hp⟩ := ih
      obtain ⟨w,hw⟩ := Option.isSome_iff_exists.mp hw
      exact ⟨p ++ [_],d+w,.step hp hw⟩

/-- What a search has found out so far: a distance for each vertex, and the vertex before it. -/
structure Labels (V W : Type*) where
  dist : V → WithTop W
  prev : V → Option V

/-- Nothing is known but the source. -/
def Labels.initial [DecidableEq V] [Zero W] (s : V) : Labels V W :=
  ⟨fun v => if v = s then ((0 : W) : WithTop W) else ⊤,fun _ => none⟩

/-- `dist[v] = d`, `prev[v] = u`. -/
def Labels.set [DecidableEq V] (L : Labels V W) (v : V) (d : WithTop W) (u : V) : Labels V W :=
  ⟨Function.update L.dist v d,Function.update L.prev v (some u)⟩

section Set
variable [DecidableEq V] (L : Labels V W) (d : WithTop W) (u : V) {v x : V}

@[simp] theorem Labels.set_dist_self : (L.set v d u).dist v = d := Function.update_self _ _ _
@[simp] theorem Labels.set_prev_self : (L.set v d u).prev v = some u := Function.update_self _ _ _

theorem Labels.set_dist_of_ne (h : x ≠ v) : (L.set v d u).dist x = L.dist x :=
  Function.update_of_ne h _ _

theorem Labels.set_prev_of_ne (h : x ≠ v) : (L.set v d u).prev x = L.prev x :=
  Function.update_of_ne h _ _

end Set

/-- The loop that collects the vertices from `v` back to one that has none before it. `none` when
it needs more than so many rounds. -/
def followBack (prev : V → Option V) : ℕ → Option V → List V → Option (List V)
  | _, none, path => some path
  | 0, some _, _ => none
  | n+1, some v, path => followBack prev n (prev v) (path ++ [v])

section Traces

/-- The vertices from the source to `v` that `prev` names. All but the last are settled. -/
inductive Trace (L : Labels V W) (visited : Finset V) (s : V) : V → List V → Prop
  | source : L.prev s = none → Trace L visited s s [s]
  | step {u v : V} {p : List V} :
      Trace L visited s u p → u ∈ visited → L.prev v = some u → Trace L visited s v (p ++ [v])

variable {L L' : Labels V W} {visited visited' : Finset V} {s u v : V} {p q : List V}

theorem Trace.unique (hp : Trace L visited s v p) (hq : Trace L visited s v q) : p = q := by
  induction hp generalizing q with
  | source h =>
    cases hq with
    | source _ => rfl
    | step _ _ hprev => rw [h] at hprev; cases hprev
  | step _ _ hprev ih =>
    cases hq with
    | source h => rw [h] at hprev; cases hprev
    | step hu _ hprev' =>
      rw [hprev] at hprev'
      cases hprev'
      rw [ih hu]

/-- Each vertex of a trace has its own trace, which is the part before it. -/
theorem Trace.part (hp : Trace L visited s v p) {x : V} (hx : x ∈ p) :
    ∃ q, Trace L visited s x q ∧ q.length ≤ p.length := by
  induction hp with
  | source h =>
    obtain rfl := List.mem_singleton.mp hx
    exact ⟨[x],.source h,le_rfl⟩
  | @step u v p hu hvis hprev ih =>
    obtain hx | hx := List.mem_append.mp hx
    · obtain ⟨q,hq,hle⟩ := ih hx
      exact ⟨q,hq,hle.trans (by simp)⟩
    · obtain rfl := List.mem_singleton.mp hx
      exact ⟨p ++ [x],.step hu hvis hprev,le_rfl⟩

theorem Trace.nodup (hp : Trace L visited s v p) : p.Nodup := by
  induction hp with
  | source _ => exact List.nodup_singleton _
  | @step u v p hu hvis hprev ih =>
    rw [List.nodup_append]
    refine ⟨ih,List.nodup_singleton v,?_⟩
    rintro x hx y hy rfl
    obtain rfl := List.mem_singleton.mp hy
    obtain ⟨q,hq,hle⟩ := hu.part hx
    rw [hq.unique (.step hu hvis hprev), List.length_append, List.length_singleton] at hle
    omega

theorem Trace.mem [DecidableEq V] (hp : Trace L visited s v p) {x : V} (hx : x ∈ p) :
    x ∈ insert v visited := by
  induction hp with
  | source _ => rw [List.mem_singleton.mp hx]; exact Finset.mem_insert_self _ _
  | @step u v p _ hvis _ ih =>
    obtain hx | hx := List.mem_append.mp hx
    · have hmem := ih hx
      rw [Finset.insert_eq_of_mem hvis] at hmem
      exact Finset.mem_insert_of_mem hmem
    · rw [List.mem_singleton.mp hx]
      exact Finset.mem_insert_self _ _

/-- A trace has at most one vertex more than are settled. -/
theorem Trace.length_le [DecidableEq V] (hp : Trace L visited s v p) :
    p.length ≤ visited.card+1 := by
  rw [← List.toFinset_card_of_nodup hp.nodup]
  refine (Finset.card_le_card fun x hx => ?_).trans (Finset.card_insert_le v visited)
  exact hp.mem (List.mem_toFinset.mp hx)

/-- A trace stays as long as nothing about its end and about the settled vertices changes. -/
theorem Trace.mono (hsub : visited ⊆ visited') (hkept : ∀ u ∈ visited, L'.prev u = L.prev u)
    (hp : Trace L visited s v p) (hv : L'.prev v = L.prev v) : Trace L' visited' s v p := by
  induction hp with
  | source h => exact .source (hv.trans h)
  | step _ hvis hprev ih => exact .step (ih (hkept _ hvis)) (hsub hvis) (hv.trans hprev)

/-- The loop walks a trace back, in as many rounds as it has vertices. -/
theorem Trace.followBack (hp : Trace L visited s v p) {n : ℕ} (hn : p.length ≤ n)
    (path : List V) : followBack L.prev n (some v) path = some (path ++ p.reverse) := by
  induction hp generalizing n path with
  | source h =>
    cases n with
    | zero => cases hn
    | succ n =>
      rw [ShortestPaths.followBack, h]
      cases n <;> rfl
  | step _ _ hprev ih =>
    rw [List.length_append, List.length_singleton] at hn
    cases n with
    | zero => cases hn
    | succ n =>
      rw [ShortestPaths.followBack, hprev, ih (Nat.le_of_succ_le_succ hn),
        List.reverse_append, List.append_assoc]
      rfl

end Traces

variable [AddCommMonoid W] [LinearOrder W] [IsOrderedAddMonoid W]
variable {weight : V → V → Option W} {L L' : Labels V W} {visited : Finset V} {s t u v : V}

/-- What holds of the labels whenever the search is about to settle a vertex. -/
structure Settled (weight : V → V → Option W) (s : V) (visited : Finset V) (L : Labels V W) :
    Prop where
  source : L.dist s = ((0 : W) : WithTop W)
  /-- A distance is that of a walk, which the labels themselves name. -/
  traced : ∀ v d, L.dist v = (d : W) → ∃ p, Trace L visited s v p ∧ Walk weight s v p d
  /-- The arcs of the settled vertices have been looked at. -/
  closed : ∀ u ∈ visited, ∀ v w, weight u v = some w → L.dist v ≤ L.dist u+(w : W)
  /-- No other vertex is nearer than a settled one. -/
  nearer : ∀ u ∈ visited, ∀ v, v ∉ visited → L.dist u ≤ L.dist v

/-- What looking at the arcs of `u` does: the labels of settled vertices stay, and each other one
stays or becomes that of an arc from `u`, whichever is less. -/
structure Relaxed (weight : V → V → Option W) (visited : Finset V) (u : V) (L L' : Labels V W) :
    Prop where
  kept : ∀ v ∈ visited, L'.dist v = L.dist v ∧ L'.prev v = L.prev v
  le : ∀ v, L'.dist v ≤ L.dist v
  least : ∀ v, v ∉ visited → ∀ w, weight u v = some w → L'.dist v ≤ L.dist u+(w : W)
  changed : ∀ v, v ∉ visited → (L'.dist v = L.dist v ∧ L'.prev v = L.prev v) ∨
    ∃ w, weight u v = some w ∧ L'.dist v = L.dist u+(w : W) ∧ L'.prev v = some u

/-- The least distance is found for a vertex that is nearest among those not settled. -/
def Nearest (visited : Finset V) (L : Labels V W) (u : V) : Prop :=
  u ∉ visited ∧ ∀ v, v ∉ visited → L.dist u ≤ L.dist v

omit [IsOrderedAddMonoid W] in
theorem settled_initial [DecidableEq V] (s : V) :
    Settled weight s ∅ (Labels.initial s : Labels V W) where
  source := if_pos rfl
  traced v d h := by
    by_cases hv : v = s
    · subst hv
      have hd : ((0 : W) : WithTop W) = d := (if_pos rfl).symm.trans h
      rw [← WithTop.coe_injective hd]
      exact ⟨[v],.source rfl,.start⟩
    · rw [Labels.initial] at h
      dsimp only at h
      rw [if_neg hv] at h
      cases h
  closed u hu := absurd hu (Finset.notMem_empty u)
  nearer u hu := absurd hu (Finset.notMem_empty u)

theorem Walk.nonneg {p : List V} {d : W} (hp : Walk weight s v p d)
    (hpos : ∀ u v w, weight u v = some w → 0 ≤ w) : 0 ≤ d := by
  induction hp with
  | start => exact le_rfl
  | step _ hw ih => exact add_nonneg ih (hpos _ _ _ hw)

/-- A walk is not shorter than the distance of its end, or than that of a vertex not settled, where
it leaves the settled ones. -/
theorem Settled.le_walk (h : Settled weight s visited L)
    (hpos : ∀ u v w, weight u v = some w → 0 ≤ w) {p : List V} {d : W}
    (hp : Walk weight s v p d) :
    L.dist v ≤ (d : W) ∨ ∃ y, y ∉ visited ∧ L.dist y ≤ (d : W) := by
  induction hp with
  | start => exact Or.inl h.source.le
  | @step u v p d w _ hw ih =>
    have hd : ((d : W) : WithTop W) ≤ ((d+w : W) : WithTop W) :=
      WithTop.coe_le_coe.mpr (le_add_of_nonneg_right (hpos u v w hw))
    obtain hu | ⟨y,hy,hle⟩ := ih
    · by_cases hvis : u ∈ visited
      · left
        calc L.dist v ≤ L.dist u+(w : W) := h.closed u hvis v w hw
          _ ≤ (d : W)+(w : W) := add_le_add_left hu _
          _ = ((d+w : W) : WithTop W) := (WithTop.coe_add d w).symm
      · exact Or.inr ⟨u,hvis,hu.trans hd⟩
    · exact Or.inr ⟨y,hy,hle.trans hd⟩

omit [IsOrderedAddMonoid W] in
/-- The loop finds the walk that the labels name for a vertex with a distance. -/
theorem Settled.followBack [DecidableEq V] (h : Settled weight s visited L) {d : W}
    (hv : L.dist v = (d : W)) {n : ℕ} (hn : visited.card+1 ≤ n) :
    ∃ p, Walk weight s v p d ∧
      ShortestPaths.followBack L.prev n (some v) [] = some p.reverse := by
  obtain ⟨p,ht,hw⟩ := h.traced v d hv
  exact ⟨p,hw,ht.followBack (ht.length_le.trans hn) []⟩

omit [IsOrderedAddMonoid W] in
/-- A vertex without an arc to it has no distance, unless it is the source. -/
theorem Settled.dist_eq_top (h : Settled weight s visited L) (hv : v ≠ s)
    (harc : ∀ u, weight u v = none) : L.dist v = ⊤ := by
  by_contra hfin
  obtain ⟨d,hd⟩ := WithTop.ne_top_iff_exists.mp hfin
  obtain ⟨p,-,hw⟩ := h.traced v d hd.symm
  cases hw with
  | start => exact hv rfl
  | step _ hw => rw [harc] at hw; cases hw

/-- The distance of the nearest vertex is the least one. -/
theorem Settled.optimal (h : Settled weight s visited L)
    (hpos : ∀ u v w, weight u v = some w → 0 ≤ w) (hu : Nearest visited L u) {p : List V} {d : W}
    (hp : Walk weight s u p d) : L.dist u ≤ (d : W) := by
  obtain hle | ⟨y,hy,hle⟩ := h.le_walk hpos hp
  · exact hle
  · exact (hu.2 y hy).trans hle

section Settle
variable [DecidableEq V] (h : Settled weight s visited L)
  (hpos : ∀ u v w, weight u v = some w → 0 ≤ w) (hu : Nearest visited L u)
  (hr : Relaxed weight (insert u visited) u L L')
include h hr

omit [IsOrderedAddMonoid W] in
theorem Settled.traced_settle (hfin : L.dist u ≠ ⊤) (v : V) (d : W)
    (hv : L'.dist v = (d : W)) :
    ∃ p, Trace L' (insert u visited) s v p ∧ Walk weight s v p d := by
  have hsub : visited ⊆ insert u visited := Finset.subset_insert u visited
  have hkept : ∀ x ∈ visited, L'.prev x = L.prev x := fun x hx => (hr.kept x (hsub hx)).2
  have same : L'.dist v = L.dist v ∧ L'.prev v = L.prev v →
      ∃ p, Trace L' (insert u visited) s v p ∧ Walk weight s v p d := by
    rintro ⟨hd,hp⟩
    obtain ⟨p,ht,hw⟩ := h.traced v d (hd.symm.trans hv)
    exact ⟨p,ht.mono hsub hkept hp,hw⟩
  by_cases hmem : v ∈ insert u visited
  · exact same (hr.kept v hmem)
  obtain hsame | ⟨w,hw,hd,hp⟩ := hr.changed v hmem
  · exact same hsame
  · obtain ⟨du,hdu⟩ := WithTop.ne_top_iff_exists.mp hfin
    obtain ⟨p,ht,hwalk⟩ := h.traced u du hdu.symm
    have hself := Finset.mem_insert_self u visited
    have hsum : d = du+w := by
      rw [hv, ← hdu, ← WithTop.coe_add] at hd
      exact WithTop.coe_injective hd
    rw [hsum]
    exact ⟨p ++ [v],.step (ht.mono hsub hkept (hr.kept u hself).2) hself hp,.step hwalk hw⟩

include hpos hu

theorem Settled.closed_settle (x : V) (hx : x ∈ insert u visited) (v : V) (w : W)
    (hw : weight x v = some w) : L'.dist v ≤ L'.dist x+(w : W) := by
  rw [(hr.kept x hx).1]
  obtain rfl | hvis := Finset.mem_insert.mp hx
  · by_cases hmem : v ∈ insert x visited
    · have hle : L.dist v ≤ L.dist x := by
        obtain rfl | hmem := Finset.mem_insert.mp hmem
        · exact le_rfl
        · exact h.nearer v hmem x hu.1
      exact (hr.le v).trans
        (hle.trans (le_add_of_nonneg_right (WithTop.coe_nonneg.mpr (hpos x v w hw))))
    · exact hr.least v hmem w hw
  · exact (hr.le v).trans (h.closed x hvis v w hw)

theorem Settled.nearer_settle (x : V) (hx : x ∈ insert u visited) (v : V)
    (hv : v ∉ insert u visited) : L'.dist x ≤ L'.dist v := by
  have hxu : L.dist x ≤ L.dist u := by
    obtain rfl | hvis := Finset.mem_insert.mp hx
    · exact le_rfl
    · exact h.nearer x hvis u hu.1
  have huv : L.dist u ≤ L'.dist v := by
    obtain ⟨hd,-⟩ | ⟨w,hw,hd,-⟩ := hr.changed v hv
    · rw [hd]
      exact hu.2 v fun hmem => hv (Finset.mem_insert_of_mem hmem)
    · rw [hd]
      exact le_add_of_nonneg_right (WithTop.coe_nonneg.mpr (hpos u v w hw))
  rw [(hr.kept x hx).1]
  exact hxu.trans huv

/-- Settling the nearest vertex, and looking at its arcs, keeps the invariant. -/
theorem Settled.settle (hfin : L.dist u ≠ ⊤) : Settled weight s (insert u visited) L' where
  source := by
    by_cases hs : s ∈ insert u visited
    · rw [(hr.kept s hs).1]
      exact h.source
    · obtain ⟨hd,-⟩ | ⟨w,hw,hd,-⟩ := hr.changed s hs
      · rw [hd]
        exact h.source
      · refine le_antisymm ((hr.le s).trans h.source.le) ?_
        obtain ⟨du,hdu⟩ := WithTop.ne_top_iff_exists.mp hfin
        obtain ⟨p,-,hwalk⟩ := h.traced u du hdu.symm
        rw [hd, ← hdu, ← WithTop.coe_add]
        exact WithTop.coe_le_coe.mpr (add_nonneg (hwalk.nonneg hpos) (hpos u s w hw))
  traced := h.traced_settle hr hfin
  closed := h.closed_settle hpos hu hr
  nearer := h.nearer_settle hpos hu hr

end Settle

section Relax
variable [DecidableEq V] {arcs arcs' : List (V × W)} {d : WithTop W}

/-- An arc of weight `arc.2` from `u`, which has the distance `d`, to `arc.1`. -/
def relax (visited : Finset V) (u : V) (d : WithTop W) (L : Labels V W) (arc : V × W) :
    Labels V W :=
  if arc.1 ∈ visited then L
  else if d+(arc.2 : W) < L.dist arc.1 then L.set arc.1 (d+(arc.2 : W)) u
  else L

/-- What looking at some arcs from `u` does. -/
structure Looked (visited : Finset V) (u : V) (d : WithTop W) (arcs : List (V × W))
    (L L' : Labels V W) : Prop where
  kept : ∀ v ∈ visited, L'.dist v = L.dist v ∧ L'.prev v = L.prev v
  le : ∀ v, L'.dist v ≤ L.dist v
  least : ∀ arc ∈ arcs, arc.1 ∉ visited → L'.dist arc.1 ≤ d+(arc.2 : W)
  changed : ∀ v, v ∉ visited → (L'.dist v = L.dist v ∧ L'.prev v = L.prev v) ∨
    ∃ w, (v,w) ∈ arcs ∧ L'.dist v = d+(w : W) ∧ L'.prev v = some u

omit [IsOrderedAddMonoid W] in
theorem looked_relax (visited : Finset V) (u : V) (d : WithTop W) (L : Labels V W)
    (arc : V × W) : Looked visited u d [arc] L (relax visited u d L arc) := by
  unfold relax
  by_cases hvis : arc.1 ∈ visited
  · rw [if_pos hvis]
    refine ⟨fun v _ => ⟨rfl,rfl⟩,fun v => le_rfl,?_,fun v _ => Or.inl ⟨rfl,rfl⟩⟩
    rintro a ha hnot
    exact absurd (List.mem_singleton.mp ha ▸ hvis) hnot
  rw [if_neg hvis]
  by_cases hlt : d+(arc.2 : W) < L.dist arc.1
  · rw [if_pos hlt]
    have hother : ∀ v, v ≠ arc.1 → (L.set arc.1 (d+(arc.2 : W)) u).dist v = L.dist v ∧
        (L.set arc.1 (d+(arc.2 : W)) u).prev v = L.prev v := fun v hv =>
      ⟨L.set_dist_of_ne _ _ hv,L.set_prev_of_ne _ _ hv⟩
    refine ⟨fun v hv => hother v fun he => hvis (he ▸ hv),fun v => ?_,?_,fun v _ => ?_⟩
    · by_cases hv : v = arc.1
      · rw [hv, Labels.set_dist_self]
        exact hlt.le
      · rw [(hother v hv).1]
    · rintro a ha -
      rw [List.mem_singleton.mp ha, Labels.set_dist_self]
    · by_cases hv : v = arc.1
      · subst hv
        exact Or.inr ⟨arc.2,List.mem_singleton.mpr rfl,L.set_dist_self _ _,L.set_prev_self _ _⟩
      · exact Or.inl (hother v hv)
  · rw [if_neg hlt]
    refine ⟨fun v _ => ⟨rfl,rfl⟩,fun v => le_rfl,?_,fun v _ => Or.inl ⟨rfl,rfl⟩⟩
    rintro a ha -
    rw [List.mem_singleton.mp ha]
    exact not_lt.mp hlt

omit [IsOrderedAddMonoid W] [DecidableEq V] in
theorem Looked.append {L₁ L₂ L₃ : Labels V W} (h : Looked visited u d arcs L₁ L₂)
    (h' : Looked visited u d arcs' L₂ L₃) : Looked visited u d (arcs ++ arcs') L₁ L₃ where
  kept v hv := ⟨(h'.kept v hv).1.trans (h.kept v hv).1,(h'.kept v hv).2.trans (h.kept v hv).2⟩
  le v := (h'.le v).trans (h.le v)
  least arc harc hvis := by
    obtain harc | harc := List.mem_append.mp harc
    · exact (h'.le arc.1).trans (h.least arc harc hvis)
    · exact h'.least arc harc hvis
  changed v hv := by
    obtain ⟨hd,hp⟩ | ⟨w,hw,hd,hp⟩ := h'.changed v hv
    · obtain ⟨hd',hp'⟩ | ⟨w,hw,hd',hp'⟩ := h.changed v hv
      · exact Or.inl ⟨hd.trans hd',hp.trans hp'⟩
      · exact Or.inr ⟨w,List.mem_append_left _ hw,hd.trans hd',hp.trans hp'⟩
    · exact Or.inr ⟨w,List.mem_append_right _ hw,hd,hp⟩

omit [IsOrderedAddMonoid W] in
theorem looked_foldl (visited : Finset V) (u : V) (d : WithTop W) (arcs : List (V × W))
    (L : Labels V W) : Looked visited u d arcs L (arcs.foldl (relax visited u d) L) := by
  induction arcs generalizing L with
  | nil => exact ⟨fun v _ => ⟨rfl,rfl⟩,fun v => le_rfl,by simp,fun v _ => Or.inl ⟨rfl,rfl⟩⟩
  | cons arc arcs ih => exact (looked_relax visited u d L arc).append (ih _)

omit [DecidableEq V] in
/-- Looking at arcs that name each weight of `u`, and none that is less. -/
theorem Looked.relaxed (h : Looked visited u (L.dist u) arcs L L')
    (hall : ∀ v, v ∉ visited → ∀ w, weight u v = some w → (v,w) ∈ arcs)
    (hsome : ∀ v, v ∉ visited → ∀ w, (v,w) ∈ arcs → ∃ w', weight u v = some w' ∧ w' ≤ w) :
    Relaxed weight visited u L L' where
  kept := h.kept
  le := h.le
  least v hv w hw := h.least (v,w) (hall v hv w hw) hv
  changed v hv := by
    obtain hsame | ⟨w,hw,hd,hp⟩ := h.changed v hv
    · exact Or.inl hsame
    · obtain ⟨w',hw',hle⟩ := hsome v hv w hw
      refine Or.inr ⟨w',hw',le_antisymm (h.least (v,w') (hall v hv w' hw') hv) ?_,hp⟩
      rw [hd]
      exact add_le_add_right (WithTop.coe_le_coe.mpr hle) _

end Relax

end Arsonist.Library.ShortestPaths
