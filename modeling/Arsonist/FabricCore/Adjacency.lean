import Arsonist.FabricCore.InfrastructureGraph
import Arsonist.Library.Steps

/-! The links and the sets of neighbours agree, as long as no link is stored under the string of
another pair of nodes. The string of a pair does not name it: it is the same for `"a:"` and `"b"`
as for `"a"` and `":b"`. -/
namespace Arsonist.FabricCore
open Library

namespace InfrastructureGraph

/-- A link from `u` to `v` is stored. -/
def Linked (g : InfrastructureGraph) (u v : String) : Prop :=
  ∃ link ∈ g.links.get? (linkKey u v), link.source = u ∧ link.target = v

/-- Some link is stored under the key of the pair. -/
def HasKey (g : InfrastructureGraph) (u v : String) : Prop :=
  (g.links.get? (linkKey u v)).isSome

instance (g : InfrastructureGraph) (u v : String) : Decidable (g.HasKey u v) :=
  inferInstanceAs (Decidable (_ = true))

/-- The sets of neighbours say which links are stored. -/
structure Represented (g : InfrastructureGraph) : Prop where
  symmetric : ∀ u v, v ∈ g.neighbourSet u ↔ u ∈ g.neighbourSet v
  linked : ∀ u v, v ∈ g.neighbourSet u ↔ g.Linked u v ∨ g.Linked v u

/-- A stored link or a set of neighbours mentions a node. -/
def Mentions (g : InfrastructureGraph) (x : String) : Prop :=
  (∃ link ∈ g.links.entries, link.source = x ∨ link.target = x) ∨
    (∃ a ∈ g.adjacency.entries, x ∈ a.neighbours) ∨ (g.neighbourSet x).Nonempty

/-- The link stored under the key of a pair, if there is one, is a link of this pair. -/
def Own (g : InfrastructureGraph) (u v : String) : Prop :=
  ∀ link ∈ g.links.get? (linkKey u v), link.source = u ∧ link.target = v

instance (g : InfrastructureGraph) (u v : String) : Decidable (g.Own u v) :=
  match h : g.links.get? (linkKey u v) with
  | none => .isTrue fun link hlink => by rw [h] at hlink; cases hlink
  | some link =>
    decidable_of_iff (link.source = u ∧ link.target = v) (by rw [Own, h]; simp)

/-- The call neither replaces nor deletes a link that another pair of nodes has under the key it
uses. -/
def Unmixed (g : InfrastructureGraph) : GraphCall → Prop
  | .addNode _ _ => True
  | .removeNode _ nodeId =>
    g.Registered nodeId → ∀ n ∈ g.neighbourSet nodeId, g.Own nodeId n ∧ g.Own n nodeId
  | .addLink _ link => g.Own link.source link.target

instance (g : InfrastructureGraph) (call : GraphCall) : Decidable (g.Unmixed call) :=
  match call with
  | .addNode _ _ => .isTrue trivial
  | .removeNode _ nodeId => inferInstanceAs (Decidable
      (g.Registered nodeId → ∀ n ∈ g.neighbourSet nodeId, g.Own nodeId n ∧ g.Own n nodeId))
  | .addLink _ link => inferInstanceAs (Decidable (g.Own link.source link.target))

end InfrastructureGraph

/-- The call links a node. -/
def GraphCall.Links (x : String) : GraphCall → Prop
  | .addLink _ link => link.source = x ∨ link.target = x
  | _ => False

namespace InfrastructureGraph
variable {g : InfrastructureGraph}

theorem represented_empty : empty.Represented where
  symmetric u v := by
    constructor <;> intro h <;> cases h
  linked u v := by
    constructor
    · intro h
      cases h
    · rintro (⟨link,h,-⟩ | ⟨link,h,-⟩) <;> cases h

theorem linked_addNode (now : ℚ) (node : GraphNode) (u v : String) :
    (g.addNode now node).Linked u v ↔ g.Linked u v := Iff.rfl

theorem linked_addLink (now : ℚ) (link : GraphLink) (h : g.Own link.source link.target)
    (u v : String) : (g.addLink now link).Linked u v ↔
      g.Linked u v ∨ u = link.source ∧ v = link.target := by
  unfold Linked
  rw [get?_addLink]
  by_cases hk : linkKey u v = linkKey link.source link.target
  · rw [if_pos hk, hk]
    constructor
    · rintro ⟨l,hl,rfl,rfl⟩
      cases hl
      exact Or.inr ⟨rfl,rfl⟩
    · rintro (⟨l,hl,rfl,rfl⟩ | ⟨rfl,rfl⟩)
      · exact ⟨_,rfl,(h l hl).1.symm,(h l hl).2.symm⟩
      · exact ⟨_,rfl,rfl,rfl⟩
  · rw [if_neg hk]
    refine ⟨Or.inl,fun hor => hor.resolve_right ?_⟩
    rintro ⟨rfl,rfl⟩
    exact hk rfl

theorem Represented.addNode (h : g.Represented) (now : ℚ) (node : GraphNode) :
    (g.addNode now node).Represented where
  symmetric u v := by simpa using h.symmetric u v
  linked u v := by simpa [linked_addNode] using h.linked u v

theorem Represented.addLink (h : g.Represented) (now : ℚ) (link : GraphLink)
    (hown : g.Own link.source link.target) : (g.addLink now link).Represented where
  symmetric u v := by
    rw [mem_neighbourSet_addLink, mem_neighbourSet_addLink, h.symmetric u v]
    tauto
  linked u v := by
    rw [mem_neighbourSet_addLink, linked_addLink now link hown, linked_addLink now link hown,
      h.linked u v]
    tauto

section RemoveNode
variable {order : SetOrder} {x : String}

theorem linked_removeNode (h : g.Represented) (hx : g.Registered x)
    (hown : ∀ n ∈ g.neighbourSet x, g.Own x n ∧ g.Own n x) (u v : String) :
    (g.removeNode order x).2.Linked u v ↔ g.Linked u v ∧ u ≠ x ∧ v ≠ x := by
  unfold Linked
  rw [get?_removeNode hx]
  by_cases hk : ∃ n ∈ g.neighbourSet x, linkKey u v = linkKey x n ∨ linkKey u v = linkKey n x
  · rw [if_pos hk]
    obtain ⟨n,hn,hk⟩ := hk
    constructor
    · rintro ⟨l,hl,-⟩
      cases hl
    · rintro ⟨⟨l,hl,rfl,rfl⟩,hu,hv⟩
      obtain hk | hk := hk
      · exact absurd ((hown n hn).1 l (hk ▸ hl)).1 hu
      · exact absurd ((hown n hn).2 l (hk ▸ hl)).2 hv
  · rw [if_neg hk]
    refine ⟨fun hl => ⟨hl,?_,?_⟩,fun hl => hl.1⟩
    · rintro rfl
      exact hk ⟨v,(h.linked u v).mpr (Or.inl hl),Or.inl rfl⟩
    · rintro rfl
      exact hk ⟨u,(h.linked v u).mpr (Or.inr hl),Or.inr rfl⟩

theorem Represented.mem_removeNode (h : g.Represented) (hx : g.Registered x) (u v : String) :
    v ∈ (g.removeNode order x).2.neighbourSet u ↔ v ∈ g.neighbourSet u ∧ u ≠ x ∧ v ≠ x := by
  rw [mem_neighbourSet_removeNode hx]
  refine and_congr_right fun hv => and_congr_right fun _ => ⟨?_,fun hne _ => hne⟩
  rintro himp rfl
  exact himp ((h.symmetric u v).mp hv) rfl

theorem Represented.removeNode (h : g.Represented) (order : SetOrder)
    (hown : g.Registered x → ∀ n ∈ g.neighbourSet x, g.Own x n ∧ g.Own n x) :
    (g.removeNode order x).2.Represented := by
  by_cases hx : g.Registered x
  · constructor
    · intro u v
      rw [h.mem_removeNode hx, h.mem_removeNode hx, h.symmetric u v, and_comm (a := v ≠ x)]
    · intro u v
      rw [h.mem_removeNode hx, linked_removeNode h hx (hown hx),
        linked_removeNode h hx (hown hx), h.linked u v]
      tauto
  · rw [removeNode_of_not_registered hx]
    exact h

end RemoveNode

theorem Represented.exec (h : g.Represented) (call : GraphCall) (hcall : g.Unmixed call) :
    (g.exec call).Represented := by
  cases call with
  | addNode now node => exact h.addNode now node
  | removeNode order nodeId => exact h.removeNode order hcall
  | addLink now link => exact h.addLink now link hcall

/-- A node without neighbours is mentioned nowhere. -/
theorem Represented.not_mentions (h : g.Represented) {x : String} (hx : g.neighbourSet x = ∅) :
    ¬ g.Mentions x := by
  have hnone : ∀ u, ¬ g.Linked x u ∧ ¬ g.Linked u x := fun u => by
    have hu := (h.linked x u).not.mp (by simp [hx])
    exact not_or.mp hu
  rintro (⟨link,hmem,hlink⟩ | ⟨a,hmem,ha⟩ | hne)
  · have hstored : g.Linked link.source link.target := ⟨link,Table.get?_of_mem hmem,rfl,rfl⟩
    obtain rfl | rfl := hlink
    · exact (hnone _).1 hstored
    · exact (hnone _).2 hstored
  · have hset : x ∈ g.neighbourSet a.nodeId := by
      have hget : g.adjacency.get? a.nodeId = some a := Table.get?_of_mem hmem
      rw [neighbourSet, hget]
      exact ha
    rw [h.symmetric, hx] at hset
    cases hset
  · rw [hx] at hne
    exact Finset.not_nonempty_empty hne

/-- A node without neighbours gets one from `add_link` only. -/
theorem neighbourSet_exec_of_empty {x : String} (hx : g.neighbourSet x = ∅) {call : GraphCall}
    (hcall : ¬ call.Links x) : (g.exec call).neighbourSet x = ∅ := by
  rw [Finset.eq_empty_iff_forall_notMem] at hx ⊢
  intro v hv
  cases call with
  | addNode now node => exact hx v (by simpa [exec] using hv)
  | removeNode order nodeId =>
    rw [exec] at hv
    by_cases hreg : g.Registered nodeId
    · exact hx v ((mem_neighbourSet_removeNode hreg x v).mp hv).1
    · rw [removeNode_of_not_registered hreg] at hv
      exact hx v hv
  | addLink now link =>
    obtain hv | ⟨rfl,-⟩ | ⟨rfl,-⟩ := (mem_neighbourSet_addLink now g link x v).mp hv
    · exact hx v hv
    · exact hcall (Or.inl rfl)
    · exact hcall (Or.inr rfl)

theorem neighbourSet_removeNode_self {x : String} (order : SetOrder) (hx : g.Registered x) :
    (g.removeNode order x).2.neighbourSet x = ∅ := by
  rw [Finset.eq_empty_iff_forall_notMem]
  intro v hv
  exact ((mem_neighbourSet_removeNode hx x v).mp hv).2.1 rfl

theorem represented_run {calls : List GraphCall} (h : Along exec Unmixed empty calls) :
    (run exec empty calls).Represented :=
  run_invariant (fun _ call hcall hg => hg.exec call hcall) h represented_empty

/-- The sets of neighbours are symmetric and say which links are stored, and nothing mentions a
removed node until a link does, in every run that mixes up no two pairs of nodes. -/
theorem neighbours_agree_with_links (calls : List GraphCall)
    (h : Along exec Unmixed empty calls) :
    (∀ u v, v ∈ (run exec empty calls).neighbourSet u ↔
        u ∈ (run exec empty calls).neighbourSet v) ∧
      (∀ u v, v ∈ (run exec empty calls).neighbourSet u ↔
        (run exec empty calls).Linked u v ∨ (run exec empty calls).Linked v u) ∧
      ∀ before order x after, calls = before ++ .removeNode order x :: after →
        (run exec empty before).Registered x → (∀ call ∈ after, ¬ call.Links x) →
        ¬ (run exec empty calls).Mentions x := by
  have hrep := represented_run h
  refine ⟨hrep.symmetric,hrep.linked,?_⟩
  rintro before order x after rfl hx hafter
  apply hrep.not_mentions
  rw [run_append, run_cons]
  have hstep : ∀ (g : InfrastructureGraph) call, ¬ call.Links x → g.neighbourSet x = ∅ →
      (g.exec call).neighbourSet x = ∅ := fun g call hcall hg => neighbourSet_exec_of_empty hg hcall
  exact run_invariant hstep (along_of_forall hafter _) (neighbourSet_removeNode_self order hx)

/-- Both ends of the link are registered, and the link goes with one of them. -/
theorem neighbours_agree_after_removal :
    ¬ (run exec empty [.addNode 0 { nodeId := "a" },.addNode 0 { nodeId := "b" },
      .addLink 1 { source := "a", target := "b" },.removeNode .sorted "a"]).Mentions "a" :=
  (neighbours_agree_with_links _ (by decide +kernel)).2.2 [.addNode 0 { nodeId := "a" },
    .addNode 0 { nodeId := "b" },.addLink 1 { source := "a", target := "b" }] .sorted "a" [] rfl
    (by decide +kernel) (by simp)

/-- Two links with one key, and then the removal of a node of the second one. -/
def mixedUp : List GraphCall :=
  [.addLink 0 { source := "a:", target := "b" },.addLink 0 { source := "a", target := ":b" },
    .addNode 0 { nodeId := "a" },.removeNode .sorted "a"]

/-- No id of the run contains the separator, and two nodes stay neighbours without a link between
them, in either direction, by its ends or by its key. -/
theorem neighbours_without_link :
    (∀ x ∈ ["a:","b","a",":b"], ¬ "::".toList <:+: x.toList) ∧
      "b" ∈ (run exec empty mixedUp).neighbourSet "a:" ∧
      ¬ (run exec empty mixedUp).HasKey "a:" "b" ∧ ¬ (run exec empty mixedUp).HasKey "b" "a:" ∧
      ¬ ((run exec empty mixedUp).Linked "a:" "b" ∨ (run exec empty mixedUp).Linked "b" "a:") := by
  have hkeys : ¬ (run exec empty mixedUp).HasKey "a:" "b" ∧
      ¬ (run exec empty mixedUp).HasKey "b" "a:" := by decide +kernel
  refine ⟨by decide +kernel,by decide +kernel,hkeys.1,hkeys.2,?_⟩
  rintro (⟨link,h,-⟩ | ⟨link,h,-⟩)
  · exact hkeys.1 (Option.isSome_of_mem h)
  · exact hkeys.2 (Option.isSome_of_mem h)

end InfrastructureGraph

/-- Two texts before a separator that neither of them contains, nor begins with its last letter. -/
theorem separated_eq {u u' v v' : List Char} (hu : ¬ [':',':'] <:+: u ++ [':'])
    (hu' : ¬ [':',':'] <:+: u' ++ [':']) (h : u ++ ':' :: ':' :: v = u' ++ ':' :: ':' :: v') :
    u = u' := by
  induction u generalizing u' with
  | nil =>
    cases u' with
    | nil => rfl
    | cons c u' =>
      obtain ⟨rfl,htail⟩ := List.cons.inj h
      refine absurd ?_ hu'
      cases u' with
      | nil => exact ⟨[],[],rfl⟩
      | cons d u' =>
        obtain ⟨rfl,-⟩ := List.cons.inj htail
        exact ⟨[],u' ++ [':'],rfl⟩
  | cons c u ih =>
    cases u' with
    | nil =>
      obtain ⟨rfl,htail⟩ := List.cons.inj h
      refine absurd ?_ hu
      cases u with
      | nil => exact ⟨[],[],rfl⟩
      | cons d u =>
        obtain ⟨rfl,-⟩ := List.cons.inj htail
        exact ⟨[],u ++ [':'],rfl⟩
    | cons c' u' =>
      obtain ⟨rfl,htail⟩ := List.cons.inj h
      have hcons : ∀ l : List Char, [':',':'] <:+: l → [':',':'] <:+: c :: l := fun l hl =>
        hl.trans (List.suffix_cons c l).isInfix
      rw [ih (fun hin => hu (hcons _ hin)) (fun hin => hu' (hcons _ hin)) htail]

/-- An id that contains no separator and does not end with a colon. -/
def Plain (x : String) : Prop := ¬ [':',':'] <:+: x.toList ++ [':']

/-- The key of a pair names it when its first id is plain. -/
theorem linkKey_injective {u v u' v' : String} (hu : Plain u) (hu' : Plain u')
    (h : linkKey u v = linkKey u' v') : u = u' ∧ v = v' := by
  have hlist := congrArg String.toList h
  simp only [linkKey, String.toList_append, List.append_assoc] at hlist
  have hsource : u = u' := String.toList_inj.mp (separated_eq hu hu' hlist)
  rw [hsource] at hlist
  have htarget := List.append_cancel_left (List.append_cancel_left hlist)
  exact ⟨hsource,String.toList_inj.mp htarget⟩

/-- The ends of a link that the call adds are plain. -/
def GraphCall.PlainEnds : GraphCall → Prop
  | .addLink _ link => Plain link.source ∧ Plain link.target
  | _ => True

namespace InfrastructureGraph
variable {g : InfrastructureGraph}

/-- The ends of the stored links are plain. -/
def PlainLinks (g : InfrastructureGraph) : Prop :=
  ∀ k, ∀ link ∈ g.links.get? k, Plain link.source ∧ Plain link.target

theorem PlainLinks.exec (h : g.PlainLinks) (call : GraphCall) (hcall : call.PlainEnds) :
    (g.exec call).PlainLinks := by
  intro k link hlink
  obtain hlink | ⟨now,new,rfl,rfl⟩ := get?_exec hlink
  · exact h k link hlink
  · exact hcall

theorem PlainLinks.own (h : g.PlainLinks) {u : String} (hu : Plain u) (v : String) :
    g.Own u v := by
  intro link hlink
  exact linkKey_injective (h _ link hlink).1 hu (Table.key_of_get? hlink)

theorem PlainLinks.unmixed (h : g.PlainLinks) (hrep : g.Represented) {call : GraphCall}
    (hcall : call.PlainEnds) : g.Unmixed call := by
  cases call with
  | addNode now node => trivial
  | removeNode order nodeId =>
    intro _ n hn
    have hends : Plain nodeId ∧ Plain n := by
      obtain ⟨link,hlink,rfl,rfl⟩ | ⟨link,hlink,rfl,rfl⟩ := (hrep.linked nodeId n).mp hn
      · exact h _ link hlink
      · exact (h _ link hlink).symm
    exact ⟨h.own hends.1 n,h.own hends.2 nodeId⟩
  | addLink now link => exact h.own hcall.1 link.target

/-- Nothing is mixed up in a run whose links have plain ends. -/
theorem unmixed_of_plainEnds {calls : List GraphCall} (h : ∀ call ∈ calls, call.PlainEnds) :
    Along exec Unmixed empty calls := by
  have hstep : ∀ (g : InfrastructureGraph) (call : GraphCall), call.PlainEnds →
      g.PlainLinks ∧ g.Represented → (g.exec call).PlainLinks ∧ (g.exec call).Represented :=
    fun g call hcall hg =>
      ⟨hg.1.exec call hcall,hg.2.exec call (hg.1.unmixed hg.2 hcall)⟩
  have hstart : empty.PlainLinks ∧ empty.Represented :=
    ⟨fun k link hlink => (nomatch hlink),represented_empty⟩
  exact ((along_of_forall h empty).with_invariant hstep hstart).mono fun g call hg =>
    hg.2.1.unmixed hg.2.2 hg.1

end InfrastructureGraph
end Arsonist.FabricCore
