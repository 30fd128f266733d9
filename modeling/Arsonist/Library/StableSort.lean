import Mathlib.Data.List.Sort

/-! What comes first in a stable sort: of the least elements, the one that stood first. -/
namespace Arsonist.Library

variable {α β : Type*} [LinearOrder β] {key : α → β} {r : α → α → Prop} [DecidableRel r]

/-- The relation has to be that of the keys on the elements of the list only. -/
theorem head?_insertionSort {l : List α} {a : α}
    (hr : ∀ a ∈ l, ∀ b ∈ l, (r a b ↔ key a ≤ key b)) (h : (l.insertionSort r).head? = some a) :
    ∃ p q, l = p ++ a :: q ∧ (∀ b ∈ p, key a < key b) ∧ ∀ b ∈ q, key a ≤ key b := by
  induction l generalizing a with
  | nil => cases h
  | cons x xs ih =>
    have hrest : ∀ a ∈ xs, ∀ b ∈ xs, (r a b ↔ key a ≤ key b) := fun a ha b hb =>
      hr a (List.mem_cons_of_mem x ha) b (List.mem_cons_of_mem x hb)
    rw [List.insertionSort_cons] at h
    cases hs : xs.insertionSort r with
    | nil =>
      have hxs : xs = [] := (hs ▸ List.perm_insertionSort r xs).symm.eq_nil
      subst hxs
      rw [hs, List.orderedInsert, List.head?_cons, Option.some.injEq] at h
      subst h
      exact ⟨[],[],rfl,by simp,by simp⟩
    | cons y ys =>
      obtain ⟨p,q,hpq,hp,hq⟩ := ih (a := y) hrest (by rw [hs]; rfl)
      have hy : y ∈ xs := by
        rw [hpq]
        exact List.mem_append_right p List.mem_cons_self
      have hxy := hr x List.mem_cons_self y (List.mem_cons_of_mem x hy)
      rw [hs, List.orderedInsert_cons] at h
      by_cases hle : r x y
      · rw [if_pos hle, List.head?_cons, Option.some.injEq] at h
        subst h
        refine ⟨[],xs,rfl,by simp,fun b hb => (hxy.mp hle).trans ?_⟩
        rw [hpq, List.mem_append, List.mem_cons] at hb
        obtain hb | rfl | hb := hb
        · exact (hp b hb).le
        · exact le_rfl
        · exact hq b hb
      · rw [if_neg hle, List.head?_cons, Option.some.injEq] at h
        subst h
        refine ⟨x :: p,q,by rw [hpq]; rfl,?_,hq⟩
        intro b hb
        obtain rfl | hb := List.mem_cons.mp hb
        · exact lt_of_not_ge fun hge => hle (hxy.mpr hge)
        · exact hp b hb

/-- Each element without a property stands behind one with it, once the list is sorted: behind one
that stood further to the front, unless it has to pass it, or one that has to pass it. -/
def Led (r : α → α → Prop) (P : α → Prop) (l : List α) : Prop :=
  ∀ p b q, l = p ++ b :: q → ¬ P b → (∃ c ∈ p, P c ∧ r c b) ∨ ∃ c ∈ q, P c ∧ ¬ r b c

/-- What comes first in a sorted list has a property exactly if those with it lead. -/
theorem head?_insertionSort_iff {P : α → Prop} {l : List α} {a : α}
    (hr : ∀ a ∈ l, ∀ b ∈ l, (r a b ↔ key a ≤ key b)) (h : (l.insertionSort r).head? = some a) :
    P a ↔ Led r P l := by
  obtain ⟨p,q,rfl,hp,hq⟩ := head?_insertionSort hr h
  have ha : a ∈ p ++ a :: q := List.mem_append_right p List.mem_cons_self
  have hbefore : ∀ c ∈ p, ¬ r c a := fun c hc hle =>
    ((hr c (List.mem_append_left _ hc) a ha).mp hle).not_gt (hp c hc)
  have hafter : ∀ c ∈ q, r a c := fun c hc =>
    (hr a ha c (List.mem_append_right p (List.mem_cons_of_mem a hc))).mpr (hq c hc)
  constructor
  · intro hP p' b q' hsplit hb
    obtain ⟨t,hp',hrest⟩ | ⟨t,hp',hrest⟩ := List.append_eq_append_iff.mp hsplit
    · cases t with
      | nil =>
        obtain ⟨rfl,-⟩ := List.cons.inj hrest
        exact absurd hP hb
      | cons c t =>
        obtain ⟨rfl,rfl⟩ := List.cons.inj hrest
        refine Or.inl ⟨a,?_,hP,hafter b (List.mem_append_right t List.mem_cons_self)⟩
        rw [hp']
        exact List.mem_append_right p List.mem_cons_self
    · cases t with
      | nil =>
        obtain ⟨rfl,-⟩ := List.cons.inj hrest
        exact absurd hP hb
      | cons c t =>
        obtain ⟨rfl,rfl⟩ := List.cons.inj hrest
        refine Or.inr ⟨a,List.mem_append_right t List.mem_cons_self,hP,hbefore b ?_⟩
        rw [hp']
        exact List.mem_append_right p' List.mem_cons_self
  · intro hled
    by_contra hP
    obtain ⟨c,hc,-,hle⟩ | ⟨c,hc,-,hlt⟩ := hled p a q rfl hP
    · exact hbefore c hc hle
    · exact hlt (hafter c hc)

section Stable
variable {R : α → α → Prop}

/-- Elements with one key that stand in some order stand in it still when another one, which belongs
before those with its key, is sorted in. -/
theorem pairwise_orderedInsert_stable (hr : ∀ a b, r a b ↔ key a ≤ key b) {x : α} {l : List α}
    (hx : ∀ b ∈ l, key x = key b → R x b) (h : l.Pairwise fun a b => key a = key b → R a b) :
    (l.orderedInsert r x).Pairwise fun a b => key a = key b → R a b := by
  induction l with
  | nil => exact List.pairwise_singleton _ x
  | cons b l ih =>
    obtain ⟨hb,hl⟩ := List.pairwise_cons.mp h
    rw [List.orderedInsert_cons]
    by_cases hle : r x b
    · rw [if_pos hle]
      exact List.pairwise_cons.mpr ⟨hx,h⟩
    · rw [if_neg hle, List.pairwise_cons]
      refine ⟨fun c hc hkey => ?_,ih (fun c hc => hx c (List.mem_cons_of_mem b hc)) hl⟩
      obtain rfl | hc := (List.mem_orderedInsert r).mp hc
      · exact absurd ((hr _ _).mpr hkey.ge) hle
      · exact hb c hc hkey

/-- Sorting keeps the order of elements with one key. -/
theorem pairwise_insertionSort_stable (hr : ∀ a b, r a b ↔ key a ≤ key b) {l : List α}
    (h : l.Pairwise fun a b => key a = key b → R a b) :
    (l.insertionSort r).Pairwise fun a b => key a = key b → R a b := by
  induction l with
  | nil => exact List.Pairwise.nil
  | cons x l ih =>
    obtain ⟨hx,hl⟩ := List.pairwise_cons.mp h
    rw [List.insertionSort_cons]
    refine pairwise_orderedInsert_stable hr (fun b hb => hx b ?_) (ih hl)
    exact (List.mem_insertionSort r).mp hb

/-- Sorting orders by the keys, and elements with one key as they stood before. -/
theorem pairwise_insertionSort_lex (hr : ∀ a b, r a b ↔ key a ≤ key b) {l : List α}
    (h : l.Pairwise fun a b => key a = key b → R a b) :
    (l.insertionSort r).Pairwise fun a b => key a < key b ∨ key a = key b ∧ R a b := by
  have : Std.Total r := ⟨fun a b => by rw [hr, hr]; exact le_total _ _⟩
  have : IsTrans α r := ⟨fun a b c hab hbc => by rw [hr] at hab hbc ⊢; exact hab.trans hbc⟩
  refine (List.pairwise_insertionSort r l).imp₂ ?_ (pairwise_insertionSort_stable hr h)
  intro a b hle hstable
  obtain hlt | heq := ((hr a b).mp hle).lt_or_eq
  · exact Or.inl hlt
  · exact Or.inr ⟨heq,hstable heq⟩

end Stable
end Arsonist.Library
