import Mathlib.Data.List.Sort
import Mathlib.Tactic

/-! The elements of a list by their keys: the keys as a dictionary keeps them, and the groups one
after the other in the order of the keys. An element then comes after those that have a smaller key
and after those that stood before it and have its own. -/
namespace Arsonist.Library

variable {α κ : Type*} [DecidableEq κ] {key : α → κ}

/-- The keys of the elements, in the order in which they first occur. -/
def keysOf (key : α → κ) (l : List α) : List κ := (l.map key).eraseDups

/-- The elements with a key, in their order. -/
def groupOf (key : α → κ) (l : List α) (k : κ) : List α := l.filter fun a => key a = k

theorem mem_keysOf {l : List α} {k : κ} : k ∈ keysOf key l ↔ ∃ a ∈ l, key a = k := by
  rw [keysOf, List.mem_eraseDups, List.mem_map]

theorem mem_groupOf {l : List α} {k : κ} {a : α} : a ∈ groupOf key l k ↔ a ∈ l ∧ key a = k := by
  rw [groupOf, List.mem_filter, decide_eq_true_iff]

theorem nodup_eraseDups (ks : List κ) : ks.eraseDups.Nodup := by
  induction hn : ks.length using Nat.strong_induction_on generalizing ks with
  | _ n ih =>
    cases ks with
    | nil => exact List.nodup_nil
    | cons k ks =>
      rw [List.eraseDups_cons, List.nodup_cons, List.mem_eraseDups]
      refine ⟨by simp,ih _ ?_ _ rfl⟩
      rw [← hn, List.length_cons]
      exact Nat.lt_succ_of_le (List.length_filter_le _ _)

theorem nodup_keysOf (key : α → κ) (l : List α) : (keysOf key l).Nodup := nodup_eraseDups _

omit [DecidableEq κ] in
/-- A list whose keys differ, and of whose elements only those with the key of `a` give
anything. -/
theorem flatMap_eq_of_nodup {β : Type*} {l : List α} {a : α} {f : α → List β}
    (hn : (l.map key).Nodup) (ha : a ∈ l) (hf : ∀ b ∈ l, key b ≠ key a → f b = []) :
    l.flatMap f = f a := by
  obtain ⟨p,q,rfl⟩ := List.append_of_mem ha
  rw [List.map_append, List.map_cons, List.nodup_middle, List.nodup_cons, ← List.map_append]
    at hn
  have hnil : ∀ b ∈ p ++ q, f b = [] := fun b hb =>
    hf b (by simp only [List.mem_append, List.mem_cons] at hb ⊢; tauto)
      fun he => hn.1 (he ▸ List.mem_map_of_mem hb)
  rw [List.flatMap_append, List.flatMap_cons,
    List.flatMap_eq_nil_iff.mpr fun b hb => hnil b (List.mem_append_left q hb),
    List.flatMap_eq_nil_iff.mpr fun b hb => hnil b (List.mem_append_right p hb),
    List.nil_append, List.append_nil]

theorem length_groupOf (l : List α) (k : κ) :
    (groupOf key l k).length = l.countP fun a => key a = k := List.countP_eq_length_filter.symm

theorem groupOf_split (p : List α) (a : α) (q : List α) :
    groupOf key (p ++ a :: q) (key a) = groupOf key p (key a) ++ a :: groupOf key q (key a) := by
  rw [groupOf, List.filter_append, List.filter_cons_of_pos (by simp)]
  rfl

/-- Two conditions that exclude each other. -/
theorem countP_or_of_disjoint {P Q : α → Prop} [DecidablePred P] [DecidablePred Q]
    (h : ∀ a, P a → ¬Q a) (l : List α) :
    l.countP (fun a => P a ∨ Q a) = l.countP (fun a => P a) + l.countP fun a => Q a := by
  induction l with
  | nil => rfl
  | cons a l ih =>
    rw [List.countP_cons, List.countP_cons, List.countP_cons, ih]
    by_cases hP : P a
    · simp [hP, h a hP]
      omega
    · simp [hP]
      omega

/-- The sizes of some groups together. -/
theorem length_flatMap_groupOf {ks : List κ} (hn : ks.Nodup) (l : List α) :
    (ks.flatMap (groupOf key l)).length = l.countP fun a => key a ∈ ks := by
  induction ks with
  | nil => simp
  | cons k ks ih =>
    obtain ⟨hk,hks⟩ := List.nodup_cons.mp hn
    rw [List.flatMap_cons, List.length_append, ih hks, length_groupOf,
      ← countP_or_of_disjoint (P := fun a => key a = k) (Q := fun a => key a ∈ ks)
        fun a ha hmem => hk (ha ▸ hmem)]
    simp only [List.mem_cons]

variable [LinearOrder κ]

/-- The groups in the order of their keys. -/
def inGroups (key : α → κ) (l : List α) : List α :=
  ((keysOf key l).insertionSort (· ≤ ·)).flatMap (groupOf key l)

/-- How many elements come before one that stands between two parts of the list. -/
def ahead (key : α → κ) (p : List α) (a : α) (q : List α) : ℕ :=
  p.countP (fun b => key b ≤ key a) + q.countP fun b => key b < key a

theorem mem_inGroups {l : List α} {a : α} : a ∈ inGroups key l ↔ a ∈ l := by
  rw [inGroups, List.mem_flatMap]
  constructor
  · rintro ⟨k,-,ha⟩
    exact (mem_groupOf.mp ha).1
  · intro ha
    exact ⟨key a,(List.mem_insertionSort _).mpr (mem_keysOf.mpr ⟨a,ha,rfl⟩),
      mem_groupOf.mpr ⟨ha,rfl⟩⟩

/-- The keys before one of them are the smaller ones. -/
theorem length_groups_before {l : List α} {ks rest : List κ} {k : κ}
    (h : (keysOf key l).insertionSort (· ≤ ·) = ks ++ k :: rest) :
    (ks.flatMap (groupOf key l)).length = l.countP fun a => key a < k := by
  have hn : (ks ++ k :: rest).Nodup :=
    h ▸ (List.perm_insertionSort _ _).nodup_iff.mpr (nodup_keysOf key l)
  have hsorted : (ks ++ k :: rest).Pairwise (· ≤ ·) := h ▸ List.pairwise_insertionSort _ _
  rw [length_flatMap_groupOf (List.nodup_append.mp hn).1]
  apply List.countP_congr
  intro a ha
  rw [decide_eq_true_iff, decide_eq_true_iff]
  have hmem : key a ∈ ks ++ k :: rest := by
    rw [← h, List.mem_insertionSort]
    exact mem_keysOf.mpr ⟨a,ha,rfl⟩
  constructor
  · intro hks
    exact lt_of_le_of_ne ((List.pairwise_append.mp hsorted).2.2 _ hks k List.mem_cons_self)
      ((List.nodup_append.mp hn).2.2 _ hks k List.mem_cons_self)
  · intro hlt
    obtain hks | hrest := List.mem_append.mp hmem
    · exact hks
    · obtain heq | hrest := List.mem_cons.mp hrest
      · exact absurd heq hlt.ne
      · have hge := (List.pairwise_cons.mp (List.pairwise_append.mp hsorted).2.1).1 _ hrest
        exact absurd hlt hge.not_gt

theorem length_before {p q : List α} {a : α} {ks rest : List κ}
    (h : (keysOf key (p ++ a :: q)).insertionSort (· ≤ ·) = ks ++ key a :: rest) :
    (ks.flatMap (groupOf key (p ++ a :: q)) ++ groupOf key p (key a)).length =
      ahead key p a q := by
  have hle : p.countP (fun b => key b ≤ key a) =
      p.countP (fun b => key b < key a) + p.countP fun b => key b = key a := by
    rw [← countP_or_of_disjoint fun b hlt => hlt.ne]
    simp only [le_iff_lt_or_eq]
  rw [List.length_append, length_groups_before h, length_groupOf, List.countP_append,
    List.countP_cons_of_neg (by simp), ahead, hle]
  omega

/-- Where an element of the list comes. -/
theorem inGroups_of_split (p : List α) (a : α) (q : List α) :
    ∃ P Q, inGroups key (p ++ a :: q) = P ++ a :: Q ∧ P.length = ahead key p a q := by
  have hmem : key a ∈ (keysOf key (p ++ a :: q)).insertionSort (· ≤ ·) := by
    rw [List.mem_insertionSort]
    exact mem_keysOf.mpr ⟨a,by simp,rfl⟩
  obtain ⟨ks,rest,h⟩ := List.append_of_mem hmem
  refine ⟨_,groupOf key q (key a) ++ rest.flatMap (groupOf key (p ++ a :: q)),?_,length_before h⟩
  rw [inGroups, h, List.flatMap_append, List.flatMap_cons, groupOf_split]
  simp only [List.append_assoc, List.cons_append]

omit [DecidableEq κ] [LinearOrder κ] in
/-- A place in lists that are strung together is a place in one of them. -/
theorem flatMap_split {f : κ → List α} {ks : List κ} {P Q : List α} {a : α}
    (h : ks.flatMap f = P ++ a :: Q) :
    ∃ before k behind P' Q', ks = before ++ k :: behind ∧ P = before.flatMap f ++ P' ∧
      f k = P' ++ a :: Q' := by
  induction ks generalizing P with
  | nil => simp at h
  | cons k ks ih =>
    have hlater : ∀ P₂, P = f k ++ P₂ → ks.flatMap f = P₂ ++ a :: Q →
        ∃ before k' behind P' Q', k :: ks = before ++ k' :: behind ∧
          P = before.flatMap f ++ P' ∧ f k' = P' ++ a :: Q' := by
      rintro P₂ rfl hP₂
      obtain ⟨before,k',behind,P',Q',rfl,rfl,hk'⟩ := ih hP₂
      exact ⟨k :: before,k',behind,P',Q',rfl,by rw [List.flatMap_cons, List.append_assoc],hk'⟩
    rw [List.flatMap_cons] at h
    obtain ⟨P₂,rfl,hP₂⟩ | ⟨c,hk,hc⟩ := List.append_eq_append_iff.mp h
    · exact hlater P₂ rfl hP₂
    · cases c with
      | nil =>
        rw [List.append_nil] at hk
        exact hlater [] (by rw [hk, List.append_nil]) hc.symm
      | cons b c =>
        obtain ⟨rfl,-⟩ := List.cons.inj hc
        exact ⟨[],k,ks,P,c,rfl,rfl,hk⟩

/-- Each place of the groups is that of an element of the list. -/
theorem split_of_inGroups {l P Q : List α} {a : α} (h : inGroups key l = P ++ a :: Q) :
    ∃ p q, l = p ++ a :: q ∧ P.length = ahead key p a q := by
  obtain ⟨ks,k,krest,P',Q',hkeys,rfl,hgroup⟩ := flatMap_split h
  have ha : a ∈ groupOf key l k := hgroup ▸ List.mem_append_right _ List.mem_cons_self
  obtain rfl := (mem_groupOf.mp ha).2
  obtain ⟨p,rest,rfl,hp,hrest⟩ := List.filter_eq_append_iff.mp hgroup
  obtain ⟨skip,q,rfl,hskip,-,rfl⟩ := List.filter_eq_cons_iff.mp hrest
  have hP' : groupOf key (p ++ skip) (key a) = P' := by
    rw [groupOf, List.filter_append, hp, List.filter_eq_nil_iff.mpr hskip, List.append_nil]
  rw [← List.append_assoc] at hkeys ⊢
  refine ⟨p ++ skip,q,rfl,?_⟩
  rw [← hP', ← length_before hkeys]

/-- The elements among the first `n` are those with fewer than `n` ahead of them. -/
theorem mem_take_inGroups {l : List α} {a : α} {n : ℕ} :
    a ∈ (inGroups key l).take n ↔ ∃ p q, l = p ++ a :: q ∧ ahead key p a q < n := by
  constructor
  · intro h
    obtain ⟨P,Q,htake⟩ := List.append_of_mem h
    have hlt : P.length < n := by
      have hle := List.length_take_le n (inGroups key l)
      rw [htake, List.length_append, List.length_cons] at hle
      omega
    have hsplit : inGroups key l = P ++ a :: (Q ++ (inGroups key l).drop n) := by
      rw [← List.cons_append, ← List.append_assoc, ← htake, List.take_append_drop]
    obtain ⟨p,q,hl,hlength⟩ := split_of_inGroups hsplit
    exact ⟨p,q,hl,hlength ▸ hlt⟩
  · rintro ⟨p,q,rfl,hlt⟩
    obtain ⟨P,Q,hsplit,hlength⟩ : ∃ P Q, inGroups key (p ++ a :: q) = P ++ a :: Q ∧
        P.length = ahead key p a q := inGroups_of_split p a q
    obtain ⟨k,hk⟩ : ∃ k, n-P.length = k+1 := ⟨n-P.length-1,by omega⟩
    rw [hsplit, List.take_append, hk, List.take_succ_cons]
    exact List.mem_append_right _ List.mem_cons_self

end Arsonist.Library
