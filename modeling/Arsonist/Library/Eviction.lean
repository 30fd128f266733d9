import Mathlib.Data.List.MinMax
import Arsonist.Library.Keyed

/-! Making room in a table by deleting, one after the other, a record that was used least recently.
Which records go, and that none goes without need, is read off the loop and does not depend on what
is short. -/
namespace Arsonist.Library.Table

open Keyed (key)

variable {α κ τ : Type*} [Keyed α κ] [DecidableEq κ] [LinearOrder τ]
  {used : α → τ} {full : Table α → Prop} {t t' : Table α} {es : List α}

/-- The loop `while full: delete the least recently used`, with the records that it deletes. -/
inductive Evicts (used : α → τ) (full : Table α → Prop) : Table α → List α → Table α → Prop
  | done {t : Table α} : ¬ full t → Evicts used full t [] t
  | evict {t t' : Table α} {e : α} {es : List α} :
      full t → t.entries.argmin used = some e → Evicts used full (t.erase (key e)) es t' →
      Evicts used full t (e :: es) t'

theorem Evicts.not_full (h : Evicts used full t es t') : ¬ full t' := by
  induction h with
  | done hfull => exact hfull
  | evict _ _ _ ih => exact ih

/-- What is left is what was not deleted. -/
theorem Evicts.mem_iff (h : Evicts used full t es t') {a : α} :
    a ∈ t'.entries ↔ a ∈ t.entries ∧ key a ∉ es.map key := by
  induction h with
  | done _ => simp
  | evict _ _ _ ih =>
    rw [ih, mem_erase, List.map_cons, List.mem_cons, not_or, and_assoc]

theorem Evicts.mem_of_evicted (h : Evicts used full t es t') {e : α} (he : e ∈ es) :
    e ∈ t.entries := by
  induction h with
  | done _ => cases he
  | evict _ hmin _ ih =>
    obtain rfl | he := List.mem_cons.mp he
    · exact List.argmin_mem hmin
    · exact (mem_erase.mp (ih he)).1

/-- Keys are unique, so that no record is taken for a deleted one. -/
theorem Evicts.mem_left (h : Evicts used full t es t') {a : α} :
    a ∈ t'.entries ↔ a ∈ t.entries ∧ a ∉ es := by
  rw [h.mem_iff]
  refine and_congr_right fun ha => not_congr ⟨fun hkey => ?_,List.mem_map_of_mem⟩
  obtain ⟨e,he,hsame⟩ := List.mem_map.mp hkey
  have hget := get?_of_mem (h.mem_of_evicted he)
  rw [hsame, get?_of_mem ha, Option.some.injEq] at hget
  exact hget ▸ he

/-- A deleted record was not used after one that is left. -/
theorem Evicts.used_le (h : Evicts used full t es t') {e a : α} (he : e ∈ es)
    (ha : a ∈ t'.entries) : used e ≤ used a := by
  induction h with
  | done _ => cases he
  | evict hfull hmin hrest ih =>
    obtain rfl | he := List.mem_cons.mp he
    · exact List.le_of_mem_argmin (mem_erase.mp (hrest.mem_iff.mp ha).1).1 hmin
    · exact ih he ha

/-- Each record was deleted while the table, without those deleted before, was full. -/
theorem Evicts.needed (h : Evicts used full t es t') {p q : List α} {e : α}
    (hes : es = p ++ e :: q) : full (t.without p) := by
  induction h generalizing p with
  | done _ => simp at hes
  | evict hfull _ _ ih =>
    cases p with
    | nil => exact hfull
    | cons b p =>
      obtain ⟨rfl,hrest⟩ := List.cons.inj hes
      exact ih hrest

/-- What is left of a table without the records of some property. -/
theorem mem_without_filter {t : Table α} {P : α → Bool} {a : α} :
    a ∈ (t.without (t.entries.filter P)).entries ↔ a ∈ t.entries ∧ P a = false := by
  rw [entries_without, List.mem_filter, decide_eq_true_iff]
  refine and_congr_right fun ha => ?_
  rw [← Bool.not_eq_true, not_iff_not]
  constructor
  · intro hk
    obtain ⟨b,hb,hkey⟩ := List.mem_map.mp hk
    obtain ⟨hb,hP⟩ := List.mem_filter.mp hb
    have hget := get?_of_mem hb
    rw [hkey, get?_of_mem ha] at hget
    exact Option.some.inj hget ▸ hP
  · intro hP
    exact List.mem_map_of_mem (List.mem_filter.mpr ⟨ha,hP⟩)

theorem get?_without_filter (t : Table α) (P : α → Bool) (k : κ) :
    (t.without (t.entries.filter P)).get? k = (t.get? k).filter fun a => !P a := by
  ext a
  have hmem : ∀ s : Table α, s.get? k = some a ↔ a ∈ s.entries ∧ key a = k := fun s =>
    ⟨fun h => ⟨mem_of_get? h,key_of_get? h⟩,fun h => h.2 ▸ get?_of_mem h.1⟩
  rw [Option.filter_eq_some_iff, hmem, hmem, mem_without_filter, Bool.not_eq_true']
  tauto
/-- A way of taking a record that was used least recently, whichever one if there are several. -/
structure OldestFirst (used : α → τ) where
  first : List α → Option α
  mem : ∀ {l a}, first l = some a → a ∈ l
  used_le : ∀ {l a}, first l = some a → ∀ b ∈ l, used a ≤ used b
  eq_nil : ∀ {l}, first l = none → l = []

namespace OldestFirst

/-- The first of the records that were used least recently. -/
def argmin (used : α → τ) : OldestFirst used where
  first l := l.argmin used
  mem h := List.argmin_mem h
  used_le h _ hb := List.le_of_mem_argmin hb h
  eq_nil h := List.argmin_eq_none.mp h

variable (o : OldestFirst used)

/-- The records in the order in which they are taken, as far as the fuel lasts. -/
def taken : ℕ → Table α → List α
  | 0, _ => []
  | fuel+1, t =>
    match o.first t.entries with
    | none => []
    | some a => a :: taken fuel (t.erase (key a))

/-- The records in the order in which they are taken. -/
def order (t : Table α) : List α := o.taken t.entries.length t

theorem order_of_none (h : o.first t.entries = none) : o.order t = [] := by
  rw [order, o.eq_nil h]
  rfl

theorem length_erase_first {a : α} (h : o.first t.entries = some a) :
    (t.erase (key a)).entries.length+1 = t.entries.length :=
  length_erase_of_some (get?_of_mem (o.mem h))

theorem order_of_some {a : α} (h : o.first t.entries = some a) :
    o.order t = a :: o.order (t.erase (key a)) := by
  rw [order, ← o.length_erase_first h, taken, h]
  rfl

theorem perm_order (t : Table α) : (o.order t).Perm t.entries := by
  induction hn : t.entries.length generalizing t with
  | zero =>
    rw [order, hn, List.length_eq_zero_iff.mp hn]
    exact List.Perm.refl _
  | succ n ih =>
    cases h : o.first t.entries with
    | none =>
      rw [o.eq_nil h] at hn
      cases hn
    | some a =>
      have hlen := o.length_erase_first h
      rw [o.order_of_some h]
      refine ((ih (t.erase (key a)) (by omega)).cons a).trans ?_
      have hmem : ∀ b, b ∈ a :: (t.erase (key a)).entries ↔ b ∈ t.entries := by
        intro b
        rw [List.mem_cons, mem_erase]
        constructor
        · rintro (rfl | hb)
          · exact o.mem h
          · exact hb.1
        · intro hb
          by_cases hk : key b = key a
          · have hget := get?_of_mem hb
            rw [hk, get?_of_mem (o.mem h)] at hget
            exact Or.inl (Option.some.inj hget).symm
          · exact Or.inr ⟨hb,hk⟩
      have hnew : (a :: (t.erase (key a)).entries).Nodup := by
        rw [List.nodup_cons]
        exact ⟨fun ha => (mem_erase.mp ha).2 rfl,(t.erase (key a)).nodup.of_map _⟩
      exact (List.perm_ext_iff_of_nodup hnew (t.nodup.of_map _)).mpr hmem

theorem pairwise_order (t : Table α) :
    (o.order t).Pairwise fun a b => used a ≤ used b := by
  induction hn : t.entries.length generalizing t with
  | zero =>
    rw [order, hn]
    exact List.Pairwise.nil
  | succ n ih =>
    cases h : o.first t.entries with
    | none =>
      rw [o.order_of_none h]
      exact List.Pairwise.nil
    | some a =>
      have hlen := o.length_erase_first h
      rw [o.order_of_some h, List.pairwise_cons]
      refine ⟨fun b hb => o.used_le h b ?_,ih _ (by omega)⟩
      exact (mem_erase.mp ((o.perm_order _).subset hb)).1

end OldestFirst

end Arsonist.Library.Table
