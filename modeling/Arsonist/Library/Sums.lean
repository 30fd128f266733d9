import Mathlib.Algebra.BigOperators.Group.List.Basic
import Mathlib.Algebra.Order.BigOperators.Group.List
import Arsonist.Library.Interleaving
import Arsonist.Library.Keyed

/-! Sums over the records of a table, and over the processes of a pool. -/
namespace Arsonist.Library

open Keyed (key)

namespace Table
variable {α κ M : Type*} [Keyed α κ] [DecidableEq κ] [AddCommGroup M]

/-- The sum of a quantity over all records. -/
def sum (t : Table α) (f : α → M) : M := (t.entries.map f).sum

/-- A record that takes the place of another one in a list changes the sum by the difference. -/
theorem sum_replaced (f : α → M) {a b : α} {as : List α} (hn : (as.map key).Nodup)
    (hfind : as.find? (fun c => key c = key a) = some b) :
    ((as.map fun c => if key c = key a then a else c).map f).sum = (as.map f).sum-f b+f a := by
  induction as with
  | nil => cases hfind
  | cons c as ih =>
    obtain ⟨hc,has⟩ := List.nodup_cons.mp hn
    rw [List.map_cons, List.map_cons, List.map_cons, List.sum_cons, List.sum_cons]
    by_cases hk : key c = key a
    · rw [List.find?_cons_of_pos (by simpa using hk)] at hfind
      obtain rfl := Option.some.inj hfind
      have hrest : (as.map fun d => if key d = key a then a else d) = as := by
        refine (List.map_congr_left fun d hd => if_neg fun hd' => hc ?_).trans (List.map_id as)
        rw [hk, ← hd']
        exact List.mem_map_of_mem hd
      rw [if_pos hk, hrest]
      abel
    · rw [List.find?_cons_of_neg (by simpa using hk)] at hfind
      rw [if_neg hk, ih has hfind]
      abel

/-- Storing a record adds its quantity, in exchange for that of the record it replaces. -/
theorem sum_put (t : Table α) (a : α) (f : α → M) :
    (t.put a).sum f = t.sum f-(t.get? (key a)).elim 0 f+f a := by
  cases hget : t.get? (key a) with
  | none =>
    rw [sum, entries_put_of_not_mem (get?_eq_none_iff.mp hget), List.map_append, List.sum_append]
    simp [sum]
  | some b =>
    have hmem : key a ∈ t.entries.map key := by
      rw [← key_of_get? hget]
      exact List.mem_map_of_mem (mem_of_get? hget)
    rw [sum, entries_put_of_mem hmem, sum_replaced f t.nodup hget]
    rfl

/-- A record that is left out of a list takes its quantity away. -/
theorem sum_left_out (f : α → M) (k : κ) {as : List α} (hn : (as.map key).Nodup) :
    ((as.filter fun a => key a ≠ k).map f).sum =
      (as.map f).sum-(as.find? fun a => key a = k).elim 0 f := by
  induction as with
  | nil => simp
  | cons c as ih =>
    obtain ⟨hc,has⟩ := List.nodup_cons.mp hn
    by_cases hk : key c = k
    · have hrest : (as.filter fun a => key a ≠ k) = as := by
        rw [List.filter_eq_self]
        intro a ha
        exact decide_eq_true fun hak => hc ((hk.trans hak.symm) ▸ List.mem_map_of_mem ha)
      rw [List.filter_cons_of_neg (by simpa using hk), hrest,
        List.find?_cons_of_pos (by simpa using hk), List.map_cons, List.sum_cons, Option.elim_some]
      abel
    · rw [List.filter_cons_of_pos (by simpa using hk), List.find?_cons_of_neg (by simpa using hk),
        List.map_cons, List.map_cons, List.sum_cons, List.sum_cons, ih has]
      abel

/-- Deleting a record takes its quantity away. -/
theorem sum_erase (t : Table α) (k : κ) (f : α → M) :
    (t.erase k).sum f = t.sum f-(t.get? k).elim 0 f := sum_left_out f k t.nodup

/-- A record that is changed changes the sum by the difference. -/
theorem sum_modify (t : Table α) (k : κ) {f : α → α} (hf : ∀ a, key (f a) = key a) (g : α → M) :
    (t.modify k f).sum g = t.sum g+(t.get? k).elim 0 fun a => g (f a)-g a := by
  cases hget : t.get? k with
  | none => simp [modify, hget]
  | some a =>
    have hkey : key (f a) = k := (hf a).trans (key_of_get? hget)
    simp only [modify, hget, sum_put, hkey, Option.elim_some]
    abel

/-- The records changed one by one, each under its own key. -/
def mapped (t : Table α) (f : α → α) (hf : ∀ a, key (f a) = key a) : Table α where
  entries := t.entries.map f
  nodup := by
    rw [List.map_map, (funext hf : key ∘ f = key)]
    exact t.nodup

theorem get?_mapped (t : Table α) {f : α → α} (hf : ∀ a, key (f a) = key a) (k : κ) :
    (t.mapped f hf).get? k = (t.get? k).map f := by
  rw [get?, mapped, List.find?_map]
  simp only [Function.comp_def, hf]
  rfl

theorem sum_mapped (t : Table α) {f : α → α} (hf : ∀ a, key (f a) = key a) {g : α → M}
    (hg : ∀ a, g (f a) = g a) : (t.mapped f hf).sum g = t.sum g := by
  rw [sum, mapped, List.map_map, (funext hg : g ∘ f = g)]
  rfl

section Counted
variable [PartialOrder M] {t : Table α} {size : α → M} {n : M}

/-- A counter that holds what the records of a table take up, none of them less than `0`. -/
structure Counted (t : Table α) (size : α → M) (n : M) : Prop where
  eq_sum : n = t.sum size
  nonneg : ∀ a ∈ t.entries, 0 ≤ size a

omit [DecidableEq κ] in
theorem counted_empty : (empty : Table α).Counted size 0 := ⟨rfl,fun _ ha => nomatch ha⟩

omit [DecidableEq κ] in
theorem Counted.counter_nonneg [IsOrderedAddMonoid M] (h : t.Counted size n) : 0 ≤ n := by
  rw [h.eq_sum]
  refine List.sum_nonneg fun x hx => ?_
  obtain ⟨a,ha,rfl⟩ := List.mem_map.mp hx
  exact h.nonneg a ha

omit [DecidableEq κ] in
theorem Counted.eq_zero (h : t.Counted size n) (hnil : t.entries = []) : n = 0 := by
  rw [h.eq_sum, sum, hnil]
  rfl

theorem Counted.erase (h : t.Counted size n) {k : κ} {a : α} (hget : t.get? k = some a) :
    (t.erase k).Counted size (n-size a) where
  eq_sum := by rw [sum_erase, hget, h.eq_sum, Option.elim_some]
  nonneg b hb := h.nonneg b (mem_erase.mp hb).1

/-- The counter is told of the record that is stored and of the one that it replaces. -/
theorem Counted.put (h : t.Counted size n) {a : α} (ha : 0 ≤ size a) :
    (t.put a).Counted size (n-(t.get? (key a)).elim 0 size+size a) where
  eq_sum := by rw [sum_put, h.eq_sum]
  nonneg := (forall_mem_put h.nonneg a).mpr ha

theorem Counted.put_new (h : t.Counted size n) {a : α} (hnone : t.get? (key a) = none)
    (ha : 0 ≤ size a) : (t.put a).Counted size (n+size a) := by
  have hput := h.put ha
  rwa [hnone, Option.elim_none, sub_zero] at hput

/-- A record takes the place of one of the same size. -/
theorem Counted.put_same (h : t.Counted size n) {a b : α} (hget : t.get? (key a) = some b)
    (hsize : size a = size b) : (t.put a).Counted size n := by
  have hput := h.put (hsize ▸ h.nonneg b (mem_of_get? hget))
  rwa [hget, Option.elim_some, hsize, sub_add_cancel] at hput

end Counted

end Table

namespace Pool
variable {σ π ε ρ ι M : Type*} [AddCommGroup M] {prog : Program σ π ε ρ ι} {s : Pool σ π}

/-- The sum of a quantity over all processes. -/
def total (s : Pool σ π) (f : π → M) : M := (s.procs.map f).sum

theorem total_start (f : π → M) (request : ρ) :
    (s.step prog (.start request)).total f = s.total f+f (prog.enter request) := by
  rw [total, step, List.map_append, List.sum_append, List.map_singleton, List.sum_singleton, total]

theorem total_outside (f : π → M) (e : ε) : (s.step prog (.outside e)).total f = s.total f := rfl

/-- The process that takes the step changes the sum by its own difference. -/
theorem total_advance (f : π → M) {i : ℕ} {p : π} (h : s.procs[i]? = some p) (input : ι) :
    (s.step prog (.advance i input)).total f =
      s.total f+(f (prog.next s.shared p input).2-f p) := by
  obtain ⟨hi,hp⟩ := List.getElem?_eq_some_iff.mp h
  rw [step_advance h, total, List.map_set, List.sum_set', dif_pos (by simpa using hi),
    List.getElem_map, hp, total]
  abel

end Pool
end Arsonist.Library
