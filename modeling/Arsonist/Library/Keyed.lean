import Mathlib.Data.List.Nodup
import Mathlib.Tactic

/-! Tables of records in insertion order, at most one record per key. The key is a
field of the record, so a record is never stored under another record's key. Facts that only
accumulate: whoever knows a part of one history agrees with everyone else who does, and parts with
the same keys are the same. -/
namespace Arsonist.Library

/-- Records that carry the key under which tables store them. -/
class Keyed (α : Type*) (κ : outParam Type*) where
  key : α → κ

open Keyed (key)

/-- A table: its records in insertion order, their keys pairwise different. -/
structure Table (α : Type*) {κ : Type*} [Keyed α κ] where
  entries : List α
  nodup : (entries.map key).Nodup

namespace Table
variable {α κ : Type*} [Keyed α κ] [DecidableEq κ]

omit [DecidableEq κ] in
@[ext] theorem ext {s t : Table α} (h : s.entries = t.entries) : s = t := by
  cases s; cases t; cases h; rfl

def empty : Table α := ⟨[],List.nodup_nil⟩

/-- The record stored under a key. -/
def get? (t : Table α) (k : κ) : Option α := t.entries.find? (fun a => key a = k)

/-- Store a record: in the place of the record with its key, else at the end. -/
def put (t : Table α) (a : α) : Table α :=
  if hmem : key a ∈ t.entries.map key then
    ⟨t.entries.map (fun b => if key b = key a then a else b), by
      have h : (t.entries.map (fun b => if key b = key a then a else b)).map key =
          t.entries.map key := by
        rw [List.map_map]
        apply List.map_congr_left
        intro b _
        by_cases hb : key b = key a <;> simp [hb]
      rw [h]; exact t.nodup⟩
  else
    ⟨t.entries ++ [a], by
      rw [List.map_append, List.map_singleton, List.nodup_append]
      refine ⟨t.nodup,List.nodup_singleton _,?_⟩
      intro k hk l hl he
      rw [he, List.mem_singleton.mp hl] at hk
      exact hmem hk⟩

/-- Delete the record stored under a key. -/
def erase (t : Table α) (k : κ) : Table α :=
  ⟨t.entries.filter (fun a => key a ≠ k), t.nodup.sublist (List.filter_sublist.map key)⟩

/-- Delete and store anew, so that the record moves to the end of the table. -/
def replace (t : Table α) (a : α) : Table α := (t.erase (key a)).put a

/-- Change the record stored under a key, if there is one. -/
def modify (t : Table α) (k : κ) (f : α → α) : Table α :=
  match t.get? k with
  | some a => t.put (f a)
  | none => t

@[simp] theorem get?_empty (k : κ) : (empty : Table α).get? k = none := rfl

theorem key_of_get? {t : Table α} {k : κ} {a : α} (h : t.get? k = some a) : key a = k := by
  simpa using List.find?_some h

theorem mem_of_get? {t : Table α} {k : κ} {a : α} (h : t.get? k = some a) : a ∈ t.entries :=
  List.mem_of_find?_eq_some h

/-- A stored record is found under its own key. -/
theorem get?_of_mem {t : Table α} {a : α} (h : a ∈ t.entries) : t.get? (key a) = some a := by
  obtain ⟨es,hn⟩ := t
  change a ∈ es at h
  change es.find? (fun b => key b = key a) = some a
  induction es with
  | nil => simp at h
  | cons b es ih =>
    obtain ⟨hb,hes⟩ := List.nodup_cons.mp hn
    obtain rfl | ha := List.mem_cons.mp h
    · simp
    · have hne : key b ≠ key a := fun he => hb (he ▸ List.mem_map_of_mem ha)
      simpa [hne] using ih hes ha

theorem mem_iff_get? {t : Table α} {a : α} : a ∈ t.entries ↔ t.get? (key a) = some a :=
  ⟨get?_of_mem,mem_of_get?⟩

theorem entries_put_of_mem {t : Table α} {a : α} (h : key a ∈ t.entries.map key) :
    (t.put a).entries = t.entries.map fun b => if key b = key a then a else b := by
  unfold put
  rw [dif_pos h]

theorem entries_put_of_not_mem {t : Table α} {a : α} (h : key a ∉ t.entries.map key) :
    (t.put a).entries = t.entries ++ [a] := by
  unfold put
  rw [dif_neg h]

/-- Of two records stored under one key, the second one stays. -/
theorem put_put (t : Table α) (a b : α) (h : key a = key b) : (t.put a).put b = t.put b := by
  apply ext
  by_cases hmem : key b ∈ t.entries.map key
  · have ha := entries_put_of_mem (h ▸ hmem : key a ∈ t.entries.map key)
    have hmem' : key b ∈ (t.put a).entries.map key := by
      rw [ha, List.map_map]
      obtain ⟨c,hc,hcb⟩ := List.mem_map.mp hmem
      exact List.mem_map.mpr ⟨c,hc,by simp [hcb, h]⟩
    rw [entries_put_of_mem hmem', entries_put_of_mem hmem, ha, List.map_map]
    apply List.map_congr_left
    intro c _
    by_cases hc : key c = key b <;> simp [hc, h]
  · have ha := entries_put_of_not_mem (h ▸ hmem : key a ∉ t.entries.map key)
    have hmem' : key b ∈ (t.put a).entries.map key := by
      rw [ha]
      simp [h]
    have hold : t.entries.map (fun c => if key c = key b then b else c) = t.entries := by
      rw [List.map_congr_left (g := id), List.map_id]
      intro c hc
      exact if_neg fun he => hmem (List.mem_map.mpr ⟨c,hc,he⟩)
    rw [entries_put_of_mem hmem', entries_put_of_not_mem hmem, ha, List.map_append, hold]
    simp [h]

/-- Storing a record that is stored already changes nothing. -/
theorem put_self {t : Table α} {k : κ} {a : α} (h : t.get? k = some a) : t.put a = t := by
  have hkey : key a = k := key_of_get? h
  apply ext
  rw [entries_put_of_mem (List.mem_map_of_mem (mem_of_get? h)),
    List.map_congr_left (g := id), List.map_id]
  intro b hb
  split_ifs with hba
  · have hb' := get?_of_mem hb
    rw [hba, hkey, h] at hb'
    exact Option.some.inj hb'
  · rfl

theorem get?_put (t : Table α) (a : α) (k : κ) :
    (t.put a).get? k = if k = key a then some a else t.get? k := by
  unfold put
  split_ifs with hmem hk hk
  · subst hk
    obtain ⟨b,hb,hba⟩ := List.mem_map.mp hmem
    have hin : a ∈ t.entries.map (fun c => if key c = key a then a else c) :=
      List.mem_map.mpr ⟨b,hb,by simp [hba]⟩
    exact get?_of_mem (t := ⟨_,_⟩) hin
  · simp only [get?, List.find?_map]
    have hf : ((fun b => decide (key b = k)) ∘ fun b => if key b = key a then a else b) =
        fun b => decide (key b = k) := by
      funext b
      by_cases hb : key b = key a
      · simp [hb, Ne.symm hk]
      · simp [hb]
    rw [hf]
    cases he : t.entries.find? (fun b => decide (key b = k)) with
    | none => rfl
    | some b =>
      have hb : key b = k := by simpa using List.find?_some he
      simp [hb, hk]
  · subst hk
    have hnone : t.entries.find? (fun b => decide (key b = key a)) = none := by
      rw [List.find?_eq_none]
      intro b hb
      simpa using fun he => hmem (List.mem_map.mpr ⟨b,hb,he⟩)
    simp [get?, List.find?_append, hnone]
  · simp [get?, List.find?_append, Ne.symm hk]

theorem mem_put {t : Table α} {a b : α} :
    b ∈ (t.put a).entries ↔ b = a ∨ b ∈ t.entries ∧ key b ≠ key a := by
  rw [mem_iff_get?, get?_put, mem_iff_get? (t := t)]
  split_ifs with h
  · rw [Option.some.injEq]
    exact ⟨fun hab => Or.inl hab.symm,fun hb => (hb.resolve_right fun hne => hne.2 h).symm⟩
  · exact ⟨fun hb => Or.inr ⟨hb,h⟩,fun hb => (hb.resolve_left fun hab => h (by rw [hab])).1⟩

theorem mem_erase {t : Table α} {k : κ} {a : α} :
    a ∈ (t.erase k).entries ↔ a ∈ t.entries ∧ key a ≠ k := by
  rw [erase, List.mem_filter, decide_eq_true_iff]

/-- A property of all records is kept when the record that is stored has it, and only then. -/
theorem forall_mem_put {t : Table α} {P : α → Prop} (h : ∀ b ∈ t.entries, P b) (a : α) :
    (∀ b ∈ (t.put a).entries, P b) ↔ P a := by
  constructor
  · intro hall
    exact hall a (mem_put.mpr (Or.inl rfl))
  · rintro ha b hb
    obtain rfl | ⟨hb,-⟩ := mem_put.mp hb
    · exact ha
    · exact h b hb

theorem get?_eq_none_iff {t : Table α} {k : κ} :
    t.get? k = none ↔ k ∉ t.entries.map key := by
  rw [get?, List.find?_eq_none]
  constructor
  · rintro h hk
    obtain ⟨a,ha,rfl⟩ := List.mem_map.mp hk
    exact h a ha (decide_eq_true rfl)
  · intro h a ha hak
    exact h (List.mem_map.mpr ⟨a,ha,of_decide_eq_true hak⟩)

theorem length_put (t : Table α) (a : α) :
    (t.put a).entries.length =
      t.entries.length+if (t.get? (key a)).isSome then 0 else 1 := by
  by_cases hmem : key a ∈ t.entries.map key
  · have hsome : (t.get? (key a)).isSome := by
      rw [Option.isSome_iff_ne_none]
      exact fun hnone => get?_eq_none_iff.mp hnone hmem
    rw [entries_put_of_mem hmem, List.length_map, if_pos hsome, Nat.add_zero]
  · rw [entries_put_of_not_mem hmem, get?_eq_none_iff.mpr hmem, List.length_append]
    rfl

theorem length_erase (t : Table α) (k : κ) :
    (t.erase k).entries.length+(if (t.get? k).isSome then 1 else 0) = t.entries.length := by
  have hsum := List.length_eq_countP_add_countP (fun a => decide (key a ≠ k)) (l := t.entries)
  have hrest : (t.erase k).entries.length = t.entries.countP fun a => decide (key a ≠ k) :=
    List.countP_eq_length_filter.symm
  have hone : (t.entries.countP fun a => decide ¬decide (key a ≠ k) = true) =
      (t.entries.map key).count k := by
    rw [List.count, List.countP_map]
    refine List.countP_congr fun a _ => ?_
    simp
  rw [hsum, hrest, hone]
  split_ifs with h
  · obtain ⟨a,ha⟩ := Option.isSome_iff_exists.mp h
    rw [List.count_eq_one_of_mem t.nodup]
    rw [← key_of_get? ha]
    exact List.mem_map_of_mem (mem_of_get? ha)
  · rw [List.count_eq_zero_of_not_mem]
    rw [← get?_eq_none_iff]
    exact Option.not_isSome_iff_eq_none.mp h

/-- A table with more keys has more records. -/
theorem length_le_of_known {s t : Table α} (h : ∀ k, t.get? k = none → s.get? k = none) :
    s.entries.length ≤ t.entries.length := by
  have hsubset : s.entries.map key ⊆ t.entries.map key := by
    intro k hk
    by_contra hnot
    exact get?_eq_none_iff.mp (h k (get?_eq_none_iff.mpr hnot)) hk
  have hle := (List.subperm_of_subset s.nodup hsubset).length_le
  rwa [List.length_map, List.length_map] at hle

theorem erase_of_none {t : Table α} {k : κ} (h : t.get? k = none) : t.erase k = t := by
  refine ext (List.filter_eq_self.mpr fun a ha => ?_)
  rw [decide_eq_true_iff]
  rintro rfl
  exact get?_eq_none_iff.mp h (List.mem_map_of_mem ha)

theorem length_erase_of_some {t : Table α} {k : κ} {a : α} (h : t.get? k = some a) :
    (t.erase k).entries.length+1 = t.entries.length := by
  rw [← length_erase t k, h]
  rfl

theorem keys_put_of_some {t : Table α} {a b : α} (h : t.get? (key a) = some b) :
    (t.put a).entries.map key = t.entries.map key := by
  have hmem : key a ∈ t.entries.map key := by
    rw [← key_of_get? h]
    exact List.mem_map_of_mem (mem_of_get? h)
  rw [entries_put_of_mem hmem, List.map_map]
  apply List.map_congr_left
  intro c _
  by_cases hc : key c = key a <;> simp [hc]

theorem keys_put_of_none {t : Table α} {a : α} (h : t.get? (key a) = none) :
    (t.put a).entries.map key = t.entries.map key ++ [key a] := by
  rw [entries_put_of_not_mem (get?_eq_none_iff.mp h), List.map_append]
  rfl

theorem keys_erase (t : Table α) (k : κ) :
    (t.erase k).entries.map key = (t.entries.map key).erase k := by
  rw [t.nodup.erase_eq_filter, List.filter_map]
  exact congrArg (List.map key) (List.filter_congr fun a _ => by
    by_cases h : key a = k <;> simp [h])

/-- Records with different keys, stored one after the other. -/
theorem get?_foldl_put (as : List α) (hn : (as.map key).Nodup) (t : Table α) (k : κ) :
    (as.foldl put t).get? k = (as.find? (fun a => key a = k)).or (t.get? k) := by
  induction as generalizing t with
  | nil => rfl
  | cons a as ih =>
    obtain ⟨ha,has⟩ := List.nodup_cons.mp hn
    rw [List.foldl_cons, ih has, get?_put]
    by_cases hk : key a = k
    · have hnone : as.find? (fun b => decide (key b = k)) = none := by
        rw [List.find?_eq_none]
        intro b hb hbk
        exact ha (List.mem_map.mpr ⟨b,hb,(by simpa using hbk : key b = k).trans hk.symm⟩)
      simp [hk, hnone]
    · rw [if_neg fun he => hk he.symm, List.find?_cons_of_neg (by simpa using hk)]

/-- Records stored one after the other: the last one of a key stays. -/
theorem get?_foldl_put_last (as : List α) (t : Table α) (k : κ) :
    (as.foldl put t).get? k = ((as.filter fun a => key a = k).getLast?).or (t.get? k) := by
  induction as using List.reverseRecOn with
  | nil => rfl
  | append_singleton as a ih =>
    rw [List.foldl_append, List.foldl_cons, List.foldl_nil, get?_put, List.filter_append]
    by_cases hk : key a = k
    · simp [hk]
    · rw [if_neg fun he => hk he.symm, ih]
      simp [hk]

theorem get?_erase (t : Table α) (k k' : κ) :
    (t.erase k).get? k' = if k' = k then none else t.get? k' := by
  simp only [get?, erase, List.find?_filter]
  split_ifs with hk
  · subst hk
    rw [List.find?_eq_none]
    intro a _
    simp
  · congr 1
    funext a
    by_cases ha : key a = k'
    · simp [ha, hk]
    · simp [ha]

/-- The table without some records. -/
def without (t : Table α) (as : List α) : Table α := as.foldl (fun t a => t.erase (key a)) t

theorem entries_without (t : Table α) (as : List α) :
    (t.without as).entries = t.entries.filter fun a => key a ∉ as.map key := by
  induction as generalizing t with
  | nil => exact (List.filter_eq_self.mpr fun a _ => by simp).symm
  | cons a as ih =>
    have hcons : t.without (a :: as) = (t.erase (key a)).without as := rfl
    rw [hcons, ih, erase, List.filter_filter]
    refine List.filter_congr fun b _ => ?_
    rw [← Bool.decide_and, decide_eq_decide, List.map_cons, List.mem_cons, not_or, and_comm]

theorem get?_replace (t : Table α) (a : α) (k : κ) :
    (t.replace a).get? k = if k = key a then some a else t.get? k := by
  rw [replace, get?_put, get?_erase]
  split_ifs <;> rfl

/-- Records with different keys, each stored anew in a changed form. -/
theorem get?_foldl_replace (f : α → α) (hf : ∀ a, key (f a) = key a) (as : List α)
    (hn : (as.map key).Nodup) (t : Table α) (k : κ) :
    (as.foldl (fun t a => t.replace (f a)) t).get? k =
      ((as.find? (fun a => key a = k)).map f).or (t.get? k) := by
  induction as generalizing t with
  | nil => rfl
  | cons a as ih =>
    obtain ⟨ha,has⟩ := List.nodup_cons.mp hn
    rw [List.foldl_cons, ih has, get?_replace, hf]
    by_cases hk : key a = k
    · have hnone : as.find? (fun b => decide (key b = k)) = none := by
        rw [List.find?_eq_none]
        intro b hb hbk
        exact ha (List.mem_map.mpr ⟨b,hb,(by simpa using hbk : key b = k).trans hk.symm⟩)
      simp [hk, hnone]
    · rw [if_neg fun he => hk he.symm, List.find?_cons_of_neg (by simpa using hk)]

/-- The records of a table that satisfy `P`, in any order: looking one up is looking it up in
the table. -/
theorem find?_of_mem_iff {t : Table α} {P : α → Bool} {as : List α}
    (h : ∀ a, a ∈ as ↔ t.get? (key a) = some a ∧ P a = true) (k : κ) :
    as.find? (fun a => key a = k) = (t.get? k).filter P := by
  cases hfind : as.find? (fun a => decide (key a = k)) with
  | some a =>
    have hk : key a = k := by simpa using List.find?_some hfind
    obtain ⟨hget,hP⟩ := (h a).mp (List.mem_of_find?_eq_some hfind)
    rw [← hk, hget, Option.filter_some, if_pos hP]
  | none =>
    rw [List.find?_eq_none] at hfind
    cases hget : t.get? k with
    | none => rfl
    | some a =>
      have hk := key_of_get? hget
      have hP : ¬ P a = true := fun hP =>
        hfind a ((h a).mpr ⟨by rw [hk, hget],hP⟩) (by simpa using hk)
      rw [Option.filter_some, if_neg hP]

/-- The records that satisfy `P`, each stored in a changed form. -/
theorem get?_foldl_put_filter (t : Table α) (P : α → Bool) (f : α → α)
    (hf : ∀ a, key (f a) = key a) (k : κ) :
    ((t.entries.filter P).foldl (fun t a => t.put (f a)) t).get? k =
      (t.get? k).map fun a => if P a then f a else a := by
  have hkeys : (((t.entries.filter P).map f).map key).Nodup := by
    rw [List.map_map, (funext hf : key ∘ f = key)]
    exact t.nodup.sublist (List.filter_sublist.map key)
  have hP : ∀ a, a ∈ t.entries.filter P ↔ t.get? (key a) = some a ∧ P a = true := fun a => by
    rw [List.mem_filter, mem_iff_get?]
  rw [← List.foldl_map, get?_foldl_put _ hkeys, List.find?_map]
  have hkey : (fun a => decide (key a = k)) ∘ f = fun a => decide (key a = k) := by
    funext a
    simp [hf]
  rw [hkey, find?_of_mem_iff hP]
  cases t.get? k with
  | none => rfl
  | some a =>
    rw [Option.filter_some]
    cases h : P a <;> simp [h]

/-- A change that keeps the key touches the record of that key and no other. -/
theorem get?_modify (t : Table α) (k : κ) (f : α → α) (hf : ∀ a, key (f a) = key a) (k' : κ) :
    (t.modify k f).get? k' = if k' = k then (t.get? k).map f else t.get? k' := by
  unfold modify
  cases h : t.get? k with
  | none =>
    split_ifs with hk
    · rw [hk, h]; rfl
    · rfl
  | some a =>
    have ha : key (f a) = k := (hf a).trans (key_of_get? h)
    rw [get?_put, ha]
    rfl

/-- Two changes of one record are one change. -/
theorem modify_modify (t : Table α) (k : κ) (f g : α → α) (hf : ∀ a, key (f a) = key a)
    (hg : ∀ a, key (g a) = key a) : (t.modify k f).modify k g = t.modify k (g ∘ f) := by
  have hget := get?_modify t k f hf k
  rw [if_pos rfl] at hget
  cases h : t.get? k with
  | none => simp [modify, h]
  | some a =>
    have h1 : t.modify k f = t.put (f a) := by rw [modify, h]
    rw [h, h1] at hget
    have h2 : (t.put (f a)).modify k g = (t.put (f a)).put (g (f a)) := by
      rw [modify, hget]
      rfl
    rw [h1, h2, put_put _ _ _ (hg (f a)).symm, modify, h]
    rfl

end Table

variable {κ α : Type*} {u v w : κ → Option α}

/-- What `v` knows under a key, `w` knows as well. -/
def Part (v w : κ → Option α) : Prop := ∀ k a, v k = some a → w k = some a

theorem Part.refl (v : κ → Option α) : Part v v := fun _ _ h => h

theorem Part.trans (huv : Part u v) (hvw : Part v w) : Part u w :=
  fun k a h => hvw k a (huv k a h)

/-- A history grows by a new fact. -/
theorem part_update [DecidableEq κ] {k : κ} (hk : v k = none) (a : α) :
    Part v (Function.update v k (some a)) := by
  intro j b hj
  have hjk : j ≠ k := by
    rintro rfl
    rw [hk] at hj
    cases hj
  rwa [Function.update_of_ne hjk]

/-- Two parts of one history agree. -/
theorem Part.agree (hu : Part u w) (hv : Part v w) {k : κ} {a b : α} (ha : u k = some a)
    (hb : v k = some b) : a = b :=
  Option.some.inj ((hu k a ha).symm.trans (hv k b hb))

/-- Two parts of one history with the same keys are the same. -/
theorem Part.eq_of_keys (hu : Part u w) (hv : Part v w)
    (hkeys : ∀ k, (u k).isSome = (v k).isSome) : u = v := by
  funext k
  have hk := hkeys k
  cases ha : u k with
  | none =>
    rw [ha] at hk
    cases hb : v k with
    | none => rfl
    | some b => rw [hb] at hk; cases hk
  | some a =>
    rw [ha] at hk
    cases hb : v k with
    | none => rw [hb] at hk; cases hk
    | some b => rw [hu.agree hv ha hb]

namespace Table
variable {β ι : Type*} [Keyed β ι] [DecidableEq ι] {s t : Table β} {h : ι → Option β}

open Keyed (key)

/-- A record that the history has may be stored. -/
theorem part_put (ht : Part t.get? h) {b : β} (hb : h (key b) = some b) :
    Part (t.put b).get? h := by
  intro k a hk
  rw [get?_put] at hk
  split_ifs at hk with heq
  · rw [heq, hb, hk]
  · exact ht k a hk

/-- Tables that are parts of one history and have the same keys hold the same records. -/
theorem perm_of_part (hs : Part s.get? h) (ht : Part t.get? h)
    (hkeys : ∀ k, k ∈ s.entries.map key ↔ k ∈ t.entries.map key) :
    s.entries.Perm t.entries := by
  have hsome : ∀ (u : Table β) k, (u.get? k).isSome ↔ k ∈ u.entries.map key := by
    intro u k
    rw [Option.isSome_iff_exists, List.mem_map]
    constructor
    · rintro ⟨a,ha⟩
      exact ⟨a,mem_of_get? ha,key_of_get? ha⟩
    · rintro ⟨a,ha,rfl⟩
      exact ⟨a,get?_of_mem ha⟩
  have hget : s.get? = t.get? := hs.eq_of_keys ht fun k => by
    rw [Bool.eq_iff_iff, hsome, hsome, hkeys]
  rw [List.perm_ext_iff_of_nodup s.nodup.of_map t.nodup.of_map]
  intro a
  rw [mem_iff_get?, mem_iff_get?, hget]

end Table
end Arsonist.Library
