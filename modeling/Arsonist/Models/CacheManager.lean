import Arsonist.Library.Eviction
import Arsonist.Library.Sums
import Arsonist.Library.Text

/-! The quota of the model cache. Its index is a table of a database, apart from the files: an entry
may be left whose file is gone, and two entries may lead to one file. The index file itself is no
entry. -/
namespace Arsonist.Models
open Arsonist.Library

/-- A row of `cache_entries`. -/
structure CacheEntry where
  path : String
  sizeBytes : ℤ
  lastAccess : ℚ
  deriving DecidableEq

instance : Keyed CacheEntry String := ⟨CacheEntry.path⟩

/-- The manager, with the files that exist. -/
structure CacheManager where
  quotaMb : ℤ
  entries : Table CacheEntry := Table.empty
  files : Finset String := ∅

/-- The size of some entries in MB. -/
def sizeMb (l : List CacheEntry) : ℚ := (l.map CacheEntry.sizeBytes).sum/(1024*1024)

namespace CacheManager

/-- `quota_mb or int(os.getenv(...))`. A value that is no number raises. -/
def create (quotaMb : Option ℤ) (env : Option String) (files : Finset String) :
    Option CacheManager :=
  match quotaMb.filter (· ≠ 0) with
  | some quotaMb => some { quotaMb := quotaMb, files := files }
  | none => (Text.parseInt (env.getD "102400")).map fun q => { quotaMb := q, files := files }

variable (s : CacheManager)

/-- `touch`. -/
def touch (ts : ℚ) (relPath : String) (sizeBytes : ℤ) : CacheManager :=
  { s with entries := s.entries.put ⟨relPath,sizeBytes,ts⟩ }

/-- `total_mb`. -/
def totalMb : ℚ := sizeMb s.entries.entries

/-- Which row the database takes among those with the least `last_access`. -/
abbrev RowOrder := Table.OldestFirst CacheEntry.lastAccess

variable (o : RowOrder) (locate : String → String)

/-- The loop in `evict_if_needed`, as far as the fuel lasts. The row is deleted first. -/
def evictLoop : ℕ → CacheManager → CacheManager × ℕ
  | 0, s => (s,0)
  | fuel+1, s =>
    if s.quotaMb < s.totalMb then
      match o.first s.entries.entries with
      | none => (s,0)
      | some row =>
        let s := { s with entries := s.entries.erase row.path }
        if locate row.path ∈ s.files then
          let next := evictLoop fuel { s with files := s.files.erase (locate row.path) }
          (next.1,next.2+1)
        else (s,0)
    else (s,0)

/-- `evict_if_needed`. -/
def evictIfNeeded : CacheManager × ℕ := evictLoop o locate (s.entries.entries.length+1) s

/-- The loop over the rows in the order in which they are taken. -/
def trimmed (quotaMb : ℤ) (locate : String → String) : Finset String → List CacheEntry →
    List CacheEntry
  | _, [] => []
  | files, row :: rest =>
    if quotaMb < sizeMb (row :: rest) then
      if locate row.path ∈ files then trimmed quotaMb locate (files.erase (locate row.path)) rest
      else rest
    else row :: rest

/-- Each of some rows has a file of its own. -/
def Present (locate : String → String) (files : Finset String) (rows : List CacheEntry) : Prop :=
  (∀ row ∈ rows, locate row.path ∈ files) ∧ (rows.map fun row => locate row.path).Nodup

section Lists
variable {quotaMb : ℤ} {locate : String → String} {files : Finset String}
  {row : CacheEntry} {rows : List CacheEntry}

theorem sizeMb_perm {l m : List CacheEntry} (h : l.Perm m) : sizeMb l = sizeMb m := by
  rw [sizeMb, sizeMb, (h.map CacheEntry.sizeBytes).sum_eq]

theorem present_nil : Present locate files [] := ⟨nofun,List.nodup_nil⟩

/-- A row's file is unlinked before those of the other rows are looked for. -/
theorem present_cons :
    Present locate files (row :: rows) ↔
      locate row.path ∈ files ∧ Present locate (files.erase (locate row.path)) rows := by
  simp only [Present, List.map_cons, List.nodup_cons, List.forall_mem_cons, Finset.mem_erase,
    List.mem_map, not_exists, not_and]
  constructor
  · rintro ⟨⟨hrow,hrows⟩,hnot,hnodup⟩
    exact ⟨hrow,fun r hr => ⟨hnot r hr,hrows r hr⟩,hnodup⟩
  · rintro ⟨hrow,hrows,hnodup⟩
    exact ⟨⟨hrow,fun r hr => (hrows r hr).2⟩,fun r hr => (hrows r hr).1,hnodup⟩

/-- The loop ends within the quota exactly if it would do so after some number of rows, and finds
the files of all of these but the last one. -/
theorem sizeMb_trimmed_le_iff :
    sizeMb (trimmed quotaMb locate files rows) ≤ quotaMb ↔
      ∃ p q, rows = p ++ q ∧ sizeMb q ≤ quotaMb ∧ Present locate files p.dropLast := by
  induction rows generalizing files with
  | nil =>
    constructor
    · intro h
      exact ⟨[],[],rfl,h,present_nil⟩
    · rintro ⟨p,q,hpq,hq,-⟩
      rw [(List.append_eq_nil_iff.mp hpq.symm).2] at hq
      exact hq
  | cons row rows ih =>
    rw [trimmed]
    split_ifs with hover hfile
    · rw [ih]
      constructor
      · rintro ⟨p,q,rfl,hq,hp⟩
        refine ⟨row :: p,q,rfl,hq,?_⟩
        cases p with
        | nil => exact present_nil
        | cons r p =>
          rw [List.dropLast_cons_of_ne_nil (List.cons_ne_nil r p), present_cons]
          exact ⟨hfile,hp⟩
      · rintro ⟨p,q,hpq,hq,hp⟩
        cases p with
        | nil =>
          rw [List.nil_append] at hpq
          rw [← hpq] at hq
          exact absurd hq hover.not_ge
        | cons r p =>
          obtain ⟨rfl,rfl⟩ := List.cons.inj hpq
          refine ⟨p,q,rfl,hq,?_⟩
          cases p with
          | nil => exact present_nil
          | cons r p =>
            rw [List.dropLast_cons_of_ne_nil (List.cons_ne_nil r p), present_cons] at hp
            exact hp.2
    · constructor
      · intro h
        exact ⟨[row],rows,rfl,h,present_nil⟩
      · rintro ⟨p,q,hpq,hq,hp⟩
        cases p with
        | nil =>
          rw [List.nil_append] at hpq
          rw [← hpq] at hq
          exact absurd hq hover.not_ge
        | cons r p =>
          obtain ⟨rfl,rfl⟩ := List.cons.inj hpq
          cases p with
          | nil => exact hq
          | cons r p =>
            rw [List.dropLast_cons_of_ne_nil (List.cons_ne_nil r p), present_cons] at hp
            exact absurd hp.1 hfile
    · constructor
      · intro h
        exact ⟨[],row :: rows,rfl,h,present_nil⟩
      · intro _
        exact not_lt.mp hover

/-- What is left is a suffix, and each row that is gone was deleted over the quota. -/
theorem exists_trimmed :
    ∃ gone, rows = gone ++ trimmed quotaMb locate files rows ∧
      ∀ p r q, gone = p ++ r :: q →
        quotaMb < sizeMb (r :: q ++ trimmed quotaMb locate files rows) := by
  induction rows generalizing files with
  | nil => exact ⟨[],rfl,fun p r q h => by simp at h⟩
  | cons row rows ih =>
    rw [trimmed]
    split_ifs with hover hfile
    · obtain ⟨gone,hgone,hneeded⟩ := @ih (files.erase (locate row.path))
      refine ⟨row :: gone,by rw [List.cons_append, ← hgone],?_⟩
      intro p r q h
      cases p with
      | nil =>
        obtain ⟨rfl,rfl⟩ := List.cons.inj h
        rwa [List.cons_append, ← hgone]
      | cons a p =>
        obtain ⟨rfl,hq⟩ := List.cons.inj h
        exact hneeded p r q hq
    · refine ⟨[row],rfl,?_⟩
      intro p r q h
      cases p with
      | nil =>
        obtain ⟨rfl,rfl⟩ := List.cons.inj h
        exact hover
      | cons a p => simp at h
    · exact ⟨[],rfl,fun p r q h => by simp at h⟩

end Lists

section Loop
variable {s o locate}

theorem totalMb_eq (o : RowOrder) (s : CacheManager) : s.totalMb = sizeMb (o.order s.entries) :=
  sizeMb_perm (o.perm_order s.entries).symm

/-- The loop takes the rows in their order, and the fuel lasts. -/
theorem evictLoop_eq {fuel : ℕ} (h : s.entries.entries.length < fuel) :
    o.order (evictLoop o locate fuel s).1.entries =
        trimmed s.quotaMb locate s.files (o.order s.entries) ∧
      evictLoop o locate (fuel+1) s = evictLoop o locate fuel s := by
  induction fuel generalizing s with
  | zero => exact absurd h (Nat.not_lt_zero _)
  | succ fuel ih =>
    rw [evictLoop.eq_2 o locate s (fuel+1), evictLoop.eq_2 o locate s fuel]
    by_cases hover : s.quotaMb < s.totalMb
    · rw [if_pos hover, if_pos hover]
      rw [totalMb_eq o] at hover
      cases hfirst : o.first s.entries.entries with
      | none =>
        rw [o.order_of_none hfirst]
        exact ⟨rfl,rfl⟩
      | some row =>
        have hlen : (s.entries.erase row.path).entries.length+1 = s.entries.entries.length :=
          o.length_erase_first hfirst
        have horder : o.order s.entries = row :: o.order (s.entries.erase row.path) :=
          o.order_of_some hfirst
        rw [horder] at hover ⊢
        rw [trimmed, if_pos hover]
        dsimp only
        split_ifs with hfile
        · let t : CacheManager := { s with
            entries := s.entries.erase row.path, files := s.files.erase (locate row.path) }
          have ht : t.entries.entries.length < fuel := by
            change (s.entries.erase row.path).entries.length < fuel
            omega
          obtain ⟨hrest,hfuel⟩ := ih ht
          refine ⟨hrest,?_⟩
          rw [hfuel]
        · exact ⟨rfl,rfl⟩
    · rw [if_neg hover, if_neg hover]
      rw [totalMb_eq o] at hover
      refine ⟨?_,rfl⟩
      cases horder : o.order s.entries with
      | nil => rfl
      | cons row rest =>
        rw [horder] at hover
        rw [trimmed, if_neg hover]

theorem evictLoop_more (more : ℕ) :
    evictLoop o locate (s.entries.entries.length+1+more) s = s.evictIfNeeded o locate := by
  induction more with
  | zero => rfl
  | succ more ih => rw [← Nat.add_assoc, (evictLoop_eq (by omega)).2, ih]

theorem order_evictIfNeeded :
    o.order (s.evictIfNeeded o locate).1.entries =
      trimmed s.quotaMb locate s.files (o.order s.entries) :=
  (evictLoop_eq (Nat.lt_succ_self _)).1

end Loop

/-- The call ends, the entries are within the quota afterwards, and those that are gone were used
least recently, each of them deleted while the entries were over the quota. -/
def KeepsQuota : Prop :=
  (∀ more, evictLoop o locate (s.entries.entries.length+1+more) s = s.evictIfNeeded o locate) ∧
    (s.evictIfNeeded o locate).1.totalMb ≤ s.quotaMb ∧
    ∃ gone, (gone ++ (s.evictIfNeeded o locate).1.entries.entries).Perm s.entries.entries ∧
      (gone.Pairwise fun a b => a.lastAccess ≤ b.lastAccess) ∧
      (∀ a ∈ gone, ∀ b ∈ (s.evictIfNeeded o locate).1.entries.entries,
        a.lastAccess ≤ b.lastAccess) ∧
      ∀ p r q, gone = p ++ r :: q →
        s.quotaMb < sizeMb (r :: q ++ (s.evictIfNeeded o locate).1.entries.entries)

/-- What is deleted is always what was used least recently, and nothing without need. -/
theorem exists_gone :
    ∃ gone, (gone ++ (s.evictIfNeeded o locate).1.entries.entries).Perm s.entries.entries ∧
      (gone.Pairwise fun a b => a.lastAccess ≤ b.lastAccess) ∧
      (∀ a ∈ gone, ∀ b ∈ (s.evictIfNeeded o locate).1.entries.entries,
        a.lastAccess ≤ b.lastAccess) ∧
      ∀ p r q, gone = p ++ r :: q →
        s.quotaMb < sizeMb (r :: q ++ (s.evictIfNeeded o locate).1.entries.entries) := by
  obtain ⟨gone,hgone,hneeded⟩ :=
    @exists_trimmed s.quotaMb locate s.files (o.order s.entries)
  rw [← order_evictIfNeeded] at hgone hneeded
  have hkept := o.perm_order (s.evictIfNeeded o locate).1.entries
  have hsorted := o.pairwise_order s.entries
  rw [hgone, List.pairwise_append] at hsorted
  refine ⟨gone,?_,hsorted.1,?_,?_⟩
  · have hall := o.perm_order s.entries
    rw [hgone] at hall
    exact (hkept.symm.append_left gone).trans hall
  · exact fun a ha b hb => hsorted.2.2 a ha b (hkept.mem_iff.mpr hb)
  · intro p r q hsplit
    rw [← sizeMb_perm (hkept.append_left (r :: q))]
    exact hneeded p r q hsplit

/-- A quota of 1 MB and three entries of 1 MB each. The file of the oldest one is gone. -/
def missingFile : CacheManager where
  quotaMb := 1
  entries := ((Table.empty.put ⟨"a",1048576,1⟩).put ⟨"b",1048576,2⟩).put ⟨"c",1048576,3⟩
  files := {"b","c"}

end CacheManager
end Arsonist.Models
