import Arsonist.Library.Keyed

/-! Matrices of which only some entries are known: a table of rows, each of them a table of
entries. One matrix is merged into another by storing its entries there. -/
namespace Arsonist.Library

structure MatrixEntry (κ ω : Type*) where
  column : κ
  value : ω

instance {κ ω : Type*} : Keyed (MatrixEntry κ ω) κ := ⟨MatrixEntry.column⟩

structure MatrixRow (κ ω : Type*) where
  row : κ
  entries : Table (MatrixEntry κ ω)

instance {κ ω : Type*} : Keyed (MatrixRow κ ω) κ := ⟨MatrixRow.row⟩

abbrev SparseMatrix (κ ω : Type*) := Table (MatrixRow κ ω)

namespace SparseMatrix
open Keyed (key)
variable {κ ω : Type*} [DecidableEq κ]

/-- A row, which is empty where nothing is known of it. -/
def rowAt (m : SparseMatrix κ ω) (i : κ) : Table (MatrixEntry κ ω) :=
  (m.get? i).elim .empty MatrixRow.entries

/-- `m[i][j]`. -/
def at? (m : SparseMatrix κ ω) (i j : κ) : Option ω :=
  ((m.rowAt i).get? j).map MatrixEntry.value

/-- Store the entries of a row. -/
def storeRow (m : SparseMatrix κ ω) (r : MatrixRow κ ω) : SparseMatrix κ ω :=
  m.put ⟨r.row,r.entries.entries.foldl Table.put (m.rowAt r.row)⟩

/-- Store the entries of a matrix. -/
def merge (m n : SparseMatrix κ ω) : SparseMatrix κ ω := n.entries.foldl storeRow m

variable {m n : SparseMatrix κ ω} {i j : κ} {w : ω}

theorem at?_of_some {r : MatrixRow κ ω} (h : m.get? i = some r) (j : κ) :
    m.at? i j = (r.entries.get? j).map MatrixEntry.value := by
  rw [at?, rowAt, h]
  rfl

theorem at?_of_none (h : m.get? i = none) (j : κ) : m.at? i j = none := by
  rw [at?, rowAt, h]
  rfl

theorem at?_congr (h : m.get? i = n.get? i) (j : κ) : m.at? i j = n.at? i j := by
  rw [at?, at?, rowAt, rowAt, h]

theorem rowAt_of_mem {r : MatrixRow κ ω} (h : r ∈ m.entries) : m.rowAt r.row = r.entries := by
  have hget : m.get? r.row = some r := Table.get?_of_mem h
  rw [rowAt, hget]
  rfl

/-- The entries that a walk over the rows, and over the entries of each row, meets. -/
theorem at?_eq_some_iff :
    m.at? i j = some w ↔ ∃ r ∈ m.entries, r.row = i ∧ ⟨j,w⟩ ∈ r.entries.entries := by
  rw [at?, Option.map_eq_some_iff]
  constructor
  · rintro ⟨e,he,rfl⟩
    cases hrow : m.get? i with
    | none =>
      rw [rowAt, hrow] at he
      cases he
    | some r =>
      rw [rowAt, hrow] at he
      obtain rfl : e.column = j := Table.key_of_get? he
      exact ⟨r,Table.mem_of_get? hrow,Table.key_of_get? hrow,Table.mem_of_get? he⟩
  · rintro ⟨r,hr,rfl,he⟩
    rw [rowAt_of_mem hr]
    exact ⟨⟨j,w⟩,Table.get?_of_mem he,rfl⟩

/-- The entries of one row. -/
theorem mem_rowAt_iff : ⟨j,w⟩ ∈ (m.rowAt i).entries ↔ m.at? i j = some w := by
  rw [at?, Option.map_eq_some_iff]
  constructor
  · intro h
    exact ⟨⟨j,w⟩,Table.get?_of_mem h,rfl⟩
  · rintro ⟨e,he,rfl⟩
    obtain rfl : e.column = j := Table.key_of_get? he
    exact Table.mem_of_get? he

theorem at?_storeRow (m : SparseMatrix κ ω) (r : MatrixRow κ ω) (i j : κ) :
    (m.storeRow r).at? i j =
      if i = r.row then ((r.entries.get? j).map MatrixEntry.value).or (m.at? i j)
      else m.at? i j := by
  have hget : (m.storeRow r).get? i =
      if i = r.row then some ⟨r.row,r.entries.entries.foldl Table.put (m.rowAt r.row)⟩
      else m.get? i := Table.get?_put m _ i
  by_cases h : i = r.row
  · subst h
    rw [if_pos rfl] at hget
    rw [if_pos rfl, at?_of_some hget, Table.get?_foldl_put _ r.entries.nodup, Option.map_or]
    rfl
  · rw [if_neg h] at hget
    rw [if_neg h, at?_congr hget]

/-- What is merged in takes the place of what was known. -/
theorem at?_merge (m n : SparseMatrix κ ω) (i j : κ) :
    (m.merge n).at? i j = (n.at? i j).or (m.at? i j) := by
  obtain ⟨rs,hn⟩ := n
  change (rs.foldl storeRow m).at? i j = _
  induction rs generalizing m with
  | nil => rfl
  | cons r rs ih =>
    obtain ⟨hr,hrs⟩ := List.nodup_cons.mp hn
    rw [List.foldl_cons, ih _ hrs, at?_storeRow]
    by_cases h : i = r.row
    · subst h
      have hhead : (⟨r :: rs,hn⟩ : SparseMatrix κ ω).get? r.row = some r :=
        Table.get?_of_mem (t := ⟨r :: rs,hn⟩) List.mem_cons_self
      have hrest : (⟨rs,hrs⟩ : SparseMatrix κ ω).get? r.row = none :=
        Table.get?_eq_none_iff.mpr hr
      rw [if_pos rfl, at?_of_none hrest, at?_of_some hhead]
      rfl
    · have hskip : (⟨r :: rs,hn⟩ : SparseMatrix κ ω).get? i =
          (⟨rs,hrs⟩ : SparseMatrix κ ω).get? i :=
        List.find?_cons_of_neg (by simpa using fun he : key r = i => h he.symm)
      rw [if_neg h, at?_congr hskip]

end SparseMatrix
end Arsonist.Library
