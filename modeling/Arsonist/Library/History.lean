import Mathlib.Data.List.DropRight
import Mathlib.Tactic

/-! Lists that are cut to a maximal length, as `l = l[-n:]` cuts them. A negative `n` makes a slice
that leaves out the first elements, and zero makes one that leaves out nothing. The slice `l[:n]` is
the other end of a list. -/
namespace Arsonist.Library

variable {α : Type*}

/-- `l[-n:]`. -/
def lastSlice (n : ℤ) (l : List α) : List α :=
  if 0 < n then l.drop (l.length-n.toNat) else l.drop (-n).toNat

/-- `l[:n]`. -/
def firstSlice (n : ℤ) (l : List α) : List α :=
  if 0 ≤ n then l.take n.toNat else l.take (l.length-(-n).toNat)

theorem length_firstSlice_le (n : ℤ) (l : List α) : (firstSlice n l).length ≤ l.length := by
  rw [firstSlice]
  split_ifs
  · exact List.length_take_le' _ _
  · exact List.length_take_le' _ _

/-- The list, cut when it is longer than `n`. -/
def truncated (n : ℤ) (l : List α) : List α := if n < l.length then lastSlice n l else l

theorem lastSlice_sublist (n : ℤ) (l : List α) : (lastSlice n l).Sublist l := by
  rw [lastSlice]
  split_ifs
  · exact List.drop_sublist _ _
  · exact List.drop_sublist _ _

theorem mem_of_mem_lastSlice {n : ℤ} {l : List α} {a : α} (h : a ∈ lastSlice n l) : a ∈ l :=
  (lastSlice_sublist n l).subset h

theorem truncated_sublist (n : ℤ) (l : List α) : (truncated n l).Sublist l := by
  rw [truncated]
  split_ifs
  · exact lastSlice_sublist n l
  · exact List.Sublist.refl l

theorem mem_of_mem_truncated {n : ℤ} {l : List α} {a : α} (h : a ∈ truncated n l) : a ∈ l :=
  (truncated_sublist n l).subset h

/-- Only the last elements are kept. -/
theorem truncated_eq_rtake {n : ℕ} (hn : 0 < n) (l : List α) : truncated n l = l.rtake n := by
  rw [truncated, List.rtake]
  split_ifs with h
  · rw [lastSlice, if_pos (Int.natCast_pos.mpr hn), Int.toNat_natCast]
  · rw [Nat.sub_eq_zero_of_le (by omega), List.drop_zero]

/-- An element that was cut away would have been cut away in the end. -/
theorem rtake_rtake_append (n : ℕ) (l m : List α) :
    (l.rtake n ++ m).rtake n = (l ++ m).rtake n := by
  simp only [List.rtake, List.length_append, List.length_drop]
  rw [List.drop_append, List.drop_append, List.drop_drop, List.length_drop]
  congr 2
  · omega
  · omega

theorem rtake_eq_self {n : ℕ} {l : List α} (h : l.length ≤ n) : l.rtake n = l := by
  rw [List.rtake, Nat.sub_eq_zero_of_le h, List.drop_zero]

end Arsonist.Library
