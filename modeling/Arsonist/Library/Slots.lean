import Arsonist.Library.Interleaving
import Arsonist.Library.Keyed

/-! Tasks under way that are registered in a table by their names. A name that two of them share is
registered once, so that the table may hold fewer records than there are tasks, but never one of a
task that is not under way. -/
namespace Arsonist.Library
namespace Table

open Keyed (key)

variable {α κ : Type*} [Keyed α κ] {t : Table α} {names names' : List κ} {a : α} {k : κ}

/-- Each record is that of a task under way. -/
def Registers (t : Table α) (names : List κ) : Prop := t.entries.map key ⊆ names

theorem Registers.subperm (h : t.Registers names) : (t.entries.map key).Subperm names :=
  List.subperm_of_subset t.nodup h

theorem Registers.length_le (h : t.Registers names) : t.entries.length ≤ names.length := by
  have hle := h.subperm.length_le
  rwa [List.length_map] at hle

theorem Registers.eq_nil (h : t.Registers []) : t.entries = [] :=
  List.map_eq_nil_iff.mp (List.eq_nil_of_subset_nil h)

theorem Registers.of_perm (h : t.Registers names) (hnames : names'.Perm names) :
    t.Registers names' :=
  fun _ hk => hnames.mem_iff.mpr (h hk)

variable [DecidableEq κ]

theorem Registers.put (h : t.Registers names) (hnames : names'.Perm (key a :: names)) :
    (t.put a).Registers names' := by
  intro k hk
  obtain ⟨b,hb,rfl⟩ := List.mem_map.mp hk
  rw [hnames.mem_iff, List.mem_cons]
  obtain rfl | ⟨hb,-⟩ := mem_put.mp hb
  · exact Or.inl rfl
  · exact Or.inr (h (List.mem_map_of_mem hb))

theorem Registers.erase (h : t.Registers names) (hnames : names.Perm (k :: names')) :
    (t.erase k).Registers names' := by
  intro k' hk'
  obtain ⟨b,hb,rfl⟩ := List.mem_map.mp hk'
  obtain ⟨hb,hne⟩ := mem_erase.mp hb
  exact ((List.mem_cons.mp (hnames.mem_iff.mp (h (List.mem_map_of_mem hb)))).resolve_left hne)

/-- As many records as tasks: each task has its own record. -/
theorem Registers.mem_iff (h : t.Registers names) (hlen : names.length = t.entries.length) :
    k ∈ names ↔ (t.get? k).isSome := by
  have hperm : (t.entries.map key).Perm names :=
    h.subperm.perm_of_length_le (by rw [List.length_map, hlen])
  rw [← hperm.mem_iff, Option.isSome_iff_ne_none, ne_eq, get?_eq_none_iff, not_not]

/-- A new task gets a record of its own exactly if no task under way has its name. -/
theorem Registers.length_put_iff (h : t.Registers names) (hlen : names.length = t.entries.length)
    (hnames : names'.Perm (key a :: names)) :
    names'.length = (t.put a).entries.length ↔ key a ∉ names := by
  rw [hnames.length_eq, List.length_cons, hlen, length_put, h.mem_iff hlen]
  split_ifs with hsome
  · exact iff_of_false (Nat.succ_ne_self _) (not_not_intro hsome)
  · exact iff_of_true rfl hsome

theorem Registers.length_erase (h : t.Registers names) (hlen : names.length = t.entries.length)
    (hnames : names.Perm (k :: names')) : names'.length = (t.erase k).entries.length := by
  have hk : (t.get? k).isSome :=
    (h.mem_iff hlen).mp (hnames.mem_iff.mpr List.mem_cons_self)
  have herase := Table.length_erase t k
  rw [if_pos hk] at herase
  have hlen' := hnames.length_eq
  rw [List.length_cons] at hlen'
  omega

end Table

namespace Pool
variable {σ π β : Type*} {s : Pool σ π} {i : ℕ} {p : π}

/-- What the processes have of something: what one of them has, and what the others do. -/
theorem filterMap_perm_others (h : s.procs[i]? = some p) (f : π → Option β) :
    (s.procs.filterMap f).Perm ((f p).toList ++ (s.procs.eraseIdx i).filterMap f) := by
  obtain ⟨hi,rfl⟩ := List.getElem?_eq_some_iff.mp h
  have hperm := (List.getElem_cons_eraseIdx_perm hi).symm.filterMap f
  rw [List.filterMap_cons] at hperm
  cases hf : f s.procs[i] with
  | none => simpa [hf] using hperm
  | some b => simpa [hf] using hperm

theorem filterMap_set_perm_others (h : s.procs[i]? = some p) (p' : π) (f : π → Option β) :
    ((s.procs.set i p').filterMap f).Perm
      ((f p').toList ++ (s.procs.eraseIdx i).filterMap f) := by
  obtain ⟨hi,-⟩ := List.getElem?_eq_some_iff.mp h
  have hset : (s.procs.set i p')[i]? = some p' := List.getElem?_set_self hi
  have hperm := filterMap_perm_others (s := ⟨s.shared,s.procs.set i p'⟩) hset f
  rwa [List.eraseIdx_set_eq] at hperm

end Pool
end Arsonist.Library
