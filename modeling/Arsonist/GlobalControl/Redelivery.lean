import Arsonist.GlobalControl.Replication

/-! Changes that are delivered again: a batch is sent once more when its callback has raised. The
second time, a change is skipped exactly when the first time has brought the stored version up to
its own; the stored version counts writes, so this takes one newer change for each step. -/
namespace Arsonist.GlobalControl
open Arsonist.Library

namespace StateReplicator
variable {V : Type*} (codec : JsonCodec V)

/-- The change is not newer than what is stored. -/
def Old (r : StateReplicator V) (c : Change V) : Prop :=
  c.versionOf ≤ Entry.versionOf (r.state.get codec c.nsOf c.keyOf)

variable {codec} {r : StateReplicator V × Applied}

theorem applyChange_of_old {t : Turn V} (h : r.1.Old codec t.1) :
    applyChange codec r t = (r.1,{ r.2 with skipped := r.2.skipped+1 }) := if_pos h

/-- A change that is not old is counted among the applied ones or the conflicts. -/
theorem taken_applyChange {t : Turn V} (h : ¬ r.1.Old codec t.1) :
    (applyChange codec r t).2.applied+(applyChange codec r t).2.conflicts =
      r.2.applied+r.2.conflicts+1 := by
  have heq : applyChange codec r t = _ := if_neg h
  rw [heq]
  split_ifs
  · exact (Nat.add_assoc _ _ _).symm
  · exact Nat.add_right_comm _ _ _

theorem taken_foldl (changes : List (Turn V)) (r : StateReplicator V × Applied) :
    r.2.applied+r.2.conflicts ≤ (changes.foldl (applyChange codec) r).2.applied+
      (changes.foldl (applyChange codec) r).2.conflicts := by
  induction changes generalizing r with
  | nil => exact le_rfl
  | cons t changes ih =>
    rw [List.foldl_cons]
    refine le_trans ?_ (ih _)
    by_cases hold : r.1.Old codec t.1
    · rw [applyChange_of_old hold]
    · rw [taken_applyChange hold]
      omega

/-- Nothing is put exactly when all changes are old. -/
theorem taken_eq_iff (changes : List (Turn V)) (r : StateReplicator V × Applied) :
    (changes.foldl (applyChange codec) r).2.applied+
        (changes.foldl (applyChange codec) r).2.conflicts = r.2.applied+r.2.conflicts ↔
      ∀ t ∈ changes, r.1.Old codec t.1 := by
  induction changes generalizing r with
  | nil => simp
  | cons t changes ih =>
    rw [List.foldl_cons, List.forall_mem_cons]
    by_cases hold : r.1.Old codec t.1
    · rw [applyChange_of_old hold]
      exact (ih _).trans ⟨fun h => ⟨hold,h⟩,fun h => h.2⟩
    · have hless := @taken_foldl _ codec changes (applyChange codec r t)
      rw [taken_applyChange hold] at hless
      exact iff_of_false (by omega) fun h => hold h.1

theorem foldl_of_old (changes : List (Turn V)) (r : StateReplicator V × Applied)
    (h : ∀ t ∈ changes, r.1.Old codec t.1) :
    (changes.foldl (applyChange codec) r).1 = r.1 := by
  induction changes generalizing r with
  | nil => rfl
  | cons t changes ih =>
    obtain ⟨hold,hrest⟩ := List.forall_mem_cons.mp h
    rw [List.foldl_cons, applyChange_of_old hold]
    exact ih _ hrest

variable (codec)

/-- Values and versions are as they were after the first time, and nothing is applied or in
conflict. -/
def Harmless (r : StateReplicator V) (changes : List (Change V)) : Prop :=
  ∀ first second : List (Turn V), first.map Prod.fst = changes → second.map Prod.fst = changes →
    let once := applyRemoteChanges codec r first
    let twice := applyRemoteChanges codec once.1 second
    (∀ ns key, (twice.1.state.get codec ns key).map (fun e => (e.value,e.version)) =
      (once.1.state.get codec ns key).map fun e => (e.value,e.version)) ∧
      twice.2.applied = 0 ∧ twice.2.conflicts = 0

/-- For each change that is newer than the stored entry of its key, the list has changes of this
key with versions that step up from the stored one to the change's own. -/
def Stepwise (r : StateReplicator V) (changes : List (Change V)) : Prop :=
  ∀ c ∈ changes, ¬ r.Old codec c → ∃ steps,
    steps.Sublist (versionsAbout changes c.nsOf c.keyOf) ∧
    Entry.versionOf (r.state.get codec c.nsOf c.keyOf)+steps.length = c.versionOf ∧
    Staircase (Entry.versionOf (r.state.get codec c.nsOf c.keyOf)) steps

variable {codec}

/-- After the first time a change is old exactly when there are steps up to it. -/
theorem old_once_iff (r : StateReplicator V) (first : List (Turn V)) (c : Change V) :
    (applyRemoteChanges codec r first).1.Old codec c ↔
      (¬ r.Old codec c → ∃ steps,
        steps.Sublist (versionsAbout (first.map Prod.fst) c.nsOf c.keyOf) ∧
        Entry.versionOf (r.state.get codec c.nsOf c.keyOf)+steps.length = c.versionOf ∧
        Staircase (Entry.versionOf (r.state.get codec c.nsOf c.keyOf)) steps) := by
  rw [Old, Old, get_applyRemoteChanges, versionOf_foldl_after, map_about]
  generalize Entry.versionOf (r.state.get codec c.nsOf c.keyOf) = v
  by_cases hold : c.versionOf ≤ v
  · exact iff_of_true (hold.trans (le_climb v _)) fun hnew => absurd hold hnew
  · obtain ⟨n,hn⟩ : ∃ n : ℕ, v+n = c.versionOf := ⟨(c.versionOf-v).toNat,by omega⟩
    rw [← hn, le_climb_iff]
    constructor
    · rintro ⟨steps,hsub,hlength,hsteps⟩ -
      exact ⟨steps,hsub,by rw [hlength],hsteps⟩
    · intro h
      obtain ⟨steps,hsub,hlength,hsteps⟩ := h (by omega)
      exact ⟨steps,hsub,by omega,hsteps⟩

/-- A list of changes can be delivered twice exactly when it brings every key it is about, step by
step, to the highest version that it has for the key. -/
theorem harmless_iff (codec : JsonCodec V) (r : StateReplicator V) (changes : List (Change V)) :
    Harmless codec r changes ↔ Stepwise codec r changes := by
  have hold : ∀ first : List (Turn V), first.map Prod.fst = changes →
      (Stepwise codec r changes ↔
        ∀ c ∈ changes, (applyRemoteChanges codec r first).1.Old codec c) := by
    rintro first rfl
    exact forall₂_congr fun c _ => (old_once_iff r first c).symm
  have hskips : ∀ second : List (Turn V), second.map Prod.fst = changes → ∀ s : StateReplicator V,
      ((∀ c ∈ changes, s.Old codec c) ↔ ∀ t ∈ second, s.Old codec t.1) := by
    rintro second rfl s
    rw [List.forall_mem_map]
  constructor
  · intro h
    have htimes : (changes.map fun c => (c,(0 : ℚ))).map Prod.fst = changes := by
      rw [List.map_map]
      exact List.map_id changes
    obtain ⟨-,happlied,hconflicts⟩ := h _ _ htimes htimes
    rw [hold _ htimes, hskips _ htimes]
    refine (taken_eq_iff _ (_,{})).mp ?_
    exact (congrArg₂ (· + ·) happlied hconflicts)
  · intro h first second hfirst hsecond once twice
    have hall : ∀ t ∈ second, once.1.Old codec t.1 :=
      (hskips _ hsecond _).mp ((hold _ hfirst).mp h)
    have hsame : twice.1 = once.1 := foldl_of_old second (once.1,{}) hall
    have htaken : twice.2.applied+twice.2.conflicts = 0 := (taken_eq_iff second (once.1,{})).mpr hall
    refine ⟨fun ns key => by rw [hsame],by omega,by omega⟩

/-- The fifth change of a key that the store does not have. -/
def fifth : Turn Json :=
  ({ ns := some "n", key := some "k", value := some (.int 7), version := some 5, ts := some 1 },10)

theorem not_harmless : ¬ ∀ (r : StateReplicator Json) (changes : List (Change Json)),
    Harmless jsonCodec r changes := by
  intro h
  obtain ⟨-,-,hconflicts⟩ := h {} [fifth.1] [fifth] [fifth] rfl rfl
  have hone : (applyRemoteChanges jsonCodec (applyRemoteChanges jsonCodec {} [fifth]).1
      [fifth]).2.conflicts = 1 := by decide +kernel
  rw [hone] at hconflicts
  cases hconflicts

end StateReplicator
end Arsonist.GlobalControl
