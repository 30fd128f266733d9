import Arsonist.GlobalControl.GlobalState
import Arsonist.Library.Climb

/-! Changes that one region sends to another, and what the other one makes of them: a change is
skipped, applied, or in conflict with the local value. What happens to one key depends on the
changes of this key alone. -/
namespace Arsonist.GlobalControl
open Arsonist.Library

/-- A change record: `enqueue_change` writes all of its fields, the reader has a default for each
of them. -/
structure Change (V : Type*) where
  ns : Option String := none
  key : Option String := none
  value : Option V := none
  version : Option ℤ := none
  region : Option String := none
  ts : Option ℚ := none

namespace Change
variable {V : Type*} (codec : JsonCodec V) (c : Change V)

def nsOf : String := c.ns.getD ""
def keyOf : String := c.key.getD ""
def valueOf : V := c.value.getD codec.null
def versionOf : ℤ := c.version.getD 0
def tsOf : ℚ := c.ts.getD 0

/-- The change is about a key. -/
def IsFor (ns key : String) : Prop := (c.nsOf,c.keyOf) = (ns,key)

instance (ns key : String) : Decidable (c.IsFor ns key) := inferInstanceAs (Decidable (_ = _))

end Change

/-- A change with the time at which its turn comes. -/
abbrev Turn (V : Type*) := Change V × ℚ

structure StateReplicator (V : Type*) where
  localRegionId : String := ""
  onSync : Bool := false
  state : GlobalState := {}
  pendingChanges : List (Change V) := []
  conflictCount : ℕ := 0
  syncCount : ℕ := 0

/-- What `apply_remote_changes` reports. -/
structure Applied where
  applied : ℕ := 0
  conflicts : ℕ := 0
  skipped : ℕ := 0
  deriving DecidableEq

namespace StateReplicator
variable {V : Type*} (codec : JsonCodec V)

def resolveConflict (l : Entry V) (remote : Change V) : V :=
  if l.updatedAt ≤ remote.tsOf then remote.valueOf codec else l.value

/-- What is put for a change that is not skipped, and whether it is a conflict. -/
def resolved (l : Option (Entry V)) (c : Change V) : V × Bool :=
  match l with
  | none => (c.valueOf codec,false)
  | some l =>
    if 0 < l.version ∧ c.versionOf ≠ l.version+1 then (resolveConflict codec l c,true)
    else (c.valueOf codec,false)

def applyChange (r : StateReplicator V × Applied) (t : Turn V) : StateReplicator V × Applied :=
  let l := r.1.state.get codec t.1.nsOf t.1.keyOf
  if t.1.versionOf ≤ Entry.versionOf l then (r.1,{ r.2 with skipped := r.2.skipped+1 })
  else
    let state := (r.1.state.put codec t.2 t.1.nsOf t.1.keyOf (resolved codec l t.1).1).1
    if (resolved codec l t.1).2 then
      ({ r.1 with state := state, conflictCount := r.1.conflictCount+1 },
        { r.2 with conflicts := r.2.conflicts+1 })
    else ({ r.1 with state := state },{ r.2 with applied := r.2.applied+1 })

def applyRemoteChanges (r : StateReplicator V) (changes : List (Turn V)) :
    StateReplicator V × Applied :=
  changes.foldl (applyChange codec) (r,{})

end StateReplicator

namespace Entry
variable {V : Type*} (codec : JsonCodec V)

/-- What a change makes of the entry of its key. -/
def after (l : Option (Entry V)) (t : Turn V) : Option (Entry V) :=
  if t.1.versionOf ≤ versionOf l then l
  else some ⟨codec.readBack (StateReplicator.resolved codec l t.1).1,versionOf l+1,t.2⟩

variable {codec} {l : Option (Entry V)} {t : Turn V}

theorem after_of_le (h : t.1.versionOf ≤ versionOf l) : after codec l t = l := if_pos h

theorem after_of_lt (h : versionOf l < t.1.versionOf) : after codec l t =
    some ⟨codec.readBack (StateReplicator.resolved codec l t.1).1,versionOf l+1,t.2⟩ :=
  if_neg (not_le.mpr h)

/-- A version goes up by one with every change that is newer. -/
theorem versionOf_after (codec : JsonCodec V) (l : Option (Entry V)) (t : Turn V) :
    versionOf (after codec l t) =
      if t.1.versionOf ≤ versionOf l then versionOf l else versionOf l+1 := by
  rw [after]
  split_ifs <;> rfl

end Entry

namespace StateReplicator
variable {V : Type*} (codec : JsonCodec V)

theorem get_applyChange (r : StateReplicator V × Applied) (t : Turn V) (ns key : String) :
    (applyChange codec r t).1.state.get codec ns key =
      if t.1.IsFor ns key then Entry.after codec (r.1.state.get codec ns key) t
      else r.1.state.get codec ns key := by
  by_cases hfor : t.1.IsFor ns key
  · obtain ⟨hns,hkey⟩ := Prod.mk.inj hfor
    subst hns hkey
    rw [if_pos hfor, applyChange, Entry.after]
    by_cases hskip : t.1.versionOf ≤ Entry.versionOf (r.1.state.get codec t.1.nsOf t.1.keyOf)
    · simp only [if_pos hskip]
    · simp only [if_neg hskip]
      split_ifs <;> rw [GlobalState.get_put, if_pos rfl]
  · have hne : ¬ (ns,key) = (t.1.nsOf,t.1.keyOf) := fun heq => hfor heq.symm
    rw [if_neg hfor, applyChange]
    by_cases hskip : t.1.versionOf ≤ Entry.versionOf (r.1.state.get codec t.1.nsOf t.1.keyOf)
    · simp only [if_pos hskip]
    · simp only [if_neg hskip]
      split_ifs <;> rw [GlobalState.get_put, if_neg hne]

/-- The changes about a key, in the order of the list. -/
def about (ns key : String) (changes : List (Turn V)) : List (Turn V) :=
  changes.filter fun t => t.1.IsFor ns key

theorem about_cons (ns key : String) (t : Turn V) (changes : List (Turn V)) :
    about ns key (t :: changes) =
      if t.1.IsFor ns key then t :: about ns key changes else about ns key changes := by
  simp only [about, List.filter_cons, decide_eq_true_eq]

theorem get_foldl_applyChange (changes : List (Turn V)) (r : StateReplicator V × Applied)
    (ns key : String) :
    (changes.foldl (applyChange codec) r).1.state.get codec ns key =
      (about ns key changes).foldl (Entry.after codec) (r.1.state.get codec ns key) := by
  induction changes generalizing r with
  | nil => rfl
  | cons t changes ih =>
    rw [List.foldl_cons, ih, get_applyChange, about_cons]
    split_ifs <;> rfl

/-- A key's entry is made of the changes about it. -/
theorem get_applyRemoteChanges (r : StateReplicator V) (changes : List (Turn V))
    (ns key : String) :
    (applyRemoteChanges codec r changes).1.state.get codec ns key =
      (about ns key changes).foldl (Entry.after codec) (r.state.get codec ns key) :=
  get_foldl_applyChange codec changes _ ns key

/-- The versions of the changes about a key. -/
def versionsAbout (changes : List (Change V)) (ns key : String) : List ℤ :=
  (changes.filter fun c => c.IsFor ns key).map Change.versionOf

variable {codec}

theorem map_about (first : List (Turn V)) (ns key : String) :
    (about ns key first).map (fun t => t.1.versionOf) =
      versionsAbout (first.map Prod.fst) ns key := by
  rw [about, versionsAbout, List.filter_map, List.map_map]
  rfl

/-- The version of a key after some changes. -/
theorem versionOf_foldl_after (ts : List (Turn V)) (l : Option (Entry V)) :
    Entry.versionOf (ts.foldl (Entry.after codec) l) =
      climb (Entry.versionOf l) (ts.map fun t => t.1.versionOf) := by
  induction ts generalizing l with
  | nil => rfl
  | cons t ts ih => rw [List.foldl_cons, ih, Entry.versionOf_after, List.map_cons, climb_cons]

end StateReplicator
end Arsonist.GlobalControl
