import Arsonist.Library.JsonText
import Arsonist.Library.Keyed
import Arsonist.Library.Runs

/-! The store of the global control plane: values under a namespace and a key, each with a version
that counts its writes, and a log of the writes. -/
namespace Arsonist.GlobalControl
open Arsonist.Library

/-- Values that can be written as JSON, and what the store asks of the JSON library. What it does
with versions does not depend on how values are written. -/
structure JsonCodec (V : Type*) where
  null : V
  str : String → V
  asStr : V → Option String
  dumps : V → String
  loads : String → Option V

namespace JsonCodec
variable {V : Type*} (codec : JsonCodec V)

/-- How `put` writes a value: a string as it is, everything else as JSON. -/
def serialized (value : V) : String := (codec.asStr value).getD (codec.dumps value)

/-- How `get` reads what is stored: as JSON if it can be read so, else as a string. -/
def loaded (v : String) : V := (codec.loads v).getD (codec.str v)

/-- The value that `get` shows after a `put`. -/
def readBack (value : V) : V := codec.loaded (codec.serialized value)

end JsonCodec

def jsonCodec : JsonCodec Json := ⟨.null,.str,Json.asStr,Json.encode,Json.decode⟩

/-- A row of `global_kv`. -/
structure KvRow where
  ns : String
  k : String
  v : String
  version : ℤ
  updatedAt : ℚ

instance : Keyed KvRow (String × String) := ⟨fun row => (row.ns,row.k)⟩

/-- A row of `state_changelog`. -/
structure ChangelogRow where
  idx : ℕ
  ns : String
  k : String
  oldVersion : Option ℤ
  newVersion : ℤ
  ts : ℚ
  deriving DecidableEq

structure GlobalState where
  kv : Table KvRow := Table.empty
  changelog : List ChangelogRow := []

/-- What `get` returns. -/
structure Entry (V : Type*) where
  value : V
  version : ℤ
  updatedAt : ℚ

namespace Entry
variable {V : Type*}

/-- The version of what may be stored. -/
def versionOf (e : Option (Entry V)) : ℤ := (e.map Entry.version).getD 0

@[simp] theorem versionOf_none : versionOf (none : Option (Entry V)) = 0 := rfl

@[simp] theorem versionOf_some (e : Entry V) : versionOf (some e) = e.version := rfl

end Entry

namespace GlobalState
variable {V : Type*} (codec : JsonCodec V) (s : GlobalState)

/-- Store a value and return its version. -/
def put (now : ℚ) (ns key : String) (value : V) : GlobalState × ℤ :=
  let oldVer := ((s.kv.get? (ns,key)).map KvRow.version).getD 0
  ({ kv := s.kv.replace ⟨ns,key,codec.serialized value,oldVer+1,now⟩
     changelog := s.changelog ++ [⟨s.changelog.length+1,ns,key,
       if oldVer = 0 then none else some oldVer,oldVer+1,now⟩] },oldVer+1)

def get (ns key : String) : Option (Entry V) :=
  (s.kv.get? (ns,key)).map fun row => ⟨codec.loaded row.v,row.version,row.updatedAt⟩

/-- Whether there was a row to delete comes second. The log does not tell of it. -/
def delete (ns key : String) : GlobalState × Bool :=
  ({ s with kv := s.kv.erase (ns,key) },(s.kv.get? (ns,key)).isSome)

/-- What an optional namespace selects: none, like the empty one, stands for them all. -/
def selects (nsOpt : Option String) (ns : String) : Bool :=
  match nsOpt with
  | none => true
  | some chosen => chosen = "" || ns = chosen

/-- The newest writes come first. A negative limit is no limit. -/
def changelogSince (nsOpt : Option String) (sinceVersion limit : ℤ) : List ChangelogRow :=
  let rows := (s.changelog.filter fun row =>
    selects nsOpt row.ns && sinceVersion < row.newVersion).reverse
  if limit < 0 then rows else rows.take limit.toNat

/-- A row as `snapshot` shows it, under its namespace and its key. -/
structure Shown (V : Type*) where
  ns : String
  k : String
  value : V
  version : ℤ

def snapshot (nsOpt : Option String) : List (Shown V) :=
  (s.kv.entries.filter fun row => selects nsOpt row.ns).map fun row =>
    ⟨row.ns,row.k,codec.loaded row.v,row.version⟩

theorem version_get (ns key : String) : Entry.versionOf (s.get codec ns key) =
    ((s.kv.get? (ns,key)).map KvRow.version).getD 0 := by
  rw [get, Entry.versionOf, Option.map_map]
  rfl

/-- After a `put`, its key has the value as it reads back, with the next version. -/
theorem get_put (now : ℚ) (ns key : String) (value : V) (ns' key' : String) :
    (s.put codec now ns key value).1.get codec ns' key' =
      if (ns',key') = (ns,key) then
        some ⟨codec.readBack value,Entry.versionOf (s.get codec ns key)+1,now⟩
      else s.get codec ns' key' := by
  have hrow : ∀ row : KvRow, (s.kv.replace row).get? (ns',key') =
      if (ns',key') = (row.ns,row.k) then some row else s.kv.get? (ns',key') :=
    fun row => Table.get?_replace s.kv row (ns',key')
  rw [version_get]
  simp only [put, get, hrow]
  split_ifs <;> rfl

theorem get_delete (ns key ns' key' : String) :
    (s.delete ns key).1.get codec ns' key' =
      if (ns',key') = (ns,key) then none else s.get codec ns' key' := by
  rw [delete, get, get, Table.get?_erase]
  split_ifs <;> rfl

/-- What `snapshot` shows is what `get` returns. -/
theorem mem_snapshot {nsOpt : Option String} {ns key : String} {value : V} {version : ℤ} :
    (⟨ns,key,value,version⟩ : Shown V) ∈ s.snapshot codec nsOpt ↔
      selects nsOpt ns = true ∧
        ∃ e, s.get codec ns key = some e ∧ e.value = value ∧ e.version = version := by
  rw [snapshot, List.mem_map]
  constructor
  · rintro ⟨row,hrow,he⟩
    obtain ⟨hmem,hselected⟩ := List.mem_filter.mp hrow
    cases he
    have hget : s.kv.get? (row.ns,row.k) = some row := Table.get?_of_mem hmem
    exact ⟨hselected,_,by rw [get, hget]; rfl,rfl,rfl⟩
  · rintro ⟨hselected,e,hget,rfl,rfl⟩
    obtain ⟨row,hrow,rfl⟩ := Option.map_eq_some_iff.mp hget
    obtain ⟨rfl,rfl⟩ := Prod.mk.inj (Table.key_of_get? hrow : (row.ns,row.k) = (ns,key))
    exact ⟨row,List.mem_filter.mpr ⟨Table.mem_of_get? hrow,hselected⟩,rfl⟩

end GlobalState

/-- A write to the store, with the time at which it is made. -/
inductive StateOp (V : Type*)
  | put (now : ℚ) (ns key : String) (value : V)
  | delete (ns key : String)

namespace StateOp
variable {V : Type*}

/-- The operation is about a key. -/
def About (ns key : String) : StateOp V → Prop
  | put _ ns' key' _ => (ns',key') = (ns,key)
  | delete ns' key' => (ns',key') = (ns,key)

instance (ns key : String) : (op : StateOp V) → Decidable (op.About ns key)
  | put _ ns' key' _ => inferInstanceAs (Decidable ((ns',key') = (ns,key)))
  | delete ns' key' => inferInstanceAs (Decidable ((ns',key') = (ns,key)))

def isPut : StateOp V → Bool
  | put _ _ _ _ => true
  | delete _ _ => false

end StateOp

namespace GlobalState
variable {V : Type*} (codec : JsonCodec V)

def apply (s : GlobalState) : StateOp V → GlobalState
  | .put now ns key value => (s.put codec now ns key value).1
  | .delete ns key => (s.delete ns key).1

/-- An operation on another key leaves an entry as it is. -/
theorem get_apply_of_not_about (s : GlobalState) {op : StateOp V} {ns key : String}
    (h : ¬op.About ns key) : (s.apply codec op).get codec ns key = s.get codec ns key := by
  cases op with
  | put now ns' key' value =>
    rw [apply, get_put, if_neg fun he => h he.symm]
  | delete ns' key' =>
    rw [apply, get_delete, if_neg fun he => h he.symm]

theorem get_run_of_not_about (s : GlobalState) {ops : List (StateOp V)} {ns key : String}
    (h : ∀ op ∈ ops, ¬op.About ns key) :
    (run (apply codec) s ops).get codec ns key = s.get codec ns key := by
  induction ops generalizing s with
  | nil => rfl
  | cons op ops ih =>
    rw [run_cons, ih _ fun op hop => h op (List.mem_cons_of_mem _ hop),
      get_apply_of_not_about codec s (h op List.mem_cons_self)]

end GlobalState
end Arsonist.GlobalControl
