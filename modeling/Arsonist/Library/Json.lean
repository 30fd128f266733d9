import Mathlib.Data.Rat.Defs
import Mathlib.Tactic

/-! JSON values, and readers that turn them back into typed values. Integers and floats
are different values, as they are for a JSON library that keeps the two apart. -/
namespace Arsonist.Library

/-- Enumerations whose members are written as pairwise different strings. -/
class StrEnum (α : Type*) where
  all : List α
  value : α → String
  mem_all : ∀ a, a ∈ all
  value_injective : Function.Injective value

namespace StrEnum
variable {α : Type*} [StrEnum α]

/-- The member written as the given string. -/
def ofValue (s : String) : Option α := all.find? (fun a => value a = s)

@[simp] theorem ofValue_value (a : α) : ofValue (value a) = some a := by
  cases h : (all : List α).find? (fun b => value b = value a) with
  | none => simpa using List.find?_eq_none.mp h a (mem_all a)
  | some b =>
    have hb : value b = value a := by simpa using List.find?_some h
    rw [ofValue, h, value_injective hb]

end StrEnum

inductive Json where
  | null
  | bool (b : Bool)
  | int (n : ℤ)
  | float (q : ℚ)
  | str (s : String)
  | arr (items : List Json)
  | obj (members : List (String × Json))

namespace Json

/-- The members of an object, in the order in which they were written. -/
abbrev Object := List (String × Json)

/-- The truth value of a JSON value: zero and what is empty are false. -/
def truthy : Json → Bool
  | null => false
  | bool b => b
  | int n => n ≠ 0
  | float q => q ≠ 0
  | str s => s ≠ ""
  | arr items => !items.isEmpty
  | obj members => !members.isEmpty

def ofStrings (l : List String) : Json := arr (l.map str)

def ofOption {α : Type*} (write : α → Json) : Option α → Json
  | none => null
  | some a => write a

def asBool : Json → Option Bool
  | bool b => some b
  | _ => none

def asInt : Json → Option ℤ
  | int n => some n
  | _ => none

def asNat : Json → Option ℕ
  | int n => if 0 ≤ n then some n.toNat else none
  | _ => none

/-- A float is read from either kind of number. -/
def asFloat : Json → Option ℚ
  | int n => some n
  | float q => some q
  | _ => none

def asStr : Json → Option String
  | str s => some s
  | _ => none

def asEnum {α : Type*} [StrEnum α] : Json → Option α
  | str s => StrEnum.ofValue s
  | _ => none

def asStrings : Json → Option (List String)
  | arr items => items.mapM asStr
  | _ => none

def asObject : Json → Option Object
  | obj members => some members
  | _ => none

def asOption {α : Type*} (read : Json → Option α) : Json → Option (Option α)
  | null => some none
  | v => (read v).map some

/-- A member that must be present. -/
def required {α : Type*} (o : Object) (name : String) (read : Json → Option α) : Option α :=
  (o.lookup name).bind read

/-- A member that falls back to a default when it is absent. -/
def defaulted {α : Type*} (o : Object) (name : String) (read : Json → Option α) (default : α) :
    Option α :=
  match o.lookup name with
  | none => some default
  | some v => read v

@[simp] theorem asBool_bool (b : Bool) : asBool (bool b) = some b := rfl
@[simp] theorem asInt_int (n : ℤ) : asInt (int n) = some n := rfl
@[simp] theorem asNat_int (n : ℕ) : asNat (int n) = some n := by simp [asNat]
@[simp] theorem asFloat_float (q : ℚ) : asFloat (float q) = some q := rfl
@[simp] theorem asStr_str (s : String) : asStr (str s) = some s := rfl
@[simp] theorem asEnum_value {α : Type*} [StrEnum α] (a : α) :
    asEnum (str (StrEnum.value a)) = some a := StrEnum.ofValue_value a
@[simp] theorem asObject_obj (o : Object) : asObject (obj o) = some o := rfl

@[simp] theorem asStrings_ofStrings (l : List String) : asStrings (ofStrings l) = some l := by
  induction l with
  | nil => rfl
  | cons s l ih =>
    change (l.map str).mapM asStr = some l at ih
    simp [asStrings, ofStrings, List.mapM_cons, ih]

@[simp] theorem asOption_str (o : Option String) : asOption asStr (ofOption str o) = some o := by
  cases o <;> rfl

@[simp] theorem asOption_obj (o : Option Object) :
    asOption asObject (ofOption obj o) = some o := by
  cases o <;> rfl

end Json
end Arsonist.Library
