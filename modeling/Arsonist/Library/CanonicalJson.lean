import Arsonist.Library.Json
import Mathlib.Data.List.Sort

/-! JSON text in its canonical form: members sorted by name, no blanks, ASCII only. Floats are
written with all their decimals. -/
namespace Arsonist.Library.Json

/-- The digits of a number, with zeros in front of them up to the width. -/
def padded (width n : ℕ) : List Char :=
  let digits := Nat.toDigits 10 n
  List.replicate (width-digits.length) '0' ++ digits

/-- How many decimals a float is written with: as many as it has, and at least one. -/
def decimals (q : ℚ) : ℕ :=
  ((List.range' 1 (q.den.log2+1)).find? fun k => q.den ∣ 10^k).getD 1

/-- A number with finitely many decimals, as every float is one. -/
def IsDecimal (q : ℚ) : Prop := q.den ∣ 10^decimals q

instance (q : ℚ) : Decidable (IsDecimal q) := inferInstanceAs (Decidable (_ ∣ _))

def writeFloat (q : ℚ) : List Char :=
  let k := decimals q
  let scaled := (q*10^k).num.natAbs
  (if q < 0 then ['-'] else []) ++ Nat.toDigits 10 (scaled/10^k) ++ '.' :: padded k (scaled%10^k)

/-- Four hexadecimal digits. -/
def hex4 (n : ℕ) : String :=
  let digits := Nat.toDigits 16 n
  String.ofList (List.replicate (4-digits.length) '0' ++ digits)

/-- A character inside of a string literal. One outside of the basic plane is written as a
surrogate pair. -/
def escape (c : Char) : String :=
  if c = '\x22' then "\\\x22"
  else if c = '\\' then "\\\\"
  else if c = '\n' then "\\n"
  else if c = '\r' then "\\r"
  else if c = '\t' then "\\t"
  else if c = '\x08' then "\\b"
  else if c = '\x0c' then "\\f"
  else if 32 ≤ c.toNat ∧ c.toNat ≤ 126 then String.singleton c
  else if c.toNat < 65536 then "\\u" ++ hex4 c.toNat
  else
    let n := c.toNat-65536
    "\\u" ++ hex4 (55296+n/1024) ++ "\\u" ++ hex4 (56320+n%1024)

def quote (s : String) : String := "\x22" ++ String.join (s.toList.map escape) ++ "\x22"

/-- Rendered members, sorted by name. -/
def sortMembers (members : List (String × String)) : List (String × String) :=
  members.insertionSort fun a b => a.1 ≤ b.1

mutual

/-- `json.dumps(value, sort_keys=True, separators=(",", ":"))`. -/
def dumps : Json → String
  | null => "null"
  | bool true => "true"
  | bool false => "false"
  | int n => n.repr
  | float q => String.ofList (writeFloat q)
  | str s => quote s
  | arr items => "[" ++ ",".intercalate (dumpsItems items) ++ "]"
  | obj members =>
    "\x7b" ++ ",".intercalate
      ((sortMembers (dumpsMembers members)).map fun m => quote m.1 ++ ":" ++ m.2) ++ "\x7d"

def dumpsItems : List Json → List String
  | [] => []
  | v :: items => dumps v :: dumpsItems items

def dumpsMembers : List (String × Json) → List (String × String)
  | [] => []
  | (name,v) :: members => (name,dumps v) :: dumpsMembers members

end

example : dumps (obj [("ok",bool true),("job_id",str "a\n")]) =
    "\x7b\x22job_id\x22:\x22a\\n\x22,\x22ok\x22:true\x7d" := by decide +kernel

end Arsonist.Library.Json
