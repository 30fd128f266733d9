import Mathlib.Tactic

/-! Text as a scripting language handles it: stripping, and the decimal numerals that its
integer constructor reads and writes. Text as bytes: its UTF-8 encoding, and the text of which each
character stands for one byte. -/
namespace Arsonist.Library.Text

/-- `s.rstrip(c)`. -/
def rstrip (c : Char) (s : String) : String :=
  String.ofList ((s.toList.reverse.dropWhile (· = c)).reverse)

/-- The characters that `s.strip()` leaves. -/
def stripped (l : List Char) : List Char :=
  ((l.dropWhile Char.isWhitespace).reverse.dropWhile Char.isWhitespace).reverse

/-- `s.strip()`. -/
def strip (s : String) : String := String.ofList (stripped s.toList)

/-- `s.lower()`, for ASCII letters. -/
def lower (s : String) : String := String.ofList (s.toList.map Char.toLower)

/-- `s.upper()`, for ASCII letters. -/
def upper (s : String) : String := String.ofList (s.toList.map Char.toUpper)

/-- A numeral after its first digit. An underscore may stand between two digits. -/
def readDigits (acc : ℕ) : List Char → Option ℕ
  | [] => some acc
  | c :: l =>
    if c.isDigit then readDigits (10*acc+(c.toNat - '0'.toNat)) l
    else
      match l with
      | [] => none
      | d :: m =>
        if c = '_' ∧ d.isDigit then readDigits (10*acc+(d.toNat - '0'.toNat)) m else none

def readNat : List Char → Option ℕ
  | [] => none
  | c :: l => if c.isDigit then readDigits (c.toNat - '0'.toNat) l else none

def readInt (l : List Char) : Option ℤ :=
  match l with
  | [] => none
  | c :: m =>
    if c = '-' then (readNat m).map fun n : ℕ => -(n : ℤ)
    else if c = '+' then (readNat m).map fun n : ℕ => (n : ℤ)
    else (readNat l).map fun n : ℕ => (n : ℤ)

/-- `int(s)` for a string: `none` stands for a `ValueError`. -/
def parseInt (s : String) : Option ℤ := readInt (stripped s.toList)

/-- `int(x)` for a float: the fraction is cut off. -/
def truncate (q : ℚ) : ℤ := if 0 ≤ q then ⌊q⌋ else ⌈q⌉

theorem readDigits_cons {c : Char} (hc : c.isDigit) (l : List Char) (acc : ℕ) :
    readDigits acc (c :: l) = readDigits (10*acc+(c.toNat - '0'.toNat)) l := by
  rw [readDigits.eq_def]
  exact if_pos hc

theorem readDigits_eq (l : List Char) (acc : ℕ) (h : ∀ c ∈ l, c.isDigit) :
    readDigits acc l = some (Nat.ofDigitChars 10 l acc) := by
  induction l generalizing acc with
  | nil => rfl
  | cons c l ih =>
    rw [readDigits_cons (h c List.mem_cons_self), Nat.ofDigitChars_cons]
    exact ih _ fun d hd => h d (List.mem_cons_of_mem c hd)

theorem readNat_toDigits (n : ℕ) : readNat (Nat.toDigits 10 n) = some n := by
  have hdigits : ∀ c ∈ Nat.toDigits 10 n, c.isDigit := fun c hc =>
    Nat.isDigit_of_mem_toDigits (by omega) (by omega) hc
  have hread := readDigits_eq (Nat.toDigits 10 n) 0 hdigits
  rw [Nat.ofDigitChars_ten_toDigits] at hread
  cases hl : Nat.toDigits 10 n with
  | nil =>
    have hpos := Nat.length_toDigits_pos (b := 10) (n := n)
    rw [hl] at hpos
    simp at hpos
  | cons c l =>
    rw [hl] at hread hdigits
    have hc : c.isDigit := hdigits c List.mem_cons_self
    rw [readDigits_cons hc, Nat.mul_zero, Nat.zero_add] at hread
    rw [readNat, if_pos hc, hread]

theorem stripped_eq (l : List Char) (h : ∀ c ∈ l, c.isWhitespace = false) : stripped l = l := by
  have hdrop : ∀ m : List Char, (∀ c ∈ m, c.isWhitespace = false) →
      m.dropWhile Char.isWhitespace = m := by
    intro m hm
    cases m with
    | nil => rfl
    | cons c m => rw [List.dropWhile_cons, hm c List.mem_cons_self]; rfl
  rw [stripped, hdrop l h, hdrop _ fun c hc => h c (List.mem_reverse.mp hc), List.reverse_reverse]

theorem isWhitespace_of_isDigit {c : Char} (h : c.isDigit) : c.isWhitespace = false := by
  rw [Char.isDigit] at h
  simp only [Bool.and_eq_true, decide_eq_true_eq, ge_iff_le, UInt32.le_iff_toNat_le] at h
  have hne : ∀ d : Char, d.val.toNat < 48 → c ≠ d := by
    rintro d hd rfl
    have h48 : '0'.val.toNat = 48 := rfl
    omega
  simp [Char.isWhitespace, hne ' ' (by decide), hne '\t' (by decide), hne '\r' (by decide),
    hne '\n' (by decide)]

/-- `int(str(n))` is `n`. -/
theorem parseInt_repr (n : ℤ) : parseInt n.repr = some n := by
  have hdigits : ∀ k : ℕ, ∀ c ∈ Nat.toDigits 10 k, c.isDigit := fun k c hc =>
    Nat.isDigit_of_mem_toDigits (by omega) (by omega) hc
  rw [parseInt, Int.repr_eq_if]
  split_ifs with hn
  · rw [Nat.toList_repr, stripped_eq _ fun c hc => isWhitespace_of_isDigit (hdigits _ c hc)]
    have hread := readNat_toDigits n.toNat
    cases hl : Nat.toDigits 10 n.toNat with
    | nil => rw [hl] at hread; simp [readNat] at hread
    | cons c l =>
      have hc : c.isDigit := hdigits n.toNat c (hl ▸ List.mem_cons_self)
      have hminus : c ≠ '-' := by rintro rfl; simp at hc
      have hplus : c ≠ '+' := by rintro rfl; simp at hc
      rw [readInt, if_neg hminus, if_neg hplus, ← hl, hread, Option.map_some,
        Int.toNat_of_nonneg hn]
  · have hchars : ("-" ++ (-n).toNat.repr).toList = '-' :: Nat.toDigits 10 (-n).toNat := by
      rw [String.toList_append, Nat.toList_repr]
      rfl
    rw [hchars, stripped_eq _ ?_, readInt, if_pos rfl, readNat_toDigits, Option.map_some]
    · congr 1
      omega
    · intro c hc
      obtain rfl | hc := List.mem_cons.mp hc
      · rfl
      · exact isWhitespace_of_isDigit (hdigits _ c hc)

end Arsonist.Library.Text

namespace Arsonist.Library.Bytes

/-- `text.encode()`. -/
def utf8 (text : String) : List UInt8 := text.toByteArray.data.toList

/-- One character for each byte. -/
def latin1 (bytes : List UInt8) : String :=
  String.ofList (bytes.map fun b => Char.ofNat b.toNat)

theorem latin1_injective : Function.Injective latin1 := by
  have hchar : Function.Injective fun b : UInt8 => Char.ofNat b.toNat := by
    intro a b h
    have hvalid : ∀ c : UInt8, (Char.ofNat c.toNat).toNat = c.toNat := by
      intro c
      have hc : c.toNat.isValidChar := Or.inl (c.toNat_lt.trans (by decide))
      rw [Char.ofNat, dif_pos hc]
      rfl
    apply UInt8.toNat_inj.mp
    rw [← hvalid a, ← hvalid b]
    exact congrArg Char.toNat h
  intro a b h
  apply List.map_injective_iff.mpr hchar
  rw [← String.toList_ofList (l := a.map fun b => Char.ofNat b.toNat)]
  exact (congrArg String.toList h).trans String.toList_ofList

end Arsonist.Library.Bytes
