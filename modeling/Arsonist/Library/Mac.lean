import Mathlib.Logic.Equiv.List
import Mathlib.Tactic

/-! Ideal message authentication codes: the text of a code determines the key and the message,
and without the key only codes that someone else has made are at hand. Ideal hash functions, and
texts that are joined by a separator. -/
namespace Arsonist.Library

/-- A code is written as a string of ASCII characters. -/
structure IdealMac where
  hexdigest : String → String → String
  injective : ∀ {k l m n}, hexdigest k m = hexdigest l n → k = l ∧ m = n
  nonempty : ∀ k m, hexdigest k m ≠ ""
  ascii : ∀ k m, ∀ c ∈ (hexdigest k m).toList, c.toNat < 128

namespace IdealMac

/-- Comparison in constant time. Text outside of ASCII is refused: `none`. -/
def compareDigest (a b : String) : Option Bool :=
  if a.toList.all (fun c => c.toNat < 128) ∧ b.toList.all (fun c => c.toNat < 128) then
    some (a = b)
  else none

variable (mac : IdealMac)

theorem compareDigest_hexdigest {k m s : String}
    (h : compareDigest (mac.hexdigest k m) s = some true) : mac.hexdigest k m = s := by
  unfold compareDigest at h
  split_ifs at h
  simpa using h

theorem compareDigest_self (k m : String) :
    compareDigest (mac.hexdigest k m) (mac.hexdigest k m) = some true := by
  have h : (mac.hexdigest k m).toList.all (fun c => decide (c.toNat < 128)) = true := by
    rw [List.all_eq_true]
    intro c hc
    simpa using mac.ascii k m c hc
  rw [compareDigest, if_pos ⟨h,h⟩]
  simp

end IdealMac

/-- The number of a pair of texts. -/
def pairNumber (k m : String) : ℕ :=
  Encodable.encode (k.toList.map Char.toNat,m.toList.map Char.toNat)

theorem pairNumber_injective {k l m n : String} (h : pairNumber k m = pairNumber l n) :
    k = l ∧ m = n := by
  have hchars : Function.Injective (List.map Char.toNat) :=
    List.map_injective_iff.mpr fun c d hcd => Char.toNat_inj.mp hcd
  obtain ⟨hk,hm⟩ := Prod.mk.inj (Encodable.encode_injective h)
  exact ⟨String.toList_inj.mp (hchars hk),String.toList_inj.mp (hchars hm)⟩

/-- The code of a pair of texts is its number in decimal. -/
def countingMac : IdealMac where
  hexdigest k m := (pairNumber k m).repr
  injective {k l m n} h := by
    have hdigits : Nat.toDigits 10 (pairNumber k m) = Nat.toDigits 10 (pairNumber l n) := by
      rw [← Nat.toList_repr, ← Nat.toList_repr, h]
    have hnumber := congrArg (fun d => Nat.ofDigitChars 10 d 0) hdigits
    simp only [Nat.ofDigitChars_ten_toDigits] at hnumber
    exact pairNumber_injective hnumber
  nonempty k m h := by
    have hpos := Nat.length_toDigits_pos (b := 10) (n := pairNumber k m)
    rw [← Nat.toList_repr, h] at hpos
    simp at hpos
  ascii k m c hc := by
    rw [Nat.toList_repr] at hc
    have hdigit := Nat.isDigit_of_mem_toDigits (by omega) (by omega) hc
    rw [Char.isDigit] at hdigit
    simp only [Bool.and_eq_true, decide_eq_true_eq, ge_iff_le, UInt32.le_iff_toNat_le] at hdigit
    have h57 : '9'.val.toNat = 57 := rfl
    change c.val.toNat < 128
    omega

/-- A hash function without collisions, written in hexadecimal digits. -/
structure IdealHash where
  hexdigest : String → String
  injective : Function.Injective hexdigest
  hex : ∀ s, ∀ c ∈ (hexdigest s).toList, c.isDigit ∨ ('a' ≤ c ∧ c ≤ 'f')

namespace IdealHash
variable (hash : IdealHash)

/-- A character that is no hexadecimal digit is not in a digest. -/
theorem not_mem {c : Char} (hdigit : c.isDigit = false) (hletter : ¬ ('a' ≤ c ∧ c ≤ 'f'))
    (s : String) : c ∉ (hash.hexdigest s).toList := by
  intro h
  obtain h | h := hash.hex s c h
  · rw [hdigit] at h
    cases h
  · exact hletter h

/-- The digest of a text is its number in decimal. -/
def counting : IdealHash where
  hexdigest s := (pairNumber s "").repr
  injective s t h := by
    change (pairNumber s "").repr = (pairNumber t "").repr at h
    have hdigits : Nat.toDigits 10 (pairNumber s "") = Nat.toDigits 10 (pairNumber t "") := by
      rw [← Nat.toList_repr, ← Nat.toList_repr, h]
    have hnumber := congrArg (fun d => Nat.ofDigitChars 10 d 0) hdigits
    simp only [Nat.ofDigitChars_ten_toDigits] at hnumber
    exact (pairNumber_injective hnumber).1
  hex s c hc := by
    rw [Nat.toList_repr] at hc
    exact Or.inl (Nat.isDigit_of_mem_toDigits (by omega) (by omega) hc)

end IdealHash

section Separator
variable {α : Type*} {sep : α} {k k' l l' : List α}

/-- A list is cut at its last separator in one way. -/
theorem append_last_sep_inj (hl : sep ∉ l) (hl' : sep ∉ l')
    (h : k ++ sep :: l = k' ++ sep :: l') : k = k' ∧ l = l' := by
  have hcut : ∀ {k k' l l' : List α}, sep ∉ l →
      ∀ e, k' = k ++ e → sep :: l = e ++ sep :: l' → k = k' ∧ l = l' := by
    intro k k' l l' hl e hk he
    cases e with
    | nil =>
      rw [List.append_nil] at hk
      exact ⟨hk.symm,(List.cons.inj he).2⟩
    | cons a e =>
      have htail := (List.cons.inj he).2
      exact absurd (htail ▸ List.mem_append_right e List.mem_cons_self) hl
  obtain ⟨e,hk,he⟩ | ⟨e,hk,he⟩ := List.append_eq_append_iff.mp h
  · exact hcut hl e hk he
  · obtain ⟨h1,h2⟩ := hcut hl' e hk he
    exact ⟨h1.symm,h2.symm⟩

end Separator
end Arsonist.Library
