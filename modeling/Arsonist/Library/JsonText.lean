import Arsonist.Library.CanonicalJson
import Arsonist.Library.Text

/-! JSON text as a general encoder writes it and as a decoder reads any text. A decoder takes
what the encoder wrote for exactly the value that was written. Floats are written with all
their decimals. -/
namespace Arsonist.Library.Json

/-! ### Numbers -/

def digitsValue (ds : List Char) : ℕ := Nat.ofDigitChars 10 ds 0

def writeInt (n : ℤ) : List Char :=
  if n < 0 then '-' :: Nat.toDigits 10 n.natAbs else Nat.toDigits 10 n.natAbs

/-- The digits before the point. No digit follows a leading zero. -/
def readWhole (l : List Char) : Option (List Char × List Char) :=
  match l.takeWhile Char.isDigit with
  | [] => none
  | d :: ds =>
    if d = '0' then some (['0'],l.drop 1) else some (d :: ds,l.dropWhile Char.isDigit)

def readFraction (l : List Char) : List Char × List Char :=
  match l with
  | [] => ([],[])
  | c :: r =>
    if c = '.' ∧ r.takeWhile Char.isDigit ≠ [] then
      (r.takeWhile Char.isDigit,r.dropWhile Char.isDigit)
    else ([],l)

def readSign (l : List Char) : Bool × List Char :=
  match l with
  | [] => (false,[])
  | c :: r => if c = '-' then (true,r) else if c = '+' then (false,r) else (false,l)

def readExponent (l : List Char) : Option ℤ × List Char :=
  match l with
  | [] => (none,[])
  | c :: r =>
    let (negative,digits) := readSign r
    let es := digits.takeWhile Char.isDigit
    if (c = 'e' ∨ c = 'E') ∧ es ≠ [] then
      (some (if negative then -digitsValue es else digitsValue es),
        digits.dropWhile Char.isDigit)
    else (none,l)

/-- A numeral is a float if it has a fraction or an exponent. -/
def readNumber (l : List Char) : Option (Json × List Char) :=
  let negative := l.head? = some '-'
  (readWhole (if negative then l.tail else l)).map fun (ds,r) =>
    let (fs,r) := readFraction r
    let (e,r) := readExponent r
    let n : ℤ := if negative then -digitsValue (ds ++ fs) else digitsValue (ds ++ fs)
    if fs = [] ∧ e = none then (int n,r) else (float (n*10^(e.getD 0-fs.length)),r)

theorem digitsValue_append (ds es : List Char) :
    digitsValue (ds ++ es) = 10^es.length*digitsValue ds + digitsValue es := by
  rw [digitsValue, Nat.ofDigitChars_append, Nat.ofDigitChars_eq_ofDigitChars_zero]
  rfl

@[simp] theorem digitsValue_toDigits (n : ℕ) : digitsValue (Nat.toDigits 10 n) = n :=
  Nat.ofDigitChars_toDigits (by omega) (by omega)

@[simp] theorem digitsValue_padded (width n : ℕ) : digitsValue (padded width n) = n := by
  rw [padded, digitsValue, Nat.ofDigitChars_append, Nat.ofDigitChars_replicate_zero, mul_zero]
  exact digitsValue_toDigits n

theorem isDigit_toDigits {n : ℕ} {c : Char} (h : c ∈ Nat.toDigits 10 n) : c.isDigit :=
  Nat.isDigit_of_mem_toDigits (by omega) (by omega) h

theorem isDigit_padded {width n : ℕ} {c : Char} (h : c ∈ padded width n) : c.isDigit := by
  obtain h | h := List.mem_append.mp h
  · rw [List.eq_of_mem_replicate h]
    decide
  · exact isDigit_toDigits h

theorem length_padded {width n : ℕ} (hw : 0 < width) (hn : n < 10^width) :
    (padded width n).length = width := by
  have hlen := (Nat.length_toDigits_le_iff (b := 10) (by omega) hw).mpr hn
  rw [padded, List.length_append, List.length_replicate]
  omega

/-- A text that goes on with no digit. -/
def NoDigit (l : List Char) : Prop := ∀ c ∈ l.head?, c.isDigit = false

theorem takeWhile_digits {ds l : List Char} (hds : ∀ c ∈ ds, c.isDigit) (hl : NoDigit l) :
    (ds ++ l).takeWhile Char.isDigit = ds := by
  rw [List.takeWhile_append_of_pos hds]
  cases l with
  | nil => simp
  | cons c l => simp [hl c rfl]

theorem dropWhile_digits {ds l : List Char} (hds : ∀ c ∈ ds, c.isDigit) (hl : NoDigit l) :
    (ds ++ l).dropWhile Char.isDigit = l := by
  rw [List.dropWhile_append_of_pos hds]
  cases l with
  | nil => rfl
  | cons c l => simp [hl c rfl]

/-- Only the numeral of zero starts with a zero. -/
theorem head_toDigits (n : ℕ) : ∃ d ds, Nat.toDigits 10 n = d :: ds ∧ (d = '0' → n = 0) := by
  induction n using Nat.strongRecOn with
  | ind n ih =>
    by_cases hn : n < 10
    · refine ⟨n.digitChar,[],Nat.toDigits_of_lt_base hn,fun h => ?_⟩
      simpa using h
    · obtain ⟨d,ds,hds,hd⟩ := ih (n/10) (by omega)
      refine ⟨d,ds ++ [(n%10).digitChar],?_,fun h => ?_⟩
      · rw [Nat.toDigits_of_base_le (by omega) (by omega), hds]
        rfl
      · have := hd h
        omega

theorem readWhole_toDigits (n : ℕ) {l : List Char} (hl : NoDigit l) :
    readWhole (Nat.toDigits 10 n ++ l) = some (Nat.toDigits 10 n,l) := by
  obtain ⟨d,ds,hds,hd⟩ := head_toDigits n
  have hdigits : ∀ c ∈ Nat.toDigits 10 n, c.isDigit := fun c => isDigit_toDigits
  rw [readWhole, takeWhile_digits hdigits hl, dropWhile_digits hdigits hl, hds]
  by_cases h0 : d = '0'
  · have hn : n = 0 := hd h0
    subst hn
    rw [Nat.toDigits_zero] at hds
    obtain ⟨rfl,rfl⟩ := List.cons.inj hds
    rfl
  · simp [h0]

/-- What follows a value in the text of another one. -/
def Ends (l : List Char) : Prop := ∀ c ∈ l.head?, c = ',' ∨ c = ']' ∨ c = '\x7d'

theorem Ends.noDigit {l : List Char} (h : Ends l) : NoDigit l := by
  intro c hc
  rcases h c hc with rfl | rfl | rfl <;> decide

theorem Ends.readFraction {l : List Char} (h : Ends l) : readFraction l = ([],l) := by
  cases l with
  | nil => rfl
  | cons c l =>
    have hc : c ≠ '.' := by rcases h c rfl with rfl | rfl | rfl <;> decide
    simp [Json.readFraction, hc]

theorem Ends.readExponent {l : List Char} (h : Ends l) : readExponent l = (none,l) := by
  cases l with
  | nil => rfl
  | cons c l =>
    have he : c ≠ 'e' := by rcases h c rfl with rfl | rfl | rfl <;> decide
    have hE : c ≠ 'E' := by rcases h c rfl with rfl | rfl | rfl <;> decide
    simp [Json.readExponent, he, hE]

theorem ends_nil : Ends [] := by simp [Ends]

theorem readNumber_writeInt (n : ℤ) {l : List Char} (hl : Ends l) :
    readNumber (writeInt n ++ l) = some (int n,l) := by
  obtain ⟨d,ds,hds,-⟩ := head_toDigits n.natAbs
  have hd : d.isDigit := isDigit_toDigits (hds ▸ List.mem_cons_self)
  have hread := readWhole_toDigits n.natAbs hl.noDigit
  unfold readNumber writeInt
  by_cases hn : n < 0
  · simp only [if_pos hn, List.cons_append, List.head?_cons, List.tail_cons, if_true, hread,
      Option.map_some, hl.readFraction, hl.readExponent, List.append_nil, digitsValue_toDigits]
    simp [abs_of_neg hn]
  · have hminus : ¬ d = '-' := fun he => by subst he; simp at hd
    have hhead : (Nat.toDigits 10 n.natAbs ++ l).head? ≠ some '-' := by
      rw [hds]
      simpa using hminus
    simp only [if_neg hn, hhead, if_false, hread, Option.map_some, hl.readFraction,
      hl.readExponent, List.append_nil, digitsValue_toDigits]
    simp [abs_of_nonneg (not_lt.mp hn)]

theorem decimals_pos (q : ℚ) : 0 < decimals q := by
  rw [decimals]
  cases h : (List.range' 1 (q.den.log2+1)).find? fun k => q.den ∣ 10^k with
  | none => simp
  | some k =>
    have hk := List.mem_of_find?_eq_some h
    simp only [List.mem_range'_1] at hk
    simpa using by omega

/-- A divisor of a power of ten divides the power whose exponent is its length in bits. -/
theorem dvd_ten_pow {d k : ℕ} (h : d ∣ 10^k) : d ∣ 10^(d.log2+1) := by
  have hd : d ≠ 0 := fun h0 => by simp [h0] at h
  rw [← Nat.factorization_le_iff_dvd hd (by positivity)]
  have hk := (Nat.factorization_le_iff_dvd hd (by positivity)).mpr h
  intro p
  have hp := hk p
  rw [Nat.factorization_pow] at hp ⊢
  simp only [Finsupp.smul_apply, smul_eq_mul] at hp ⊢
  cases hten : (10 : ℕ).factorization p with
  | zero => rw [hten] at hp; omega
  | succ e =>
    have hprime : p.Prime := by
      by_contra hp
      simp [Nat.factorization_eq_zero_of_not_prime _ hp] at hten
    have hpow : 2^d.factorization p < 2^(d.log2+1) :=
      calc 2^d.factorization p ≤ p^d.factorization p := Nat.pow_le_pow_left hprime.two_le _
        _ ≤ d := Nat.ordProj_le p hd
        _ < 2^(d.log2+1) := Nat.lt_log2_self
    have hlt := (Nat.pow_lt_pow_iff_right (by omega)).mp hpow
    nlinarith

/-- The decimals are found if there are finitely many. -/
theorem isDecimal_iff (q : ℚ) : IsDecimal q ↔ ∃ k, q.den ∣ 10^k := by
  constructor
  · intro h
    exact ⟨_,h⟩
  · rintro ⟨k,hk⟩
    rw [IsDecimal, decimals]
    cases hfind : (List.range' 1 (q.den.log2+1)).find? fun k => q.den ∣ 10^k with
    | none =>
      have hlast := List.find?_eq_none.mp hfind (q.den.log2+1) (by
        simp only [List.mem_range'_1]
        omega)
      simp [dvd_ten_pow hk] at hlast
    | some j => simpa using List.find?_some hfind

/-- A decimal number is a whole number of its last decimals. -/
theorem IsDecimal.eq_div {q : ℚ} (h : IsDecimal q) :
    q = (q*10^decimals q).num/(10^decimals q : ℕ) := by
  obtain ⟨m,hm⟩ := h
  have hden : (q.den : ℚ) ≠ 0 := by exact_mod_cast q.den_nz
  have hten : ((10^decimals q : ℕ) : ℚ) ≠ 0 := by positivity
  have hint : q*10^decimals q = ((q.num*m : ℤ) : ℚ) := by
    have hcast : (10 : ℚ)^decimals q = q.den*m := by exact_mod_cast hm
    rw [hcast]
    nth_rewrite 1 [← Rat.num_div_den q]
    push_cast
    field_simp
  rw [hint, Rat.num_intCast, ← hint]
  push_cast
  field_simp

theorem readFraction_padded (width n : ℕ) {l : List Char} (hl : NoDigit l) :
    readFraction ('.' :: (padded width n ++ l)) = (padded width n,l) := by
  have hdigits : ∀ c ∈ padded width n, c.isDigit := fun c => isDigit_padded
  have hne : padded width n ≠ [] := by
    rw [padded]
    exact List.append_ne_nil_of_right_ne_nil _ Nat.toDigits_ne_nil
  rw [readFraction, takeWhile_digits hdigits hl, dropWhile_digits hdigits hl]
  exact if_pos ⟨rfl,hne⟩

theorem noDigit_point (l : List Char) : NoDigit ('.' :: l) := by
  intro c hc
  obtain rfl := Option.some.inj hc
  decide

theorem readNumber_writeFloat {q : ℚ} (hq : IsDecimal q) {l : List Char} (hl : Ends l) :
    readNumber (writeFloat q ++ l) = some (float q,l) := by
  set k := decimals q with hk
  have hpos : 0 < k := decimals_pos q
  have hval : q = (q*10^k).num/(10^k : ℕ) := hq.eq_div
  set s := (q*10^k).num.natAbs with hs
  have hten : 0 < 10^k := by positivity
  have hread := readWhole_toDigits (s/10^k) (noDigit_point (padded k (s%10^k) ++ l))
  have hfrac := readFraction_padded k (s%10^k) hl.noDigit
  have hlen : (padded k (s%10^k)).length = k := length_padded hpos (Nat.mod_lt _ hten)
  have hne : padded k (s%10^k) ≠ [] := by
    intro hnil
    rw [hnil] at hlen
    simp at hlen
    omega
  have hsum : digitsValue (Nat.toDigits 10 (s/10^k) ++ padded k (s%10^k)) = s := by
    rw [digitsValue_append, hlen, digitsValue_toDigits, digitsValue_padded, Nat.div_add_mod]
  have hscale : ∀ n : ℤ, n = (q*10^k).num →
      (n : ℚ)*10^((none : Option ℤ).getD 0-(k : ℤ)) = q := by
    intro n hn
    have hnum : ((q*10^k).num : ℚ) = q*10^k := by
      have hmul := (eq_div_iff (by positivity)).mp hval
      exact_mod_cast hmul.symm
    rw [hn, hnum, Option.getD_none, zero_sub, zpow_neg, zpow_natCast]
    field_simp
  obtain ⟨d,ds,hds,-⟩ := head_toDigits (s/10^k)
  have hd : d.isDigit := isDigit_toDigits (hds ▸ List.mem_cons_self)
  have hminus : ¬ d = '-' := fun he => by subst he; simp at hd
  unfold readNumber writeFloat
  simp only [← hk, ← hs]
  by_cases hneg : q < 0
  · have hnum : (q*10^k).num < 0 := by
      rw [Rat.num_neg]
      exact mul_neg_of_neg_of_pos hneg (by positivity)
    simp only [if_pos hneg, List.cons_append, List.nil_append, List.append_assoc,
      List.head?_cons, List.tail_cons, if_true, hread, Option.map_some, hfrac, hl.readExponent,
      hsum, hlen, hne, false_and, if_false]
    rw [hscale]
    omega
  · have hnum : 0 ≤ (q*10^k).num := by
      rw [Rat.num_nonneg]
      exact mul_nonneg (not_lt.mp hneg) (by positivity)
    have hhead : (Nat.toDigits 10 (s/10^k) ++ '.' :: (padded k (s%10^k) ++ l)).head? ≠
        some '-' := by
      rw [hds]
      simpa using hminus
    simp only [if_neg hneg, List.nil_append, List.append_assoc, List.cons_append, hhead, if_false,
      hread, Option.map_some, hfrac, hl.readExponent, hsum, hlen, hne, false_and]
    rw [hscale]
    omega

/-- Underscores between two digits are dropped. -/
def dropUnderscores : List Char → List Char
  | c :: d :: e :: l =>
    if c.isDigit ∧ d = '_' ∧ e.isDigit then c :: dropUnderscores (e :: l)
    else c :: dropUnderscores (d :: e :: l)
  | l => l

/-- `float(s)` for a string: `none` stands for a `ValueError`. The names of the floats that are
no numbers are not read. -/
def parseFloat (s : String) : Option ℚ :=
  let (negative,l) := readSign (dropUnderscores (Text.stripped s.toList))
  let ds := l.takeWhile Char.isDigit
  let (fs,r) :=
    match l.dropWhile Char.isDigit with
    | '.' :: r => (r.takeWhile Char.isDigit,r.dropWhile Char.isDigit)
    | r => ([],r)
  let (e,r) := readExponent r
  let n : ℤ := if negative then -digitsValue (ds ++ fs) else digitsValue (ds ++ fs)
  if ds ++ fs = [] ∨ r ≠ [] then none else some (n*10^(e.getD 0-fs.length))

/-- `float(value)`: `none` stands for an exception. -/
def toFloat : Json → Option ℚ
  | bool b => some (if b then 1 else 0)
  | int n => some n
  | float q => some q
  | str s => parseFloat s
  | _ => none

/-! ### Strings -/

def hexValue (c : Char) : Option ℕ :=
  if c.isDigit then some (c.toNat-48)
  else if 'a' ≤ c ∧ c ≤ 'f' then some (c.toNat-87)
  else if 'A' ≤ c ∧ c ≤ 'F' then some (c.toNat-55)
  else none

def readHex4 : List Char → Option (ℕ × List Char)
  | a :: b :: c :: d :: l => do
    let a ← hexValue a
    let b ← hexValue b
    let c ← hexValue c
    let d ← hexValue d
    some (((a*16+b)*16+c)*16+d,l)
  | _ => none

/-- The character after `\u`: a code unit, or two of them that are a surrogate pair. -/
def readUnicode (l : List Char) : Option (Char × List Char) :=
  (readHex4 l).bind fun (n,r) =>
    if 55296 ≤ n ∧ n < 56320 then
      match r with
      | '\\' :: 'u' :: r' =>
        (readHex4 r').bind fun (m,r'') =>
          if 56320 ≤ m ∧ m < 57344 then
            some (Char.ofNat (65536+(n-55296)*1024+(m-56320)),r'')
          else none
      | _ => none
    else if 56320 ≤ n ∧ n < 57344 then none
    else some (Char.ofNat n,r)

/-- The character after a backslash. -/
def readEscape : List Char → Option (Char × List Char)
  | [] => none
  | c :: l =>
    if c = '\x22' ∨ c = '\\' ∨ c = '/' then some (c,l)
    else if c = 'n' then some ('\n',l)
    else if c = 'r' then some ('\r',l)
    else if c = 't' then some ('\t',l)
    else if c = 'b' then some ('\x08',l)
    else if c = 'f' then some ('\x0c',l)
    else if c = 'u' then readUnicode l
    else none

/-- The characters up to the closing quote, and what follows it. Control characters must be
escaped. -/
def readString : ℕ → List Char → Option (List Char × List Char)
  | 0, _ => none
  | _ + 1, [] => none
  | fuel + 1, c :: l =>
    if c = '\x22' then some ([],l)
    else if c = '\\' then
      (readEscape l).bind fun (d,r) => (readString fuel r).map fun p => (d :: p.1,p.2)
    else if c.toNat < 32 then none
    else (readString fuel l).map fun p => (c :: p.1,p.2)

def writeString (cs : List Char) : List Char :=
  '\x22' :: (cs.flatMap (fun c => (escape c).toList) ++ ['\x22'])

theorem hexValue_digitChar : ∀ d < 16, hexValue (Nat.digitChar d) = some d := by decide

theorem toList_hex4 {n : ℕ} (hn : n < 65536) :
    (hex4 n).toList = [Nat.digitChar (n/16/16/16),Nat.digitChar (n/16/16%16),
      Nat.digitChar (n/16%16),Nat.digitChar (n%16)] := by
  rw [hex4, String.toList_ofList, Nat.toDigits_eq_if (by omega)]
  split_ifs with h1
  · have h16 : n/16 = 0 := by omega
    simp [h16, Nat.mod_eq_of_lt h1]
  rw [Nat.toDigits_eq_if (by omega)]
  split_ifs with h2
  · have h256 : n/16/16 = 0 := by omega
    simp [h256, Nat.mod_eq_of_lt h2]
  rw [Nat.toDigits_eq_if (by omega)]
  split_ifs with h3
  · have h4096 : n/16/16/16 = 0 := by omega
    simp [h4096, Nat.mod_eq_of_lt h3]
  rw [Nat.toDigits_of_lt_base (by omega)]
  simp

theorem readHex4_hex4 {n : ℕ} (hn : n < 65536) (l : List Char) :
    readHex4 ((hex4 n).toList ++ l) = some (n,l) := by
  rw [toList_hex4 hn]
  simp only [List.cons_append, List.nil_append, readHex4,
    hexValue_digitChar _ (show n/16/16/16 < 16 by omega),
    hexValue_digitChar _ (show n/16/16%16 < 16 by omega),
    hexValue_digitChar _ (show n/16%16 < 16 by omega),
    hexValue_digitChar _ (show n%16 < 16 by omega)]
  simp
  omega

/-- No character is a surrogate. -/
theorem not_surrogate (c : Char) : ¬ (55296 ≤ c.toNat ∧ c.toNat < 57344) := by
  obtain h | h := c.valid
  · change c.toNat < 55296 at h
    omega
  · change 57343 < c.toNat ∧ c.toNat < 1114112 at h
    omega

theorem readUnicode_bmp {c : Char} (hc : c.toNat < 65536) (l : List Char) :
    readUnicode ((hex4 c.toNat).toList ++ l) = some (c,l) := by
  have hs := not_surrogate c
  rw [readUnicode, readHex4_hex4 hc, Option.bind_some]
  have h1 : ¬ (55296 ≤ c.toNat ∧ c.toNat < 56320) := by omega
  have h2 : ¬ (56320 ≤ c.toNat ∧ c.toNat < 57344) := by omega
  simp only [h1, h2, if_false, Char.ofNat_toNat]

theorem readUnicode_pair {c : Char} (hc : ¬ c.toNat < 65536) (l : List Char) :
    readUnicode ((hex4 (55296+(c.toNat-65536)/1024)).toList ++
      '\\' :: 'u' :: ((hex4 (56320+(c.toNat-65536)%1024)).toList ++ l)) = some (c,l) := by
  have hmax : c.toNat < 1114112 := by
    obtain h | h := c.valid
    · change c.toNat < 55296 at h
      omega
    · exact h.2
  have hhigh : 55296 ≤ 55296+(c.toNat-65536)/1024 ∧ 55296+(c.toNat-65536)/1024 < 56320 := by
    omega
  have hlow : 56320 ≤ 56320+(c.toNat-65536)%1024 ∧ 56320+(c.toNat-65536)%1024 < 57344 := by
    omega
  rw [readUnicode, readHex4_hex4 (by omega), Option.bind_some]
  simp only [hhigh, and_self, if_true]
  rw [readHex4_hex4 (by omega), Option.bind_some]
  simp only [hlow, and_self, if_true]
  have hsum : 65536+(55296+(c.toNat-65536)/1024-55296)*1024+
      (56320+(c.toNat-65536)%1024-56320) = c.toNat := by omega
  rw [hsum, Char.ofNat_toNat]

/-- The three kinds of escapes, and how they are read: a character after a backslash, the
character itself, and code units. -/
inductive Escapes (c : Char) : List Char → Prop
  | short (d : Char) (read : ∀ l, readEscape (d :: l) = some (c,l)) : Escapes c ['\\',d]
  | plain (quote : c ≠ '\x22') (slash : c ≠ '\\') (printed : ¬ c.toNat < 32) : Escapes c [c]
  | units (ds : List Char) (read : ∀ l, readUnicode (ds ++ l) = some (c,l)) :
    Escapes c ('\\' :: 'u' :: ds)

theorem toList_unicode (s : String) : ("\\u" ++ s).toList = '\\' :: 'u' :: s.toList := by
  rw [String.toList_append]
  simp

theorem escapes_one {c : Char} {a : String} (h : ∀ l, readUnicode (a.toList ++ l) = some (c,l)) :
    Escapes c ("\\u" ++ a).toList := by
  rw [toList_unicode]
  exact Escapes.units _ h

theorem escapes_two {c : Char} {a b : String}
    (h : ∀ l, readUnicode (a.toList ++ '\\' :: 'u' :: (b.toList ++ l)) = some (c,l)) :
    Escapes c ("\\u" ++ a ++ "\\u" ++ b).toList := by
  rw [String.append_assoc, String.append_assoc, toList_unicode, String.toList_append,
    toList_unicode]
  refine Escapes.units _ fun l => ?_
  rw [List.append_assoc]
  exact h l

theorem escapes (c : Char) : Escapes c (escape c).toList := by
  unfold escape
  by_cases hquote : c = '\x22'
  · subst hquote
    exact Escapes.short '\x22' fun l => rfl
  rw [if_neg hquote]
  by_cases hslash : c = '\\'
  · subst hslash
    exact Escapes.short '\\' fun l => rfl
  rw [if_neg hslash]
  by_cases hnl : c = '\n'
  · subst hnl
    exact Escapes.short 'n' fun l => rfl
  rw [if_neg hnl]
  by_cases hcr : c = '\r'
  · subst hcr
    exact Escapes.short 'r' fun l => rfl
  rw [if_neg hcr]
  by_cases htab : c = '\t'
  · subst htab
    exact Escapes.short 't' fun l => rfl
  rw [if_neg htab]
  by_cases hbs : c = '\x08'
  · subst hbs
    exact Escapes.short 'b' fun l => rfl
  rw [if_neg hbs]
  by_cases hff : c = '\x0c'
  · subst hff
    exact Escapes.short 'f' fun l => rfl
  rw [if_neg hff]
  by_cases hplain : 32 ≤ c.toNat ∧ c.toNat ≤ 126
  · rw [if_pos hplain, String.toList_singleton]
    exact Escapes.plain hquote hslash (by omega)
  rw [if_neg hplain]
  by_cases hbmp : c.toNat < 65536
  · rw [if_pos hbmp]
    exact escapes_one (readUnicode_bmp hbmp)
  · rw [if_neg hbmp]
    exact escapes_two (readUnicode_pair hbmp)

theorem Escapes.one_le_length {c : Char} {t : List Char} (h : Escapes c t) : 1 ≤ t.length := by
  cases h <;> simp

/-- An escaped character is read as the character. -/
theorem Escapes.readString {c : Char} {t : List Char} (h : Escapes c t) (fuel : ℕ)
    (l : List Char) : readString (fuel+1) (t ++ l) =
      (readString fuel l).map fun p => (c :: p.1,p.2) := by
  cases h with
  | short d read => simp [Json.readString, read]
  | plain quote slash printed => simp [Json.readString, quote, slash, printed]
  | units ds read =>
    have hescape : readEscape ('u' :: (ds ++ l)) = some (c,l) := by
      rw [← read l]
      rfl
    simp [Json.readString, hescape]

/-- A written string is read back, with fuel for its text. -/
theorem readString_write (cs : List Char) (fuel : ℕ) (l : List Char)
    (hfuel : (cs.flatMap fun c => (escape c).toList).length < fuel) :
    readString fuel (cs.flatMap (fun c => (escape c).toList) ++ '\x22' :: l) = some (cs,l) := by
  induction cs generalizing fuel with
  | nil =>
    obtain ⟨n,rfl⟩ : ∃ n, fuel = n+1 := ⟨fuel-1,by omega⟩
    simp [readString]
  | cons c cs ih =>
    have hc := (escapes c).one_le_length
    rw [List.flatMap_cons, List.length_append] at hfuel
    obtain ⟨n,rfl⟩ : ∃ n, fuel = n+1 := ⟨fuel-1,by omega⟩
    rw [List.flatMap_cons, List.append_assoc, (escapes c).readString, ih n (by omega)]
    rfl

/-- `repr(s)`, with the characters outside of ASCII as they are. -/
def reprString (s : String) : String :=
  let cs := s.toList
  let delimiter := if '\'' ∈ cs ∧ '\x22' ∉ cs then '\x22' else '\''
  let reprChar (c : Char) : List Char :=
    if c = delimiter ∨ c = '\\' then ['\\',c]
    else if c = '\n' then ['\\','n']
    else if c = '\r' then ['\\','r']
    else if c = '\t' then ['\\','t']
    else if c.toNat < 32 ∨ c.toNat = 127 then
      ['\\','x',Nat.digitChar (c.toNat/16),Nat.digitChar (c.toNat%16)]
    else [c]
  String.ofList (delimiter :: (cs.flatMap reprChar ++ [delimiter]))

/-! ### Values -/

mutual

/-- `repr(value)`. -/
def repr : Json → String
  | null => "None"
  | bool true => "True"
  | bool false => "False"
  | int n => n.repr
  | float q => String.ofList (writeFloat q)
  | str s => reprString s
  | arr items => "[" ++ ", ".intercalate (reprItems items) ++ "]"
  | obj members => "\x7b" ++ ", ".intercalate (reprMembers members) ++ "\x7d"

def reprItems : List Json → List String
  | [] => []
  | v :: items => repr v :: reprItems items

def reprMembers : List (String × Json) → List String
  | [] => []
  | (name,v) :: members => (reprString name ++ ": " ++ repr v) :: reprMembers members

end

/-- `str(value)`. -/
def toText : Json → String
  | str s => s
  | v => repr v

mutual

/-- The text of a value. A text `gap` stands after each comma and colon. -/
def write (gap : List Char) : Json → List Char
  | null => "null".toList
  | bool true => "true".toList
  | bool false => "false".toList
  | int n => writeInt n
  | float q => writeFloat q
  | str s => writeString s.toList
  | arr items => '[' :: (writeItems gap items ++ [']'])
  | obj members => '\x7b' :: (writeMembers gap members ++ ['\x7d'])

def writeItems (gap : List Char) : List Json → List Char
  | [] => []
  | [v] => write gap v
  | v :: w :: items => write gap v ++ ',' :: (gap ++ writeItems gap (w :: items))

def writeMembers (gap : List Char) : List (String × Json) → List Char
  | [] => []
  | [(name,v)] => writeString name.toList ++ ':' :: (gap ++ write gap v)
  | (name,v) :: m :: members =>
    writeString name.toList ++ ':' :: (gap ++ (write gap v ++
      ',' :: (gap ++ writeMembers gap (m :: members))))

end

def isBlank (c : Char) : Bool := c = ' ' || c = '\t' || c = '\n' || c = '\r'

/-- The text after the blanks at its head. -/
def skip (l : List Char) : List Char := l.dropWhile isBlank

/-- The text after the word at its head. -/
def dropWord (word l : List Char) : Option (List Char) :=
  if word.isPrefixOf l then some (l.drop word.length) else none

/-- Of members with one name the last one counts. It stands where the first one stood. -/
def insertMember (o : Object) (m : String × Json) : Object :=
  if m.1 ∈ o.map Prod.fst then o.map fun n => if n.1 = m.1 then m else n else o ++ [m]

mutual

def readValue : ℕ → List Char → Option (Json × List Char)
  | 0, _ => none
  | _ + 1, [] => none
  | fuel + 1, c :: l =>
    if c = '\x22' then (readString (l.length+1) l).map fun p => (str (String.ofList p.1),p.2)
    else if c = '\x7b' then
      match skip l with
      | [] => none
      | d :: r =>
        if d = '\x7d' then some (obj [],r)
        else (readMembers fuel (d :: r)).map fun p => (obj (p.1.foldl insertMember []),p.2)
    else if c = '[' then
      match skip l with
      | [] => none
      | d :: r =>
        if d = ']' then some (arr [],r)
        else (readItems fuel (d :: r)).map fun p => (arr p.1,p.2)
    else if c = 'n' then (dropWord ['u','l','l'] l).map fun r => (null,r)
    else if c = 't' then (dropWord ['r','u','e'] l).map fun r => (bool true,r)
    else if c = 'f' then (dropWord ['a','l','s','e'] l).map fun r => (bool false,r)
    else readNumber (c :: l)

def readItems : ℕ → List Char → Option (List Json × List Char)
  | 0, _ => none
  | fuel + 1, l =>
    (readValue fuel l).bind fun (v,r) =>
      match skip r with
      | [] => none
      | c :: r' =>
        if c = ']' then some ([v],r')
        else if c = ',' then (readItems fuel (skip r')).map fun p => (v :: p.1,p.2)
        else none

def readMembers : ℕ → List Char → Option (List (String × Json) × List Char)
  | 0, _ => none
  | _ + 1, [] => none
  | fuel + 1, c :: l =>
    if c ≠ '\x22' then none
    else
      (readString (l.length+1) l).bind fun (name,r) =>
        match skip r with
        | [] => none
        | d :: r' =>
          if d ≠ ':' then none
          else
            (readValue fuel (skip r')).bind fun (v,r'') =>
              match skip r'' with
              | [] => none
              | e :: t =>
                if e = '\x7d' then some ([(String.ofList name,v)],t)
                else if e = ',' then
                  (readMembers fuel (skip t)).map fun p => ((String.ofList name,v) :: p.1,p.2)
                else none

end

/-- `json.dumps(value)`. -/
def encode (v : Json) : String := String.ofList (write [' '] v)

/-- `json.dumps(value, separators=(",", ":"))`. -/
def encodeCompact (v : Json) : String := String.ofList (write [] v)

/-- `json.loads(text)`; `none` stands for a `JSONDecodeError`. No value stands for the words `NaN`
and `Infinity`, nor for half of a surrogate pair. -/
def decode (text : String) : Option Json :=
  let l := skip text.toList
  (readValue (2*l.length+1) l).bind fun (v,r) => if skip r = [] then some v else none

mutual

/-- A value that the encoder can be given: the floats are floats, and no two members of an object
have the same name. -/
def wellFormed : Json → Bool
  | float q => IsDecimal q
  | arr items => itemsWellFormed items
  | obj members => (members.map Prod.fst).Nodup && membersWellFormed members
  | _ => true

def itemsWellFormed : List Json → Bool
  | [] => true
  | v :: items => wellFormed v && itemsWellFormed items

def membersWellFormed : List (String × Json) → Bool
  | [] => true
  | (_,v) :: members => wellFormed v && membersWellFormed members

end

example : (decode " [1, -2.5E-1, \x7b\x22a\x22: null, \x22a\x22: \x22\\u00e9\x22\x7d]").map encode =
    some "[1, -0.25, \x7b\x22a\x22: \x22\\u00e9\x22\x7d]" := by decide +kernel

/-- A float. -/
abbrev Decimal := {q : ℚ // IsDecimal q}

/-- An object that the encoder can be given. -/
abbrev Document := {o : Object // wellFormed (obj o)}

variable {gap : List Char}

theorem skip_cons {c : Char} (hc : isBlank c = false) (l : List Char) : skip (c :: l) = c :: l := by
  simp [skip, hc]

theorem skip_gap (hgap : ∀ c ∈ gap, isBlank c) (l : List Char) : skip (gap ++ l) = skip l :=
  List.dropWhile_append_of_pos hgap

/-- Characters with which the numerals start. -/
def StartsNumeral (c : Char) : Prop := c = '-' ∨ c.isDigit

theorem StartsNumeral.ne {c d : Char} (h : StartsNumeral c) (hd : d ≠ '-')
    (hdigit : d.isDigit = false) : c ≠ d := by
  rintro rfl
  obtain h | h := h
  · exact hd h
  · rw [h] at hdigit
    cases hdigit

theorem head_writeInt (n : ℤ) : ∃ c l, writeInt n = c :: l ∧ StartsNumeral c := by
  obtain ⟨d,ds,hds,-⟩ := head_toDigits n.natAbs
  rw [writeInt]
  split_ifs
  · exact ⟨_,_,rfl,Or.inl rfl⟩
  · exact ⟨d,ds,hds,Or.inr (isDigit_toDigits (hds ▸ List.mem_cons_self))⟩

theorem head_writeFloat (q : ℚ) : ∃ c l, writeFloat q = c :: l ∧ StartsNumeral c := by
  obtain ⟨d,ds,hds,-⟩ := head_toDigits ((q*10^decimals q).num.natAbs/10^decimals q)
  rw [writeFloat]
  split_ifs
  · exact ⟨_,_,rfl,Or.inl rfl⟩
  · refine ⟨d,_,by rw [List.nil_append, hds]; rfl,?_⟩
    exact Or.inr (isDigit_toDigits (hds ▸ List.mem_cons_self))

theorem readValue_numeral {c : Char} (hc : StartsNumeral c) (fuel : ℕ) (l : List Char) :
    readValue (fuel+1) (c :: l) = readNumber (c :: l) := by
  have h1 := hc.ne (d := '\x22') (by decide) (by decide)
  have h2 := hc.ne (d := '\x7b') (by decide) (by decide)
  have h3 := hc.ne (d := '[') (by decide) (by decide)
  have h4 := hc.ne (d := 'n') (by decide) (by decide)
  have h5 := hc.ne (d := 't') (by decide) (by decide)
  have h6 := hc.ne (d := 'f') (by decide) (by decide)
  simp [readValue, h1, h2, h3, h4, h5, h6]

theorem StartsNumeral.not_blank {c : Char} (h : StartsNumeral c) : isBlank c = false := by
  have h1 := h.ne (d := ' ') (by decide) (by decide)
  have h2 := h.ne (d := '\t') (by decide) (by decide)
  have h3 := h.ne (d := '\n') (by decide) (by decide)
  have h4 := h.ne (d := '\r') (by decide) (by decide)
  simp [isBlank, h1, h2, h3, h4]

/-- A written value starts with no blank and with no closing bracket. -/
theorem head_write (gap : List Char) (v : Json) :
    ∃ c l, write gap v = c :: l ∧ isBlank c = false ∧ c ≠ ']' := by
  cases v with
  | null => exact ⟨'n',['u','l','l'],by simp [write],by decide,by decide⟩
  | bool b =>
    cases b
    · exact ⟨'f',['a','l','s','e'],by simp [write],by decide,by decide⟩
    · exact ⟨'t',['r','u','e'],by simp [write],by decide,by decide⟩
  | int n =>
    obtain ⟨c,l,hl,hc⟩ := head_writeInt n
    exact ⟨c,l,by rw [write, hl],hc.not_blank,hc.ne (by decide) (by decide)⟩
  | float q =>
    obtain ⟨c,l,hl,hc⟩ := head_writeFloat q
    exact ⟨c,l,by rw [write, hl],hc.not_blank,hc.ne (by decide) (by decide)⟩
  | str s => exact ⟨'\x22',_,by rw [write, writeString],by decide,by decide⟩
  | arr items => exact ⟨'[',_,by rw [write],by decide,by decide⟩
  | obj members => exact ⟨'\x7b',_,by rw [write],by decide,by decide⟩

theorem head_writeItems (gap : List Char) (v : Json) (items : List Json) :
    ∃ c l, writeItems gap (v :: items) = c :: l ∧ isBlank c = false ∧ c ≠ ']' := by
  obtain ⟨c,l,hl,hc⟩ := head_write gap v
  cases items with
  | nil => exact ⟨c,l,by rw [writeItems, hl],hc⟩
  | cons w items => exact ⟨c,_,by rw [writeItems, hl]; rfl,hc⟩

theorem head_writeMembers (gap : List Char) (m : String × Json) (members : Object) :
    ∃ l, writeMembers gap (m :: members) = '\x22' :: l := by
  obtain ⟨name,v⟩ := m
  cases members with
  | nil => exact ⟨_,by rw [writeMembers, writeString]; rfl⟩
  | cons n members => exact ⟨_,by rw [writeMembers, writeString]; rfl⟩

theorem ends_bracket (l : List Char) : Ends (']' :: l) := by simp [Ends]
theorem ends_brace (l : List Char) : Ends ('\x7d' :: l) := by simp [Ends]
theorem ends_comma (l : List Char) : Ends (',' :: l) := by simp [Ends]

/-- Members with different names are an object as they stand. -/
theorem foldl_insertMember (o ms : Object) (h : ((o ++ ms).map Prod.fst).Nodup) :
    ms.foldl insertMember o = o ++ ms := by
  induction ms generalizing o with
  | nil => simp
  | cons m ms ih =>
    have hm : m.1 ∉ o.map Prod.fst := by
      rw [List.map_append, List.map_cons] at h
      intro hmem
      exact (List.disjoint_of_nodup_append h) hmem List.mem_cons_self
    rw [List.foldl_cons, insertMember, if_neg hm, ih (o ++ [m]) (by simpa using h)]
    simp

/-- The first member, its value read, up to what follows it. -/
theorem readMembers_cons (hgap : ∀ c ∈ gap, isBlank c) {fuel : ℕ} {v : Json} {r : List Char}
    (hread : readValue fuel (write gap v ++ r) = some (v,r)) (name : String) :
    readMembers (fuel+1) (writeString name.toList ++ ':' :: (gap ++ (write gap v ++ r))) =
      match skip r with
      | [] => none
      | e :: t =>
        if e = '\x7d' then some ([(name,v)],t)
        else if e = ',' then (readMembers fuel (skip t)).map fun p => ((name,v) :: p.1,p.2)
        else none := by
  obtain ⟨c,s,hs,hc,-⟩ := head_write gap v
  have hskip : skip (gap ++ (write gap v ++ r)) = write gap v ++ r := by
    rw [skip_gap hgap, hs, List.cons_append, skip_cons hc]
  rw [writeString, List.cons_append, List.append_assoc, List.singleton_append, readMembers,
    if_neg (by simp), readString_write _ _ _ (by simp), Option.bind_some]
  simp only [skip_cons (show isBlank ':' = false by decide), ne_eq, not_true, if_false, hskip,
    hread, Option.bind_some, String.ofList_toList]

mutual

/-- The decoder takes a written value for that value, whatever follows it. -/
theorem readValue_write (hgap : ∀ c ∈ gap, isBlank c) : ∀ (v : Json) (_ : wellFormed v)
    (fuel : ℕ) (l : List Char), 2*(write gap v).length ≤ fuel → Ends l →
    readValue fuel (write gap v ++ l) = some (v,l)
  | null, _, 0, _, hfuel, _ => by simp [write] at hfuel
  | null, _, fuel+1, l, _, _ => by simp [write, readValue, dropWord]
  | bool true, _, 0, _, hfuel, _ => by simp [write] at hfuel
  | bool true, _, fuel+1, l, _, _ => by simp [write, readValue, dropWord]
  | bool false, _, 0, _, hfuel, _ => by simp [write] at hfuel
  | bool false, _, fuel+1, l, _, _ => by simp [write, readValue, dropWord]
  | int n, _, fuel, l, hfuel, hl => by
    obtain ⟨c,r,hr,hc⟩ := head_writeInt n
    rw [write] at hfuel ⊢
    rw [hr, List.length_cons] at hfuel
    obtain ⟨k,rfl⟩ : ∃ k, fuel = k+1 := ⟨fuel-1,by omega⟩
    have hread := readNumber_writeInt n hl
    rw [hr, List.cons_append] at hread ⊢
    rw [readValue_numeral hc, hread]
  | float q, hv, fuel, l, hfuel, hl => by
    obtain ⟨c,r,hr,hc⟩ := head_writeFloat q
    rw [write] at hfuel ⊢
    rw [hr, List.length_cons] at hfuel
    obtain ⟨k,rfl⟩ : ∃ k, fuel = k+1 := ⟨fuel-1,by omega⟩
    have hread := readNumber_writeFloat (by simpa [wellFormed] using hv) hl
    rw [hr, List.cons_append] at hread ⊢
    rw [readValue_numeral hc, hread]
  | str s, _, 0, _, hfuel, _ => by simp [write, writeString] at hfuel
  | str s, _, fuel+1, l, _, _ => by
    rw [write, writeString, List.cons_append, List.append_assoc, List.singleton_append, readValue]
    rw [if_pos rfl, readString_write _ _ _ (by simp), Option.map_some]
    rw [String.ofList_toList]
  | arr items, hv, 0, _, hfuel, _ => by simp [write] at hfuel
  | arr [], _, fuel+1, l, _, _ => by
    simp [write, writeItems, readValue, skip_cons (show isBlank ']' = false by decide)]
  | arr (v :: items), hv, fuel+1, l, hfuel, _ => by
    obtain ⟨c,r,hr,hc,hclose⟩ := head_writeItems gap v items
    have hitems := readItems_write hgap (v :: items) (by simp) (by simpa [wellFormed] using hv)
      fuel l (by simp [write] at hfuel; omega)
    rw [write, List.cons_append, List.append_assoc, List.singleton_append, readValue]
    rw [hr, List.cons_append] at hitems ⊢
    simp [skip_cons hc, hclose, hitems]
  | obj members, hv, 0, _, hfuel, _ => by simp [write] at hfuel
  | obj [], _, fuel+1, l, _, _ => by
    simp [write, writeMembers, readValue, skip_cons (show isBlank '\x7d' = false by decide)]
  | obj (m :: members), hv, fuel+1, l, hfuel, _ => by
    obtain ⟨r,hr⟩ := head_writeMembers gap m members
    rw [wellFormed, Bool.and_eq_true, decide_eq_true_iff] at hv
    have hmembers := readMembers_write hgap (m :: members) (by simp) hv.2 fuel l
      (by simp [write] at hfuel; omega)
    have hobj := foldl_insertMember [] (m :: members) hv.1
    rw [write, List.cons_append, List.append_assoc, List.singleton_append, readValue]
    rw [hr, List.cons_append] at hmembers ⊢
    simp [skip_cons (show isBlank '\x22' = false by decide), hmembers, hobj]

theorem readItems_write (hgap : ∀ c ∈ gap, isBlank c) : ∀ (items : List Json) (_ : items ≠ [])
    (_ : itemsWellFormed items) (fuel : ℕ) (l : List Char),
    2*(writeItems gap items).length+1 ≤ fuel →
    readItems fuel (writeItems gap items ++ ']' :: l) = some (items,l)
  | [], hne, _, _, _, _ => absurd rfl hne
  | _ :: _, _, _, 0, _, hfuel => by omega
  | [v], _, hv, fuel+1, l, hfuel => by
    have hread := readValue_write hgap v (by simpa [itemsWellFormed] using hv) fuel (']' :: l)
      (by rw [writeItems] at hfuel; omega) (ends_bracket l)
    rw [writeItems, readItems, hread, Option.bind_some]
    simp [skip_cons (show isBlank ']' = false by decide)]
  | v :: w :: items, _, hv, fuel+1, l, hfuel => by
    rw [itemsWellFormed, Bool.and_eq_true] at hv
    rw [writeItems, List.length_append, List.length_cons, List.length_append] at hfuel
    have hread := readValue_write hgap v hv.1 fuel
      (',' :: (gap ++ (writeItems gap (w :: items) ++ ']' :: l))) (by omega) (ends_comma _)
    have hrest := readItems_write hgap (w :: items) (by simp) hv.2 fuel l (by omega)
    obtain ⟨c,r,hr,hc,-⟩ := head_writeItems gap w items
    rw [writeItems, readItems]
    simp only [List.append_assoc, List.cons_append]
    rw [hread, Option.bind_some, skip_cons (by decide)]
    rw [hr, List.cons_append] at hrest ⊢
    simp [skip_gap hgap, skip_cons hc, hrest]

theorem readMembers_write (hgap : ∀ c ∈ gap, isBlank c) : ∀ (members : Object)
    (_ : members ≠ []) (_ : membersWellFormed members) (fuel : ℕ) (l : List Char),
    2*(writeMembers gap members).length+1 ≤ fuel →
    readMembers fuel (writeMembers gap members ++ '\x7d' :: l) = some (members,l)
  | [], hne, _, _, _, _ => absurd rfl hne
  | _ :: _, _, _, 0, _, hfuel => by omega
  | [(name,v)], _, hv, fuel+1, l, hfuel => by
    rw [writeMembers, List.length_append, List.length_cons, List.length_append] at hfuel
    have hread := readValue_write hgap v (by simpa [membersWellFormed] using hv) fuel
      ('\x7d' :: l) (by omega) (ends_brace l)
    rw [writeMembers, List.append_assoc, List.cons_append, List.append_assoc,
      readMembers_cons hgap hread, skip_cons (by decide)]
    rfl
  | (name,v) :: m :: members, _, hv, fuel+1, l, hfuel => by
    rw [membersWellFormed, Bool.and_eq_true] at hv
    simp only [writeMembers, List.length_append, List.length_cons] at hfuel
    have hread := readValue_write hgap v hv.1 fuel
      (',' :: (gap ++ (writeMembers gap (m :: members) ++ '\x7d' :: l))) (by omega) (ends_comma _)
    have hrest := readMembers_write hgap (m :: members) (by simp) hv.2 fuel l (by omega)
    obtain ⟨r,hr⟩ := head_writeMembers gap m members
    rw [writeMembers]
    simp only [List.append_assoc, List.cons_append]
    rw [readMembers_cons hgap hread, skip_cons (by decide)]
    rw [hr, List.cons_append] at hrest ⊢
    simp [skip_gap hgap, skip_cons (show isBlank '\x22' = false by decide), hrest]

end

theorem decode_write (hgap : ∀ c ∈ gap, isBlank c) {v : Json} (hv : wellFormed v) :
    decode (String.ofList (write gap v)) = some v := by
  obtain ⟨c,l,hl,hc,-⟩ := head_write gap v
  have hskip : skip (write gap v) = write gap v := by rw [hl, skip_cons hc]
  have hread := readValue_write hgap v hv (2*(write gap v).length+1) [] (by omega) ends_nil
  rw [List.append_nil] at hread
  rw [decode, String.toList_ofList]
  simp only [hskip, hread, Option.bind_some]
  rfl

/-- What `json.dumps` writes, `json.loads` reads back. -/
theorem decode_encode {v : Json} (hv : wellFormed v) : decode (encode v) = some v :=
  decode_write (by simp [isBlank]) hv

theorem decode_encodeCompact {v : Json} (hv : wellFormed v) : decode (encodeCompact v) = some v :=
  decode_write (by simp) hv

end Arsonist.Library.Json
