import Arsonist.Library.JsonText

/-! Texts that a decoder accepts although no JSON value stands for what they say: the words `NaN`,
`Infinity` and `-Infinity` where a value is expected, and halves of surrogate pairs in strings. A
text is accepted if it is JSON once each of these has been replaced by something of its kind. -/
namespace Arsonist.Library.Json

/-- The text after a word that names a float which is no number. -/
def dropSpecial (l : List Char) : Option (List Char) :=
  (dropWord "NaN".toList l).or
    ((dropWord "Infinity".toList l).or (dropWord "-Infinity".toList l))

/-- The text with stand-ins. The flag says whether the head is inside a string. -/
def standIns : ℕ → Bool → List Char → List Char
  | 0, _, l => l
  | _ + 1, _, [] => []
  | fuel + 1, false, c :: l =>
    match dropSpecial (c :: l) with
    | some r => "null".toList ++ standIns fuel false r
    | none => c :: standIns fuel (c = '\x22') l
  | fuel + 1, true, c :: l =>
    if c = '\x22' then c :: standIns fuel false l
    else if c = '\\' then
      match l with
      | [] => [c]
      | d :: r =>
        match if d = 'u' then readHex4 r else none with
        | none => c :: d :: standIns fuel true r
        | some (n,r') =>
          if 55296 ≤ n ∧ n < 57344 then 'A' :: standIns fuel true r'
          else c :: d :: (r.take 4 ++ standIns fuel true r')
    else c :: standIns fuel true l

/-- The text is no JSON, but the decoder takes it. -/
def beyond (text : String) : Bool :=
  (decode text).isNone &&
    (decode (String.ofList (standIns text.length false text.toList))).isSome

/-- `json.loads(text)` does not raise a `JSONDecodeError`. -/
def accepts (text : String) : Bool := (decode text).isSome || beyond text

example : [beyond "[NaN, -Infinity]",beyond "\x22\\ud800\x22",beyond "nan",beyond "\x22NaN\x22"] =
    [true,true,false,false] := by decide +kernel

theorem length_readHex4 {l r : List Char} {n : ℕ} (h : readHex4 l = some (n,r)) :
    r.length < l.length := by
  unfold readHex4 at h
  split at h
  · simp only [Option.bind_eq_bind, Option.bind_eq_some_iff, Option.some.injEq, Prod.mk.injEq] at h
    obtain ⟨-,-,-,-,-,-,-,-,-,rfl⟩ := h
    simp only [List.length_cons]
    omega
  · cases h

theorem length_readUnicode {l r : List Char} {c : Char} (h : readUnicode l = some (c,r)) :
    r.length < l.length := by
  obtain ⟨⟨n,r'⟩,hn,h⟩ := Option.bind_eq_some_iff.mp h
  have hle := length_readHex4 hn
  dsimp only at h
  split_ifs at h with hhigh
  · split at h
    · obtain ⟨⟨m,r''⟩,hm,h⟩ := Option.bind_eq_some_iff.mp h
      have hle' := length_readHex4 hm
      dsimp only at h
      split_ifs at h
      obtain ⟨-,rfl⟩ := Prod.mk.inj (Option.some.inj h)
      simp only [List.length_cons] at hle
      omega
    · cases h
  · obtain ⟨-,rfl⟩ := Prod.mk.inj (Option.some.inj h)
    exact hle

theorem length_readEscape {l r : List Char} {c : Char} (h : readEscape l = some (c,r)) :
    r.length < l.length := by
  cases l with
  | nil => cases h
  | cons d l =>
    rw [List.length_cons]
    unfold readEscape at h
    dsimp only at h
    split_ifs at h
    iterate 6
      · obtain ⟨-,rfl⟩ := Prod.mk.inj (Option.some.inj h)
        exact Nat.lt_succ_self _
    · exact (length_readUnicode h).trans (Nat.lt_succ_self _)

/-- A string has fewer characters than its text. -/
theorem length_readString {fuel : ℕ} {l cs r : List Char}
    (h : readString fuel l = some (cs,r)) : cs.length < l.length := by
  induction fuel generalizing l cs r with
  | zero => cases h
  | succ fuel ih =>
    cases l with
    | nil => cases h
    | cons c l =>
      rw [List.length_cons]
      unfold readString at h
      split_ifs at h
      · obtain ⟨rfl,-⟩ := Prod.mk.inj (Option.some.inj h)
        exact Nat.succ_pos _
      · obtain ⟨⟨d,r'⟩,hescape,h⟩ := Option.bind_eq_some_iff.mp h
        obtain ⟨p,hp,he⟩ := Option.map_eq_some_iff.mp h
        obtain ⟨rfl,-⟩ := Prod.mk.inj he
        have hrest := ih hp
        have hless := length_readEscape hescape
        rw [List.length_cons]
        omega
      · obtain ⟨p,hp,he⟩ := Option.map_eq_some_iff.mp h
        obtain ⟨rfl,-⟩ := Prod.mk.inj he
        exact Nat.succ_lt_succ (ih hp)

theorem readNumber_ne_str (l : List Char) (s : String) (r : List Char) :
    readNumber l ≠ some (str s,r) := by
  intro h
  obtain ⟨⟨ds,r'⟩,-,he⟩ := Option.map_eq_some_iff.mp h
  dsimp only at he
  split_ifs at he <;> cases he

/-- Only a text that starts with a quote is read as a string. -/
theorem length_of_readValue {fuel : ℕ} {l r : List Char} {s : String}
    (h : readValue fuel l = some (str s,r)) : s.length < l.length := by
  cases fuel with
  | zero => cases h
  | succ fuel =>
    cases l with
    | nil => cases h
    | cons c l =>
      unfold readValue at h
      split_ifs at h
      · obtain ⟨p,hp,he⟩ := Option.map_eq_some_iff.mp h
        obtain ⟨hs,-⟩ := Prod.mk.inj he
        obtain rfl := Json.str.inj hs
        rw [String.length_ofList]
        exact (length_readString hp).trans (Nat.lt_succ_self _)
      iterate 2
        · split at h
          · cases h
          · split_ifs at h
            · cases h
            · obtain ⟨p,-,he⟩ := Option.map_eq_some_iff.mp h
              cases he
      iterate 3
        · obtain ⟨p,-,he⟩ := Option.map_eq_some_iff.mp h
          cases he
      · exact absurd h (readNumber_ne_str _ s r)

/-- No text is read as the string that it is. -/
theorem decode_ne_self (text : String) : decode text ≠ some (str text) := by
  intro h
  obtain ⟨⟨v,r⟩,hread,h⟩ := Option.bind_eq_some_iff.mp h
  dsimp only at h
  split_ifs at h
  obtain rfl := Option.some.inj h
  have hlt := length_of_readValue hread
  have hle : (skip text.toList).length ≤ text.toList.length :=
    (List.dropWhile_sublist isBlank).length_le
  rw [String.length_toList] at hle
  omega

end Arsonist.Library.Json
