import Arsonist.Library.JsonText

/-! The order of the members does not count in canonical JSON text: it is the compact text of the
value with its members sorted, so that it determines the value up to the order of its members. -/
namespace Arsonist.Library.Json

mutual

/-- The value, with the members of all its objects sorted by name. -/
def canonical : Json → Json
  | arr items => arr (canonicalItems items)
  | obj members => obj ((canonicalMembers members).insertionSort fun a b => a.1 ≤ b.1)
  | null => null
  | bool b => bool b
  | int n => int n
  | float q => float q
  | str s => str s

def canonicalItems : List Json → List Json
  | [] => []
  | v :: items => canonical v :: canonicalItems items

def canonicalMembers : List (String × Json) → List (String × Json)
  | [] => []
  | (name,v) :: members => (name,canonical v) :: canonicalMembers members

end

theorem canonicalItems_eq (items : List Json) : canonicalItems items = items.map canonical := by
  induction items with
  | nil => simp [canonicalItems]
  | cons v items ih => simp [canonicalItems, ih]

theorem canonicalMembers_eq (members : Object) :
    canonicalMembers members = members.map fun m => (m.1,canonical m.2) := by
  induction members with
  | nil => simp [canonicalMembers]
  | cons m members ih => simp [canonicalMembers, ih]

theorem itemsWellFormed_iff (items : List Json) :
    itemsWellFormed items = true ↔ ∀ v ∈ items, wellFormed v = true := by
  induction items with
  | nil => simp [itemsWellFormed]
  | cons v items ih => simp [itemsWellFormed, ih]

theorem membersWellFormed_iff (members : Object) :
    membersWellFormed members = true ↔ ∀ m ∈ members, wellFormed m.2 = true := by
  induction members with
  | nil => simp [membersWellFormed]
  | cons m members ih => simp [membersWellFormed, ih]

/-- An object is well formed if its names differ and its values are well formed. -/
theorem wellFormed_obj (members : Object) :
    wellFormed (obj members) = true ↔
      (members.map Prod.fst).Nodup ∧ ∀ m ∈ members, wellFormed m.2 = true := by
  rw [wellFormed, Bool.and_eq_true, decide_eq_true_iff, membersWellFormed_iff]

theorem canonicalMembers_perm (members : Object) :
    ((canonicalMembers members).insertionSort fun a b => a.1 ≤ b.1).Perm
      (members.map fun m => (m.1,canonical m.2)) := by
  rw [canonicalMembers_eq]
  exact List.perm_insertionSort _ _

mutual

theorem wellFormed_canonical : ∀ v, wellFormed v = true → wellFormed (canonical v) = true
  | null, h | bool _, h | int _, h | float _, h | str _, h => by simpa [canonical] using h
  | arr items, h => by
    rw [wellFormed] at h
    rw [canonical, wellFormed, canonicalItems_eq, itemsWellFormed_iff]
    intro w hw
    obtain ⟨v,hv,rfl⟩ := List.mem_map.mp hw
    exact wellFormed_canonicalItems items h v hv
  | obj members, h => by
    obtain ⟨hnames,hvalues⟩ := (wellFormed_obj members).mp h
    have hperm := canonicalMembers_perm members
    rw [canonical, wellFormed_obj]
    constructor
    · rw [(hperm.map Prod.fst).nodup_iff, List.map_map]
      exact hnames
    · intro m hm
      obtain ⟨n,hn,rfl⟩ := List.mem_map.mp (hperm.mem_iff.mp hm)
      exact wellFormed_canonicalMembers members ((membersWellFormed_iff members).mpr hvalues) n hn

theorem wellFormed_canonicalItems : ∀ items, itemsWellFormed items = true →
    ∀ v ∈ items, wellFormed (canonical v) = true
  | [], _, v, hv => by cases hv
  | w :: items, h, v, hv => by
    rw [itemsWellFormed, Bool.and_eq_true] at h
    obtain hv | hv := List.mem_cons.mp hv
    · rw [hv]
      exact wellFormed_canonical w h.1
    · exact wellFormed_canonicalItems items h.2 v hv

theorem wellFormed_canonicalMembers : ∀ members, membersWellFormed members = true →
    ∀ m ∈ members, wellFormed (canonical m.2) = true
  | [], _, m, hm => by cases hm
  | n :: members, h, m, hm => by
    obtain ⟨name,w⟩ := n
    rw [membersWellFormed, Bool.and_eq_true] at h
    obtain hm | hm := List.mem_cons.mp hm
    · rw [hm]
      exact wellFormed_canonical w h.1
    · exact wellFormed_canonicalMembers members h.2 m hm

end

/-! ### Canonical text -/

theorem toList_repr (n : ℤ) : n.repr.toList = writeInt n := by
  cases n with
  | ofNat n =>
    rw [writeInt, if_neg (by simp)]
    exact Nat.toList_repr
  | negSucc n =>
    rw [writeInt, if_pos (Int.negSucc_lt_zero n), Int.repr, String.toList_append, Nat.toList_repr]
    rfl

theorem toList_quote (s : String) : (quote s).toList = writeString s.toList := by
  rw [quote, String.toList_append, String.toList_append, String.toList_join, List.flatMap_map, writeString]
  rfl

theorem toList_encodeCompact (v : Json) : (encodeCompact v).toList = write [] v :=
  String.toList_ofList

theorem toList_intercalate_items (items : List Json) :
    (",".intercalate (items.map encodeCompact)).toList = writeItems [] items := by
  induction items with
  | nil => simp [writeItems]
  | cons v items ih =>
    cases items with
    | nil => simp [writeItems, toList_encodeCompact]
    | cons w items =>
      rw [List.map_cons, List.map_cons, String.intercalate_cons_cons, ← List.map_cons,
        String.toList_append, String.toList_append, ih, toList_encodeCompact, writeItems]
      simp

theorem toList_intercalate_members (members : Object) :
    (",".intercalate (members.map fun m => quote m.1 ++ ":" ++ encodeCompact m.2)).toList =
      writeMembers [] members := by
  induction members with
  | nil => simp [writeMembers]
  | cons m members ih =>
    cases members with
    | nil => simp [writeMembers, toList_quote, toList_encodeCompact]
    | cons n members =>
      rw [List.map_cons, List.map_cons, String.intercalate_cons_cons,
        ← List.map_cons (f := fun m : String × Json => quote m.1 ++ ":" ++ encodeCompact m.2),
        String.toList_append, String.toList_append, ih, writeMembers]
      simp [toList_quote, toList_encodeCompact]

/-- Rendering the values first and sorting then is sorting first. -/
theorem sortMembers_map (members : Object) (f : Json → String) :
    sortMembers (members.map fun m => (m.1,f m.2)) =
      (members.insertionSort fun a b => a.1 ≤ b.1).map fun m => (m.1,f m.2) := by
  symm
  exact List.map_insertionSort (fun a b : String × Json => a.1 ≤ b.1)
    (fun a b : String × String => a.1 ≤ b.1) (fun m => (m.1,f m.2)) members
    fun _ _ _ _ => Iff.rfl

mutual

/-- The canonical text is the compact text with sorted members. -/
theorem dumps_eq : ∀ v, dumps v = encodeCompact (canonical v)
  | null => by decide +kernel
  | bool true => by decide +kernel
  | bool false => by decide +kernel
  | int n => by
    rw [dumps, canonical, encodeCompact, write, ← toList_repr, String.ofList_toList]
  | float q => by rw [dumps, canonical, encodeCompact, write]
  | str s => by
    rw [dumps, canonical, encodeCompact, write, ← toList_quote, String.ofList_toList]
  | arr items => by
    apply String.toList_inj.mp
    rw [dumps, dumpsItems_eq, canonical, toList_encodeCompact, write, String.toList_append,
      String.toList_append, toList_intercalate_items]
    rfl
  | obj members => by
    apply String.toList_inj.mp
    rw [dumps, dumpsMembers_eq, sortMembers_map, List.map_map, canonical, toList_encodeCompact,
      write, String.toList_append, String.toList_append]
    have hmembers := toList_intercalate_members
      ((canonicalMembers members).insertionSort fun a b => a.1 ≤ b.1)
    rw [← hmembers]
    rfl

theorem dumpsItems_eq : ∀ items, dumpsItems items = (canonicalItems items).map encodeCompact
  | [] => by rw [dumpsItems, canonicalItems]; rfl
  | v :: items => by
    rw [dumpsItems, canonicalItems, List.map_cons, dumps_eq v, dumpsItems_eq items]

theorem dumpsMembers_eq : ∀ members : Object,
    dumpsMembers members = (canonicalMembers members).map fun m => (m.1,encodeCompact m.2)
  | [] => by rw [dumpsMembers, canonicalMembers]; rfl
  | (name,v) :: members => by
    rw [dumpsMembers, canonicalMembers, List.map_cons, dumps_eq v, dumpsMembers_eq members]

end

/-- Canonical text determines a value up to the order of its members. -/
theorem dumps_inj {v w : Json} (hv : wellFormed v = true) (hw : wellFormed w = true) :
    dumps v = dumps w ↔ canonical v = canonical w := by
  rw [dumps_eq, dumps_eq]
  constructor
  · intro h
    have hread := congrArg decode h
    rw [decode_encodeCompact (wellFormed_canonical v hv),
      decode_encodeCompact (wellFormed_canonical w hw)] at hread
    exact Option.some.inj hread
  · exact fun h => congrArg encodeCompact h

/-! ### What is read is well formed -/

theorem isDecimal_mul_zpow (n z : ℤ) : IsDecimal (n*10^z) := by
  rw [isDecimal_iff]
  cases z with
  | ofNat k =>
    refine ⟨0,?_⟩
    have hint : (n*10^(Int.ofNat k) : ℚ) = ((n*10^k : ℤ) : ℚ) := by
      push_cast
      rfl
    rw [hint, Rat.den_intCast]
    exact one_dvd _
  | negSucc k =>
    refine ⟨k+1,?_⟩
    have hfraction : (n*10^(Int.negSucc k) : ℚ) = (n : ℚ)/((10^(k+1) : ℤ) : ℚ) := by
      rw [zpow_negSucc, div_eq_mul_inv]
      push_cast
      rfl
    have hden := Rat.den_dvd n (10^(k+1))
    rw [Rat.divInt_eq_div, ← hfraction] at hden
    exact_mod_cast hden

theorem wellFormed_float {q : ℚ} (h : IsDecimal q) : wellFormed (float q) = true := by
  rw [wellFormed]
  exact decide_eq_true h

theorem wellFormed_of_readNumber {l r : List Char} {v : Json} (h : readNumber l = some (v,r)) :
    wellFormed v = true := by
  rw [readNumber] at h
  obtain ⟨x,-,hx⟩ := Option.map_eq_some_iff.mp h
  dsimp only at hx
  split_ifs at hx with hint
  all_goals obtain ⟨rfl,-⟩ := Prod.mk.inj hx
  · simp [wellFormed]
  · simp [wellFormed]
  · exact wellFormed_float (isDecimal_mul_zpow _ _)
  · exact wellFormed_float (isDecimal_mul_zpow _ _)

/-- One more member keeps the names different and the values well formed. -/
theorem wellFormed_insertMember {o : Object} {m : String × Json}
    (ho : wellFormed (obj o) = true) (hm : wellFormed m.2 = true) :
    wellFormed (obj (insertMember o m)) = true := by
  rw [wellFormed_obj] at ho ⊢
  rw [insertMember]
  split_ifs with hname
  · constructor
    · have hnames : (o.map fun n => if n.1 = m.1 then m else n).map Prod.fst =
          o.map Prod.fst := by
        rw [List.map_map]
        apply List.map_congr_left
        intro n _
        by_cases hn : n.1 = m.1 <;> simp [hn]
      rw [hnames]
      exact ho.1
    · intro x hx
      obtain ⟨n,hn,rfl⟩ := List.mem_map.mp hx
      split_ifs
      · exact hm
      · exact ho.2 n hn
  · constructor
    · rw [List.map_append, List.nodup_append]
      refine ⟨ho.1,List.nodup_singleton _,?_⟩
      intro a ha b hb hab
      obtain rfl := List.mem_singleton.mp hb
      exact hname (hab ▸ ha)
    · intro x hx
      obtain hx | hx := List.mem_append.mp hx
      · exact ho.2 x hx
      · rw [List.mem_singleton.mp hx]
        exact hm

theorem wellFormed_foldl_insertMember {members o : Object} (ho : wellFormed (obj o) = true)
    (hmembers : ∀ m ∈ members, wellFormed m.2 = true) :
    wellFormed (obj (members.foldl insertMember o)) = true := by
  induction members generalizing o with
  | nil => exact ho
  | cons m members ih =>
    refine ih (wellFormed_insertMember ho (hmembers m List.mem_cons_self)) ?_
    exact fun n hn => hmembers n (List.mem_cons_of_mem m hn)

theorem wellFormed_of_readString {fuel : ℕ} {l : List Char} {v : Json} {r : List Char}
    (h : ((readString fuel l).map fun p => (str (String.ofList p.1),p.2)) = some (v,r)) :
    wellFormed v = true := by
  obtain ⟨p,-,hp⟩ := Option.map_eq_some_iff.mp h
  obtain ⟨rfl,-⟩ := Prod.mk.inj hp
  simp [wellFormed]

theorem wellFormed_of_dropWord {word l : List Char} {v w : Json} {r : List Char}
    (hv : wellFormed v = true) (h : ((dropWord word l).map fun r => (v,r)) = some (w,r)) :
    wellFormed w = true := by
  obtain ⟨t,-,ht⟩ := Option.map_eq_some_iff.mp h
  rw [← (Prod.mk.inj ht).1]
  exact hv

/-- What is read with this fuel is well formed. -/
structure ReadsWellFormed (fuel : ℕ) : Prop where
  value : ∀ l v r, readValue fuel l = some (v,r) → wellFormed v = true
  items : ∀ l items r, readItems fuel l = some (items,r) → ∀ v ∈ items, wellFormed v = true
  members : ∀ l members r, readMembers fuel l = some (members,r) →
    ∀ m ∈ members, wellFormed m.2 = true

namespace ReadsWellFormed
variable {fuel : ℕ} (hfuel : ReadsWellFormed fuel)
include hfuel

theorem value_succ (l : List Char) (v : Json) (r : List Char)
    (h : readValue (fuel+1) l = some (v,r)) : wellFormed v = true := by
  cases l with
  | nil => simp [readValue] at h
  | cons c l =>
    rw [readValue] at h
    split_ifs at h with hstr hobj harr hnull htrue hfalse
    · exact wellFormed_of_readString h
    · cases hskip : skip l with
      | nil => simp [hskip] at h
      | cons d t =>
        rw [hskip] at h
        dsimp only at h
        split_ifs at h
        · obtain ⟨rfl,-⟩ := Prod.mk.inj (Option.some.inj h)
          simp [wellFormed, membersWellFormed]
        · obtain ⟨p,hp,hv⟩ := Option.map_eq_some_iff.mp h
          obtain ⟨rfl,-⟩ := Prod.mk.inj hv
          refine wellFormed_foldl_insertMember ?_ (hfuel.members _ _ _ hp)
          simp [wellFormed, membersWellFormed]
    · cases hskip : skip l with
      | nil => simp [hskip] at h
      | cons d t =>
        rw [hskip] at h
        dsimp only at h
        split_ifs at h
        · obtain ⟨rfl,-⟩ := Prod.mk.inj (Option.some.inj h)
          simp [wellFormed, itemsWellFormed]
        · obtain ⟨p,hp,hv⟩ := Option.map_eq_some_iff.mp h
          obtain ⟨rfl,-⟩ := Prod.mk.inj hv
          rw [wellFormed, itemsWellFormed_iff]
          exact hfuel.items _ _ _ hp
    · exact wellFormed_of_dropWord (by simp [wellFormed]) h
    · exact wellFormed_of_dropWord (by simp [wellFormed]) h
    · exact wellFormed_of_dropWord (by simp [wellFormed]) h
    · exact wellFormed_of_readNumber h

theorem items_succ (l : List Char) (items : List Json) (r : List Char)
    (h : readItems (fuel+1) l = some (items,r)) : ∀ v ∈ items, wellFormed v = true := by
  intro v hv
  rw [readItems] at h
  obtain ⟨⟨w,t⟩,hw,h⟩ := Option.bind_eq_some_iff.mp h
  dsimp only at h
  cases hskip : skip t with
  | nil => simp [hskip] at h
  | cons c t' =>
    rw [hskip] at h
    dsimp only at h
    split_ifs at h
    · obtain ⟨rfl,-⟩ := Prod.mk.inj (Option.some.inj h)
      rw [List.mem_singleton.mp hv]
      exact hfuel.value _ _ _ hw
    · obtain ⟨p,hp,hcons⟩ := Option.map_eq_some_iff.mp h
      obtain ⟨rfl,-⟩ := Prod.mk.inj hcons
      obtain hv | hv := List.mem_cons.mp hv
      · rw [hv]
        exact hfuel.value _ _ _ hw
      · exact hfuel.items _ _ _ hp v hv

theorem members_succ (l : List Char) (members : List (String × Json)) (r : List Char)
    (h : readMembers (fuel+1) l = some (members,r)) : ∀ m ∈ members, wellFormed m.2 = true := by
  intro m hm
  cases l with
  | nil => simp [readMembers] at h
  | cons c l =>
    rw [readMembers] at h
    split_ifs at h
    obtain ⟨⟨name,t⟩,-,h⟩ := Option.bind_eq_some_iff.mp h
    dsimp only at h
    cases hskip : skip t with
    | nil => simp [hskip] at h
    | cons d t' =>
      rw [hskip] at h
      dsimp only at h
      split_ifs at h
      obtain ⟨⟨w,u⟩,hw,h⟩ := Option.bind_eq_some_iff.mp h
      dsimp only at h
      cases hskip' : skip u with
      | nil => simp [hskip'] at h
      | cons e u' =>
        rw [hskip'] at h
        dsimp only at h
        split_ifs at h
        · obtain ⟨rfl,-⟩ := Prod.mk.inj (Option.some.inj h)
          rw [List.mem_singleton.mp hm]
          exact hfuel.value _ _ _ hw
        · obtain ⟨p,hp,hcons⟩ := Option.map_eq_some_iff.mp h
          obtain ⟨rfl,-⟩ := Prod.mk.inj hcons
          obtain hm | hm := List.mem_cons.mp hm
          · rw [hm]
            exact hfuel.value _ _ _ hw
          · exact hfuel.members _ _ _ hp m hm

end ReadsWellFormed

theorem readsWellFormed (fuel : ℕ) : ReadsWellFormed fuel := by
  induction fuel with
  | zero =>
    constructor
    · intro l v r h
      simp [readValue] at h
    · intro l items r h
      simp [readItems] at h
    · intro l members r h
      simp [readMembers] at h
  | succ fuel ih => exact ⟨ih.value_succ,ih.items_succ,ih.members_succ⟩

/-- A decoded value could have been encoded. -/
theorem wellFormed_of_decode {text : String} {v : Json} (h : decode text = some v) :
    wellFormed v = true := by
  rw [decode] at h
  obtain ⟨⟨w,r⟩,hread,h⟩ := Option.bind_eq_some_iff.mp h
  dsimp only at h
  split_ifs at h
  obtain rfl := Option.some.inj h
  exact (readsWellFormed _).value _ _ _ hread

end Arsonist.Library.Json
