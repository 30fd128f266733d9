import Mathlib.Data.List.Sort
import Mathlib.Tactic

/-! Lists that are ordered by a key, read in pages: each page holds the first elements above a
cursor, and the cursor then stands at the last element of the page. -/
namespace Arsonist.Library

variable {α κ : Type*} (key : α → κ)

/-- Where the cursor stands after a page. -/
def endOf (c : κ) (page : List α) : κ := (page.getLast?.map key).getD c

section Ends
variable {key} {c : κ}

theorem endOf_concat (page : List α) (a : α) : endOf key c (page ++ [a]) = key a := by
  rw [endOf, List.getLast?_concat]
  rfl

theorem endOf_eq (key : α → κ) (c : κ) (page : List α) :
    page = [] ∧ endOf key c page = c ∨ ∃ a ∈ page, endOf key c page = key a := by
  cases page using List.reverseRecOn with
  | nil => exact Or.inl ⟨rfl,rfl⟩
  | append_singleton page a =>
    exact Or.inr ⟨a,List.mem_append_right page List.mem_cons_self,endOf_concat page a⟩

/-- The end of a page depends on its keys alone. -/
theorem endOf_congr {β : Type*} {key' : β → κ} {page : List α} {page' : List β}
    (h : page.map key = page'.map key') : endOf key c page = endOf key' c page' := by
  rw [endOf, endOf, ← List.getLast?_map, ← List.getLast?_map, h]

end Ends

variable [LinearOrder κ]

/-- The elements above a cursor. -/
def above (l : List α) (c : κ) : List α := l.filter fun a => c < key a

/-- The elements above one cursor that are not above another one. -/
def between (l : List α) (c d : κ) : List α := l.filter fun a => c < key a ∧ key a ≤ d

variable {key} {l page : List α} {c d : κ}

theorem mem_above {a : α} : a ∈ above key l c ↔ a ∈ l ∧ c < key a := by
  rw [above, List.mem_filter, decide_eq_true_iff]

theorem mem_between {a : α} : a ∈ between key l c d ↔ a ∈ l ∧ c < key a ∧ key a ≤ d := by
  rw [between, List.mem_filter, decide_eq_true_iff]

/-- The cursor does not go back. -/
theorem le_endOf (hpage : ∀ a ∈ page, c < key a) : c ≤ endOf key c page := by
  cases page using List.reverseRecOn with
  | nil => exact le_rfl
  | append_singleton page a =>
    rw [endOf_concat]
    exact (hpage a (List.mem_append_right page List.mem_cons_self)).le

/-- Nothing lies between a cursor and itself. -/
theorem between_self (l : List α) (c : κ) : between key l c c = [] := by
  rw [between, List.filter_eq_nil_iff]
  intro a _ h
  obtain ⟨hlt,hle⟩ := of_decide_eq_true h
  exact hlt.not_ge hle

/-- What lies above the cursor after some elements were added behind all that it has passed. -/
theorem between_append (new : List α) (hnew : ∀ a ∈ new, d < key a) :
    between key (l ++ new) c d = between key l c d := by
  have hnone : between key new c d = [] := by
    rw [between, List.filter_eq_nil_iff]
    intro a ha h
    exact (hnew a ha).not_ge (of_decide_eq_true h).2
  rw [between, List.filter_append]
  exact (congrArg _ hnone).trans (List.append_nil _)

/-- An ordered list is what lies up to a cursor and what lies above it. -/
theorem above_eq_append (hl : l.Pairwise fun a b => key a < key b) (hcd : c ≤ d) :
    above key l c = between key l c d ++ above key l d := by
  induction l with
  | nil => rfl
  | cons a l ih =>
    obtain ⟨ha,hl⟩ := List.pairwise_cons.mp hl
    have hrest := ih hl
    by_cases hd : d < key a
    · -- nothing behind `a` lies up to `d`
      have hnone : between key (a :: l) c d = [] := by
        rw [between, List.filter_eq_nil_iff]
        intro b hb h
        obtain rfl | hb := List.mem_cons.mp hb
        · exact hd.not_ge (of_decide_eq_true h).2
        · exact (hd.trans (ha b hb)).not_ge (of_decide_eq_true h).2
      have hall : ∀ e ≤ d, above key (a :: l) e = a :: l := by
        intro e he
        rw [above, List.filter_eq_self]
        intro b hb
        obtain rfl | hb := List.mem_cons.mp hb
        · exact decide_eq_true (he.trans_lt hd)
        · exact decide_eq_true ((he.trans_lt hd).trans (ha b hb))
      rw [hnone, hall c hcd, hall d le_rfl, List.nil_append]
    · have hskip : above key (a :: l) d = above key l d := by
        rw [above, List.filter_cons, if_neg (by simpa using hd)]
        rfl
      rw [hskip]
      by_cases hc : c < key a
      · have hcons : between key (a :: l) c d = a :: between key l c d := by
          rw [between, List.filter_cons, if_pos (decide_eq_true ⟨hc,not_lt.mp hd⟩)]
          rfl
        rw [above, List.filter_cons, if_pos (decide_eq_true hc), hcons, List.cons_append, ← hrest]
        rfl
      · have hcons : between key (a :: l) c d = between key l c d := by
          rw [between, List.filter_cons, if_neg (by simp [hc])]
          rfl
        rw [above, List.filter_cons, if_neg (by simpa using hc), hcons, ← hrest]
        rfl

/-- What lies above one cursor and above a later one. -/
theorem above_of_le (hcd : c ≤ d) :
    above key l d = (above key l c).filter fun a => d < key a := by
  rw [above, above, List.filter_filter]
  refine List.filter_congr fun a _ => ?_
  rw [Bool.eq_iff_iff, Bool.and_eq_true, decide_eq_true_iff, decide_eq_true_iff]
  exact ⟨fun h => ⟨h,hcd.trans_lt h⟩,fun h => h.1⟩

/-- A page leaves the rest above the cursor. -/
theorem above_endOf {rest : List α} (hl : l.Pairwise fun a b => key a < key b)
    (hpage : page ++ rest = above key l c) : above key l (endOf key c page) = rest := by
  have habove : ∀ a ∈ page ++ rest, c < key a := fun a ha =>
    (mem_above.mp (hpage ▸ ha)).2
  have hsorted : (page ++ rest).Pairwise fun a b => key a < key b :=
    hpage ▸ hl.sublist List.filter_sublist
  have hle := le_endOf fun a ha => habove a (List.mem_append_left rest ha)
  have hpast : page.filter (fun a => endOf key c page < key a) = [] := by
    rw [List.filter_eq_nil_iff]
    intro a ha h
    have hlt := of_decide_eq_true h
    cases page using List.reverseRecOn with
    | nil => cases ha
    | append_singleton page b =>
      rw [endOf_concat] at hlt
      obtain ha | ha := List.mem_append.mp ha
      · have hab := (List.pairwise_append.mp (List.pairwise_append.mp hsorted).1).2.2 a ha b
          List.mem_cons_self
        exact hab.not_gt hlt
      · rw [List.mem_singleton.mp ha] at hlt
        exact lt_irrefl _ hlt
  have hkept : rest.filter (fun a => endOf key c page < key a) = rest := by
    rw [List.filter_eq_self]
    intro a ha
    refine decide_eq_true ?_
    obtain ⟨_,he⟩ | ⟨b,hb,he⟩ := endOf_eq key c page
    · rw [he]
      exact habove a (List.mem_append_right page ha)
    · rw [he]
      exact (List.pairwise_append.mp hsorted).2.2 b hb a ha
  rw [above_of_le hle, ← hpage, List.filter_append, hpast, hkept, List.nil_append]

/-- A page moves the cursor past its elements and past no others. -/
theorem between_endOf (hl : l.Pairwise fun a b => key a < key b) (hcd : c ≤ d)
    (hpage : page <+: above key l d) :
    between key l c (endOf key d page) = between key l c d ++ page := by
  obtain ⟨rest,hrest⟩ := hpage
  have hle : d ≤ endOf key d page := le_endOf fun a ha =>
    (mem_above.mp (hrest ▸ List.mem_append_left rest ha)).2
  have hall := above_eq_append hl (hcd.trans hle)
  rw [above_eq_append hl hcd, ← hrest, ← List.append_assoc, above_endOf hl hrest] at hall
  exact (List.append_cancel_right hall).symm

/-- After the last page the cursor has passed all that lay above the first one. -/
theorem between_endOf_above (hl : l.Pairwise fun a b => key a < key b) (hcd : c ≤ d) :
    between key l c (endOf key d (above key l d)) = above key l c := by
  rw [between_endOf hl hcd (List.prefix_refl _), ← above_eq_append hl hcd]

/-! ### The first page -/

/-- Elements with distinct keys, in the order of the keys. -/
theorem pairwise_insertionSort_key (h : (l.map key).Nodup) :
    (l.insertionSort fun a b => key a ≤ key b).Pairwise fun a b => key a < key b := by
  have : IsTrans α fun a b => key a ≤ key b := ⟨fun _ _ _ => le_trans⟩
  have : Std.Total fun a b : α => key a ≤ key b := ⟨fun a b => le_total (key a) (key b)⟩
  have hle := List.pairwise_insertionSort (fun a b => key a ≤ key b) l
  have hne : (l.insertionSort fun a b => key a ≤ key b).Pairwise fun a b => key a ≠ key b :=
    List.pairwise_map.mp (((List.perm_insertionSort _ l).map key).nodup_iff.mpr h)
  exact (hle.and hne).imp fun hab => lt_of_le_of_ne hab.1 hab.2

/-- The first `n` elements are those with fewer than `n` elements before them. -/
theorem mem_take_iff (hl : l.Pairwise fun a b => key a < key b) {a : α} (ha : a ∈ l) (n : ℕ) :
    a ∈ l.take n ↔ l.countP (fun b => key b < key a) < n := by
  induction l generalizing n with
  | nil => cases ha
  | cons b l ih =>
    obtain ⟨hb,hl⟩ := List.pairwise_cons.mp hl
    cases n with
    | zero => simp
    | succ n =>
      rw [List.take_succ_cons, List.mem_cons]
      obtain rfl | ha := List.mem_cons.mp ha
      · have hnone : (a :: l).countP (fun b => key b < key a) = 0 := by
          rw [List.countP_eq_zero]
          intro b hmem hlt
          obtain rfl | hmem := List.mem_cons.mp hmem
          · exact lt_irrefl _ (of_decide_eq_true hlt)
          · exact (hb b hmem).not_gt (of_decide_eq_true hlt)
        rw [hnone]
        exact iff_of_true (Or.inl rfl) (Nat.succ_pos n)
      · have hba := hb a ha
        have hcount : (b :: l).countP (fun b => key b < key a) =
            l.countP (fun b => key b < key a)+1 := List.countP_cons_of_pos (decide_eq_true hba)
        rw [hcount, Nat.add_lt_add_iff_right, ← ih hl ha n]
        refine or_iff_right ?_
        rintro rfl
        exact lt_irrefl _ hba

end Arsonist.Library
