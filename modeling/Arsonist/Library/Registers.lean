import Arsonist.Library.Keyed

/-! Registers that receive values one after the other and keep one of them. A relation says
which stored value gives way to which received one; it need not be an order. -/
namespace Arsonist.Library
open Keyed (key)

namespace Register
variable {α : Type*} (replaces : α → α → Prop) [DecidableRel replaces]

/-- The content of a register once it has received a value. -/
def receive : Option α → α → Option α
  | none, a => some a
  | some cur, a => if replaces cur a then some a else some cur

/-- What an empty register holds after a sequence of values. -/
def settle (l : List α) : Option α := l.foldl (receive replaces) none

variable {replaces}

theorem receive_of_replaces {o : Option α} {a : α} (h : ∀ cur ∈ o, replaces cur a) :
    receive replaces o a = some a := by
  cases o with
  | none => rfl
  | some cur => exact if_pos (h cur rfl)

theorem receive_of_not {cur a : α} (h : ¬ replaces cur a) :
    receive replaces (some cur) a = some cur := if_neg h

/-- A register holds a value that it has received, or held before. -/
theorem foldl_receive_mem {l : List α} {o : Option α} {a : α}
    (h : l.foldl (receive replaces) o = some a) : a ∈ l ∨ o = some a := by
  induction l generalizing o with
  | nil => exact Or.inr h
  | cons b l ih =>
    obtain hl | hb := ih h
    · exact Or.inl (List.mem_cons_of_mem b hl)
    · cases o with
      | none => exact Or.inl (Option.some.inj hb ▸ List.mem_cons_self)
      | some cur =>
        rw [receive] at hb
        split_ifs at hb with hr
        · exact Or.inl (Option.some.inj hb ▸ List.mem_cons_self)
        · exact Or.inr hb

theorem settle_mem {l : List α} {a : α} (h : settle replaces l = some a) : a ∈ l := by
  obtain hl | hnone := foldl_receive_mem h
  · exact hl
  · simp at hnone

/-- A value that only equal values replace stays once it is there. -/
theorem foldl_receive_keeps {v : α} (l : List α) (h : ∀ x ∈ l, replaces v x → x = v) :
    l.foldl (receive replaces) (some v) = some v := by
  induction l with
  | nil => rfl
  | cons x l ih =>
    have hx : receive replaces (some v) x = some v := by
      by_cases hr : replaces v x
      · rw [h x List.mem_cons_self hr, receive, ite_self]
      · exact receive_of_not hr
    rw [List.foldl_cons, hx]
    exact ih fun y hy => h y (List.mem_cons_of_mem x hy)

/-- A register of images is the image of a register. -/
theorem foldl_receive_map {β : Type*} (f : β → α) (l : List β) (o : Option β) :
    (l.map f).foldl (receive replaces) (o.map f) =
      (l.foldl (receive fun x y => replaces (f x) (f y)) o).map f := by
  induction l generalizing o with
  | nil => rfl
  | cons b l ih =>
    have hb : receive replaces (o.map f) (f b) =
        (receive (fun x y => replaces (f x) (f y)) o b).map f := by
      cases o with
      | none => rfl
      | some cur =>
        rw [Option.map_some, receive, receive]
        split_ifs <;> rfl
    rw [List.map_cons, List.foldl_cons, List.foldl_cons, hb, ih]

theorem settle_append_singleton {l : List α} {v : α} (h : ∀ x ∈ l, replaces x v) :
    settle replaces (l ++ [v]) = some v := by
  rw [settle, List.foldl_append, List.foldl_cons, List.foldl_nil]
  exact receive_of_replaces fun cur hcur => h cur (settle_mem hcur)

/-- A value that replaces all others, and that no other value replaces, prevails. -/
theorem settle_eq {l : List α} {v : α} (hv : v ∈ l) (above : ∀ x ∈ l, replaces x v)
    (stays : ∀ x ∈ l, replaces v x → x = v) : settle replaces l = some v := by
  obtain ⟨front,back,rfl⟩ := List.append_of_mem hv
  have hfront : settle replaces (front ++ [v]) = some v :=
    settle_append_singleton fun x hx => above x (List.mem_append_left _ hx)
  have hsplit : front ++ v :: back = (front ++ [v]) ++ back := by simp
  rw [hsplit, settle, List.foldl_append]
  change back.foldl (receive replaces) (settle replaces (front ++ [v])) = some v
  rw [hfront]
  refine foldl_receive_keeps back fun x hx => stays x ?_
  exact List.mem_append_right front (List.mem_cons_of_mem v hx)

/-- Where some value replaces all others, every order and repetition of the values settles on
the same one if and only if that value is replaced by no other. -/
theorem settles_alike_iff {l : List α} {v : α} (hv : v ∈ l) (above : ∀ x ∈ l, replaces x v) :
    (∀ l₁ l₂ : List α, (∀ x, x ∈ l₁ ↔ x ∈ l) → (∀ x, x ∈ l₂ ↔ x ∈ l) →
      settle replaces l₁ = settle replaces l₂) ↔ ∀ x ∈ l, replaces v x → x = v := by
  constructor
  · intro h x hx hr
    have hcur : settle replaces (l ++ [v]) = some v := settle_append_singleton above
    have hlast : settle replaces (l ++ [v] ++ [x]) = some x := by
      rw [settle, List.foldl_append]
      change receive replaces (settle replaces (l ++ [v])) x = some x
      rw [hcur, receive, if_pos hr]
    have halike := h (l ++ [v] ++ [x]) (l ++ [v])
      (fun y => by simp only [List.mem_append, List.mem_singleton]; grind)
      (fun y => by simp only [List.mem_append, List.mem_singleton]; grind)
    rw [hlast, hcur] at halike
    exact Option.some.inj halike
  · intro stays l₁ l₂ h₁ h₂
    have hsettles : ∀ m : List α, (∀ x, x ∈ m ↔ x ∈ l) → settle replaces m = some v := by
      intro m hm
      refine settle_eq ((hm v).mpr hv) (fun x hx => above x ((hm x).mp hx)) ?_
      exact fun x hx => stays x ((hm x).mp hx)
    rw [hsettles l₁ h₁, hsettles l₂ h₂]

end Register

namespace Table
variable {α κ : Type*} [Keyed α κ] [DecidableEq κ]
  (replaces : α → α → Prop) [DecidableRel replaces]

/-- Store a record unless the one stored under its key does not give way to it. -/
def merge (t : Table α) (a : α) : Table α :=
  match t.get? (key a) with
  | none => t.put a
  | some cur => if replaces cur a then t.put a else t

theorem get?_merge (t : Table α) (a : α) (k : κ) :
    (t.merge replaces a).get? k =
      if key a = k then Register.receive replaces (t.get? k) a else t.get? k := by
  unfold merge
  by_cases hk : key a = k
  · subst hk
    rw [if_pos rfl]
    cases h : t.get? (key a) with
    | none => simp [Register.receive, get?_put]
    | some cur =>
      by_cases hr : replaces cur a
      · simp [Register.receive, hr, get?_put]
      · simp [Register.receive, hr, h]
  · rw [if_neg hk]
    cases t.get? (key a) with
    | none => simp [get?_put, Ne.symm hk]
    | some cur =>
      by_cases hr : replaces cur a
      · simp [hr, get?_put, Ne.symm hk]
      · simp [hr]

/-- Under each key, merging is a register that receives the records of that key. -/
theorem get?_foldl_merge (l : List α) (t : Table α) (k : κ) :
    (l.foldl (merge replaces) t).get? k =
      (l.filter fun a => key a = k).foldl (Register.receive replaces) (t.get? k) := by
  induction l generalizing t with
  | nil => rfl
  | cons a l ih =>
    rw [List.foldl_cons, ih, get?_merge]
    by_cases hk : key a = k
    · simp [hk]
    · simp [hk]

end Table
end Arsonist.Library
