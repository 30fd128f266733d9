import Arsonist.Library.StableSort
import Mathlib.Data.List.Induction

/-! Choosing one of several alternatives: filters that give way where nothing would pass them, and
the alternative with the highest score, the first of those that have it. -/
namespace Arsonist.Library

section Narrowed
variable {α : Type*} {needed : Prop} [Decidable needed] {f : α → Bool} {l : List α}

/-- A filter that is used if it is needed and something passes it. -/
def narrowed (needed : Prop) [Decidable needed] (f : α → Bool) (l : List α) : List α :=
  if needed ∧ l.filter f ≠ [] then l.filter f else l

theorem narrowed_subset : narrowed needed f l ⊆ l := by
  rw [narrowed]
  split_ifs
  · exact List.filter_subset_self l
  · exact List.Subset.refl l

@[simp] theorem narrowed_eq_nil_iff : narrowed needed f l = [] ↔ l = [] := by
  rw [narrowed]
  split_ifs with h
  · refine iff_of_false h.2 ?_
    rintro rfl
    exact h.2 rfl
  · exact Iff.rfl

/-- A filter that is needed lets nothing else pass if something passes it. -/
theorem narrowed_of_exists (h : needed) {a : α} (ha : a ∈ l) (hf : f a = true) :
    narrowed needed f l = l.filter f :=
  if_pos ⟨h,List.ne_nil_of_mem (List.mem_filter.mpr ⟨ha,hf⟩)⟩

/-- A filter that is used if it is needed. -/
theorem ite_filter_eq :
    (if needed then l.filter f else l) = l.filter fun a => decide (needed → f a = true) := by
  split_ifs with h <;> simp [h]

end Narrowed

section Ranked
variable {α β τ : Type*} [LinearOrder τ] {score : α → τ} {l : List α} {a : α}

/-- The alternatives in the order of their scores, the best first. -/
def ranked (score : α → τ) (l : List α) : List α :=
  l.insertionSort fun a b => score b ≤ score a

theorem perm_ranked (score : α → τ) (l : List α) : (ranked score l).Perm l :=
  List.perm_insertionSort _ l

theorem mem_of_head?_ranked (h : (ranked score l).head? = some a) : a ∈ l :=
  (perm_ranked score l).subset (List.mem_of_mem_head? h)

theorem head?_ranked_eq_none_iff : (ranked score l).head? = none ↔ l = [] := by
  rw [List.head?_eq_none_iff]
  constructor
  · intro hnil
    exact (hnil ▸ perm_ranked score l).symm.eq_nil
  · rintro rfl
    rfl

theorem exists_head?_ranked (score : α → τ) (h : l ≠ []) :
    ∃ a, (ranked score l).head? = some a :=
  Option.ne_none_iff_exists'.mp (head?_ranked_eq_none_iff.not.mpr h)

/-- Alternatives that are sorted together with what was computed from them. -/
theorem sort_map_eq_ranked (score : α → τ) (f : α → β) (g : β → τ)
    (hf : ∀ a, g (f a) = score a) (l : List α) :
    (l.map f).insertionSort (fun a b => g b ≤ g a) = (ranked score l).map f := by
  rw [ranked, List.map_insertionSort _ (fun a b : β => g b ≤ g a)]
  intro a _ b _
  rw [hf, hf]

/-- What is chosen has a property exactly if each alternative without it has a lower score than one
with it, or the same and stands behind it. -/
theorem head?_ranked_iff {P : α → Prop} (h : (ranked score l).head? = some a) :
    P a ↔ ∀ p b q, l = p ++ b :: q → ¬ P b →
      (∃ c ∈ p, P c ∧ score b ≤ score c) ∨ ∃ c ∈ q, P c ∧ score b < score c := by
  have hr : ∀ a ∈ l, ∀ b ∈ l,
      (score b ≤ score a ↔ OrderDual.toDual (score a) ≤ OrderDual.toDual (score b)) :=
    fun _ _ _ _ => Iff.rfl
  refine (head?_insertionSort_iff hr h).trans ?_
  simp only [Led, not_le]

end Ranked

section Champion
variable {α τ : Type*} [LinearOrder τ] (score : α → Option τ)

/-- One turn of a running maximum: an alternative with a score replaces the best one so far if its
score is higher. -/
def challenge (best : Option α × τ) (a : α) : Option α × τ :=
  match score a with
  | some x => if best.2 < x then (some a,x) else best
  | none => best

/-- The running maximum of the scores above a floor. -/
def champion (floor : τ) (l : List α) : Option α × τ := l.foldl (challenge score) (none,floor)

/-- An alternative has the highest score of a list, and it lies above a floor. -/
def IsHighest (floor : τ) (l : List α) (a : α) (x : τ) : Prop :=
  score a = some x ∧ floor < x ∧ ∀ b ∈ l, ∀ y, score b = some y → y ≤ x

theorem champion_concat (floor : τ) (l : List α) (a : α) :
    champion score floor (l ++ [a]) = challenge score (champion score floor l) a := by
  rw [champion, List.foldl_concat, champion]

theorem le_challenge (best : Option α × τ) (a : α) : best.2 ≤ (challenge score best a).2 := by
  rw [challenge]
  split
  · split_ifs with h
    · exact h.le
    · exact le_rfl
  · exact le_rfl

theorem score_le_challenge (best : Option α × τ) {a : α} {x : τ} (h : score a = some x) :
    x ≤ (challenge score best a).2 := by
  rw [challenge, h]
  dsimp only
  split_ifs with hx
  · exact le_rfl
  · exact not_lt.mp hx

theorem floor_le_champion (floor : τ) (l : List α) : floor ≤ (champion score floor l).2 := by
  induction l using List.reverseRecOn with
  | nil => exact le_rfl
  | append_singleton l a ih =>
    rw [champion_concat]
    exact ih.trans (le_challenge score _ a)

theorem score_le_champion (floor : τ) (l : List α) :
    ∀ b ∈ l, ∀ y, score b = some y → y ≤ (champion score floor l).2 := by
  induction l using List.reverseRecOn with
  | nil => exact fun b hb => absurd hb List.not_mem_nil
  | append_singleton l a ih =>
    intro b hb y hy
    rw [champion_concat]
    obtain hb | hb := List.mem_append.mp hb
    · exact (ih b hb y hy).trans (le_challenge score _ a)
    · rw [List.mem_singleton.mp hb] at hy
      exact score_le_challenge score _ hy

/-- Nothing has been found while the maximum is the floor. -/
theorem champion_eq_floor {floor : τ} {l : List α} (h : (champion score floor l).1 = none) :
    (champion score floor l).2 = floor := by
  induction l using List.reverseRecOn with
  | nil => rfl
  | append_singleton l a ih =>
    rw [champion_concat, challenge] at h ⊢
    cases hs : score a with
    | none =>
      rw [hs] at h
      exact ih h
    | some x =>
      rw [hs] at h
      dsimp only at h ⊢
      split_ifs at h ⊢
      exact ih h

/-- What is found is the first of the alternatives with the maximum. -/
theorem champion_first {floor : τ} {l : List α} {a : α}
    (h : (champion score floor l).1 = some a) :
    ∃ p q, l = p ++ a :: q ∧ score a = some (champion score floor l).2 ∧
      floor < (champion score floor l).2 ∧
      ∀ b ∈ p, ∀ y, score b = some y → y < (champion score floor l).2 := by
  induction l using List.reverseRecOn with
  | nil => cases h
  | append_singleton l c ih =>
    rw [champion_concat] at h ⊢
    by_cases hlt : ∃ x, score c = some x ∧ (champion score floor l).2 < x
    · obtain ⟨x,hx,hlt⟩ := hlt
      have hnew : challenge score (champion score floor l) c = (some c,x) := by
        rw [challenge, hx]
        exact if_pos hlt
      rw [hnew] at h ⊢
      obtain rfl := Option.some.inj h
      refine ⟨l,[],rfl,hx,(floor_le_champion score floor l).trans_lt hlt,?_⟩
      exact fun b hb y hy => (score_le_champion score floor l b hb y hy).trans_lt hlt
    · have hold : challenge score (champion score floor l) c = champion score floor l := by
        cases hs : score c with
        | none => rw [challenge, hs]
        | some x =>
          rw [challenge, hs]
          exact if_neg fun hx => hlt ⟨x,hs,hx⟩
      rw [hold] at h ⊢
      obtain ⟨p,q,hl,hrest⟩ := ih h
      exact ⟨p,q ++ [c],by rw [hl, List.append_assoc]; rfl,hrest⟩

/-- What is found has the highest score. -/
theorem champion_isHighest {floor : τ} {l : List α} {a : α}
    (h : (champion score floor l).1 = some a) :
    IsHighest score floor l a (champion score floor l).2 := by
  obtain ⟨_,_,-,hscore,hfloor,-⟩ := champion_first score h
  exact ⟨hscore,hfloor,score_le_champion score floor l⟩

/-- Something is found exactly if some alternative lies above the floor. -/
theorem champion_eq_none_iff {floor : τ} {l : List α} :
    (champion score floor l).1 = none ↔ ∀ b ∈ l, ∀ y, score b = some y → y ≤ floor := by
  constructor
  · intro h b hb y hy
    rw [← champion_eq_floor score h]
    exact score_le_champion score floor l b hb y hy
  · intro h
    rw [Option.eq_none_iff_forall_ne_some]
    intro a ha
    obtain ⟨p,q,rfl,hscore,hfloor,-⟩ := champion_first score ha
    exact (h a List.mem_append_cons_self _ hscore).not_gt hfloor

end Champion
end Arsonist.Library
