import Mathlib.Data.List.Count
import Arsonist.Library.Runs

/-! The steps of a run, and how often something happens in it. What a run did is read off its
steps, so that the machine itself needs no record of it. In a pass over a snapshot, where a turn
touches nothing but what belongs to its own element, each element meets what was there when the
snapshot was taken. -/
namespace Arsonist.Library

variable {σ ι : Type*} {exec : σ → ι → σ}

/-- The steps of a run: each input with the state in which it is taken. -/
def steps (exec : σ → ι → σ) : σ → List ι → List (σ × ι)
  | _, [] => []
  | s, i :: is => (s,i) :: steps exec (exec s i) is

@[simp] theorem steps_nil (s : σ) : steps exec s [] = [] := rfl

@[simp] theorem steps_cons (s : σ) (i : ι) (is : List ι) :
    steps exec s (i :: is) = (s,i) :: steps exec (exec s i) is := rfl

theorem steps_append (s : σ) (is js : List ι) :
    steps exec s (is ++ js) = steps exec s is ++ steps exec (run exec s is) js := by
  induction is generalizing s with
  | nil => rfl
  | cons i is ih => rw [List.cons_append, steps_cons, ih]; rfl

theorem steps_concat (s : σ) (is : List ι) (i : ι) :
    steps exec s (is ++ [i]) = steps exec s is ++ [(run exec s is,i)] := steps_append s is [i]

/-- A step of a run is one of its inputs, in the state that those before it lead to. -/
theorem mem_steps {s t : σ} {is : List ι} {i : ι} :
    (t,i) ∈ steps exec s is ↔ ∃ p q, is = p ++ i :: q ∧ t = run exec s p := by
  induction is generalizing s with
  | nil => simp
  | cons j js ih =>
    rw [steps_cons, List.mem_cons, ih]
    constructor
    · rintro (h | ⟨p,q,rfl,rfl⟩)
      · obtain ⟨rfl,rfl⟩ := Prod.mk.inj h
        exact ⟨[],js,rfl,rfl⟩
      · exact ⟨j :: p,q,rfl,rfl⟩
    · rintro ⟨p,q,h,rfl⟩
      cases p with
      | nil =>
        obtain ⟨rfl,rfl⟩ := List.cons.inj h
        exact Or.inl rfl
      | cons k p =>
        obtain ⟨rfl,rfl⟩ := List.cons.inj h
        exact Or.inr ⟨p,q,rfl,rfl⟩

theorem along_iff_steps (C : σ → ι → Prop) (s : σ) (is : List ι) :
    Along exec C s is ↔ ∀ x ∈ steps exec s is, C x.1 x.2 := by
  rw [along_iff]
  constructor
  · rintro h ⟨t,i⟩ hx
    obtain ⟨p,q,hp,rfl⟩ := mem_steps.mp hx
    exact h p i q hp
  · intro h p i q hp
    exact h (run exec s p,i) (mem_steps.mpr ⟨p,q,hp,rfl⟩)

/-- A condition on the inputs alone. -/
theorem along_of_forall {Q : ι → Prop} {is : List ι} (h : ∀ i ∈ is, Q i) (s : σ) :
    Along exec (fun _ i => Q i) s is := by
  rw [along_iff]
  rintro p i q rfl
  exact h i (List.mem_append_right p List.mem_cons_self)

/-- An invariant of the allowed steps holds before each of them. -/
theorem Along.with_invariant {C : σ → ι → Prop} {I : σ → Prop}
    (step : ∀ s i, C s i → I s → I (exec s i)) {s : σ} {is : List ι} (hs : I s)
    (hC : Along exec C s is) : Along exec (fun s i => C s i ∧ I s) s is := by
  induction is generalizing s with
  | nil => trivial
  | cons i is ih => exact ⟨⟨hC.1,hs⟩,ih (step s i hC.1 hs) hC.2⟩

/-- A condition on each element of a list and those before it, when one more is added. -/
theorem forall_split_concat {α : Type*} {P : List α → α → Prop} {l : List α} {x : α} :
    (∀ p a q, l ++ [x] = p ++ a :: q → P p a) ↔ (∀ p a q, l = p ++ a :: q → P p a) ∧ P l x := by
  constructor
  · intro h
    refine ⟨fun p a q hl => h p a (q ++ [x]) ?_,h l x [] rfl⟩
    rw [hl, List.append_assoc]
    rfl
  · rintro ⟨h,hx⟩ p a q hl
    cases q using List.reverseRecOn with
    | nil =>
      obtain ⟨rfl,hxa⟩ := List.append_inj' hl rfl
      cases hxa
      exact hx
    | append_singleton q b =>
      rw [← List.cons_append, ← List.append_assoc] at hl
      exact h p a q (List.append_inj' hl rfl).1

/-- An element of a list, with those before and after it, when one more is added. -/
theorem exists_split_concat {α : Type*} {P : List α → α → List α → Prop} {l : List α} {x : α} :
    (∃ p a q, l ++ [x] = p ++ a :: q ∧ P p a q) ↔
      P l x [] ∨ ∃ p a q, l = p ++ a :: q ∧ P p a (q ++ [x]) := by
  constructor
  · rintro ⟨p,a,q,hl,h⟩
    cases q using List.reverseRecOn with
    | nil =>
      obtain ⟨rfl,hxa⟩ := List.append_inj' hl rfl
      cases hxa
      exact Or.inl h
    | append_singleton q b =>
      rw [← List.cons_append, ← List.append_assoc] at hl
      obtain ⟨hrest,hxb⟩ := List.append_inj' hl rfl
      cases hxb
      exact Or.inr ⟨p,a,q,hrest,h⟩
  · rintro (h | ⟨p,a,q,rfl,h⟩)
    · exact ⟨l,x,[],rfl,h⟩
    · exact ⟨p,a,q ++ [x],List.append_assoc _ _ _,h⟩

/-- The same condition, read at each index. -/
theorem forall_split_iff {α : Type*} {P : List α → α → Prop} {l : List α} :
    (∀ p a q, l = p ++ a :: q → P p a) ↔ ∀ k, ∀ hk : k < l.length, P (l.take k) l[k] := by
  constructor
  · intro h k hk
    exact h (l.take k) l[k] (l.drop (k+1))
      (by rw [List.cons_getElem_drop_succ, List.take_append_drop])
  · rintro h p a q rfl
    simpa using h p.length (by simp)

instance decidableForallSplit {α : Type*} {P : List α → α → Prop} [∀ p a, Decidable (P p a)]
    (l : List α) : Decidable (∀ p a q, l = p ++ a :: q → P p a) :=
  decidable_of_iff _ forall_split_iff.symm

/-- A value that some steps set and others keep, in a changed form, is what the last step that set
it and those after it have made of it. -/
theorem tracked_iff {β : Type*} {v : σ → Option β} {sets : ι → Option β}
    {keeps : σ → ι → Prop} {change : β → ι → β} {I : σ → Prop}
    (inv : ∀ s i, I s → I (exec s i))
    (step : ∀ s i b, I s → (v (exec s i) = some b ↔
      sets i = some b ∨ keeps s i ∧ ∃ a, v s = some a ∧ change a i = b))
    {s : σ} (hI : I s) (hs : v s = none) (is : List ι) (b : β) :
    v (run exec s is) = some b ↔ ∃ p i q, is = p ++ i :: q ∧ ∃ a, sets i = some a ∧
      Along exec keeps (run exec s (p ++ [i])) q ∧ run change a q = b := by
  induction is using List.reverseRecOn generalizing b with
  | nil => simp [hs]
  | append_singleton is j ih =>
    rw [run_concat, step _ _ _ (run_always inv hI is), exists_split_concat]
    refine or_congr ?_ ?_
    · simp
    · simp only [ih, run_concat, along_append, along_cons, along_nil, and_true]
      constructor
      · rintro ⟨hkeeps,a,⟨p,i,q,rfl,c,hset,halong,rfl⟩,rfl⟩
        rw [run_append, run_cons] at hkeeps
        exact ⟨p,i,q,rfl,c,hset,⟨halong,hkeeps⟩,rfl⟩
      · rintro ⟨p,i,q,rfl,c,hset,⟨halong,hkeeps⟩,rfl⟩
        rw [run_append, run_cons]
        exact ⟨hkeeps,_,⟨p,i,q,rfl,c,hset,halong,rfl⟩,rfl⟩

section Emitted
variable {β : Type*}

/-- What the steps of a run give out. -/
def emitted (exec : σ → ι → σ) (out : σ → ι → Option β) (s : σ) (is : List ι) : List β :=
  (steps exec s is).filterMap fun x => out x.1 x.2

@[simp] theorem emitted_nil (out : σ → ι → Option β) (s : σ) : emitted exec out s [] = [] := rfl

theorem emitted_cons (out : σ → ι → Option β) (s : σ) (i : ι) (is : List ι) :
    emitted exec out s (i :: is) = (out s i).toList ++ emitted exec out (exec s i) is := by
  rw [emitted, steps_cons, List.filterMap_cons]
  cases out s i <;> rfl

theorem emitted_concat (out : σ → ι → Option β) (s : σ) (is : List ι) (i : ι) :
    emitted exec out s (is ++ [i]) =
      emitted exec out s is ++ (out (run exec s is) i).toList := by
  rw [emitted, steps_concat, List.filterMap_append, List.filterMap_cons]
  cases out (run exec s is) i <;> rfl

end Emitted

section Occurrences
variable {P : σ → ι → Prop} [∀ s i, Decidable (P s i)]

/-- How many steps of a run are of some kind. -/
def occurrences (exec : σ → ι → σ) (P : σ → ι → Prop) [∀ s i, Decidable (P s i)] (s : σ)
    (is : List ι) : ℕ := (steps exec s is).countP fun x => P x.1 x.2

@[simp] theorem occurrences_nil (s : σ) : occurrences exec P s [] = 0 := rfl

theorem occurrences_cons (s : σ) (i : ι) (is : List ι) :
    occurrences exec P s (i :: is) = (if P s i then 1 else 0)+occurrences exec P (exec s i) is := by
  rw [occurrences, steps_cons, List.countP_cons, Nat.add_comm]
  simp only [decide_eq_true_eq]
  rfl

theorem occurrences_append (s : σ) (is js : List ι) :
    occurrences exec P s (is ++ js) =
      occurrences exec P s is+occurrences exec P (run exec s is) js := by
  rw [occurrences, steps_append, List.countP_append]
  rfl

theorem occurrences_concat (s : σ) (is : List ι) (i : ι) :
    occurrences exec P s (is ++ [i]) =
      occurrences exec P s is+if P (run exec s is) i then 1 else 0 := by
  rw [occurrences_append, occurrences_cons, occurrences_nil, Nat.add_zero]

theorem occurrences_eq_zero {s : σ} {is : List ι} :
    occurrences exec P s is = 0 ↔ Along exec (fun s i => ¬ P s i) s is := by
  rw [occurrences, List.countP_eq_zero, along_iff_steps]
  simp only [decide_eq_true_eq]

/-- What cannot happen once `D` holds does not happen. -/
theorem occurrences_eq_zero_of_done {C : σ → ι → Prop} {D : σ → Prop}
    (keep : ∀ s i, C s i → D s → D (exec s i)) (never : ∀ s i, C s i → D s → ¬ P s i)
    {s : σ} {is : List ι} (hs : D s) (hC : Along exec C s is) : occurrences exec P s is = 0 := by
  rw [occurrences_eq_zero]
  exact (hC.with_invariant keep hs).mono fun s i h => never s i h.1 h.2

/-- What leads to a state in which it cannot happen again happens at most once. -/
theorem occurrences_le_one {C : σ → ι → Prop} {D : σ → Prop}
    (after : ∀ s i, C s i → P s i → D (exec s i)) (keep : ∀ s i, C s i → D s → D (exec s i))
    (never : ∀ s i, C s i → D s → ¬ P s i) {s : σ} {is : List ι} (hC : Along exec C s is) :
    occurrences exec P s is ≤ 1 := by
  induction is generalizing s with
  | nil => exact Nat.zero_le 1
  | cons i is ih =>
    rw [occurrences_cons]
    split_ifs with h
    · rw [occurrences_eq_zero_of_done keep never (after s i hC.1 h) hC.2]
    · rw [Nat.zero_add]
      exact ih hC.2

end Occurrences

variable {σ α κ β : Type*} {turn : σ → α → σ} {key : α → κ} {view : σ → κ → β}

/-- Each turn touches what belongs to its own key and nothing else. -/
def TouchesOwn (turn : σ → α → σ) (key : α → κ) (view : σ → κ → β) : Prop :=
  ∀ s a k, k ≠ key a → view (turn s a) k = view s k

namespace TouchesOwn
variable (h : TouchesOwn turn key view) {s : σ}
include h

theorem view_run {as : List α} {k : κ} (hk : k ∉ as.map key) :
    view (run turn s as) k = view s k := by
  induction as generalizing s with
  | nil => rfl
  | cons a as ih =>
    rw [List.map_cons, List.mem_cons, not_or] at hk
    rw [run_cons, ih hk.2, h s a k hk.1]

/-- What belongs to an element is as it was when its turn comes. -/
theorem view_turn {p q : List α} {a : α} (hn : ((p ++ a :: q).map key).Nodup) :
    view (run turn s p) (key a) = view s (key a) := by
  rw [List.map_append, List.map_cons, List.nodup_middle, List.nodup_cons, List.mem_append,
    not_or] at hn
  exact h.view_run hn.1.1

/-- What belongs to an element is in the end as its turn left it. -/
theorem view_end {p q : List α} {a : α} (hn : ((p ++ a :: q).map key).Nodup) :
    view (run turn s (p ++ a :: q)) (key a) = view (turn (run turn s p) a) (key a) := by
  rw [List.map_append, List.map_cons, List.nodup_middle, List.nodup_cons, List.mem_append,
    not_or] at hn
  rw [run_append, run_cons]
  exact h.view_run hn.1.2

end TouchesOwn
end Arsonist.Library
