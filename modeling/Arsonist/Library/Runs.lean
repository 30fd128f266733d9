import Mathlib.Data.List.Infix
import Mathlib.Tactic

/-! Deterministic machines driven by a list of inputs. Whatever is nondeterministic
in a system (the clock, the network, the scheduler) is part of its inputs, so that a
run is a list and a property of all runs is a property of all lists. -/
namespace Arsonist.Library

variable {σ ι : Type*} {exec : σ → ι → σ}

/-- The state reached from `s` after the inputs, taken in order. -/
def run (exec : σ → ι → σ) (s : σ) (inputs : List ι) : σ := inputs.foldl exec s

@[simp] theorem run_nil (s : σ) : run exec s [] = s := rfl

@[simp] theorem run_cons (s : σ) (i : ι) (is : List ι) :
    run exec s (i :: is) = run exec (exec s i) is := rfl

theorem run_append (s : σ) (is js : List ι) :
    run exec s (is ++ js) = run exec (run exec s is) js := List.foldl_append

theorem run_concat (s : σ) (is : List ι) (i : ι) :
    run exec s (is ++ [i]) = exec (run exec s is) i := by
  rw [run_append]; rfl

/-- Every step of the run is taken at a state and with an input that satisfy `C`. -/
def Along (exec : σ → ι → σ) (C : σ → ι → Prop) : σ → List ι → Prop
  | _, [] => True
  | s, i :: is => C s i ∧ Along exec C (exec s i) is

@[simp] theorem along_nil (C : σ → ι → Prop) (s : σ) : Along exec C s [] := trivial

@[simp] theorem along_cons (C : σ → ι → Prop) (s : σ) (i : ι) (is : List ι) :
    Along exec C s (i :: is) ↔ C s i ∧ Along exec C (exec s i) is := Iff.rfl

theorem along_append (C : σ → ι → Prop) (s : σ) (is js : List ι) :
    Along exec C s (is ++ js) ↔ Along exec C s is ∧ Along exec C (run exec s is) js := by
  induction is generalizing s with
  | nil => simp
  | cons i is ih => simp [ih, and_assoc]

instance {C : σ → ι → Prop} [∀ s i, Decidable (C s i)] (s : σ) (is : List ι) :
    Decidable (Along exec C s is) :=
  match is with
  | [] => .isTrue trivial
  | i :: is => @instDecidableAnd _ _ _ (instDecidableAlong (exec s i) is)

theorem along_true (s : σ) (is : List ι) : Along exec (fun _ _ => True) s is := by
  induction is generalizing s with
  | nil => trivial
  | cons i is ih => exact ⟨trivial,ih _⟩

/-- The step condition, read at each position of the run. -/
theorem along_iff (C : σ → ι → Prop) (s : σ) (is : List ι) :
    Along exec C s is ↔ ∀ p i q, is = p ++ i :: q → C (run exec s p) i := by
  induction is generalizing s with
  | nil => simp
  | cons j js ih =>
    rw [along_cons, ih]
    constructor
    · rintro ⟨hj,hjs⟩ p i q h
      cases p with
      | nil => cases h; exact hj
      | cons k p => cases h; exact hjs p i q rfl
    · intro h
      exact ⟨h [] j js rfl, fun p i q hp => h (j :: p) i q (by rw [hp]; rfl)⟩

/-- The step condition fails at some position of the run. -/
theorem not_along_iff (C : σ → ι → Prop) (s : σ) (is : List ι) :
    ¬Along exec C s is ↔ ∃ p i q, is = p ++ i :: q ∧ ¬C (run exec s p) i := by
  rw [along_iff]
  push Not
  rfl

theorem Along.mono {C D : σ → ι → Prop} (h : ∀ s i, C s i → D s i) {s : σ} {is : List ι}
    (hC : Along exec C s is) : Along exec D s is := by
  induction is generalizing s with
  | nil => trivial
  | cons i is ih => exact ⟨h _ _ hC.1, ih hC.2⟩

/-- The induction rule for runs: what each allowed step preserves holds at the end. -/
theorem run_invariant {C : σ → ι → Prop} {I : σ → Prop}
    (step : ∀ s i, C s i → I s → I (exec s i)) {s : σ} {is : List ι}
    (hC : Along exec C s is) (hs : I s) : I (run exec s is) := by
  induction is generalizing s with
  | nil => exact hs
  | cons i is ih => exact ih hC.2 (step s i hC.1 hs)

/-- An invariant of all steps holds after every run. -/
theorem run_always {I : σ → Prop} (step : ∀ s i, I s → I (exec s i)) {s : σ} (hs : I s)
    (is : List ι) : I (run exec s is) :=
  run_invariant (fun s i _ => step s i) (along_true s is) hs

theorem along_and (C D : σ → ι → Prop) (s : σ) (is : List ι) :
    Along exec (fun s i => C s i ∧ D s i) s is ↔ Along exec C s is ∧ Along exec D s is := by
  simp only [along_iff]
  constructor
  · intro h
    exact ⟨fun p i q hp => (h p i q hp).1,fun p i q hp => (h p i q hp).2⟩
  · rintro ⟨hC,hD⟩ p i q hp
    exact ⟨hC p i q hp,hD p i q hp⟩

/-- Two step conditions that agree where an invariant of the first holds. -/
theorem along_congr {C D : σ → ι → Prop} {I : σ → Prop}
    (step : ∀ s i, C s i → I s → I (exec s i)) (h : ∀ s i, I s → (C s i ↔ D s i))
    {s : σ} {is : List ι} (hs : I s) : Along exec C s is ↔ Along exec D s is := by
  induction is generalizing s with
  | nil => exact Iff.rfl
  | cons i is ih =>
    rw [along_cons, along_cons, h s i hs]
    exact and_congr_right fun hD => ih (step s i ((h s i hs).mpr hD) hs)

/-- What holds in every state of a run holds at its start and after each step. -/
theorem always_iff {P : σ → Prop} {s : σ} (hs : P s) (is : List ι) :
    (∀ p q, is = p ++ q → P (run exec s p)) ↔ Along exec (fun s i => P (exec s i)) s is := by
  rw [along_iff]
  constructor
  · intro h p i q hp
    have hnext := h (p ++ [i]) q (by rw [hp, List.append_assoc]; rfl)
    rwa [run_concat] at hnext
  · intro h p q hp
    cases p using List.reverseRecOn with
    | nil => exact hs
    | append_singleton p i =>
      rw [run_concat]
      exact h p i q (by rw [hp, List.append_assoc]; rfl)

/-- What stays once it holds is what each step keeps. -/
theorem stays_iff {α : Type*} (P : α → σ → Prop) (s : σ) (is : List ι) :
    (∀ p q r, is = p ++ q ++ r → ∀ x, P x (run exec s p) → P x (run exec s (p ++ q))) ↔
      Along exec (fun s i => ∀ x, P x s → P x (exec s i)) s is := by
  rw [along_iff]
  constructor
  · intro h p i q hp x hx
    have hnext := h p [i] q (by rw [hp, List.append_assoc]; rfl) x hx
    rwa [run_concat] at hnext
  · intro h p q r hp x hx
    induction q using List.reverseRecOn generalizing r with
    | nil => rwa [List.append_nil]
    | append_singleton q i ih =>
      rw [← List.append_assoc, run_concat]
      exact h (p ++ q) i r (by rw [hp]; simp) x (ih (i :: r) (by rw [hp]; simp))

/-- What comes with some steps and goes with others is there after a run if it has come, or was
there at the start, and has not gone since. -/
theorem present_run_iff {P : σ → Prop} {comes goes : σ → ι → Prop}
    (step : ∀ s i, P (exec s i) ↔ comes s i ∨ P s ∧ ¬goes s i) (s : σ) (is : List ι) :
    P (run exec s is) ↔ (P s ∧ Along exec (fun s i => ¬goes s i) s is) ∨
      ∃ p i q, is = p ++ i :: q ∧ comes (run exec s p) i ∧
        Along exec (fun s i => ¬goes s i) (run exec s (p ++ [i])) q := by
  induction is generalizing s with
  | nil => simp
  | cons j js ih =>
    rw [run_cons, ih, step]
    constructor
    · rintro (⟨hcomes | ⟨hs,hstays⟩,halong⟩ | ⟨p,i,q,rfl,hcomes,halong⟩)
      · exact Or.inr ⟨[],j,js,rfl,hcomes,halong⟩
      · exact Or.inl ⟨hs,hstays,halong⟩
      · exact Or.inr ⟨j :: p,i,q,rfl,hcomes,halong⟩
    · rintro (⟨hs,hstays,halong⟩ | ⟨p,i,q,hp,hcomes,halong⟩)
      · exact Or.inl ⟨Or.inr ⟨hs,hstays⟩,halong⟩
      · cases p with
        | nil =>
          obtain ⟨rfl,rfl⟩ := List.cons.inj hp
          exact Or.inl ⟨Or.inl hcomes,halong⟩
        | cons k p =>
          obtain ⟨rfl,rfl⟩ := List.cons.inj hp
          exact Or.inr ⟨p,i,q,rfl,hcomes,halong⟩

/-- A state reached from `init` by some run whose steps all satisfy `C`. -/
def Reachable (exec : σ → ι → σ) (C : σ → ι → Prop) (init s : σ) : Prop :=
  ∃ is, Along exec C init is ∧ run exec init is = s

theorem Reachable.invariant {C : σ → ι → Prop} {I : σ → Prop} {init s : σ}
    (step : ∀ s i, C s i → I s → I (exec s i)) (hinit : I init)
    (h : Reachable exec C init s) : I s := by
  obtain ⟨is,hC,rfl⟩ := h
  exact run_invariant step hC hinit

theorem Reachable.step {C : σ → ι → Prop} {init s : σ} {i : ι}
    (h : Reachable exec C init s) (hi : C s i) : Reachable exec C init (exec s i) := by
  obtain ⟨is,hC,rfl⟩ := h
  exact ⟨is ++ [i], (along_append C init is [i]).mpr ⟨hC,hi,trivial⟩, run_concat init is i⟩

end Arsonist.Library
