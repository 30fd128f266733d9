import Mathlib.Tactic

/-! A counter that goes up by one whenever it is shown a larger number, and what numbers it must
be shown, in what order, to get as high as the largest. -/
namespace Arsonist.Library

/-- The counter after the numbers, taken in order. -/
def climb (v : ℤ) (rs : List ℤ) : ℤ := rs.foldl (fun v r => if r ≤ v then v else v+1) v

@[simp] theorem climb_nil (v : ℤ) : climb v [] = v := rfl

theorem climb_cons (v r : ℤ) (rs : List ℤ) :
    climb v (r :: rs) = climb (if r ≤ v then v else v+1) rs := rfl

theorem climb_cons_of_le {v r : ℤ} (h : r ≤ v) (rs : List ℤ) : climb v (r :: rs) = climb v rs := by
  rw [climb_cons, if_pos h]

theorem climb_cons_of_lt {v r : ℤ} (h : v < r) (rs : List ℤ) :
    climb v (r :: rs) = climb (v+1) rs := by
  rw [climb_cons, if_neg (not_le.mpr h)]

theorem climb_mono {v w : ℤ} (h : v ≤ w) (rs : List ℤ) : climb v rs ≤ climb w rs := by
  induction rs generalizing v w with
  | nil => exact h
  | cons r rs ih =>
    rw [climb_cons, climb_cons]
    apply ih
    split_ifs <;> omega

theorem le_climb (v : ℤ) (rs : List ℤ) : v ≤ climb v rs := by
  induction rs generalizing v with
  | nil => exact le_rfl
  | cons r rs ih =>
    rw [climb_cons]
    refine le_trans ?_ (ih _)
    split_ifs <;> omega

/-- The counter does not get above what it is shown. -/
theorem climb_le {v m : ℤ} (hv : v ≤ m) {rs : List ℤ} (h : ∀ r ∈ rs, r ≤ m) : climb v rs ≤ m := by
  induction rs generalizing v with
  | nil => exact hv
  | cons r rs ih =>
    obtain ⟨hr,hrs⟩ := List.forall_mem_cons.mp h
    rw [climb_cons]
    refine ih ?_ hrs
    split_ifs <;> omega

theorem climb_append (v : ℤ) (rs rs' : List ℤ) :
    climb v (rs ++ rs') = climb (climb v rs) rs' := List.foldl_append

theorem climb_le_length (v : ℤ) (rs : List ℤ) : climb v rs ≤ v+rs.length := by
  induction rs generalizing v with
  | nil => simp
  | cons r rs ih =>
    rw [climb_cons, List.length_cons]
    refine (ih _).trans ?_
    push_cast
    split_ifs <;> omega

/-- The counter goes up with each of the numbers, if none is low. -/
theorem climb_of_high {v : ℤ} {rs : List ℤ} (h : ∀ r ∈ rs, v+rs.length ≤ r) :
    climb v rs = v+rs.length := by
  induction rs generalizing v with
  | nil => simp
  | cons r rs ih =>
    obtain ⟨hr,hrs⟩ := List.forall_mem_cons.mp h
    rw [List.length_cons] at hr hrs ⊢
    push_cast at hr hrs ⊢
    rw [climb_cons_of_lt (by omega), ih fun s hs => ?_]
    · omega
    · have := hrs s hs
      omega

/-- The counter has gone up with each number that is above its last state. -/
theorem countP_le_climb {v x : ℤ} {rs : List ℤ} (h : climb v rs ≤ x) :
    v+rs.countP (x < ·) ≤ climb v rs := by
  induction rs generalizing v with
  | nil => simp
  | cons r rs ih =>
    by_cases hr : r ≤ v
    · rw [climb_cons_of_le hr] at h ⊢
      have hx := (le_climb v rs).trans h
      rw [List.countP_cons_of_neg (by simp only [decide_eq_true_eq]; omega)]
      exact ih h
    · rw [climb_cons_of_lt (not_le.mp hr)] at h ⊢
      have hrest := ih h
      rw [List.countP_cons]
      split_ifs <;> push_cast <;> omega

/-- Of distinct numbers, at most one is above `x` and not above `x+1`. -/
theorem countP_le_succ {rs : List ℤ} (h : rs.Nodup) (x : ℤ) :
    rs.countP (x < ·) ≤ rs.countP (x+1 < ·)+1 := by
  have hcount : rs.countP (x < ·) = rs.countP (x+1 < ·)+rs.count (x+1) := by
    clear h
    induction rs with
    | nil => rfl
    | cons r rs ih =>
      simp only [List.countP_cons, List.count_cons, decide_eq_true_eq, beq_iff_eq, ih]
      split_ifs <;> omega
  rw [hcount]
  exact Nat.add_le_add_left (List.nodup_iff_count_le_one.mp h _) _

/-- Steps up from `v`: the first number is above `v`, the second above `v+1`, and so on. -/
def Staircase : ℤ → List ℤ → Prop
  | _, [] => True
  | v, r :: rs => v < r ∧ Staircase (v+1) rs

instance decidableStaircase : (v : ℤ) → (rs : List ℤ) → Decidable (Staircase v rs)
  | _, [] => .isTrue trivial
  | v, _ :: rs => @instDecidableAnd _ _ _ (decidableStaircase (v+1) rs)

/-- The counter takes the steps that are among the numbers, and may take others. -/
theorem Staircase.le_climb {v : ℤ} {steps rs : List ℤ} (h : Staircase v steps)
    (hsub : steps.Sublist rs) : v+steps.length ≤ climb v rs := by
  induction hsub generalizing v with
  | slnil => simp
  | cons r hsub ih =>
    refine (ih h).trans ?_
    rw [climb_cons]
    apply climb_mono
    split_ifs <;> omega
  | cons_cons r hsub ih =>
    rw [climb_cons_of_lt h.1, List.length_cons]
    have hrest := ih h.2
    push_cast
    omega

/-- The counter gets `n` steps up exactly when the numbers have `n` steps among them, in order. -/
theorem le_climb_iff (v : ℤ) (n : ℕ) (rs : List ℤ) :
    v+n ≤ climb v rs ↔ ∃ steps, steps.Sublist rs ∧ steps.length = n ∧ Staircase v steps := by
  constructor
  · intro h
    induction rs generalizing v n with
    | nil =>
      rw [climb_nil] at h
      exact ⟨[],List.Sublist.refl _,by rw [List.length_nil]; omega,trivial⟩
    | cons r rs ih =>
      by_cases hr : r ≤ v
      · rw [climb_cons_of_le hr] at h
        obtain ⟨steps,hsub,hlength,hsteps⟩ := ih v n h
        exact ⟨steps,hsub.cons r,hlength,hsteps⟩
      · rw [not_le] at hr
        cases n with
        | zero => exact ⟨[],List.nil_sublist _,rfl,trivial⟩
        | succ n =>
          rw [climb_cons_of_lt hr] at h
          obtain ⟨steps,hsub,hlength,hsteps⟩ := ih (v+1) n (by push_cast at h; omega)
          exact ⟨r :: steps,hsub.cons_cons r,by rw [List.length_cons, hlength],hr,hsteps⟩
  · rintro ⟨steps,hsub,rfl,hsteps⟩
    exact hsteps.le_climb hsub

end Arsonist.Library
