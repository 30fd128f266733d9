import Mathlib.Analysis.Real.Sqrt
import Mathlib.Tactic

/-! The mean and the variance of a series, and how far its last value can lie from the mean that it
is itself part of: at most as many standard deviations as the square root of the number of the other
values. Standard deviations are compared by their squares, so that rationals stay rationals. -/
namespace Arsonist.Library

def mean (l : List ℚ) : ℚ := l.sum/l.length

/-- The sum of the squared differences from the mean. -/
def squares (l : List ℚ) : ℚ := (l.map fun x => (x-mean l)^2).sum

def variance (l : List ℚ) : ℚ := squares l/l.length

/-- The comparison `f*√v < x`. -/
def ExceedsRoot (f v x : ℚ) : Prop := if 0 ≤ f then 0 < x ∧ f^2*v < x^2 else 0 < x ∨ x^2 < f^2*v

instance (f v x : ℚ) : Decidable (ExceedsRoot f v x) :=
  inferInstanceAs (Decidable (if 0 ≤ f then 0 < x ∧ f^2*v < x^2 else 0 < x ∨ x^2 < f^2*v))

theorem exceedsRoot_iff {v : ℚ} (hv : 0 ≤ v) (f x : ℚ) :
    ExceedsRoot f v x ↔ (f : ℝ)*√(v : ℝ) < x := by
  have hv' : (0 : ℝ) ≤ v := by exact_mod_cast hv
  have hroot := Real.sqrt_nonneg (v : ℝ)
  have hsq : ((f : ℝ)*√(v : ℝ))^2 = f^2*v := by rw [mul_pow, Real.sq_sqrt hv']
  rw [ExceedsRoot]
  split_ifs with hf
  · have hf' : (0 : ℝ) ≤ f := by exact_mod_cast hf
    have hl : 0 ≤ (f : ℝ)*√(v : ℝ) := mul_nonneg hf' hroot
    constructor
    · rintro ⟨hx,hlt⟩
      have hx' : (0 : ℝ) < x := by exact_mod_cast hx
      have hlt' : ((f : ℝ)*√(v : ℝ))^2 < (x : ℝ)^2 := by rw [hsq]; exact_mod_cast hlt
      exact lt_of_pow_lt_pow_left₀ 2 hx'.le hlt'
    · intro hlt
      have hx : (0 : ℝ) < x := hl.trans_lt hlt
      have hlt' := pow_lt_pow_left₀ hlt hl two_ne_zero
      rw [hsq] at hlt'
      exact ⟨by exact_mod_cast hx,by exact_mod_cast hlt'⟩
  · have hf' : (f : ℝ) ≤ 0 := by exact_mod_cast (not_le.mp hf).le
    have hl : (f : ℝ)*√(v : ℝ) ≤ 0 := mul_nonpos_of_nonpos_of_nonneg hf' hroot
    have hf₀ : (f : ℝ) < 0 := by exact_mod_cast not_le.mp hf
    constructor
    · rintro (hx | hlt)
      · have hx' : (0 : ℝ) < x := by exact_mod_cast hx
        exact hl.trans_lt hx'
      · have hlt' : (x : ℝ)^2 < ((f : ℝ)*√(v : ℝ))^2 := by rw [hsq]; exact_mod_cast hlt
        have habs := abs_lt_of_sq_lt_sq (a := (x : ℝ)) (b := -((f : ℝ)*√(v : ℝ)))
          (by rwa [neg_sq]) (neg_nonneg.mpr hl)
        linarith [(abs_lt.mp habs).1]
    · intro hlt
      by_cases hx : 0 < x
      · exact Or.inl hx
      · right
        have hx' : (x : ℝ) ≤ 0 := by exact_mod_cast not_lt.mp hx
        have hlt' : (x : ℝ)^2 < ((f : ℝ)*√(v : ℝ))^2 := by nlinarith
        rw [hsq] at hlt'
        exact_mod_cast hlt'

theorem squares_nonneg (l : List ℚ) : 0 ≤ squares l :=
  List.sum_nonneg fun x hx => by
    obtain ⟨y,-,rfl⟩ := List.mem_map.mp hx
    exact sq_nonneg _

theorem variance_nonneg (l : List ℚ) : 0 ≤ variance l :=
  div_nonneg (squares_nonneg l) (Nat.cast_nonneg _)

theorem sum_sq_sub (l : List ℚ) (c : ℚ) :
    (l.map fun x => (x-c)^2).sum = (l.map fun x => x^2).sum-2*c*l.sum+l.length*c^2 := by
  induction l with
  | nil => simp
  | cons x l ih =>
    simp only [List.map_cons, List.sum_cons, List.length_cons, ih]
    push_cast
    ring

variable {l : List ℚ}

theorem length_pos (h : l ≠ []) : (0 : ℚ) < l.length := by
  exact_mod_cast List.length_pos_iff.mpr h

theorem squares_eq (h : l ≠ []) :
    squares l = (l.map fun x => x^2).sum-l.sum^2/l.length := by
  have hk := length_pos h
  rw [squares, sum_sq_sub, mean]
  field_simp
  ring

theorem length_concat (l : List ℚ) (v : ℚ) : ((l ++ [v]).length : ℚ) = l.length+1 := by
  rw [List.length_append, List.length_singleton, Nat.cast_add, Nat.cast_one]

/-- The mean moves towards a new value. -/
theorem sub_mean_concat (h : l ≠ []) (v : ℚ) :
    v-mean (l ++ [v]) = (v-mean l)*l.length/(l.length+1) := by
  have hk := length_pos h
  rw [mean, length_concat, List.sum_append, List.sum_singleton, mean]
  field_simp
  ring

theorem squares_concat (h : l ≠ []) (v : ℚ) :
    squares (l ++ [v]) = squares l+(v-mean l)^2*l.length/(l.length+1) := by
  have hk := length_pos h
  rw [squares_eq h, squares_eq (by simp), length_concat, List.map_append, List.sum_append,
    List.sum_append, List.map_singleton, List.sum_singleton, List.sum_singleton, mean]
  field_simp
  ring

/-- How far a new value lies from the mean, against the variance, both with the new value. -/
theorem sq_sub_mean_concat (h : l ≠ []) (f v : ℚ) :
    (v-mean (l ++ [v]))^2-f^2*variance (l ++ [v]) =
      ((v-mean l)^2*l.length*(l.length-f^2)-f^2*(l.length+1)*squares l)/(l.length+1)^2 := by
  have hk := length_pos h
  rw [variance, sub_mean_concat h, squares_concat h, length_concat]
  field_simp
  ring

/-- A value that is counted itself deviates by no more standard deviations than the square root of
the number of the others. -/
theorem not_exceedsRoot_concat {f : ℚ} (hf : 0 ≤ f) (h : l ≠ []) (hle : l.length ≤ f^2) (v : ℚ) :
    ¬ ExceedsRoot f (variance (l ++ [v])) |v-mean (l ++ [v])| := by
  rw [ExceedsRoot, if_pos hf, sq_abs]
  rintro ⟨-,hlt⟩
  have heq := sq_sub_mean_concat h f v
  have hk := length_pos h
  have hbound : ((v-mean l)^2*l.length*(l.length-f^2)-f^2*(l.length+1)*squares l)/
      (l.length+1)^2 ≤ 0 := by
    refine div_nonpos_of_nonpos_of_nonneg (sub_nonpos.mpr ?_) (by positivity)
    have hl : (v-mean l)^2*l.length*(l.length-f^2) ≤ 0 :=
      mul_nonpos_of_nonneg_of_nonpos (by positivity) (sub_nonpos.mpr hle)
    have hr : 0 ≤ f^2*(l.length+1)*squares l := mul_nonneg (by positivity) (squares_nonneg l)
    exact hl.trans hr
  linarith

/-- From here on a new value lies `f` standard deviations off, if that is possible at all. -/
def farBound (f : ℚ) (l : List ℚ) : ℚ :=
  mean l+1+f^2*(l.length+1)*squares l/(l.length*(l.length-f^2))

theorem exceedsRoot_concat {f : ℚ} (h : l ≠ []) (hlt : f < 0 ∨ f^2 < l.length) {v : ℚ}
    (hv : mean l < v) (hfar : 0 ≤ f → farBound f l < v) :
    ExceedsRoot f (variance (l ++ [v])) |v-mean (l ++ [v])| := by
  have hk := length_pos h
  have hpos : 0 < |v-mean (l ++ [v])| := by
    rw [sub_mean_concat h]
    exact abs_pos.mpr (div_pos (mul_pos (sub_pos.mpr hv) hk) (by linarith)).ne'
  rw [ExceedsRoot]
  by_cases hf : 0 ≤ f
  · rw [if_pos hf, sq_abs]
    refine ⟨hpos,?_⟩
    have hgap : 0 < l.length-f^2 := sub_pos.mpr (hlt.resolve_left hf.not_gt)
    have hd := hfar hf
    have hc : 0 ≤ f^2*(l.length+1)*squares l/(l.length*(l.length-f^2)) :=
      div_nonneg (mul_nonneg (by positivity) (squares_nonneg l)) (mul_pos hk hgap).le
    have hsq : f^2*(l.length+1)*squares l/(l.length*(l.length-f^2)) < (v-mean l)^2 := by
      rw [farBound] at hd
      nlinarith
    rw [div_lt_iff₀ (mul_pos hk hgap)] at hsq
    have heq := sq_sub_mean_concat h f v
    have hnum : 0 < ((v-mean l)^2*l.length*(l.length-f^2)-f^2*(l.length+1)*squares l)/
        (l.length+1)^2 := by
      refine div_pos ?_ (by positivity)
      linarith
    linarith
  · rw [if_neg hf]
    exact Or.inl hpos

/-- A value that differs from the mean of the others makes the series vary. -/
theorem variance_concat_pos (h : l ≠ []) {v : ℚ} (hv : v ≠ mean l) :
    0 < variance (l ++ [v]) := by
  have hk := length_pos h
  rw [variance, squares_concat h, length_concat]
  have hd : 0 < (v-mean l)^2 := by
    have hne : v-mean l ≠ 0 := sub_ne_zero.mpr hv
    positivity
  have hs := squares_nonneg l
  positivity

end Arsonist.Library
