import Mathlib.Algebra.Order.Archimedean.Basic
import Mathlib.Tactic
import Arsonist.Library.Runs

/-! Exponential smoothing. A smoothed value lies between the values it was made from, and what it
was before fades out geometrically, so that observations above a level lift it over each lower one
in a number of steps that does not depend on them. -/
namespace Arsonist.Library

variable {K : Type*} [Field K] [LinearOrder K] [IsStrictOrderedRing K] {α x v lo hi level : K}
  {vs : List K}

/-- The smoothed value after one more observation. -/
def smooth (α x v : K) : K := α*v+(1-α)*x

theorem smooth_le (h₀ : 0 ≤ α) (h₁ : α ≤ 1) (hx : x ≤ hi) (hv : v ≤ hi) : smooth α x v ≤ hi := by
  have hnew := mul_le_mul_of_nonneg_left hv h₀
  have hold := mul_le_mul_of_nonneg_left hx (sub_nonneg.mpr h₁)
  rw [smooth]
  linarith

theorem le_smooth (h₀ : 0 ≤ α) (h₁ : α ≤ 1) (hx : lo ≤ x) (hv : lo ≤ v) : lo ≤ smooth α x v := by
  have hnew := mul_le_mul_of_nonneg_left hv h₀
  have hold := mul_le_mul_of_nonneg_left hx (sub_nonneg.mpr h₁)
  rw [smooth]
  linarith

theorem smooth_lt (h₀ : 0 ≤ α) (h₁ : α ≤ 1) (hx : x < hi) (hv : v < hi) : smooth α x v < hi :=
  (smooth_le h₀ h₁ (le_max_right v x) (le_max_left v x)).trans_lt (max_lt hv hx)

theorem le_run_smooth (h₀ : 0 ≤ α) (h₁ : α ≤ 1) (hx : lo ≤ x) (hvs : ∀ v ∈ vs, lo ≤ v) :
    lo ≤ run (smooth α) x vs := by
  induction vs generalizing x with
  | nil => exact hx
  | cons v vs ih =>
    obtain ⟨hv,hvs⟩ := List.forall_mem_cons.mp hvs
    exact ih (le_smooth h₀ h₁ hx hv) hvs

/-- A smoothed value is at most one of the values it was made from. -/
theorem exists_run_smooth_le (h₀ : 0 ≤ α) (h₁ : α ≤ 1) (x : K) (vs : List K) :
    ∃ y ∈ x :: vs, run (smooth α) x vs ≤ y := by
  induction vs generalizing x with
  | nil => exact ⟨x,List.mem_cons_self,le_rfl⟩
  | cons v vs ih =>
    obtain ⟨y,hy,hle⟩ := ih (smooth α x v)
    obtain rfl | hy := List.mem_cons.mp hy
    · obtain hxv | hvx := le_total x v
      · exact ⟨v,by simp,hle.trans (smooth_le h₀ h₁ hxv le_rfl)⟩
      · exact ⟨x,by simp,hle.trans (smooth_le h₀ h₁ le_rfl hvx)⟩
    · exact ⟨y,by simp [hy],hle⟩

/-- And it is at least one of them. -/
theorem exists_le_run_smooth (h₀ : 0 ≤ α) (h₁ : α ≤ 1) (x : K) (vs : List K) :
    ∃ y ∈ x :: vs, y ≤ run (smooth α) x vs := by
  induction vs generalizing x with
  | nil => exact ⟨x,List.mem_cons_self,le_rfl⟩
  | cons v vs ih =>
    obtain ⟨y,hy,hle⟩ := ih (smooth α x v)
    obtain rfl | hy := List.mem_cons.mp hy
    · obtain hxv | hvx := le_total x v
      · exact ⟨x,by simp,(le_smooth h₀ h₁ le_rfl hxv).trans hle⟩
      · exact ⟨v,by simp,(le_smooth h₀ h₁ hvx le_rfl).trans hle⟩
    · exact ⟨y,by simp [hy],hle⟩

/-- What is missing to a level that no observation is below shrinks with each of them. -/
theorem sub_run_smooth_le (h₀ : 0 ≤ α) (h₁ : α ≤ 1) (hvs : ∀ v ∈ vs, level ≤ v) :
    level-run (smooth α) x vs ≤ (1-α)^vs.length*(level-x) := by
  induction vs generalizing x with
  | nil => simp
  | cons v vs ih =>
    obtain ⟨hv,hvs⟩ := List.forall_mem_cons.mp hvs
    have hone : level-smooth α x v ≤ (1-α)*(level-x) := by
      have hnew := mul_le_mul_of_nonneg_left hv h₀
      rw [smooth]
      linarith
    calc
      level-run (smooth α) (smooth α x v) vs ≤ (1-α)^vs.length*(level-smooth α x v) := ih hvs
      _ ≤ (1-α)^vs.length*((1-α)*(level-x)) :=
        mul_le_mul_of_nonneg_left hone (pow_nonneg (sub_nonneg.mpr h₁) _)
      _ = (1-α)^(v :: vs).length*(level-x) := by rw [List.length_cons, pow_succ, mul_assoc]

/-- After so many observations of a level or more, the smoothed value is over each lower bound. -/
theorem exists_lt_run_smooth [Archimedean K] (h₀ : 0 < α) (h₁ : α ≤ 1) (lo : K) {bound : K}
    (h : bound < level) : ∃ n : ℕ, ∀ x vs, lo ≤ x → n ≤ vs.length → (∀ v ∈ vs, level ≤ v) →
      bound < run (smooth α) x vs := by
  have hrest : 1-α < 1 := sub_lt_self 1 h₀
  have hnonneg : 0 ≤ 1-α := sub_nonneg.mpr h₁
  have hgap : 0 < max 0 (level-lo)+1 := by positivity
  obtain ⟨n,hn⟩ := exists_pow_lt_of_lt_one (div_pos (sub_pos.mpr h) hgap) hrest
  refine ⟨n,fun x vs hx hlen hvs => ?_⟩
  have hsub := sub_run_smooth_le (x := x) h₀.le h₁ hvs
  have hpow : (1-α)^vs.length ≤ (1-α)^n := pow_le_pow_of_le_one hnonneg hrest.le hlen
  have hstart : level-x ≤ max 0 (level-lo)+1 := by
    have := le_max_right 0 (level-lo)
    linarith
  have hsmall : (1-α)^vs.length*(level-x) < level-bound :=
    calc
      (1-α)^vs.length*(level-x) ≤ (1-α)^vs.length*(max 0 (level-lo)+1) :=
        mul_le_mul_of_nonneg_left hstart (pow_nonneg hnonneg _)
      _ ≤ (1-α)^n*(max 0 (level-lo)+1) := mul_le_mul_of_nonneg_right hpow hgap.le
      _ < level-bound := (lt_div_iff₀ hgap).mp hn
  linarith

end Arsonist.Library
