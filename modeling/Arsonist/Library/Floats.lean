import Mathlib.Algebra.Order.Ring.Rat
import Mathlib.Order.WithBot
import Mathlib.Tactic

/-! Floats as they are compared: a number, or one of the values that are none. No comparison with
`nan` holds. -/
namespace Arsonist.Library

inductive PyFloat
  | number (q : ℚ)
  | infinity (negative : Bool)
  | nan
  deriving DecidableEq

namespace PyFloat

/-- `x < y`. -/
def lt : PyFloat → PyFloat → Bool
  | .number p, .number q => p < q
  | .number _, .infinity negative => !negative
  | .infinity negative, .number _ => negative
  | .infinity negative, .infinity negative' => negative && !negative'
  | .nan, _ => false
  | _, .nan => false

/-- `x > bound`. -/
def exceeds (bound : ℚ) (x : PyFloat) : Bool := lt (.number bound) x

/-- `t + x`. -/
def after (t : ℚ) : PyFloat → PyFloat
  | .number q => .number (t+q)
  | x => x

/-- What exceeds a bound exceeds each lower one. -/
theorem exceeds_mono {s t : ℚ} {x : PyFloat} (hst : s ≤ t) (h : x.exceeds t = true) :
    x.exceeds s = true := by
  cases x with
  | number q => exact decide_eq_true (hst.trans_lt (of_decide_eq_true h))
  | infinity negative => exact h
  | nan => cases h

/-- The place of a float among the numbers and the two infinities. -/
def rank : PyFloat → WithBot (WithTop ℚ)
  | .number q => ((q : WithTop ℚ) : WithBot (WithTop ℚ))
  | .infinity true => ⊥
  | .infinity false => ((⊤ : WithTop ℚ) : WithBot (WithTop ℚ))
  | .nan => ⊥

theorem lt_iff_rank {x y : PyFloat} (hx : x ≠ .nan) (hy : y ≠ .nan) :
    x.lt y = true ↔ x.rank < y.rank := by
  cases x with
  | nan => exact absurd rfl hx
  | number p =>
    cases y with
    | nan => exact absurd rfl hy
    | number q => simp [lt, rank]
    | infinity negative =>
      cases negative with
      | true => simp [lt, rank]
      | false => exact iff_of_true rfl (WithBot.coe_lt_coe.mpr (WithTop.coe_lt_top p))
  | infinity negative =>
    cases y with
    | nan => exact absurd rfl hy
    | number q => cases negative <;> simp [lt, rank]
    | infinity negative' => cases negative <;> cases negative' <;> simp [lt, rank]

theorem ne_nan_of_lt {x y : PyFloat} (h : x.lt y = true) : x ≠ .nan := by
  rintro rfl
  cases y <;> cases h

end PyFloat
end Arsonist.Library
