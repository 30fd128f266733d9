import Arsonist.Library.CanonicalJson
import Arsonist.Scheduler.Weighted

/-! Rounding to some decimals, as the reports of several components do it. -/
namespace Arsonist.Shared

/-- `round(x, digits)`, over exact numbers. -/
def roundTo (digits : ℕ) (x : ℚ) : ℚ := Scheduler.roundHalfEven (x*10^digits)/10^digits

/-- `f"{x:.2f}"` for two digits. -/
def formatFixed (digits : ℕ) (x : ℚ) : String :=
  let n := (Scheduler.roundHalfEven (x*10^digits)).natAbs
  String.ofList ((if x < 0 then ['-'] else []) ++ Nat.toDigits 10 (n/10^digits) ++
    '.' :: Library.Json.padded digits (n%10^digits))

example : formatFixed 2 (9/10) = "0.90" := by decide +kernel

/-- `f"{x:.0f}"`. -/
def formatWhole (x : ℚ) : String :=
  (if x < 0 then "-" else "") ++ (Scheduler.roundHalfEven x).natAbs.repr

/-- `f"{x:.0%}"`. -/
def formatPercent (x : ℚ) : String := formatWhole (x*100) ++ "%"

theorem roundHalfEven_intCast (n : ℤ) : Scheduler.roundHalfEven n = n := by
  rw [Scheduler.roundHalfEven, Int.floor_intCast, sub_self]
  exact if_pos one_half_pos

/-- Rounding leaves just the numbers of so many decimals as they are. -/
theorem roundTo_eq_self_iff {digits : ℕ} {x : ℚ} :
    roundTo digits x = x ↔ ∃ n : ℤ, x = n/10^digits := by
  have hpow : (10 : ℚ)^digits ≠ 0 := pow_ne_zero digits (by norm_num)
  constructor
  · intro h
    exact ⟨_,h.symm⟩
  · rintro ⟨n,rfl⟩
    rw [roundTo, div_mul_cancel₀ _ hpow, roundHalfEven_intCast]

end Arsonist.Shared
