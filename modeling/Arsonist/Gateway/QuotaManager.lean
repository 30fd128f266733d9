import Arsonist.Billing.Metering

/-! Quotas of organisations: a limit of the subscription for the meter of a time window. -/
namespace Arsonist.Gateway
open Arsonist.Library Arsonist.Identity Arsonist.Billing

/-- The meters, and what the limits of an organisation are found in. -/
structure TenantMeters where
  meters : Meters
  registry : Registry
  custom : Table CustomLimits

/-- `float(_limits(org_id).get(name, default))`. -/
def TenantMeters.limit (s : TenantMeters) (orgId name : String) (default : ℚ) : ℚ :=
  ((getSubscription s.custom s.registry orgId).limits.lookup name).getD default

/-- A quota: its limit, and the meter of a window of some seconds. -/
structure Quota where
  name : String
  default : ℚ
  meter : String
  window : ℕ

namespace Quota
variable (quota : Quota)

/-- The meter of the window in which the time lies. -/
def key (now : ℚ) : String := quota.meter ++ toString ⌊now/quota.window⌋

def limit (s : TenantMeters) (orgId : String) : ℚ := s.limit orgId quota.name quota.default

/-- What the meter shows, as the quota check reads it. -/
def used (s : TenantMeters) (now : ℚ) (replies : RedisReplies) (orgId : String) : ℚ :=
  (s.meters.getMeter replies orgId (quota.key now)).2

/-- An amount is consumed if it fits; else the quota that is exceeded is named. Redis answers the
read and the increment on their own. -/
def consume (s : TenantMeters) (now : ℚ) (onGet onIncr : RedisReplies) (orgId : String) (n : ℚ) :
    TenantMeters × Bool × String :=
  let limit := quota.limit s orgId
  let (meters,used) := s.meters.getMeter onGet orgId (quota.key now)
  let s := { s with meters := meters }
  if limit < used+n then (s,false,quota.name)
  else
    ({ s with meters := (s.meters.incrMeter onIncr orgId (quota.key now) now n).1 },true,"")

end Quota

def tokensPerMinute : Quota :=
  { name := "tokens_per_minute", default := 10^9, meter := "tokens:", window := 60 }

def gpuSecondsPerDay : Quota :=
  { name := "gpu_seconds_per_day", default := 10^12, meter := "gpu_sec:", window := 86400 }

section Calls
variable (s : TenantMeters) (now : ℚ) (onGet onIncr : RedisReplies) (orgId : String)

def consumeTokens (n : ℚ) : TenantMeters × Bool × String :=
  tokensPerMinute.consume s now onGet onIncr orgId n

def checkGpuBudget (seconds : ℚ) : TenantMeters × Bool × String :=
  gpuSecondsPerDay.consume s now onGet onIncr orgId seconds

end Calls

namespace Quota
variable {quota : Quota} {s : TenantMeters} {now : ℚ} {onGet onIncr : RedisReplies}
  {orgId : String} {n : ℚ}

/-- An amount is accepted if it fits into what is left. -/
theorem consume_accepted :
    (quota.consume s now onGet onIncr orgId n).2.1 = true ↔
      quota.used s now onGet orgId+n ≤ quota.limit s orgId := by
  rw [consume, used]
  dsimp only
  split_ifs with h
  · exact iff_of_false not_false (not_le.mpr h)
  · exact iff_of_true rfl (not_lt.mp h)

end Quota
end Arsonist.Gateway
