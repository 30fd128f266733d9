import Arsonist.Gateway.QuotaManager
import Arsonist.Library.Sums

/-! Quota checks of several gateway workers at one Redis. A check reads the meter with one command
and increments it with another one; in between, other checks may increment the same meter. -/
namespace Arsonist.Gateway
open Arsonist.Library Arsonist.Billing

/-- Where a quota check stands. -/
inductive QuotaPoint
  | reading
  | incrementing
  | returned (accepted : Bool)
  deriving DecidableEq

/-- A quota check for an amount. -/
structure QuotaCall where
  amount : ℚ
  point : QuotaPoint := .reading

/-- The amount, once the check has returned that it is accepted. -/
def QuotaCall.accepted (p : QuotaCall) : ℚ := if p.point = .returned true then p.amount else 0

namespace Quota
variable (quota : Quota) (tenant : TenantMeters) (now : ℚ) (orgId : String)

/-- The meter of the window in Redis. -/
def redisKey : String := Meters.redisKey orgId (quota.key now)

/-- The next command of a check. -/
def next (redis : Table (Meter String)) (p : QuotaCall) : Table (Meter String) × QuotaCall :=
  match p.point with
  | .reading =>
    if quota.limit tenant orgId < Meter.read redis (quota.redisKey now orgId)+p.amount then
      (redis,{ p with point := .returned false })
    else (redis,{ p with point := .incrementing })
  | .incrementing =>
    (Meter.add redis (quota.redisKey now orgId) p.amount,{ p with point := .returned true })
  | .returned _ => (redis,p)

/-- The checks of an organisation in one window. Outside of them, other meters change. -/
def workers : Program (Table (Meter String)) QuotaCall (String × ℚ) ℚ Unit where
  outside redis e :=
    if e.1 = quota.redisKey now orgId then redis else Meter.add redis e.1 e.2
  enter amount := { amount := amount }
  next redis p _ := quota.next tenant now orgId redis p

/-- No check has been made, and no meter is there. -/
def idle : Pool (Table (Meter String)) QuotaCall := { shared := Table.empty }

abbrev QuotaEvent := PoolEvent (String × ℚ) ℚ Unit

/-- The meter shows what has been accepted. -/
def Metered (s : Pool (Table (Meter String)) QuotaCall) : Prop :=
  Meter.read s.shared (quota.redisKey now orgId) = s.total QuotaCall.accepted

def WithinLimit (s : Pool (Table (Meter String)) QuotaCall) : Prop :=
  s.total QuotaCall.accepted ≤ quota.limit tenant orgId

/-- The amount of a check that is about to increment the meter fits on top of what the meter shows
by now. -/
def FitsStill (s : Pool (Table (Meter String)) QuotaCall) (_ : ℕ) (p : QuotaCall) (_ : Unit) :
    Prop :=
  p.point = .incrementing →
    Meter.read s.shared (quota.redisKey now orgId)+p.amount ≤ quota.limit tenant orgId

variable {quota tenant now orgId} {s : Pool (Table (Meter String)) QuotaCall}

theorem metered_step (e : QuotaEvent) (h : quota.Metered now orgId s) :
    quota.Metered now orgId (s.step (quota.workers tenant now orgId) e) := by
  rw [Metered] at h ⊢
  cases e with
  | outside e =>
    rw [Pool.total_outside, ← h]
    change Meter.read (if e.1 = _ then _ else _) _ = _
    split_ifs with hkey
    · rfl
    · rw [Meter.read_add, if_neg (Ne.symm hkey), add_zero]
  | start amount =>
    rw [Pool.total_start, ← h]
    exact (add_zero _).symm
  | advance i input =>
    cases hp : s.procs[i]? with
    | none => rw [Pool.step_advance_none hp, h]
    | some p =>
      rw [Pool.total_advance _ hp, Pool.step_advance hp, ← h]
      change Meter.read (quota.next tenant now orgId s.shared p).1 _ = _+((quota.next tenant now
        orgId s.shared p).2.accepted-_)
      rw [next]
      cases hpoint : p.point with
      | reading =>
        dsimp only
        split_ifs
        · simp [QuotaCall.accepted, hpoint]
        · simp [QuotaCall.accepted, hpoint]
      | incrementing =>
        dsimp only
        rw [Meter.read_add]
        simp [QuotaCall.accepted, hpoint]
      | returned accepted => simp

/-- A command keeps the limit exactly when it is no increment that fits no longer. -/
theorem withinLimit_step (e : QuotaEvent) (hmetered : quota.Metered now orgId s)
    (h : quota.WithinLimit tenant orgId s) :
    quota.WithinLimit tenant orgId (s.step (quota.workers tenant now orgId) e) ↔
      Pool.AtAdvance (quota.FitsStill tenant now orgId) s e := by
  cases e with
  | outside e => exact iff_of_true h trivial
  | start amount =>
    refine iff_of_true ?_ trivial
    rw [WithinLimit, Pool.total_start]
    exact (add_zero _).trans_le h
  | advance i input =>
    refine Pool.advance_iff_atAdvance h fun p hp => ?_
    rw [WithinLimit] at h ⊢
    rw [Pool.total_advance _ hp, FitsStill, hmetered]
    change _+((quota.next tenant now orgId s.shared p).2.accepted-_) ≤ _ ↔ _
    rw [next]
    cases hpoint : p.point with
    | reading =>
      dsimp only
      split_ifs
      · simpa [QuotaCall.accepted, hpoint] using h
      · simpa [QuotaCall.accepted, hpoint] using h
    | incrementing => simp [QuotaCall.accepted, hpoint]
    | returned accepted => simpa using h

/-- What the checks of a window accept together never exceeds the limit exactly when, at each
increment, the amount fits on top of what the meter shows by then. -/
theorem withinLimit_iff (quota : Quota) (tenant : TenantMeters) (now : ℚ) (orgId : String)
    (events : List QuotaEvent) :
    (∀ p q, events = p ++ q →
      quota.WithinLimit tenant orgId (run (Pool.step (quota.workers tenant now orgId)) idle p)) ↔
      0 ≤ quota.limit tenant orgId ∧
        Along (Pool.step (quota.workers tenant now orgId))
          (Pool.AtAdvance (quota.FitsStill tenant now orgId)) idle events := by
  by_cases hlimit : 0 ≤ quota.limit tenant orgId
  · have hidle : quota.WithinLimit tenant orgId idle := hlimit
    rw [and_iff_right hlimit]
    refine (always_iff (P := quota.WithinLimit tenant orgId) hidle events).trans ?_
    refine along_congr (I := fun s => quota.Metered now orgId s ∧ quota.WithinLimit tenant orgId s)
      ?_ ?_ ⟨rfl,hidle⟩
    · exact fun s e hnext h => ⟨metered_step e h.1,hnext⟩
    · exact fun s e h => withinLimit_step e h.1 h.2
  · refine iff_of_false (fun h => hlimit ?_) fun h => hlimit h.1
    exact h [] events rfl

/-- A check that has Redis to itself does what the calls of the meter do. -/
theorem consume_alone {onGet onIncr : RedisReplies} (tenant : TenantMeters) (n : ℚ)
    (hget : tenant.meters.Reaches onGet)
    (hincr : (tenant.meters.getMeter onGet orgId (quota.key now)).1.Reaches onIncr) :
    Relation.ReflTransGen ((quota.workers tenant now orgId).Alone ())
      (tenant.meters.redis,{ amount := n })
      ((quota.consume tenant now onGet onIncr orgId n).1.meters.redis,
        { amount := n,
          point := .returned (quota.consume tenant now onGet onIncr orgId n).2.1 }) := by
  have hused : (tenant.meters.getMeter onGet orgId (quota.key now)).2 =
      Meter.read tenant.meters.redis (quota.redisKey now orgId) := by
    rw [Meters.getMeter_value, if_pos hget, redisKey]
  have hredis := Meters.redis_getMeter tenant.meters onGet orgId (quota.key now)
  rw [consume]
  dsimp only
  rw [hused]
  split_ifs with hfits
  · refine Relation.ReflTransGen.single ?_
    rw [Program.Alone, hredis]
    exact if_pos hfits
  · have hread : (quota.workers tenant now orgId).Alone ()
        (tenant.meters.redis,{ amount := n })
        (tenant.meters.redis,{ amount := n, point := .incrementing }) := if_neg hfits
    refine (Relation.ReflTransGen.single hread).tail ?_
    rw [Program.Alone, Meters.redis_incrMeter _ _ _ _ _ _ hincr, hredis]
    rfl

/-- An organisation with a limit of 100 tokens for a minute. -/
def hundredTokens : TenantMeters :=
  { meters := Meters.empty,
    registry := {},
    custom := Table.empty.put { orgId := "acme", limits := [("tokens_per_minute",100)] } }

/-- Two workers read the meter before one of them increments it. -/
def twoWorkers : List QuotaEvent :=
  [.start 99,.start 99,.advance 0 (),.advance 1 (),.advance 0 (),.advance 1 ()]

theorem accepted_twoWorkers :
    tokensPerMinute.limit hundredTokens "acme" = 100 ∧
      (run (Pool.step (tokensPerMinute.workers hundredTokens 0 "acme")) idle twoWorkers).total
        QuotaCall.accepted = 198 := by
  decide +kernel

end Quota
end Arsonist.Gateway
