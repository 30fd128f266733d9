import Arsonist.Gateway.QuotaManager
import Arsonist.Library.Sums

/-! Requests of an organisation in flight at several gateway workers. Redis counts them: a request
reads the counter, increments it, is handled, reads it again and decrements it. -/
namespace Arsonist.Gateway
open Arsonist.Library Arsonist.Billing

/-- Where a request stands. A request that is handled, with or without an exception, goes on to
`decr_concurrency`. -/
inductive RequestPoint
  | checking
  | refused
  | incrementing
  | handling
  | leaving
  | decrementing
  | done
  deriving DecidableEq

namespace RequestPoint

/-- One for a request between its increment and its decrement. -/
def inflight : RequestPoint → ℤ
  | handling | leaving | decrementing => 1
  | checking | refused | incrementing | done => 0

theorem inflight_nonneg (p : RequestPoint) : 0 ≤ p.inflight := by
  cases p <;> decide

end RequestPoint

/-- `int(lim.get("max_concurrency", 64))`. -/
def maxConcurrency (tenant : TenantMeters) (orgId : String) : ℤ :=
  Text.truncate (tenant.limit orgId "max_concurrency" 64)

namespace Inflight
variable (tenant : TenantMeters) (orgId : String)

/-- The next command of a request on the counter of its organisation. -/
def next (counter : ℤ) : RequestPoint → ℤ × RequestPoint
  | .checking =>
    if maxConcurrency tenant orgId ≤ counter then (counter,.refused) else (counter,.incrementing)
  | .incrementing => (counter+1,.handling)
  | .handling => (counter,.leaving)
  | .leaving => if 0 < counter then (counter,.decrementing) else (counter,.done)
  | .decrementing => (counter-1,.done)
  | .refused => (counter,.refused)
  | .done => (counter,.done)

def workers : Program ℤ RequestPoint Empty Unit Unit where
  outside counter _ := counter
  enter _ := .checking
  next counter p _ := next tenant orgId counter p

/-- No request has come, and a counter that is not there counts as zero. -/
def idle : Pool ℤ RequestPoint := { shared := 0 }

abbrev InflightEvent := PoolEvent Empty Unit Unit

/-- How many requests are between their increment and their decrement. -/
def requests (s : Pool ℤ RequestPoint) : ℤ := s.total RequestPoint.inflight

/-- The counter is exact. -/
def Counted (s : Pool ℤ RequestPoint) : Prop := s.shared = requests s

def WithinBound (s : Pool ℤ RequestPoint) : Prop := requests s ≤ maxConcurrency tenant orgId

/-- The counter is still below the bound when a request increments it. -/
def RoomStill (s : Pool ℤ RequestPoint) (_ : ℕ) (p : RequestPoint) (_ : Unit) : Prop :=
  p = .incrementing → s.shared < maxConcurrency tenant orgId

instance (s : Pool ℤ RequestPoint) (i : ℕ) (p : RequestPoint) (input : Unit) :
    Decidable (RoomStill tenant orgId s i p input) := inferInstanceAs (Decidable (_ → _))

variable {tenant orgId} {s : Pool ℤ RequestPoint}

/-- A request that is in flight is counted. -/
theorem inflight_le_requests {p : RequestPoint} (h : p ∈ s.procs) : p.inflight ≤ requests s := by
  refine List.single_le_sum ?_ _ (List.mem_map_of_mem h)
  intro n hn
  obtain ⟨q,-,rfl⟩ := List.mem_map.mp hn
  exact q.inflight_nonneg

/-- The counter stays exact: a request in flight finds itself counted when it leaves. -/
theorem counted_step (e : InflightEvent) (h : Counted s) :
    Counted (s.step (workers tenant orgId) e) := by
  rw [Counted, requests] at h ⊢
  cases e with
  | outside e => exact e.elim
  | start request =>
    rw [Pool.total_start, ← h]
    exact (add_zero _).symm
  | advance i input =>
    cases hp : s.procs[i]? with
    | none => rw [Pool.step_advance_none hp, h]
    | some p =>
      have hcounted := inflight_le_requests (Pool.mem_of_getElem? hp)
      rw [requests, ← h] at hcounted
      rw [Pool.total_advance _ hp, Pool.step_advance hp, ← h]
      change (next tenant orgId s.shared p).1 =
        s.shared+((next tenant orgId s.shared p).2.inflight-p.inflight)
      cases p with
      | checking =>
        rw [next]
        split_ifs
        · simp [RequestPoint.inflight]
        · simp [RequestPoint.inflight]
      | leaving =>
        have hpos : 0 < s.shared := hcounted
        rw [next, if_pos hpos]
        simp [RequestPoint.inflight]
      | decrementing => simp [next, RequestPoint.inflight, sub_eq_add_neg]
      | _ => simp [next, RequestPoint.inflight]

/-- A command keeps the bound exactly when it is no increment above it. -/
theorem withinBound_step (e : InflightEvent) (hcounted : Counted s)
    (h : WithinBound tenant orgId s) :
    WithinBound tenant orgId (s.step (workers tenant orgId) e) ↔
      Pool.AtAdvance (RoomStill tenant orgId) s e := by
  cases e with
  | outside e => exact e.elim
  | start request =>
    refine iff_of_true ?_ trivial
    rw [WithinBound, requests, Pool.total_start]
    exact (add_zero _).trans_le h
  | advance i input =>
    refine Pool.advance_iff_atAdvance h fun p hp => ?_
    rw [Counted, requests] at hcounted
    rw [WithinBound, requests] at h ⊢
    rw [← hcounted] at h
    rw [Pool.total_advance _ hp, ← hcounted, RoomStill]
    change _+((next tenant orgId s.shared p).2.inflight-p.inflight) ≤ _ ↔ _
    cases p with
    | checking =>
      rw [next]
      split_ifs
      · simpa [RequestPoint.inflight] using h
      · simpa [RequestPoint.inflight] using h
    | incrementing => simp [next, RequestPoint.inflight]
    | leaving =>
      rw [next]
      split_ifs
      · simpa [RequestPoint.inflight] using h
      · refine iff_of_true ?_ (by simp)
        simp only [RequestPoint.inflight]
        omega
    | decrementing =>
      refine iff_of_true ?_ (by simp)
      simp only [next, RequestPoint.inflight]
      omega
    | _ => simpa [next, RequestPoint.inflight] using h

/-- The counter is always the number of requests in flight, and that number is always within the
bound, exactly when every request that increments the counter finds it below the bound. -/
theorem inflight_iff (tenant : TenantMeters) (orgId : String) (events : List InflightEvent) :
    (∀ p q, events = p ++ q →
      Counted (run (Pool.step (workers tenant orgId)) idle p) ∧
        WithinBound tenant orgId (run (Pool.step (workers tenant orgId)) idle p)) ↔
      0 ≤ maxConcurrency tenant orgId ∧
        Along (Pool.step (workers tenant orgId)) (Pool.AtAdvance (RoomStill tenant orgId)) idle
          events := by
  by_cases hbound : 0 ≤ maxConcurrency tenant orgId
  · have hidle : Counted idle ∧ WithinBound tenant orgId idle := ⟨rfl,hbound⟩
    rw [and_iff_right hbound]
    refine (always_iff (P := fun s => Counted s ∧ WithinBound tenant orgId s) hidle events).trans ?_
    refine along_congr (I := fun s => Counted s ∧ WithinBound tenant orgId s) ?_ ?_ hidle
    · exact fun s e hnext _ => hnext
    · intro s e h
      rw [and_iff_right (counted_step e h.1)]
      exact withinBound_step e h.1 h.2
  · refine iff_of_false (fun h => hbound ?_) fun h => hbound h.1
    exact (h [] events rfl).2

/-- The free plan lets two requests in. -/
def freePlan : TenantMeters :=
  { meters := Meters.empty, registry := {}, custom := Table.empty }

/-- Three requests read the counter before one of them increments it. -/
def threeRequests : List InflightEvent :=
  [.start (),.start (),.start (),.advance 0 (),.advance 1 (),.advance 2 (),.advance 0 (),
    .advance 1 (),.advance 2 ()]

theorem requests_threeRequests :
    maxConcurrency freePlan "acme" = 2 ∧
      requests (run (Pool.step (workers freePlan "acme")) idle threeRequests) = 3 := by
  decide +kernel

end Inflight
end Arsonist.Gateway
