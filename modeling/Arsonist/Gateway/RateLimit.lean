import Arsonist.Billing.Metering
import Arsonist.Library.SlidingWindow

/-! The limit of requests per second. With Redis requests are counted by the second. Without it the
process keeps the times of the accepted requests of an organisation. -/
namespace Arsonist.Gateway
open Arsonist.Library Arsonist.Billing

/-- The deque of an organisation. -/
structure RequestTimes where
  orgId : String
  times : List ℚ
  deriving DecidableEq

instance : Keyed RequestTimes String := ⟨RequestTimes.orgId⟩

structure RateLimiter where
  client : RedisClient := .unresolved
  redis : Table (Meter String) := Table.empty
  memRl : Table RequestTimes := Table.empty

/-- A call of `allow_request`: what Redis answers to it, the monotonic and the wall clock, and the
arguments. -/
structure RateCall where
  replies : RedisReplies
  now : ℚ
  wall : ℚ := 0
  orgId : String
  requestsPerSec : ℚ
  deriving DecidableEq

namespace RateLimiter
variable (s : RateLimiter)

/-- `_mem_rl[org_id]`: without an entry the deque is empty. -/
def times (orgId : String) : List ℚ :=
  ((s.memRl.get? orgId).map RequestTimes.times).getD []

def setTimes (orgId : String) (q : List ℚ) : RateLimiter :=
  { s with memRl := s.memRl.put ⟨orgId,q⟩ }

/-- The branch without Redis. -/
def allowInProcess (c : RateCall) : RateLimiter × Bool × ℚ :=
  let q := (s.times c.orgId).dropWhile fun t => 1 < c.now-t
  let n : ℚ := q.length
  if c.requestsPerSec ≤ n then (s.setTimes c.orgId q,false,n)
  else (s.setTimes c.orgId (q ++ [c.now]),true,n+1)

/-- The counter of an organisation for a second. -/
def secondKey (orgId : String) (wall : ℚ) : String :=
  "rl:rps:" ++ orgId ++ ":" ++ toString (Text.truncate wall)

/-- `allow_request`. A pipeline that fails has no effect, and the request is let through. -/
def allowRequest (c : RateCall) : RateLimiter × Bool × ℚ :=
  let (client,found) := getRedisClient s.client c.replies
  let s := { s with client := client }
  if found = false then s.allowInProcess c
  else if c.replies.command then
    let redis := Meter.add s.redis (secondKey c.orgId c.wall) 1
    let n := Meter.read redis (secondKey c.orgId c.wall)
    ({ s with redis := redis },decide (n ≤ c.requestsPerSec),n)
  else (s,true,0)

def exec (s : RateLimiter) (c : RateCall) : RateLimiter := (s.allowRequest c).1

/-- The request is accepted. -/
def Accepts (c : RateCall) : Prop := (s.allowRequest c).2.1 = true

instance (c : RateCall) : Decidable (s.Accepts c) := inferInstanceAs (Decidable (_ = true))

end RateLimiter

/-- The times at which requests of an organisation were accepted. -/
def acceptedTimes (orgId : String) (calls : List RateCall) : List ℚ :=
  emitted RateLimiter.exec
    (fun s c => if c.orgId = orgId ∧ s.Accepts c then some c.now else none) {} calls

/-- Redis is not configured for the calls, they come in the order of time, and the limit of the
organisation does not change. -/
structure InProcessCalls (orgId : String) (rps : ℚ) (calls : List RateCall) : Prop where
  unconfigured : ∀ c ∈ calls, Text.strip c.replies.url = ""
  ordered : (calls.map RateCall.now).Pairwise (· ≤ ·)
  constant : ∀ c ∈ calls, c.orgId = orgId → c.requestsPerSec = rps

/-- The times at which requests of an organisation arrive. -/
def arrivalsOf (orgId : String) (calls : List RateCall) : List ℚ :=
  (calls.filter fun c => c.orgId = orgId).map RateCall.now

namespace RateLimiter
variable {s : RateLimiter} {c : RateCall}

theorem allowRequest_unconfigured (h : Text.strip c.replies.url = "") :
    s.allowRequest c = s.allowInProcess c := by
  have hnone : getRedisClient s.client c.replies = (s.client,false) := if_pos h
  rw [allowRequest, hnone]
  rfl

/-- Without Redis the deque is a sliding window of one second. -/
theorem allowInProcess_eq (s : RateLimiter) (c : RateCall) :
    ((s.allowInProcess c).2.1 = true ↔
        SlidingWindow.Admits 1 c.requestsPerSec (s.times c.orgId) c.now) ∧
      (s.allowInProcess c).1 = s.setTimes c.orgId
        (SlidingWindow.arrive 1 c.requestsPerSec (s.times c.orgId) c.now) := by
  by_cases h : c.requestsPerSec ≤ (SlidingWindow.recent 1 c.now (s.times c.orgId)).length
  · have hno : ¬ SlidingWindow.Admits 1 c.requestsPerSec (s.times c.orgId) c.now := not_lt.mpr h
    have heq : s.allowInProcess c = (s.setTimes c.orgId
        (SlidingWindow.recent 1 c.now (s.times c.orgId)),false,_) := if_pos h
    rw [heq, SlidingWindow.arrive, if_neg hno]
    exact ⟨iff_of_false Bool.false_ne_true hno,rfl⟩
  · have hyes : SlidingWindow.Admits 1 c.requestsPerSec (s.times c.orgId) c.now := not_le.mp h
    have heq : s.allowInProcess c = (s.setTimes c.orgId
        (SlidingWindow.recent 1 c.now (s.times c.orgId) ++ [c.now]),true,_) := if_neg h
    rw [heq, SlidingWindow.arrive, if_pos hyes]
    exact ⟨iff_of_true rfl hyes,rfl⟩

theorem times_setTimes (orgId : String) (q : List ℚ) (other : String) :
    (s.setTimes orgId q).times other = if other = orgId then q else s.times other := by
  rw [times, setTimes, Table.get?_put]
  by_cases h : other = orgId
  · rw [if_pos (show other = Keyed.key (RequestTimes.mk orgId q) from h), if_pos h]
    rfl
  · rw [if_neg (show ¬ other = Keyed.key (RequestTimes.mk orgId q) from h), if_neg h]
    rfl

theorem accepts_iff (h : Text.strip c.replies.url = "") :
    s.Accepts c ↔ SlidingWindow.Admits 1 c.requestsPerSec (s.times c.orgId) c.now := by
  rw [Accepts, allowRequest_unconfigured h]
  exact (allowInProcess_eq s c).1

/-- A call moves the window of its own organisation only. -/
theorem times_exec (h : Text.strip c.replies.url = "") (orgId : String) :
    (s.exec c).times orgId = if orgId = c.orgId then
      SlidingWindow.arrive 1 c.requestsPerSec (s.times c.orgId) c.now else s.times orgId := by
  rw [exec, allowRequest_unconfigured h, (allowInProcess_eq s c).2, times_setTimes]

end RateLimiter

theorem arrivalsOf_concat (orgId : String) (calls : List RateCall) (c : RateCall) :
    arrivalsOf orgId (calls ++ [c]) =
      arrivalsOf orgId calls ++ if orgId = c.orgId then [c.now] else [] := by
  rw [arrivalsOf, List.filter_append, List.map_append, arrivalsOf]
  by_cases h : orgId = c.orgId
  · rw [if_pos h, List.filter_cons_of_pos (by exact decide_eq_true h.symm)]
    rfl
  · rw [if_neg h, List.filter_cons_of_neg (by simpa using Ne.symm h)]
    rfl

namespace InProcessCalls
variable {orgId : String} {rps : ℚ} {calls : List RateCall}

theorem init {c : RateCall} (h : InProcessCalls orgId rps (calls ++ [c])) :
    InProcessCalls orgId rps calls := by
  refine ⟨fun d hd => h.unconfigured d (List.mem_append_left _ hd),?_,
    fun d hd => h.constant d (List.mem_append_left _ hd)⟩
  have hordered := h.ordered
  rw [List.map_append, List.pairwise_append] at hordered
  exact hordered.1

theorem ofPrefix {p q : List RateCall} (h : InProcessCalls orgId rps (p ++ q)) :
    InProcessCalls orgId rps p := by
  induction q using List.reverseRecOn with
  | nil => rwa [List.append_nil] at h
  | append_singleton q c ih =>
    rw [← List.append_assoc] at h
    exact ih h.init

theorem arrivals_ordered (h : InProcessCalls orgId rps calls) :
    (arrivalsOf orgId calls).Pairwise (· ≤ ·) :=
  h.ordered.sublist (List.filter_sublist.map _)

/-- The deque of an organisation is the sliding window over its own arrivals. -/
theorem times_run (h : InProcessCalls orgId rps calls) :
    (run RateLimiter.exec {} calls).times orgId =
      run (SlidingWindow.arrive 1 rps) [] (arrivalsOf orgId calls) := by
  induction calls using List.reverseRecOn with
  | nil => rfl
  | append_singleton calls c ih =>
    have hc : c ∈ calls ++ [c] := List.mem_append_right _ (List.mem_singleton_self c)
    rw [run_concat, RateLimiter.times_exec (h.unconfigured c hc), arrivalsOf_concat]
    split_ifs with ho
    · rw [run_concat, h.constant c hc ho.symm, ← ho, ih h.init]
    · rw [List.append_nil, ih h.init]

theorem acceptedTimes_eq (h : InProcessCalls orgId rps calls) :
    acceptedTimes orgId calls = SlidingWindow.admitted 1 rps (arrivalsOf orgId calls) := by
  induction calls using List.reverseRecOn with
  | nil => rfl
  | append_singleton calls c ih =>
    have hc : c ∈ calls ++ [c] := List.mem_append_right _ (List.mem_singleton_self c)
    have hold := ih h.init
    rw [acceptedTimes] at hold ⊢
    rw [emitted_concat, hold, arrivalsOf_concat]
    by_cases ho : orgId = c.orgId
    · have hiff : (run RateLimiter.exec {} calls).Accepts c ↔ SlidingWindow.Admits 1 rps
          (run (SlidingWindow.arrive 1 rps) [] (arrivalsOf orgId calls)) c.now := by
        rw [RateLimiter.accepts_iff (h.unconfigured c hc), h.constant c hc ho.symm, ← ho,
          h.init.times_run]
      rw [if_pos ho, SlidingWindow.admitted_concat]
      simp only [ho.symm, true_and, hiff]
      split_ifs
      · rfl
      · rfl
    · rw [if_neg ho, List.append_nil, if_neg fun hand => ho hand.1.symm]
      exact List.append_nil _

end InProcessCalls

/-- In each second an organisation has at most as many accepted requests as its limit, rounded up.
One is rejected only if as many as the limit were accepted in the second before it. -/
theorem accepted_per_second {orgId : String} {rps : ℚ} {calls : List RateCall}
    (h : InProcessCalls orgId rps calls) (h₀ : 0 ≤ rps) :
    (∀ a, (((acceptedTimes orgId calls).filter fun t => a ≤ t ∧ t ≤ a+1).length : ℤ) ≤ ⌈rps⌉) ∧
      ∀ p c q, calls = p ++ c :: q → c.orgId = orgId →
        ¬ (run RateLimiter.exec {} p).Accepts c →
          rps ≤ ((acceptedTimes orgId p).filter fun t => c.now-1 ≤ t ∧ t ≤ c.now).length := by
  constructor
  · intro a
    rw [h.acceptedTimes_eq]
    exact SlidingWindow.length_admitted_le h.arrivals_ordered h₀ a
  · rintro p c q rfl ho hno
    have hp : InProcessCalls orgId rps p := h.ofPrefix
    have hc : c ∈ p ++ c :: q := List.mem_append_cons_self
    have hbefore : ∀ t ∈ arrivalsOf orgId p, t ≤ c.now := by
      have hordered := h.ordered
      rw [List.map_append, List.pairwise_append] at hordered
      intro t ht
      obtain ⟨d,hd,rfl⟩ := List.mem_map.mp ht
      exact hordered.2.2 _ (List.mem_map_of_mem (List.mem_of_mem_filter hd)) _ List.mem_cons_self
    rw [RateLimiter.accepts_iff (h.unconfigured c hc), h.constant c hc ho, ho, hp.times_run] at hno
    rw [hp.acceptedTimes_eq]
    exact SlidingWindow.limit_le_of_not_admits hp.arrivals_ordered hbefore hno

/-- Three requests of one organisation, and one of another. -/
def fourCalls : List RateCall :=
  [{replies := ⟨"",false,false⟩, now := 0, orgId := "a", requestsPerSec := 3/2},
    {replies := ⟨"",false,false⟩, now := 1/2, orgId := "a", requestsPerSec := 3/2},
    {replies := ⟨"",false,false⟩, now := 1/2, orgId := "b", requestsPerSec := 1},
    {replies := ⟨"",false,false⟩, now := 1, orgId := "a", requestsPerSec := 3/2}]

theorem accepted_per_second_four :
    InProcessCalls "a" (3/2) fourCalls ∧ acceptedTimes "a" fourCalls = [0,1/2] ∧
      (∀ a, (((acceptedTimes "a" fourCalls).filter fun t => a ≤ t ∧ t ≤ a+1).length : ℤ) ≤
        ⌈(3/2 : ℚ)⌉) ∧
      ∀ p c q, fourCalls = p ++ c :: q → c.orgId = "a" →
        ¬ (run RateLimiter.exec {} p).Accepts c →
          (3/2 : ℚ) ≤ ((acceptedTimes "a" p).filter fun t => c.now-1 ≤ t ∧ t ≤ c.now).length := by
  have hcalls : InProcessCalls "a" (3/2) fourCalls :=
    ⟨by decide +kernel,by decide +kernel,by decide +kernel⟩
  exact ⟨hcalls,by decide +kernel,accepted_per_second hcalls (by norm_num)⟩

end Arsonist.Gateway
