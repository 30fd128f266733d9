import Arsonist.Billing.UsageTotals
import Arsonist.Library.Text

/-! Meters of organisations, in Redis or in the process. Each call decides anew which of the two it
uses, and a meter that is read shows one of them only. -/
namespace Arsonist.Billing
open Arsonist.Library

/-- A counter under its name. -/
structure Meter (κ : Type) where
  name : κ
  value : ℚ

instance (κ : Type) : Keyed (Meter κ) κ where
  key := Meter.name

namespace Meter
variable {κ : Type} [DecidableEq κ]

/-- A counter that does not exist counts as zero. -/
def read (t : Table (Meter κ)) (name : κ) : ℚ := (t.get? name).elim 0 Meter.value

def add (t : Table (Meter κ)) (name : κ) (amount : ℚ) : Table (Meter κ) :=
  t.put { name := name, value := read t name+amount }

theorem read_add (t : Table (Meter κ)) (name other : κ) (amount : ℚ) :
    read (add t name amount) other = read t other+if other = name then amount else 0 := by
  rw [read, add, Table.get?_put]
  change (if other = name then _ else _ : Option (Meter κ)).elim 0 Meter.value = _
  split_ifs with h
  · subst h
    rfl
  · exact (add_zero _).symm

end Meter

/-- `_redis`: `None`, `False` or a client. -/
inductive RedisClient
  | unresolved
  | unavailable
  | connected
  deriving DecidableEq

/-- What Redis answers to a call: whether a `ping` of a new client succeeds, and whether the command
or pipeline of the call does. -/
structure RedisReplies where
  url : String
  ping : Bool
  command : Bool
  deriving DecidableEq

/-- `get_redis_client`, with whether it returns a client. The first call with a URL decides for
good. -/
def getRedisClient (client : RedisClient) (replies : RedisReplies) : RedisClient × Bool :=
  if Text.strip replies.url = "" then (client,false)
  else
    match client with
    | .unavailable => (.unavailable,false)
    | .unresolved => if replies.ping then (.connected,true) else (.unavailable,false)
    | .connected => (.connected,true)

/-- The meters in Redis and those of the process. No key of Redis expires. -/
structure Meters where
  client : RedisClient
  redis : Table (Meter String)
  memory : Table (Meter (String × String))
  usage : UsageLog

namespace Meters

def empty : Meters :=
  { client := .unresolved, redis := Table.empty, memory := Table.empty, usage := UsageLog.empty }

/-- The key of a meter in Redis. -/
def redisKey (orgId key : String) : String := "meter:" ++ orgId ++ ":" ++ key

variable (s : Meters) (replies : RedisReplies) (orgId key : String)

/-- The meter of the process is incremented, and the usage recorded. -/
def incrInProcess (now amount : ℚ) : Meters × ℚ :=
  let memory := Meter.add s.memory (orgId,key) amount
  let row : UsageRow := { ts := now, metric := key, amount := amount, unit := "count" }
  ({ s with memory := memory, usage := s.usage.record { orgId := orgId, row := row } },
    Meter.read memory (orgId,key))

/-- `incr_meter`. A pipeline that fails has no effect. -/
def incrMeter (now amount : ℚ) : Meters × ℚ :=
  let (client,found) := getRedisClient s.client replies
  let s := { s with client := client }
  if found = false then s.incrInProcess orgId key now amount
  else if replies.command then
    let redis := Meter.add s.redis (redisKey orgId key) amount
    ({ s with redis := redis },Meter.read redis (redisKey orgId key))
  else s.incrInProcess orgId key now amount

/-- `get_meter`. -/
def getMeter : Meters × ℚ :=
  let (client,found) := getRedisClient s.client replies
  let s := { s with client := client }
  if found = false then (s,Meter.read s.memory (orgId,key))
  else if replies.command then (s,Meter.read s.redis (redisKey orgId key))
  else (s,Meter.read s.memory (orgId,key))

/-- The call reaches Redis. -/
def Reaches : Prop := (getRedisClient s.client replies).2 = true ∧ replies.command = true

instance : Decidable (s.Reaches replies) := inferInstanceAs (Decidable (_ ∧ _))

/-- What the two stores hold together. -/
def held : ℚ := Meter.read s.redis (redisKey orgId key)+Meter.read s.memory (orgId,key)

theorem getMeter_value :
    (s.getMeter replies orgId key).2 =
      if s.Reaches replies then Meter.read s.redis (redisKey orgId key)
      else Meter.read s.memory (orgId,key) := by
  rw [getMeter]
  dsimp only
  by_cases hfound : (getRedisClient s.client replies).2 = true
  · rw [if_neg (by simp [hfound])]
    by_cases hcommand : replies.command = true
    · rw [if_pos hcommand, if_pos ⟨hfound,hcommand⟩]
    · rw [if_neg hcommand, if_neg fun h => hcommand h.2]
  · rw [if_pos (by simpa using hfound), if_neg fun h => hfound h.1]

theorem held_getMeter : (s.getMeter replies orgId key).1.held orgId key = s.held orgId key := by
  rw [getMeter]
  dsimp only
  split_ifs
  · simp only [held]
  · simp only [held]
  · simp only [held]

/-- An increment goes to one of the stores. -/
theorem held_incrMeter (now amount : ℚ) :
    (s.incrMeter replies orgId key now amount).1.held orgId key = s.held orgId key+amount := by
  have hmemory : ∀ s : Meters,
      (s.incrInProcess orgId key now amount).1.held orgId key = s.held orgId key+amount := by
    intro s
    rw [held, incrInProcess]
    dsimp only
    rw [Meter.read_add, if_pos rfl, held, add_assoc]
  rw [incrMeter]
  dsimp only
  split_ifs
  · rw [hmemory]
    simp only [held]
  · rw [held]
    dsimp only
    rw [Meter.read_add, if_pos rfl, held]
    ring
  · rw [hmemory]
    simp only [held]

theorem redis_getMeter : (s.getMeter replies orgId key).1.redis = s.redis := by
  rw [getMeter]
  dsimp only
  split_ifs
  · rfl
  · rfl
  · rfl

theorem redis_incrMeter (now amount : ℚ) (h : s.Reaches replies) :
    (s.incrMeter replies orgId key now amount).1.redis =
      Meter.add s.redis (redisKey orgId key) amount := by
  rw [incrMeter]
  dsimp only
  rw [if_neg (by simp [h.1]), if_pos h.2]

theorem usage_getMeter : (s.getMeter replies orgId key).1.usage = s.usage := by
  rw [getMeter]
  dsimp only
  split_ifs
  · rfl
  · rfl
  · rfl

/-- What an increment records in the process counts for its key only. -/
theorem amount_incrMeter {metric : String} (hmetric : key ≠ metric) (now amount : ℚ) :
    (s.incrMeter replies orgId key now amount).1.usage.amount orgId metric =
      s.usage.amount orgId metric := by
  have hprocess : ∀ s : Meters,
      (s.incrInProcess orgId key now amount).1.usage.amount orgId metric =
        s.usage.amount orgId metric := by
    intro s
    rw [incrInProcess]
    dsimp only
    rw [UsageLog.amount_record, if_neg fun h => hmetric h.2, add_zero]
  rw [incrMeter]
  dsimp only
  split_ifs
  · rw [hprocess]
  · rfl
  · rw [hprocess]

section Calls

/-- A call on one meter. -/
inductive MeterCall
  | incr (replies : RedisReplies) (now amount : ℚ)
  | get (replies : RedisReplies)

/-- A call on the meter of an organisation and a key. -/
def exec (orgId key : String) (s : Meters) : MeterCall → Meters
  | .incr replies now amount => (s.incrMeter replies orgId key now amount).1
  | .get replies => (s.getMeter replies orgId key).1

/-- The sum of all amounts that were passed to `incr_meter`. -/
def passed (calls : List MeterCall) : ℚ :=
  (calls.map fun | .incr _ _ amount => amount | .get _ => 0).sum

theorem held_run (calls : List MeterCall) :
    (run (exec orgId key) empty calls).held orgId key = passed calls := by
  induction calls using List.reverseRecOn with
  | nil => simp [held, empty, Meter.read, passed]
  | append_singleton calls c ih =>
    rw [run_concat, passed, List.map_append, List.sum_append, ← passed, ← ih]
    cases c with
    | incr replies now amount => simp [exec, held_incrMeter]
    | get replies => simp [exec, held_getMeter]

/-- A read finds the meter whole: the store that it does not reach holds nothing. -/
def Whole (s : Meters) : MeterCall → Prop
  | .incr _ _ _ => True
  | .get replies =>
    (s.Reaches replies → Meter.read s.memory (orgId,key) = 0) ∧
      (¬ s.Reaches replies → Meter.read s.redis (redisKey orgId key) = 0)

/-- Every read of a meter returns the sum of the amounts before it exactly when every read finds the
meter whole. -/
theorem getMeter_exact_iff (calls : List MeterCall) :
    (∀ p replies q, calls = p ++ .get replies :: q →
      ((run (exec orgId key) empty p).getMeter replies orgId key).2 = passed p) ↔
        Along (exec orgId key) (Whole orgId key) empty calls := by
  have hget : ∀ p replies,
      ((run (exec orgId key) empty p).getMeter replies orgId key).2 = passed p ↔
        Whole orgId key (run (exec orgId key) empty p) (.get replies) := by
    intro p replies
    rw [← held_run orgId key p, getMeter_value, held, Whole]
    split_ifs with hreaches
    · simp [hreaches]
    · simp [hreaches]
  rw [along_iff]
  constructor
  · intro h p c q hcalls
    cases c with
    | incr replies now amount => trivial
    | get replies => exact (hget p replies).mp (h p replies q hcalls)
  · intro h p replies q hcalls
    exact (hget p replies).mpr (h p (.get replies) q hcalls)

/-- Redis with one failing pipeline. -/
def oneFault : List MeterCall :=
  [.incr ⟨"redis://r:6379",true,false⟩ 0 10]

/-- What was counted in the process is gone when Redis is back. -/
theorem getMeter_after_fault :
    ((run (exec "acme" "tokens:1") empty oneFault).getMeter ⟨"redis://r:6379",true,true⟩ "acme"
      "tokens:1").2 = 0 ∧ passed oneFault = 10 := by
  decide +kernel

end Calls
end Meters
end Arsonist.Billing
