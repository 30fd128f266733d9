import Arsonist.Library.History
import Arsonist.Library.Json
import Arsonist.Library.Keyed
import Arsonist.Library.Steps
import Arsonist.Library.Text
import Arsonist.Shared.Rounding

/-! The failures of `repair/failure_recovery.py`: they are recorded under an id that is made of the
component and of the second, and leave the map of active failures by recovery or escalation. The
list `_failures`, which is only shown, is left out. -/
namespace Arsonist.Repair
open Arsonist.Library Arsonist.Shared

inductive RecoveryStrategy | restart | failover | rebuild | rollback | escalate
  deriving DecidableEq

inductive RecoveryStatus | detected | recovering | recovered | failed | escalated
  deriving DecidableEq

def RecoveryStrategy.value : RecoveryStrategy → String
  | restart => "restart"
  | failover => "failover"
  | rebuild => "rebuild"
  | rollback => "rollback"
  | escalate => "escalate"

/-- A failure. Its `serial` is the number of failures recorded before it; the program has no such
field. -/
structure FailureRecord where
  serial : ℕ
  failureId : String
  componentId : String := ""
  componentType : String := ""
  regionId : String := ""
  failureType : String := ""
  severity : ℚ := 0
  strategy : RecoveryStrategy := .restart
  status : RecoveryStatus := .detected
  retryCount : ℤ := 0
  maxRetries : ℤ := 3
  detectedAt : ℚ := 0
  recoveryStartedAt : ℚ := 0
  recoveredAt : ℚ := 0
  recoveryTimeMs : ℚ := 0
  description : String := ""

instance : Keyed FailureRecord String := ⟨FailureRecord.failureId⟩

@[simp] theorem FailureRecord.key_eq (record : FailureRecord) :
    Keyed.key record = record.failureId := rfl

/-- `f"fail-{component_id}-{int(ts)}"`. -/
def failureIdAt (componentId : String) (ts : ℚ) : String :=
  "fail-" ++ componentId ++ "-" ++ (Text.truncate ts).repr

/-- The number `recorded` is not counted by the program. -/
structure FailureRecoveryManager where
  maxRetries : ℤ := 3
  maxHistory : ℤ := 500
  active : Table FailureRecord := .empty
  totalRecovered : ℕ := 0
  totalEscalated : ℕ := 0
  events : List Json.Object := []
  recorded : ℕ := 0

namespace FailureRecoveryManager
variable (m : FailureRecoveryManager)

def selectStrategy (failureType : String) (severity : ℚ) (retryCount : ℤ) : RecoveryStrategy :=
  if m.maxRetries ≤ retryCount then .escalate
  else if 9/10 < severity then .failover
  else if failureType ∈ ["crash","oom","segfault"] then .rebuild
  else if failureType ∈ ["config_error","bad_deploy"] then .rollback
  else .restart

def recordFailure (now : ℚ) (componentId componentType failureType regionId : String)
    (severity : ℚ) : FailureRecoveryManager × FailureRecord :=
  let strategy := m.selectStrategy failureType severity 0
  let record : FailureRecord :=
    { serial := m.recorded
      failureId := failureIdAt componentId now
      componentId := componentId
      componentType := componentType
      regionId := regionId
      failureType := failureType
      severity := severity
      strategy := strategy
      detectedAt := now
      description := componentType ++ " " ++ componentId ++ " failed: " ++ failureType }
  ({ m with
      active := m.active.put record
      events := m.events ++ [[("type",.str "failure_detected"),
        ("failure_id",.str record.failureId),("component",.str componentId),
        ("failure_type",.str failureType),("strategy",.str strategy.value),("ts",.float now)]]
      recorded := m.recorded+1 },record)

/-- The text of the `ValueError`. -/
def noActive (failureId : String) : String := "No active failure " ++ failureId

/-- `started` and `finished` are the times between which the recovery takes place. -/
def recover (started finished : ℚ) (failureId : String) :
    FailureRecoveryManager × Except String FailureRecord :=
  match m.active.get? failureId with
  | none => (m,.error (noActive failureId))
  | some record =>
    let record :=
      { record with
        status := .recovered
        recoveryStartedAt := started
        recoveredAt := finished
        recoveryTimeMs := roundTo 1 ((finished-started)*1000) }
    ({ m with
        active := m.active.erase failureId
        totalRecovered := m.totalRecovered+1
        events := truncated m.maxHistory (m.events ++ [[("type",.str "failure_recovered"),
          ("failure_id",.str failureId),("strategy",.str record.strategy.value),
          ("recovery_time_ms",.float record.recoveryTimeMs),("ts",.float finished)]]) },.ok record)

def escalate (now : ℚ) (failureId : String) :
    FailureRecoveryManager × Except String FailureRecord :=
  match m.active.get? failureId with
  | none => (m,.error (noActive failureId))
  | some record =>
    ({ m with
        active := m.active.erase failureId
        totalEscalated := m.totalEscalated+1
        events := m.events ++ [[("type",.str "failure_escalated"),("failure_id",.str failureId),
          ("component",.str record.componentId),("ts",.float now)]] },
      .ok { record with status := .escalated })

/-- The record after one more attempt. -/
def retried (record : FailureRecord) : FailureRecord :=
  { record with
    retryCount := record.retryCount+1
    strategy := m.selectStrategy record.failureType record.severity (record.retryCount+1) }

def retry (started finished : ℚ) (failureId : String) :
    FailureRecoveryManager × Except String FailureRecord :=
  match m.active.get? failureId with
  | none => (m,.error (noActive failureId))
  | some record =>
    let record := m.retried record
    let m := { m with active := m.active.put record }
    if record.strategy = .escalate then m.escalate started failureId
    else m.recover started finished failureId

end FailureRecoveryManager

/-- A call of the manager, with the times that it reads. -/
inductive RecoveryCall
  | recordFailure (now : ℚ) (componentId componentType failureType regionId : String)
      (severity : ℚ)
  | recover (started finished : ℚ) (failureId : String)
  | escalate (now : ℚ) (failureId : String)
  | retry (started finished : ℚ) (failureId : String)

namespace FailureRecoveryManager

/-- What a call returns. -/
def call (m : FailureRecoveryManager) :
    RecoveryCall → FailureRecoveryManager × Except String FailureRecord
  | .recordFailure now componentId componentType failureType regionId severity =>
    let (m,record) := m.recordFailure now componentId componentType failureType regionId severity
    (m,.ok record)
  | .recover started finished failureId => m.recover started finished failureId
  | .escalate now failureId => m.escalate now failureId
  | .retry started finished failureId => m.retry started finished failureId

def exec (m : FailureRecoveryManager) (c : RecoveryCall) : FailureRecoveryManager := (m.call c).1

end FailureRecoveryManager
end Arsonist.Repair

/-! The accounts of the failures. A failure whose id is active already takes the place of another
one, which then is neither counted nor found; where that does not happen, none is forgotten. -/
namespace Arsonist.Repair
open Arsonist.Library
namespace FailureRecoveryManager

/-- The failure that a call records. -/
def recordedBy (m : FailureRecoveryManager) : RecoveryCall → Option FailureRecord
  | .recordFailure now componentId componentType failureType regionId severity =>
    some (m.recordFailure now componentId componentType failureType regionId severity).2
  | _ => none

/-- The number of the failure that a call recovers or escalates. -/
def settledBy (m : FailureRecoveryManager) : RecoveryCall → Option ℕ
  | .recordFailure _ _ _ _ _ _ => none
  | c => (m.call c).2.toOption.map FailureRecord.serial

/-- The failures that a run recorded. -/
def recordedIn (m : FailureRecoveryManager) (calls : List RecoveryCall) : List FailureRecord :=
  emitted exec recordedBy m calls

/-- The numbers of the failures that a run recovered or escalated. -/
def settledIn (m : FailureRecoveryManager) (calls : List RecoveryCall) : List ℕ :=
  emitted exec settledBy m calls

/-- The accounts after a run. -/
structure Accounted (m : FailureRecoveryManager) (calls : List RecoveryCall) : Prop where
  total : (m.recordedIn calls).length = (run exec m calls).totalRecovered+
    (run exec m calls).totalEscalated+(run exec m calls).active.entries.length
  reachable : ∀ record ∈ m.recordedIn calls, record.serial ∉ m.settledIn calls →
    ∃ r, (run exec m calls).active.get? record.failureId = some r ∧ r.serial = record.serial

/-- A failure is recorded under an id that is active. -/
def Collides (m : FailureRecoveryManager) : RecoveryCall → Prop
  | .recordFailure now componentId _ _ _ _ =>
    (m.active.get? (failureIdAt componentId now)).isSome
  | _ => False

instance (m : FailureRecoveryManager) : ∀ c, Decidable (m.Collides c)
  | .recordFailure now componentId _ _ _ _ =>
    inferInstanceAs (Decidable ((m.active.get? (failureIdAt componentId now)).isSome = true))
  | .recover _ _ _ => .isFalse id
  | .escalate _ _ => .isFalse id
  | .retry _ _ _ => .isFalse id

/-- One active failure is settled. -/
structure Settles (m : FailureRecoveryManager) (record : FailureRecord)
    (m' : FailureRecoveryManager) : Prop where
  get : m.active.get? record.failureId = some record
  active : ∀ id, m'.active.get? id = if id = record.failureId then none else m.active.get? id
  length : m'.active.entries.length+1 = m.active.entries.length
  total : m'.totalRecovered+m'.totalEscalated = m.totalRecovered+m.totalEscalated+1

variable {m : FailureRecoveryManager}

/-- A failure that leaves the map of active ones. -/
theorem settles_erase {record : FailureRecord} {failureId : String} {m' : FailureRecoveryManager}
    (h : m.active.get? failureId = some record) (hactive : m'.active = m.active.erase failureId)
    (htotal : m'.totalRecovered+m'.totalEscalated = m.totalRecovered+m.totalEscalated+1) :
    m.Settles record m' := by
  obtain rfl : record.failureId = failureId := Table.key_of_get? h
  refine ⟨h,fun id => ?_,?_,htotal⟩
  · rw [hactive, Table.get?_erase]
  · rw [hactive]
    exact Table.length_erase_of_some h

theorem settles_recover {record : FailureRecord} {failureId : String}
    (h : m.active.get? failureId = some record) (started finished : ℚ) :
    m.Settles record (m.recover started finished failureId).1 ∧
      (m.recover started finished failureId).2.toOption.map FailureRecord.serial =
        some record.serial := by
  rw [recover, h]
  exact ⟨settles_erase h rfl (Nat.add_right_comm _ _ _),rfl⟩

theorem settles_escalate {record : FailureRecord} {failureId : String}
    (h : m.active.get? failureId = some record) (now : ℚ) :
    m.Settles record (m.escalate now failureId).1 ∧
      (m.escalate now failureId).2.toOption.map FailureRecord.serial = some record.serial := by
  rw [escalate, h]
  exact ⟨settles_erase h rfl rfl,rfl⟩

/-- A record that is changed before it is settled. -/
theorem Settles.of_put {record changed : FailureRecord} {m' : FailureRecoveryManager}
    (hget : m.active.get? record.failureId = some record)
    (hid : changed.failureId = record.failureId)
    (h : Settles { m with active := m.active.put changed } changed m') : m.Settles record m' where
  get := hget
  active id := by
    rw [h.active, hid]
    split_ifs with hkey
    · rfl
    · rw [Table.get?_put, FailureRecord.key_eq, hid, if_neg hkey]
  length := by
    have hput := Table.length_put m.active changed
    rw [FailureRecord.key_eq, hid, hget] at hput
    exact h.length.trans hput
  total := h.total

/-- An attempt settles the failure: it is recovered, or escalated after too many of them. -/
theorem settles_retry {record : FailureRecord} {failureId : String}
    (h : m.active.get? failureId = some record) (started finished : ℚ) :
    m.Settles record (m.retry started finished failureId).1 ∧
      (m.retry started finished failureId).2.toOption.map FailureRecord.serial =
        some record.serial := by
  obtain rfl : record.failureId = failureId := Table.key_of_get? h
  have hput : (m.active.put (m.retried record)).get? record.failureId =
      some (m.retried record) := by
    rw [Table.get?_put]
    exact if_pos rfl
  have hid : (m.retried record).failureId = record.failureId := rfl
  rw [retry, h]
  dsimp only
  split_ifs
  · obtain ⟨hsettles,hserial⟩ :=
      settles_escalate (m := { m with active := m.active.put (m.retried record) }) hput started
    exact ⟨Settles.of_put h hid hsettles,hserial⟩
  · obtain ⟨hsettles,hserial⟩ :=
      settles_recover (m := { m with active := m.active.put (m.retried record) }) hput started
        finished
    exact ⟨Settles.of_put h hid hsettles,hserial⟩

/-- Without an active failure of the id nothing happens; else it is settled. -/
theorem settles_or_eq_of {failureId : String}
    {r : FailureRecoveryManager × Except String FailureRecord}
    (hnone : m.active.get? failureId = none → r = (m,.error (noActive failureId)))
    (hsome : ∀ record, m.active.get? failureId = some record → m.Settles record r.1 ∧
      r.2.toOption.map FailureRecord.serial = some record.serial) :
    (r.2.toOption.map FailureRecord.serial = none ∧ r.1 = m) ∨
      ∃ record, r.2.toOption.map FailureRecord.serial = some record.serial ∧
        m.Settles record r.1 := by
  cases hget : m.active.get? failureId with
  | none =>
    rw [hnone hget]
    exact Or.inl ⟨rfl,rfl⟩
  | some record =>
    obtain ⟨hsettles,hserial⟩ := hsome record hget
    exact Or.inr ⟨record,hserial,hsettles⟩

/-- A call that records nothing settles one failure, or does nothing. -/
theorem settles_or_eq (m : FailureRecoveryManager) {c : RecoveryCall}
    (hc : m.recordedBy c = none) :
    (m.settledBy c = none ∧ m.exec c = m) ∨
      ∃ record, m.settledBy c = some record.serial ∧ m.Settles record (m.exec c) := by
  cases c with
  | recordFailure now componentId componentType failureType regionId severity => cases hc
  | recover started finished failureId =>
    exact settles_or_eq_of (r := m.recover started finished failureId)
      (fun hget => by rw [recover, hget])
      fun _ hget => settles_recover hget started finished
  | escalate now failureId =>
    exact settles_or_eq_of (r := m.escalate now failureId)
      (fun hget => by rw [escalate, hget])
      fun _ hget => settles_escalate hget now
  | retry started finished failureId =>
    exact settles_or_eq_of (r := m.retry started finished failureId)
      (fun hget => by rw [retry, hget])
      fun _ hget => settles_retry hget started finished

/-- A new failure takes the place of one with its id. -/
structure Records (m : FailureRecoveryManager) (record : FailureRecord)
    (m' : FailureRecoveryManager) : Prop where
  active : m'.active = m.active.put record
  recovered : m'.totalRecovered = m.totalRecovered
  escalated : m'.totalEscalated = m.totalEscalated

theorem records_of_recordedBy {c : RecoveryCall} {record : FailureRecord}
    (hc : m.recordedBy c = some record) :
    m.settledBy c = none ∧ m.Records record (m.exec c) ∧
      (m.Collides c ↔ (m.active.get? record.failureId).isSome = true) := by
  cases c with
  | recordFailure now componentId componentType failureType regionId severity =>
    obtain rfl := Option.some.inj hc
    exact ⟨rfl,⟨rfl,rfl,rfl⟩,Iff.rfl⟩
  | recover started finished failureId => cases hc
  | escalate now failureId => cases hc
  | retry started finished failureId => cases hc

theorem not_collides_of_none {c : RecoveryCall} (hc : m.recordedBy c = none) : ¬ m.Collides c := by
  cases c with
  | recordFailure now componentId componentType failureType regionId severity => cases hc
  | recover started finished failureId => exact id
  | escalate now failureId => exact id
  | retry started finished failureId => exact id

section Runs
variable (m)

/-- Each failure that was recorded is counted, except for those whose place was taken. -/
theorem total_eq (calls : List RecoveryCall) :
    m.totalRecovered+m.totalEscalated+m.active.entries.length+(m.recordedIn calls).length =
      (run exec m calls).totalRecovered+(run exec m calls).totalEscalated+
        (run exec m calls).active.entries.length+occurrences exec Collides m calls := by
  induction calls using List.reverseRecOn with
  | nil => simp [recordedIn]
  | append_singleton calls c ih =>
    rw [recordedIn, emitted_concat, List.length_append, ← recordedIn, run_concat,
      occurrences_concat]
    cases hc : (run exec m calls).recordedBy c with
    | none =>
      rw [if_neg (not_collides_of_none hc), Option.toList_none, List.length_nil]
      obtain ⟨-,heq⟩ | ⟨record,-,hsettles⟩ := settles_or_eq _ hc
      · rw [heq]
        exact ih
      · have hlength := hsettles.length
        have htotal := hsettles.total
        omega
    | some record =>
      obtain ⟨-,hrecords,hcollides⟩ := records_of_recordedBy hc
      have hput := Table.length_put (run exec m calls).active record
      rw [FailureRecord.key_eq] at hput
      rw [Option.toList_some, List.length_singleton, hrecords.recovered, hrecords.escalated,
        hrecords.active, hput]
      simp only [hcollides]
      split_ifs <;> omega

/-- Where no place is taken, a failure that was not settled is still active. -/
theorem reachable_of_fresh {calls : List RecoveryCall}
    (h : Along exec (fun m c => ¬ m.Collides c) m calls) :
    ∀ record ∈ m.recordedIn calls, record.serial ∉ m.settledIn calls →
      ∃ r, (run exec m calls).active.get? record.failureId = some r ∧
        r.serial = record.serial := by
  induction calls using List.reverseRecOn with
  | nil => exact fun _ hrecord => absurd hrecord List.not_mem_nil
  | append_singleton calls c ih =>
    obtain ⟨hcalls,hfresh,-⟩ := (along_append _ m calls [c]).mp h
    intro record hrecord hsettled
    rw [recordedIn, emitted_concat, List.mem_append] at hrecord
    rw [settledIn, emitted_concat, List.mem_append, not_or] at hsettled
    rw [run_concat]
    cases hc : (run exec m calls).recordedBy c with
    | none =>
      rw [hc, Option.toList_none, or_iff_left List.not_mem_nil] at hrecord
      obtain ⟨r,hget,hserial⟩ := ih hcalls record hrecord hsettled.1
      obtain ⟨-,heq⟩ | ⟨other,hother,hsettles⟩ := settles_or_eq _ hc
      · rw [heq]
        exact ⟨r,hget,hserial⟩
      · have hne : record.failureId ≠ other.failureId := by
          intro hid
          rw [hid, hsettles.get] at hget
          obtain rfl := Option.some.inj hget
          rw [hother, Option.toList_some, List.mem_singleton, hserial] at hsettled
          exact hsettled.2 rfl
        rw [hsettles.active, if_neg hne]
        exact ⟨r,hget,hserial⟩
    | some new =>
      obtain ⟨-,hrecords,hcollides⟩ := records_of_recordedBy hc
      rw [hcollides] at hfresh
      rw [hrecords.active, Table.get?_put, FailureRecord.key_eq]
      rw [hc, Option.toList_some, List.mem_singleton] at hrecord
      obtain hrecord | rfl := hrecord
      · obtain ⟨r,hget,hserial⟩ := ih hcalls record hrecord hsettled.1
        have hne : record.failureId ≠ new.failureId := by
          intro hid
          rw [hid] at hget
          rw [hget] at hfresh
          exact hfresh rfl
        rw [if_neg hne]
        exact ⟨r,hget,hserial⟩
      · exact ⟨record,if_pos rfl,rfl⟩

end Runs

/-- The accounts of a new manager are right exactly if no failure is recorded under an id that is
active. -/
theorem failures_accounted_iff (maxRetries maxHistory : ℤ) (calls : List RecoveryCall) :
    Accounted { maxRetries, maxHistory } calls ↔
      Along exec (fun m c => ¬ m.Collides c) { maxRetries, maxHistory } calls := by
  have htotal := total_eq { maxRetries, maxHistory } calls
  have hinit : (Table.empty : Table FailureRecord).entries.length = 0 := rfl
  rw [← occurrences_eq_zero]
  constructor
  · rintro ⟨hcount,-⟩
    dsimp only at htotal
    omega
  · intro hzero
    refine ⟨?_,reachable_of_fresh _ (occurrences_eq_zero.mp hzero)⟩
    dsimp only at htotal
    omega

/-- One component fails twice within a second. -/
theorem not_failures_accounted : ¬∀ (maxRetries maxHistory : ℤ) (calls : List RecoveryCall),
    Accounted { maxRetries, maxHistory } calls := by
  intro h
  have htotal := (h 3 500 [.recordFailure (10001/10) "c" "pod" "crash" "" (1/2),
    .recordFailure (10007/10) "c" "pod" "oom" "" (1/2)]).total
  revert htotal
  decide +kernel

end FailureRecoveryManager
end Arsonist.Repair
