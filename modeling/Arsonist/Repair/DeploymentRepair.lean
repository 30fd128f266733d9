import Arsonist.Library.Backlog
import Arsonist.Library.Json
import Arsonist.Library.Steps
import Arsonist.Library.Text
import Arsonist.Repair.WorkloadRebuilder
import Arsonist.Shared.Rounding

/-! The manager of `repair/deployment_repair.py`. Repairs that wait and repairs that were carried
out stand in one list, which is cut to its last entries. -/
namespace Arsonist.Repair
open Arsonist.Library Arsonist.Shared

inductive RepairAction | redeploy | rollbackVersion | scaleReplace | configFix | resourceAdjust
  deriving DecidableEq

def RepairAction.value : RepairAction → String
  | .redeploy => "redeploy"
  | .rollbackVersion => "rollback_version"
  | .scaleReplace => "scale_replace"
  | .configFix => "config_fix"
  | .resourceAdjust => "resource_adjust"

inductive RepairStatus | pending | repairing | repaired | failed
  deriving DecidableEq

/-- A repair. Its `serial` is the number of repairs requested before it; the program has no such
field. -/
structure DeploymentRepairRecord where
  serial : ℕ
  repairId : String
  deploymentId : String
  regionId : String := ""
  action : RepairAction := .redeploy
  status : RepairStatus := .pending
  failureReason : String := ""
  rollbackTarget : String := ""
  createdAt : ℚ := 0
  startedAt : ℚ := 0
  completedAt : ℚ := 0
  repairTimeMs : ℚ := 0
  result : String := ""
  metadata : Json.Object := []

namespace DeploymentRepairRecord

def isPending (r : DeploymentRepairRecord) : Bool := r.status = .pending

/-- The repair once it is carried out. -/
def repaired (started finished : ℚ) (r : DeploymentRepairRecord) : DeploymentRepairRecord :=
  { r with
    status := .repaired
    startedAt := started
    completedAt := finished
    repairTimeMs := roundTo 1 ((finished-started)*1000)
    result := "repaired" }

end DeploymentRepairRecord

/-- The text of a `ValueError`. -/
structure RepairError where
  text : String
  deriving DecidableEq

/-- What is asked for. -/
structure RepairOrder where
  deploymentId : String
  regionId : String := ""
  failureReason : String := ""
  rollbackTarget : String := ""
  metadata : Option Json.Object := none

/-- The action that a reason calls for, by the words it contains. Lowering a letter beyond ASCII
makes none of these words appear. -/
def selectAction (failureReason : String) : RepairAction :=
  let reason := (Text.lower failureReason).toList
  if "config".toList <:+: reason then .configFix
  else if "oom".toList <:+: reason ∨ "resource".toList <:+: reason then .resourceAdjust
  else if "version".toList <:+: reason ∨ "incompatible".toList <:+: reason then .rollbackVersion
  else if "scale".toList <:+: reason then .scaleReplace
  else .redeploy

example : selectAction "Pod OOMKilled" = .resourceAdjust := by decide +kernel

/-- The number `accepted` is not counted by the program. -/
structure DeploymentRepairManager where
  maxHistory : ℤ := 500
  repairs : List DeploymentRepairRecord := []
  totalRepaired : ℕ := 0
  events : List Json.Object := []
  accepted : ℕ := 0

namespace DeploymentRepairManager
variable (m : DeploymentRepairManager)

def newRepair (now : ℚ) (order : RepairOrder) : DeploymentRepairRecord :=
  { serial := m.accepted
    repairId := "repair-" ++ order.deploymentId ++ "-" ++ (Text.truncate now).repr
    deploymentId := order.deploymentId
    regionId := order.regionId
    action := selectAction order.failureReason
    failureReason := order.failureReason
    rollbackTarget := order.rollbackTarget
    createdAt := now
    metadata := order.metadata.getD [] }

def requestRepair (now : ℚ) (order : RepairOrder) :
    DeploymentRepairManager × DeploymentRepairRecord :=
  let record := m.newRepair now order
  ({ m with
      repairs := truncated m.maxHistory (m.repairs ++ [record])
      accepted := m.accepted+1 },record)

def repairedEvent (record : DeploymentRepairRecord) : Json.Object :=
  [("type",.str "deployment_repaired"),("repair_id",.str record.repairId),
    ("deployment_id",.str record.deploymentId),("action",.str record.action.value),
    ("repair_time_ms",.float record.repairTimeMs),("ts",.float record.completedAt)]

/-- The first pending repair of the id is carried out. -/
def executeRepair (started finished : ℚ) (repairId : String) :
    DeploymentRepairManager × Except RepairError DeploymentRepairRecord :=
  match Backlog.finishFirst DeploymentRepairRecord.repairId DeploymentRepairRecord.isPending
      (DeploymentRepairRecord.repaired started finished) repairId m.repairs with
  | none => (m,.error ⟨"No pending repair " ++ repairId⟩)
  | some (record,repairs) =>
    ({ m with
        repairs := repairs
        totalRepaired := m.totalRepaired+1
        events := truncated m.maxHistory (m.events ++ [repairedEvent record]) },.ok record)

/-- The loop of `repair_all_pending`, which goes on after an error. -/
def executeAll (times : ℕ → ℚ × ℚ) :
    DeploymentRepairManager → List String → DeploymentRepairManager × List DeploymentRepairRecord
  | m, [] => (m,[])
  | m, repairId :: rest =>
    match m.executeRepair (times 0).1 (times 0).2 repairId with
    | (m,.error _) => executeAll (fun n => times (n+1)) m rest
    | (m,.ok record) =>
      let (m,results) := executeAll (fun n => times (n+1)) m rest
      (m,record :: results)

/-- The pending repairs, in the order of the list. -/
def pendingIds : List String :=
  (m.repairs.filter DeploymentRepairRecord.isPending).map DeploymentRepairRecord.repairId

def repairAllPending (times : ℕ → ℚ × ℚ) : DeploymentRepairManager × List DeploymentRepairRecord :=
  executeAll times m m.pendingIds

end DeploymentRepairManager

/-- A call of the manager, with the times that it reads. -/
inductive RepairCall
  | requestRepair (now : ℚ) (order : RepairOrder)
  | executeRepair (started finished : ℚ) (repairId : String)

namespace DeploymentRepairManager

def exec (m : DeploymentRepairManager) : RepairCall → DeploymentRepairManager
  | .requestRepair now order => (m.requestRepair now order).1
  | .executeRepair started finished repairId => (m.executeRepair started finished repairId).1

end DeploymentRepairManager
end Arsonist.Repair

/-! Whether each repair that was requested is carried out. As with rebuilds, a repair is lost if it
is cut off the list while it waits. -/
namespace Arsonist.Repair
open Arsonist.Library
namespace DeploymentRepairManager

/-- The number of the repair that a call requests. -/
def acceptedBy (m : DeploymentRepairManager) : RepairCall → Option ℕ
  | .requestRepair now order => some (m.requestRepair now order).2.serial
  | .executeRepair _ _ _ => none

/-- The number of the repair that a call carries out. -/
def executedBy (m : DeploymentRepairManager) : RepairCall → Option ℕ
  | .requestRepair _ _ => none
  | .executeRepair started finished repairId =>
    (m.executeRepair started finished repairId).2.toOption.map DeploymentRepairRecord.serial

/-- The repairs and their counters. -/
def view (m : DeploymentRepairManager) : Backlog.View DeploymentRepairRecord :=
  ⟨m.repairs,m.accepted,m.totalRepaired⟩

/-- After a run, one call carries out exactly once each repair that was requested and is left, so
that none waits and all are counted. -/
def RepairsAll (m : DeploymentRepairManager) (calls : List RepairCall) (times : ℕ → ℚ × ℚ) : Prop :=
  Backlog.Settled DeploymentRepairRecord.isPending (emitted exec acceptedBy m calls)
    (emitted exec executedBy m calls)
    (((run exec m calls).repairAllPending times).2.map DeploymentRepairRecord.serial)
    ((run exec m calls).repairAllPending times).1.view

/-- A request whose entry makes the list lose a repair that waits. -/
def Drops (m : DeploymentRepairManager) : RepairCall → Prop
  | .requestRepair now order =>
    Backlog.Loses DeploymentRepairRecord.isPending m.maxHistory m.repairs (m.newRepair now order)
  | .executeRepair _ _ _ => False

variable {m : DeploymentRepairManager} {maxHistory : ℤ}

/-- One repair, which waited under an id, was carried out. -/
structure Executes (m : DeploymentRepairManager) (repairId : String) (a : DeploymentRepairRecord)
    (l : List DeploymentRepairRecord) (m' : DeploymentRepairManager) : Prop where
  finishes : Backlog.Finishes DeploymentRepairRecord.repairId DeploymentRepairRecord.isPending
    repairId m.repairs a l
  view : m'.view = ⟨l,m.accepted,m.totalRepaired+1⟩
  maxHistory : m'.maxHistory = m.maxHistory

theorem executeRepair_of_some {started finished : ℚ} {repairId : String}
    {a : DeploymentRepairRecord} {l : List DeploymentRepairRecord}
    (hfirst : Backlog.finishFirst DeploymentRepairRecord.repairId DeploymentRepairRecord.isPending
      (DeploymentRepairRecord.repaired started finished) repairId m.repairs =
        some (a.repaired started finished,l))
    (hfinishes : Backlog.Finishes DeploymentRepairRecord.repairId
      DeploymentRepairRecord.isPending repairId m.repairs a l) :
    ∃ m', m.executeRepair started finished repairId = (m',.ok (a.repaired started finished)) ∧
      m.Executes repairId a l m' := by
  rw [executeRepair, hfirst]
  exact ⟨_,rfl,hfinishes,rfl,rfl⟩

/-- An execution carries out a repair, or it fails and changes nothing. -/
theorem executeRepair_cases (m : DeploymentRepairManager) (started finished : ℚ)
    (repairId : String) :
    (∃ e, m.executeRepair started finished repairId = (m,.error e)) ∨
      ∃ m' a l, m.executeRepair started finished repairId = (m',.ok (a.repaired started finished)) ∧
        m.Executes repairId a l m' := by
  cases hfirst : Backlog.finishFirst DeploymentRepairRecord.repairId
      DeploymentRepairRecord.isPending (DeploymentRepairRecord.repaired started finished)
      repairId m.repairs with
  | none =>
    rw [executeRepair, hfirst]
    exact Or.inl ⟨_,rfl⟩
  | some x =>
    obtain ⟨b,l⟩ := x
    obtain ⟨a,rfl,hfinishes⟩ := Backlog.finishes_finishFirst (fun _ => rfl) hfirst
    obtain ⟨m',hexecute,hexecutes⟩ := executeRepair_of_some hfirst hfinishes
    exact Or.inr ⟨m',a,l,hexecute,hexecutes⟩

/-- The manager keeps a backlog. -/
theorem keeps (maxHistory : ℤ) :
    Backlog.Keeps DeploymentRepairRecord.repairId DeploymentRepairRecord.isPending
      DeploymentRepairRecord.serial maxHistory (fun m => m.maxHistory = maxHistory) exec view
      acceptedBy executedBy Drops where
  invariant m c h := by
    cases c with
    | requestRepair now order => exact h
    | executeRepair started finished repairId =>
      rw [exec]
      obtain ⟨e,hexecute⟩ | ⟨m',a,l,hexecute,hexecutes⟩ :=
        m.executeRepair_cases started finished repairId
      · rw [hexecute]
        exact h
      · rw [hexecute]
        exact hexecutes.maxHistory.trans h
  moves m c h := by
    cases c with
    | requestRepair now order =>
      obtain rfl := h
      exact Backlog.Moves.accept (v := m.view) (a := m.newRepair now order) rfl rfl
    | executeRepair started finished repairId =>
      rw [exec, executedBy]
      obtain ⟨e,hexecute⟩ | ⟨m',a,l,hexecute,hexecutes⟩ :=
        m.executeRepair_cases started finished repairId
      · rw [hexecute]
        exact Backlog.Moves.idle
      · rw [hexecute, hexecutes.view]
        exact Backlog.Moves.finish (v := m.view) (a := a) hexecutes.finishes

/-- With the ids of what waits, in any order, one repair after the other is carried out. -/
theorem cleared_executeAll {ids : List String} (hids : m.pendingIds.Perm ids)
    (times : ℕ → ℚ × ℚ) :
    Backlog.Cleared DeploymentRepairRecord.isPending DeploymentRepairRecord.serial m.view
      ((executeAll times m ids).2.map DeploymentRepairRecord.serial)
      (executeAll times m ids).1.view := by
  induction ids generalizing m times with
  | nil => exact Backlog.cleared_of_nil (List.map_eq_nil_iff.mp hids.eq_nil)
  | cons repairId rest ih =>
    obtain ⟨a,l,hfirst,hfinishes,hrest⟩ := Backlog.exists_finishFirst
      (f := DeploymentRepairRecord.repaired (times 0).1 (times 0).2) (fun _ => rfl) hids
    obtain ⟨m',hexecute,hexecutes⟩ := executeRepair_of_some hfirst hfinishes
    have hrepairs : m'.repairs = l := congrArg Backlog.View.records hexecutes.view
    have hlater := ih (by rw [pendingIds, hrepairs]; exact hrest) fun n => times (n+1)
    rw [hexecutes.view] at hlater
    rw [executeAll, hexecute]
    exact Backlog.Cleared.cons (a := a) hlater hfinishes

/-- A manager that was not called yet. -/
def start (maxHistory : ℤ) : DeploymentRepairManager := { maxHistory }

/-- One call carries out everything that is left, exactly if no repair was lost. -/
theorem repairsAll_iff (maxHistory : ℤ) (calls : List RepairCall) (times : ℕ → ℚ × ℚ) :
    RepairsAll (start maxHistory) calls times ↔
      Along exec (fun m c => ¬ m.Drops c) (start maxHistory) calls :=
  (keeps maxHistory).settled_iff rfl rfl calls (cleared_executeAll (List.Perm.refl _) times)

end DeploymentRepairManager

/-- For both managers, one call carries out everything that was requested and is left, exactly if no
request was cut off the list while it waited; rebuilds need room for an active one besides. -/
theorem carriesOut_iff (maxConcurrent maxHistory : ℤ) (times : ℕ → ℚ × ℚ) :
    (∀ calls, (WorkloadRebuilder.start maxConcurrent maxHistory).RebuildsAll calls times ↔
      Along WorkloadRebuilder.exec (fun m c => ¬ m.Drops c)
          (.start maxConcurrent maxHistory) calls ∧
        (0 < maxConcurrent ∨ ∀ now order, .requestRebuild now order ∉ calls)) ∧
    ∀ calls, (DeploymentRepairManager.start maxHistory).RepairsAll calls times ↔
      Along DeploymentRepairManager.exec (fun m c => ¬ m.Drops c) (.start maxHistory) calls :=
  ⟨fun calls => WorkloadRebuilder.rebuildsAll_iff maxConcurrent maxHistory calls times,
    fun calls => DeploymentRepairManager.repairsAll_iff maxHistory calls times⟩

/-- With a list of one entry, the second of two requests makes the first one lost. -/
theorem not_carriesOut :
    (¬ ∀ maxConcurrent maxHistory calls times,
      (WorkloadRebuilder.start maxConcurrent maxHistory).RebuildsAll calls times) ∧
    ¬ ∀ maxHistory calls times,
      (DeploymentRepairManager.start maxHistory).RepairsAll calls times := by
  constructor
  · intro h
    have htotal := (h 1 1 [.requestRebuild 0 { workloadId := "w1" },
      .requestRebuild 0 { workloadId := "w2" }] fun _ => (0,0)).total
    revert htotal
    decide +kernel
  · intro h
    have htotal := (h 1 [.requestRepair 0 { deploymentId := "d1" },
      .requestRepair 0 { deploymentId := "d2" }] fun _ => (0,0)).total
    revert htotal
    decide +kernel

end Arsonist.Repair
