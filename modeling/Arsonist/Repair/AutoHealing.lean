import Arsonist.Library.History
import Arsonist.Library.Json
import Arsonist.Library.Slots
import Arsonist.Library.Sums
import Arsonist.Library.Text
import Arsonist.Shared.Rounding

/-! The healing system of `repair/auto_healing.py`. An action is an object that the list of actions,
the table of those under way and the callers share. What a call does under the lock is one step,
except that a rollback holds the lock while it goes through the list; the attributes that are set
without the lock are set in steps of their own. -/
namespace Arsonist.Repair
open Arsonist.Library Arsonist.Shared

inductive HealingActionType
  | restartDeployment
  | replaceNode
  | rerouteWorkload
  | rebuildService
  | restoreReplica
  | isolateRegion
  | rollback
  deriving DecidableEq

def HealingActionType.value : HealingActionType → String
  | .restartDeployment => "restart_deployment"
  | .replaceNode => "replace_node"
  | .rerouteWorkload => "reroute_workload"
  | .rebuildService => "rebuild_service"
  | .restoreReplica => "restore_replica"
  | .isolateRegion => "isolate_region"
  | .rollback => "rollback"

inductive HealingStatus | pending | executing | completed | failed | rolledBack
  deriving DecidableEq

inductive HealingPriority | low | medium | high | critical
  deriving DecidableEq

/-- The place of a priority in the order of the actions. -/
def HealingPriority.place : HealingPriority → ℕ
  | .critical => 0
  | .high => 1
  | .medium => 2
  | .low => 3

structure HealingAction where
  actionId : String
  actionType : HealingActionType
  status : HealingStatus := .pending
  priority : HealingPriority := .medium
  targetId : String := ""
  targetType : String := ""
  regionId : String := ""
  rollbackPlan : String := ""
  createdAt : ℚ := 0
  startedAt : ℚ := 0
  completedAt : ℚ := 0
  result : String := ""

structure DeploymentReport where
  deploymentId : String := ""
  status : String := ""
  errorRate : ℚ := 0
  regionId : String := ""

structure NodeReport where
  nodeId : String := ""
  status : String := ""
  restartCount1h : ℤ := 0
  regionId : String := ""

structure ServiceReport where
  serviceId : String := ""
  status : String := ""
  regionId : String := ""

structure ReplicaReport where
  replicaId : String := ""
  status : String := ""
  regionId : String := ""

structure RegionReport where
  regionId : String := ""
  errorRate : ℚ := 0

structure Telemetry where
  deployments : List DeploymentReport := []
  nodes : List NodeReport := []
  services : List ServiceReport := []
  replicas : List ReplicaReport := []
  regions : List RegionReport := []

namespace HealingAction

/-- The id of an action: the kind of failure, its target and the second. -/
def idOf (kind target : String) (ts : ℚ) : String :=
  "heal-" ++ kind ++ "-" ++ target ++ "-" ++ toString (Text.truncate ts)

def ofDeployment (ts : ℚ) (d : DeploymentReport) : Option HealingAction :=
  if d.status = "failed" ∨ 1/2 < d.errorRate then
    some
      { actionId := idOf "deploy" d.deploymentId ts
        actionType := .restartDeployment
        priority := if d.status = "failed" then .critical else .high
        targetId := d.deploymentId
        targetType := "deployment"
        regionId := d.regionId
        rollbackPlan := "Rollback deployment " ++ d.deploymentId ++ " to previous version"
        createdAt := ts }
  else none

def ofNode (ts : ℚ) (n : NodeReport) : Option HealingAction :=
  if n.status = "failed" then
    some
      { actionId := idOf "node" n.nodeId ts
        actionType := .replaceNode
        priority := .critical
        targetId := n.nodeId
        targetType := "node"
        regionId := n.regionId
        rollbackPlan := "Restore node " ++ n.nodeId ++ " from backup"
        createdAt := ts }
  else if 5 < n.restartCount1h then
    some
      { actionId := idOf "unstable" n.nodeId ts
        actionType := .rerouteWorkload
        priority := .high
        targetId := n.nodeId
        targetType := "node"
        regionId := n.regionId
        rollbackPlan := "Restore workloads to " ++ n.nodeId ++ " after stabilization"
        createdAt := ts }
  else none

def ofService (ts : ℚ) (s : ServiceReport) : Option HealingAction :=
  if s.status = "crashed" then
    some
      { actionId := idOf "svc" s.serviceId ts
        actionType := .rebuildService
        priority := .critical
        targetId := s.serviceId
        targetType := "service"
        regionId := s.regionId
        rollbackPlan := "Restore service " ++ s.serviceId ++ " from last known good state"
        createdAt := ts }
  else none

def ofReplica (ts : ℚ) (r : ReplicaReport) : Option HealingAction :=
  if r.status = "lost" then
    some
      { actionId := idOf "replica" r.replicaId ts
        actionType := .restoreReplica
        priority := .high
        targetId := r.replicaId
        targetType := "replica"
        regionId := r.regionId
        rollbackPlan := "Re-replicate from source"
        createdAt := ts }
  else none

def ofRegion (ts : ℚ) (reg : RegionReport) : Option HealingAction :=
  if 4/5 < reg.errorRate then
    some
      { actionId := idOf "isolate" reg.regionId ts
        actionType := .isolateRegion
        priority := .critical
        targetId := reg.regionId
        targetType := "region"
        regionId := reg.regionId
        rollbackPlan := "Re-enable region " ++ reg.regionId ++ " after stabilization"
        createdAt := ts }
  else none

def isCompleted (a : HealingAction) : Bool := a.status = .completed

def started (now : ℚ) (a : HealingAction) : HealingAction :=
  { a with status := .executing, startedAt := now }

def completed (a : HealingAction) : HealingAction := { a with status := .completed }

def healed (now : ℚ) (a : HealingAction) : HealingAction :=
  { a with completedAt := now, result := "healed" }

def rolledBack (a : HealingAction) : HealingAction := { a with status := .rolledBack }

end HealingAction

/-- The failures that `detect_failures` finds, the most urgent first. -/
def Telemetry.failures (ts : ℚ) (t : Telemetry) : List HealingAction :=
  (t.deployments.filterMap (HealingAction.ofDeployment ts) ++
    t.nodes.filterMap (HealingAction.ofNode ts) ++
    t.services.filterMap (HealingAction.ofService ts) ++
    t.replicas.filterMap (HealingAction.ofReplica ts) ++
    t.regions.filterMap (HealingAction.ofRegion ts)).insertionSort
      fun a b => a.priority.place ≤ b.priority.place

/-- An item of `_active_actions`: an id and the address of the action. -/
structure ActiveAction where
  actionId : String
  action : ℕ

instance : Keyed ActiveAction String := ⟨ActiveAction.actionId⟩

structure AutoHealingSystem where
  maxConcurrent : ℤ := 5
  maxHistory : ℤ := 1000
  objects : List HealingAction := []
  actions : List ℕ := []
  activeActions : Table ActiveAction := .empty
  totalHealed : ℕ := 0
  totalRollbacks : ℕ := 0
  events : List Json.Object := []
  locked : Bool := false

inductive HealingCall
  | detectFailures (ts : ℚ) (telemetry : Telemetry)
  | executeAction (action : ℕ)
  | rollbackAction (actionId : String)
  | heal (ts : ℚ) (telemetry : Telemetry)

/-- Where a call stands. The actions that a call of `heal` has still to execute come last. -/
inductive HealingTask
  | detecting (found : List HealingAction) (heals : Bool)
  | entering (actions : List ℕ)
  | executing (action : ℕ) (rest : List ℕ)
  | completed (action : ℕ) (rest : List ℕ)
  | leaving (action : ℕ) (rest : List ℕ)
  | asking (actionId : String)
  | scanning (actionId : String) (actions : List ℕ)
  | rolledBack (found : Bool)
  | done

namespace AutoHealingSystem
variable (s : AutoHealingSystem)

/-- Set attributes of an action. -/
def setAction (action : ℕ) (f : HealingAction → HealingAction) : AutoHealingSystem :=
  { s with objects := s.objects.modify action f }

/-- The end of `detect_failures`: the new actions are listed. -/
def listActions (found : List HealingAction) : AutoHealingSystem :=
  { s with
    objects := s.objects ++ found
    actions := truncated s.maxHistory
      (s.actions ++ List.range' s.objects.length found.length) }

/-- An action is taken up. -/
def takeUp (now : ℚ) (action : ℕ) (a : HealingAction) : AutoHealingSystem :=
  { s.setAction action (HealingAction.started now) with
    activeActions := s.activeActions.put ⟨a.actionId,action⟩ }

def completedEvent (a : HealingAction) : Json.Object :=
  [("type",.str "healing_completed"),("action_id",.str a.actionId),
    ("action_type",.str a.actionType.value),("target",.str a.targetId),
    ("region",.str a.regionId),
    ("duration_ms",.float (roundTo 1 ((a.completedAt-a.startedAt)*1000))),
    ("ts",.float a.completedAt)]

/-- An action is put down and counted. -/
def putDown (a : HealingAction) : AutoHealingSystem :=
  { s with
    activeActions := s.activeActions.erase a.actionId
    totalHealed := s.totalHealed+1
    events := truncated s.maxHistory (s.events ++ [completedEvent a]) }

def rolledBackEvent (now : ℚ) (a : HealingAction) : Json.Object :=
  [("type",.str "healing_rolled_back"),("action_id",.str a.actionId),
    ("rollback_plan",.str a.rollbackPlan),("ts",.float now)]

/-- A completed action is rolled back, and the lock given back. -/
def rollBack (now : ℚ) (action : ℕ) (a : HealingAction) : AutoHealingSystem :=
  { s.setAction action HealingAction.rolledBack with
    totalRollbacks := s.totalRollbacks+1
    events := s.events ++ [rolledBackEvent now a]
    locked := false }

/-- The next step of a call. One that needs the lock waits while a rollback has it. -/
def next (s : AutoHealingSystem) : HealingTask → ℚ → AutoHealingSystem × HealingTask
  | .detecting found heals, _ =>
    if s.locked then (s,.detecting found heals)
    else (s.listActions found,
      if heals then .entering (List.range' s.objects.length found.length) else .done)
  | .entering [], _ => (s,.done)
  | .entering (action :: rest), now =>
    if s.locked then (s,.entering (action :: rest))
    else
      match s.objects[action]? with
      | none => (s,.entering rest)
      | some a =>
        -- An action that finds no place is passed over and stays pending.
        if s.maxConcurrent ≤ s.activeActions.entries.length then (s,.entering rest)
        else (s.takeUp now action a,.executing action rest)
  | .executing action rest, _ =>
    (s.setAction action HealingAction.completed,.completed action rest)
  | .completed action rest, now =>
    (s.setAction action (HealingAction.healed now),.leaving action rest)
  | .leaving action rest, _ =>
    if s.locked then (s,.leaving action rest)
    else
      match s.objects[action]? with
      | none => (s,.entering rest)
      | some a => (s.putDown a,.entering rest)
  | .asking actionId, _ =>
    if s.locked then (s,.asking actionId)
    else ({ s with locked := true },.scanning actionId s.actions)
  | .scanning _ [], _ => ({ s with locked := false },.rolledBack false)
  | .scanning actionId (action :: rest), now =>
    match s.objects[action]? with
    | none => (s,.scanning actionId rest)
    | some a =>
      if a.actionId = actionId ∧ a.isCompleted then (s.rollBack now action a,.rolledBack true)
      else (s,.scanning actionId rest)
  | .rolledBack found, _ => (s,.rolledBack found)
  | .done, _ => (s,.done)

def enter : HealingCall → HealingTask
  | .detectFailures ts telemetry => .detecting (telemetry.failures ts) false
  | .executeAction action => .entering [action]
  | .rollbackAction actionId => .asking actionId
  | .heal ts telemetry => .detecting (telemetry.failures ts) true

/-- From outside come the actions that callers make themselves. -/
def program : Program AutoHealingSystem HealingTask HealingAction HealingCall ℚ where
  outside s a := { s with objects := s.objects ++ [a] }
  enter := enter
  next := next

end AutoHealingSystem

/-- The system and the calls that were made of it. -/
abbrev Healing := Pool AutoHealingSystem HealingTask

abbrev HealingEvent := PoolEvent HealingAction HealingCall ℚ

end Arsonist.Repair

/-! How many actions are executed at a time. The limit is one on the table of those under way, where
an action stands under its id; the second action of an id takes the place of the first. -/
namespace Arsonist.Repair
open Arsonist.Library

/-- The action that a call has taken up and not put down yet. -/
def HealingTask.underWay : HealingTask → Option ℕ
  | .executing action _ => some action
  | .completed action _ => some action
  | .leaving action _ => some action
  | _ => none

namespace AutoHealingSystem

def idOf (s : AutoHealingSystem) (action : ℕ) : Option String :=
  s.objects[action]?.map HealingAction.actionId

/-- The id of the action that a call has under way. -/
def carried (s : AutoHealingSystem) (p : HealingTask) : Option String := p.underWay.bind s.idOf

/-- The action that a call takes up in its next step. -/
def takenUp (s : AutoHealingSystem) : HealingTask → Option HealingAction
  | .entering (action :: _) =>
    if s.locked ∨ s.maxConcurrent ≤ s.activeActions.entries.length then none
    else s.objects[action]?
  | _ => none

/-- What a step of a call can do, with what is known when it does it. -/
inductive Does (s : AutoHealingSystem) (now : ℚ) :
    HealingTask → AutoHealingSystem → HealingTask → Prop
  | waits {p : HealingTask} : s.takenUp p = none → Does s now p s p
  | lists (found : List HealingAction) (heals : Bool) : s.locked = false →
      Does s now (.detecting found heals) (s.listActions found)
        (if heals then .entering (List.range' s.objects.length found.length) else .done)
  | ends : Does s now (.entering []) s .done
  | passesOver (action : ℕ) (rest : List ℕ) : s.takenUp (.entering (action :: rest)) = none →
      Does s now (.entering (action :: rest)) s (.entering rest)
  | takesUp (action : ℕ) (rest : List ℕ) (a : HealingAction) : s.objects[action]? = some a →
      s.takenUp (.entering (action :: rest)) = some a →
      (s.activeActions.entries.length : ℤ) < s.maxConcurrent →
      Does s now (.entering (action :: rest)) (s.takeUp now action a) (.executing action rest)
  | completes (action : ℕ) (rest : List ℕ) : Does s now (.executing action rest)
      (s.setAction action HealingAction.completed) (.completed action rest)
  | stamps (action : ℕ) (rest : List ℕ) : Does s now (.completed action rest)
      (s.setAction action (HealingAction.healed now)) (.leaving action rest)
  | loses (action : ℕ) (rest : List ℕ) : s.objects[action]? = none →
      Does s now (.leaving action rest) s (.entering rest)
  | putsDown (action : ℕ) (rest : List ℕ) (a : HealingAction) : s.objects[action]? = some a →
      Does s now (.leaving action rest) (s.putDown a) (.entering rest)
  | locks (actionId : String) : s.locked = false →
      Does s now (.asking actionId) { s with locked := true } (.scanning actionId s.actions)
  | unlocks (actionId : String) :
      Does s now (.scanning actionId []) { s with locked := false } (.rolledBack false)
  | scansOn (actionId : String) (action : ℕ) (rest : List ℕ) :
      Does s now (.scanning actionId (action :: rest)) s (.scanning actionId rest)
  | rollsBack (actionId : String) (action : ℕ) (rest : List ℕ) (a : HealingAction) :
      s.objects[action]? = some a → a.isCompleted = true →
      Does s now (.scanning actionId (action :: rest)) (s.rollBack now action a) (.rolledBack true)

theorem does_next (s : AutoHealingSystem) (p : HealingTask) (now : ℚ) :
    Does s now p (s.next p now).1 (s.next p now).2 := by
  cases p with
  | detecting found heals =>
    cases hlocked : s.locked with
    | true => simpa [next, hlocked] using @Does.waits s now _ rfl
    | false => simpa [next, hlocked] using @Does.lists s now found heals hlocked
  | entering actions =>
    cases actions with
    | nil => exact .ends
    | cons action rest =>
      cases hlocked : s.locked with
      | true =>
        have hnone : s.takenUp (.entering (action :: rest)) = none := by simp [takenUp, hlocked]
        simpa [next, hlocked] using @Does.waits s now _ hnone
      | false =>
        cases ha : s.objects[action]? with
        | none =>
          have hnone : s.takenUp (.entering (action :: rest)) = none := by simp [takenUp, ha]
          simpa [next, hlocked, ha] using @Does.passesOver s now action rest hnone
        | some a =>
          by_cases hfull : s.maxConcurrent ≤ s.activeActions.entries.length
          · have hnone : s.takenUp (.entering (action :: rest)) = none := by
              simp [takenUp, hfull]
            simpa [next, hlocked, ha, hfull] using @Does.passesOver s now action rest hnone
          · have hsome : s.takenUp (.entering (action :: rest)) = some a := by
              simp [takenUp, hlocked, hfull, ha]
            simpa [next, hlocked, ha, hfull] using
              @Does.takesUp s now action rest a ha hsome (not_le.mp hfull)
  | executing action rest => exact .completes action rest
  | completed action rest => exact .stamps action rest
  | leaving action rest =>
    cases hlocked : s.locked with
    | true => simpa [next, hlocked] using @Does.waits s now _ rfl
    | false =>
      cases ha : s.objects[action]? with
      | none => simpa [next, hlocked, ha] using @Does.loses s now action rest ha
      | some a => simpa [next, hlocked, ha] using @Does.putsDown s now action rest a ha
  | asking actionId =>
    cases hlocked : s.locked with
    | true => simpa [next, hlocked] using @Does.waits s now _ rfl
    | false => simpa [next, hlocked] using @Does.locks s now actionId hlocked
  | scanning actionId actions =>
    cases actions with
    | nil => exact .unlocks actionId
    | cons action rest =>
      cases ha : s.objects[action]? with
      | none => simpa [next, ha] using @Does.scansOn s now actionId action rest
      | some a =>
        by_cases hfound : a.actionId = actionId ∧ a.isCompleted
        · simpa [next, ha, hfound.1, hfound.2] using
            @Does.rollsBack s now actionId action rest a ha hfound.2
        · simpa [next, ha, if_neg hfound] using @Does.scansOn s now actionId action rest
  | rolledBack found => exact .waits rfl
  | done => exact .waits rfl

/-- What a step does to the table of the actions under way. -/
inductive SlotStep (s : AutoHealingSystem) (p : HealingTask) (s' : AutoHealingSystem)
    (p' : HealingTask) : Prop
  | keeps : s'.activeActions = s.activeActions → s'.carried p' = s.carried p →
      s.takenUp p = none → SlotStep s p s' p'
  | takesUp {a : HealingAction} (action : ℕ) : s.takenUp p = some a →
      (s.activeActions.entries.length : ℤ) < s.maxConcurrent →
      s'.activeActions = s.activeActions.put ⟨a.actionId,action⟩ →
      s.carried p = none → s'.carried p' = some a.actionId → SlotStep s p s' p'
  | putsDown {k : String} : s'.activeActions = s.activeActions.erase k → s.carried p = some k →
      s'.carried p' = none → s.takenUp p = none → SlotStep s p s' p'

variable {s s' : AutoHealingSystem} {p p' : HealingTask} {now : ℚ}

theorem idOf_setAction (s : AutoHealingSystem) (action : ℕ) {f : HealingAction → HealingAction}
    (hf : ∀ a, (f a).actionId = a.actionId) (x : ℕ) : (s.setAction action f).idOf x = s.idOf x := by
  rw [idOf, setAction, List.getElem?_modify, idOf, Option.map_eq_map, Option.map_map]
  congr 1
  funext a
  by_cases h : action = x
  · simp [h, hf]
  · simp [h]

/-- Actions keep their ids, and none goes away. -/
structure Keeps (s s' : AutoHealingSystem) : Prop where
  length : s.objects.length ≤ s'.objects.length
  idOf : ∀ x < s.objects.length, s'.idOf x = s.idOf x
  maxConcurrent : s'.maxConcurrent = s.maxConcurrent

theorem Keeps.refl (s : AutoHealingSystem) : s.Keeps s := ⟨le_rfl,fun _ _ => rfl,rfl⟩

theorem keeps_setAction (s : AutoHealingSystem) (action : ℕ) {f : HealingAction → HealingAction}
    (hf : ∀ a, (f a).actionId = a.actionId) : s.Keeps (s.setAction action f) :=
  ⟨(List.length_modify ..).ge,fun x _ => idOf_setAction s action hf x,rfl⟩

theorem keeps_append (s : AutoHealingSystem) (found : List HealingAction) :
    s.Keeps { s with objects := s.objects ++ found } where
  length := by simp
  idOf x hx := by rw [idOf, List.getElem?_append_left hx, AutoHealingSystem.idOf]
  maxConcurrent := rfl

theorem Does.keeps (h : Does s now p s' p') : s.Keeps s' := by
  cases h with
  | lists found => exact ⟨(s.keeps_append found).1,(s.keeps_append found).2,rfl⟩
  | takesUp action =>
    have hset := s.keeps_setAction action (f := HealingAction.started now) fun _ => rfl
    exact ⟨hset.1,hset.2,rfl⟩
  | completes action => exact s.keeps_setAction action fun _ => rfl
  | stamps action => exact s.keeps_setAction action fun _ => rfl
  | rollsBack _ action =>
    have hset := s.keeps_setAction action (f := HealingAction.rolledBack) fun _ => rfl
    exact ⟨hset.1,hset.2,rfl⟩
  | _ => exact ⟨le_rfl,fun _ _ => rfl,rfl⟩

/-- The action that a call has taken up exists. -/
theorem Does.known (h : Does s now p s' p')
    (hp : ∀ action, p.underWay = some action → action < s.objects.length) {action : ℕ}
    (haction : p'.underWay = some action) : action < s'.objects.length := by
  refine lt_of_lt_of_le ?_ h.keeps.length
  cases h with
  | lists found heals => cases heals <;> cases haction
  | takesUp _ _ a ha _ _ =>
    obtain rfl := Option.some.inj haction
    exact (List.getElem?_eq_some_iff.mp ha).1
  | waits _ => exact hp action haction
  | completes _ _ => exact hp action haction
  | stamps _ _ => exact hp action haction
  | _ => cases haction

theorem Does.slotStep (h : Does s now p s' p') : SlotStep s p s' p' := by
  cases h with
  | waits hnone => exact .keeps rfl rfl hnone
  | lists found heals => exact .keeps rfl (by cases heals <;> rfl) rfl
  | ends => exact .keeps rfl rfl rfl
  | passesOver _ _ hnone => exact .keeps rfl rfl hnone
  | takesUp action rest a ha hsome hfree =>
    have hid : s.idOf action = some a.actionId := by rw [idOf, ha]; rfl
    have hset := idOf_setAction s action (f := HealingAction.started now) (fun _ => rfl) action
    exact .takesUp action hsome hfree rfl rfl (hset.trans hid)
  | completes action rest =>
    have hset := idOf_setAction s action (f := HealingAction.completed) (fun _ => rfl) action
    exact .keeps rfl hset rfl
  | stamps action rest =>
    have hset := idOf_setAction s action (f := HealingAction.healed now) (fun _ => rfl) action
    exact .keeps rfl hset rfl
  | loses action rest ha =>
    have hid : s.idOf action = none := by rw [idOf, ha]; rfl
    exact .keeps rfl hid.symm rfl
  | putsDown action rest a ha =>
    have hid : s.idOf action = some a.actionId := by rw [idOf, ha]; rfl
    exact .putsDown rfl hid rfl rfl
  | locks => exact .keeps rfl rfl rfl
  | unlocks => exact .keeps rfl rfl rfl
  | scansOn => exact .keeps rfl rfl rfl
  | rollsBack => exact .keeps rfl rfl rfl

end AutoHealingSystem

open AutoHealingSystem

/-- The ids of the actions under way. -/
def namesUnderWay (s : Healing) : List String := s.procs.filterMap s.shared.carried

/-- No call takes up an action while one with its id is under way. -/
def TakesUpNew : Healing → HealingEvent → Prop :=
  Pool.AtAdvance fun s _ p _ => ∀ a, s.shared.takenUp p = some a → a.actionId ∉ namesUnderWay s

/-- The actions under way exist. -/
def Known (s : Healing) : Prop :=
  ∀ p ∈ s.procs, ∀ action, p.underWay = some action → action < s.shared.objects.length

variable {s : Healing} {x : AutoHealingSystem} {i : ℕ} {p : HealingTask} {now : ℚ}

theorem carried_of_keeps (hx : s.shared.Keeps x) (h : Known s) (hp : p ∈ s.procs) :
    x.carried p = s.shared.carried p := by
  rw [carried, carried]
  cases haction : p.underWay with
  | none => rfl
  | some action => exact hx.idOf action (h p hp action haction)

theorem filterMap_carried (hx : s.shared.Keeps x) (h : Known s) {procs : List HealingTask}
    (hprocs : procs ⊆ s.procs) : procs.filterMap x.carried = procs.filterMap s.shared.carried :=
  List.filterMap_congr fun _ hp => carried_of_keeps hx h (hprocs hp)

/-- What a step of a call does to the table and to the ids of the actions under way. -/
theorem slots_advance (h : Known s) (hp : s.procs[i]? = some p) (now : ℚ) :
    let t := s.step program (.advance i now)
    (t.shared.activeActions = s.shared.activeActions ∧ (namesUnderWay t).Perm (namesUnderWay s) ∧
      s.shared.takenUp p = none) ∨
    (∃ a action, s.shared.takenUp p = some a ∧
      (s.shared.activeActions.entries.length : ℤ) < s.shared.maxConcurrent ∧
      t.shared.activeActions = s.shared.activeActions.put ⟨a.actionId,action⟩ ∧
      (namesUnderWay t).Perm (a.actionId :: namesUnderWay s)) ∨
    ∃ k, t.shared.activeActions = s.shared.activeActions.erase k ∧
      (namesUnderWay s).Perm (k :: namesUnderWay t) ∧ s.shared.takenUp p = none := by
  intro t
  have hdoes := does_next s.shared p now
  have hold := Pool.filterMap_perm_others hp s.shared.carried
  have hnew : (namesUnderWay t).Perm
      (((s.shared.next p now).1.carried (s.shared.next p now).2).toList ++
        (s.procs.eraseIdx i).filterMap s.shared.carried) := by
    rw [← filterMap_carried hdoes.keeps h (List.eraseIdx_subset ..)]
    have hset := Pool.filterMap_set_perm_others hp (s.shared.next p now).2
      (s.shared.next p now).1.carried
    rwa [namesUnderWay, show t = _ from Pool.step_advance hp now]
  have hshared : t.shared = (s.shared.next p now).1 := by
    rw [show t = _ from Pool.step_advance hp now]
    rfl
  rw [hshared]
  cases hdoes.slotStep with
  | keeps hactive hsame hnone =>
    rw [hsame] at hnew
    exact Or.inl ⟨hactive,hnew.trans hold.symm,hnone⟩
  | takesUp action hsome hfree hactive hbefore hafter =>
    rw [hbefore] at hold
    rw [hafter] at hnew
    exact Or.inr (Or.inl ⟨_,action,hsome,hfree,hactive,hnew.trans (hold.symm.cons _)⟩)
  | putsDown hactive hbefore hafter hnone =>
    rw [hbefore] at hold
    rw [hafter] at hnew
    exact Or.inr (Or.inr ⟨_,hactive,hold.trans (hnew.symm.cons _),hnone⟩)

theorem known_step (h : Known s) (e : HealingEvent) : Known (s.step program e) := by
  cases e with
  | outside a =>
    intro p hp action haction
    exact (h p hp action haction).trans_le (s.shared.keeps_append [a]).length
  | start call =>
    intro p hp action haction
    obtain hp | hp := List.mem_append.mp hp
    · exact h p hp action haction
    · rw [List.mem_singleton.mp hp] at haction
      cases call <;> cases haction
  | advance i now =>
    cases hp : s.procs[i]? with
    | none => rwa [Pool.step_advance_none hp]
    | some p =>
      have hdoes := does_next s.shared p now
      rw [Pool.step_advance hp]
      intro q hq action haction
      obtain rfl | hold := Pool.mem_set hq
      · exact hdoes.known (h p (Pool.mem_of_getElem? hp)) haction
      · exact (h q hold action haction).trans_le hdoes.keeps.length

/-- The table is one of the actions under way, and within the limit. -/
structure Orderly (limit : ℤ) (s : Healing) : Prop where
  known : Known s
  registers : s.shared.activeActions.Registers (namesUnderWay s)
  maxConcurrent : s.shared.maxConcurrent = limit
  within : (s.shared.activeActions.entries.length : ℤ) ≤ max 0 limit

variable {limit : ℤ}

theorem names_outside (h : Known s) (a : HealingAction) :
    namesUnderWay (s.step program (.outside a)) = namesUnderWay s :=
  filterMap_carried (s.shared.keeps_append [a]) h (List.Subset.refl _)

theorem names_start (s : Healing) (call : HealingCall) :
    namesUnderWay (s.step program (.start call)) = namesUnderWay s := by
  rw [namesUnderWay, Pool.step, List.filterMap_append]
  cases call <;> exact List.append_nil _

theorem Orderly.step (h : Orderly limit s) (e : HealingEvent) :
    Orderly limit (s.step program e) := by
  cases e with
  | outside a =>
    refine ⟨known_step h.known _,?_,h.maxConcurrent,h.within⟩
    rw [names_outside h.known]
    exact h.registers
  | start call =>
    refine ⟨known_step h.known _,?_,h.maxConcurrent,h.within⟩
    rw [names_start]
    exact h.registers
  | advance i now =>
    cases hp : s.procs[i]? with
    | none => rwa [Pool.step_advance_none hp]
    | some p =>
      have hknown := known_step h.known (.advance i now)
      have hmax : (s.step program (.advance i now)).shared.maxConcurrent = limit := by
        rw [Pool.step_advance hp]
        exact (does_next s.shared p now).keeps.maxConcurrent.trans h.maxConcurrent
      have hwithin := h.within
      obtain ⟨ht,hnames,-⟩ | ⟨a,action,-,hfree,ht,hnames⟩ | ⟨k,ht,hnames,-⟩ :=
        slots_advance h.known hp now
      · refine ⟨hknown,?_,hmax,?_⟩
        · rw [ht]
          exact h.registers.of_perm hnames
        · rwa [ht]
      · refine ⟨hknown,?_,hmax,?_⟩
        · rw [ht]
          exact h.registers.put hnames
        · rw [h.maxConcurrent] at hfree
          rw [ht, Table.length_put]
          split_ifs <;> omega
      · refine ⟨hknown,?_,hmax,?_⟩
        · rw [ht]
          exact h.registers.erase hnames
        · have hlen := Table.length_erase s.shared.activeActions k
          rw [ht]
          omega

/-- As many actions are under way as the table has. -/
def Matched (s : Healing) : Prop :=
  (namesUnderWay s).length = s.shared.activeActions.entries.length

/-- When each action under way has its own record, it stays so exactly if the next one that is
taken up has a new id. -/
theorem Orderly.matched_step (h : Orderly limit s) (hs : Matched s) (e : HealingEvent) :
    Matched (s.step program e) ↔ TakesUpNew s e := by
  cases e with
  | outside a =>
    refine iff_of_true ?_ trivial
    rw [Matched, names_outside h.known]
    exact hs
  | start call =>
    refine iff_of_true ?_ trivial
    rw [Matched, names_start]
    exact hs
  | advance i now =>
    refine Pool.advance_iff_atAdvance (R := Matched) hs fun p hp => ?_
    rw [Matched]
    obtain ⟨ht,hnames,hnone⟩ | ⟨a,action,hsome,-,ht,hnames⟩ | ⟨k,ht,hnames,hnone⟩ :=
      slots_advance h.known hp now
    · rw [ht, hnames.length_eq, hnone]
      exact iff_of_true hs fun a ha => by cases ha
    · rw [ht, h.registers.length_put_iff hs hnames, hsome]
      exact ⟨fun hnew b hb => Option.some.inj hb ▸ hnew,fun hall => hall a rfl⟩
    · rw [ht, ← h.registers.length_erase hs hnames, hnone]
      exact iff_of_true rfl fun a ha => by cases ha

/-- A new system, of which nothing was asked yet. -/
def newHealing (maxConcurrent maxHistory : ℤ) : Healing :=
  ⟨{ maxConcurrent := maxConcurrent, maxHistory := maxHistory },[]⟩

theorem orderly_new (maxConcurrent maxHistory : ℤ) :
    Orderly maxConcurrent (newHealing maxConcurrent maxHistory) where
  known p hp := by cases hp
  registers k hk := by cases hk
  maxConcurrent := rfl
  within := le_max_left 0 maxConcurrent

/-- However the calls interleave, the table of active actions holds no more than the limit and
nothing but actions under way, so that it is empty when none is. It has all of them, and they are
within the limit, exactly as long as no action is taken up while one of its id is under way. -/
theorem activeActions_within_limit (maxConcurrent maxHistory : ℤ) (events : List HealingEvent) :
    let after := run (Pool.step program) (newHealing maxConcurrent maxHistory)
    (∀ p q, events = p ++ q →
      ((after p).shared.activeActions.entries.length : ℤ) ≤ max 0 maxConcurrent ∧
      ∀ a ∈ (after p).shared.activeActions.entries, a.actionId ∈ namesUnderWay (after p)) ∧
    ((∀ p q, events = p ++ q → (namesUnderWay (after p)).length =
        (after p).shared.activeActions.entries.length) ↔
      Along (Pool.step program) TakesUpNew (newHealing maxConcurrent maxHistory) events) := by
  intro after
  have hnew := orderly_new maxConcurrent maxHistory
  have hstep : ∀ s e, Orderly maxConcurrent s → Orderly maxConcurrent (Pool.step program s e) :=
    fun s e h => h.step e
  have hmatched : Matched (newHealing maxConcurrent maxHistory) := rfl
  constructor
  · rintro p q -
    have h := run_always hstep hnew p
    exact ⟨h.within,fun a ha => h.registers (List.mem_map_of_mem ha)⟩
  · refine (always_iff hmatched events).trans ?_
    refine along_congr (I := fun s => Orderly maxConcurrent s ∧ Matched s) ?_ ?_ ⟨hnew,hmatched⟩
    · exact fun s e hnext hs => ⟨hstep s e hs.1,hnext⟩
    · exact fun s e hs => hs.1.matched_step hs.2 e

/-- Two actions of one id in the table leave room for a third one. -/
example :
    let failed : String → HealingCall := fun id =>
      .heal 0 { deployments := [{ deploymentId := id, status := "failed" }] }
    namesUnderWay (run (Pool.step program) (newHealing 2 1000)
      [.start (failed "d"),.advance 0 0,.advance 0 0,.start (failed "d"),.advance 1 0,
        .advance 1 0,.start (failed "e"),.advance 2 0,.advance 2 0]) =
      ["heal-deploy-d-0","heal-deploy-d-0","heal-deploy-e-0"] := by decide +kernel

end Arsonist.Repair

/-! Whether each rollback undoes a healing that is counted. An action is completed before it is
counted, and in between it can be rolled back. While a rollback goes through the list, the lock
keeps the list as it is. -/
namespace Arsonist.Repair
open Arsonist.Library

namespace HealingTask

/-- The call has completed its action and not counted it yet. -/
def uncounted : HealingTask → ℤ
  | .completed _ _ => 1
  | .leaving _ _ => 1
  | _ => 0

/-- The call goes through the list and holds the lock. -/
def holdsLock : HealingTask → ℤ
  | .scanning _ _ => 1
  | _ => 0

theorem holdsLock_nonneg (p : HealingTask) : 0 ≤ p.holdsLock := by
  cases p <;> simp [holdsLock]

/-- What a call holds of the system: the failures it has found are not completed, and the actions
it goes through are listed. -/
def Sound (s : AutoHealingSystem) : HealingTask → Prop
  | .detecting found _ => ∀ a ∈ found, a.isCompleted = false
  | .scanning _ actions => actions ⊆ s.actions
  | _ => True

end HealingTask

/-- A count of which one element changes. -/
theorem countP_changed {l : List ℕ} (hl : l.Nodup) {P Q : ℕ → Bool} {x : ℕ}
    (h : ∀ y, y ≠ x → Q y = P y) :
    l.countP Q+(if x ∈ l ∧ P x then 1 else 0) = l.countP P+if x ∈ l ∧ Q x then 1 else 0 := by
  by_cases hx : x ∈ l
  · have hrest : (l.erase x).countP Q = (l.erase x).countP P :=
      List.countP_congr fun y hy => by rw [h y ((hl.mem_erase_iff.mp hy).1)]
    have hperm := List.perm_cons_erase hx
    rw [hperm.countP_eq Q, hperm.countP_eq P, List.countP_cons, List.countP_cons, hrest]
    simp only [hx, true_and]
    omega
  · have hall : l.countP Q = l.countP P :=
      List.countP_congr fun y hy => by rw [h y fun hyx => hx (hyx ▸ hy)]
    simp [hx, hall]

theorem isCompleted_of_mem_failures {ts : ℚ} {t : Telemetry} {a : HealingAction}
    (h : a ∈ t.failures ts) : a.isCompleted = false := by
  rw [Telemetry.failures, List.mem_insertionSort] at h
  simp only [List.mem_append, List.mem_filterMap] at h
  obtain (((⟨d,-,hd⟩ | ⟨d,-,hd⟩) | ⟨d,-,hd⟩) | ⟨d,-,hd⟩) | ⟨d,-,hd⟩ := h
  · rw [HealingAction.ofDeployment] at hd
    split at hd
    · cases hd
      rfl
    · cases hd
  · rw [HealingAction.ofNode] at hd
    split_ifs at hd
    · cases hd
      rfl
    · cases hd
      rfl
  · rw [HealingAction.ofService] at hd
    split_ifs at hd
    cases hd
    rfl
  · rw [HealingAction.ofReplica] at hd
    split_ifs at hd
    cases hd
    rfl
  · rw [HealingAction.ofRegion] at hd
    split_ifs at hd
    cases hd
    rfl

namespace AutoHealingSystem

def isDone (s : AutoHealingSystem) (action : ℕ) : Bool :=
  s.objects[action]?.any HealingAction.isCompleted

/-- How many actions of the list are completed. -/
def listedDone (s : AutoHealingSystem) : ℕ := s.actions.countP s.isDone

/-- The rollbacks, and those that can still be made, without the healings that are counted. -/
def excess (s : AutoHealingSystem) : ℤ := s.totalRollbacks+s.listedDone-s.totalHealed

/-- The list names existing actions, each once. -/
structure ListsOnce (s : AutoHealingSystem) : Prop where
  nodup : s.actions.Nodup
  exist : ∀ action ∈ s.actions, action < s.objects.length

variable {s s' : AutoHealingSystem} {p p' : HealingTask} {now : ℚ}

theorem isDone_setAction (s : AutoHealingSystem) (action : ℕ) (f : HealingAction → HealingAction)
    (x : ℕ) : (s.setAction action f).isDone x =
      if x = action then s.objects[x]?.any fun a => (f a).isCompleted else s.isDone x := by
  rw [isDone, setAction, List.getElem?_modify, isDone]
  by_cases h : x = action
  · subst h
    cases s.objects[x]? <;> simp
  · cases s.objects[x]? <;> simp [h, Ne.symm h]

theorem listedDone_setAction (h : s.ListsOnce) (action : ℕ) (f : HealingAction → HealingAction) :
    (s.setAction action f).listedDone+(if action ∈ s.actions ∧ s.isDone action then 1 else 0) =
      s.listedDone+if action ∈ s.actions ∧ (s.setAction action f).isDone action then 1 else 0 :=
  countP_changed h.nodup fun y hy => by rw [isDone_setAction, if_neg hy]

theorem ListsOnce.append (h : s.ListsOnce) (n : ℕ) :
    (s.actions ++ List.range' s.objects.length n).Nodup := by
  refine h.nodup.append List.nodup_range' ?_
  intro x hx hnew
  have := h.exist x hx
  rw [List.mem_range'_1] at hnew
  omega

theorem ListsOnce.lists (h : s.ListsOnce) (found : List HealingAction) :
    (s.listActions found).ListsOnce := by
  constructor
  · exact (h.append _).sublist (truncated_sublist _ _)
  · intro x hx
    simp only [listActions, List.length_append]
    obtain hx | hx := List.mem_append.mp (mem_of_mem_truncated hx)
    · have := h.exist x hx
      omega
    · rw [List.mem_range'_1] at hx
      exact hx.2

/-- New actions are not completed, and those cut off are not listed any more. -/
theorem listedDone_lists (h : s.ListsOnce) {found : List HealingAction}
    (hfound : ∀ a ∈ found, a.isCompleted = false) :
    (s.listActions found).listedDone ≤ s.listedDone := by
  have hsub : (s.listActions found).listedDone ≤
      (s.actions ++ List.range' s.objects.length found.length).countP
        (s.listActions found).isDone := (truncated_sublist _ _).countP_le
  have hold : s.actions.countP (s.listActions found).isDone = s.listedDone :=
    List.countP_congr fun x hx => by
      rw [isDone, listActions, List.getElem?_append_left (h.exist x hx), isDone]
  have hnew : (List.range' s.objects.length found.length).countP
      (s.listActions found).isDone = 0 := by
    rw [List.countP_eq_zero]
    intro x hx
    rw [List.mem_range'_1] at hx
    rw [isDone, listActions, List.getElem?_append_right hx.1]
    cases ha : found[x-s.objects.length]? with
    | none => exact Bool.false_ne_true
    | some a => simp [hfound a (List.mem_of_getElem? ha)]
  rw [List.countP_append, hold, hnew] at hsub
  exact hsub

theorem Does.listsOnce (h : Does s now p s' p') (hs : s.ListsOnce) : s'.ListsOnce := by
  have hlen := h.keeps.length
  cases h with
  | lists found => exact hs.lists found
  | _ => exact ⟨hs.nodup,fun x hx => (hs.exist x hx).trans_le hlen⟩

/-- A step brings no more rollbacks than the healings it counts, or lets be counted later. -/
theorem Does.excess_le (h : Does s now p s' p') (hs : s.ListsOnce) (hp : p.Sound s)
    (hknown : ∀ action, p.underWay = some action → action < s.objects.length) :
    s'.excess ≤ s.excess+(p'.uncounted-p.uncounted) := by
  cases h with
  | lists found heals _ =>
    have hle := listedDone_lists hs hp
    have hzero : (if heals then HealingTask.entering (List.range' s.objects.length found.length)
        else .done).uncounted = 0 := by cases heals <;> rfl
    rw [hzero]
    simp only [excess, HealingTask.uncounted]
    change (s.totalRollbacks : ℤ)+(s.listActions found).listedDone-s.totalHealed ≤ _
    omega
  | takesUp action rest a ha =>
    have hset := listedDone_setAction hs action (HealingAction.started now)
    have hdone : (s.setAction action (HealingAction.started now)).isDone action = false := by
      rw [isDone_setAction, if_pos rfl, ha]
      rfl
    rw [hdone] at hset
    change (s.totalRollbacks : ℤ)+(s.setAction action (HealingAction.started now)).listedDone-
      s.totalHealed ≤ s.totalRollbacks+s.listedDone-s.totalHealed+(0-0)
    simp only [Bool.false_eq_true, and_false, if_false] at hset
    omega
  | completes action rest =>
    have hset := listedDone_setAction hs action HealingAction.completed
    change (s.totalRollbacks : ℤ)+(s.setAction action HealingAction.completed).listedDone-
      s.totalHealed ≤ s.totalRollbacks+s.listedDone-s.totalHealed+(1-0)
    split_ifs at hset <;> omega
  | stamps action rest =>
    have hset := listedDone_setAction hs action (HealingAction.healed now)
    have hsame : (s.setAction action (HealingAction.healed now)).isDone action =
        s.isDone action := by
      rw [isDone_setAction, if_pos rfl]
      rfl
    rw [hsame] at hset
    change (s.totalRollbacks : ℤ)+(s.setAction action (HealingAction.healed now)).listedDone-
      s.totalHealed ≤ s.totalRollbacks+s.listedDone-s.totalHealed+(1-1)
    omega
  | loses action rest ha =>
    have hlt := hknown action rfl
    rw [List.getElem?_eq_getElem hlt] at ha
    cases ha
  | putsDown action rest a _ =>
    change (s.totalRollbacks : ℤ)+s.listedDone-((s.totalHealed+1 : ℕ) : ℤ) ≤
      s.totalRollbacks+s.listedDone-s.totalHealed+(0-1)
    omega
  | rollsBack actionId action rest a ha hcompleted =>
    have hmem : action ∈ s.actions := hp List.mem_cons_self
    have hset := listedDone_setAction hs action HealingAction.rolledBack
    have hbefore : s.isDone action = true := by
      rw [isDone, ha]
      exact hcompleted
    have hafter : (s.setAction action HealingAction.rolledBack).isDone action = false := by
      rw [isDone_setAction, if_pos rfl, ha]
      rfl
    rw [hbefore, hafter] at hset
    change ((s.totalRollbacks+1 : ℕ) : ℤ)+
      (s.setAction action HealingAction.rolledBack).listedDone-s.totalHealed ≤
        s.totalRollbacks+s.listedDone-s.totalHealed+(0-0)
    simp only [hmem, Bool.false_eq_true, and_false, and_true, if_false, if_true] at hset
    omega
  | waits _ => rw [sub_self, add_zero]
  | ends => exact (add_zero _).ge
  | passesOver _ _ _ => exact (add_zero _).ge
  | locks _ _ => exact (add_zero _).ge
  | unlocks _ => exact (add_zero _).ge
  | scansOn _ _ _ => exact (add_zero _).ge

/-- The lock is taken and given back with the place of the call. -/
theorem Does.lock (h : Does s now p s' p') (hp : 0 < p.holdsLock → s.locked = true) :
    (if s'.locked then (1 : ℤ) else 0) =
      (if s.locked then 1 else 0)+(p'.holdsLock-p.holdsLock) := by
  cases h with
  | waits _ => rw [sub_self, add_zero]
  | lists found heals hfree =>
    have hzero : (if heals then HealingTask.entering (List.range' s.objects.length found.length)
        else .done).holdsLock = 0 := by cases heals <;> rfl
    rw [hzero]
    exact (add_zero _).symm
  | locks _ hfree =>
    rw [hfree]
    rfl
  | unlocks _ =>
    rw [hp one_pos]
    rfl
  | rollsBack _ _ _ _ _ _ =>
    rw [hp one_pos]
    rfl
  | scansOn _ _ _ => exact (add_zero _).symm
  | _ => exact (add_zero _).symm

/-- The list changes only while the lock is free. -/
theorem Does.actions (h : Does s now p s' p') : s'.actions = s.actions ∨ s.locked = false := by
  cases h with
  | lists _ _ hfree => exact Or.inr hfree
  | _ => exact Or.inl rfl

theorem Does.sound (h : Does s now p s' p') (hp : p.Sound s) : p'.Sound s' := by
  cases h with
  | waits _ => exact hp
  | lists found heals _ => cases heals <;> trivial
  | locks _ _ => exact List.Subset.refl _
  | scansOn _ _ _ => exact List.subset_of_cons_subset hp
  | _ => trivial

/-- What a call holds, it holds while the others take their steps. -/
theorem Does.sound_other (h : Does s now p s' p') {q : HealingTask} (hq : q.Sound s)
    (hlock : 0 < q.holdsLock → s.locked = true) : q.Sound s' := by
  cases q with
  | scanning actionId actions =>
    obtain hsame | hfree := h.actions
    · rw [HealingTask.Sound, hsame]
      exact hq
    · rw [hlock one_pos] at hfree
      cases hfree
  | detecting found heals => exact hq
  | _ => trivial

end AutoHealingSystem

open AutoHealingSystem

/-- The rollbacks are accounted for, and whoever goes through the list has the lock. -/
structure Accounted (s : Healing) : Prop where
  known : Known s
  lists : s.shared.ListsOnce
  lock : s.total HealingTask.holdsLock = if s.shared.locked then 1 else 0
  sound : ∀ p ∈ s.procs, p.Sound s.shared
  excess : s.shared.excess ≤ s.total HealingTask.uncounted

variable {s : Healing} {p : HealingTask}

theorem Accounted.locked (h : Accounted s) (hp : p ∈ s.procs) (hlock : 0 < p.holdsLock) :
    s.shared.locked = true := by
  have hle : p.holdsLock ≤ s.total HealingTask.holdsLock := by
    refine List.single_le_sum ?_ _ (List.mem_map_of_mem hp)
    intro n hn
    obtain ⟨q,-,rfl⟩ := List.mem_map.mp hn
    exact q.holdsLock_nonneg
  rw [h.lock] at hle
  by_contra hfree
  rw [if_neg hfree] at hle
  omega

theorem Accounted.step (h : Accounted s) (e : HealingEvent) : Accounted (s.step program e) := by
  cases e with
  | outside a =>
    refine ⟨known_step h.known _,⟨h.lists.nodup,?_⟩,h.lock,?_,?_⟩
    · exact fun x hx => (h.lists.exist x hx).trans_le (s.shared.keeps_append [a]).length
    · intro p hp
      have hsound := h.sound p hp
      cases p <;> exact hsound
    · have hdone : listedDone { s.shared with objects := s.shared.objects ++ [a] } =
          s.shared.listedDone :=
        List.countP_congr fun x hx => by
          rw [isDone, List.getElem?_append_left (h.lists.exist x hx), isDone]
      have hexcess := h.excess
      rw [AutoHealingSystem.excess] at hexcess ⊢
      change (s.shared.totalRollbacks : ℤ)+
        listedDone { s.shared with objects := s.shared.objects ++ [a] }-s.shared.totalHealed ≤ _
      rw [hdone]
      exact hexcess
  | start call =>
    have hlock : (enter call).holdsLock = 0 := by cases call <;> rfl
    have huncounted : (enter call).uncounted = 0 := by cases call <;> rfl
    refine ⟨known_step h.known _,h.lists,?_,?_,?_⟩
    · rw [Pool.total_start, h.lock]
      exact (congrArg _ hlock).trans (add_zero _)
    · intro p hp
      obtain hp | hp := List.mem_append.mp hp
      · exact h.sound p hp
      · rw [List.mem_singleton.mp hp]
        cases call with
        | detectFailures ts telemetry => exact fun a ha => isCompleted_of_mem_failures ha
        | heal ts telemetry => exact fun a ha => isCompleted_of_mem_failures ha
        | executeAction action => trivial
        | rollbackAction actionId => trivial
    · rw [Pool.total_start]
      exact h.excess.trans (congrArg _ huncounted |>.trans (add_zero _)).ge
  | advance i now =>
    cases hp : s.procs[i]? with
    | none => rwa [Pool.step_advance_none hp]
    | some p =>
      have hmem := Pool.mem_of_getElem? hp
      have hdoes := does_next s.shared p now
      have hpool : s.step program (.advance i now) = _ := Pool.step_advance hp now
      refine ⟨known_step h.known _,?_,?_,?_,?_⟩
      · rw [hpool]
        exact hdoes.listsOnce h.lists
      · rw [Pool.total_advance _ hp, h.lock, hpool]
        exact (hdoes.lock (h.locked hmem)).symm
      · rw [hpool]
        intro q hq
        obtain rfl | hold := Pool.mem_set hq
        · exact hdoes.sound (h.sound p hmem)
        · exact hdoes.sound_other (h.sound q hold) (h.locked hold)
      · rw [Pool.total_advance _ hp, hpool]
        refine (hdoes.excess_le h.lists (h.sound p hmem) (h.known p hmem)).trans ?_
        exact add_le_add_left h.excess _

/-- However the calls interleave, each rollback that is counted undid a healing: there are no more
of them than healings that are counted, or are completed and will be when their calls go on. The
lock is held exactly while one rollback goes through the list. -/
theorem rollbacks_le_healed (maxConcurrent maxHistory : ℤ) (events : List HealingEvent) :
    let s := run (Pool.step program) (newHealing maxConcurrent maxHistory) events
    (s.shared.totalRollbacks+s.shared.listedDone : ℤ) ≤
        s.shared.totalHealed+s.total HealingTask.uncounted ∧
      s.total HealingTask.holdsLock = if s.shared.locked then 1 else 0 := by
  have hstep : ∀ s e, Accounted s → Accounted (Pool.step program s e) := fun s e h => h.step e
  have hnew : Accounted (newHealing maxConcurrent maxHistory) := by
    refine ⟨fun p hp => ?_,⟨List.nodup_nil,fun x hx => ?_⟩,rfl,fun p hp => ?_,le_rfl⟩
    · cases hp
    · cases hx
    · cases hp
  have h := run_always hstep hnew events
  refine ⟨?_,h.lock⟩
  have hexcess := h.excess
  rw [AutoHealingSystem.excess] at hexcess
  exact sub_le_iff_le_add'.mp hexcess

end Arsonist.Repair
