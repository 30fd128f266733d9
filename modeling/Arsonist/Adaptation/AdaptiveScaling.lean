import Arsonist.Library.History
import Arsonist.Library.Json
import Arsonist.Library.Keyed
import Arsonist.Library.Steps
import Arsonist.Library.Text
import Arsonist.Shared.Rounding

/-! The autoscaler of `adaptation/adaptive_scaling.py`. Each use of the clock is a reading of its
own: an evaluation reads it once at its beginning and once for each resource that it looks at, and
an execution once more. The list `_actions`, which is only shown, is left out. -/
namespace Arsonist.Adaptation
open Arsonist.Library Arsonist.Shared

inductive ScaleDirection | up | down | none
  deriving DecidableEq

/-- The resources that are looked at for each region, with the fields that tell of them. -/
inductive ScaledResource | gpu | workers | replicas
  deriving DecidableEq

namespace ScaledResource

def value : ScaledResource → String
  | gpu => "gpu"
  | workers => "workers"
  | replicas => "replicas"

def usageKey : ScaledResource → String
  | gpu => "gpu_utilization"
  | workers => "cpu_utilization"
  | replicas => "workload_saturation"

end ScaledResource

/-- An entry of `telemetry["regions"]`: each of its fields may be missing. -/
structure ScaledRegion where
  regionId : Option String := none
  gpuUtilization : Option ℚ := none
  cpuUtilization : Option ℚ := none
  workloadSaturation : Option ℚ := none
  totalGpus : Option ℤ := none
  workerCount : Option ℤ := none
  replicaCount : Option ℤ := none

namespace ScaledRegion
variable (r : ScaledRegion)

def id : String := r.regionId.getD "unknown"

/-- `r.get(usage_key, 0.0)`. -/
def usage : ScaledResource → ℚ
  | .gpu => r.gpuUtilization.getD 0
  | .workers => r.cpuUtilization.getD 0
  | .replicas => r.workloadSaturation.getD 0

/-- `r.get(count_key, 0)`. -/
def count : ScaledResource → ℤ
  | .gpu => r.totalGpus.getD 0
  | .workers => r.workerCount.getD 0
  | .replicas => r.replicaCount.getD 0

end ScaledRegion

structure ScaleAction where
  actionId : String
  regionId : String
  resourceType : ScaledResource
  direction : ScaleDirection
  currentCount : ℤ
  targetCount : ℤ
  delta : ℤ
  trigger : String
  confidence : ℚ
  cooldownS : ℚ
  executed : Bool := false
  createdAt : ℚ
  executedAt : ℚ := 0

/-- `f"{resource}:{region_id}"`. -/
def scaleKey (resource : ScaledResource) (regionId : String) : String :=
  resource.value ++ ":" ++ regionId

def ScaleAction.key (action : ScaleAction) : String := scaleKey action.resourceType action.regionId

/-- An entry of `_last_scale`. -/
structure ScaleStamp where
  key : String
  lastAt : ℚ

instance : Keyed ScaleStamp String := ⟨ScaleStamp.key⟩

@[simp] theorem ScaleStamp.key_eq (stamp : ScaleStamp) : Keyed.key stamp = stamp.key := rfl

structure AdaptiveScaler where
  upThreshold : ℚ := 80/100
  downThreshold : ℚ := 30/100
  cooldown : ℚ := 60
  maxStep : ℤ := 5
  maxHistory : ℤ := 500
  lastScale : Table ScaleStamp := .empty
  totalScaleUps : ℕ := 0
  totalScaleDowns : ℕ := 0
  events : List Json.Object := []

namespace AdaptiveScaler
variable (s : AdaptiveScaler) (clock : ℕ → ℚ)

/-- The time of the last execution, and zero before the first one. -/
def last (key : String) : ℚ := ((s.lastScale.get? key).map ScaleStamp.lastAt).getD 0

def inCooldown (now : ℚ) (key : String) : Bool := now-s.last key < s.cooldown

def scaleUp (ts : ℚ) (region : ScaledRegion) (resource : ScaledResource) : ScaleAction :=
  let usage := region.usage resource
  let current := region.count resource
  let delta := min s.maxStep (max 1 (Text.truncate (current*(usage-s.upThreshold))))
  { actionId := "scale-up-" ++ resource.value ++ "-" ++ region.id ++ "-" ++
      (Text.truncate ts).repr
    regionId := region.id
    resourceType := resource
    direction := .up
    currentCount := current
    targetCount := current+delta
    delta := delta
    trigger := resource.usageKey ++ "=" ++ formatFixed 2 usage ++ " > " ++
      String.ofList (Json.writeFloat s.upThreshold)
    confidence := min (95/100) usage
    cooldownS := s.cooldown
    createdAt := ts }

/-- By how much a count is lowered. -/
def downDelta (usage : ℚ) (current : ℤ) : ℤ :=
  min (min s.maxStep (max 1 (Text.truncate (current*(s.downThreshold-usage)*(1/2))))) (current-1)

def scaleDown (ts : ℚ) (region : ScaledRegion) (resource : ScaledResource) : ScaleAction :=
  let usage := region.usage resource
  let current := region.count resource
  let delta := s.downDelta usage current
  { actionId := "scale-down-" ++ resource.value ++ "-" ++ region.id ++ "-" ++
      (Text.truncate ts).repr
    regionId := region.id
    resourceType := resource
    direction := .down
    currentCount := current
    targetCount := current-delta
    delta := -delta
    trigger := resource.usageKey ++ "=" ++ formatFixed 2 usage ++ " < " ++
      String.ofList (Json.writeFloat s.downThreshold)
    confidence := min (95/100) (1-usage)
    cooldownS := s.cooldown
    createdAt := ts }

/-- What is proposed for a resource that is not cooling down. -/
def propose (ts : ℚ) (region : ScaledRegion) (resource : ScaledResource) : Option ScaleAction :=
  let usage := region.usage resource
  let current := region.count resource
  if s.upThreshold < usage then some (s.scaleUp ts region resource)
  else if usage < s.downThreshold ∧ 1 < current ∧ 0 < s.downDelta usage current then
    some (s.scaleDown ts region resource)
  else none

/-- The loops of `evaluate`, with the number of the next reading before and after. -/
def evaluateAll (ts : ℚ) : ℕ → List (ScaledRegion × ScaledResource) → ℕ × List ScaleAction
  | n, [] => (n,[])
  | n, (region,resource) :: rest =>
    if region.count resource = 0 ∧ resource ≠ .gpu then evaluateAll ts n rest
    else if s.inCooldown (clock n) (scaleKey resource region.id) then evaluateAll ts (n+1) rest
    else
      let (n',actions) := evaluateAll ts (n+1) rest
      (n',(s.propose ts region resource).toList ++ actions)

/-- Each region with each resource. -/
def resourcesOf (regions : List ScaledRegion) : List (ScaledRegion × ScaledResource) :=
  regions.flatMap fun r => [(r,.gpu),(r,.workers),(r,.replicas)]

def evaluate (n : ℕ) (regions : List ScaledRegion) : ℕ × List ScaleAction :=
  s.evaluateAll clock (clock n) (n+1) (resourcesOf regions)

def directionValue : ScaleDirection → String
  | .up => "up"
  | .down => "down"
  | .none => "none"

def executedEvent (action : ScaleAction) : Json.Object :=
  [("type",.str "scale_executed"),("action_id",.str action.actionId),
    ("direction",.str (directionValue action.direction)),
    ("resource",.str action.resourceType.value),("region",.str action.regionId),
    ("delta",.int action.delta),("ts",.float action.executedAt)]

def execute (now : ℚ) (action : ScaleAction) : AdaptiveScaler × ScaleAction :=
  let action := { action with executed := true, executedAt := now }
  let ups := action.direction = .up
  ({ s with
      lastScale := s.lastScale.put ⟨action.key,action.executedAt⟩
      totalScaleUps := if ups then s.totalScaleUps+1 else s.totalScaleUps
      totalScaleDowns := if ups then s.totalScaleDowns else s.totalScaleDowns+1
      events := truncated s.maxHistory (s.events ++ [executedEvent action]) },action)

end AdaptiveScaler

/-- A scaler, and the number of the next reading of the clock. -/
structure ClockedScaler where
  scaler : AdaptiveScaler
  reading : ℕ := 0

namespace ClockedScaler
variable (clock : ℕ → ℚ)

/-- The loop of `scale`: the actions are executed one after the other. -/
def executeAll : ClockedScaler → List ScaleAction → ClockedScaler × List ScaleAction
  | c, [] => (c,[])
  | c, a :: rest =>
    let (s,a) := c.scaler.execute (clock c.reading) a
    let (c,executed) := executeAll ⟨s,c.reading+1⟩ rest
    (c,a :: executed)

def scale (c : ClockedScaler) (regions : List ScaledRegion) : ClockedScaler × List ScaleAction :=
  let (n,actions) := c.scaler.evaluate clock c.reading regions
  executeAll clock ⟨c.scaler,n⟩ actions

end ClockedScaler
end Arsonist.Adaptation

/-! The autoscaler neither flaps nor overshoots: actions on one resource of one region are at least
a cooldown apart, and each one is a step of limited size that leaves something running. -/
namespace Arsonist.Adaptation
open Arsonist.Library

/-- An action as it should be. -/
structure ScaleAction.Steady (maxStep : ℤ) (a : ScaleAction) : Prop where
  target : a.targetCount = a.currentCount+a.delta
  one_le : 1 ≤ |a.delta|
  le_maxStep : |a.delta| ≤ maxStep
  down : a.direction = .down → 1 ≤ a.targetCount

/-- Actions on one resource of one region are at least a cooldown apart. -/
def Spaced (cooldown : ℚ) (log : List ScaleAction) : Prop :=
  log.Pairwise fun a b => a.resourceType = b.resourceType → a.regionId = b.regionId →
    cooldown ≤ b.executedAt-a.executedAt

/-- The names of the resources differ in their first letters, so that a key tells resource and
region apart. -/
theorem scaleKey_inj {resource resource' : ScaledResource} {regionId regionId' : String}
    (h : scaleKey resource regionId = scaleKey resource' regionId') :
    resource = resource' ∧ regionId = regionId' := by
  have hhead := congrArg (fun k : String => k.toList.head?) h
  have hresource : resource = resource' := by
    cases resource <;> cases resource' <;>
      first | rfl | simp [scaleKey, ScaledResource.value] at hhead
  subst hresource
  exact ⟨rfl,(String.append_right_inj _).mp h⟩

namespace AdaptiveScaler
variable {s : AdaptiveScaler} {clock : ℕ → ℚ}

theorem steady_scaleUp (h : 1 ≤ s.maxStep) (ts : ℚ) (region : ScaledRegion)
    (resource : ScaledResource) : (s.scaleUp ts region resource).Steady s.maxStep := by
  have hlow : 1 ≤ (s.scaleUp ts region resource).delta := le_min h (le_max_left _ _)
  have hhigh : (s.scaleUp ts region resource).delta ≤ s.maxStep := min_le_left _ _
  have habs := abs_of_nonneg (zero_le_one.trans hlow)
  exact ⟨rfl,hlow.trans_eq habs.symm,habs.trans_le hhigh,nofun⟩

theorem steady_scaleDown (ts : ℚ) (region : ScaledRegion) (resource : ScaledResource)
    (h : 0 < s.downDelta (region.usage resource) (region.count resource)) :
    (s.scaleDown ts region resource).Steady s.maxStep := by
  have habs : |(s.scaleDown ts region resource).delta| =
      s.downDelta (region.usage resource) (region.count resource) :=
    (abs_neg _).trans (abs_of_pos h)
  have hhigh : s.downDelta (region.usage resource) (region.count resource) ≤ s.maxStep :=
    (min_le_left _ _).trans (min_le_left _ _)
  have hleft : s.downDelta (region.usage resource) (region.count resource) ≤
      region.count resource-1 := min_le_right _ _
  refine ⟨sub_eq_add_neg _ _,habs.symm ▸ h,habs.trans_le hhigh,fun _ => ?_⟩
  change 1 ≤ region.count resource-s.downDelta (region.usage resource) (region.count resource)
  omega

theorem steady_of_propose (h : 1 ≤ s.maxStep) {ts : ℚ} {region : ScaledRegion}
    {resource : ScaledResource} {a : ScaleAction} (ha : s.propose ts region resource = some a) :
    a.Steady s.maxStep ∧ a.resourceType = resource ∧ a.regionId = region.id := by
  rw [propose] at ha
  split_ifs at ha with hup hdown
  · obtain rfl := Option.some.inj ha
    exact ⟨steady_scaleUp h ts region resource,rfl,rfl⟩
  · obtain rfl := Option.some.inj ha
    exact ⟨steady_scaleDown ts region resource hdown.2.2,rfl,rfl⟩

/-- What an evaluation proposes: steady actions on different resources, none of which was cooling
down at a reading of the clock that the evaluation made. -/
structure Evaluated (s : AdaptiveScaler) (clock : ℕ → ℚ)
    (pairs : List (ScaledRegion × ScaledResource)) (n n' : ℕ) (actions : List ScaleAction) :
    Prop where
  le : n ≤ n'
  steady : ∀ a ∈ actions, a.Steady s.maxStep
  cooled : ∀ a ∈ actions, ∃ m ≤ n', s.cooldown ≤ clock m-s.last a.key
  distinct : (actions.map fun a => (a.resourceType,a.regionId)).Sublist
    (pairs.map fun p => (p.2,p.1.id))

theorem evaluated_evaluateAll (h : 1 ≤ s.maxStep) (ts : ℚ)
    (pairs : List (ScaledRegion × ScaledResource)) (n : ℕ) :
    s.Evaluated clock pairs n (s.evaluateAll clock ts n pairs).1
      (s.evaluateAll clock ts n pairs).2 := by
  induction pairs generalizing n with
  | nil =>
    rw [evaluateAll]
    exact ⟨le_rfl,fun _ ha => absurd ha List.not_mem_nil,fun _ ha => absurd ha List.not_mem_nil,
      List.Sublist.refl _⟩
  | cons p rest ih =>
    obtain ⟨region,resource⟩ := p
    rw [evaluateAll]
    by_cases hskip : region.count resource = 0 ∧ resource ≠ .gpu
    · rw [if_pos hskip]
      obtain ⟨hle,hsteady,hcooled,hdistinct⟩ := ih n
      exact ⟨hle,hsteady,hcooled,hdistinct.cons _⟩
    · rw [if_neg hskip]
      obtain ⟨hle,hsteady,hcooled,hdistinct⟩ := ih (n+1)
      by_cases hcool : s.inCooldown (clock n) (scaleKey resource region.id) = true
      · rw [if_pos hcool]
        exact ⟨(Nat.le_succ n).trans hle,hsteady,hcooled,hdistinct.cons _⟩
      · rw [if_neg hcool]
        dsimp only
        have hnow : s.cooldown ≤ clock n-s.last (scaleKey resource region.id) := by
          rw [inCooldown, decide_eq_true_iff] at hcool
          exact not_lt.mp hcool
        cases hpropose : s.propose ts region resource with
        | none => exact ⟨(Nat.le_succ n).trans hle,hsteady,hcooled,hdistinct.cons _⟩
        | some a =>
          obtain ⟨ha,hresource,hregion⟩ := steady_of_propose h hpropose
          have hkey : a.key = scaleKey resource region.id := by
            rw [ScaleAction.key, hresource, hregion]
          refine ⟨(Nat.le_succ n).trans hle,?_,?_,?_⟩
          · exact List.forall_mem_cons.mpr ⟨ha,hsteady⟩
          · refine List.forall_mem_cons.mpr ⟨⟨n,(Nat.le_succ n).trans hle,?_⟩,hcooled⟩
            rw [hkey]
            exact hnow
          · rw [Option.toList_some, List.singleton_append, List.map_cons, List.map_cons, hresource,
              hregion]
            exact hdistinct.cons_cons _

/-- A telemetry that lists each region once asks for each resource once. -/
theorem nodup_resourcesOf {regions : List ScaledRegion}
    (h : (regions.map ScaledRegion.id).Nodup) :
    ((resourcesOf regions).map fun p => (p.2,p.1.id)).Nodup := by
  let asked := fun id : String =>
    [(ScaledResource.gpu,id),(ScaledResource.workers,id),(ScaledResource.replicas,id)]
  have hasked : ((resourcesOf regions).map fun p => (p.2,p.1.id)) =
      (regions.map ScaledRegion.id).flatMap asked := by
    rw [resourcesOf, List.map_flatMap, List.flatMap_map]
    rfl
  rw [hasked, List.nodup_flatMap]
  refine ⟨fun id _ => by simp [asked],h.imp fun hne => ?_⟩
  simp only [Function.onFun, asked, List.disjoint_left]
  intro p hp hp'
  simp only [List.mem_cons, List.not_mem_nil, or_false] at hp hp'
  rcases hp with rfl | rfl | rfl <;> simp [hne] at hp'

end AdaptiveScaler

namespace ClockedScaler
variable {clock : ℕ → ℚ} {cooldown : ℚ} {maxStep : ℤ} {log : List ScaleAction}

/-- What holds of the actions that were executed so far: for each of them the scaler remembers a
time that is not before its execution. -/
structure Steadied (clock : ℕ → ℚ) (cooldown : ℚ) (maxStep : ℤ) (log : List ScaleAction)
    (c : ClockedScaler) : Prop where
  cooldown_eq : c.scaler.cooldown = cooldown
  maxStep_eq : c.scaler.maxStep = maxStep
  spaced : Spaced cooldown log
  steady : ∀ a ∈ log, a.Steady maxStep
  past : ∀ a ∈ log, a.executedAt ≤ clock c.reading
  stamped : ∀ a ∈ log, ∃ stamp, c.scaler.lastScale.get? a.key = some stamp ∧
    a.executedAt ≤ stamp.lastAt

/-- Readings of the clock change nothing. -/
theorem Steadied.wait (hclock : Monotone clock) {s : AdaptiveScaler} {n n' : ℕ}
    (h : Steadied clock cooldown maxStep log ⟨s,n⟩) (hn : n ≤ n') :
    Steadied clock cooldown maxStep log ⟨s,n'⟩ :=
  { h with past := fun a ha => (h.past a ha).trans (hclock hn) }

/-- An action that keeps its distance is executed. -/
theorem Steadied.execute (hclock : Monotone clock) {s : AdaptiveScaler} {n : ℕ}
    (h : Steadied clock cooldown maxStep log ⟨s,n⟩) {a : ScaleAction} (ha : a.Steady maxStep)
    (hready : ∀ b ∈ log, b.key = a.key → cooldown ≤ clock n-b.executedAt) :
    Steadied clock cooldown maxStep (log ++ [(s.execute (clock n) a).2])
      ⟨(s.execute (clock n) a).1,n+1⟩ where
  cooldown_eq := h.cooldown_eq
  maxStep_eq := h.maxStep_eq
  spaced := by
    rw [Spaced, List.pairwise_append]
    refine ⟨h.spaced,List.pairwise_singleton _ _,fun b hb c hc hresource hregion => ?_⟩
    obtain rfl := List.mem_singleton.mp hc
    refine hready b hb ?_
    rw [ScaleAction.key, hresource, hregion]
    rfl
  steady := by
    intro b hb
    obtain hb | hb := List.mem_append.mp hb
    · exact h.steady b hb
    · obtain rfl := List.mem_singleton.mp hb
      exact ⟨ha.target,ha.one_le,ha.le_maxStep,ha.down⟩
  past := by
    intro b hb
    refine le_trans ?_ (hclock (Nat.le_succ n))
    obtain hb | hb := List.mem_append.mp hb
    · exact h.past b hb
    · obtain rfl := List.mem_singleton.mp hb
      exact le_rfl
  stamped := by
    intro b hb
    have hget := Table.get?_put s.lastScale ⟨a.key,clock n⟩ b.key
    rw [ScaleStamp.key_eq] at hget
    obtain hb | hb := List.mem_append.mp hb
    · by_cases hkey : b.key = a.key
      · rw [if_pos hkey] at hget
        exact ⟨_,hget,h.past b hb⟩
      · rw [if_neg hkey] at hget
        obtain ⟨stamp,hstamp,hle⟩ := h.stamped b hb
        exact ⟨stamp,hget.trans hstamp,hle⟩
    · obtain rfl := List.mem_singleton.mp hb
      have hkey : (s.execute (clock n) a).2.key = a.key := rfl
      rw [if_pos hkey] at hget
      exact ⟨_,hget,le_rfl⟩

/-- Actions on different resources that keep their distance are executed one after the other. -/
theorem Steadied.executeAll (hclock : Monotone clock) {c : ClockedScaler}
    (h : Steadied clock cooldown maxStep log c) {actions : List ScaleAction}
    (hsteady : ∀ a ∈ actions, a.Steady maxStep) (hdistinct : (actions.map ScaleAction.key).Nodup)
    (hready : ∀ a ∈ actions, ∀ b ∈ log, b.key = a.key →
      cooldown ≤ clock c.reading-b.executedAt) :
    Steadied clock cooldown maxStep (log ++ (executeAll clock c actions).2)
      (executeAll clock c actions).1 := by
  induction actions generalizing c log with
  | nil =>
    rw [ClockedScaler.executeAll, List.append_nil]
    exact h
  | cons a rest ih =>
    obtain ⟨ha,hrest⟩ := List.forall_mem_cons.mp hsteady
    obtain ⟨hnew,hdistinct⟩ := List.nodup_cons.mp hdistinct
    have hnext := h.execute hclock ha (hready a List.mem_cons_self)
    have hlater := ih hnext hrest hdistinct ?_
    · rw [List.append_assoc] at hlater
      exact hlater
    · intro a' ha' b hb hkey
      obtain hb | hb := List.mem_append.mp hb
      · have hdistance := hready a' (List.mem_cons_of_mem a ha') b hb hkey
        exact hdistance.trans (sub_le_sub_right (hclock (Nat.le_succ _)) _)
      · obtain rfl := List.mem_singleton.mp hb
        refine absurd ?_ hnew
        have hsame : a.key = a'.key := hkey
        rw [hsame]
        exact List.mem_map_of_mem ha'

theorem nodup_keys {s : AdaptiveScaler} {regions : List ScaledRegion} {n n' : ℕ}
    {actions : List ScaleAction}
    (h : s.Evaluated clock (AdaptiveScaler.resourcesOf regions) n n' actions)
    (hdistinct : (regions.map ScaledRegion.id).Nodup) : (actions.map ScaleAction.key).Nodup := by
  have hpairs := (AdaptiveScaler.nodup_resourcesOf hdistinct).sublist h.distinct
  have hkeys : actions.map ScaleAction.key =
      (actions.map fun a => (a.resourceType,a.regionId)).map fun p => scaleKey p.1 p.2 := by
    rw [List.map_map]
    rfl
  rw [hkeys]
  refine hpairs.map fun p q hpq => ?_
  obtain ⟨hresource,hregion⟩ := scaleKey_inj hpq
  exact Prod.ext hresource hregion

/-- One call: what is proposed has cooled down, and the clock does not go back until it is
executed. -/
theorem Steadied.scale (hclock : Monotone clock) (hmax : 1 ≤ maxStep) {c : ClockedScaler}
    (h : Steadied clock cooldown maxStep log c) {regions : List ScaledRegion}
    (hdistinct : (regions.map ScaledRegion.id).Nodup) :
    Steadied clock cooldown maxStep (log ++ (scale clock c regions).2)
      (scale clock c regions).1 := by
  have hevaluated : c.scaler.Evaluated clock (AdaptiveScaler.resourcesOf regions) (c.reading+1)
      _ _ := AdaptiveScaler.evaluated_evaluateAll (h.maxStep_eq.symm ▸ hmax) (clock c.reading) _ _
  have hwait := h.wait hclock ((Nat.le_succ _).trans hevaluated.le)
  refine hwait.executeAll hclock (h.maxStep_eq ▸ hevaluated.steady)
    (nodup_keys hevaluated hdistinct) fun a ha b hb hkey => ?_
  obtain ⟨m,hm,hcooled⟩ := hevaluated.cooled a ha
  obtain ⟨stamp,hstamp,hle⟩ := h.stamped b hb
  rw [AdaptiveScaler.last, ← hkey, hstamp, Option.map_some, Option.getD_some, h.cooldown_eq]
    at hcooled
  have hlater := hclock hm
  dsimp only
  linarith

def exec (clock : ℕ → ℚ) (c : ClockedScaler) (regions : List ScaledRegion) : ClockedScaler :=
  (scale clock c regions).1

/-- The actions that a run executes. -/
def executed (clock : ℕ → ℚ) (c : ClockedScaler) (telemetries : List (List ScaledRegion)) :
    List ScaleAction :=
  (steps (exec clock) c telemetries).flatMap fun x => (scale clock x.1 x.2).2

theorem Steadied.run (hclock : Monotone clock) (hmax : 1 ≤ maxStep) {c : ClockedScaler}
    (h : Steadied clock cooldown maxStep log c) {telemetries : List (List ScaledRegion)}
    (hdistinct : ∀ t ∈ telemetries, (t.map ScaledRegion.id).Nodup) :
    Steadied clock cooldown maxStep (log ++ executed clock c telemetries)
      (Library.run (exec clock) c telemetries) := by
  induction telemetries generalizing c log with
  | nil =>
    rw [executed, steps_nil, List.flatMap_nil, List.append_nil]
    exact h
  | cons t rest ih =>
    obtain ⟨ht,hrest⟩ := List.forall_mem_cons.mp hdistinct
    have hlater := ih (h.scale hclock hmax ht) hrest
    rw [List.append_assoc] at hlater
    exact hlater

/-- Whatever is called, with telemetries that list each region once and a clock that does not go
back: actions on one resource of one region are a cooldown apart, and each one is steady. -/
theorem spaced_and_steady (upThreshold downThreshold cooldown : ℚ) (maxStep maxHistory : ℤ)
    (hmax : 1 ≤ maxStep) (clock : ℕ → ℚ) (hclock : Monotone clock)
    (telemetries : List (List ScaledRegion))
    (hdistinct : ∀ t ∈ telemetries, (t.map ScaledRegion.id).Nodup) :
    let actions := executed clock
      ⟨{ upThreshold, downThreshold, cooldown, maxStep, maxHistory },0⟩ telemetries
    Spaced cooldown actions ∧ ∀ a ∈ actions, a.Steady maxStep := by
  have hinit : Steadied clock cooldown maxStep []
      ⟨{ upThreshold, downThreshold, cooldown, maxStep, maxHistory },0⟩ :=
    ⟨rfl,rfl,List.Pairwise.nil,fun _ ha => absurd ha List.not_mem_nil,
      fun _ ha => absurd ha List.not_mem_nil,fun _ ha => absurd ha List.not_mem_nil⟩
  have hrun := hinit.run hclock hmax hdistinct
  exact ⟨hrun.spaced,hrun.steady⟩

/-- A region whose GPUs are all in use, at a clock that is read once a minute. -/
def busyRegion : ScaledRegion :=
  { regionId := some "a", gpuUtilization := some (9/10), totalGpus := some 4 }

theorem spaced_busyRegion :
    let actions := executed (fun n => 60*n)
      ⟨{ upThreshold := 80/100, downThreshold := 30/100, cooldown := 60, maxStep := 5,
         maxHistory := 500 },0⟩ [[busyRegion],[busyRegion]]
    actions.length = 2 ∧ Spaced 60 actions ∧ ∀ a ∈ actions, a.Steady 5 := by
  have hclock : Monotone fun n : ℕ => (60*n : ℚ) := fun a b h =>
    mul_le_mul_of_nonneg_left (Nat.cast_le.mpr h) (by decide)
  exact ⟨by decide +kernel,spaced_and_steady (80/100) (30/100) 60 5 500 (by decide) _ hclock
    [[busyRegion],[busyRegion]] (by decide)⟩

end ClockedScaler
end Arsonist.Adaptation
