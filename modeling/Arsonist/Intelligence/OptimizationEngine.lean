import Arsonist.Library.History
import Arsonist.Library.Json
import Arsonist.Library.Runs
import Arsonist.Library.Text
import Arsonist.Shared.Rounding

/-! The loop of `intelligence/optimization_engine.py`: inefficiencies are found in the telemetry,
actions are made from them, and all of them are executed. Numbers are exact. -/
namespace Arsonist.Intelligence
open Arsonist.Library Arsonist.Shared

inductive OptimizationCategory
  | placement | latency | gpuUtilization | congestion | replication | cost | thermal | energy
  deriving DecidableEq

structure Inefficiency where
  inefficiencyId : String
  category : OptimizationCategory
  regionId : String := ""
  severity : ℚ := 0
  description : String := ""
  recommendation : String := ""
  potentialImprovementPct : ℚ := 0
  detectedAt : ℚ := 0

structure OptimizationAction where
  actionId : String
  category : OptimizationCategory
  targetRegion : String := ""
  actionType : String := ""
  parameters : Json.Object := []
  expectedImprovementPct : ℚ := 0
  executed : Bool := false
  executedAt : ℚ := 0
  result : String := ""

/-- The entry of a region in the telemetry. What it leaves out has its default. -/
structure OptimizedRegion where
  regionId : String := "unknown"
  workloadSaturation : ℚ := 0
  avgLatencyMs : ℚ := 0
  gpuUtilization : ℚ := 0
  totalGpus : ℤ := 0
  thermalPressure : ℚ := 0

namespace OptimizedRegion
variable (r : OptimizedRegion) (ts : ℚ)

def stamped (kind : String) : String := kind ++ "-" ++ r.regionId ++ "-" ++ (Text.truncate ts).repr

def congestion : List Inefficiency :=
  if 17/20 < r.workloadSaturation then
    [{ inefficiencyId := r.stamped ts "congestion"
       category := .congestion
       regionId := r.regionId
       severity := min r.workloadSaturation 1
       description := "Region " ++ r.regionId ++ " saturation at " ++
         formatPercent r.workloadSaturation
       recommendation := "Migrate workloads from " ++ r.regionId ++ " to less loaded regions"
       potentialImprovementPct := roundTo 1 ((r.workloadSaturation-7/10)*100)
       detectedAt := ts }]
  else []

def latency : List Inefficiency :=
  if 200 < r.avgLatencyMs then
    [{ inefficiencyId := r.stamped ts "latency"
       category := .latency
       regionId := r.regionId
       severity := min (r.avgLatencyMs/500) 1
       description := "Region " ++ r.regionId ++ " avg latency " ++ formatWhole r.avgLatencyMs ++
         "ms"
       recommendation := "Reroute traffic away from " ++ r.regionId ++ " or add capacity"
       potentialImprovementPct := roundTo 1 ((r.avgLatencyMs-100)/r.avgLatencyMs*100)
       detectedAt := ts }]
  else []

/-- The same category for a region that uses too little of its GPUs and for one without any left,
the severity of which is above one half in both cases. -/
def gpuUtil : List Inefficiency :=
  if r.gpuUtilization < 3/10 ∧ 0 < r.totalGpus then
    [{ inefficiencyId := r.stamped ts "gpu-underutil"
       category := .gpuUtilization
       regionId := r.regionId
       severity := 1-r.gpuUtilization
       description := "Region " ++ r.regionId ++ " GPU utilization only " ++
         formatPercent r.gpuUtilization
       recommendation := "Consolidate workloads into " ++ r.regionId ++
         " or power down idle GPUs"
       potentialImprovementPct := roundTo 1 ((7/10-r.gpuUtilization)*100)
       detectedAt := ts }]
  else if 19/20 < r.gpuUtilization then
    [{ inefficiencyId := r.stamped ts "gpu-exhaust"
       category := .gpuUtilization
       regionId := r.regionId
       severity := r.gpuUtilization
       description := "Region " ++ r.regionId ++ " GPU exhaustion at " ++
         formatPercent r.gpuUtilization
       recommendation := "Offload workloads from " ++ r.regionId ++ " to available regions"
       potentialImprovementPct := roundTo 1 ((r.gpuUtilization-4/5)*100)
       detectedAt := ts }]
  else []

def thermal : List Inefficiency :=
  if 4/5 < r.thermalPressure then
    [{ inefficiencyId := r.stamped ts "thermal"
       category := .thermal
       regionId := r.regionId
       severity := r.thermalPressure
       description := "Region " ++ r.regionId ++ " thermal pressure " ++
         formatPercent r.thermalPressure
       recommendation := "Reduce load on " ++ r.regionId ++ " to lower GPU temperatures"
       potentialImprovementPct := roundTo 1 ((r.thermalPressure-3/5)*100)
       detectedAt := ts }]
  else []

/-- The body of the loop over the regions. -/
def inefficiencies : List Inefficiency :=
  r.congestion ts ++ r.latency ts ++ r.gpuUtil ts ++ r.thermal ts

end OptimizedRegion

namespace Inefficiency
variable (ineff : Inefficiency) (ts : ℚ)

def stamped (kind : String) : String :=
  kind ++ "-" ++ ineff.regionId ++ "-" ++ (Text.truncate ts).repr

/-- The body of the loop in `generate_actions`. -/
def action? : Option OptimizationAction :=
  match ineff.category with
  | .congestion =>
    some { actionId := ineff.stamped ts "migrate"
           category := ineff.category
           targetRegion := ineff.regionId
           actionType := "workload_migration"
           parameters := [("direction",.str "outbound"),("max_migrate_pct",.float (1/5))]
           expectedImprovementPct := ineff.potentialImprovementPct }
  | .latency =>
    some { actionId := ineff.stamped ts "reroute"
           category := ineff.category
           targetRegion := ineff.regionId
           actionType := "traffic_reroute"
           parameters := [("strategy",.str "lowest_latency")]
           expectedImprovementPct := ineff.potentialImprovementPct }
  | .gpuUtilization =>
    some { actionId := ineff.stamped ts "gpu-opt"
           category := ineff.category
           targetRegion := ineff.regionId
           actionType := if 1/2 < ineff.severity then "consolidate" else "offload"
           parameters := [("target_utilization",.float (7/10))]
           expectedImprovementPct := ineff.potentialImprovementPct }
  | .thermal =>
    some { actionId := ineff.stamped ts "thermal"
           category := ineff.category
           targetRegion := ineff.regionId
           actionType := "thermal_rebalance"
           parameters := [("target_thermal",.float (3/5))]
           expectedImprovementPct := ineff.potentialImprovementPct }
  | _ => none

end Inefficiency

def OptimizationAction.execute (now : ℚ) (action : OptimizationAction) : OptimizationAction :=
  { action with executed := true, executedAt := now, result := "applied" }

structure OptimizationEvent where
  actionId : String
  actionType : String
  region : String
  ts : ℚ

def OptimizationAction.event (action : OptimizationAction) : OptimizationEvent :=
  ⟨action.actionId,action.actionType,action.targetRegion,action.executedAt⟩

/-- The actions that were made, and the places of those among them that are kept. -/
structure OptimizationEngine where
  maxHistory : ℕ := 1000
  inefficiencies : List Inefficiency := []
  made : List OptimizationAction := []
  actions : List ℕ := []
  totalOptimizations : ℕ := 0
  totalImprovements : ℕ := 0
  events : List OptimizationEvent := []

/-- The telemetry that a loop is given, and the times that it reads: one for the analysis, one for
the actions, and one for the execution of each of them. -/
structure OptimizationInput where
  regions : List OptimizedRegion
  analyzedAt : ℚ := 0
  generatedAt : ℚ := 0
  executedAt : ℕ → ℚ := fun _ => 0

namespace OptimizationEngine
variable (s : OptimizationEngine)

def analyzeTelemetry (ts : ℚ) (regions : List OptimizedRegion) :
    OptimizationEngine × List Inefficiency :=
  let found := regions.flatMap fun r => r.inefficiencies ts
  ({ s with inefficiencies := truncated s.maxHistory (s.inefficiencies ++ found) },found)

def generateActions (ts : ℚ) (inefficiencies : List Inefficiency) :
    OptimizationEngine × List ℕ :=
  let actions := inefficiencies.filterMap fun ineff => ineff.action? ts
  let places := List.range' s.made.length actions.length
  ({ s with
     made := s.made ++ actions
     actions := truncated s.maxHistory (s.actions ++ places)
     totalOptimizations := s.totalOptimizations+actions.length },places)

/-- The action is changed where it stands. -/
def executeAction (now : ℚ) (place : ℕ) : OptimizationEngine :=
  match s.made[place]? with
  | none => s
  | some action =>
    { s with
      made := s.made.set place (action.execute now)
      totalImprovements := s.totalImprovements+1
      events := truncated s.maxHistory (s.events ++ [(action.execute now).event]) }

def runOptimizationLoop (input : OptimizationInput) : OptimizationEngine :=
  let (s,inefficiencies) := s.analyzeTelemetry input.analyzedAt input.regions
  let (s,actions) := s.generateActions input.generatedAt inefficiencies
  run (fun s place => s.executeAction (input.executedAt place) place) s actions

/-- The actions that are kept, as they stand now. -/
def keptActions : List OptimizationAction := s.actions.filterMap fun place => s.made[place]?

end OptimizationEngine

/-- What is done about a region. Its GPUs are consolidated when too few of them are in use, and when
too many are. -/
def OptimizedRegion.planned (r : OptimizedRegion) : List (String × String) :=
  (if 17/20 < r.workloadSaturation then [(r.regionId,"workload_migration")] else []) ++
  (if 200 < r.avgLatencyMs then [(r.regionId,"traffic_reroute")] else []) ++
  (if r.gpuUtilization < 3/10 ∧ 0 < r.totalGpus ∨ 19/20 < r.gpuUtilization then
    [(r.regionId,"consolidate")] else []) ++
  (if 4/5 < r.thermalPressure then [(r.regionId,"thermal_rebalance")] else [])

theorem OptimizedRegion.planned_ne_offload (r : OptimizedRegion) {p : String × String}
    (hp : p ∈ r.planned) : p.2 ≠ "offload" := by
  simp only [planned, List.mem_append, List.mem_ite_nil_right, List.mem_singleton] at hp
  obtain ((⟨-,rfl⟩ | ⟨-,rfl⟩) | ⟨-,rfl⟩) | ⟨-,rfl⟩ := hp <;> simp

def OptimizationAction.summary (action : OptimizationAction) : String × String :=
  (action.targetRegion,action.actionType)

/-- Both inefficiencies of the GPUs are severe enough for a consolidation. -/
theorem summaries_inefficiencies (r : OptimizedRegion) (ts ts' : ℚ) :
    ((r.inefficiencies ts).filterMap fun ineff => ineff.action? ts').map
      OptimizationAction.summary = r.planned := by
  have hgpu : ((r.gpuUtil ts).filterMap fun ineff => ineff.action? ts').map
      OptimizationAction.summary =
      if r.gpuUtilization < 3/10 ∧ 0 < r.totalGpus ∨ 19/20 < r.gpuUtilization then
        [(r.regionId,"consolidate")] else [] := by
    rw [OptimizedRegion.gpuUtil]
    by_cases hunder : r.gpuUtilization < 3/10 ∧ 0 < r.totalGpus
    · have hsevere : 1/2 < 1-r.gpuUtilization := by linarith [hunder.1]
      rw [if_pos hunder, if_pos (Or.inl hunder)]
      simp only [List.filterMap_cons, List.filterMap_nil, Inefficiency.action?, List.map_cons,
        List.map_nil, OptimizationAction.summary, if_pos hsevere]
    · rw [if_neg hunder]
      by_cases hover : 19/20 < r.gpuUtilization
      · have hsevere : 1/2 < r.gpuUtilization := by linarith
        rw [if_pos hover, if_pos (Or.inr hover)]
        simp only [List.filterMap_cons, List.filterMap_nil, Inefficiency.action?, List.map_cons,
        List.map_nil, OptimizationAction.summary, if_pos hsevere]
      · rw [if_neg hover, if_neg (not_or_intro hunder hover)]
        rfl
  simp only [OptimizedRegion.inefficiencies, OptimizedRegion.planned, List.filterMap_append,
    List.map_append, hgpu, OptimizedRegion.congestion, OptimizedRegion.latency,
    OptimizedRegion.thermal]
  split_ifs <;> rfl

theorem summaries_telemetry (regions : List OptimizedRegion) (ts ts' : ℚ) :
    ((regions.flatMap fun r => r.inefficiencies ts).filterMap fun ineff => ineff.action? ts').map
      OptimizationAction.summary = regions.flatMap OptimizedRegion.planned := by
  rw [List.filterMap_flatMap, List.map_flatMap]
  simp only [summaries_inefficiencies]

namespace OptimizationEngine
variable {s t : OptimizationEngine} {ts : ℚ}

/-- The engine has executed `done` on top of what it had made, and counts and tells of it. -/
structure Executed (s t : OptimizationEngine) (made done : List OptimizationAction) : Prop where
  made_eq : t.made = made ++ done
  executed : ∀ a ∈ done, a.executed = true
  improvements : t.totalImprovements = s.totalImprovements+done.length
  events : 0 < s.maxHistory → ∀ told : List OptimizationEvent, s.events = told.rtake s.maxHistory →
    t.events = (told ++ done.map OptimizationAction.event).rtake s.maxHistory
  rest : t.maxHistory = s.maxHistory ∧ t.actions = s.actions ∧
    t.totalOptimizations = s.totalOptimizations

/-- The loop that executes what was made last, action by action. -/
theorem executed_run (clock : ℕ → ℚ) {made new : List OptimizationAction}
    (hmade : s.made = made ++ new) :
    ∃ done, done.map OptimizationAction.summary = new.map OptimizationAction.summary ∧
      Executed s (run (fun s place => s.executeAction (clock place) place) s
        (List.range' made.length new.length)) made done := by
  induction new generalizing s made with
  | nil =>
    refine ⟨[],rfl,hmade,?_,rfl,fun _ told htold => ?_,rfl,rfl,rfl⟩
    · simp
    · simpa [run] using htold
  | cons a new ih =>
    have hplace : s.made[made.length]? = some a := by simp [hmade]
    have hstep : s.executeAction (clock made.length) made.length =
        { s with
          made := (made ++ [a.execute (clock made.length)]) ++ new
          totalImprovements := s.totalImprovements+1
          events := truncated s.maxHistory
            (s.events ++ [(a.execute (clock made.length)).event]) } := by
      rw [executeAction, hplace]
      simp [hmade]
    rw [List.length_cons, List.range'_succ, run_cons, hstep]
    obtain ⟨done,hsummary,hdone⟩ := ih (s := { s with
      made := (made ++ [a.execute (clock made.length)]) ++ new
      totalImprovements := s.totalImprovements+1
      events := truncated s.maxHistory
        (s.events ++ [(a.execute (clock made.length)).event]) }) rfl
    rw [List.length_append, List.length_singleton] at hdone
    refine ⟨a.execute (clock made.length) :: done,?_,?_,?_,?_,fun hpos told htold => ?_,hdone.rest⟩
    · rw [List.map_cons, List.map_cons, hsummary]
      rfl
    · rw [hdone.made_eq, List.append_assoc]
      rfl
    · intro b hb
      obtain rfl | hb := List.mem_cons.mp hb
      · rfl
      · exact hdone.executed b hb
    · rw [hdone.improvements, List.length_cons, Nat.add_assoc, Nat.add_comm 1]
    · have htold' : truncated s.maxHistory
          (s.events ++ [(a.execute (clock made.length)).event]) =
          (told ++ [(a.execute (clock made.length)).event]).rtake s.maxHistory := by
        rw [truncated_eq_rtake hpos, htold, rtake_rtake_append]
      rw [hdone.events hpos _ htold', List.map_cons, List.append_assoc]
      rfl

/-- What the engine has done so far: every action that it made is executed, counted once as made and
once as executed, and the last of them are kept and told of. -/
structure Reports (maxHistory : ℕ) (planned : List (String × String)) (s : OptimizationEngine) :
    Prop where
  limit : s.maxHistory = maxHistory
  made : s.made.map OptimizationAction.summary = planned
  executed : ∀ a ∈ s.made, a.executed = true
  optimizations : s.totalOptimizations = planned.length
  improvements : s.totalImprovements = planned.length
  kept : s.actions = (List.range s.made.length).rtake maxHistory
  events : s.events = (s.made.map OptimizationAction.event).rtake maxHistory

theorem Reports.runOptimizationLoop {maxHistory : ℕ} (hpos : 0 < maxHistory)
    {planned : List (String × String)} (h : s.Reports maxHistory planned)
    (input : OptimizationInput) :
    (s.runOptimizationLoop input).Reports maxHistory
      (planned ++ input.regions.flatMap OptimizedRegion.planned) := by
  have hsummaries := summaries_telemetry input.regions input.analyzedAt input.generatedAt
  unfold OptimizationEngine.runOptimizationLoop
  simp only [analyzeTelemetry, generateActions]
  generalize (input.regions.flatMap fun r => r.inefficiencies input.analyzedAt).filterMap
    (fun ineff => ineff.action? input.generatedAt) = new at hsummaries ⊢
  have hnew : new.length = (input.regions.flatMap OptimizedRegion.planned).length := by
    rw [← hsummaries, List.length_map]
  obtain ⟨done,hsummary,hdone⟩ := executed_run (s := { s with
    inefficiencies := truncated s.maxHistory (s.inefficiencies ++
      input.regions.flatMap fun r => r.inefficiencies input.analyzedAt)
    made := s.made ++ new
    actions := truncated s.maxHistory (s.actions ++ List.range' s.made.length new.length)
    totalOptimizations := s.totalOptimizations+new.length }) input.executedAt rfl
  have hdoneLength : done.length = new.length := by simpa using congrArg List.length hsummary
  refine ⟨hdone.rest.1.trans h.limit,?_,?_,?_,?_,?_,?_⟩
  · rw [hdone.made_eq, List.map_append, hsummary, hsummaries, h.made]
  · rw [hdone.made_eq]
    intro a ha
    exact (List.mem_append.mp ha).elim (h.executed a) (hdone.executed a)
  · rw [hdone.rest.2.2, List.length_append, ← hnew]
    exact congrArg (· + new.length) h.optimizations
  · rw [hdone.improvements, List.length_append, ← hnew, hdoneLength]
    exact congrArg (· + new.length) h.improvements
  · rw [hdone.rest.2.1, hdone.made_eq, List.length_append, hdoneLength]
    change truncated s.maxHistory (s.actions ++ _) = _
    rw [h.limit, truncated_eq_rtake hpos, h.kept, rtake_rtake_append, List.range_eq_range',
      List.range_eq_range', ← List.range'_append_1, Nat.zero_add]
  · have hevents := hdone.events (by rw [h.limit]; exact hpos)
      (s.made.map OptimizationAction.event) (by rw [h.limit]; exact h.events)
    rw [hevents, hdone.made_eq, List.map_append, h.limit]

end OptimizationEngine

open OptimizationEngine

/-- Whatever the telemetry says, the actions of a run of the loop are those that its conditions on
each region call for, in the order of the regions. Each of them is executed and counted once. None
of them offloads a region: one whose GPUs are used up gets a consolidation. -/
theorem optimization_after {maxHistory : ℕ} (hpos : 0 < maxHistory)
    (inputs : List OptimizationInput) :
    let s := run runOptimizationLoop { maxHistory := maxHistory } inputs
    s.Reports maxHistory
        (inputs.flatMap fun input => input.regions.flatMap OptimizedRegion.planned) ∧
      ∀ a ∈ s.made, a.actionType ≠ "offload" := by
  have hreports : (run runOptimizationLoop { maxHistory := maxHistory } inputs).Reports maxHistory
      (inputs.flatMap fun input => input.regions.flatMap OptimizedRegion.planned) := by
    induction inputs using List.reverseRecOn with
    | nil => exact ⟨rfl,rfl,fun a ha => absurd ha List.not_mem_nil,rfl,rfl,by simp,by simp⟩
    | append_singleton inputs input ih =>
      rw [run_concat, List.flatMap_append, List.flatMap_singleton]
      exact ih.runOptimizationLoop hpos input
  refine ⟨hreports,fun a ha htype => ?_⟩
  have hplanned := List.mem_map_of_mem (f := OptimizationAction.summary) ha
  rw [hreports.made] at hplanned
  obtain ⟨input,-,hplanned⟩ := List.mem_flatMap.mp hplanned
  obtain ⟨r,-,hplanned⟩ := List.mem_flatMap.mp hplanned
  exact r.planned_ne_offload hplanned htype

/-- A region whose GPUs are used up, beside one that is at its ease. -/
def exhaustedEu : OptimizationInput where
  regions := [{ regionId := "eu", gpuUtilization := 97/100, totalGpus := 8 },
    { regionId := "us", gpuUtilization := 1/2, totalGpus := 8 }]

theorem optimization_after_exhaustedEu :
    let s := run runOptimizationLoop { maxHistory := 10 } [exhaustedEu]
    s.Reports 10 ([exhaustedEu].flatMap fun input =>
      input.regions.flatMap OptimizedRegion.planned) ∧ ∀ a ∈ s.made, a.actionType ≠ "offload" :=
  optimization_after (by decide) [exhaustedEu]

example : exhaustedEu.regions.flatMap OptimizedRegion.planned = [("eu","consolidate")] := by
  decide +kernel

end Arsonist.Intelligence
