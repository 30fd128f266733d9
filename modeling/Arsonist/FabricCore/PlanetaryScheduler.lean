import Arsonist.Library.History
import Arsonist.Library.Json
import Arsonist.Library.Selection
import Arsonist.Shared.Rounding

/-! The scheduler of `fabric_core/planetary_scheduler.py`: regions that are not offline pass a chain
of filters that give way, and the one with the highest score gets the workload. -/
namespace Arsonist.FabricCore
open Arsonist.Library Arsonist.Shared

inductive SchedulingTier | realtime | interactive | batch | background
  deriving DecidableEq

inductive SchedulingStrategy
  | latencyFirst
  | throughputFirst
  | costFirst
  | carbonFirst
  | balanced
  deriving DecidableEq

structure PlanetaryWorkload where
  workloadId : String
  tier : SchedulingTier := .interactive
  strategy : SchedulingStrategy := .balanced
  preferredRegions : List String := []
  gpuRequired : Bool := false
  maxLatencyMs : ℚ := 0
  priority : ℤ := 5

/-- An entry of `telemetry["regions"]`: each of its fields may be missing. -/
structure PlanetaryRegion where
  regionId : Option String := none
  continent : Option String := none
  status : Option String := none
  availableGpus : Option ℤ := none
  totalGpus : Option ℤ := none
  avgLatencyMs : Option ℚ := none
  workloadSaturation : Option ℚ := none
  gpuUtilization : Option ℚ := none
  costPerHour : Option ℚ := none
  carbonIntensity : Option ℚ := none
  renewablePct : Option ℚ := none
  thermalPressure : Option ℚ := none
  bandwidthUtilization : Option ℚ := none

namespace PlanetaryRegion
variable (r : PlanetaryRegion)

def id : String := r.regionId.getD ""

def online : Bool := r.status.getD "active" ≠ "offline"

def hasGpus : Bool := 0 < r.availableGpus.getD 0 || 0 < r.totalGpus.getD 0

/-- A latency of zero stands for one that is not known. -/
def meets (maxLatencyMs : ℚ) : Bool :=
  r.avgLatencyMs.getD 0 ≤ maxLatencyMs || r.avgLatencyMs.getD 0 = 0

end PlanetaryRegion

/-- One number for each of the factors. -/
structure Factors where
  latency : ℚ
  load : ℚ
  gpu : ℚ
  cost : ℚ
  carbon : ℚ
  energy : ℚ
  thermal : ℚ
  bandwidth : ℚ

namespace Factors

def map (f : ℚ → ℚ) (x : Factors) : Factors :=
  ⟨f x.latency,f x.load,f x.gpu,f x.cost,f x.carbon,f x.energy,f x.thermal,f x.bandwidth⟩

/-- `sum(weights[k] * scores[k] for k in weights)`. -/
def weighted (weights scores : Factors) : ℚ :=
  weights.latency*scores.latency+weights.load*scores.load+weights.gpu*scores.gpu+
    weights.cost*scores.cost+weights.carbon*scores.carbon+weights.energy*scores.energy+
    weights.thermal*scores.thermal+weights.bandwidth*scores.bandwidth

end Factors

structure SchedulingDecision where
  workloadId : String
  assignedRegion : String := ""
  assignedContinent : String := ""
  score : ℚ := 0
  latencyEstimateMs : ℚ := 0
  factors : Factors
  alternatives : List String := []
  decisionTimeMs : ℚ := 0
  ts : ℚ := 0

structure PlanetaryScheduler where
  maxHistory : ℤ := 1000
  decisions : List SchedulingDecision := []
  totalScheduled : ℕ := 0
  byTier : SchedulingTier → ℕ := fun _ => 0
  byStrategy : SchedulingStrategy → ℕ := fun _ => 0
  events : List Json.Object := []

namespace PlanetaryScheduler

def filterCandidates (workload : PlanetaryWorkload) (regions : List PlanetaryRegion) :
    List PlanetaryRegion :=
  let candidates := regions.filter PlanetaryRegion.online
  let candidates := narrowed (workload.gpuRequired = true) PlanetaryRegion.hasGpus candidates
  let candidates := narrowed (0 < workload.maxLatencyMs)
    (fun r => r.meets workload.maxLatencyMs) candidates
  narrowed (workload.preferredRegions ≠ []) (fun r => r.id ∈ workload.preferredRegions) candidates

def weights : SchedulingStrategy → Factors
  | .latencyFirst => ⟨40/100,20/100,15/100,5/100,2/100,3/100,5/100,10/100⟩
  | .throughputFirst => ⟨10/100,35/100,20/100,5/100,2/100,3/100,10/100,15/100⟩
  | .costFirst => ⟨10/100,10/100,10/100,40/100,5/100,10/100,5/100,10/100⟩
  | .carbonFirst => ⟨5/100,10/100,10/100,10/100,30/100,25/100,5/100,5/100⟩
  | .balanced => ⟨20/100,20/100,15/100,15/100,5/100,5/100,10/100,10/100⟩

def scores (workload : PlanetaryWorkload) (region : PlanetaryRegion) : Factors :=
  { latency := max 0 (1-region.avgLatencyMs.getD 50/500)
    load := 1-region.workloadSaturation.getD (1/2)
    gpu := if workload.gpuRequired then 1-region.gpuUtilization.getD (1/2) else 1/2
    cost := max 0 (1-region.costPerHour.getD 50/200)
    carbon := max 0 (1-region.carbonIntensity.getD (1/2))
    energy := region.renewablePct.getD 0
    thermal := max 0 (1-region.thermalPressure.getD (3/10))
    bandwidth := max 0 (1-region.bandwidthUtilization.getD (3/10)) }

/-- The score of a region, and the factors as they are reported. -/
def scoreRegion (workload : PlanetaryWorkload) (region : PlanetaryRegion) : ℚ × Factors :=
  let scores := scores workload region
  let total := Factors.weighted (weights workload.strategy) scores
  let total :=
    match workload.tier with
    | .realtime => total+5/100*scores.latency
    | .background => total+5/100*scores.cost
    | _ => total
  (total,scores.map (roundTo 3))

/-- All regions are candidates where none passes the filters. -/
def candidates (workload : PlanetaryWorkload) (regions : List PlanetaryRegion) :
    List PlanetaryRegion :=
  let candidates := filterCandidates workload regions
  if candidates.isEmpty then regions else candidates

/-- The candidates with their scores, the best first. -/
def scored (workload : PlanetaryWorkload) (candidates : List PlanetaryRegion) :
    List (ℚ × PlanetaryRegion × Factors) :=
  (candidates.map fun r => ((scoreRegion workload r).1,r,(scoreRegion workload r).2)).insertionSort
    fun a b => b.1 ≤ a.1

def scheduledEvent (decision : SchedulingDecision) : Json.Object :=
  [("type",.str "workload_scheduled"),("workload_id",.str decision.workloadId),
    ("region",.str decision.assignedRegion),("score",.float decision.score),
    ("ts",.float decision.ts)]

/-- The readings of the clock that a decision takes. -/
structure Times where
  start : ℚ
  finish : ℚ
  ts : ℚ

def schedule (s : PlanetaryScheduler) (times : Times) (workload : PlanetaryWorkload)
    (regions : List PlanetaryRegion) : PlanetaryScheduler × Option SchedulingDecision :=
  match scored workload (candidates workload regions) with
  | [] => (s,none)
  | (bestScore,bestRegion,bestFactors) :: rest =>
    let decision : SchedulingDecision :=
      { workloadId := workload.workloadId
        assignedRegion := bestRegion.id
        assignedContinent := bestRegion.continent.getD ""
        score := roundTo 4 bestScore
        latencyEstimateMs := roundTo 1 (bestRegion.avgLatencyMs.getD 0)
        factors := bestFactors
        alternatives := (rest.take 3).map fun x => x.2.1.id
        decisionTimeMs := roundTo 2 ((times.finish-times.start)*1000)
        ts := times.ts }
    ({ s with
        decisions := truncated s.maxHistory (s.decisions ++ [decision])
        totalScheduled := s.totalScheduled+1
        byTier := Function.update s.byTier workload.tier (s.byTier workload.tier+1)
        byStrategy :=
          Function.update s.byStrategy workload.strategy (s.byStrategy workload.strategy+1)
        events := truncated s.maxHistory (s.events ++ [scheduledEvent decision]) },some decision)

/-- The loop of `schedule_batch`: each decision with the workload that it is for. -/
def scheduleAll (times : ℕ → Times) (regions : List PlanetaryRegion) :
    PlanetaryScheduler → List PlanetaryWorkload →
    PlanetaryScheduler × List (PlanetaryWorkload × SchedulingDecision)
  | s, [] => (s,[])
  | s, wl :: rest =>
    let (s,decision) := s.schedule (times 0) wl regions
    let (s,results) := scheduleAll (fun n => times (n+1)) regions s rest
    (s,decision.elim results fun d => (wl,d) :: results)

/-- The workloads in the order of their priorities. -/
def scheduleBatch (s : PlanetaryScheduler) (times : ℕ → Times)
    (workloads : List PlanetaryWorkload) (regions : List PlanetaryRegion) :
    PlanetaryScheduler × List (PlanetaryWorkload × SchedulingDecision) :=
  scheduleAll times regions s (ranked PlanetaryWorkload.priority workloads)

end PlanetaryScheduler
end Arsonist.FabricCore

/-! Whether the planetary scheduler keeps to regions that are not offline. Its filters do, but where
they let nothing pass all regions are candidates again. -/
namespace Arsonist.FabricCore
open Arsonist.Library
namespace PlanetaryScheduler

/-- Work is assigned to a region that is not offline, and to one with GPUs if it needs them and
there is one; no alternative is offline. -/
structure Sound (workload : PlanetaryWorkload) (regions : List PlanetaryRegion)
    (decision : SchedulingDecision) : Prop where
  assigned : ∃ r ∈ regions, r.id = decision.assignedRegion ∧ r.online = true ∧
    (workload.gpuRequired = true → (∃ r' ∈ regions, r'.online = true ∧ r'.hasGpus = true) →
      r.hasGpus = true)
  alternatives : ∀ id ∈ decision.alternatives, ∃ r ∈ regions, r.id = id ∧ r.online = true

variable {workload : PlanetaryWorkload} {regions : List PlanetaryRegion}

/-- The filters that follow the first one only narrow its result down. -/
theorem filterCandidates_subset_gpu : filterCandidates workload regions ⊆
    narrowed (workload.gpuRequired = true) PlanetaryRegion.hasGpus
      (regions.filter PlanetaryRegion.online) :=
  List.Subset.trans narrowed_subset narrowed_subset

theorem online_of_mem_filterCandidates {r : PlanetaryRegion}
    (h : r ∈ filterCandidates workload regions) : r ∈ regions ∧ r.online = true :=
  List.mem_filter.mp (narrowed_subset (filterCandidates_subset_gpu h))

theorem hasGpus_of_mem_filterCandidates {r : PlanetaryRegion}
    (h : r ∈ filterCandidates workload regions) (hgpu : workload.gpuRequired = true)
    (hexists : ∃ r' ∈ regions, r'.online = true ∧ r'.hasGpus = true) : r.hasGpus = true := by
  obtain ⟨r',hr',honline,hgpus⟩ := hexists
  have hpass := filterCandidates_subset_gpu h
  rw [narrowed_of_exists hgpu (List.mem_filter.mpr ⟨hr',honline⟩) hgpus] at hpass
  exact (List.mem_filter.mp hpass).2

theorem filterCandidates_eq_nil_iff :
    filterCandidates workload regions = [] ↔ ∀ r ∈ regions, r.online = false := by
  rw [filterCandidates, narrowed_eq_nil_iff, narrowed_eq_nil_iff, narrowed_eq_nil_iff,
    List.filter_eq_nil_iff]
  simp only [Bool.not_eq_true]

theorem candidates_of_online (h : ∃ r ∈ regions, r.online = true) :
    candidates workload regions = filterCandidates workload regions := by
  obtain ⟨r,hr,honline⟩ := h
  refine if_neg fun hempty => ?_
  have hoffline := filterCandidates_eq_nil_iff.mp (List.isEmpty_iff.mp hempty) r hr
  rw [hoffline] at honline
  cases honline

theorem mem_of_mem_candidates {r : PlanetaryRegion} (h : r ∈ candidates workload regions) :
    r ∈ regions := by
  rw [candidates] at h
  split_ifs at h
  · exact h
  · exact (online_of_mem_filterCandidates h).1

theorem candidates_of_offline (h : ∀ r ∈ regions, r.online = false) :
    candidates workload regions = regions :=
  if_pos (List.isEmpty_iff.mpr (filterCandidates_eq_nil_iff.mpr h))

/-- A decision names the best candidate, and the next three. -/
theorem schedule_eq (s : PlanetaryScheduler) (times : Times) (workload : PlanetaryWorkload)
    (regions : List PlanetaryRegion) :
    (s.schedule times workload regions).2.map (fun d => d.assignedRegion :: d.alternatives) =
      (ranked (fun r => (scoreRegion workload r).1) (candidates workload regions)).head?.map
        fun _ => ((ranked (fun r => (scoreRegion workload r).1)
          (candidates workload regions)).take 4).map PlanetaryRegion.id := by
  have hscored := sort_map_eq_ranked (fun r => (scoreRegion workload r).1)
    (fun r => ((scoreRegion workload r).1,r,(scoreRegion workload r).2)) Prod.fst (fun _ => rfl)
    (candidates workload regions)
  rw [schedule, scored, hscored]
  cases ranked (fun r => (scoreRegion workload r).1) (candidates workload regions) with
  | nil => rfl
  | cons r rest =>
    simp only [List.map_cons, List.head?_cons, Option.map_some, List.take_succ_cons, List.map_take,
      List.map_map]
    rfl

/-- The regions of a decision are candidates. -/
theorem mem_candidates_of_schedule {s : PlanetaryScheduler} {times : Times}
    {decision : SchedulingDecision}
    (h : (s.schedule times workload regions).2 = some decision) {id : String}
    (hid : id ∈ decision.assignedRegion :: decision.alternatives) :
    ∃ r ∈ candidates workload regions, r.id = id := by
  have heq := schedule_eq s times workload regions
  rw [h, Option.map_some] at heq
  obtain ⟨a,-,hnames⟩ := Option.map_eq_some_iff.mp heq.symm
  rw [← hnames] at hid
  obtain ⟨r,hr,hrid⟩ := List.mem_map.mp hid
  exact ⟨r,(perm_ranked _ _).subset (List.mem_of_mem_take hr),hrid⟩

theorem sound_of_online (hlive : ∃ r ∈ regions, r.online = true) {s : PlanetaryScheduler}
    {times : Times} {decision : SchedulingDecision}
    (h : (s.schedule times workload regions).2 = some decision) :
    Sound workload regions decision := by
  have hmem : ∀ id ∈ decision.assignedRegion :: decision.alternatives,
      ∃ r ∈ candidates workload regions, r.id = id :=
    fun _ hid => mem_candidates_of_schedule h hid
  rw [candidates_of_online hlive] at hmem
  refine ⟨?_,fun id hid => ?_⟩
  · obtain ⟨r,hr,hrid⟩ := hmem _ List.mem_cons_self
    obtain ⟨hregion,honline⟩ := online_of_mem_filterCandidates hr
    exact ⟨r,hregion,hrid,honline,hasGpus_of_mem_filterCandidates hr⟩
  · obtain ⟨r,hr,hrid⟩ := hmem id (List.mem_cons_of_mem _ hid)
    obtain ⟨hregion,honline⟩ := online_of_mem_filterCandidates hr
    exact ⟨r,hregion,hrid,honline⟩

/-- Where there are regions there is a decision. -/
theorem exists_schedule (s : PlanetaryScheduler) (times : Times) (workload : PlanetaryWorkload)
    (h : candidates workload regions ≠ []) :
    ∃ decision, (s.schedule times workload regions).2 = some decision := by
  obtain ⟨a,ha⟩ := exists_head?_ranked (fun r => (scoreRegion workload r).1) h
  have heq := schedule_eq s times workload regions
  rw [ha, Option.map_some] at heq
  obtain ⟨decision,hdecision,-⟩ := Option.map_eq_some_iff.mp heq
  exact ⟨decision,hdecision⟩

/-- Each decision of a batch is one of `schedule`. -/
theorem schedule_of_mem_scheduleAll {workloads : List PlanetaryWorkload} {times : ℕ → Times}
    {s : PlanetaryScheduler} {p : PlanetaryWorkload × SchedulingDecision}
    (hp : p ∈ (scheduleAll times regions s workloads).2) :
    ∃ (t : PlanetaryScheduler) (now : Times), (t.schedule now p.1 regions).2 = some p.2 := by
  induction workloads generalizing s times with
  | nil => cases hp
  | cons wl rest ih =>
    rw [scheduleAll] at hp
    dsimp only at hp
    cases hdecision : (s.schedule (times 0) wl regions).2 with
    | none =>
      rw [hdecision] at hp
      exact ih hp
    | some d =>
      rw [hdecision] at hp
      obtain rfl | hp := List.mem_cons.mp hp
      · exact ⟨s,times 0,hdecision⟩
      · exact ih hp

/-- No decision of a call is for a region that is offline exactly if there is no region at all, or
one that is not offline. -/
theorem live_iff (s : PlanetaryScheduler) (times : Times) (batchTimes : ℕ → Times)
    (workload : PlanetaryWorkload) (workloads : List PlanetaryWorkload)
    (regions : List PlanetaryRegion) :
    ((∀ decision, (s.schedule times workload regions).2 = some decision →
        Sound workload regions decision) ∧
      ∀ p ∈ (s.scheduleBatch batchTimes workloads regions).2, Sound p.1 regions p.2) ↔
      regions = [] ∨ ∃ r ∈ regions, r.online = true := by
  constructor
  · rintro ⟨hsound,-⟩
    by_contra h
    obtain ⟨hne,hlive⟩ := not_or.mp h
    have hoffline : ∀ r ∈ regions, r.online = false := fun r hr =>
      Bool.eq_false_of_not_eq_true fun honline => hlive ⟨r,hr,honline⟩
    have hall : candidates workload regions = regions := candidates_of_offline hoffline
    obtain ⟨decision,hdecision⟩ := exists_schedule s times workload (hall.symm ▸ hne)
    obtain ⟨r,hr,-,honline,-⟩ := (hsound decision hdecision).assigned
    exact hlive ⟨r,hr,honline⟩
  · rintro (rfl | hlive)
    · have hnone : ∀ (t : PlanetaryScheduler) (now : Times) (w : PlanetaryWorkload) decision,
          (t.schedule now w []).2 ≠ some decision := by
        intro t now w decision h
        obtain ⟨r,hr,-⟩ := mem_candidates_of_schedule h List.mem_cons_self
        cases mem_of_mem_candidates hr
      refine ⟨fun decision h => absurd h (hnone _ _ _ _),fun p hp => ?_⟩
      obtain ⟨t,now,h⟩ := schedule_of_mem_scheduleAll hp
      exact absurd h (hnone _ _ _ _)
    · refine ⟨fun decision h => sound_of_online hlive h,fun p hp => ?_⟩
      obtain ⟨t,now,h⟩ := schedule_of_mem_scheduleAll hp
      exact sound_of_online hlive h

/-- The only region is offline, and it gets the workload. -/
theorem not_live : ¬∀ (s : PlanetaryScheduler) (times : Times) (workload : PlanetaryWorkload)
    (regions : List PlanetaryRegion) (decision : SchedulingDecision),
    (s.schedule times workload regions).2 = some decision → Sound workload regions decision := by
  intro h
  let regions : List PlanetaryRegion := [{ regionId := "a", status := "offline" }]
  have hassigned : (schedule {} ⟨0,0,0⟩ { workloadId := "w" } regions).2.map
      SchedulingDecision.assignedRegion = some "a" := by decide +kernel
  obtain ⟨decision,hdecision,-⟩ := Option.map_eq_some_iff.mp hassigned
  obtain ⟨r,hr,-,honline,-⟩ := (h {} ⟨0,0,0⟩ { workloadId := "w" } regions decision
    hdecision).assigned
  obtain rfl := List.mem_singleton.mp hr
  cases honline

end PlanetaryScheduler
end Arsonist.FabricCore
