import Arsonist.Library.History
import Arsonist.Library.Selection
import Arsonist.Regions.RegionRegistry
import Arsonist.Shared.Rounding

/-! The router of `routing/global_router.py`: each active region gets a score, and a request goes to
the region with the highest one. Scores are exact numbers. -/
namespace Arsonist.Routing
open Arsonist.Library Arsonist.Regions Arsonist.Shared

inductive RoutingStrategy
  | nearest
  | weighted
  | leastLoaded
  | gpuAffinity
  | modelLocality
  deriving DecidableEq

structure RoutingRequest where
  requestId : String
  clientRegion : String := ""
  modelId : String := ""
  requireGpu : Bool := false
  minVramGb : ℚ := 0
  preferredRegion : String := ""
  strategy : RoutingStrategy := .weighted

/-- What the router reads of a region's record and of its `gpu_inventory`. -/
structure RoutedRegion where
  regionId : String
  status : RegionStatus := .active
  totalGpus : ℤ := 0
  availableGpus : ℤ := 0
  availableVramGb : ℚ := 0
  avgLatencyMs : ℚ := 0
  workloadSaturation : ℚ := 0
  edgeConnectivity : Bool := true

instance : Keyed RoutedRegion String := ⟨RoutedRegion.regionId⟩

/-- An entry of the latency map: the average for one pair of regions. -/
structure InterRegion where
  fromRegion : String
  toRegion : String
  latencyMs : ℚ

instance : Keyed InterRegion (String × String) := ⟨fun m => (m.fromRegion,m.toRegion)⟩

/-- The regions that hold a model. -/
structure ModelLocations where
  modelId : String
  regions : List String

instance : Keyed ModelLocations String := ⟨ModelLocations.modelId⟩

structure RoutingDecision where
  requestId : String
  targetRegion : String
  score : ℚ := 0
  latencyMs : ℚ := 0
  strategyUsed : RoutingStrategy := .weighted
  fallbackRegions : List String := []
  decisionTimeMs : ℚ := 0
  ts : ℚ := 0

/-- The router with the contents of its registry and of its latency map. -/
structure GlobalRouter where
  registry : Table RoutedRegion := .empty
  latencyMap : Table InterRegion := .empty
  modelLocations : Table ModelLocations := .empty
  decisions : List RoutingDecision := []
  totalRouted : ℕ := 0

namespace GlobalRouter
variable (s : GlobalRouter) (request : RoutingRequest)

/-- In the order of their ids. -/
def activeRegions : List RoutedRegion :=
  (s.registry.entries.insertionSort fun a b => a.regionId ≤ b.regionId).filter fun r =>
    r.status = .active ∨ r.status = .degraded

def getInterRegion (fromRegion toRegion : String) : Option ℚ :=
  (s.latencyMap.get? (fromRegion,toRegion)).map InterRegion.latencyMs

def getCandidates : List RoutedRegion :=
  let candidates := s.activeRegions
  let candidates :=
    if request.requireGpu then candidates.filter fun r => 0 < r.availableGpus else candidates
  if 0 < request.minVramGb then candidates.filter fun r => request.minVramGb ≤ r.availableVramGb
  else candidates

/-- The latency between the client's region and another one, if it was ever measured. -/
def measured (region : RoutedRegion) : Option ℚ :=
  if request.clientRegion = "" then none
  else s.getInterRegion request.clientRegion region.regionId

def latencyScore (region : RoutedRegion) : ℚ :=
  match s.measured request region with
  | some measured => max 0 (1-measured/500)
  | none => if 0 < region.avgLatencyMs then max 0 (1-region.avgLatencyMs/500) else 1/2

def gpuScore (region : RoutedRegion) : ℚ :=
  if region.totalGpus = 0 then 0 else region.availableGpus/region.totalGpus

def computeScore (region : RoutedRegion) : ℚ :=
  let loadScore := 1-region.workloadSaturation
  let queueScore := 1-min (region.workloadSaturation*(8/10)) 1
  let bandwidthScore := if region.edgeConnectivity then 1 else 1/2
  let score := 30/100*s.latencyScore request region+25/100*loadScore+20/100*gpuScore region+
    15/100*queueScore+10/100*bandwidthScore
  let score := if request.preferredRegion ≠ "" ∧ region.regionId = request.preferredRegion then
    score+15/100 else score
  let locations := ((s.modelLocations.get? request.modelId).map ModelLocations.regions).getD []
  let score := if request.modelId ≠ "" ∧ request.strategy = .modelLocality ∧
    region.regionId ∈ locations then score+20/100 else score
  if region.status = .degraded then score*(7/10) else score

def scoreCandidates (candidates : List RoutedRegion) : List (String × ℚ) :=
  candidates.map fun region => (region.regionId,s.computeScore request region)

/-- `start` and `finish` are the times between which the decision is made. -/
def route (start finish ts : ℚ) : GlobalRouter × Option RoutingDecision :=
  let scored := s.scoreCandidates request (s.getCandidates request)
  match scored.insertionSort fun a b => b.2 ≤ a.2 with
  | [] => (s,none)
  | (bestRegion,bestScore) :: rest =>
    let decision : RoutingDecision :=
      { requestId := request.requestId
        targetRegion := bestRegion
        score := roundTo 4 bestScore
        strategyUsed := request.strategy
        fallbackRegions := (rest.take 3).map Prod.fst
        decisionTimeMs := roundTo 2 ((finish-start)*1000)
        ts := ts }
    ({ s with
        decisions := truncated 500 (s.decisions ++ [decision])
        totalRouted := s.totalRouted+1 },some decision)

end GlobalRouter
end Arsonist.Routing

/-! Whether the router honours the strategy that it reports: its scores do not depend on it, so that
the best region for a strategy is chosen only where it is one with the highest score. -/
namespace Arsonist.Routing
open Arsonist.Library
namespace GlobalRouter
variable (s : GlobalRouter) (request : RoutingRequest)

/-- What a strategy asks of the target: to be nearest among the regions whose latency is known, to
be loaded least, or to have the largest part of its GPUs available. -/
def Honours (target : RoutedRegion) : Prop :=
  match request.strategy with
  | .nearest => ∀ r ∈ s.getCandidates request, ∀ t, s.measured request r = some t →
      ∃ t', s.measured request target = some t' ∧ t' ≤ t
  | .leastLoaded => ∀ r ∈ s.getCandidates request,
      target.workloadSaturation ≤ r.workloadSaturation
  | .gpuAffinity => ∀ r ∈ s.getCandidates request, gpuScore r ≤ gpuScore target
  | .weighted => True
  | .modelLocality => True

/-- Each candidate that the strategy does not ask for has a lower score than one that it asks for,
or the same score and is listed after it. -/
def Outscored : Prop :=
  ∀ p b q, s.getCandidates request = p ++ b :: q → ¬ s.Honours request b →
    (∃ c ∈ p, s.Honours request c ∧ s.computeScore request b ≤ s.computeScore request c) ∨
      ∃ c ∈ q, s.Honours request c ∧ s.computeScore request b < s.computeScore request c

variable {s request}

/-- A region is a candidate once at most. -/
theorem candidates_nodup :
    ((s.getCandidates request).map RoutedRegion.regionId).Nodup := by
  have hactive : (s.activeRegions.map RoutedRegion.regionId).Nodup := by
    have hsorted := ((List.perm_insertionSort (fun a b : RoutedRegion => a.regionId ≤ b.regionId)
      s.registry.entries).map RoutedRegion.regionId).nodup_iff.mpr s.registry.nodup
    exact hsorted.sublist (List.filter_sublist.map _)
  refine hactive.sublist (List.Sublist.map _ ?_)
  rw [getCandidates]
  split_ifs
  · exact List.filter_sublist.trans List.filter_sublist
  · exact List.filter_sublist
  · exact List.filter_sublist
  · exact List.Sublist.refl _

/-- The target is the region with the highest score. -/
theorem route_eq (s : GlobalRouter) (request : RoutingRequest) (start finish ts : ℚ) :
    (s.route request start finish ts).2.map RoutingDecision.targetRegion =
      (ranked (s.computeScore request) (s.getCandidates request)).head?.map
        RoutedRegion.regionId := by
  have hscored := sort_map_eq_ranked (s.computeScore request)
    (fun region => (region.regionId,s.computeScore request region)) Prod.snd (fun _ => rfl)
    (s.getCandidates request)
  rw [route, scoreCandidates, hscored]
  cases ranked (s.computeScore request) (s.getCandidates request) with
  | nil => rfl
  | cons r rest => rfl

/-- Region `"far"` is idle and has all of its GPUs available, region `"near"` neither. -/
def twoRegions : GlobalRouter :=
  { registry := (Table.empty.put { regionId := "far", totalGpus := 1, availableGpus := 1 }).put
      { regionId := "near", totalGpus := 1, workloadSaturation := 9/10 }
    latencyMap := (Table.empty.put ⟨"home","far",200⟩).put ⟨"home","near",10⟩ }

end GlobalRouter
end Arsonist.Routing
