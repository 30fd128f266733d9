import Arsonist.Library.History
import Arsonist.Library.Selection
import Arsonist.Shared.Rounding

/-! The placement of `planetary/geo_optimizer.py`: regions pass a chain of filters and are scored.
Some filters are left out where no region would pass them, and all regions are taken where none is
left in the end. -/
namespace Arsonist.Planetary
open Arsonist.Library Arsonist.Shared

structure GeoConstraint where
  constraintId : String := ""
  constraintType : String := "latency"
  maxLatencyMs : ℚ := 0
  preferredContinents : List String := []
  excludedRegions : List String := []
  dataResidency : String := ""
  maxCarbonIntensity : ℚ := 1

/-- A region as it is given to the optimizer: each of its fields may be missing. -/
structure GeoRegion where
  regionId : Option String := none
  continent : Option String := none
  avgLatencyMs : Option ℚ := none
  workloadSaturation : Option ℚ := none
  costPerHour : Option ℚ := none
  carbonIntensity : Option ℚ := none
  renewablePct : Option ℚ := none
  thermalPressure : Option ℚ := none

namespace GeoRegion
variable (r : GeoRegion)

def id : String := r.regionId.getD ""

def label : String := r.continent.getD ""

end GeoRegion

structure GeoFactors where
  latency : ℚ
  capacity : ℚ
  cost : ℚ
  carbon : ℚ
  energy : ℚ
  thermal : ℚ

structure GeoPlacement where
  workloadId : String
  selectedRegion : String := ""
  selectedContinent : String := ""
  score : ℚ := 0
  latencyMs : ℚ := 0
  carbonIntensity : ℚ := 0
  costScore : ℚ := 0
  factors : GeoFactors
  ts : ℚ := 0

structure GeoOptimizer where
  maxHistory : ℤ := 500
  placements : List GeoPlacement := []
  totalOptimized : ℕ := 0

namespace GeoOptimizer

def applyConstraints (regions : List GeoRegion) (constraint : GeoConstraint) : List GeoRegion :=
  let result :=
    if constraint.excludedRegions = [] then regions
    else regions.filter fun r => r.id ∉ constraint.excludedRegions
  let result := narrowed (constraint.preferredContinents ≠ [])
    (fun r => r.label ∈ constraint.preferredContinents) result
  let result := narrowed (0 < constraint.maxLatencyMs)
    (fun r => r.avgLatencyMs.getD 0 ≤ constraint.maxLatencyMs) result
  narrowed (constraint.maxCarbonIntensity < 1)
    (fun r => r.carbonIntensity.getD (1/2) ≤ constraint.maxCarbonIntensity) result

/-- The factors before they are rounded. -/
def factorsOf (region : GeoRegion) : GeoFactors :=
  { latency := max 0 (1-region.avgLatencyMs.getD 50/500)
    capacity := 1-region.workloadSaturation.getD (1/2)
    cost := max 0 (1-region.costPerHour.getD 50/200)
    carbon := max 0 (1-region.carbonIntensity.getD (1/2))
    energy := region.renewablePct.getD 0
    thermal := max 0 (1-region.thermalPressure.getD (3/10)) }

def total (region : GeoRegion) : ℚ :=
  let f := factorsOf region
  f.latency*(25/100)+f.capacity*(20/100)+f.cost*(15/100)+f.carbon*(15/100)+f.energy*(10/100)+
    f.thermal*(15/100)

def score (region : GeoRegion) : ℚ × GeoFactors :=
  let f := factorsOf region
  (total region,⟨roundTo 3 f.latency,roundTo 3 f.capacity,roundTo 3 f.cost,roundTo 3 f.carbon,
    roundTo 3 f.energy,roundTo 3 f.thermal⟩)

/-- All regions are candidates where none passes the filters. -/
def candidates (regions : List GeoRegion) (constraint : Option GeoConstraint) : List GeoRegion :=
  let candidates := constraint.elim regions (applyConstraints regions)
  if candidates.isEmpty then regions else candidates

/-- The candidates with their scores, the best first. -/
def scored (candidates : List GeoRegion) : List (ℚ × GeoRegion × GeoFactors) :=
  (candidates.map fun r => ((score r).1,r,(score r).2)).insertionSort fun a b => b.1 ≤ a.1

def optimize (s : GeoOptimizer) (now : ℚ) (workloadId : String) (regions : List GeoRegion)
    (constraint : Option GeoConstraint) : GeoOptimizer × Option GeoPlacement :=
  match scored (candidates regions constraint) with
  | [] => (s,none)
  | (bestScore,best,factors) :: _ =>
    let placement : GeoPlacement :=
      { workloadId := workloadId
        selectedRegion := best.id
        selectedContinent := best.label
        score := roundTo 4 bestScore
        latencyMs := roundTo 1 (best.avgLatencyMs.getD 0)
        carbonIntensity := roundTo 3 (best.carbonIntensity.getD (1/2))
        costScore := roundTo 3 factors.cost
        factors := factors
        ts := now }
    ({ s with
        placements := truncated s.maxHistory (s.placements ++ [placement])
        totalOptimized := s.totalOptimized+1 },some placement)

end GeoOptimizer
end Arsonist.Planetary

/-! Whether a placement keeps to the constraints that must hold: regions that are excluded, and the
area in which the data have to stay. The optimizer filters by the former only, and not if nothing
would be left. -/
namespace Arsonist.Planetary
open Arsonist.Library

/-- A region lies in an area: on the continent, or it is the region of that name. -/
def GeoRegion.InArea (r : GeoRegion) (area : String) : Prop := r.label = area ∨ r.id = area

/-- A placement that respects the exclusions and the residency of the data. -/
def GeoConstraint.Respected (c : GeoConstraint) (placement : GeoPlacement) : Prop :=
  placement.selectedRegion ∉ c.excludedRegions ∧
    (c.dataResidency ≠ "" → placement.selectedContinent = c.dataResidency ∨
      placement.selectedRegion = c.dataResidency)

namespace GeoOptimizer

variable {regions : List GeoRegion} {c : GeoConstraint}

/-- The first filter, with or without exclusions. -/
def allowed (regions : List GeoRegion) (c : GeoConstraint) : List GeoRegion :=
  regions.filter fun r => r.id ∉ c.excludedRegions

theorem allowed_eq : allowed regions c = if c.excludedRegions = [] then regions
    else regions.filter fun r => r.id ∉ c.excludedRegions := by
  split_ifs with hnone
  · rw [allowed, hnone]
    exact List.filter_eq_self.mpr fun r _ => decide_eq_true List.not_mem_nil
  · rfl

/-- What passes the filters is not excluded. -/
theorem applyConstraints_subset : applyConstraints regions c ⊆ allowed regions c := by
  rw [applyConstraints, ← allowed_eq]
  exact List.Subset.trans narrowed_subset (List.Subset.trans narrowed_subset narrowed_subset)

theorem applyConstraints_eq_nil_iff : applyConstraints regions c = [] ↔ allowed regions c = [] := by
  rw [applyConstraints, ← allowed_eq, narrowed_eq_nil_iff, narrowed_eq_nil_iff, narrowed_eq_nil_iff]

theorem allowed_ne_nil_iff :
    allowed regions c ≠ [] ↔ ∃ r ∈ regions, r.id ∉ c.excludedRegions := by
  rw [allowed, Ne, List.filter_eq_nil_iff]
  simp

/-- Each region that passes the filters and lies outside of the area of residency has a lower score
than one inside, or the same score and is listed after it. -/
def Outscored (regions : List GeoRegion) (c : GeoConstraint) : Prop :=
  ∀ p b q, applyConstraints regions c = p ++ b :: q → ¬ b.InArea c.dataResidency →
    (∃ r ∈ p, r.InArea c.dataResidency ∧ total b ≤ total r) ∨
      ∃ r ∈ q, r.InArea c.dataResidency ∧ total b < total r

/-- The selected region is the candidate with the highest score. -/
theorem optimize_eq (s : GeoOptimizer) (now : ℚ) (workloadId : String) (regions : List GeoRegion)
    (c : GeoConstraint) :
    (s.optimize now workloadId regions (some c)).2.map
        (fun p => (p.selectedRegion,p.selectedContinent)) =
      (ranked total (candidates regions (some c))).head?.map fun r => (r.id,r.label) := by
  have hscored := sort_map_eq_ranked total (fun r => ((score r).1,r,(score r).2)) Prod.fst
    (fun _ => rfl) (candidates regions (some c))
  rw [optimize, scored, hscored]
  cases ranked total (candidates regions (some c)) with
  | nil => rfl
  | cons r rest => rfl

/-- A placement exists exactly if there is a region, and what it has to respect is that of the
candidate with the highest score. -/
theorem respected_iff (s : GeoOptimizer) (now : ℚ) (workloadId : String)
    (regions : List GeoRegion) (c : GeoConstraint) :
    (∀ placement, (s.optimize now workloadId regions (some c)).2 = some placement →
        c.Respected placement) ↔
      ∀ a, (ranked total (candidates regions (some c))).head? = some a → a.id ∉ c.excludedRegions ∧
        (c.dataResidency ≠ "" → a.InArea c.dataResidency) := by
  have hoptimize := optimize_eq s now workloadId regions c
  cases hhead : (ranked total (candidates regions (some c))).head? with
  | none =>
    rw [hhead, Option.map_none, Option.map_eq_none_iff] at hoptimize
    rw [hoptimize]
    exact iff_of_true (fun _ h => absurd h (Option.some_ne_none _).symm)
      fun _ h => absurd h (Option.some_ne_none _).symm
  | some a =>
    rw [hhead, Option.map_some] at hoptimize
    obtain ⟨placement,hplacement,hselected⟩ := Option.map_eq_some_iff.mp hoptimize
    obtain ⟨hid,hlabel⟩ := Prod.mk.inj hselected
    rw [hplacement]
    constructor
    · rintro h _ ⟨rfl⟩
      have hrespected := h placement rfl
      rw [GeoConstraint.Respected, hid, hlabel] at hrespected
      exact hrespected
    · rintro h _ ⟨rfl⟩
      rw [GeoConstraint.Respected, hid, hlabel]
      exact h a rfl

end GeoOptimizer
end Arsonist.Planetary
