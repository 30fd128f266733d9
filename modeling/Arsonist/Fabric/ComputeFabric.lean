import Arsonist.Library.Interleaving
import Arsonist.Library.Steps
import Arsonist.Routing.GlobalRouter

/-! The workloads of `fabric/compute_fabric.py` and the regions that `fabric/placement_engine.py`
places them in. A placement is decided first and stored later, and a region is drained workload by
workload, while other calls go on. Scores are exact numbers. -/
namespace Arsonist.Fabric
open Arsonist.Library Arsonist.Regions Arsonist.Routing Arsonist.Shared

structure PlacementRequest where
  workloadId : String
  requireGpu : Bool := false
  gpuType : String := ""
  minVramGb : ℚ := 0
  preferredRegion : String := ""
  maxLatencyMs : ℚ := 0
  costWeight : ℚ := 3/10
  performanceWeight : ℚ := 1/2
  efficiencyWeight : ℚ := 1/5
  powerEfficiencyWeight : ℚ := 0
  thermalWeight : ℚ := 0
  historicalSuccessWeight : ℚ := 0
  predictedTrafficWeight : ℚ := 0

/-- What a placement reads of a region's record. -/
structure FabricRegion extends RoutedRegion where
  capacity : ℚ := 1
  gpuTypes : List String := []

instance : Keyed FabricRegion String := ⟨fun r => r.regionId⟩

/-- What the intelligence context says of a region, if it says anything. -/
structure RegionIntelligence where
  renewablePct : ℚ := 0
  thermalPressure : ℚ := 0
  historicalSuccessRate : ℚ := 1/2
  predictedSaturation : ℚ := 0

structure PlacementFactors where
  gpu : ℚ
  load : ℚ
  latency : ℚ
  capacity : ℚ
  connectivity : ℚ
  cost : ℚ
  performance : ℚ
  efficiency : ℚ
  power : ℚ
  thermal : ℚ
  historical : ℚ
  predicted : ℚ

structure PlacementDecision where
  workloadId : String
  regionId : String
  score : ℚ
  factors : PlacementFactors
  alternatives : List String
  decisionTimeMs : ℚ
  ts : ℚ

namespace PlacementRequest
variable (request : PlacementRequest)

/-- The region passes the filters. -/
def Eligible (r : FabricRegion) : Prop :=
  (request.requireGpu → 0 < r.availableGpus) ∧
  (0 < request.minVramGb → request.minVramGb ≤ r.availableVramGb) ∧
  (request.gpuType ≠ "" → request.gpuType ∈ r.gpuTypes) ∧
  (0 < request.maxLatencyMs → r.avgLatencyMs ≤ request.maxLatencyMs ∨ r.avgLatencyMs = 0)

def filterCandidates (candidates : List FabricRegion) : List FabricRegion :=
  let candidates :=
    if request.requireGpu then candidates.filter fun r => 0 < r.availableGpus else candidates
  let candidates :=
    if 0 < request.minVramGb then
      candidates.filter fun r => request.minVramGb ≤ r.availableVramGb
    else candidates
  let candidates :=
    if request.gpuType ≠ "" then
      candidates.filter fun r => request.gpuType ∈ r.gpuTypes
    else candidates
  if 0 < request.maxLatencyMs then
    candidates.filter fun r => r.avgLatencyMs ≤ request.maxLatencyMs ∨ r.avgLatencyMs = 0
  else candidates

def gpuScore (r : FabricRegion) : ℚ :=
  if ¬ request.requireGpu then 1/2
  else if r.totalGpus = 0 then 0
  else
    let base : ℚ := r.availableGpus/r.totalGpus
    let base := if request.gpuType ≠ "" ∧ request.gpuType ∈ r.gpuTypes then base+1/10 else base
    let base :=
      if 0 < request.minVramGb ∧ request.minVramGb*2 ≤ r.availableVramGb then base+1/10 else base
    min base 1

def scoreRegion (intelligence : String → Option RegionIntelligence) (r : FabricRegion) :
    ℚ × PlacementFactors :=
  let gpuScore := request.gpuScore r
  let loadScore := 1-r.workloadSaturation
  let latencyScore := if 0 < r.avgLatencyMs then max 0 (1-r.avgLatencyMs/500) else 7/10
  let capacityScore := min r.capacity 1
  let connectivityScore : ℚ := if r.edgeConnectivity then 1 else 1/2
  let costFactor := loadScore*(3/5)+capacityScore*(2/5)
  let perfFactor := latencyScore*(1/2)+gpuScore*(1/2)
  let efficiencyFactor := connectivityScore*(2/5)+(1-r.workloadSaturation)*(3/5)
  let score := request.costWeight*costFactor+request.performanceWeight*perfFactor+
    request.efficiencyWeight*efficiencyFactor
  let score :=
    if request.preferredRegion ≠ "" ∧ r.regionId = request.preferredRegion then score+1/10
    else score
  let score := if r.status = .degraded then score*(7/10) else score
  let intel := intelligence r.regionId
  let powerScore := (intel.map fun i => 3/10+i.renewablePct*(7/10)).getD (1/2)
  let thermalScore := (intel.map fun i => max 0 (1-i.thermalPressure)).getD (1/2)
  let historicalScore := (intel.map RegionIntelligence.historicalSuccessRate).getD (1/2)
  let predictedScore := (intel.map fun i => max 0 (1-i.predictedSaturation)).getD (1/2)
  let weighted (weight value score : ℚ) : ℚ := if 0 < weight then score+weight*value else score
  let score := weighted request.powerEfficiencyWeight powerScore score
  let score := weighted request.thermalWeight thermalScore score
  let score := weighted request.historicalSuccessWeight historicalScore score
  let score := weighted request.predictedTrafficWeight predictedScore score
  (score,⟨roundTo 3 gpuScore,roundTo 3 loadScore,roundTo 3 latencyScore,roundTo 3 capacityScore,
    roundTo 3 connectivityScore,roundTo 3 costFactor,roundTo 3 perfFactor,
    roundTo 3 efficiencyFactor,roundTo 3 powerScore,roundTo 3 thermalScore,
    roundTo 3 historicalScore,roundTo 3 predictedScore⟩)

end PlacementRequest

/-- The active and the degraded regions, in the order of their ids. -/
def fabricRegions (registry : Table FabricRegion) : List FabricRegion :=
  (registry.entries.insertionSort fun a b => a.regionId ≤ b.regionId).filter fun r =>
    r.status = .active ∨ r.status = .degraded

/-- What `place` decides from the regions that it has read, before it records it. -/
def decide? (candidates : List FabricRegion)
    (intelligence : String → Option RegionIntelligence) (start stop : ℚ)
    (request : PlacementRequest) : Option PlacementDecision :=
  let scored := (request.filterCandidates candidates).map fun r =>
    (request.scoreRegion intelligence r,r)
  match scored.insertionSort fun a b => b.1.1 ≤ a.1.1 with
  | [] => none
  | best :: rest =>
    some ⟨request.workloadId,best.2.regionId,roundTo 4 best.1.1,best.1.2,
      (rest.take 3).map fun x => x.2.regionId,roundTo 2 ((stop-start)*1000),stop⟩

structure FabricWorkload where
  workloadId : String
  regionId : String
  score : ℚ
  factors : PlacementFactors
  submittedAt : ℚ
  migratedFrom : Option String := none
  migratedAt : Option ℚ := none

instance : Keyed FabricWorkload String := ⟨FabricWorkload.workloadId⟩

/-- The registry, what the placement engine keeps, and the workloads. -/
structure FabricState where
  registry : Table FabricRegion := .empty
  decisions : List PlacementDecision := []
  totalPlaced : ℕ := 0
  activeWorkloads : Table FabricWorkload := .empty
  completedWorkloads : ℕ := 0
  failedWorkloads : ℕ := 0

namespace FabricState
variable (s : FabricState)

def record (decision : PlacementDecision) : FabricState :=
  { s with
    decisions := truncated 500 (s.decisions ++ [decision])
    totalPlaced := s.totalPlaced+1 }

def store (now : ℚ) (decision : PlacementDecision) : FabricState :=
  { s with
    activeWorkloads := s.activeWorkloads.put
      ⟨decision.workloadId,decision.regionId,decision.score,decision.factors,now,none,none⟩ }

def migrateWorkload (now : ℚ) (workloadId targetRegion : String) :
    FabricState × Option FabricWorkload :=
  match s.activeWorkloads.get? workloadId with
  | none => (s,none)
  | some wl =>
    let wl :=
      { wl with regionId := targetRegion, migratedFrom := some wl.regionId, migratedAt := some now }
    ({ s with activeWorkloads := s.activeWorkloads.put wl },some wl)

def workloadsInRegion (regionId : String) : List FabricWorkload :=
  s.activeWorkloads.entries.filter fun w => w.regionId = regionId

/-- The count of a completed workload, from the value that was read. -/
def count (success : Bool) (seen : ℕ) : FabricState :=
  if success then { s with completedWorkloads := seen+1 }
  else { s with failedWorkloads := seen+1 }

end FabricState

/-- Where a call stands. The counts of completed workloads are read and written without the lock. -/
inductive FabricTask
  | listing (request : PlacementRequest)
  | deciding (request : PlacementRequest) (candidates : List FabricRegion) (start : ℚ)
  | recording (decision : PlacementDecision)
  | storing (decision : PlacementDecision)
  | popping (workloadId : String) (success : Bool)
  | reading (success : Bool)
  | counting (success : Bool) (seen : ℕ)
  | migrating (workloadId targetRegion : String)
  | selecting (regionId targetRegion : String)
  | draining (targetRegion : String) (toMigrate : List String) (migrated : ℕ)
  | done

inductive FabricRequest
  | submitWorkload (request : PlacementRequest)
  | completeWorkload (workloadId : String) (success : Bool)
  | migrateWorkload (workloadId targetRegion : String)
  | drainRegion (regionId targetRegion : String)

def FabricRequest.task : FabricRequest → FabricTask
  | submitWorkload request => .listing request
  | completeWorkload workloadId success => .popping workloadId success
  | migrateWorkload workloadId targetRegion => .migrating workloadId targetRegion
  | drainRegion regionId targetRegion => .selecting regionId targetRegion

/-- The clock, and what the intelligence context says as the regions are scored. -/
structure FabricInput where
  now : ℚ := 0
  intelligence : String → Option RegionIntelligence := fun _ => none

def fabricNext (s : FabricState) (t : FabricTask) (input : FabricInput) :
    FabricState × FabricTask :=
  match t with
  | .listing request => (s,.deciding request (fabricRegions s.registry) input.now)
  | .deciding request candidates start =>
    match decide? candidates input.intelligence start input.now request with
    | none => (s,.done)
    | some decision => (s,.recording decision)
  | .recording decision => (s.record decision,.storing decision)
  | .storing decision => (s.store input.now decision,.done)
  | .popping workloadId success =>
    match s.activeWorkloads.get? workloadId with
    | none => (s,.done)
    | some _ =>
      ({ s with activeWorkloads := s.activeWorkloads.erase workloadId },.reading success)
  | .reading success =>
    (s,.counting success (if success then s.completedWorkloads else s.failedWorkloads))
  | .counting success seen => (s.count success seen,.done)
  | .migrating workloadId targetRegion =>
    ((s.migrateWorkload input.now workloadId targetRegion).1,.done)
  | .selecting regionId targetRegion =>
    (s,.draining targetRegion ((s.workloadsInRegion regionId).map FabricWorkload.workloadId) 0)
  | .draining targetRegion (workloadId :: rest) migrated =>
    ((s.migrateWorkload input.now workloadId targetRegion).1,
      .draining targetRegion rest
        (if (s.migrateWorkload input.now workloadId targetRegion).2.isSome then migrated+1
          else migrated))
  | .draining targetRegion [] migrated => (s,.draining targetRegion [] migrated)
  | .done => (s,.done)

/-- What happens outside is that the registry changes, in any way. -/
def computeFabric :
    Program FabricState FabricTask (Table FabricRegion) FabricRequest FabricInput :=
  ⟨fun s registry => { s with registry := registry },FabricRequest.task,fabricNext⟩

abbrev ComputeFabric := Pool FabricState FabricTask

abbrev FabricEvent := PoolEvent (Table FabricRegion) FabricRequest FabricInput

/-! A placement goes to the region with the highest score of those that pass the filters. -/

instance (request : PlacementRequest) (r : FabricRegion) : Decidable (request.Eligible r) :=
  inferInstanceAs (Decidable (_ ∧ _ ∧ _ ∧ _))

theorem PlacementRequest.filterCandidates_eq (request : PlacementRequest)
    (candidates : List FabricRegion) :
    request.filterCandidates candidates = candidates.filter fun r => request.Eligible r := by
  simp only [filterCandidates, ite_filter_eq]
  simp only [List.filter_filter, decide_eq_true_iff, ← Bool.decide_and]
  refine List.filter_congr fun r _ => decide_eq_decide.mpr ?_
  constructor
  · rintro ⟨hlatency,htype,hvram,hgpu⟩
    exact ⟨hgpu,hvram,htype,hlatency⟩
  · rintro ⟨hgpu,hvram,htype,hlatency⟩
    exact ⟨hlatency,htype,hvram,hgpu⟩

/-- Of two regions the one with the higher score is placed in first, of two with one score that with
the smaller id. -/
def PlacementRequest.Outranks (request : PlacementRequest)
    (intelligence : String → Option RegionIntelligence) (r q : FabricRegion) : Prop :=
  (request.scoreRegion intelligence q).1 < (request.scoreRegion intelligence r).1 ∨
    (request.scoreRegion intelligence q).1 = (request.scoreRegion intelligence r).1 ∧
      r.regionId < q.regionId

theorem mem_fabricRegions {registry : Table FabricRegion} {r : FabricRegion} :
    r ∈ fabricRegions registry ↔
      registry.get? r.regionId = some r ∧ (r.status = .active ∨ r.status = .degraded) := by
  rw [fabricRegions, List.mem_filter, List.mem_insertionSort, decide_eq_true_iff]
  exact and_congr_left fun _ => Table.mem_iff_get?

theorem fabricRegions_sorted (registry : Table FabricRegion) :
    (fabricRegions registry).Pairwise fun a b => a.regionId < b.regionId := by
  have hsorted := List.pairwise_insertionSort (fun a b : FabricRegion => a.regionId ≤ b.regionId)
    registry.entries
  have hnodup : (registry.entries.insertionSort fun a b => a.regionId ≤ b.regionId).Pairwise
      fun a b => a.regionId ≠ b.regionId := by
    refine ((List.perm_insertionSort _ _).pairwise_iff ?_).mpr (List.pairwise_map.mp registry.nodup)
    exact fun h => h.symm
  refine ((hsorted.and hnodup).imp ?_).filter _
  rintro a b ⟨hle,hne⟩
  exact lt_of_le_of_ne hle hne

/-- The ranking of the regions that pass the filters. -/
def ranking (request : PlacementRequest) (intelligence : String → Option RegionIntelligence)
    (candidates : List FabricRegion) : List FabricRegion :=
  ranked (fun r => (request.scoreRegion intelligence r).1) (request.filterCandidates candidates)

theorem decide?_eq (candidates : List FabricRegion)
    (intelligence : String → Option RegionIntelligence) (start stop : ℚ)
    (request : PlacementRequest) :
    decide? candidates intelligence start stop request =
      match ranking request intelligence candidates with
      | [] => none
      | best :: rest =>
        some ⟨request.workloadId,best.regionId,
          roundTo 4 (request.scoreRegion intelligence best).1,
          (request.scoreRegion intelligence best).2,(rest.take 3).map fun r => r.regionId,
          roundTo 2 ((stop-start)*1000),stop⟩ := by
  simp only [decide?, ranking]
  rw [sort_map_eq_ranked (fun r => (request.scoreRegion intelligence r).1)
    (fun r => (request.scoreRegion intelligence r,r)) (fun x => x.1.1) (fun _ => rfl)]
  cases ranked (fun r => (request.scoreRegion intelligence r).1)
      (request.filterCandidates candidates) with
  | nil => rfl
  | cons best rest => simp [← List.map_take]

theorem ranking_pairwise {request : PlacementRequest}
    {intelligence : String → Option RegionIntelligence} {candidates : List FabricRegion}
    (h : candidates.Pairwise fun a b => a.regionId < b.regionId) :
    (ranking request intelligence candidates).Pairwise (request.Outranks intelligence) := by
  have hfiltered : (request.filterCandidates candidates).Pairwise
      fun a b => a.regionId < b.regionId := by
    rw [PlacementRequest.filterCandidates_eq]
    exact h.filter _
  refine (@pairwise_insertionSort_lex _ _ _
    (fun r => OrderDual.toDual (request.scoreRegion intelligence r).1) _ _
    (fun a b => a.regionId < b.regionId) (fun _ _ => Iff.rfl) _ ?_).imp ?_
  · refine hfiltered.imp ?_
    intro a b hlt _
    exact hlt
  · rintro a b (hlt | ⟨heq,hlt⟩)
    · exact Or.inl hlt
    · exact Or.inr ⟨(OrderDual.toDual.injective heq).symm,hlt⟩

theorem mem_ranking {request : PlacementRequest}
    {intelligence : String → Option RegionIntelligence} {candidates : List FabricRegion}
    {r : FabricRegion} :
    r ∈ ranking request intelligence candidates ↔ r ∈ candidates ∧ request.Eligible r := by
  rw [ranking, (perm_ranked _ _).mem_iff, PlacementRequest.filterCandidates_eq]
  simp

/-- The chosen region and the alternatives to it are the first four of the ranking. -/
theorem regions_decide? {candidates : List FabricRegion}
    {intelligence : String → Option RegionIntelligence} {start stop : ℚ}
    {request : PlacementRequest} {d : PlacementDecision}
    (h : decide? candidates intelligence start stop request = some d) :
    d.regionId :: d.alternatives =
        ((ranking request intelligence candidates).take 4).map (fun r => r.regionId) ∧
      ∃ best ∈ (ranking request intelligence candidates).head?,
        d.score = roundTo 4 (request.scoreRegion intelligence best).1 ∧
        d.factors = (request.scoreRegion intelligence best).2 := by
  rw [decide?_eq] at h
  cases hranking : ranking request intelligence candidates with
  | nil =>
    rw [hranking] at h
    cases h
  | cons best rest =>
    rw [hranking] at h
    cases h
    exact ⟨rfl,best,rfl,rfl,rfl⟩

theorem decide?_eq_none_iff {candidates : List FabricRegion}
    {intelligence : String → Option RegionIntelligence} {start stop : ℚ}
    {request : PlacementRequest} :
    decide? candidates intelligence start stop request = none ↔
      ∀ r ∈ candidates, ¬ request.Eligible r := by
  have hnil : decide? candidates intelligence start stop request = none ↔
      ranking request intelligence candidates = [] := by
    rw [decide?_eq]
    cases ranking request intelligence candidates <;> simp
  rw [hnil, List.eq_nil_iff_forall_not_mem]
  simp only [mem_ranking, not_and]

/-- A workload is placed in a region exactly if some active or degraded region passes its filters:
in the first of all that do, by their scores and then by their ids. The alternatives are the next
three. -/
theorem place_decides (registry : Table FabricRegion)
    (intelligence : String → Option RegionIntelligence) (start stop : ℚ)
    (request : PlacementRequest) :
    ∃ regions : List FabricRegion,
      (∀ r, r ∈ regions ↔ registry.get? r.regionId = some r ∧
        (r.status = .active ∨ r.status = .degraded) ∧ request.Eligible r) ∧
      regions.Pairwise (request.Outranks intelligence) ∧
      (decide? (fabricRegions registry) intelligence start stop request = none ↔ regions = []) ∧
      ∀ d, decide? (fabricRegions registry) intelligence start stop request = some d →
        d.regionId :: d.alternatives = (regions.take 4).map (fun r => r.regionId) ∧
        ∃ best ∈ regions.head?, d.score = roundTo 4 (request.scoreRegion intelligence best).1 ∧
          d.factors = (request.scoreRegion intelligence best).2 := by
  have hmem : ∀ r, r ∈ ranking request intelligence (fabricRegions registry) ↔
      registry.get? r.regionId = some r ∧
        (r.status = .active ∨ r.status = .degraded) ∧ request.Eligible r := by
    intro r
    rw [mem_ranking, mem_fabricRegions, and_assoc]
  refine ⟨ranking request intelligence (fabricRegions registry),hmem,
    ranking_pairwise (fabricRegions_sorted registry),?_,fun d => regions_decide?⟩
  rw [decide?_eq_none_iff, List.eq_nil_iff_forall_not_mem]
  simp only [mem_ranking, not_and]

/-! While a region is drained, the workloads left in it are those that the drain has still to move,
as long as no call puts another one there. -/

/-- The call may still put a workload in the region. -/
def FabricTask.Into (r : String) : FabricTask → Prop
  | deciding _ candidates _ => ∃ q ∈ candidates, q.regionId = r
  | recording decision => decision.regionId = r
  | storing decision => decision.regionId = r
  | migrating _ targetRegion => targetRegion = r
  | selecting _ targetRegion => targetRegion = r
  | draining targetRegion toMigrate _ => targetRegion = r ∧ toMigrate ≠ []
  | _ => False

/-- The registry shows the region to no placement. -/
def Unlisted (r : String) (registry : Table FabricRegion) : Prop :=
  ∀ q ∈ fabricRegions registry, q.regionId ≠ r

instance (r : String) (registry : Table FabricRegion) : Decidable (Unlisted r registry) :=
  inferInstanceAs (Decidable (∀ q ∈ fabricRegions registry, q.regionId ≠ r))

/-- The region stays unlisted, and no call moves workloads to it. -/
def LeavesAlone (r : String) : FabricEvent → Prop
  | .outside registry => Unlisted r registry
  | .start request => ¬ request.task.Into r
  | .advance _ _ => True

section Steps
variable {s : FabricState} {r : String}

theorem mem_store {now : ℚ} {d : PlacementDecision} (h : d.regionId ≠ r) {w : FabricWorkload}
    (hw : w ∈ (s.store now d).activeWorkloads.entries) (hr : w.regionId = r) :
    w ∈ s.activeWorkloads.entries := by
  obtain rfl | ⟨hold,-⟩ := Table.mem_put.mp hw
  · exact absurd hr h
  · exact hold

/-- A migration leaves the workload in no region but its target. -/
theorem mem_migrateWorkload {now : ℚ} {workloadId target : String} (h : target ≠ r)
    {w : FabricWorkload}
    (hw : w ∈ (s.migrateWorkload now workloadId target).1.activeWorkloads.entries)
    (hr : w.regionId = r) :
    w ∈ s.activeWorkloads.entries ∧ w.workloadId ≠ workloadId := by
  unfold FabricState.migrateWorkload at hw
  cases hget : s.activeWorkloads.get? workloadId with
  | none =>
    rw [hget] at hw
    refine ⟨hw,?_⟩
    rintro rfl
    exact Table.get?_eq_none_iff.mp hget (List.mem_map_of_mem hw)
  | some wl =>
    rw [hget] at hw
    obtain rfl | ⟨hold,hne⟩ := Table.mem_put.mp hw
    · exact absurd hr h
    · have hkey : wl.workloadId = workloadId := Table.key_of_get? hget
      exact ⟨hold,fun heq => hne (heq.trans hkey.symm)⟩

theorem registry_migrateWorkload (now : ℚ) (workloadId target : String) :
    (s.migrateWorkload now workloadId target).1.registry = s.registry := by
  unfold FabricState.migrateWorkload
  cases s.activeWorkloads.get? workloadId <;> rfl

/-- What a step of a call that puts no workload in the region does: it lets no workload in, and the
call still puts none there. -/
theorem fabricNext_spec {t : FabricTask} (hlisted : Unlisted r s.registry) (ht : ¬ t.Into r)
    (input : FabricInput) :
    (fabricNext s t input).1.registry = s.registry ∧ ¬ (fabricNext s t input).2.Into r ∧
      ∀ w ∈ (fabricNext s t input).1.activeWorkloads.entries, w.regionId = r →
        w ∈ s.activeWorkloads.entries := by
  cases t with
  | listing request => exact ⟨rfl,fun ⟨q,hq,hr⟩ => hlisted q hq hr,fun w hw _ => hw⟩
  | deciding request candidates start =>
    rw [fabricNext]
    cases hd : decide? candidates input.intelligence start input.now request with
    | none => exact ⟨rfl,id,fun w hw _ => hw⟩
    | some d =>
      refine ⟨rfl,fun hr => ht ?_,fun w hw _ => hw⟩
      obtain ⟨hregions,best,hbest,-⟩ := regions_decide? hd
      refine ⟨best,(mem_ranking.mp (List.mem_of_mem_head? hbest)).1,?_⟩
      obtain ⟨rest,hrest⟩ := List.head?_eq_some_iff.mp hbest
      rw [hrest] at hregions
      exact (List.cons.inj hregions).1.symm.trans hr
  | recording d => exact ⟨rfl,ht,fun w hw _ => hw⟩
  | storing d => exact ⟨rfl,id,fun w hw hr => mem_store ht hw hr⟩
  | popping workloadId success =>
    rw [fabricNext]
    cases s.activeWorkloads.get? workloadId with
    | none => exact ⟨rfl,id,fun w hw _ => hw⟩
    | some wl => exact ⟨rfl,id,fun w hw _ => (Table.mem_erase.mp hw).1⟩
  | reading success => exact ⟨rfl,id,fun w hw _ => hw⟩
  | counting success seen =>
    rw [fabricNext]
    cases success <;> exact ⟨rfl,id,fun w hw _ => hw⟩
  | migrating workloadId target =>
    exact ⟨registry_migrateWorkload _ _ _,id,fun w hw hr => (mem_migrateWorkload ht hw hr).1⟩
  | selecting regionId target => exact ⟨rfl,fun hinto => ht hinto.1,fun w hw _ => hw⟩
  | draining target toMigrate migrated =>
    cases toMigrate with
    | nil => exact ⟨rfl,ht,fun w hw _ => hw⟩
    | cons workloadId rest =>
      have htarget : target ≠ r := fun heq => ht ⟨heq,List.cons_ne_nil _ _⟩
      exact ⟨registry_migrateWorkload _ _ _,fun hinto => htarget hinto.1,
        fun w hw hr => (mem_migrateWorkload htarget hw hr).1⟩
  | done => exact ⟨rfl,id,fun w hw _ => hw⟩

end Steps

namespace ComputeFabric

/-- The call at `i` drains the region: it has `rest` still to move, and has moved `migrated`. -/
structure Drains (i : ℕ) (r target : String) (rest : List String) (migrated : ℕ)
    (s : ComputeFabric) : Prop where
  proc : s.procs[i]? = some (.draining target rest migrated)
  unlisted : Unlisted r s.shared.registry
  quiet : ∀ t ∈ s.procs, ¬ t.Into r
  left : ∀ w ∈ s.shared.activeWorkloads.entries, w.regionId = r → w.workloadId ∈ rest

variable {s : ComputeFabric} {i : ℕ} {r target : String} {rest : List String} {migrated : ℕ}

/-- Whether a step is one of the call at `i`. -/
def IsTurn (i : ℕ) : FabricEvent → Bool
  | .advance j _ => j = i
  | _ => false

theorem Drains.workloadsInRegion (h : s.Drains i r target [] migrated) :
    s.shared.workloadsInRegion r = [] := by
  rw [FabricState.workloadsInRegion, List.filter_eq_nil_iff]
  intro w hw hr
  exact List.not_mem_nil (h.left w hw (of_decide_eq_true hr))

/-- The steps of the other calls, and what happens outside. -/
theorem Drains.other (h : s.Drains i r target rest migrated) {e : FabricEvent}
    (he : LeavesAlone r e) (hturn : IsTurn i e = false) :
    Drains i r target rest migrated (Pool.step computeFabric s e) := by
  have hi := (List.getElem?_eq_some_iff.mp h.proc).1
  cases e with
  | outside registry => exact ⟨h.proc,he,h.quiet,h.left⟩
  | start request =>
    refine ⟨?_,h.unlisted,fun t ht => ?_,h.left⟩
    · exact (List.getElem?_append_left hi).trans h.proc
    · obtain ht | ht := List.mem_append.mp ht
      · exact h.quiet t ht
      · rw [List.mem_singleton.mp ht]
        exact he
  | advance j input =>
    cases hj : s.procs[j]? with
    | none =>
      rw [Pool.step_advance_none hj]
      exact h
    | some t =>
      rw [Pool.step_advance hj]
      obtain ⟨hregistry,hquiet,hleft⟩ :=
        fabricNext_spec h.unlisted (h.quiet t (Pool.mem_of_getElem? hj)) input
      refine ⟨?_,?_,fun u hu => ?_,fun w hw hr => h.left w (hleft w hw hr) hr⟩
      · rw [List.getElem?_set_ne (of_decide_eq_false hturn)]
        exact h.proc
      · rw [Unlisted, show (computeFabric.next s.shared t input).1.registry = _ from hregistry]
        exact h.unlisted
      · obtain rfl | hold := Pool.mem_set hu
        · exact hquiet
        · exact h.quiet u hold

/-- A step of the drain itself moves the next workload, unless it is gone. -/
theorem Drains.turn (h : s.Drains i r target rest migrated) (input : FabricInput) :
    ∃ migrated', Drains i r target rest.tail migrated'
      (Pool.step computeFabric s (.advance i input)) ∧
      migrated'+rest.tail.length ≤ migrated+rest.length := by
  have hi := (List.getElem?_eq_some_iff.mp h.proc).1
  have hself := h.quiet _ (Pool.mem_of_getElem? h.proc)
  rw [Pool.step_advance h.proc]
  cases rest with
  | nil =>
    refine ⟨migrated,⟨List.getElem?_set_self hi,h.unlisted,fun u hu => ?_,h.left⟩,le_rfl⟩
    obtain rfl | hold := Pool.mem_set hu
    · exact hself
    · exact h.quiet u hold
  | cons workloadId rest =>
    have htarget : target ≠ r := fun heq => hself ⟨heq,List.cons_ne_nil _ _⟩
    refine ⟨_,⟨List.getElem?_set_self hi,?_,fun u hu => ?_,fun w hw hr => ?_⟩,?_⟩
    · exact (registry_migrateWorkload _ _ _).symm ▸ h.unlisted
    · obtain rfl | hold := Pool.mem_set hu
      · exact fun hinto => htarget hinto.1
      · exact h.quiet u hold
    · obtain ⟨hold,hne⟩ := mem_migrateWorkload htarget hw hr
      exact (List.mem_cons.mp (h.left w hold hr)).resolve_left hne
    · simp only [List.tail_cons, List.length_cons]
      split_ifs <;> omega

/-- Every step of the drain shortens what it has to move. -/
theorem Drains.run (h : s.Drains i r target rest migrated) {events : List FabricEvent}
    (hevents : ∀ e ∈ events, LeavesAlone r e) :
    ∃ migrated', Drains i r target (rest.drop (events.countP (IsTurn i))) migrated'
      (Library.run (Pool.step computeFabric) s events) ∧ migrated' ≤ migrated+rest.length := by
  induction events generalizing s rest migrated with
  | nil => exact ⟨migrated,h,Nat.le_add_right _ _⟩
  | cons e events ih =>
    obtain ⟨he,hrest⟩ := List.forall_mem_cons.mp hevents
    rw [run_cons]
    cases hturn : IsTurn i e with
    | false =>
      rw [List.countP_cons_of_neg (by simp [hturn])]
      exact ih (h.other he hturn) hrest
    | true =>
      rw [List.countP_cons_of_pos hturn, ← List.drop_tail]
      cases e with
      | outside registry => cases hturn
      | start request => cases hturn
      | advance j input =>
        obtain rfl : j = i := of_decide_eq_true hturn
        obtain ⟨migrated',hnext,hle⟩ := h.turn input
        obtain ⟨last,hlast,hle'⟩ := ih hnext hrest
        exact ⟨last,hlast,hle'.trans hle⟩

end ComputeFabric

open ComputeFabric

/-- A drain that begins when no placement can choose the region any more, none that has chosen it
is under way, and no call moves workloads to it: after as many turns as the region had workloads
the drain is through and has moved no more than these, and the region is empty from then on. -/
theorem drained_empty {s : ComputeFabric} {i : ℕ} {r target : String}
    (hi : s.procs[i]? = some (.selecting r target)) (hunlisted : Unlisted r s.shared.registry)
    (hquiet : ∀ t ∈ s.procs, ¬ t.Into r) (input : FabricInput) {events : List FabricEvent}
    (hevents : ∀ e ∈ events, LeavesAlone r e)
    (hturns : (s.shared.workloadsInRegion r).length ≤ events.countP (IsTurn i)) :
    let after := Library.run (Pool.step computeFabric) s (.advance i input :: events)
    after.shared.workloadsInRegion r = [] ∧
      ∃ migrated ≤ (s.shared.workloadsInRegion r).length,
        after.procs[i]? = some (.draining target [] migrated) := by
  have hlt := (List.getElem?_eq_some_iff.mp hi).1
  have htarget : target ≠ r := hquiet _ (Pool.mem_of_getElem? hi)
  have hstart : Drains i r target
      ((s.shared.workloadsInRegion r).map FabricWorkload.workloadId) 0
      (Pool.step computeFabric s (.advance i input)) := by
    rw [Pool.step_advance hi]
    refine ⟨List.getElem?_set_self hlt,hunlisted,fun u hu => ?_,fun w hw hr => ?_⟩
    · obtain rfl | hold := Pool.mem_set hu
      · exact fun hinto => htarget hinto.1
      · exact hquiet u hold
    · exact List.mem_map_of_mem (List.mem_filter.mpr ⟨hw,decide_eq_true hr⟩)
  obtain ⟨migrated,hdrains,hle⟩ := hstart.run hevents
  rw [List.drop_eq_nil_of_le (by rwa [List.length_map])] at hdrains
  rw [List.length_map, Nat.zero_add] at hle
  exact ⟨hdrains.workloadsInRegion,migrated,hle,hdrains.proc⟩

/-- A region that takes no more workloads, and one workload that it still has. -/
def drainingEu : FabricState where
  registry := (Table.empty.put { regionId := "eu", status := .draining }).put { regionId := "us" }
  activeWorkloads := Table.empty.put
    ⟨"w1","eu",1,⟨0,1,1,1,1,1,1,1,0,0,0,0⟩,5,none,none⟩

theorem drained_empty_drainingEu :
    let after := Library.run (Pool.step computeFabric) ⟨drainingEu,[.selecting "eu" "us"]⟩
      [.advance 0 {},.start (.submitWorkload { workloadId := "w2" }),.advance 1 {},.advance 0 {}]
    after.shared.workloadsInRegion "eu" = [] ∧
      ∃ migrated ≤ (drainingEu.workloadsInRegion "eu").length,
        after.procs[0]? = some (.draining "us" [] migrated) :=
  drained_empty (s := ⟨drainingEu,[.selecting "eu" "us"]⟩) rfl (by decide +kernel)
    (by simp [FabricTask.Into]) {}
    (by simp [LeavesAlone, FabricRequest.task, FabricTask.Into]) (by decide +kernel)

/-- A placement that was decided before the region was closed is stored after the drain. -/
example :
    ((Library.run (Pool.step computeFabric) ⟨drainingEu,[.selecting "eu" "us",
      .storing ⟨"w2","eu",1,⟨0,1,1,1,1,1,1,1,0,0,0,0⟩,[],0,5⟩]⟩
      [.advance 0 {},.advance 0 {},.advance 1 {}]).shared.workloadsInRegion "eu").map
        FabricWorkload.workloadId = ["w2"] := by
  decide +kernel

end Arsonist.Fabric
