import Arsonist.Library.History
import Arsonist.Library.StableSort
import Arsonist.Library.Text

/-! The migration plans of `adaptation/dynamic_routing.py`: each region that is over a threshold
sends a part of its workloads to the region that is best by the measure that it exceeds itself. -/
namespace Arsonist.Adaptation
open Arsonist.Library

inductive MigrationReason
  | latency
  | gpuSaturation
  | thermalLoad
  | bandwidthCongestion
  | energyEfficiency
  | costOptimization
  | predictive
  deriving DecidableEq

inductive MigrationStatus | planned | draining | migrating | completed | failed | cancelled
  deriving DecidableEq

/-- An entry of `telemetry["regions"]`: each of its fields may be missing, and so may the id of each
of its workloads. -/
structure MigrationRegion where
  regionId : Option String := none
  status : Option String := none
  workloads : Option (List (Option String)) := none
  avgLatencyMs : Option ℚ := none
  gpuUtilization : Option ℚ := none
  thermalPressure : Option ℚ := none
  costPerHour : Option ℚ := none
  renewablePct : Option ℚ := none
  workloadSaturation : Option ℚ := none

namespace MigrationRegion
variable (r : MigrationRegion)

/-- The name of the region as a source. -/
def sourceId : String := r.regionId.getD "unknown"

/-- The name of the region as a target. -/
def targetId : String := r.regionId.getD ""

def online : Bool := r.status.getD "" ≠ "offline"

def workloadIds : List (Option String) := r.workloads.getD []

/-- The key by which targets are sorted. -/
def metric : MigrationReason → ℚ
  | .latency => r.avgLatencyMs.getD 9999
  | .gpuSaturation => r.gpuUtilization.getD 1
  | .thermalLoad => r.thermalPressure.getD 1
  | .costOptimization => r.costPerHour.getD 9999
  | .energyEfficiency => -r.renewablePct.getD 0
  | _ => r.workloadSaturation.getD 1

end MigrationRegion

structure WorkloadMigration where
  migrationId : String
  workloadId : String
  sourceRegion : String := ""
  targetRegion : String := ""
  reason : MigrationReason := .latency
  status : MigrationStatus := .planned
  priority : ℤ := 5
  gracefulDrain : Bool := true
  drainTimeoutS : ℚ := 30
  plannedAt : ℚ := 0
  startedAt : ℚ := 0
  completedAt : ℚ := 0
  migrationTimeMs : ℚ := 0

structure DynamicRoutingAdapter where
  latencyThreshold : ℚ := 300
  gpuThreshold : ℚ := 9/10
  thermalThreshold : ℚ := 8/10
  maxHistory : ℤ := 500
  migrations : List WorkloadMigration := []

namespace DynamicRoutingAdapter
variable (s : DynamicRoutingAdapter)

/-- The regions that can take over from a source. -/
def candidates (sourceRegion : String) (regions : List MigrationRegion) : List MigrationRegion :=
  regions.filter fun r => r.regionId ≠ some sourceRegion && r.online

def sortedCandidates (sourceRegion : String) (regions : List MigrationRegion)
    (reason : MigrationReason) : List MigrationRegion :=
  (candidates sourceRegion regions).insertionSort fun a b => a.metric reason ≤ b.metric reason

/-- An empty id stands for no target. -/
def findBestTarget (sourceRegion : String) (regions : List MigrationRegion)
    (reason : MigrationReason) : String :=
  match sortedCandidates sourceRegion regions reason with
  | [] => ""
  | best :: _ => best.targetId

def reasonFor (r : MigrationRegion) : Option MigrationReason :=
  if s.latencyThreshold < r.avgLatencyMs.getD 0 then some .latency
  else if s.gpuThreshold < r.gpuUtilization.getD 0 then some .gpuSaturation
  else if s.thermalThreshold < r.thermalPressure.getD 0 then some .thermalLoad
  else none

def migration (ts : ℚ) (r : MigrationRegion) (target : String) (reason : MigrationReason)
    (workloadId : Option String) : WorkloadMigration :=
  let wid := workloadId.getD ("wl-" ++ r.sourceId ++ "-" ++ (Text.truncate ts).repr)
  { migrationId := "mig-" ++ wid ++ "-" ++ (Text.truncate ts).repr
    workloadId := wid
    sourceRegion := r.sourceId
    targetRegion := target
    reason := reason
    priority := if reason = .thermalLoad then 8 else 5
    plannedAt := ts }

/-- What is planned for one region. -/
def planFor (ts : ℚ) (regions : List MigrationRegion) (r : MigrationRegion) :
    List WorkloadMigration :=
  match s.reasonFor r with
  | none => []
  | some reason =>
    let target := findBestTarget r.sourceId regions reason
    if target = "" then []
    else
      let migrateCount := max 1 (r.workloadIds.length/4)
      (r.workloadIds.take migrateCount).map (migration ts r target reason)

def planMigrations (ts : ℚ) (regions : List MigrationRegion) :
    DynamicRoutingAdapter × List WorkloadMigration :=
  let planned := regions.flatMap (s.planFor ts regions)
  ({ s with migrations := truncated s.maxHistory (s.migrations ++ planned) },planned)

end DynamicRoutingAdapter
end Arsonist.Adaptation

/-! Whether a plan moves load in two directions. Each region chooses its target without regard to
the others, so that one which is to be relieved itself can be chosen. -/
namespace Arsonist.Adaptation
open Arsonist.Library
namespace DynamicRoutingAdapter

/-- No region is the source of one migration and the target of another, and each target is online
and not its own source. -/
structure OneWay (regions : List MigrationRegion) (planned : List WorkloadMigration) : Prop where
  noSwap : ∀ m ∈ planned, ∀ m' ∈ planned, m.sourceRegion ≠ m'.targetRegion
  online : ∀ m ∈ planned, ∃ r ∈ regions, r.regionId = some m.targetRegion ∧ r.online = true
  apart : ∀ m ∈ planned, m.targetRegion ≠ m.sourceRegion

/-- In the order of a reason, each of some regions without a property comes after one with it. -/
abbrev LedBy (reason : MigrationReason) (P : MigrationRegion → Prop)
    (l : List MigrationRegion) : Prop :=
  Led (fun a b => a.metric reason ≤ b.metric reason) P l

variable {s : DynamicRoutingAdapter} {regions : List MigrationRegion}

/-- A region has workloads to send away for some reason, and there is a region to send them to: one
with an id comes first. -/
def Sends (s : DynamicRoutingAdapter) (regions : List MigrationRegion) (r : MigrationRegion) :
    Prop :=
  ∃ reason, s.reasonFor r = some reason ∧ r.workloadIds ≠ [] ∧
    candidates r.sourceId regions ≠ [] ∧
    LedBy reason (fun c => c.targetId ≠ "") (candidates r.sourceId regions)

theorem findBestTarget_eq (sourceRegion : String) (regions : List MigrationRegion)
    (reason : MigrationReason) :
    findBestTarget sourceRegion regions reason =
      ((sortedCandidates sourceRegion regions reason).head?.map MigrationRegion.targetId).getD ""
    := by
  rw [findBestTarget]
  cases sortedCandidates sourceRegion regions reason <;> rfl

/-- A property of the name of the target, in terms of the candidates. -/
theorem findBestTarget_iff {sourceRegion : String} {reason : MigrationReason} (P : String → Prop)
    (h : candidates sourceRegion regions ≠ []) :
    P (findBestTarget sourceRegion regions reason) ↔
      LedBy reason (fun c => P c.targetId) (candidates sourceRegion regions) := by
  rw [findBestTarget_eq]
  cases hhead : (sortedCandidates sourceRegion regions reason).head? with
  | none =>
    have hperm := List.perm_insertionSort (fun a b => a.metric reason ≤ b.metric reason)
      (candidates sourceRegion regions)
    rw [← sortedCandidates, List.head?_eq_none_iff.mp hhead] at hperm
    exact absurd hperm.symm.eq_nil h
  | some a =>
    have hr : ∀ a ∈ candidates sourceRegion regions, ∀ b ∈ candidates sourceRegion regions,
        (a.metric reason ≤ b.metric reason ↔ a.metric reason ≤ b.metric reason) :=
      fun _ _ _ _ => Iff.rfl
    change P a.targetId ↔ _
    exact head?_insertionSort_iff (P := fun c => P c.targetId) hr hhead

theorem findBestTarget_of_nil {sourceRegion : String} {reason : MigrationReason}
    (h : candidates sourceRegion regions = []) :
    findBestTarget sourceRegion regions reason = "" := by
  rw [findBestTarget, sortedCandidates, h]
  rfl

/-- What is planned for a region that sends, and that nothing is planned for another one. -/
theorem mem_planFor {ts : ℚ} {r : MigrationRegion} {m : WorkloadMigration} :
    m ∈ s.planFor ts regions r ↔ ∃ reason, s.reasonFor r = some reason ∧
      findBestTarget r.sourceId regions reason ≠ "" ∧
      ∃ w ∈ r.workloadIds.take (max 1 (r.workloadIds.length/4)),
        migration ts r (findBestTarget r.sourceId regions reason) reason w = m := by
  rw [planFor]
  cases hreason : s.reasonFor r with
  | none => simp
  | some reason =>
    dsimp only
    by_cases htarget : findBestTarget r.sourceId regions reason = ""
    · rw [if_pos htarget]
      refine iff_of_false List.not_mem_nil ?_
      rintro ⟨_,hsome,hne,-⟩
      obtain rfl := Option.some.inj hsome
      exact hne htarget
    · rw [if_neg htarget, List.mem_map]
      constructor
      · exact fun h => ⟨reason,rfl,htarget,h⟩
      · rintro ⟨_,hsome,-,h⟩
        obtain rfl := Option.some.inj hsome
        exact h

theorem target_ne_empty_iff {sourceRegion : String} {reason : MigrationReason} :
    findBestTarget sourceRegion regions reason ≠ "" ↔ candidates sourceRegion regions ≠ [] ∧
      LedBy reason (fun c => c.targetId ≠ "") (candidates sourceRegion regions) := by
  by_cases h : candidates sourceRegion regions = []
  · rw [findBestTarget_of_nil h]
    exact iff_of_false (fun hne => hne rfl) fun hne => hne.1 h
  · rw [findBestTarget_iff (fun target => target ≠ "") h]
    exact (and_iff_right h).symm

/-- A region sends exactly if something is planned for it. -/
theorem sends_iff (ts : ℚ) {r : MigrationRegion} :
    s.Sends regions r ↔ ∃ m, m ∈ s.planFor ts regions r := by
  constructor
  · rintro ⟨reason,hreason,hworkloads,htarget⟩
    obtain ⟨w,ws,hcons⟩ := List.exists_cons_of_ne_nil hworkloads
    have hmem : w ∈ r.workloadIds.take (max 1 (r.workloadIds.length/4)) := by
      rw [hcons]
      obtain ⟨n,hn⟩ := Nat.exists_eq_add_of_le' (le_max_left 1 ((w :: ws).length/4))
      rw [hn, List.take_succ_cons]
      exact List.mem_cons_self
    exact ⟨_,mem_planFor.mpr ⟨reason,hreason,target_ne_empty_iff.mpr htarget,w,hmem,rfl⟩⟩
  · rintro ⟨m,hm⟩
    obtain ⟨reason,hreason,htarget,w,hw,-⟩ := mem_planFor.mp hm
    exact ⟨reason,hreason,List.ne_nil_of_mem (List.mem_of_mem_take hw),
      target_ne_empty_iff.mp htarget⟩

/-- A target is another region that is online. -/
theorem target_mem {sourceRegion : String} {reason : MigrationReason}
    (h : findBestTarget sourceRegion regions reason ≠ "") :
    findBestTarget sourceRegion regions reason ≠ sourceRegion ∧ ∃ r ∈ regions,
      r.regionId = some (findBestTarget sourceRegion regions reason) ∧ r.online = true := by
  rw [findBestTarget_eq] at h ⊢
  cases hhead : (sortedCandidates sourceRegion regions reason).head? with
  | none =>
    rw [hhead] at h
    exact absurd rfl h
  | some a =>
    rw [hhead] at h
    have ha := (List.perm_insertionSort _ _).subset (List.mem_of_mem_head? hhead)
    obtain ⟨hregion,hcandidate⟩ := List.mem_filter.mp ha
    rw [Bool.and_eq_true, decide_eq_true_iff] at hcandidate
    change a.targetId ≠ "" at h
    change a.targetId ≠ sourceRegion ∧ ∃ r ∈ regions, r.regionId = some a.targetId ∧ r.online = true
    have hid : a.regionId = some a.targetId := by
      rw [MigrationRegion.targetId] at h ⊢
      cases hnone : a.regionId with
      | none => exact absurd (by rw [hnone]; rfl) h
      | some id => rfl
    refine ⟨fun hsource => hcandidate.1 ?_,a,hregion,hid,hcandidate.2⟩
    rw [hid, hsource]

/-- Of two regions that send, the second does not come first among the candidates of the first: each
candidate of its name comes after one of another name. -/
def Apart (s : DynamicRoutingAdapter) (regions : List MigrationRegion) : Prop :=
  ∀ a ∈ regions, ∀ b ∈ regions, s.Sends regions a → s.Sends regions b →
    ∀ reason, s.reasonFor a = some reason →
      LedBy reason (fun c => c.targetId ≠ b.sourceId) (candidates a.sourceId regions)

/-- A plan moves load in one direction exactly if no region that sends comes first for another. -/
theorem oneWay_iff (s : DynamicRoutingAdapter) (ts : ℚ) (regions : List MigrationRegion) :
    OneWay regions (s.planMigrations ts regions).2 ↔ s.Apart regions := by
  have hmem : ∀ {m}, m ∈ (s.planMigrations ts regions).2 ↔
      ∃ r ∈ regions, m ∈ s.planFor ts regions r := List.mem_flatMap
  constructor
  · rintro ⟨hswap,-,-⟩ a ha b hb hsa hsb reason hreason
    obtain ⟨m,hm⟩ := (sends_iff ts).mp hsa
    obtain ⟨m',hm'⟩ := (sends_iff ts).mp hsb
    obtain ⟨_,hsome,htarget,_,_,rfl⟩ := mem_planFor.mp hm
    obtain rfl := Option.some.inj (hreason.symm.trans hsome)
    obtain ⟨_,_,_,_,_,rfl⟩ := mem_planFor.mp hm'
    have hne := hswap _ (hmem.mpr ⟨b,hb,hm'⟩) _ (hmem.mpr ⟨a,ha,hm⟩)
    have hcandidates := (target_ne_empty_iff.mp htarget).1
    exact (findBestTarget_iff (fun target => target ≠ b.sourceId) hcandidates).mp hne.symm
  · intro hapart
    refine ⟨fun m' hm' m hm => ?_,fun m hm => ?_,fun m hm => ?_⟩
    · obtain ⟨b,hb,hm'⟩ := hmem.mp hm'
      obtain ⟨a,ha,hm⟩ := hmem.mp hm
      have hsa := (sends_iff ts).mpr ⟨m,hm⟩
      have hsb := (sends_iff ts).mpr ⟨m',hm'⟩
      obtain ⟨reason,hreason,htarget,_,_,rfl⟩ := mem_planFor.mp hm
      obtain ⟨_,_,_,_,_,rfl⟩ := mem_planFor.mp hm'
      have hled := hapart a ha b hb hsa hsb reason hreason
      have hcandidates := (target_ne_empty_iff.mp htarget).1
      exact ((findBestTarget_iff (fun target => target ≠ b.sourceId) hcandidates).mpr hled).symm
    · obtain ⟨a,ha,hm⟩ := hmem.mp hm
      obtain ⟨reason,hreason,htarget,_,_,rfl⟩ := mem_planFor.mp hm
      exact (target_mem htarget).2
    · obtain ⟨a,ha,hm⟩ := hmem.mp hm
      obtain ⟨reason,hreason,htarget,_,_,rfl⟩ := mem_planFor.mp hm
      exact (target_mem htarget).1

/-- One region is slow, the other one has no GPU left, and each sends a workload to the other. -/
theorem not_oneWay : ¬∀ (s : DynamicRoutingAdapter) (ts : ℚ) (regions : List MigrationRegion),
    OneWay regions (s.planMigrations ts regions).2 := by
  intro h
  let regions : List MigrationRegion :=
    [{ regionId := some "a", workloads := some [some "v"], avgLatencyMs := some 400 },
      { regionId := some "b", workloads := some [some "w"], gpuUtilization := some 1 }]
  have hplanned : (planMigrations {} 0 regions).2.map
      (fun m => (m.sourceRegion,m.targetRegion)) = [("a","b"),("b","a")] := by decide +kernel
  have hab : ("a","b") ∈ (planMigrations {} 0 regions).2.map
      (fun m => (m.sourceRegion,m.targetRegion)) := by rw [hplanned]; decide
  have hba : ("b","a") ∈ (planMigrations {} 0 regions).2.map
      (fun m => (m.sourceRegion,m.targetRegion)) := by rw [hplanned]; decide
  obtain ⟨m,hm,hmab⟩ := List.mem_map.mp hab
  obtain ⟨m',hm',hmba⟩ := List.mem_map.mp hba
  have hne := (h {} 0 regions).noSwap m hm m' hm'
  rw [(Prod.mk.inj hmab).1, (Prod.mk.inj hmba).2] at hne
  exact hne rfl

end DynamicRoutingAdapter
end Arsonist.Adaptation
