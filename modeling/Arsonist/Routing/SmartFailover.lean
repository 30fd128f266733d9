import Arsonist.Library.History
import Arsonist.Library.Steps
import Arsonist.Regions.RegionRegistry

/-! The failover monitor of `routing/smart_failover.py`. One pass looks at a snapshot of the regions
and changes the registry behind it. -/
namespace Arsonist.Routing
open Arsonist.Library Arsonist.Regions

inductive FailoverTrigger
  | latencySpike
  | regionOutage
  | gpuExhaustion
  | networkPartition
  | deploymentFailure
  | manual
  deriving DecidableEq

structure FailoverEvent where
  sourceRegion : String
  targetRegion : String
  trigger : FailoverTrigger
  workloadsMigrated : ℕ := 0
  deriving DecidableEq

/-- The monitor with its registry. Nothing is ever put into `drainingRegions`. -/
structure SmartFailover where
  registry : RegionRegistry := {}
  events : List FailoverEvent := []
  drainingRegions : List (String × ℚ) := []
  totalFailovers : ℕ := 0

def latencySpikeThresholdMs : ℚ := 1000
def gpuExhaustionThreshold : ℚ := 0.95

def evaluateRegion (region : RegionRecord) : Option FailoverTrigger :=
  if region.status = .offline then some .regionOutage
  else if region.avgLatencyMs.exceeds latencySpikeThresholdMs then some .latencySpike
  else if 0 < region.gpuInventory.totalGpus ∧ region.gpuInventory.availableGpus = 0 then
    some .gpuExhaustion
  else if region.workloadSaturation.exceeds gpuExhaustionThreshold then some .gpuExhaustion
  else none

/-- `(a.failover_priority, a.workload_saturation) < (b.failover_priority, b.workload_saturation)` -/
def SortsBefore (a b : RegionRecord) : Prop :=
  a.failoverPriority < b.failoverPriority ∨
    a.failoverPriority = b.failoverPriority ∧ a.workloadSaturation.lt b.workloadSaturation

instance (a b : RegionRecord) : Decidable (SortsBefore a b) := inferInstanceAs (Decidable (_ ∨ _))

/-- The configured target, if it is an active region. -/
def configuredTarget (reg : RegionRegistry) (failingRegion : RegionRecord) :
    Option RegionRecord :=
  match failingRegion.failoverTarget.filter (· ≠ "") with
  | none => none
  | some id => (reg.get id).filter fun target => target.status = .active

def failoverCandidates (reg : RegionRegistry) (failingRegion : RegionRecord) :
    List RegionRecord :=
  (reg.activeRegions.filter fun r => r.regionId ≠ failingRegion.regionId).filter fun r =>
    r.workloadSaturation.lt (.number 0.85)

def selectFailoverTarget (reg : RegionRegistry) (failingRegion : RegionRecord) :
    Option RegionRecord :=
  match configuredTarget reg failingRegion with
  | some target => some target
  | none =>
    ((failoverCandidates reg failingRegion).insertionSort fun a b => ¬SortsBefore b a).head?

namespace SmartFailover
variable (s : SmartFailover)

def executeFailover (source target : RegionRecord) (trigger : FailoverTrigger) :
    SmartFailover × FailoverEvent :=
  let event := {
    sourceRegion := source.regionId,
    targetRegion := target.regionId,
    trigger := trigger }
  ({ s with
      registry := (s.registry.updateStatus source.regionId .draining).1,
      events := truncated 200 (s.events ++ [event]),
      totalFailovers := s.totalFailovers+1 },
    event)

/-- One region of the snapshot. -/
def checkRegion (region : RegionRecord) : SmartFailover × Option FailoverEvent :=
  match evaluateRegion region with
  | none => (s,none)
  | some trigger =>
    match selectFailoverTarget s.registry region with
    | none => (s,none)
    | some target =>
      let (s',event) := s.executeFailover region target trigger
      (s',some event)

def checkRegions (s : SmartFailover) : List RegionRecord → SmartFailover × List FailoverEvent
  | [] => (s,[])
  | region :: regions =>
    let (s',event) := s.checkRegion region
    let (s'',events) := s'.checkRegions regions
    (s'',event.toList ++ events)

def checkAll : SmartFailover × List FailoverEvent := s.checkRegions s.registry.listRegions

def triggerManualFailover (sourceRegionId targetRegionId : String) :
    SmartFailover × Option FailoverEvent :=
  match s.registry.get sourceRegionId,s.registry.get targetRegionId with
  | some source,some target =>
    let (s',event) := s.executeFailover source target .manual
    (s',some event)
  | _,_ => (s,none)

def recoverRegion (regionId : String) : SmartFailover × Option RegionRecord :=
  let (registry,record) := s.registry.updateStatus regionId .active
  ({ s with
      registry := registry,
      drainingRegions := s.drainingRegions.filter fun d => d.1 ≠ regionId },
    record)

def recentEvents (limit : ℕ := 50) : List FailoverEvent := s.events.reverse.take limit

end SmartFailover

/-- A measured value is over its threshold, whatever the status says. -/
def Overloaded (region : RegionRecord) : Prop :=
  region.avgLatencyMs.exceeds latencySpikeThresholdMs = true ∨
    0 < region.gpuInventory.totalGpus ∧ region.gpuInventory.availableGpus = 0 ∨
    region.workloadSaturation.exceeds gpuExhaustionThreshold = true

def Failing (region : RegionRecord) : Prop := region.status = .offline ∨ Overloaded region

def IsLive (region : RegionRecord) : Prop := region.status = .active ∨ region.status = .degraded

/-- A region has another one configured as its target, or itself. -/
def Configured (failing target : RegionRecord) : Prop :=
  failing.failoverTarget = some target.regionId ∧ target.regionId ≠ "" ∧ target.status = .active

/-- A region that has room left for another one. -/
def Spare (failing target : RegionRecord) : Prop :=
  IsLive target ∧ target.regionId ≠ failing.regionId ∧
    target.workloadSaturation.lt (.number 0.85) = true

/-- Some region can take over from a failing one. -/
def HasTarget (reg : RegionRegistry) (failing : RegionRecord) : Prop :=
  ∃ target, reg.get target.regionId = some target ∧
    (Configured failing target ∨ Spare failing target)

theorem evaluateRegion_eq_none_iff {region : RegionRecord} :
    evaluateRegion region = none ↔ ¬Failing region := by
  rw [evaluateRegion, Failing, Overloaded]
  split_ifs <;> simp_all

section Targets
variable {reg : RegionRegistry} {failing target : RegionRecord}

theorem configuredTarget_eq_some_iff :
    configuredTarget reg failing = some target ↔
      reg.get target.regionId = some target ∧ Configured failing target := by
  rw [configuredTarget, Configured]
  cases hf : failing.failoverTarget.filter (· ≠ "") with
  | none =>
    rw [Option.filter_eq_none_iff] at hf
    refine iff_of_false (by simp) ?_
    rintro ⟨-,htarget,hne,-⟩
    exact hf _ htarget (decide_eq_true hne)
  | some id =>
    obtain ⟨hid,hne⟩ := Option.filter_eq_some_iff.mp hf
    rw [Option.filter_eq_some_iff, decide_eq_true_iff]
    constructor
    · rintro ⟨hget,hactive⟩
      obtain rfl := RegionRegistry.regionId_of_get hget
      exact ⟨hget,hid,of_decide_eq_true hne,hactive⟩
    · rintro ⟨hget,htarget,-,hactive⟩
      rw [hid, Option.some.injEq] at htarget
      exact ⟨htarget ▸ hget,hactive⟩

theorem mem_failoverCandidates :
    target ∈ failoverCandidates reg failing ↔
      reg.get target.regionId = some target ∧ Spare failing target := by
  rw [failoverCandidates, List.mem_filter, List.mem_filter, RegionRegistry.mem_activeRegions, Spare,
    decide_eq_true_iff, and_assoc, and_assoc]
  rfl

/-- The target is the configured one or a candidate. -/
theorem selectFailoverTarget_sound (h : selectFailoverTarget reg failing = some target) :
    reg.get target.regionId = some target ∧ (Configured failing target ∨ Spare failing target) := by
  rw [selectFailoverTarget] at h
  cases hconf : configuredTarget reg failing with
  | some t =>
    rw [hconf, Option.some.injEq] at h
    subst h
    obtain ⟨hget,hc⟩ := configuredTarget_eq_some_iff.mp hconf
    exact ⟨hget,Or.inl hc⟩
  | none =>
    rw [hconf] at h
    have hmem := List.mem_insertionSort _ |>.mp (List.mem_of_head? h)
    obtain ⟨hget,hs⟩ := mem_failoverCandidates.mp hmem
    exact ⟨hget,Or.inr hs⟩

/-- A target is found whenever there is one. -/
theorem selectFailoverTarget_isSome_iff :
    (selectFailoverTarget reg failing).isSome ↔ HasTarget reg failing := by
  constructor
  · intro h
    obtain ⟨t,ht⟩ := Option.isSome_iff_exists.mp h
    exact ⟨t,selectFailoverTarget_sound ht⟩
  · rintro ⟨t,hget,hconf | hspare⟩
    · rw [selectFailoverTarget, configuredTarget_eq_some_iff.mpr ⟨hget,hconf⟩]
      rfl
    · rw [selectFailoverTarget]
      cases configuredTarget reg failing with
      | some _ => rfl
      | none =>
        rw [List.isSome_head?]
        have hmem := mem_failoverCandidates.mpr ⟨hget,hspare⟩
        rw [← List.mem_insertionSort fun a b => ¬SortsBefore b a] at hmem
        exact List.ne_nil_of_mem hmem

end Targets

namespace SmartFailover
variable {s : SmartFailover} {region : RegionRecord}

/-- A turn fails the region over to a target, or changes nothing. -/
theorem checkRegion_cases (s : SmartFailover) (region : RegionRecord) :
    (∃ trigger target, evaluateRegion region = some trigger ∧
      selectFailoverTarget s.registry region = some target ∧
      s.checkRegion region =
        ((s.executeFailover region target trigger).1,
          some (s.executeFailover region target trigger).2)) ∨
    (evaluateRegion region = none ∨ selectFailoverTarget s.registry region = none) ∧
      s.checkRegion region = (s,none) := by
  rw [checkRegion]
  cases htrigger : evaluateRegion region with
  | none => exact Or.inr ⟨Or.inl rfl,rfl⟩
  | some trigger =>
    cases htarget : selectFailoverTarget s.registry region with
    | none => exact Or.inr ⟨Or.inr rfl,rfl⟩
    | some target => exact Or.inl ⟨trigger,target,rfl,rfl,rfl⟩

/-- A region is failed over when it fails and there is a target. -/
theorem checkRegion_isSome_iff :
    (s.checkRegion region).2.isSome ↔
      Failing region ∧ HasTarget s.registry region := by
  have hfails : evaluateRegion region ≠ none ↔ Failing region := by
    rw [Ne, evaluateRegion_eq_none_iff, not_not]
  rw [← hfails, ← selectFailoverTarget_isSome_iff]
  obtain ⟨trigger,target,htrigger,htarget,h⟩ | ⟨hnone,h⟩ := s.checkRegion_cases region
  · rw [h, htrigger, htarget]
    exact iff_of_true rfl ⟨Option.some_ne_none _,rfl⟩
  · rw [h]
    refine iff_of_false (by simp) ?_
    rintro ⟨hfails,htarget⟩
    obtain hnone | hnone := hnone
    · exact hfails hnone
    · rw [hnone] at htarget
      cases htarget

theorem sourceRegion_of_event {event : FailoverEvent} (h : (s.checkRegion region).2 = some event) :
    event.sourceRegion = region.regionId := by
  obtain ⟨trigger,target,-,-,hturn⟩ | ⟨-,hturn⟩ := s.checkRegion_cases region
  · rw [hturn, Option.some.injEq] at h
    rw [← h]
    rfl
  · rw [hturn] at h
    cases h

/-- A region that is failed over is draining, and nothing else changes in the registry. -/
theorem get_checkRegion (id : String) :
    (s.checkRegion region).1.registry.get id =
      if id = region.regionId ∧ (s.checkRegion region).2.isSome then
        (s.registry.get id).map fun r => r.setStatus .draining
      else s.registry.get id := by
  obtain ⟨trigger,target,-,-,h⟩ | ⟨-,h⟩ := s.checkRegion_cases region
  · rw [h]
    change (s.registry.updateStatus region.regionId .draining).1.get id = _
    rw [RegionRegistry.get_updateStatus]
    by_cases hid : id = region.regionId
    · rw [if_pos hid, if_pos ⟨hid,rfl⟩, hid]
    · rw [if_neg hid, if_neg fun hne => hid hne.1]
  · rw [h, if_neg]
    rintro ⟨-,hsome⟩
    cases hsome

/-- The turn of a region. -/
def turn (s : SmartFailover) (region : RegionRecord) : SmartFailover := (s.checkRegion region).1

theorem touchesOwn_turn :
    TouchesOwn turn RegionRecord.regionId fun s : SmartFailover => s.registry.get :=
  fun _ _ id hid => (get_checkRegion id).trans (if_neg fun h => hid h.1)

/-- A pass takes the turns of its regions, and its events are those of the turns. -/
theorem checkRegions_eq (regions : List RegionRecord) :
    s.checkRegions regions =
      (run turn s regions,
        (steps turn s regions).filterMap fun x => (x.1.checkRegion x.2).2) := by
  induction regions generalizing s with
  | nil => rfl
  | cons region regions ih =>
    cases hturn : s.checkRegion region with
    | mk s' event =>
      have hs' : turn s region = s' := congrArg Prod.fst hturn
      rw [run_cons, steps_cons, List.filterMap_cons, hs', checkRegions, hturn]
      dsimp only
      rw [ih]
      cases event with
      | none => rfl
      | some event => rfl

/-- A turn of the pass: the region of the snapshot with the state that its turn finds. -/
def turns (s : SmartFailover) : List (SmartFailover × RegionRecord) :=
  steps turn s s.registry.listRegions

theorem mem_checkAll {event : FailoverEvent} :
    event ∈ s.checkAll.2 ↔ ∃ x ∈ s.turns, (x.1.checkRegion x.2).2 = some event := by
  rw [checkAll, checkRegions_eq, List.mem_filterMap]
  rfl

/-- Each region has its turn. -/
theorem exists_turn (h : s.registry.get region.regionId = some region) :
    ∃ t, (t,region) ∈ s.turns := by
  obtain ⟨p,q,hpq⟩ := List.append_of_mem (RegionRegistry.mem_listRegions.mpr h)
  exact ⟨run turn s p,mem_steps.mpr ⟨p,q,hpq,rfl⟩⟩

/-- A region is as the snapshot says until its turn, and as its turn leaves it from then on. -/
theorem get_of_turn {t : SmartFailover} (h : (t,region) ∈ s.turns) :
    s.registry.get region.regionId = some region ∧
      t.registry.get region.regionId = some region ∧
      s.checkAll.1.registry.get region.regionId =
        some (if (t.checkRegion region).2.isSome then region.setStatus .draining else region) := by
  obtain ⟨p,q,hpq,rfl⟩ := mem_steps.mp h
  have hn := s.registry.listRegions_nodup
  have hget : s.registry.get region.regionId = some region := by
    rw [← RegionRegistry.mem_listRegions, hpq]
    exact List.mem_append_right p List.mem_cons_self
  rw [hpq] at hn
  have hturn := (touchesOwn_turn.view_turn hn (s := s)).trans hget
  refine ⟨hget,hturn,?_⟩
  rw [checkAll, checkRegions_eq, hpq]
  refine (touchesOwn_turn.view_end hn).trans ?_
  rw [turn, get_checkRegion, hturn]
  split_ifs with h h' h'
  · rfl
  · exact absurd h.2 h'
  · exact absurd ⟨rfl,h'⟩ h
  · rfl

/-- A pass fails each region over at most once. -/
theorem sources_nodup : (s.checkAll.2.map FailoverEvent.sourceRegion).Nodup := by
  have hsub : ∀ (regions : List RegionRecord) (s : SmartFailover),
      ((s.checkRegions regions).2.map FailoverEvent.sourceRegion).Sublist
        (regions.map RegionRecord.regionId) := by
    intro regions
    induction regions with
    | nil => exact fun _ => List.Sublist.refl _
    | cons region regions ih =>
      intro s
      rw [checkRegions_eq, steps_cons, List.filterMap_cons, List.map_cons]
      have hrest := ih (turn s region)
      rw [checkRegions_eq] at hrest
      cases hevent : (s.checkRegion region).2 with
      | none => exact hrest.cons _
      | some event =>
        rw [List.map_cons, sourceRegion_of_event hevent]
        exact hrest.cons_cons _
  exact (hsub _ s).nodup s.registry.listRegions_nodup

/-- The events that are kept are the last of all that were produced. -/
theorem events_checkRegions (regions : List RegionRecord) (h : s.events.length ≤ 200) :
    (s.checkRegions regions).1.events = (s.events ++ (s.checkRegions regions).2).rtake 200 := by
  rw [checkRegions_eq]
  induction regions generalizing s with
  | nil => rw [run_nil, steps_nil, List.filterMap_nil, List.append_nil, rtake_eq_self h]
  | cons region regions ih =>
    have hturn : (turn s region).events =
        (s.events ++ (s.checkRegion region).2.toList).rtake 200 := by
      obtain ⟨trigger,target,-,-,hcheck⟩ | ⟨-,hcheck⟩ := s.checkRegion_cases region
      · rw [turn, hcheck]
        exact truncated_eq_rtake (n := 200) (by decide) _
      · rw [turn, hcheck, Option.toList_none, List.append_nil, rtake_eq_self h]
    have hlength : (turn s region).events.length ≤ 200 := by
      rw [hturn, List.rtake, List.length_drop]
      omega
    have hevents : (s.checkRegion region).2.toList ++
        (steps turn (turn s region) regions).filterMap (fun x => (x.1.checkRegion x.2).2) =
          (steps turn s (region :: regions)).filterMap fun x => (x.1.checkRegion x.2).2 := by
      rw [steps_cons, List.filterMap_cons]
      cases (s.checkRegion region).2 <;> rfl
    rw [run_cons, ih hlength, hturn, rtake_rtake_append, List.append_assoc, hevents]

/-- A pass puts its events before those that were known, newest first. -/
theorem recentEvents_checkAll {limit : ℕ} (hlimit : limit ≤ 200) (h : s.events.length ≤ 200) :
    s.checkAll.1.recentEvents limit = (s.checkAll.2.reverse ++ s.events.reverse).take limit := by
  rw [recentEvents, checkAll, events_checkRegions _ h, List.rtake_eq_reverse_take_reverse,
    List.reverse_reverse, List.take_take, min_eq_left hlimit, List.reverse_append]

end SmartFailover
end Arsonist.Routing
