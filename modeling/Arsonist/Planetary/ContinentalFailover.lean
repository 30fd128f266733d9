import Arsonist.Library.Floats
import Arsonist.Library.Grouping
import Arsonist.Library.Keyed
import Arsonist.Library.Text
import Mathlib.Data.String.Basic

/-! The failover of `planetary/continental_failover.py`: a pass looks for continents that fail, and
sends the work of each to regions of the others. -/
namespace Arsonist.Planetary
open Arsonist.Library

inductive FailoverScope | region | zone | continent | globalCascade
  deriving DecidableEq

inductive FailoverStatus | detected | isolating | rerouting | recovered | failed
  deriving DecidableEq

inductive FailoverTrigger
  | outage
  | latencySpike
  | capacityExhaustion
  | thermalCritical
  | networkPartition
  | disaster
  deriving DecidableEq

/-- An entry of `telemetry["regions"]`: each of its fields may be missing. -/
structure TelemetryRegion where
  regionId : Option String := none
  continent : Option String := none
  status : Option String := none
  avgLatencyMs : Option PyFloat := none
  gpuTempC : Option PyFloat := none
  thermalPressure : Option PyFloat := none

namespace TelemetryRegion
variable (r : TelemetryRegion)

def id : String := r.regionId.getD ""

/-- The label under which the region is looked at. -/
def label : String := r.continent.getD "unknown"

/-- The label under which the region takes over. -/
def targetLabel : String := r.continent.getD "other"

def offline : Bool := r.status = some "offline"

def highLatency : Bool := (r.avgLatencyMs.getD (.number 0)).exceeds 500

def thermalCritical : Bool :=
  (r.gpuTempC.getD (.number 0)).exceeds 90 ||
    (r.thermalPressure.getD (.number 0)).exceeds (9/10)

/-- The region can take over from a continent. A missing label is an empty one here. -/
def takesOver (affectedContinent : String) : Bool :=
  r.continent.getD "" ≠ affectedContinent && r.status.getD "active" ≠ "offline"

end TelemetryRegion

/-- The times it took are left out. -/
structure ContinentalFailoverEvent where
  eventId : String
  scope : FailoverScope := .continent
  trigger : FailoverTrigger := .outage
  status : FailoverStatus := .detected
  affectedContinent : String := ""
  affectedRegions : List String := []
  targetContinents : List String := []
  targetRegions : List String := []
  workloadsRerouted : ℕ := 0
  detectedAt : ℚ := 0
  isolatedAt : ℚ := 0
  recoveredAt : ℚ := 0
  description : String := ""

instance : Keyed ContinentalFailoverEvent String := ⟨ContinentalFailoverEvent.eventId⟩

@[simp] theorem ContinentalFailoverEvent.key_eq (e : ContinentalFailoverEvent) :
    Keyed.key e = e.eventId := rfl

/-- The first criterion that the regions of a continent meet, and the regions that meet it. -/
def failure (regions : List TelemetryRegion) : Option (FailoverTrigger × List TelemetryRegion) :=
  let offline := regions.filter TelemetryRegion.offline
  let highLatency := regions.filter TelemetryRegion.highLatency
  let thermalCritical := regions.filter TelemetryRegion.thermalCritical
  if (offline.length : ℚ) > regions.length*(1/2) ∧ 2 ≤ offline.length then
    some (.outage,offline)
  else if (highLatency.length : ℚ) > regions.length*(6/10) ∧ 2 ≤ highLatency.length then
    some (.latencySpike,highLatency)
  else if (thermalCritical.length : ℚ) > regions.length*(1/2) then
    some (.thermalCritical,thermalCritical)
  else none

/-- The word for a criterion in the ids of events. -/
def kind : FailoverTrigger → String
  | .latencySpike => "latency"
  | .thermalCritical => "thermal"
  | _ => "continent"

def description (trigger : FailoverTrigger) (continent : String) (affected total : ℕ) : String :=
  match trigger with
  | .latencySpike => "Continental latency spike: " ++ affected.repr ++
    " regions above 500ms in " ++ continent
  | .thermalCritical => "Continental thermal crisis: " ++ affected.repr ++
    " regions critical in " ++ continent
  | _ => "Continental outage: " ++ affected.repr ++ "/" ++ total.repr ++
    " regions offline in " ++ continent

def eventId (trigger : FailoverTrigger) (continent : String) (ts : ℚ) : String :=
  "fo-" ++ kind trigger ++ "-" ++ continent ++ "-" ++ (Text.truncate ts).repr

/-- What is detected about one continent. -/
def detectContinent (ts : ℚ) (continent : String) (regions : List TelemetryRegion) :
    Option ContinentalFailoverEvent :=
  (failure regions).map fun (trigger,affected) =>
    { eventId := eventId trigger continent ts
      trigger := trigger
      affectedContinent := continent
      affectedRegions := affected.map TelemetryRegion.id
      detectedAt := ts
      description := description trigger continent affected.length regions.length }

def detected (ts : ℚ) (regions : List TelemetryRegion) : List ContinentalFailoverEvent :=
  (keysOf TelemetryRegion.label regions).filterMap fun continent =>
    detectContinent ts continent (groupOf TelemetryRegion.label regions continent)

/-- An event once its work has been sent away. -/
def executed (now : ℚ) (regions : List TelemetryRegion) (event : ContinentalFailoverEvent) :
    ContinentalFailoverEvent :=
  let healthy := regions.filter fun r => r.takesOver event.affectedContinent
  { event with
    status := .recovered
    isolatedAt := now
    recoveredAt := now
    targetContinents := (keysOf TelemetryRegion.targetLabel healthy).insertionSort (· ≤ ·)
    targetRegions :=
      ((inGroups TelemetryRegion.targetLabel healthy).map TelemetryRegion.id).take 10
    workloadsRerouted := event.affectedRegions.length*5 }

/-- The manager, without the histories that it shows. -/
structure ContinentalFailoverManager where
  active : Table ContinentalFailoverEvent := .empty
  totalFailovers : ℕ := 0
  totalRerouted : ℕ := 0

namespace ContinentalFailoverManager
variable (s : ContinentalFailoverManager)

def detectFailures (ts : ℚ) (regions : List TelemetryRegion) :
    ContinentalFailoverManager × List ContinentalFailoverEvent :=
  let results := detected ts regions
  ({ s with active := results.foldl Table.put s.active },results)

def executeFailover (now : ℚ) (eventId : String) (regions : List TelemetryRegion) :
    ContinentalFailoverManager × Option ContinentalFailoverEvent :=
  match s.active.get? eventId with
  | none => (s,none)
  | some event =>
    let event := executed now regions event
    ({ active := s.active.erase eventId
       totalFailovers := s.totalFailovers+1
       totalRerouted := s.totalRerouted+event.workloadsRerouted },some event)

/-- The turn of one event in a pass. -/
def turn (now : ℚ) (regions : List TelemetryRegion)
    (r : ContinentalFailoverManager × List ContinentalFailoverEvent)
    (e : ContinentalFailoverEvent) :
    ContinentalFailoverManager × List ContinentalFailoverEvent :=
  let result := r.1.executeFailover now e.eventId regions
  (result.1,r.2 ++ result.2.toList)

def failover (ts now : ℚ) (regions : List TelemetryRegion) :
    ContinentalFailoverManager × List ContinentalFailoverEvent :=
  let (s,events) := s.detectFailures ts regions
  events.foldl (turn now regions) (s,[])

end ContinentalFailoverManager

theorem mem_detected {ts : ℚ} {regions : List TelemetryRegion} {e : ContinentalFailoverEvent} :
    e ∈ detected ts regions ↔ ∃ continent,
      detectContinent ts continent (groupOf TelemetryRegion.label regions continent) = some e := by
  rw [detected, List.mem_filterMap]
  constructor
  · rintro ⟨continent,-,he⟩
    exact ⟨continent,he⟩
  · rintro ⟨continent,he⟩
    refine ⟨continent,?_,he⟩
    by_contra hmem
    have hnil : groupOf TelemetryRegion.label regions continent = [] := by
      rw [groupOf, List.filter_eq_nil_iff]
      intro r hr hlabel
      exact hmem (mem_keysOf.mpr ⟨r,hr,of_decide_eq_true hlabel⟩)
    rw [hnil] at he
    simp [detectContinent, failure] at he

/-- The ids of two events of a pass tell their continents apart. -/
theorem continent_of_eventId {trigger trigger' : FailoverTrigger} {c c' : String} {ts : ℚ}
    (h : eventId trigger c ts = eventId trigger' c' ts) : c = c' := by
  have hlist := congrArg String.toList h
  have hkind : kind trigger = kind trigger' := by
    cases trigger <;> cases trigger' <;> first | rfl | (simp [eventId, kind] at hlist)
  simp only [eventId, hkind, String.toList_append, List.append_assoc, List.append_cancel_left_eq,
    List.append_cancel_right_eq] at hlist
  exact String.toList_injective hlist

theorem detectContinent_eq_some {ts : ℚ} {continent : String} {regions : List TelemetryRegion}
    {e : ContinentalFailoverEvent} (h : detectContinent ts continent regions = some e) :
    ∃ trigger affected, failure regions = some (trigger,affected) ∧
      e.eventId = eventId trigger continent ts ∧ e.affectedContinent = continent ∧
      e.affectedRegions = affected.map TelemetryRegion.id := by
  obtain ⟨⟨trigger,affected⟩,hfailure,rfl⟩ := Option.map_eq_some_iff.mp h
  exact ⟨trigger,affected,hfailure,rfl,rfl,rfl⟩

theorem detected_nodup (ts : ℚ) (regions : List TelemetryRegion) :
    ((detected ts regions).map ContinentalFailoverEvent.eventId).Nodup := by
  rw [detected, List.map_filterMap]
  refine List.Nodup.filterMap ?_ (nodup_keysOf _ _)
  intro c c' id hc hc'
  obtain ⟨e,he,rfl⟩ := Option.map_eq_some_iff.mp hc
  obtain ⟨e',he',hid⟩ := Option.map_eq_some_iff.mp hc'
  obtain ⟨trigger,-,-,hid₁,-,-⟩ := detectContinent_eq_some he
  obtain ⟨trigger',-,-,hid₂,-,-⟩ := detectContinent_eq_some he'
  exact continent_of_eventId (hid₁.symm.trans (hid.symm.trans hid₂))

namespace ContinentalFailoverManager

/-- Each event of a pass is still active when its turn comes. -/
theorem foldl_turn (now : ℚ) (regions : List TelemetryRegion)
    {events : List ContinentalFailoverEvent}
    (hn : (events.map ContinentalFailoverEvent.eventId).Nodup)
    (s : ContinentalFailoverManager) (results : List ContinentalFailoverEvent)
    (h : ∀ e ∈ events, s.active.get? e.eventId = some e) :
    (events.foldl (turn now regions) (s,results)).2 =
      results ++ events.map (executed now regions) := by
  induction events generalizing s results with
  | nil => simp
  | cons e events ih =>
    obtain ⟨hid,hrest⟩ := List.nodup_cons.mp hn
    have hturn : turn now regions (s,results) e =
        ((s.executeFailover now e.eventId regions).1,results ++ [executed now regions e]) := by
      rw [turn, executeFailover, h e List.mem_cons_self]
      rfl
    have hactive : (s.executeFailover now e.eventId regions).1.active =
        s.active.erase e.eventId := by
      rw [executeFailover, h e List.mem_cons_self]
    rw [List.foldl_cons, hturn, ih hrest, List.append_assoc]
    · rfl
    · intro e' he'
      have hne : e'.eventId ≠ e.eventId := fun heq => hid (heq ▸ List.mem_map_of_mem he')
      rw [hactive, Table.get?_erase, if_neg hne]
      exact h e' (List.mem_cons_of_mem _ he')

/-- A pass returns the events that it detects, executed. -/
theorem failover_snd (s : ContinentalFailoverManager) (ts now : ℚ)
    (regions : List TelemetryRegion) :
    (s.failover ts now regions).2 = (detected ts regions).map (executed now regions) := by
  rw [failover, detectFailures]
  dsimp only
  rw [foldl_turn now regions (detected_nodup ts regions), List.nil_append]
  intro e he
  have hn : ((detected ts regions).map Keyed.key).Nodup := detected_nodup ts regions
  have hfind : (detected ts regions).find? (fun a => Keyed.key a = e.eventId) = some e :=
    Table.get?_of_mem (t := ⟨detected ts regions,hn⟩) he
  rw [Table.get?_foldl_put _ hn, hfind]
  rfl

end ContinentalFailoverManager
end Arsonist.Planetary

/-! Where a continental failover sends the work: to the first ten regions of other continents that
are not offline, whether there are any and whether they fail themselves. -/
namespace Arsonist.Planetary
open Arsonist.Library

variable {ts now : ℚ} {regions : List TelemetryRegion}

def OfflineId (regions : List TelemetryRegion) (id : String) : Prop :=
  ∃ r ∈ regions, r.id = id ∧ r.offline = true

/-- The event's work has somewhere to go, and nothing there is offline or affected by an event of
the same pass. -/
structure SoundEvent (regions : List TelemetryRegion) (pass : List ContinentalFailoverEvent)
    (e : ContinentalFailoverEvent) : Prop where
  nonempty : e.targetRegions ≠ []
  online : ∀ id ∈ e.targetRegions, ¬OfflineId regions id
  unaffected : ∀ id ∈ e.targetRegions, ∀ d ∈ pass, id ∉ d.affectedRegions

/-- The regions of a continent, as they are looked at. -/
abbrev continentOf (regions : List TelemetryRegion) (continent : String) : List TelemetryRegion :=
  groupOf TelemetryRegion.label regions continent

/-- The id is that of a region which is offline, or which makes its continent fail. -/
def Impaired (regions : List TelemetryRegion) (id : String) : Prop :=
  OfflineId regions id ∨ ∃ continent trigger affected,
    failure (continentOf regions continent) = some (trigger,affected) ∧ ∃ r ∈ affected, r.id = id

/-- How many regions take over before one that stands between two parts of the telemetry: those
whose label comes before its own, and those before it with the same one. -/
def takersAhead (continent : String) (p : List TelemetryRegion) (r : TelemetryRegion)
    (q : List TelemetryRegion) : ℕ :=
  ahead TelemetryRegion.targetLabel (p.filter fun r => r.takesOver continent) r
    (q.filter fun r => r.takesOver continent)

/-- For each continent that fails, some region takes over, and one that is impaired has ten before
it. -/
def Covered (regions : List TelemetryRegion) : Prop :=
  ∀ continent, (failure (continentOf regions continent)).isSome = true →
    (∃ r ∈ regions, r.takesOver continent = true) ∧
    ∀ p r q, regions = p ++ r :: q → r.takesOver continent = true → Impaired regions r.id →
      10 ≤ takersAhead continent p r q

theorem mem_affected_iff {id : String} :
    (∃ d ∈ detected ts regions, id ∈ d.affectedRegions) ↔
      ∃ continent trigger affected,
        failure (continentOf regions continent) = some (trigger,affected) ∧
        ∃ r ∈ affected, r.id = id := by
  constructor
  · rintro ⟨d,hd,hid⟩
    obtain ⟨continent,hd⟩ := mem_detected.mp hd
    obtain ⟨trigger,affected,hfailure,-,-,haffected⟩ := detectContinent_eq_some hd
    rw [haffected, List.mem_map] at hid
    exact ⟨continent,trigger,affected,hfailure,hid⟩
  · rintro ⟨continent,trigger,affected,hfailure,hid⟩
    refine ⟨_,mem_detected.mpr ⟨continent,by rw [detectContinent, hfailure]; rfl⟩,?_⟩
    exact List.mem_map.mpr hid

/-- An event is sound if it has a target and no target is impaired. -/
theorem soundEvent_iff {e : ContinentalFailoverEvent} :
    SoundEvent regions (detected ts regions) e ↔
      e.targetRegions ≠ [] ∧ ∀ id ∈ e.targetRegions, ¬Impaired regions id := by
  constructor
  · intro h
    refine ⟨h.nonempty,?_⟩
    rintro id hid (hoffline | haffected)
    · exact h.online id hid hoffline
    · obtain ⟨d,hd,hmem⟩ : ∃ d ∈ detected ts regions, id ∈ d.affectedRegions :=
        mem_affected_iff.mpr haffected
      exact h.unaffected id hid d hd hmem
  · rintro ⟨hne,h⟩
    exact ⟨hne,fun id hid hoffline => h id hid (Or.inl hoffline),
      fun id hid d hd hmem => h id hid (Or.inr (mem_affected_iff.mp ⟨d,hd,hmem⟩))⟩

/-- The regions that take over from an event's continent, in the order of their labels. -/
def takers (continent : String) (regions : List TelemetryRegion) : List TelemetryRegion :=
  inGroups TelemetryRegion.targetLabel (regions.filter fun r => r.takesOver continent)

theorem targetRegions_executed (e : ContinentalFailoverEvent) :
    (executed now regions e).targetRegions =
      ((takers e.affectedContinent regions).take 10).map TelemetryRegion.id :=
  List.map_take.symm

/-- A region is among the first ten that take over if fewer than ten are ahead of it. -/
theorem mem_take_takers {continent : String} {r : TelemetryRegion} :
    r ∈ (takers continent regions).take 10 ↔
      ∃ p q, regions = p ++ r :: q ∧ r.takesOver continent = true ∧
        takersAhead continent p r q < 10 := by
  rw [takers, mem_take_inGroups]
  constructor
  · rintro ⟨p,q,hsplit,hlt⟩
    obtain ⟨p',rest,rfl,rfl,hrest⟩ := List.filter_eq_append_iff.mp hsplit
    obtain ⟨skip,q',rfl,hskip,htakes,rfl⟩ := List.filter_eq_cons_iff.mp hrest
    refine ⟨p' ++ skip,q',(List.append_assoc _ _ _).symm,htakes,?_⟩
    rwa [takersAhead, List.filter_append, List.filter_eq_nil_iff.mpr hskip, List.append_nil]
  · rintro ⟨p,q,rfl,htakes,hlt⟩
    refine ⟨p.filter fun r => r.takesOver continent,q.filter fun r => r.takesOver continent,
      ?_,hlt⟩
    rw [List.filter_append, List.filter_cons, if_pos htakes]

theorem takers_ne_nil_iff {continent : String} :
    takers continent regions ≠ [] ↔ ∃ r ∈ regions, r.takesOver continent = true := by
  constructor
  · intro hne
    obtain ⟨r,hr⟩ := List.exists_mem_of_ne_nil _ hne
    obtain ⟨hmem,htakes⟩ := List.mem_filter.mp (mem_inGroups.mp hr)
    exact ⟨r,hmem,htakes⟩
  · rintro ⟨r,hmem,htakes⟩
    exact List.ne_nil_of_mem (mem_inGroups.mpr (List.mem_filter.mpr ⟨hmem,htakes⟩))

/-- What the targets of an event ask of the telemetry. -/
theorem soundEvent_executed_iff (e : ContinentalFailoverEvent) :
    SoundEvent regions (detected ts regions) (executed now regions e) ↔
      (∃ r ∈ regions, r.takesOver e.affectedContinent = true) ∧
      ∀ p r q, regions = p ++ r :: q → r.takesOver e.affectedContinent = true →
        Impaired regions r.id → 10 ≤ takersAhead e.affectedContinent p r q := by
  rw [soundEvent_iff, targetRegions_executed, ← takers_ne_nil_iff]
  refine and_congr ?_ ?_
  · rw [ne_eq, List.map_eq_nil_iff, List.take_eq_nil_iff]
    simp
  · constructor
    · intro h p r q hsplit htakes himpaired
      by_contra hlt
      have hmem := mem_take_takers.mpr ⟨p,q,hsplit,htakes,not_le.mp hlt⟩
      exact h r.id (List.mem_map_of_mem hmem) himpaired
    · intro h id hid himpaired
      obtain ⟨r,hr,rfl⟩ := List.mem_map.mp hid
      obtain ⟨p,q,hsplit,htakes,hlt⟩ := mem_take_takers.mp hr
      exact hlt.not_ge (h p r q hsplit htakes himpaired)

/-- Every event that a pass reports as recovered is sound exactly when each failing continent is
covered. -/
theorem soundPass_iff (s : ContinentalFailoverManager) (ts now : ℚ)
    (regions : List TelemetryRegion) :
    (∀ e ∈ (s.failover ts now regions).2, e.status = .recovered →
      SoundEvent regions (s.detectFailures ts regions).2 e) ↔ Covered regions := by
  rw [ContinentalFailoverManager.failover_snd]
  constructor
  · intro h continent hfails
    obtain ⟨⟨trigger,affected⟩,hfailure⟩ := Option.isSome_iff_exists.mp hfails
    have hd : detectContinent ts continent (continentOf regions continent) ≠ none := by
      rw [detectContinent, hfailure]
      exact Option.some_ne_none _
    obtain ⟨d,hd⟩ := Option.ne_none_iff_exists'.mp hd
    obtain ⟨-,-,-,-,hcontinent,-⟩ := detectContinent_eq_some hd
    have hsound := h (executed now regions d)
      (List.mem_map_of_mem (mem_detected.mpr ⟨continent,hd⟩)) rfl
    rw [← hcontinent]
    exact (soundEvent_executed_iff d).mp hsound
  · intro h e he _
    obtain ⟨d,hd,rfl⟩ := List.mem_map.mp he
    obtain ⟨continent,hd⟩ := mem_detected.mp hd
    obtain ⟨trigger,affected,hfailure,-,hcontinent,-⟩ := detectContinent_eq_some hd
    have hcovered := h continent (Option.isSome_iff_exists.mpr ⟨_,hfailure⟩)
    rw [← hcontinent] at hcovered
    exact (soundEvent_executed_iff d).mpr hcovered

/-- With one continent only, its event is reported as recovered without a target. -/
theorem not_soundPass : ¬∀ (s : ContinentalFailoverManager) (ts now : ℚ)
    (regions : List TelemetryRegion), ∀ e ∈ (s.failover ts now regions).2,
      e.status = .recovered → SoundEvent regions (s.detectFailures ts regions).2 e := by
  intro h
  have hany : (((({} : ContinentalFailoverManager).failover 0 0
      [{ regionId := some "eu-1", continent := some "EU", status := some "offline" },
        { regionId := some "eu-2", continent := some "EU", status := some "offline" }]).2).any
      fun e => e.status = .recovered && e.targetRegions.isEmpty) = true := by decide +kernel
  obtain ⟨e,he,hstate⟩ := List.any_eq_true.mp hany
  rw [Bool.and_eq_true, decide_eq_true_iff, List.isEmpty_iff] at hstate
  exact (h {} 0 0 _ e he hstate.1).nonempty hstate.2

end Arsonist.Planetary
