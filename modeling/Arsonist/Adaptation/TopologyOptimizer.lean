import Arsonist.Library.History
import Arsonist.Library.Runs
import Arsonist.Library.SparseMatrix
import Arsonist.Library.Text
import Arsonist.Shared.Rounding

/-! The proposals of `adaptation/topology_optimizer.py`. The latencies of all telemetries so far
stand in one matrix; a relay is proposed where the way over a third region is shorter than the
direct one. -/
namespace Arsonist.Adaptation
open Arsonist.Library Arsonist.Shared

/-- An entry of `telemetry["regions"]`. -/
structure TopologyRegion where
  regionId : Option String := none
  workloadSaturation : Option ℚ := none

structure TopologyTelemetry where
  latencyMap : Option (SparseMatrix String ℚ) := none
  regions : Option (List TopologyRegion) := none

/-- A proposal. The region `via` which a relay leads over is not a field of the program's; it
stands in the id and in the description. -/
structure TopologyAction where
  actionId : String
  actionType : String := ""
  sourceRegion : String := ""
  targetRegion : String := ""
  currentLatencyMs : ℚ := 0
  expectedLatencyMs : ℚ := 0
  improvementPct : ℚ := 0
  description : String := ""
  executed : Bool := false
  createdAt : ℚ := 0
  via : Option String := none

structure TopologyOptimizer where
  thresholdPct : ℚ := 10
  maxHistory : ℤ := 500
  latencyMatrix : SparseMatrix String ℚ := .empty
  actions : List TopologyAction := []

namespace TopologyOptimizer
variable (s : TopologyOptimizer)

def updateLatencyMatrix (telemetry : TopologyTelemetry) : TopologyOptimizer :=
  { s with latencyMatrix := s.latencyMatrix.merge (telemetry.latencyMap.getD .empty) }

def improvement (direct hop : ℚ) : ℚ := (direct-hop)/direct*100

def relayAction (ts : ℚ) (src tgt mid : String) (direct hop : ℚ) : TopologyAction :=
  { actionId := "topo-" ++ src ++ "-" ++ tgt ++ "-via-" ++ mid ++ "-" ++ (Text.truncate ts).repr
    actionType := "add_relay"
    sourceRegion := src
    targetRegion := tgt
    currentLatencyMs := roundTo 1 direct
    expectedLatencyMs := roundTo 1 hop
    improvementPct := roundTo 1 (improvement direct hop)
    description := "Route " ++ src ++ "->" ++ tgt ++ " via " ++ mid ++ " (" ++ formatWhole direct ++
      "ms -> " ++ formatWhole hop ++ "ms)"
    createdAt := ts
    via := some mid }

/-- The way over the region that `leg` leads to. A second leg that was not measured counts with
9999. -/
def relay? (ts : ℚ) (src tgt : String) (direct : ℚ) (leg : MatrixEntry String ℚ) :
    Option TopologyAction :=
  let mid := leg.column
  if mid = tgt ∨ mid = src then none
  else
    let hop := leg.value+(s.latencyMatrix.at? mid tgt).getD 9999
    if hop < direct ∧ s.thresholdPct ≤ improvement direct hop then
      some (relayAction ts src tgt mid direct hop)
    else none

/-- The relays for one pair of regions. -/
def relaysFor (ts : ℚ) (src : String) (direct : MatrixEntry String ℚ) : List TopologyAction :=
  if direct.value ≤ 0 then []
  else (s.latencyMatrix.rowAt src).entries.filterMap (s.relay? ts src direct.column direct.value)

def relays (ts : ℚ) : List TopologyAction :=
  s.latencyMatrix.entries.flatMap fun targets =>
    targets.entries.entries.flatMap (s.relaysFor ts targets.row)

def priorityLink? (ts : ℚ) (saturated underutilized : TopologyRegion) : Option TopologyAction :=
  let src := saturated.regionId.getD ""
  let tgt := underutilized.regionId.getD ""
  let latency := (s.latencyMatrix.at? src tgt).getD 0
  if 0 < latency ∧ latency < 200 then
    some
      { actionId := "topo-link-" ++ src ++ "-" ++ tgt ++ "-" ++ (Text.truncate ts).repr
        actionType := "priority_link"
        sourceRegion := src
        targetRegion := tgt
        currentLatencyMs := roundTo 1 latency
        description := "Prioritize link " ++ src ++ "->" ++ tgt ++ " for load redistribution"
        createdAt := ts }
  else none

def priorityLinks (ts : ℚ) (regions : List TopologyRegion) : List TopologyAction :=
  let saturated := regions.filter fun r => 9/10 < r.workloadSaturation.getD 0
  let underutilized := regions.filter fun r => r.workloadSaturation.getD 0 < 3/10
  saturated.flatMap fun r => underutilized.filterMap (s.priorityLink? ts r)

def analyze (ts : ℚ) (telemetry : TopologyTelemetry) : TopologyOptimizer × List TopologyAction :=
  let s := s.updateLatencyMatrix telemetry
  let actions := s.relays ts ++ s.priorityLinks ts (telemetry.regions.getD [])
  ({ s with actions := truncated s.maxHistory (s.actions ++ actions) },actions)

end TopologyOptimizer

/-- A call that takes in a telemetry; one of the two makes proposals too. -/
inductive TopologyCall
  | updateLatencyMatrix (telemetry : TopologyTelemetry)
  | analyze (ts : ℚ) (telemetry : TopologyTelemetry)

def TopologyCall.telemetry : TopologyCall → TopologyTelemetry
  | .updateLatencyMatrix telemetry => telemetry
  | .analyze _ telemetry => telemetry

namespace TopologyOptimizer

def exec (s : TopologyOptimizer) : TopologyCall → TopologyOptimizer
  | .updateLatencyMatrix telemetry => s.updateLatencyMatrix telemetry
  | .analyze ts telemetry => (s.analyze ts telemetry).1

/-- An optimizer that has taken in nothing yet. -/
def start (thresholdPct : ℚ) (maxHistory : ℤ) : TopologyOptimizer := { thresholdPct, maxHistory }

end TopologyOptimizer
end Arsonist.Adaptation

/-! Whether the relays that are proposed are shortcuts, and all the shortcuts that were measured. A
second leg that was not measured can pass for one. -/
namespace Arsonist.Adaptation
open Arsonist.Library Arsonist.Shared

def TopologyTelemetry.measured (telemetry : TopologyTelemetry) (src tgt : String) : Option ℚ :=
  (telemetry.latencyMap.getD .empty).at? src tgt

/-- The latency that was measured last. -/
def latest (telemetries : List TopologyTelemetry) (src tgt : String) : Option ℚ :=
  (telemetries.filterMap fun telemetry => telemetry.measured src tgt).getLast?

section Shortcuts
variable (thresholdPct : ℚ) (latency : String → String → Option ℚ)

/-- A way over a third region, to which the first leg was measured. -/
structure Detour (src tgt mid : String) (direct first : ℚ) : Prop where
  ne_src : mid ≠ src
  ne_tgt : mid ≠ tgt
  direct_eq : latency src tgt = some direct
  first_eq : latency src mid = some first

/-- The way of latency `hop` is shorter than the direct one, by the threshold. -/
structure Improves (direct hop : ℚ) : Prop where
  pos : 0 < direct
  shorter : hop < direct
  improvement : thresholdPct ≤ (direct-hop)/direct*100

/-- Both legs were measured, and their sum is shorter. -/
structure Shortcut (src tgt mid : String) (direct first second : ℚ) : Prop
    extends Detour latency src tgt mid direct first where
  second_eq : latency mid tgt = some second
  improves : Improves thresholdPct direct (first+second)

/-- The second leg was not measured, and the sum is shorter with 9999 in its place. -/
structure StandsIn (src tgt mid : String) (direct first : ℚ) : Prop
    extends Detour latency src tgt mid direct first where
  second_eq : latency mid tgt = none
  improves : Improves thresholdPct direct (first+9999)

/-- The relays among the actions are the shortcuts, each with its latency as it is reported. -/
structure RealShortcuts (report : ℚ → ℚ) (actions : List TopologyAction) : Prop where
  sound : ∀ a ∈ actions, a.actionType = "add_relay" → ∃ mid direct first second,
    a.via = some mid ∧
      Shortcut thresholdPct latency a.sourceRegion a.targetRegion mid direct first second ∧
      a.expectedLatencyMs = report (first+second)
  complete : ∀ src tgt mid direct first second,
    Shortcut thresholdPct latency src tgt mid direct first second → ∃ a ∈ actions,
      a.actionType = "add_relay" ∧ a.sourceRegion = src ∧ a.targetRegion = tgt ∧ a.via = some mid

/-- Among latencies from 0 to 9999 nothing that was not measured passes for a shortcut. -/
theorem not_standsIn_of_le {thresholdPct : ℚ} {latency : String → String → Option ℚ}
    (h : ∀ src tgt l, latency src tgt = some l → 0 ≤ l ∧ l ≤ 9999) (src tgt mid : String)
    (direct first : ℚ) : ¬ StandsIn thresholdPct latency src tgt mid direct first := by
  intro hstands
  have hdirect := (h src tgt direct hstands.direct_eq).2
  have hfirst := (h src mid first hstands.first_eq).1
  have hshorter := hstands.improves.shorter
  linarith

end Shortcuts

namespace TopologyOptimizer
variable {s : TopologyOptimizer} {a : TopologyAction} {ts : ℚ}

/-- The second leg as the optimizer counts it. -/
def secondLeg (s : TopologyOptimizer) (mid tgt : String) : ℚ :=
  (s.latencyMatrix.at? mid tgt).getD 9999

theorem relay?_eq_some_iff {src tgt mid : String} {direct first : ℚ} :
    s.relay? ts src tgt direct ⟨mid,first⟩ = some a ↔ mid ≠ src ∧ mid ≠ tgt ∧
      first+s.secondLeg mid tgt < direct ∧
      s.thresholdPct ≤ improvement direct (first+s.secondLeg mid tgt) ∧
      relayAction ts src tgt mid direct (first+s.secondLeg mid tgt) = a := by
  rw [relay?]
  dsimp only
  split_ifs with hmid himproves
  · refine iff_of_false not_false ?_
    rintro ⟨hsrc,htgt,-⟩
    exact hmid.elim htgt hsrc
  · obtain ⟨htgt,hsrc⟩ := not_or.mp hmid
    rw [Option.some.injEq]
    exact ⟨fun h => ⟨hsrc,htgt,himproves.1,himproves.2,h⟩,fun h => h.2.2.2.2⟩
  · refine iff_of_false not_false ?_
    rintro ⟨-,-,hshorter,himprovement,-⟩
    exact himproves ⟨hshorter,himprovement⟩

theorem mem_relaysFor_iff {src tgt : String} {direct : ℚ} :
    a ∈ s.relaysFor ts src ⟨tgt,direct⟩ ↔ ∃ mid first, mid ≠ src ∧ mid ≠ tgt ∧
      s.latencyMatrix.at? src mid = some first ∧
      Improves s.thresholdPct direct (first+s.secondLeg mid tgt) ∧
      relayAction ts src tgt mid direct (first+s.secondLeg mid tgt) = a := by
  rw [relaysFor]
  dsimp only
  by_cases hpos : direct ≤ 0
  · rw [if_pos hpos]
    refine iff_of_false List.not_mem_nil ?_
    rintro ⟨mid,first,-,-,-,himproves,-⟩
    exact himproves.pos.not_ge hpos
  · rw [if_neg hpos, List.mem_filterMap]
    constructor
    · rintro ⟨⟨mid,first⟩,hleg,ha⟩
      obtain ⟨hsrc,htgt,hshorter,himprovement,ha⟩ := relay?_eq_some_iff.mp ha
      exact ⟨mid,first,hsrc,htgt,SparseMatrix.mem_rowAt_iff.mp hleg,
        ⟨not_le.mp hpos,hshorter,himprovement⟩,ha⟩
    · rintro ⟨mid,first,hsrc,htgt,hfirst,himproves,ha⟩
      exact ⟨⟨mid,first⟩,SparseMatrix.mem_rowAt_iff.mpr hfirst,relay?_eq_some_iff.mpr
        ⟨hsrc,htgt,himproves.shorter,himproves.improvement,ha⟩⟩

theorem mem_relays_iff_detour : a ∈ s.relays ts ↔ ∃ src tgt mid direct first,
    Detour s.latencyMatrix.at? src tgt mid direct first ∧
      Improves s.thresholdPct direct (first+s.secondLeg mid tgt) ∧
      relayAction ts src tgt mid direct (first+s.secondLeg mid tgt) = a := by
  rw [relays, List.mem_flatMap]
  constructor
  · rintro ⟨targets,htargets,ha⟩
    obtain ⟨⟨tgt,direct⟩,hentry,ha⟩ := List.mem_flatMap.mp ha
    obtain ⟨mid,first,hsrc,htgt,hfirst,himproves,ha⟩ := mem_relaysFor_iff.mp ha
    have hdirect := SparseMatrix.at?_eq_some_iff.mpr ⟨targets,htargets,rfl,hentry⟩
    exact ⟨targets.row,tgt,mid,direct,first,⟨hsrc,htgt,hdirect,hfirst⟩,himproves,ha⟩
  · rintro ⟨src,tgt,mid,direct,first,hdetour,himproves,ha⟩
    obtain ⟨targets,htargets,rfl,hentry⟩ := SparseMatrix.at?_eq_some_iff.mp hdetour.direct_eq
    exact ⟨targets,htargets,List.mem_flatMap.mpr ⟨⟨tgt,direct⟩,hentry,mem_relaysFor_iff.mpr
      ⟨mid,first,hdetour.ne_src,hdetour.ne_tgt,hdetour.first_eq,himproves,ha⟩⟩⟩

/-- The relays are the shortcuts, and what stands in for one. -/
theorem mem_relays_iff : a ∈ s.relays ts ↔
    (∃ src tgt mid direct first second,
      Shortcut s.thresholdPct s.latencyMatrix.at? src tgt mid direct first second ∧
        relayAction ts src tgt mid direct (first+second) = a) ∨
    ∃ src tgt mid direct first,
      StandsIn s.thresholdPct s.latencyMatrix.at? src tgt mid direct first ∧
        relayAction ts src tgt mid direct (first+9999) = a := by
  have hsome : ∀ {mid tgt second}, s.latencyMatrix.at? mid tgt = some second →
      s.secondLeg mid tgt = second := fun h => by rw [secondLeg, h]; rfl
  have hnone : ∀ {mid tgt}, s.latencyMatrix.at? mid tgt = none → s.secondLeg mid tgt = 9999 :=
    fun h => by rw [secondLeg, h]; rfl
  rw [mem_relays_iff_detour]
  constructor
  · rintro ⟨src,tgt,mid,direct,first,hdetour,himproves,ha⟩
    cases hsecond : s.latencyMatrix.at? mid tgt with
    | some second =>
      rw [hsome hsecond] at himproves ha
      exact Or.inl ⟨src,tgt,mid,direct,first,second,⟨hdetour,hsecond,himproves⟩,ha⟩
    | none =>
      rw [hnone hsecond] at himproves ha
      exact Or.inr ⟨src,tgt,mid,direct,first,⟨hdetour,hsecond,himproves⟩,ha⟩
  · rintro (⟨src,tgt,mid,direct,first,second,h,ha⟩ | ⟨src,tgt,mid,direct,first,h,ha⟩)
    · refine ⟨src,tgt,mid,direct,first,h.toDetour,?_⟩
      rw [hsome h.second_eq]
      exact ⟨h.improves,ha⟩
    · refine ⟨src,tgt,mid,direct,first,h.toDetour,?_⟩
      rw [hnone h.second_eq]
      exact ⟨h.improves,ha⟩

theorem actionType_of_mem_priorityLinks {regions : List TopologyRegion}
    (h : a ∈ s.priorityLinks ts regions) : a.actionType = "priority_link" := by
  obtain ⟨saturated,-,ha⟩ := List.mem_flatMap.mp h
  obtain ⟨underutilized,-,ha⟩ := List.mem_filterMap.mp ha
  rw [priorityLink?] at ha
  split_ifs at ha
  rw [← Option.some.inj ha]

/-- The relays are what is proposed as such. -/
theorem mem_relays_of_mem {regions : List TopologyRegion}
    (h : a ∈ s.relays ts ++ s.priorityLinks ts regions) (htype : a.actionType = "add_relay") :
    a ∈ s.relays ts := by
  refine (List.mem_append.mp h).resolve_right fun hlink => ?_
  rw [actionType_of_mem_priorityLinks hlink] at htype
  exact absurd htype (by decide)

/-- No shortcut is left out. -/
theorem exists_of_shortcut {src tgt mid : String} {direct first second : ℚ}
    (h : Shortcut s.thresholdPct s.latencyMatrix.at? src tgt mid direct first second) (ts : ℚ)
    (regions : List TopologyRegion) :
    ∃ a ∈ s.relays ts ++ s.priorityLinks ts regions, a.actionType = "add_relay" ∧
      a.sourceRegion = src ∧ a.targetRegion = tgt ∧ a.via = some mid := by
  have hmem : relayAction ts src tgt mid direct (first+second) ∈ s.relays ts :=
    mem_relays_iff.mpr (Or.inl ⟨src,tgt,mid,direct,first,second,h,rfl⟩)
  exact ⟨_,List.mem_append_left _ hmem,rfl,rfl,rfl,rfl⟩

/-- The legs that were measured for a relay, if all relays are shortcuts. -/
theorem exists_legs {regions : List TopologyRegion} {report : ℚ → ℚ}
    (h : RealShortcuts s.thresholdPct s.latencyMatrix.at? report
      (s.relays ts ++ s.priorityLinks ts regions)) {src tgt mid : String} {direct hop : ℚ}
    (hmem : relayAction ts src tgt mid direct hop ∈ s.relays ts) :
    ∃ direct first second,
      Shortcut s.thresholdPct s.latencyMatrix.at? src tgt mid direct first second ∧
        roundTo 1 hop = report (first+second) := by
  obtain ⟨mid',direct',first,second,hvia,hshortcut,hexpected⟩ :=
    h.sound _ (List.mem_append_left _ hmem) rfl
  obtain rfl := Option.some.inj hvia
  exact ⟨direct',first,second,hshortcut,hexpected⟩

/-- What is proposed are the shortcuts, if nothing stands in for a leg and the reported latencies
are the rounded ones. -/
theorem realShortcuts_relays_iff (s : TopologyOptimizer) (ts : ℚ) (regions : List TopologyRegion)
    (report : ℚ → ℚ) :
    RealShortcuts s.thresholdPct s.latencyMatrix.at? report
        (s.relays ts ++ s.priorityLinks ts regions) ↔
      (∀ src tgt mid direct first,
        ¬ StandsIn s.thresholdPct s.latencyMatrix.at? src tgt mid direct first) ∧
      ∀ src tgt mid direct first second,
        Shortcut s.thresholdPct s.latencyMatrix.at? src tgt mid direct first second →
          roundTo 1 (first+second) = report (first+second) := by
  constructor
  · intro h
    constructor
    · intro src tgt mid direct first hstands
      obtain ⟨direct',first',second,hshortcut,-⟩ := exists_legs h
        (mem_relays_iff.mpr (Or.inr ⟨src,tgt,mid,direct,first,hstands,rfl⟩))
      have hmissing := hstands.second_eq.symm.trans hshortcut.second_eq
      exact absurd hmissing (Option.some_ne_none _).symm
    · intro src tgt mid direct first second hshort
      obtain ⟨direct',first',second',hshortcut,hexpected⟩ := exists_legs h
        (mem_relays_iff.mpr (Or.inl ⟨src,tgt,mid,direct,first,second,hshort,rfl⟩))
      obtain rfl := Option.some.inj (hshort.first_eq.symm.trans hshortcut.first_eq)
      obtain rfl := Option.some.inj (hshort.second_eq.symm.trans hshortcut.second_eq)
      exact hexpected
  · rintro ⟨hstands,hreport⟩
    constructor
    · intro a ha htype
      obtain ⟨src,tgt,mid,direct,first,second,hshort,rfl⟩ | ⟨src,tgt,mid,direct,first,h,-⟩ :=
        mem_relays_iff.mp (mem_relays_of_mem ha htype)
      · exact ⟨mid,direct,first,second,rfl,hshort,hreport src tgt mid direct first second hshort⟩
      · exact absurd h (hstands src tgt mid direct first)
    · intro src tgt mid direct first second hshort
      exact exists_of_shortcut hshort ts regions

theorem thresholdPct_run (s : TopologyOptimizer) (calls : List TopologyCall) :
    (run exec s calls).thresholdPct = s.thresholdPct := by
  induction calls using List.reverseRecOn with
  | nil => rfl
  | append_singleton calls c ih =>
    rw [run_concat, ← ih]
    cases c with
    | updateLatencyMatrix telemetry => rfl
    | analyze ts telemetry => rfl

theorem latencyMatrix_exec (s : TopologyOptimizer) (c : TopologyCall) (src tgt : String) :
    (s.exec c).latencyMatrix.at? src tgt =
      (c.telemetry.measured src tgt).or (s.latencyMatrix.at? src tgt) := by
  cases c with
  | updateLatencyMatrix telemetry => exact SparseMatrix.at?_merge _ _ src tgt
  | analyze ts telemetry => exact SparseMatrix.at?_merge _ _ src tgt

theorem latest_concat (telemetries : List TopologyTelemetry) (telemetry : TopologyTelemetry)
    (src tgt : String) : latest (telemetries ++ [telemetry]) src tgt =
      (telemetry.measured src tgt).or (latest telemetries src tgt) := by
  rw [latest, List.filterMap_append]
  cases h : telemetry.measured src tgt with
  | none => simp [h, latest]
  | some l => simp [h]

/-- The matrix holds what was measured last. -/
theorem latencyMatrix_run (thresholdPct : ℚ) (maxHistory : ℤ) (calls : List TopologyCall) :
    (run exec (start thresholdPct maxHistory) calls).latencyMatrix.at? =
      latest (calls.map TopologyCall.telemetry) := by
  funext src tgt
  induction calls using List.reverseRecOn with
  | nil => rfl
  | append_singleton calls c ih =>
    rw [run_concat, latencyMatrix_exec, ih, List.map_append, List.map_singleton, latest_concat]

/-- What an analysis proposes after some calls, by what was measured last. -/
theorem realShortcuts_analyze_iff (thresholdPct : ℚ) (maxHistory : ℤ) (calls : List TopologyCall)
    (ts : ℚ) (telemetry : TopologyTelemetry) (report : ℚ → ℚ) :
    let latency := latest (calls.map TopologyCall.telemetry ++ [telemetry])
    RealShortcuts thresholdPct latency report
        ((run exec (start thresholdPct maxHistory) calls).analyze ts telemetry).2 ↔
      (∀ src tgt mid direct first, ¬ StandsIn thresholdPct latency src tgt mid direct first) ∧
      ∀ src tgt mid direct first second,
        Shortcut thresholdPct latency src tgt mid direct first second →
          roundTo 1 (first+second) = report (first+second) := by
  intro latency
  have hmatrix : ((run exec (start thresholdPct maxHistory) calls).updateLatencyMatrix
      telemetry).latencyMatrix.at? = latency := by
    have hrun := latencyMatrix_run thresholdPct maxHistory (calls ++ [.analyze ts telemetry])
    rw [List.map_append, List.map_singleton, run_concat] at hrun
    exact hrun
  have hthreshold : ((run exec (start thresholdPct maxHistory) calls).updateLatencyMatrix
      telemetry).thresholdPct = thresholdPct := thresholdPct_run _ calls
  have hrelays := realShortcuts_relays_iff
    ((run exec (start thresholdPct maxHistory) calls).updateLatencyMatrix telemetry) ts
    (telemetry.regions.getD []) report
  rw [hthreshold, hmatrix] at hrelays
  exact hrelays

/-- The relays that an analysis proposes after some calls are the shortcuts by what was measured
last, exactly if nothing that was not measured passes for one, and if no sum of two legs has more
than the one decimal that is reported. To one decimal, the second condition falls away. -/
theorem realShortcuts_iff (thresholdPct : ℚ) (maxHistory : ℤ) (calls : List TopologyCall) (ts : ℚ)
    (telemetry : TopologyTelemetry) :
    let latency := latest (calls.map TopologyCall.telemetry ++ [telemetry])
    let actions := ((run exec (start thresholdPct maxHistory) calls).analyze ts telemetry).2
    (RealShortcuts thresholdPct latency id actions ↔
      (∀ src tgt mid direct first, ¬ StandsIn thresholdPct latency src tgt mid direct first) ∧
      ∀ src tgt mid direct first second,
        Shortcut thresholdPct latency src tgt mid direct first second →
          ∃ n : ℤ, first+second = n/10) ∧
    (RealShortcuts thresholdPct latency (roundTo 1) actions ↔
      ∀ src tgt mid direct first, ¬ StandsIn thresholdPct latency src tgt mid direct first) := by
  intro latency actions
  have hall := realShortcuts_analyze_iff thresholdPct maxHistory calls ts telemetry
  constructor
  · refine (hall id).trans (and_congr_right fun _ => ?_)
    simp only [id, roundTo_eq_self_iff, pow_one, latency]
  · refine (hall (roundTo 1)).trans (and_iff_left ?_)
    intro src tgt mid direct first second _
    rfl

/-- The way from `a` to `b` over `m`, whose second leg was not measured, counts with 10000. -/
theorem not_realShortcuts : ¬ ∀ (thresholdPct : ℚ) (maxHistory : ℤ) (calls : List TopologyCall)
    (ts : ℚ) (telemetry : TopologyTelemetry),
    RealShortcuts thresholdPct (latest (calls.map TopologyCall.telemetry ++ [telemetry])) id
      ((run exec (start thresholdPct maxHistory) calls).analyze ts telemetry).2 := by
  intro h
  have hmap := h 10 500 [] 0
    { latencyMap := some (Table.empty.put ⟨"a",(Table.empty.put ⟨"b",20000⟩).put ⟨"m",1⟩⟩) }
  have hstands := ((realShortcuts_analyze_iff 10 500 [] 0 _ id).mp hmap).1 "a" "b" "m" 20000 1
  refine hstands ⟨⟨by decide,by decide,?_,?_⟩,?_,?_⟩
  · decide +kernel
  · decide +kernel
  · decide +kernel
  · constructor <;> norm_num

end TopologyOptimizer
end Arsonist.Adaptation
