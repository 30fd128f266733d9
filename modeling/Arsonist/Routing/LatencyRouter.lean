import Arsonist.Library.Smoothing
import Arsonist.Library.StableSort
import Arsonist.Routing.GlobalRouter
import Mathlib.Data.Prod.Lex

/-! The latencies of `regions/latency_map.py` and the router of `routing/latency_router.py` that
goes by them. A latency is the smoothed value of what was recorded for a pair. -/
namespace Arsonist.Routing
open Arsonist.Library Arsonist.Regions

/-- An item of `_client_region`. -/
structure ClientRegion where
  clientId : String
  regionId : String
  latencyMs : ℚ

instance : Keyed ClientRegion (String × String) := ⟨fun m => (m.clientId,m.regionId)⟩

structure LatencyMeasurement where
  ts : ℚ
  fromRegion : String
  toRegion : String
  latencyMs : ℚ

structure LatencyMap where
  alpha : ℚ := 3/10
  interRegion : Table InterRegion := .empty
  clientRegion : Table ClientRegion := .empty
  history : List LatencyMeasurement := []

namespace LatencyMap
variable (m : LatencyMap)

/-- What a new value makes of a latency. -/
def updated (prev : Option ℚ) (latencyMs : ℚ) : ℚ :=
  match prev with
  | some prev => prev*(1-m.alpha)+latencyMs*m.alpha
  | none => latencyMs

def getInterRegion (fromRegion toRegion : String) : Option ℚ :=
  (m.interRegion.get? (fromRegion,toRegion)).map InterRegion.latencyMs

def getClientRegion (clientId regionId : String) : Option ℚ :=
  (m.clientRegion.get? (clientId,regionId)).map ClientRegion.latencyMs

def recordInterRegion (ts : ℚ) (fromRegion toRegion : String) (latencyMs : ℚ) : LatencyMap :=
  { m with
    interRegion := m.interRegion.put
      ⟨fromRegion,toRegion,m.updated (m.getInterRegion fromRegion toRegion) latencyMs⟩
    history := truncated 1000 (m.history ++ [⟨ts,fromRegion,toRegion,latencyMs⟩]) }

def recordClientRegion (clientId regionId : String) (latencyMs : ℚ) : LatencyMap :=
  { m with
    clientRegion := m.clientRegion.put
      ⟨clientId,regionId,m.updated (m.getClientRegion clientId regionId) latencyMs⟩ }

/-- The candidates that have a latency, with it. -/
def scored (latency : String → Option ℚ) (regions : List String) : List (ℚ × String) :=
  regions.filterMap fun id => (latency id).map fun ms => (ms,id)

def bestRegionForClient (clientId : String) (candidateRegions : List String) : Option String :=
  let scored := scored (m.getClientRegion clientId) candidateRegions
  ((scored.insertionSort fun a b => a.1 ≤ b.1).head?).map Prod.snd

end LatencyMap

/-- The router, with the contents of its registry. -/
structure LatencyRouter where
  registry : Table RoutedRegion := .empty
  latencyMap : LatencyMap := {}
  routeCount : ℕ := 0

namespace LatencyRouter
variable (s : LatencyRouter)

/-- In the order of their ids. -/
def activeRegions : List RoutedRegion :=
  (s.registry.entries.insertionSort fun a b => a.regionId ≤ b.regionId).filter fun r =>
    r.status = .active ∨ r.status = .degraded

def candidates (requireGpu : Bool) (exclude : List String) : List RoutedRegion :=
  let candidates := s.activeRegions
  let candidates :=
    if requireGpu then candidates.filter fun r => 0 < r.availableGpus else candidates
  candidates.filter fun r => r.regionId ∉ exclude

/-- The first of the candidates whose own average is lowest. -/
def fallback (candidates : List RoutedRegion) : Option String :=
  ((candidates.insertionSort fun a b => a.avgLatencyMs ≤ b.avgLatencyMs).head?).map
    RoutedRegion.regionId

def counted (region : Option String) : LatencyRouter × Option String :=
  match region with
  | some region => ({ s with routeCount := s.routeCount+1 },some region)
  | none => (s,none)

def routeByClient (clientId : String) (requireGpu : Bool := false)
    (excludeRegions : List String := []) : LatencyRouter × Option String :=
  let candidates := s.candidates requireGpu excludeRegions
  let best :=
    s.latencyMap.bestRegionForClient clientId (candidates.map RoutedRegion.regionId)
  s.counted ((best.filter (· ≠ "")).or (fallback candidates))

def routeByRegion (sourceRegion : String) (requireGpu : Bool := false)
    (excludeRegions : List String := []) : LatencyRouter × Option String :=
  let candidates := s.candidates requireGpu (sourceRegion :: excludeRegions)
  let measured := LatencyMap.scored (s.latencyMap.getInterRegion sourceRegion)
    (candidates.map RoutedRegion.regionId)
  let best := ((measured.insertionSort fun a b => toLex a ≤ toLex b).head?).map Prod.snd
  s.counted (best.or (fallback candidates))

end LatencyRouter

/-- A call of the map or of the router, or a change of the registry. -/
inductive LatencyCall
  | recordInterRegion (ts : ℚ) (fromRegion toRegion : String) (latencyMs : ℚ)
  | recordClientRegion (clientId regionId : String) (latencyMs : ℚ)
  | routeByClient (clientId : String) (requireGpu : Bool) (excludeRegions : List String)
  | routeByRegion (sourceRegion : String) (requireGpu : Bool) (excludeRegions : List String)
  | registry (registry : Table RoutedRegion)

namespace LatencyRouter

def exec (s : LatencyRouter) : LatencyCall → LatencyRouter
  | .recordInterRegion ts fromRegion toRegion latencyMs =>
    { s with latencyMap := s.latencyMap.recordInterRegion ts fromRegion toRegion latencyMs }
  | .recordClientRegion clientId regionId latencyMs =>
    { s with latencyMap := s.latencyMap.recordClientRegion clientId regionId latencyMs }
  | .routeByClient clientId requireGpu excludeRegions =>
    (s.routeByClient clientId requireGpu excludeRegions).1
  | .routeByRegion sourceRegion requireGpu excludeRegions =>
    (s.routeByRegion sourceRegion requireGpu excludeRegions).1
  | .registry registry => { s with registry := registry }

end LatencyRouter
end Arsonist.Routing

/-! The router goes by what was recorded: the region that it chooses has a measurement that is no
longer than some measurement of each other candidate. -/
namespace Arsonist.Routing
open Arsonist.Library

namespace LatencyCall

/-- What a call records between two regions. -/
def inter (source target : String) : LatencyCall → Option ℚ
  | .recordInterRegion _ fromRegion toRegion latencyMs =>
    if (source,target) = (fromRegion,toRegion) then some latencyMs else none
  | _ => none

/-- What a call records between a client and a region. -/
def client (clientId regionId : String) : LatencyCall → Option ℚ
  | .recordClientRegion client region latencyMs =>
    if (clientId,regionId) = (client,region) then some latencyMs else none
  | _ => none

end LatencyCall

/-- The smoothed value of some measurements, the first of which counts as it is. -/
def average (alpha : ℚ) : List ℚ → Option ℚ
  | [] => none
  | x :: xs => some (run (smooth alpha) x xs)

theorem average_concat (m : LatencyMap) (l : List ℚ) (x : ℚ) :
    average m.alpha (l ++ [x]) = some (m.updated (average m.alpha l) x) := by
  cases l with
  | nil => rfl
  | cons y ys =>
    rw [List.cons_append, average, run_concat, average, LatencyMap.updated, smooth]
    congr 1
    ring

theorem exists_average_le {alpha : ℚ} (h₀ : 0 ≤ alpha) (h₁ : alpha ≤ 1) {l : List ℚ} {ms : ℚ}
    (h : average alpha l = some ms) : ∃ x ∈ l, ms ≤ x := by
  cases l with
  | nil => cases h
  | cons x xs =>
    obtain rfl := Option.some.inj h
    exact exists_run_smooth_le h₀ h₁ x xs

theorem exists_le_average {alpha : ℚ} (h₀ : 0 ≤ alpha) (h₁ : alpha ≤ 1) {l : List ℚ} {ms : ℚ}
    (h : average alpha l = some ms) : ∃ x ∈ l, x ≤ ms := by
  cases l with
  | nil => cases h
  | cons x xs =>
    obtain rfl := Option.some.inj h
    exact exists_le_run_smooth h₀ h₁ x xs

namespace LatencyMap
variable {m : LatencyMap} {latency : String → Option ℚ} {regions : List String} {ms : ℚ}
  {id : String}

theorem getInterRegion_record (m : LatencyMap) (ts : ℚ) (fromRegion toRegion : String)
    (latencyMs : ℚ) (source target : String) :
    (m.recordInterRegion ts fromRegion toRegion latencyMs).getInterRegion source target =
      if (source,target) = (fromRegion,toRegion) then
        some (m.updated (m.getInterRegion source target) latencyMs)
      else m.getInterRegion source target := by
  rw [getInterRegion, recordInterRegion, Table.get?_put]
  by_cases h : (source,target) = (fromRegion,toRegion)
  · obtain ⟨rfl,rfl⟩ := Prod.mk.inj h
    rw [if_pos rfl]
    exact congrArg (Option.map _) (if_pos rfl)
  · rw [if_neg h]
    exact congrArg (Option.map _) (if_neg h)

theorem getClientRegion_record (m : LatencyMap) (client region : String) (latencyMs : ℚ)
    (clientId regionId : String) :
    (m.recordClientRegion client region latencyMs).getClientRegion clientId regionId =
      if (clientId,regionId) = (client,region) then
        some (m.updated (m.getClientRegion clientId regionId) latencyMs)
      else m.getClientRegion clientId regionId := by
  rw [getClientRegion, recordClientRegion, Table.get?_put]
  by_cases h : (clientId,regionId) = (client,region)
  · obtain ⟨rfl,rfl⟩ := Prod.mk.inj h
    rw [if_pos rfl]
    exact congrArg (Option.map _) (if_pos rfl)
  · rw [if_neg h]
    exact congrArg (Option.map _) (if_neg h)

theorem mem_scored : (ms,id) ∈ scored latency regions ↔ id ∈ regions ∧ latency id = some ms := by
  rw [scored, List.mem_filterMap]
  constructor
  · rintro ⟨id',hid,hms⟩
    obtain ⟨ms',hlatency,hpair⟩ := Option.map_eq_some_iff.mp hms
    obtain ⟨rfl,rfl⟩ := Prod.mk.inj hpair
    exact ⟨hid,hlatency⟩
  · rintro ⟨hid,hlatency⟩
    exact ⟨id,hid,by rw [hlatency]; rfl⟩

end LatencyMap

namespace LatencyRouter
open LatencyCall
variable {s : LatencyRouter}

theorem counted_snd (s : LatencyRouter) (region : Option String) :
    (s.counted region).2 = region := by
  cases region <;> rfl

theorem counted_latencyMap (s : LatencyRouter) (region : Option String) :
    (s.counted region).1.latencyMap = s.latencyMap := by
  cases region <;> rfl

/-- The map has the averages of what was recorded. -/
structure Averages (s : LatencyRouter) (a : ℚ) (calls : List LatencyCall) : Prop where
  alpha : s.latencyMap.alpha = a
  interRegion : ∀ source target, s.latencyMap.getInterRegion source target =
    average a (calls.filterMap (inter source target))
  clientRegion : ∀ clientId regionId, s.latencyMap.getClientRegion clientId regionId =
    average a (calls.filterMap (client clientId regionId))

/-- What a call makes of a latency. -/
def revised (m : LatencyMap) (latency sample : Option ℚ) : Option ℚ :=
  (sample.map (m.updated latency)).or latency

theorem exec_alpha (s : LatencyRouter) (call : LatencyCall) :
    (s.exec call).latencyMap.alpha = s.latencyMap.alpha := by
  cases call with
  | routeByClient clientId requireGpu excludeRegions =>
    exact congrArg LatencyMap.alpha (counted_latencyMap ..)
  | routeByRegion sourceRegion requireGpu excludeRegions =>
    exact congrArg LatencyMap.alpha (counted_latencyMap ..)
  | _ => rfl

theorem exec_interRegion (s : LatencyRouter) (call : LatencyCall) (source target : String) :
    (s.exec call).latencyMap.getInterRegion source target =
      revised s.latencyMap (s.latencyMap.getInterRegion source target)
        (call.inter source target) := by
  cases call with
  | recordInterRegion ts fromRegion toRegion latencyMs =>
    rw [exec, LatencyMap.getInterRegion_record, inter]
    split_ifs <;> rfl
  | routeByClient clientId requireGpu excludeRegions =>
    exact congrArg (fun m => LatencyMap.getInterRegion m source target) (counted_latencyMap ..)
  | routeByRegion sourceRegion requireGpu excludeRegions =>
    exact congrArg (fun m => LatencyMap.getInterRegion m source target) (counted_latencyMap ..)
  | _ => rfl

theorem exec_clientRegion (s : LatencyRouter) (call : LatencyCall) (clientId regionId : String) :
    (s.exec call).latencyMap.getClientRegion clientId regionId =
      revised s.latencyMap (s.latencyMap.getClientRegion clientId regionId)
        (call.client clientId regionId) := by
  cases call with
  | recordClientRegion clientId regionId latencyMs =>
    rw [exec, LatencyMap.getClientRegion_record, client]
    split_ifs <;> rfl
  | routeByClient client requireGpu excludeRegions =>
    exact congrArg (fun m => LatencyMap.getClientRegion m clientId regionId)
      (counted_latencyMap ..)
  | routeByRegion sourceRegion requireGpu excludeRegions =>
    exact congrArg (fun m => LatencyMap.getClientRegion m clientId regionId)
      (counted_latencyMap ..)
  | _ => rfl

theorem average_revised (m : LatencyMap) (samples : List ℚ) (sample : Option ℚ) :
    average m.alpha (samples ++ sample.toList) =
      revised m (average m.alpha samples) sample := by
  cases sample with
  | none => exact congrArg _ (List.append_nil samples)
  | some x => exact average_concat m samples x

theorem Averages.exec {a : ℚ} {calls : List LatencyCall} (h : s.Averages a calls)
    (call : LatencyCall) : (s.exec call).Averages a (calls ++ [call]) := by
  have hconcat : ∀ f : LatencyCall → Option ℚ,
      (calls ++ [call]).filterMap f = calls.filterMap f ++ (f call).toList := by
    intro f
    rw [List.filterMap_append]
    cases hf : f call <;> simp [hf]
  obtain ⟨rfl,hinter,hclient⟩ := h
  refine ⟨exec_alpha s call,fun source target => ?_,fun clientId regionId => ?_⟩
  · rw [exec_interRegion, hinter, hconcat, average_revised]
  · rw [exec_clientRegion, hclient, hconcat, average_revised]

theorem averages_run (alpha : ℚ) (calls : List LatencyCall) :
    (run exec { latencyMap := { alpha := alpha } } calls).Averages alpha calls := by
  induction calls using List.reverseRecOn with
  | nil => exact ⟨rfl,fun _ _ => rfl,fun _ _ => rfl⟩
  | append_singleton calls call ih =>
    rw [run_concat]
    exact ih.exec call

/-- An answer that goes by measurements: one of the candidates, which has a measurement that is no
longer than some measurement of each other one that has any. -/
def PrefersFast (candidates : List RoutedRegion) (samples : String → List ℚ)
    (answer : Option String) : Prop :=
  (answer = none ↔ candidates = []) ∧
    ∀ id, answer = some id → (∃ r ∈ candidates, r.regionId = id) ∧
      ∀ other ∈ candidates, samples other.regionId ≠ [] →
        ∃ x ∈ samples id, ∃ y ∈ samples other.regionId, x ≤ y

variable {candidates : List RoutedRegion} {latency : String → Option ℚ}
  {samples : String → List ℚ} {a : ℚ} {best : Option String}

theorem fallback_eq_none_iff : fallback candidates = none ↔ candidates = [] := by
  rw [fallback, Option.map_eq_none_iff, List.head?_eq_none_iff]
  refine ⟨fun h => ?_,fun h => by rw [h]; rfl⟩
  exact (h ▸ List.perm_insertionSort _ candidates).symm.eq_nil

theorem mem_of_fallback {id : String} (h : fallback candidates = some id) :
    ∃ r ∈ candidates, r.regionId = id := by
  obtain ⟨r,hr,rfl⟩ := Option.map_eq_some_iff.mp h
  exact ⟨r,(List.mem_insertionSort _).mp (List.mem_of_mem_head? hr),rfl⟩

/-- The least of the scored candidates is preferred, and the fallback if none is scored. -/
theorem prefersFast_of_least (h₀ : 0 ≤ a) (h₁ : a ≤ 1)
    (hlatency : ∀ id, latency id = average a (samples id))
    (hbest : ∀ id, best = some id →
      ∃ ms, (ms,id) ∈ LatencyMap.scored latency (candidates.map RoutedRegion.regionId) ∧
        ∀ p ∈ LatencyMap.scored latency (candidates.map RoutedRegion.regionId), ms ≤ p.1)
    (hnone : best = none →
      LatencyMap.scored latency (candidates.map RoutedRegion.regionId) = []) :
    PrefersFast candidates samples (best.or (fallback candidates)) := by
  have hscored : ∀ other ∈ candidates, samples other.regionId ≠ [] →
      ∃ ms, (ms,other.regionId) ∈
        LatencyMap.scored latency (candidates.map RoutedRegion.regionId) := by
    intro other hother hne
    obtain ⟨x,xs,hsamples⟩ := List.exists_cons_of_ne_nil hne
    refine ⟨run (smooth a) x xs,LatencyMap.mem_scored.mpr ⟨List.mem_map_of_mem hother,?_⟩⟩
    rw [hlatency, hsamples]
    rfl
  cases best with
  | none =>
    refine ⟨fallback_eq_none_iff,fun id hid => ⟨mem_of_fallback hid,fun other hother hne => ?_⟩⟩
    obtain ⟨ms,hms⟩ := hscored other hother hne
    rw [hnone rfl] at hms
    cases hms
  | some id =>
    obtain ⟨ms,hmem,hleast⟩ := hbest id rfl
    obtain ⟨hid,hms⟩ := LatencyMap.mem_scored.mp hmem
    obtain ⟨r,hr,rfl⟩ := List.mem_map.mp hid
    refine ⟨iff_of_false (Option.some_ne_none _) (List.ne_nil_of_mem hr),fun id' hid' => ?_⟩
    obtain rfl := Option.some.inj hid'
    refine ⟨⟨r,hr,rfl⟩,fun other hother hne => ?_⟩
    obtain ⟨ms',hother'⟩ := hscored other hother hne
    have hle := hleast _ hother'
    obtain ⟨x,hx,hxms⟩ := exists_le_average h₀ h₁ ((hlatency _).symm.trans hms)
    obtain ⟨y,hy,hmsy⟩ := exists_average_le h₀ h₁
      ((hlatency _).symm.trans (LatencyMap.mem_scored.mp hother').2)
    exact ⟨x,hx,y,hy,hxms.trans (hle.trans hmsy)⟩

/-- What a sort of the scored candidates puts first, by their latencies or by the pairs. -/
theorem least_of_sort {r : ℚ × String → ℚ × String → Prop} [DecidableRel r] {β : Type*}
    [LinearOrder β] {key : ℚ × String → β} (hr : ∀ p q, r p q ↔ key p ≤ key q)
    (hkey : ∀ p q, key p ≤ key q → p.1 ≤ q.1) (l : List (ℚ × String)) :
    (∀ id, ((l.insertionSort r).head?).map Prod.snd = some id →
      ∃ ms, (ms,id) ∈ l ∧ ∀ p ∈ l, ms ≤ p.1) ∧
    (((l.insertionSort r).head?).map Prod.snd = none → l = []) := by
  constructor
  · intro id hid
    obtain ⟨⟨ms,id⟩,hhead,rfl⟩ := Option.map_eq_some_iff.mp hid
    obtain ⟨p,q,rfl,hp,hq⟩ := head?_insertionSort (fun a _ b _ => hr a b) hhead
    refine ⟨ms,by simp,fun b hb => hkey (ms,id) b ?_⟩
    obtain hb | hb := List.mem_append.mp hb
    · exact (hp b hb).le
    · obtain rfl | hb := List.mem_cons.mp hb
      · exact le_rfl
      · exact hq b hb
  · intro hnone
    rw [Option.map_eq_none_iff, List.head?_eq_none_iff] at hnone
    exact (hnone ▸ List.perm_insertionSort r l).symm.eq_nil

theorem mem_registry {requireGpu : Bool} {exclude : List String} {r : RoutedRegion}
    (h : r ∈ s.candidates requireGpu exclude) : r ∈ s.registry.entries := by
  have hactive : r ∈ s.activeRegions := by
    have hmem := (List.mem_filter.mp h).1
    split_ifs at hmem
    · exact (List.mem_filter.mp hmem).1
    · exact hmem
  exact (List.mem_insertionSort _).mp (List.mem_filter.mp hactive).1

/-- After any calls, a request is routed to an active region that has a measurement no longer than
some measurement of each other candidate: by its source, and by its client if no region has the
empty name. A region all of whose measurements are longer than those of another candidate is
never chosen. -/
theorem route_after (h₀ : 0 ≤ a) (h₁ : a ≤ 1) (calls : List LatencyCall) (origin : String)
    (requireGpu : Bool) (exclude : List String) :
    let s := run exec { latencyMap := { alpha := a } } calls
    PrefersFast (s.candidates requireGpu (origin :: exclude))
        (fun id => calls.filterMap (inter origin id))
        (s.routeByRegion origin requireGpu exclude).2 ∧
      (s.registry.get? "" = none → PrefersFast (s.candidates requireGpu exclude)
        (fun id => calls.filterMap (client origin id))
        (s.routeByClient origin requireGpu exclude).2) := by
  intro s
  have haverages : s.Averages a calls := averages_run a calls
  constructor
  · obtain ⟨hbest,hnone⟩ := @least_of_sort
      (fun p q => toLex p ≤ toLex q) _ _ _ toLex (fun _ _ => Iff.rfl)
      (fun p q h => (Prod.Lex.le_iff.mp h).elim le_of_lt fun heq => heq.1.le)
      (LatencyMap.scored (s.latencyMap.getInterRegion origin)
        ((s.candidates requireGpu (origin :: exclude)).map RoutedRegion.regionId))
    rw [routeByRegion, counted_snd]
    exact prefersFast_of_least h₀ h₁ (haverages.interRegion origin) hbest hnone
  · intro hempty
    obtain ⟨hbest,hnone⟩ := @least_of_sort (fun p q => p.1 ≤ q.1) _ _ _ Prod.fst
      (fun _ _ => Iff.rfl) (fun _ _ h => h)
      (LatencyMap.scored (s.latencyMap.getClientRegion origin)
        ((s.candidates requireGpu exclude).map RoutedRegion.regionId))
    rw [routeByClient, counted_snd]
    refine prefersFast_of_least h₀ h₁ (haverages.clientRegion origin) ?_ ?_
    · exact fun id hid => hbest id (Option.filter_eq_some_iff.mp hid).1
    · intro hfilter
      refine hnone ?_
      rw [Option.eq_none_iff_forall_ne_some]
      intro id hid
      have hid' : id = "" := by
        by_contra hne
        have hkept : (some id).filter (· ≠ "") = some id :=
          Option.filter_eq_some_iff.mpr ⟨rfl,by simpa using hne⟩
        rw [LatencyMap.bestRegionForClient, hid, hkept] at hfilter
        cases hfilter
      obtain ⟨ms,hms,-⟩ := hbest id hid
      obtain ⟨r,hr,hrid⟩ := List.mem_map.mp (LatencyMap.mem_scored.mp hms).1
      have hget := Table.get?_of_mem (mem_registry hr)
      rw [show Keyed.key r = "" from hrid.trans hid', hempty] at hget
      cases hget

/-- Two regions, one of which was measured twice. -/
def measuredTwice : List LatencyCall :=
  [.registry ((Table.empty.put { regionId := "eu" }).put { regionId := "us" }),
    .recordInterRegion 0 "home" "eu" 10,.recordInterRegion 1 "home" "eu" 90,
    .recordInterRegion 2 "home" "us" 40]

theorem route_after_measuredTwice :
    PrefersFast ((run exec {} measuredTwice).candidates false ["home"])
      (fun id => measuredTwice.filterMap (inter "home" id))
      ((run exec {} measuredTwice).routeByRegion "home" false []).2 :=
  (route_after (by norm_num) (by norm_num) measuredTwice "home" false []).1

end LatencyRouter
end Arsonist.Routing
