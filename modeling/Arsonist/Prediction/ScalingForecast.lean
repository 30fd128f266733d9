import Arsonist.Library.History
import Arsonist.Library.Keyed
import Arsonist.Library.Runs
import Arsonist.Library.Text
import Arsonist.Shared.Rounding

/-! Forecasts of the use of resources (`prediction/scaling_forecast.py`). A series is smoothed by two
coupled recurrences, one for its level and one for its damped trend. -/
namespace Arsonist.Prediction
open Arsonist.Library Arsonist.Shared

inductive ScalingDirection | scaleUp | scaleDown | noChange
  deriving DecidableEq

structure ScalingForecast where
  forecastId : String
  regionId : String := ""
  resourceType : String := ""
  currentUsage : ℚ := 0
  predictedUsage : ℚ := 0
  direction : ScalingDirection := .noChange
  recommendedCapacityDelta : ℚ := 0
  confidence : ℚ := 0
  horizonMinutes : ℤ := 15
  triggerThreshold : ℚ := 17/20
  warmStandbyCount : ℤ := 0
  forecastedAt : ℚ := 0
  deriving DecidableEq

structure PreScaleEvent where
  type : String := "pre_scale_recommended"
  regionId : String
  resource : String
  predictedUsage : ℚ
  warmStandby : ℤ
  ts : ℚ
  deriving DecidableEq

/-- The entry of a region. What it leaves out has its default. -/
structure RegionUsage where
  regionId : String := "unknown"
  gpuUtilization : ℚ := 0
  cpuUtilization : ℚ := 0
  memoryUtilization : ℚ := 0
  bandwidthUtilization : ℚ := 0

/-- The use of one resource of a region. -/
structure Usage where
  regionId : String
  resource : String
  usage : ℚ

def RegionUsage.usages (r : RegionUsage) : List Usage :=
  [⟨r.regionId,"gpu",r.gpuUtilization⟩,⟨r.regionId,"cpu",r.cpuUtilization⟩,
    ⟨r.regionId,"memory",r.memoryUtilization⟩,⟨r.regionId,"bandwidth",r.bandwidthUtilization⟩]

def Usage.key (u : Usage) : String := "scaling:" ++ u.resource ++ ":" ++ u.regionId

/-- No use of a resource is recorded only for the GPU. -/
def Usage.Skipped (u : Usage) : Prop := u.usage = 0 ∧ u.resource ≠ "gpu"

instance (u : Usage) : Decidable u.Skipped := inferInstanceAs (Decidable (_ ∧ _))

/-- The recorded values of one key. -/
structure Series where
  key : String
  values : List ℚ
  deriving DecidableEq

instance : Keyed Series String := ⟨Series.key⟩

/-- The level of a series and its trend. -/
structure Smoother where
  smoothed : ℚ
  trend : ℚ

namespace Smoother

/-- One turn of the loop of `_smooth_predict`. -/
def next (alpha : ℚ) (s : Smoother) (v : ℚ) : Smoother :=
  let smoothed := alpha*v+(1-alpha)*(s.smoothed+s.trend)
  ⟨smoothed,1/10*(smoothed-s.smoothed)+9/10*s.trend⟩

def ahead (s : Smoother) (steps : ℤ) : ℚ := s.smoothed+s.trend*steps

/-- Level and trend in a unit where `v` is `a*v+b`. The trend is a difference of levels. -/
def inUnits (a b : ℚ) (s : Smoother) : Smoother := ⟨a*s.smoothed+b,a*s.trend⟩

variable (a b alpha : ℚ) (s : Smoother)

theorem next_inUnits (v : ℚ) :
    (s.inUnits a b).next alpha (a*v+b) = (s.next alpha v).inUnits a b := by
  rw [next, next, inUnits, inUnits, mk.injEq]
  dsimp only
  constructor
  · ring
  · ring

theorem foldl_next_inUnits (values : List ℚ) :
    (values.map fun v => a*v+b).foldl (next alpha) (s.inUnits a b) =
      (values.foldl (next alpha) s).inUnits a b := by
  induction values generalizing s with
  | nil => rfl
  | cons v values ih => rw [List.map_cons, List.foldl_cons, List.foldl_cons, next_inUnits, ih]

theorem ahead_inUnits (steps : ℤ) : (s.inUnits a b).ahead steps = a*s.ahead steps+b := by
  rw [ahead, ahead, inUnits]
  ring

end Smoother

structure ScalingForecaster where
  scaleUpThreshold : ℚ := 4/5
  scaleDownThreshold : ℚ := 3/10
  alpha : ℚ := 3/10
  maxHistory : ℤ := 500
  series : Table Series := Table.empty
  forecasts : List ScalingForecast := []
  totalForecasts : ℕ := 0
  preScaleEvents : List PreScaleEvent := []

namespace ScalingForecaster
variable (f : ScalingForecaster)

def values (key : String) : List ℚ := ((f.series.get? key).map Series.values).getD []

/-- `_record`. -/
def record (key : String) (value : ℚ) : ScalingForecaster :=
  { f with series := f.series.put ⟨key,truncated 200 (f.values key ++ [value])⟩ }

/-- `_smooth_predict`. -/
def smoothPredict (key : String) (steps : ℤ := 3) : ℚ :=
  match f.values key with
  | [] => 0
  | v :: values => (values.foldl (Smoother.next f.alpha) ⟨v,0⟩).ahead steps

/-- What a prediction between zero and one leads to: the direction, the recommended difference and
the number of warm standbys. -/
def recommend (predicted : ℚ) : ScalingDirection × ℚ × ℤ :=
  if f.scaleUpThreshold < predicted then
    let delta := roundTo 1 ((predicted-7/10)*100)
    (.scaleUp,delta,max 1 (Text.truncate (delta/10)))
  else if predicted < f.scaleDownThreshold then (.scaleDown,roundTo 1 ((1/2-predicted)*(-100)),0)
  else (.noChange,0,0)

def steps (horizonMinutes : ℤ) : ℤ := max 1 (horizonMinutes/5)

/-- The forecast for a use that has been recorded. -/
def forecastOf (ts : ℚ) (horizonMinutes : ℤ) (u : Usage) : ScalingForecast :=
  let predicted := max 0 (min 1 (f.smoothPredict u.key (steps horizonMinutes)))
  let advice := f.recommend predicted
  { forecastId := "sf-" ++ u.resource ++ "-" ++ u.regionId ++ "-" ++ toString (Text.truncate ts)
    regionId := u.regionId
    resourceType := u.resource
    currentUsage := roundTo 3 u.usage
    predictedUsage := roundTo 3 predicted
    direction := advice.1
    recommendedCapacityDelta := advice.2.1
    confidence := roundTo 3 (min (9/10) (3/10+(f.values u.key).length*(1/100)))
    horizonMinutes := horizonMinutes
    triggerThreshold := f.scaleUpThreshold
    warmStandbyCount := advice.2.2
    forecastedAt := ts }

/-- The event of a forecast that asks for more. -/
def preScaleEvent (ts : ℚ) (forecast : ScalingForecast) : List PreScaleEvent :=
  if forecast.direction = .scaleUp then
    [{regionId := forecast.regionId
      resource := forecast.resourceType
      predictedUsage := forecast.predictedUsage
      warmStandby := forecast.warmStandbyCount
      ts := ts}]
  else []

/-- One turn of the loop over the resources. -/
def forecastUsage (ts : ℚ) (horizonMinutes : ℤ) (u : Usage) :
    ScalingForecaster × List ScalingForecast :=
  if u.Skipped then (f,[])
  else
    let f := f.record u.key u.usage
    let forecast := f.forecastOf ts horizonMinutes u
    ({ f with preScaleEvents := f.preScaleEvents ++ preScaleEvent ts forecast },[forecast])

/-- The loops over the regions and their resources. -/
def forecastUsages (ts : ℚ) (horizonMinutes : ℤ) (f : ScalingForecaster) :
    List Usage → ScalingForecaster × List ScalingForecast
  | [] => (f,[])
  | u :: us =>
    let first := f.forecastUsage ts horizonMinutes u
    let rest := forecastUsages ts horizonMinutes first.1 us
    (rest.1,first.2 ++ rest.2)

/-- What `forecast` keeps of the results, under the lock. -/
def keep (results : List ScalingForecast) : ScalingForecaster :=
  { f with
    forecasts := truncated f.maxHistory (f.forecasts ++ results)
    totalForecasts := f.totalForecasts+results.length
    preScaleEvents := truncated f.maxHistory f.preScaleEvents }

def forecast (ts : ℚ) (regions : List RegionUsage) (horizonMinutes : ℤ := 15) :
    ScalingForecaster × List ScalingForecast :=
  let made := f.forecastUsages ts horizonMinutes (regions.flatMap RegionUsage.usages)
  (made.1.keep made.2,made.2)

/-! ### The recorded series -/

theorem values_record (key : String) (value : ℚ) (k : String) :
    (f.record key value).values k =
      if k = key then (f.values key ++ [value]).rtake 200 else f.values k := by
  have hget : (f.record key value).series.get? k =
      if k = key then some ⟨key,truncated 200 (f.values key ++ [value])⟩ else f.series.get? k :=
    Table.get?_put _ _ _
  rw [values, hget, ← truncated_eq_rtake (n := 200) (by decide)]
  split_ifs with hk
  · rfl
  · rfl

/-- After any records the series of a key consists of its last 200 values. -/
theorem values_records (records : List (String × ℚ)) (k : String)
    (h : (f.values k).length ≤ 200) :
    (run (fun f r => f.record r.1 r.2) f records).values k =
      (f.values k ++ (records.filter fun r => r.1 = k).map Prod.snd).rtake 200 := by
  induction records generalizing f with
  | nil => rw [run_nil, List.filter_nil, List.map_nil, List.append_nil, rtake_eq_self h]
  | cons r records ih =>
    have hrecord := values_record f r.1 r.2 k
    rw [run_cons]
    by_cases hk : r.1 = k
    · rw [if_pos hk.symm, hk] at hrecord
      rw [ih, hk, hrecord, rtake_rtake_append, List.filter_cons_of_pos (by simpa using hk),
        List.map_cons, List.append_assoc, List.singleton_append]
      rw [hk, hrecord, List.rtake, List.length_drop]
      omega
    · rw [if_neg (Ne.symm hk)] at hrecord
      rw [ih, hrecord, List.filter_cons_of_neg (by simpa using hk)]
      rw [hrecord]
      exact h

/-! ### What is kept -/

/-- What `forecast` keeps stays within its limits. -/
structure Bounded (n : ℕ) (f : ScalingForecaster) : Prop where
  maxHistory : f.maxHistory = n
  forecasts : f.forecasts.length ≤ n
  counted : f.forecasts.length ≤ f.totalForecasts
  values : ∀ k, (f.values k).length ≤ 200

theorem bounded_record {n : ℕ} (h : Bounded n f) (key : String) (value : ℚ) :
    Bounded n (f.record key value) := by
  refine ⟨h.maxHistory,h.forecasts,h.counted,fun k => ?_⟩
  rw [values_record]
  split_ifs with hk
  · rw [List.rtake, List.length_drop]
    omega
  · exact h.values k

theorem bounded_forecastUsages {n : ℕ} (ts : ℚ) (horizonMinutes : ℤ) (h : Bounded n f)
    (us : List Usage) : Bounded n (f.forecastUsages ts horizonMinutes us).1 := by
  induction us generalizing f with
  | nil => exact h
  | cons u us ih =>
    refine ih _ ?_
    rw [forecastUsage]
    split_ifs with hskip
    · exact h
    · obtain ⟨hmax,hforecasts,hcounted,hvalues⟩ := bounded_record f h u.key u.usage
      exact ⟨hmax,hforecasts,hcounted,hvalues⟩

/-- At most `max_history` forecasts are kept, and never more than were made. -/
theorem bounded_forecast {n : ℕ} (hn : 0 < n) (h : Bounded n f) (ts : ℚ)
    (regions : List RegionUsage) (horizonMinutes : ℤ) :
    Bounded n (f.forecast ts regions horizonMinutes).1 := by
  obtain ⟨hmax,-,hcounted,hvalues⟩ :=
    bounded_forecastUsages f ts horizonMinutes h (regions.flatMap RegionUsage.usages)
  have hkept := fun results : List ScalingForecast =>
    truncated_eq_rtake hn
      ((f.forecastUsages ts horizonMinutes (regions.flatMap RegionUsage.usages)).1.forecasts ++
        results)
  refine ⟨hmax,?_,?_,hvalues⟩
  · rw [forecast, keep]
    dsimp only
    rw [hmax, hkept, List.rtake, List.length_drop]
    omega
  · rw [forecast, keep]
    dsimp only
    rw [hmax, hkept, List.rtake, List.length_drop, List.length_append]
    omega

/-- The arguments of a call of `forecast`, and the time of it. -/
structure ForecastCall where
  ts : ℚ
  regions : List RegionUsage
  horizonMinutes : ℤ := 15

theorem bounded_run {n : ℕ} (hn : 0 < n) (calls : List ForecastCall) (h : Bounded n f) :
    Bounded n (run (fun f c => (forecast f c.ts c.regions c.horizonMinutes).1) f calls) :=
  run_always (fun f c hf => bounded_forecast f hn hf c.ts c.regions c.horizonMinutes) h calls

/-- Standbys are asked for exactly when more capacity is. -/
theorem standby_iff (predicted : ℚ) :
    0 < (f.recommend predicted).2.2 ↔ (f.recommend predicted).1 = .scaleUp := by
  rw [recommend]
  split_ifs with hup hdown
  · simp only [lt_sup_iff, zero_lt_one, true_or]
  · exact ⟨fun h => absurd h (lt_irrefl 0),nofun⟩
  · exact ⟨fun h => absurd h (lt_irrefl 0),nofun⟩

/-! ### The prediction in other units -/

/-- The same values in other units, and the same smoothing. -/
def SameIn (a b : ℚ) (key : String) (f g : ScalingForecaster) : Prop :=
  g.alpha = f.alpha ∧ g.values key = (f.values key).map fun v => a*v+b

variable {f} {g : ScalingForecaster} {a b : ℚ} {key : String}

theorem SameIn.record (h : SameIn a b key f g) (v : ℚ) :
    SameIn a b key (f.record key v) (g.record key (a*v+b)) := by
  refine ⟨h.1,?_⟩
  rw [values_record, values_record, if_pos rfl, if_pos rfl, h.2, List.rtake, List.rtake,
    List.map_drop, List.map_append, List.length_append, List.length_append, List.length_map]
  rfl

theorem SameIn.records (h : SameIn a b key f g) (values : List ℚ) :
    SameIn a b key (run (fun f v => f.record key v) f values)
      (run (fun g v => g.record key (a*v+b)) g values) := by
  induction values generalizing f g with
  | nil => exact h
  | cons v values ih => exact ih (h.record v)

theorem SameIn.smoothPredict (h : SameIn a b key f g) (hne : f.values key ≠ []) (steps : ℤ) :
    g.smoothPredict key steps = a*f.smoothPredict key steps+b := by
  rw [ScalingForecaster.smoothPredict, ScalingForecaster.smoothPredict, h.1, h.2]
  cases hv : f.values key with
  | nil => exact absurd hv hne
  | cons v values =>
    have hstart : (⟨a*v+b,0⟩ : Smoother) = Smoother.inUnits a b ⟨v,0⟩ := by
      rw [Smoother.inUnits, mul_zero]
    simp only [List.map_cons]
    rw [hstart, Smoother.foldl_next_inUnits, Smoother.ahead_inUnits]

/-- A constant series is the same in units in which every value is the constant. -/
theorem sameIn_of_constant (h : ∀ v ∈ f.values key, v = b) : SameIn 0 b key f f := by
  refine ⟨rfl,?_⟩
  refine (List.map_id _).symm.trans (List.map_congr_left fun v hv => ?_)
  rw [h v hv, zero_mul, zero_add]
  rfl

/-- The prediction for a series in other units is the one for the series, in these units. For a
constant series it is the constant. -/
theorem smoothPredict_inUnits (f : ScalingForecaster) (key : String) (steps : ℤ) (a b : ℚ)
    (hne : f.values key ≠ []) :
    (∀ g : ScalingForecaster, g.alpha = f.alpha →
      g.values key = (f.values key).map (fun v => a*v+b) →
      g.smoothPredict key steps = a*f.smoothPredict key steps+b) ∧
    ((∀ v ∈ f.values key, v = b) → f.smoothPredict key steps = b) := by
  constructor
  · intro g halpha hvalues
    exact SameIn.smoothPredict ⟨halpha,hvalues⟩ hne steps
  · intro hconstant
    rw [(sameIn_of_constant hconstant).smoothPredict hne, zero_mul, zero_add]

def celsius : ScalingForecaster where
  series := (Table.empty.put ⟨"day",[20,25,22]⟩).put ⟨"cellar",[10,10,10]⟩

def fahrenheit : ScalingForecaster where
  series := Table.empty.put ⟨"day",[68,77,358/5]⟩

theorem smoothPredict_inUnits_degrees :
    fahrenheit.smoothPredict "day" 3 = 9/5*celsius.smoothPredict "day" 3+32 ∧
      celsius.smoothPredict "cellar" 3 = 10 := by
  have hday : celsius.values "day" ≠ [] := by decide +kernel
  have hcellar : celsius.values "cellar" ≠ [] := by decide +kernel
  exact ⟨(smoothPredict_inUnits celsius "day" 3 (9/5) 32 hday).1 fahrenheit rfl (by decide +kernel),
    (smoothPredict_inUnits celsius "cellar" 3 1 10 hcellar).2 (by decide +kernel)⟩

end ScalingForecaster
end Arsonist.Prediction
