import Arsonist.Library.Deviation
import Arsonist.Library.History
import Arsonist.Library.Keyed
import Arsonist.Library.Text
import Arsonist.Shared.Rounding

/-! The detector of `intelligence/anomaly_detector.py`. A value is recorded first and compared with
the mean and the standard deviation of the recorded values afterwards, so it is one of them. -/
namespace Arsonist.Intelligence
open Arsonist.Library Arsonist.Shared

inductive AnomalyType
  | latencySpike | nodeInstability | suspiciousTraffic | memoryLeak | runawayWorkload
  | gpuDegradation | replicationAnomaly | throughputDrop
  deriving DecidableEq

def AnomalyType.value : AnomalyType → String
  | .latencySpike => "latency_spike"
  | .nodeInstability => "node_instability"
  | .suspiciousTraffic => "suspicious_traffic"
  | .memoryLeak => "memory_leak"
  | .runawayWorkload => "runaway_workload"
  | .gpuDegradation => "gpu_degradation"
  | .replicationAnomaly => "replication_anomaly"
  | .throughputDrop => "throughput_drop"

inductive AnomalySeverity | low | medium | high | critical
  deriving DecidableEq

def AnomalySeverity.value : AnomalySeverity → String
  | .low => "low"
  | .medium => "medium"
  | .high => "high"
  | .critical => "critical"

structure Anomaly where
  anomalyId : String
  anomalyType : AnomalyType
  severity : AnomalySeverity := .medium
  score : ℚ := 0
  regionId : String := ""
  nodeId : String := ""
  description : String := ""
  metricName : String := ""
  metricValue : ℚ := 0
  threshold : ℚ := 0
  remediation : String := ""
  detectedAt : ℚ := 0
  resolved : Bool := false
  resolvedAt : ℚ := 0
  deriving DecidableEq

/-- What an event of a detection says. -/
structure DetectionEvent where
  anomalyId : String
  anomalyType : String
  severity : String
  regionId : String
  ts : ℚ
  deriving DecidableEq

def Anomaly.event (a : Anomaly) : DetectionEvent :=
  ⟨a.anomalyId,a.anomalyType.value,a.severity.value,a.regionId,a.detectedAt⟩

/-- The entry of a region. What it leaves out has its default. -/
structure RegionEntry where
  regionId : String := "unknown"
  avgLatencyMs : ℚ := 0
  gpuTempC : ℚ := 0
  memoryGrowthRate : ℚ := 0
  requestsPerSecond : ℚ := 0
  replicationLagS : ℚ := 0

/-- The entry of a node. -/
structure NodeEntry where
  nodeId : String := "unknown"
  restartCount1h : ℤ := 0
  cpuUsage : ℚ := 0

structure Telemetry where
  regions : List RegionEntry := []
  nodes : List NodeEntry := []

/-- The recorded values of one metric. -/
structure Series where
  key : String
  values : List ℚ
  deriving DecidableEq

instance : Keyed Series String := ⟨Series.key⟩

structure AnomalyDetector where
  latencyThreshold : ℚ := 500
  gpuTempThreshold : ℚ := 85
  memoryGrowthThreshold : ℚ := 15/100
  replicationLagThreshold : ℚ := 30
  trafficSpikeFactor : ℚ := 3
  maxHistory : ℤ := 1000
  anomalies : List Anomaly := []
  metricHistory : Table Series := Table.empty
  totalDetected : ℕ := 0
  events : List DetectionEvent := []

def latencyKey (regionId : String) : String := "latency:" ++ regionId

def rpsKey (regionId : String) : String := "rps:" ++ regionId

/-- The id of an anomaly: what it is, where it is and the second at which it was found. -/
def anomalyId (kind place : String) (ts : ℚ) : String :=
  kind ++ "-" ++ place ++ "-" ++ toString (Text.truncate ts)

/-- `x/y`: `none` stands for a `ZeroDivisionError`. -/
def ratio (x y : ℚ) : Option ℚ := if y = 0 then none else some (x/y)

/-- A check by which an anomaly is found, whose score is a ratio. -/
def scored (found : Prop) [Decidable found] (x y : ℚ) (anomaly : ℚ → Anomaly) :
    Option (List Anomaly) :=
  if found then (ratio x y).map fun score => [anomaly score] else some []

namespace AnomalyDetector
variable (d : AnomalyDetector)

def values (key : String) : List ℚ := ((d.metricHistory.get? key).map Series.values).getD []

/-- `_record_metric`. -/
def recordMetric (key : String) (value : ℚ) : AnomalyDetector :=
  { d with metricHistory := d.metricHistory.put ⟨key,truncated 200 (d.values key ++ [value])⟩ }

/-- `_stddev`: the mean, and the square of the standard deviation. -/
def stddev (key : String) : ℚ × ℚ :=
  if (d.values key).length < 5 then (0,0) else (mean (d.values key),variance (d.values key))

/-- `_is_anomalous`. -/
def isAnomalous (key : String) (value factor : ℚ) : Prop :=
  (d.stddev key).2 ≠ 0 ∧ ExceedsRoot factor (d.stddev key).2 |value-(d.stddev key).1|

instance (key : String) (value factor : ℚ) : Decidable (d.isAnomalous key value factor) :=
  inferInstanceAs (Decidable (_ ∧ _))

/-- The check of the latency, once it is recorded. -/
def latencySpike (ts : ℚ) (r : RegionEntry) : Option (List Anomaly) :=
  scored
    (d.latencyThreshold < r.avgLatencyMs ∨
      d.isAnomalous (latencyKey r.regionId) r.avgLatencyMs (5/2))
    r.avgLatencyMs d.latencyThreshold fun score =>
    { anomalyId := anomalyId "latency" r.regionId ts
      anomalyType := .latencySpike
      severity := if d.latencyThreshold*2 < r.avgLatencyMs then .critical else .high
      score := min score 2
      regionId := r.regionId
      description :=
        "Latency spike in " ++ r.regionId ++ ": " ++ formatWhole r.avgLatencyMs ++ "ms"
      metricName := "avg_latency_ms"
      metricValue := r.avgLatencyMs
      threshold := d.latencyThreshold
      remediation := "Reroute traffic from " ++ r.regionId ++ " or scale capacity"
      detectedAt := ts }

def gpuOverheating (ts : ℚ) (r : RegionEntry) : List Anomaly :=
  if d.gpuTempThreshold < r.gpuTempC then
    [{anomalyId := anomalyId "gpu-temp" r.regionId ts
      anomalyType := .gpuDegradation
      severity := if 95 < r.gpuTempC then .critical else .high
      score := min (r.gpuTempC/100) (3/2)
      regionId := r.regionId
      description := "GPU overheating in " ++ r.regionId ++ ": " ++ formatWhole r.gpuTempC ++ "C"
      metricName := "gpu_temp_c"
      metricValue := r.gpuTempC
      threshold := d.gpuTempThreshold
      remediation := "Throttle workloads in " ++ r.regionId ++ " and redistribute"
      detectedAt := ts }]
  else []

def memoryLeak (ts : ℚ) (r : RegionEntry) : Option (List Anomaly) :=
  scored (d.memoryGrowthThreshold < r.memoryGrowthRate) r.memoryGrowthRate
    d.memoryGrowthThreshold fun score =>
    { anomalyId := anomalyId "memleak" r.regionId ts
      anomalyType := .memoryLeak
      severity := .high
      score := min score 2
      regionId := r.regionId
      description := "Possible memory leak in " ++ r.regionId ++ ": " ++
        formatWhole (r.memoryGrowthRate*100) ++ "% growth"
      metricName := "memory_growth_rate"
      metricValue := r.memoryGrowthRate
      threshold := d.memoryGrowthThreshold
      remediation := "Investigate and restart leaking services in " ++ r.regionId
      detectedAt := ts }

/-- The check of the traffic, once it is recorded. -/
def trafficSpike (ts : ℚ) (r : RegionEntry) : List Anomaly :=
  if d.isAnomalous (rpsKey r.regionId) r.requestsPerSecond d.trafficSpikeFactor then
    [{anomalyId := anomalyId "traffic" r.regionId ts
      anomalyType := .suspiciousTraffic
      severity := .medium
      score := min (r.requestsPerSecond/1000) (3/2)
      regionId := r.regionId
      description :=
        "Traffic anomaly in " ++ r.regionId ++ ": " ++ formatWhole r.requestsPerSecond ++ " rps"
      metricName := "requests_per_second"
      metricValue := r.requestsPerSecond
      remediation := "Rate limit or investigate traffic to " ++ r.regionId
      detectedAt := ts }]
  else []

def replicationLag (ts : ℚ) (r : RegionEntry) : Option (List Anomaly) :=
  scored (d.replicationLagThreshold < r.replicationLagS) r.replicationLagS
    d.replicationLagThreshold fun score =>
    { anomalyId := anomalyId "repl-lag" r.regionId ts
      anomalyType := .replicationAnomaly
      severity := .high
      score := min score 2
      regionId := r.regionId
      description :=
        "Replication lag in " ++ r.regionId ++ ": " ++ formatFixed 1 r.replicationLagS ++ "s"
      metricName := "replication_lag_s"
      metricValue := r.replicationLagS
      threshold := d.replicationLagThreshold
      remediation := "Check replication health for " ++ r.regionId
      detectedAt := ts }

/-- One turn of the loop over the regions. After an exception nothing more is recorded. -/
def detectRegion (ts : ℚ) (r : RegionEntry) : AnomalyDetector × Option (List Anomaly) :=
  let seen := d.recordMetric (latencyKey r.regionId) r.avgLatencyMs
  match seen.latencySpike ts r, seen.memoryLeak ts r with
  | some spike, some leak =>
    let seen := seen.recordMetric (rpsKey r.regionId) r.requestsPerSecond
    (seen,(seen.replicationLag ts r).map fun lag =>
      spike ++ seen.gpuOverheating ts r ++ leak ++ seen.trafficSpike ts r ++ lag)
  | _, _ => (seen,none)

/-- The loop over the regions. -/
def detectRegions (ts : ℚ) (d : AnomalyDetector) :
    List RegionEntry → AnomalyDetector × Option (List Anomaly)
  | [] => (d,some [])
  | r :: rest =>
    match d.detectRegion ts r with
    | (seen,none) => (seen,none)
    | (seen,some found) =>
      let next := detectRegions ts seen rest
      (next.1,next.2.map (found ++ ·))

/-- One turn of the loop over the nodes. -/
def detectNode (ts : ℚ) (n : NodeEntry) : List Anomaly :=
  (if 3 < n.restartCount1h then
    [{anomalyId := anomalyId "unstable" n.nodeId ts
      anomalyType := .nodeInstability
      severity := .high
      score := min (n.restartCount1h/5) 2
      nodeId := n.nodeId
      description :=
        "Node " ++ n.nodeId ++ " restarted " ++ toString n.restartCount1h ++ " times in 1h"
      metricName := "restart_count_1h"
      metricValue := n.restartCount1h
      threshold := 3
      remediation := "Investigate and potentially replace node " ++ n.nodeId
      detectedAt := ts }]
  else []) ++
  if 95/100 < n.cpuUsage then
    [{anomalyId := anomalyId "runaway" n.nodeId ts
      anomalyType := .runawayWorkload
      severity := .high
      score := n.cpuUsage
      nodeId := n.nodeId
      description :=
        "Runaway workload on " ++ n.nodeId ++ ": CPU at " ++ formatWhole (n.cpuUsage*100) ++ "%"
      metricName := "cpu_usage"
      metricValue := n.cpuUsage
      threshold := 95/100
      remediation := "Kill or throttle runaway process on " ++ n.nodeId
      detectedAt := ts }]
  else []

/-- What `detect` keeps of the anomalies that it found. -/
def keep (found : List Anomaly) : AnomalyDetector :=
  { d with
    anomalies := truncated d.maxHistory (d.anomalies ++ found)
    totalDetected := d.totalDetected+found.length
    events := truncated d.maxHistory (d.events ++ found.map Anomaly.event) }

/-- `detect`: `none` stands for an exception. -/
def detect (ts : ℚ) (telemetry : Telemetry) : AnomalyDetector × Option (List Anomaly) :=
  let seen := d.detectRegions ts telemetry.regions
  match seen.2 with
  | none => seen
  | some found =>
    let found := found ++ telemetry.nodes.flatMap (detectNode ts)
    (seen.1.keep found,some found)

end AnomalyDetector
end Arsonist.Intelligence
