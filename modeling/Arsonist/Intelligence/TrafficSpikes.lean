import Arsonist.Intelligence.AnomalyDetector

/-! Which spikes of traffic are detected. A value is compared with a mean and a standard deviation
that it enters itself, so whether it can stand out depends on how many values there are. -/
namespace Arsonist.Intelligence
open Arsonist.Library

theorem rpsKey_inj {a b : String} : rpsKey a = rpsKey b ↔ a = b := String.append_right_inj _

theorem latencyKey_ne_rpsKey (a b : String) : latencyKey a ≠ rpsKey b := by
  intro h
  have hl := congrArg (fun s : String => s.toList.head?) h
  simp only [latencyKey, rpsKey, String.toList_append] at hl
  exact absurd (Option.some.inj hl) (by decide)

theorem scored_of_ne {found : Prop} [Decidable found] {x y : ℚ} {anomaly : ℚ → Anomaly}
    {P : Anomaly → Prop} (h : y ≠ 0) (hP : ∀ score, P (anomaly score)) :
    ∃ l, scored found x y anomaly = some l ∧ ∀ a ∈ l, P a := by
  rw [scored, ratio, if_neg h]
  split_ifs
  · refine ⟨[anomaly (x/y)],rfl,fun a ha => ?_⟩
    rw [List.mem_singleton.mp ha]
    exact hP _
  · exact ⟨[],rfl,fun a ha => absurd ha List.not_mem_nil⟩

theorem scored_of_zero {found : Prop} [Decidable found] {x y : ℚ} {anomaly : ℚ → Anomaly}
    (h : y = 0) (hfound : found) : scored found x y anomaly = none := by
  rw [scored, if_pos hfound, ratio, if_pos h]
  rfl

namespace AnomalyDetector
variable {d : AnomalyDetector}

theorem values_recordMetric (key : String) (value : ℚ) (k : String) :
    (d.recordMetric key value).values k =
      if k = key then truncated 200 (d.values key ++ [value]) else d.values k := by
  rw [values, recordMetric, Table.get?_put]
  by_cases h : k = key
  · rw [if_pos (show k = Keyed.key (Series.mk key _) from h), if_pos h]
    rfl
  · rw [if_neg (show ¬ k = Keyed.key (Series.mk key _) from h), if_neg h]
    rfl

/-- The values of a region that a new one is compared with. -/
def earlier (d : AnomalyDetector) (regionId : String) : List ℚ :=
  (d.values (rpsKey regionId)).rtake 199

/-- The detector when the traffic of a region is checked. -/
def seen (d : AnomalyDetector) (r : RegionEntry) : AnomalyDetector :=
  (d.recordMetric (latencyKey r.regionId) r.avgLatencyMs).recordMetric (rpsKey r.regionId)
    r.requestsPerSecond

theorem values_seen_self (r : RegionEntry) :
    (d.seen r).values (rpsKey r.regionId) = d.earlier r.regionId ++ [r.requestsPerSecond] := by
  rw [seen, values_recordMetric, if_pos rfl, values_recordMetric,
    if_neg (latencyKey_ne_rpsKey _ _).symm]
  have hcut := truncated_eq_rtake (n := 200) (by omega)
    (d.values (rpsKey r.regionId) ++ [r.requestsPerSecond])
  rw [earlier, ← List.rtake_concat_succ]
  exact hcut

theorem values_seen_of_ne {r : RegionEntry} {regionId : String} (h : r.regionId ≠ regionId) :
    (d.seen r).values (rpsKey regionId) = d.values (rpsKey regionId) := by
  rw [seen, values_recordMetric, if_neg (fun he => h (rpsKey_inj.mp he).symm),
    values_recordMetric, if_neg (latencyKey_ne_rpsKey _ _).symm]

/-- None of the thresholds by which a score is divided is zero. -/
def Divides (d : AnomalyDetector) : Prop :=
  d.latencyThreshold ≠ 0 ∧ d.memoryGrowthThreshold ≠ 0 ∧ d.replicationLagThreshold ≠ 0

theorem mem_gpuOverheating {ts : ℚ} {r : RegionEntry} {a : Anomaly}
    (h : a ∈ d.gpuOverheating ts r) : a.anomalyType = .gpuDegradation := by
  rw [gpuOverheating] at h
  by_cases ht : d.gpuTempThreshold < r.gpuTempC
  · rw [if_pos ht] at h
    rw [List.mem_singleton.mp h]
  · rw [if_neg ht] at h
    exact absurd h List.not_mem_nil

theorem exists_latencySpike (h : d.latencyThreshold ≠ 0) (ts : ℚ) (r : RegionEntry) :
    ∃ l, d.latencySpike ts r = some l ∧ ∀ a ∈ l, a.anomalyType = .latencySpike := by
  rw [latencySpike]
  exact scored_of_ne h fun _ => rfl

theorem exists_memoryLeak (h : d.memoryGrowthThreshold ≠ 0) (ts : ℚ) (r : RegionEntry) :
    ∃ l, d.memoryLeak ts r = some l ∧ ∀ a ∈ l, a.anomalyType = .memoryLeak := by
  rw [memoryLeak]
  exact scored_of_ne h fun _ => rfl

theorem exists_replicationLag (h : d.replicationLagThreshold ≠ 0) (ts : ℚ) (r : RegionEntry) :
    ∃ l, d.replicationLag ts r = some l ∧ ∀ a ∈ l, a.anomalyType = .replicationAnomaly := by
  rw [replicationLag]
  exact scored_of_ne h fun _ => rfl

theorem latencySpike_eq_none (h : d.latencyThreshold = 0) (ts : ℚ) {r : RegionEntry}
    (hr : 0 < r.avgLatencyMs) : d.latencySpike ts r = none := by
  rw [latencySpike]
  exact scored_of_zero h (Or.inl (h.trans_lt hr))

theorem memoryLeak_eq_none (h : d.memoryGrowthThreshold = 0) (ts : ℚ) {r : RegionEntry}
    (hr : 0 < r.memoryGrowthRate) : d.memoryLeak ts r = none := by
  rw [memoryLeak]
  exact scored_of_zero h (h.trans_lt hr)

theorem replicationLag_eq_none (h : d.replicationLagThreshold = 0) (ts : ℚ) {r : RegionEntry}
    (hr : 0 < r.replicationLagS) : d.replicationLag ts r = none := by
  rw [replicationLag]
  exact scored_of_zero h (h.trans_lt hr)

/-- What is found in an entry besides a spike of traffic is of another kind. -/
theorem exists_detectRegion (h : d.Divides) (ts : ℚ) (r : RegionEntry) :
    ∃ p q, d.detectRegion ts r = (d.seen r,some (p ++ (d.seen r).trafficSpike ts r ++ q)) ∧
      ∀ a ∈ p ++ q, a.anomalyType ≠ .suspiciousTraffic := by
  obtain ⟨hlatency,hmemory,hlag⟩ := h
  obtain ⟨spike,hspike,hs⟩ := exists_latencySpike
    (d := d.recordMetric (latencyKey r.regionId) r.avgLatencyMs) hlatency ts r
  obtain ⟨leak,hleak,hl⟩ := exists_memoryLeak
    (d := d.recordMetric (latencyKey r.regionId) r.avgLatencyMs) hmemory ts r
  obtain ⟨lag,hlate,hr⟩ := exists_replicationLag (d := d.seen r) hlag ts r
  refine ⟨spike ++ (d.seen r).gpuOverheating ts r ++ leak,lag,?_,?_⟩
  · rw [seen] at hlate ⊢
    rw [detectRegion]
    dsimp only
    rw [hspike, hleak]
    dsimp only
    rw [hlate]
    rfl
  · intro a ha
    simp only [List.mem_append] at ha
    obtain ((ha | ha) | ha) | ha := ha
    · rw [hs a ha]
      nofun
    · rw [mem_gpuOverheating ha]
      nofun
    · rw [hl a ha]
      nofun
    · rw [hr a ha]
      nofun

theorem exists_detectRegions (h : d.Divides) (ts : ℚ) (regions : List RegionEntry) :
    ∃ found, (detectRegions ts d regions).2 = some found := by
  induction regions generalizing d with
  | nil => exact ⟨[],rfl⟩
  | cons r rest ih =>
    obtain ⟨p,q,hr,-⟩ := exists_detectRegion h ts r
    obtain ⟨found,hfound⟩ := ih (d := d.seen r) h
    rw [detectRegions, hr]
    dsimp only
    rw [hfound]
    exact ⟨_,rfl⟩

/-- Entries of other regions do not change what the value of a region is compared with. -/
theorem exists_trafficSpike (h : d.Divides) (ts : ℚ) {before : List RegionEntry} {r : RegionEntry}
    (hb : ∀ b ∈ before, b.regionId ≠ r.regionId) (after : List RegionEntry) :
    ∃ e : AnomalyDetector, e.earlier r.regionId = d.earlier r.regionId ∧
      e.trafficSpikeFactor = d.trafficSpikeFactor ∧
      ∃ found, (detectRegions ts d (before ++ r :: after)).2 = some found ∧
        (e.seen r).trafficSpike ts r ⊆ found := by
  induction before generalizing d with
  | nil =>
    refine ⟨d,rfl,rfl,?_⟩
    obtain ⟨p,q,hr,-⟩ := exists_detectRegion h ts r
    obtain ⟨found,hfound⟩ := exists_detectRegions (d := d.seen r) h ts after
    rw [List.nil_append, detectRegions, hr]
    dsimp only
    rw [hfound]
    refine ⟨_,rfl,?_⟩
    exact fun a ha => List.mem_append_left _ (List.mem_append_left _ (List.mem_append_right _ ha))
  | cons b before ih =>
    have hne := hb b List.mem_cons_self
    obtain ⟨e,he,hf,found,hfound,hsub⟩ := ih (d := d.seen b) h fun c hc =>
      hb c (List.mem_cons_of_mem b hc)
    refine ⟨e,?_,hf,?_⟩
    · rw [he, earlier, values_seen_of_ne hne, earlier]
    · obtain ⟨p,q,hr,-⟩ := exists_detectRegion h ts b
      rw [List.cons_append, detectRegions, hr]
      dsimp only
      rw [hfound]
      exact ⟨_,rfl,fun a ha => List.mem_append_right _ (hsub ha)⟩

section Earlier
variable {regionId : String} (h : 4 ≤ (d.values (rpsKey regionId)).length)
include h

theorem length_earlier :
    (d.earlier regionId).length = min (d.values (rpsKey regionId)).length 199 := by
  rw [earlier, List.rtake, List.length_drop]
  omega

theorem four_le_length_earlier : 4 ≤ (d.earlier regionId).length := by
  rw [earlier, List.rtake, List.length_drop]
  omega

theorem earlier_ne_nil : d.earlier regionId ≠ [] := by
  have hlen := four_le_length_earlier h
  rintro hnil
  rw [hnil] at hlen
  contradiction

end Earlier

/-- The check of the traffic, by the values before it. -/
theorem isAnomalous_seen_iff {r : RegionEntry} (h : 4 ≤ (d.earlier r.regionId).length)
    (factor : ℚ) :
    (d.seen r).isAnomalous (rpsKey r.regionId) r.requestsPerSecond factor ↔
      variance (d.earlier r.regionId ++ [r.requestsPerSecond]) ≠ 0 ∧
        ExceedsRoot factor (variance (d.earlier r.regionId ++ [r.requestsPerSecond]))
          |r.requestsPerSecond-mean (d.earlier r.regionId ++ [r.requestsPerSecond])| := by
  have hlen : ¬ (d.earlier r.regionId ++ [r.requestsPerSecond]).length < 5 := by
    rw [List.length_append, List.length_singleton]
    omega
  rw [isAnomalous, stddev, values_seen_self, if_neg hlen]

/-- The anomalies of a region of the kind that a spike of traffic is reported as. -/
def ReportsSpike (found : List Anomaly) (r : RegionEntry) : Prop :=
  ∃ a ∈ found, a.anomalyType = .suspiciousTraffic ∧ a.regionId = r.regionId ∧
    a.metricValue = r.requestsPerSecond

theorem reportsSpike_trafficSpike (ts : ℚ) {r : RegionEntry} {found : List Anomaly}
    (h : d.isAnomalous (rpsKey r.regionId) r.requestsPerSecond d.trafficSpikeFactor)
    (hsub : d.trafficSpike ts r ⊆ found) : ReportsSpike found r := by
  rw [trafficSpike, if_pos h] at hsub
  exact ⟨_,hsub List.mem_cons_self,rfl,rfl,rfl⟩

/-- Each next value of a region above a bound is reported. -/
def ReportsAbove (d : AnomalyDetector) (regionId : String) (bound : ℚ) : Prop :=
  ∀ (ts : ℚ) (telemetry : Telemetry) (before : List RegionEntry) (r : RegionEntry)
    (after : List RegionEntry), telemetry.regions = before ++ r :: after →
    (∀ b ∈ before, b.regionId ≠ regionId) → r.regionId = regionId →
    bound < r.requestsPerSecond → ∃ found, (d.detect ts telemetry).2 = some found ∧
      ReportsSpike found r

theorem detect_snd {ts : ℚ} {telemetry : Telemetry} {found : List Anomaly}
    (h : (d.detectRegions ts telemetry.regions).2 = some found) :
    (d.detect ts telemetry).2 = some (found ++ telemetry.nodes.flatMap (detectNode ts)) := by
  rw [detect]
  dsimp only
  rw [h]

theorem exists_reportsAbove {regionId : String}
    (h : 4 ≤ (d.values (rpsKey regionId)).length) (hd : d.Divides)
    (hf : d.trafficSpikeFactor < 0 ∨
      d.trafficSpikeFactor^2 < (min (d.values (rpsKey regionId)).length 199 : ℕ)) :
    ∃ bound, d.ReportsAbove regionId bound := by
  rw [← length_earlier h] at hf
  refine ⟨max (mean (d.earlier regionId)) (farBound d.trafficSpikeFactor (d.earlier regionId)),?_⟩
  intro ts telemetry before r after hregions hbefore hr hbound
  subst hr
  obtain ⟨hmean,hfar⟩ := max_lt_iff.mp hbound
  obtain ⟨e,he,hfactor,found,hfound,hsub⟩ := exists_trafficSpike hd ts hbefore after
  rw [← hregions] at hfound
  refine ⟨_,detect_snd hfound,?_⟩
  have hnil := earlier_ne_nil h
  have hlen : 4 ≤ (e.earlier r.regionId).length := by
    rw [he]
    exact four_le_length_earlier h
  have hanomalous : (e.seen r).isAnomalous (rpsKey r.regionId) r.requestsPerSecond
      (e.seen r).trafficSpikeFactor := by
    rw [isAnomalous_seen_iff hlen, he]
    refine ⟨(variance_concat_pos hnil hmean.ne').ne',?_⟩
    have hseen : (e.seen r).trafficSpikeFactor = d.trafficSpikeFactor := hfactor
    rw [hseen]
    exact exceedsRoot_concat hnil hf hmean fun _ => hfar
  exact reportsSpike_trafficSpike ts hanomalous fun a ha => List.mem_append_left _ (hsub ha)

/-- An entry over a threshold that is zero stops the detection. -/
theorem detectRegion_of_not_divides (h : ¬ d.Divides) (ts : ℚ) {r : RegionEntry}
    (hlatency : 0 < r.avgLatencyMs) (hmemory : 0 < r.memoryGrowthRate)
    (hlag : 0 < r.replicationLagS) : (d.detectRegion ts r).2 = none := by
  rw [detectRegion]
  dsimp only
  split
  · next spike leak hspike hleak =>
    have hl : d.latencyThreshold ≠ 0 := by
      intro hzero
      have hnone := hspike.symm.trans
        (latencySpike_eq_none (d := d.recordMetric _ _) hzero ts hlatency)
      cases hnone
    have hm : d.memoryGrowthThreshold ≠ 0 := by
      intro hzero
      have hnone := hleak.symm.trans
        (memoryLeak_eq_none (d := d.recordMetric _ _) hzero ts hmemory)
      cases hnone
    have hg : d.replicationLagThreshold = 0 := by
      by_contra hg
      exact h ⟨hl,hm,hg⟩
    rw [Option.map_eq_none_iff]
    exact replicationLag_eq_none hg ts hlag
  · rfl

theorem detect_singleton (ts : ℚ) (r : RegionEntry) :
    (d.detect ts ⟨[r],[]⟩).2 = (d.detectRegion ts r).2 := by
  rw [detect, detectRegions]
  dsimp only
  cases hr : d.detectRegion ts r with
  | mk seen found =>
    cases found with
    | none => rfl
    | some found => simp [detectRegions]

theorem divides_of_reportsAbove {regionId : String} {bound : ℚ}
    (h : d.ReportsAbove regionId bound) : d.Divides := by
  by_contra hd
  let r : RegionEntry := ⟨regionId,1,0,1,bound+1,1⟩
  obtain ⟨found,hfound,-⟩ := h 0 ⟨[r],[]⟩ [] r [] rfl nofun rfl (lt_add_one bound)
  rw [detect_singleton, detectRegion_of_not_divides hd 0 one_pos one_pos one_pos] at hfound
  cases hfound

/-- With a factor that is too high for so few values no spike of traffic is ever reported. -/
theorem not_reportsAbove {regionId : String} (h : 4 ≤ (d.values (rpsKey regionId)).length)
    (hf : 0 ≤ d.trafficSpikeFactor)
    (hle : (min (d.values (rpsKey regionId)).length 199 : ℕ) ≤ d.trafficSpikeFactor^2)
    (bound : ℚ) : ¬ d.ReportsAbove regionId bound := by
  intro habove
  let r : RegionEntry := { regionId := regionId, requestsPerSecond := bound+1 }
  obtain ⟨found,hfound,a,ha,htype,-⟩ :=
    habove 0 ⟨[r],[]⟩ [] r [] rfl nofun rfl (lt_add_one bound)
  obtain ⟨p,q,hr,hother⟩ := exists_detectRegion (divides_of_reportsAbove habove) 0 r
  rw [← length_earlier h] at hle
  have hquiet : ¬ (d.seen r).isAnomalous (rpsKey r.regionId) r.requestsPerSecond
      (d.seen r).trafficSpikeFactor := by
    rw [isAnomalous_seen_iff (four_le_length_earlier h)]
    exact fun hall => not_exceedsRoot_concat hf (earlier_ne_nil h) hle _ hall.2
  rw [detect_singleton, hr, trafficSpike, if_neg hquiet, List.append_nil] at hfound
  obtain rfl := Option.some.inj hfound
  exact hother a ha htype

/-- All values of a region above some bound are reported exactly if none of the thresholds by which
is divided is zero, and the factor is negative or less than the square root of the number of the
values before. -/
theorem spikes_reported_iff {regionId : String}
    (h : 4 ≤ (d.values (rpsKey regionId)).length) :
    (∃ bound, d.ReportsAbove regionId bound) ↔
      d.Divides ∧ (d.trafficSpikeFactor < 0 ∨
        d.trafficSpikeFactor^2 < (min (d.values (rpsKey regionId)).length 199 : ℕ)) := by
  constructor
  · rintro ⟨bound,habove⟩
    refine ⟨divides_of_reportsAbove habove,?_⟩
    by_contra hno
    rw [not_or, not_lt, not_lt] at hno
    exact not_reportsAbove h hno.1 hno.2 bound habove
  · rintro ⟨hd,hf⟩
    exact exists_reportsAbove h hd hf

/-- A detector that has seen four values of one region. -/
def afterFour (factor : ℚ) : AnomalyDetector :=
  { trafficSpikeFactor := factor
    metricHistory := Table.empty.put ⟨rpsKey "eu",[100,102,98,100]⟩ }

theorem spikes_reported_iff_four :
    4 ≤ ((afterFour (3/2)).values (rpsKey "eu")).length ∧
      ((∃ bound, (afterFour (3/2)).ReportsAbove "eu" bound) ↔
        (afterFour (3/2)).Divides ∧ ((afterFour (3/2)).trafficSpikeFactor < 0 ∨
          (afterFour (3/2)).trafficSpikeFactor^2 <
            (min ((afterFour (3/2)).values (rpsKey "eu")).length 199 : ℕ))) :=
  ⟨by decide +kernel,spikes_reported_iff (by decide +kernel)⟩

/-- With the default factor no fifth value is reported, however high it is. -/
theorem spikes_unreported :
    ¬ ∀ (d : AnomalyDetector) (regionId : String), 4 ≤ (d.values (rpsKey regionId)).length →
      ∃ bound, d.ReportsAbove regionId bound := by
  intro h
  have hlen : ((afterFour 3).values (rpsKey "eu")).length = 4 := by decide +kernel
  obtain ⟨bound,habove⟩ := h (afterFour 3) "eu" hlen.ge
  refine not_reportsAbove hlen.ge (by decide +kernel) ?_ bound habove
  rw [hlen]
  change ((4 : ℕ) : ℚ) ≤ 3^2
  norm_num

end AnomalyDetector
end Arsonist.Intelligence
