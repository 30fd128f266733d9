import Arsonist.Library.History
import Arsonist.Library.Keyed
import Arsonist.Library.Runs
import Arsonist.Library.Selection

/-! The bandwidths measured between regions, and the relay that is chosen by them. A bandwidth is
the exponentially smoothed average of what was recorded for the link. -/
namespace Arsonist.Networking
open Arsonist.Library

/-- The bandwidth of a link. -/
structure Link where
  source : String
  target : String
  mbps : ℚ
  deriving DecidableEq

instance : Keyed Link (String × String) := ⟨fun link => (link.source,link.target)⟩

structure BandwidthMeasurement where
  source : String
  target : String
  bandwidthMbps : ℚ
  ts : ℚ
  deriving DecidableEq

structure BandwidthOptimizer where
  alpha : ℚ := 3/10
  measurements : Table Link := Table.empty
  history : List BandwidthMeasurement := []

namespace BandwidthOptimizer

/-- `get_bandwidth`. -/
def getBandwidth (o : BandwidthOptimizer) (source target : String) : Option ℚ :=
  (o.measurements.get? (source,target)).map Link.mbps

/-- What a new value makes of an average. -/
def smoothed (alpha : ℚ) (prev : Option ℚ) (mbps : ℚ) : ℚ :=
  match prev with
  | some p => p*(1-alpha)+mbps*alpha
  | none => mbps

/-- `record_bandwidth`; the measurement comes with the time at which it is made. -/
def recordBandwidth (o : BandwidthOptimizer) (m : BandwidthMeasurement) : BandwidthOptimizer :=
  { o with
    measurements := o.measurements.put
      ⟨m.source,m.target,smoothed o.alpha (o.getBandwidth m.source m.target) m.bandwidthMbps⟩
    history := truncated 1000 (o.history ++ [m]) }

section BestPath
variable (o : BandwidthOptimizer) (source target : String)

/-- One turn of the loop in `best_path`. -/
def considerMid (best : Option String × ℚ) (mid : String) : Option String × ℚ :=
  match o.getBandwidth source mid, o.getBandwidth mid target with
  | some bw1, some bw2 =>
    let effective := min bw1 bw2
    if best.2 < effective then (some mid,effective) else best
  | _, _ => best

/-- `best_path`. -/
def bestPath (candidates : List String) : Option String :=
  let best := candidates.foldl (o.considerMid source target) (none,0)
  match o.getBandwidth source target with
  | some direct => if best.2 ≤ direct then none else best.1
  | none => best.1

/-- The bandwidth of a transfer through a relay, where both of its legs are measured. -/
def effective (mid : String) : Option ℚ :=
  match o.getBandwidth source mid, o.getBandwidth mid target with
  | some bw1, some bw2 => some (min bw1 bw2)
  | _, _ => none

/-- A relay than which none is better, and which is better than the direct link. -/
def IsBestRelay (candidates : List String) (mid : String) : Prop :=
  ∃ bw, IsHighest (o.effective source target) 0 candidates mid bw ∧
    ∀ direct, o.getBandwidth source target = some direct → direct < bw

end BestPath

/-- The average of the values that were recorded for a link. -/
def average (alpha : ℚ) (values : List ℚ) : Option ℚ :=
  values.foldl (fun prev mbps => some (smoothed alpha prev mbps)) none

/-- The values that were recorded for a link. -/
def recorded (calls : List BandwidthMeasurement) (source target : String) : List ℚ :=
  (calls.filter fun m => m.source = source ∧ m.target = target).map
    BandwidthMeasurement.bandwidthMbps

/-- An optimizer after some calls of `record_bandwidth`. -/
def ofCalls (alpha : ℚ) (calls : List BandwidthMeasurement) : BandwidthOptimizer :=
  run recordBandwidth { alpha := alpha } calls

theorem average_concat (alpha : ℚ) (values : List ℚ) (mbps : ℚ) :
    average alpha (values ++ [mbps]) = some (smoothed alpha (average alpha values) mbps) := by
  rw [average, List.foldl_concat, average]

theorem ofCalls_concat (alpha : ℚ) (calls : List BandwidthMeasurement) (m : BandwidthMeasurement) :
    ofCalls alpha (calls ++ [m]) = (ofCalls alpha calls).recordBandwidth m := run_concat _ _ _

theorem ofCalls_alpha (alpha : ℚ) (calls : List BandwidthMeasurement) :
    (ofCalls alpha calls).alpha = alpha :=
  by
  refine run_always (I := fun o : BandwidthOptimizer => o.alpha = alpha) (fun o m h => ?_) rfl calls
  exact h

theorem getBandwidth_recordBandwidth (o : BandwidthOptimizer) (m : BandwidthMeasurement)
    (source target : String) :
    (o.recordBandwidth m).getBandwidth source target =
      if m.source = source ∧ m.target = target then
        some (smoothed o.alpha (o.getBandwidth source target) m.bandwidthMbps)
      else o.getBandwidth source target := by
  rw [getBandwidth, recordBandwidth, Table.get?_put]
  by_cases h : m.source = source ∧ m.target = target
  · obtain ⟨rfl,rfl⟩ := h
    rw [if_pos (show (m.source,m.target) = Keyed.key (Link.mk m.source m.target _) from rfl),
      if_pos ⟨rfl,rfl⟩]
    rfl
  · rw [if_neg h, if_neg, getBandwidth]
    intro he
    obtain ⟨hs,ht⟩ := Prod.mk.inj he
    exact h ⟨hs.symm,ht.symm⟩

/-- A bandwidth is the average of what was recorded for its link, whatever was recorded for the
others in between. -/
theorem getBandwidth_ofCalls (alpha : ℚ) (calls : List BandwidthMeasurement)
    (source target : String) :
    (ofCalls alpha calls).getBandwidth source target =
      average alpha (recorded calls source target) := by
  induction calls using List.reverseRecOn with
  | nil => rfl
  | append_singleton calls m ih =>
    rw [ofCalls_concat, getBandwidth_recordBandwidth, ofCalls_alpha, ih, recorded, recorded,
      List.filter_append, List.map_append]
    by_cases h : m.source = source ∧ m.target = target
    · rw [if_pos h, List.filter_cons_of_pos (by simpa using h)]
      exact (average_concat alpha _ _).symm
    · rw [if_neg h, List.filter_cons_of_neg (by simpa using h), List.filter_nil, List.map_nil,
        List.append_nil]

/-- With a factor between zero and one, an average lies between the values that it is made of. -/
theorem average_between {alpha lo hi : ℚ} (h₀ : 0 ≤ alpha) (h₁ : alpha ≤ 1) (values : List ℚ)
    (hv : ∀ v ∈ values, lo ≤ v ∧ v ≤ hi) :
    ∀ x, average alpha values = some x → lo ≤ x ∧ x ≤ hi := by
  induction values using List.reverseRecOn with
  | nil => exact fun x hx => nomatch hx
  | append_singleton values v ih =>
    intro x hx
    have hold := ih fun w hw => hv w (List.mem_append_left _ hw)
    obtain ⟨hlo,hhi⟩ := hv v (List.mem_append_right _ (List.mem_singleton_self v))
    rw [average_concat] at hx
    obtain rfl := Option.some.inj hx
    cases hp : average alpha values with
    | none => exact ⟨hlo,hhi⟩
    | some p =>
      obtain ⟨hplo,hphi⟩ := hold p hp
      constructor
      · change lo ≤ p*(1-alpha)+v*alpha
        nlinarith
      · change p*(1-alpha)+v*alpha ≤ hi
        nlinarith

section BestPath
variable (o : BandwidthOptimizer) (source target : String)

theorem considerMid_eq_challenge :
    o.considerMid source target = challenge (o.effective source target) := by
  funext best mid
  rw [considerMid, challenge, effective]
  cases o.getBandwidth source mid with
  | none => rfl
  | some bw1 =>
    cases o.getBandwidth mid target with
    | none => rfl
    | some bw2 => rfl

theorem bestPath_eq (candidates : List String) :
    o.bestPath source target candidates =
      match o.getBandwidth source target with
      | some direct =>
        if (champion (o.effective source target) 0 candidates).2 ≤ direct then none
        else (champion (o.effective source target) 0 candidates).1
      | none => (champion (o.effective source target) 0 candidates).1 := by
  rw [bestPath, considerMid_eq_challenge]
  rfl

variable {o source target} {candidates : List String} {mid : String}

/-- The highest bandwidth has to be compared with that of the direct link only. -/
theorem bestPath_eq_some_iff :
    o.bestPath source target candidates = some mid ↔
      (champion (o.effective source target) 0 candidates).1 = some mid ∧
        ∀ direct, o.getBandwidth source target = some direct →
          direct < (champion (o.effective source target) 0 candidates).2 := by
  rw [bestPath_eq]
  cases o.getBandwidth source target with
  | none => simp
  | some direct =>
    simp only [Option.some.injEq, forall_eq']
    split_ifs with h
    · exact iff_of_false nofun fun hlt => h.not_gt hlt.2
    · exact (and_iff_left (not_le.mp h)).symm

/-- The bandwidth of a best relay is the running maximum. -/
theorem IsBestRelay.lt_champion (h : o.IsBestRelay source target candidates mid)
    (hmem : mid ∈ candidates) :
    o.effective source target mid =
        some (champion (o.effective source target) 0 candidates).2 ∧
      0 < (champion (o.effective source target) 0 candidates).2 ∧
      ∀ direct, o.getBandwidth source target = some direct →
        direct < (champion (o.effective source target) 0 candidates).2 := by
  obtain ⟨bw,⟨hbw,hpos,hle⟩,hdirect⟩ := h
  have hmax := score_le_champion (o.effective source target) 0 candidates mid hmem bw hbw
  cases hc : (champion (o.effective source target) 0 candidates).1 with
  | none =>
    rw [champion_eq_floor _ hc] at hmax
    exact absurd hmax hpos.not_ge
  | some a =>
    obtain ⟨p,q,hl,hscore,-,-⟩ := champion_first _ hc
    have hbw' : bw = (champion (o.effective source target) 0 candidates).2 :=
      le_antisymm hmax (hle a (by rw [hl]; exact List.mem_append_cons_self) _ hscore)
    rw [← hbw']
    exact ⟨hbw,hpos,hdirect⟩

theorem first_of_bestPath (h : o.bestPath source target candidates = some mid) :
    ∃ p q, candidates = p ++ mid :: q ∧ o.IsBestRelay source target candidates mid ∧
      ∀ c ∈ p, ¬ o.IsBestRelay source target candidates c := by
  obtain ⟨hmid,hdirect⟩ := bestPath_eq_some_iff.mp h
  obtain ⟨p,q,hl,-,-,hfirst⟩ := champion_first _ hmid
  refine ⟨p,q,hl,⟨_,champion_isHighest _ hmid,hdirect⟩,?_⟩
  intro c hc hbest
  have hmem : c ∈ candidates := hl ▸ List.mem_append_left _ hc
  exact (hfirst c hc _ (hbest.lt_champion hmem).1).false

theorem not_isBestRelay_of_bestPath (h : o.bestPath source target candidates = none) :
    ∀ c ∈ candidates, ¬ o.IsBestRelay source target candidates c := by
  intro c hc hbest
  obtain ⟨-,hpos,hdirect⟩ := hbest.lt_champion hc
  obtain ⟨a,ha⟩ := Option.ne_none_iff_exists'.mp fun hnone =>
    hpos.ne' (champion_eq_floor (o.effective source target) hnone)
  rw [bestPath_eq_some_iff.mpr ⟨ha,hdirect⟩] at h
  cases h

open Classical in
/-- What is returned is the first of the best relays. -/
theorem bestPath_eq_find? (o : BandwidthOptimizer) (source target : String)
    (candidates : List String) :
    o.bestPath source target candidates =
      candidates.find? fun c => o.IsBestRelay source target candidates c := by
  symm
  cases h : o.bestPath source target candidates with
  | none =>
    rw [List.find?_eq_none]
    intro c hc
    rw [decide_eq_true_iff]
    exact not_isBestRelay_of_bestPath h c hc
  | some mid =>
    obtain ⟨p,q,hl,hbest,hfirst⟩ := first_of_bestPath h
    rw [List.find?_eq_some_iff_append]
    refine ⟨decide_eq_true hbest,p,q,hl,?_⟩
    intro c hc
    rw [Bool.not_eq_true', decide_eq_false_iff_not]
    exact hfirst c hc

end BestPath

/-- For any records the relay that is returned is the first candidate that is best. There is none if
no candidate is. -/
theorem bestPath_ofCalls (alpha : ℚ) (calls : List BandwidthMeasurement) (source target : String)
    (candidates : List String) :
    (∀ s t, (ofCalls alpha calls).getBandwidth s t = average alpha (recorded calls s t)) ∧
      (∀ mid, (ofCalls alpha calls).bestPath source target candidates = some mid ↔
        ∃ p q, candidates = p ++ mid :: q ∧
          (ofCalls alpha calls).IsBestRelay source target candidates mid ∧
          ∀ c ∈ p, ¬ (ofCalls alpha calls).IsBestRelay source target candidates c) ∧
      ((ofCalls alpha calls).bestPath source target candidates = none ↔
        ∀ c ∈ candidates, ¬ (ofCalls alpha calls).IsBestRelay source target candidates c) := by
  classical
  refine ⟨getBandwidth_ofCalls alpha calls,?_,?_⟩
  · intro mid
    constructor
    · exact first_of_bestPath
    · rintro ⟨p,q,hl,hbest,hfirst⟩
      rw [bestPath_eq_find?, List.find?_eq_some_iff_append]
      exact ⟨decide_eq_true hbest,p,q,hl,fun c hc => by simpa using hfirst c hc⟩
  · constructor
    · exact not_isBestRelay_of_bestPath
    · intro h
      rw [bestPath_eq_find?, List.find?_eq_none]
      exact fun c hc => by simpa using h c hc

/-- Two relays with the same bandwidth on all legs. -/
def evenLegs : List BandwidthMeasurement :=
  [⟨"eu","us",50,0⟩,⟨"us","asia",50,0⟩,⟨"eu","me",50,1⟩,⟨"me","asia",50,1⟩]

/-- Of two relays that are equally good the second one is not returned. -/
theorem bestPath_tie :
    ¬ ∀ (alpha : ℚ) (calls : List BandwidthMeasurement), 0 ≤ alpha → alpha ≤ 1 →
      (∀ m ∈ calls, 0 ≤ m.bandwidthMbps) → ∀ source target candidates, ∀ mid ∈ candidates,
        ((ofCalls alpha calls).bestPath source target candidates = some mid ↔
          (ofCalls alpha calls).IsBestRelay source target candidates mid) := by
  intro h
  have hme := h (3/10) evenLegs (by norm_num) (by norm_num) (by decide +kernel) "eu" "asia"
    ["us","me"] "me" (by decide)
  have hpath : (ofCalls (3/10) evenLegs).bestPath "eu" "asia" ["us","me"] = some "us" := by
    decide +kernel
  have hbest : (ofCalls (3/10) evenLegs).IsBestRelay "eu" "asia" ["us","me"] "me" := by
    refine ⟨50,⟨by decide +kernel,by norm_num,by decide +kernel⟩,?_⟩
    intro direct hdirect
    have hnone : (ofCalls (3/10) evenLegs).getBandwidth "eu" "asia" = none := by decide +kernel
    rw [hnone] at hdirect
    cases hdirect
  rw [hme.mpr hbest] at hpath
  revert hpath
  decide

end BandwidthOptimizer
end Arsonist.Networking
