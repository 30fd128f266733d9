import Arsonist.Library.History
import Arsonist.Library.Sums
import Arsonist.Shared.Rounding

/-! The policies of `coordination/adaptive_policies.py`. A pass over the policies evaluates them one
by one without the lock, so that two passes may evaluate the same policy at the same time. -/
namespace Arsonist.Coordination
open Arsonist.Library Arsonist.Shared

inductive PolicyType
  | scaling | routing | failover | energy | carbon | thermal | cost | security
  deriving DecidableEq

inductive PolicyMode
  | conservative | balanced | aggressive | emergency
  deriving DecidableEq

structure AdaptivePolicy where
  policyId : String
  policyType : PolicyType := .scaling
  mode : PolicyMode := .balanced
  enabled : Bool := true
  thresholds : List (String × ℚ) := []
  triggersCount : ℕ := 0
  lastTriggered : ℚ := 0
  lastAdapted : ℚ := 0
  createdAt : ℚ := 0
  deriving DecidableEq

/-- The entry of a region in the telemetry. What it leaves out has its default. -/
structure PolicyRegion where
  regionId : String := ""
  workloadSaturation : ℚ := 0
  avgLatencyMs : ℚ := 0
  status : String := ""
  carbonIntensity : ℚ := 1/2
  thermalPressure : ℚ := 0
  costPerHour : ℚ := 0

/-- What an evaluation that triggers a policy finds, and the mode that it asks for, if any. -/
structure PolicyVerdict where
  reason : String
  action : String
  affectedRegions : Option (List String) := none
  mode : Option PolicyMode := none

structure PolicyEvaluation where
  policyId : String
  modeBefore : PolicyMode
  modeAfter : PolicyMode
  verdict : PolicyVerdict
  ts : ℚ

def average (f : PolicyRegion → ℚ) (regions : List PolicyRegion) : ℚ :=
  (regions.map f).sum/regions.length

namespace AdaptivePolicy
variable (p : AdaptivePolicy)

def threshold (name : String) (default : ℚ) : ℚ := (p.thresholds.lookup name).getD default

def scaling (regions : List PolicyRegion) : Option PolicyVerdict :=
  let avgSat := average PolicyRegion.workloadSaturation regions
  let scaleUp := p.threshold "scale_up" (4/5)
  let scaleDown := p.threshold "scale_down" (3/10)
  if scaleUp < avgSat then
    some { reason := "Avg saturation " ++ formatPercent avgSat ++ " > " ++ formatPercent scaleUp
           action := "scale_up"
           mode := if 19/20 < avgSat then some .emergency else some .aggressive }
  else if avgSat < scaleDown then
    some { reason := "Avg saturation " ++ formatPercent avgSat ++ " < " ++ formatPercent scaleDown
           action := "scale_down"
           mode := some .conservative }
  else none

/-- A policy that compares the average of a quantity with a threshold, and changes no mode. -/
def exceeding (quantity : PolicyRegion → ℚ) (name : String) (default : ℚ) (action : String)
    (reason : ℚ → ℚ → String) (regions : List PolicyRegion) : Option PolicyVerdict :=
  let avg := average quantity regions
  let limit := p.threshold name default
  if limit < avg then some { reason := reason avg limit, action := action } else none

def routing : List PolicyRegion → Option PolicyVerdict :=
  p.exceeding PolicyRegion.avgLatencyMs "max_latency_ms" 200 "reroute" fun avg limit =>
    "Avg latency " ++ formatWhole avg ++ "ms > " ++ formatWhole limit ++ "ms"

def failover (regions : List PolicyRegion) : Option PolicyVerdict :=
  let offline := regions.countP fun r => r.status = "offline"
  if p.threshold "region_offline_pct" (1/2) < (offline : ℚ)/regions.length then
    some { reason := offline.repr ++ "/" ++ regions.length.repr ++ " regions offline"
           action := "failover"
           mode := some .emergency }
  else none

def energy : List PolicyRegion → Option PolicyVerdict :=
  p.exceeding PolicyRegion.carbonIntensity "max_carbon_intensity" (3/5) "shift_to_green"
    fun avg limit =>
      "Avg carbon intensity " ++ formatFixed 2 avg ++ " > " ++ formatFixed 2 limit

def thermal (regions : List PolicyRegion) : Option PolicyVerdict :=
  let high := regions.filter fun r => p.threshold "throttle_pressure" (4/5) < r.thermalPressure
  if high ≠ [] then
    some { reason := high.length.repr ++ " regions above thermal threshold"
           action := "throttle"
           affectedRegions := some (high.map PolicyRegion.regionId) }
  else none

def cost : List PolicyRegion → Option PolicyVerdict :=
  p.exceeding PolicyRegion.costPerHour "max_cost_per_hour" 150 "consolidate" fun avg limit =>
    "Avg cost $" ++ formatWhole avg ++ "/hr > $" ++ formatWhole limit ++ "/hr"

/-- The branches of `_evaluate_policy`. Nothing is evaluated without regions, and policies on carbon
or on security never trigger. -/
def assess (regions : List PolicyRegion) : Option PolicyVerdict :=
  if regions = [] then none
  else match p.policyType with
    | .scaling => p.scaling regions
    | .routing => p.routing regions
    | .failover => p.failover regions
    | .energy => p.energy regions
    | .thermal => p.thermal regions
    | .cost => p.cost regions
    | .carbon => none
    | .security => none

end AdaptivePolicy
/-- An item of `_policies`: the id, and the place of the policy among all that were registered. -/
structure PolicyRef where
  policyId : String
  place : ℕ

instance : Keyed PolicyRef String := ⟨PolicyRef.policyId⟩

/-- The manager, with all policies that were ever registered, and as history each change of a mode:
the place of the policy, the mode that it had and the one that it got. -/
structure PolicyState where
  maxHistory : ℤ := 500
  objects : List AdaptivePolicy := []
  policies : Table PolicyRef := .empty
  evaluations : List PolicyEvaluation := []
  totalEvaluations : ℕ := 0
  totalAdaptations : ℕ := 0
  changed : List (ℕ × PolicyMode × PolicyMode) := []

namespace PolicyState
variable (s : PolicyState)

def registerPolicy (now : ℚ) (policy : AdaptivePolicy) : PolicyState :=
  { s with
    objects := s.objects ++ [{ policy with createdAt := now }]
    policies := s.policies.put ⟨policy.policyId,s.objects.length⟩ }

def removePolicy (policyId : String) : PolicyState :=
  { s with policies := s.policies.erase policyId }

/-- The policies that the manager starts with. -/
def defaults : List AdaptivePolicy :=
  [{ policyId := "scaling-auto", policyType := .scaling,
     thresholds := [("scale_up",4/5),("scale_down",3/10),("cooldown_s",60)] },
   { policyId := "routing-latency", policyType := .routing,
     thresholds := [("max_latency_ms",200),("reroute_threshold_ms",400),
       ("failover_threshold_ms",800)] },
   { policyId := "failover-auto", policyType := .failover,
     thresholds := [("health_threshold",1/2),("region_offline_pct",1/2),
       ("recovery_timeout_s",120)] },
   { policyId := "energy-green", policyType := .energy,
     thresholds := [("max_carbon_intensity",3/5),("min_renewable_pct",3/10),
       ("cost_ceiling",100)] },
   { policyId := "thermal-safety", policyType := .thermal,
     thresholds := [("warning_temp_c",75),("critical_temp_c",85),("throttle_pressure",4/5)] },
   { policyId := "cost-optimize", policyType := .cost,
     thresholds := [("max_cost_per_hour",150),("spot_threshold",1/2),("idle_timeout_s",300)] }]

def init (now : ℚ) (maxHistory : ℤ) : PolicyState :=
  defaults.foldl (fun s policy => s.registerPolicy now policy) { maxHistory := maxHistory }

/-- The mode that an evaluation asks for is set without the lock. -/
def adapt (place : ℕ) (verdict : PolicyVerdict) : PolicyState :=
  match s.objects[place]?, verdict.mode with
  | some p, some mode =>
    { s with
      objects := s.objects.set place { p with mode := mode }
      changed := if mode = p.mode then s.changed else s.changed ++ [(place,p.mode,mode)] }
  | _, _ => s

/-- With the lock, the mode is compared with the one that was read before. -/
def countTrigger (now : ℚ) (place : ℕ) (oldMode : PolicyMode) : PolicyState :=
  match s.objects[place]? with
  | none => s
  | some p =>
    { s with
      objects := s.objects.set place
        { p with
          triggersCount := p.triggersCount+1
          lastTriggered := now
          lastAdapted := if oldMode = p.mode then p.lastAdapted else now }
      totalAdaptations :=
        if oldMode = p.mode then s.totalAdaptations else s.totalAdaptations+1 }

def record (results : List PolicyEvaluation) : PolicyState :=
  { s with
    evaluations := truncated s.maxHistory (s.evaluations ++ results)
    totalEvaluations := s.totalEvaluations+results.length }

end PolicyState

/-- Where a call stands. A pass has the policies that it has still to evaluate and its results. -/
inductive PolicyTask
  | registering (policy : AdaptivePolicy)
  | removing (policyId : String)
  | selecting (regions : List PolicyRegion)
  | evaluating (regions : List PolicyRegion) (todo : List ℕ) (results : List PolicyEvaluation)
  | adapting (regions : List PolicyRegion) (place : ℕ) (oldMode : PolicyMode)
      (verdict : PolicyVerdict) (todo : List ℕ) (results : List PolicyEvaluation)
  | counting (regions : List PolicyRegion) (place : ℕ) (oldMode : PolicyMode)
      (verdict : PolicyVerdict) (todo : List ℕ) (results : List PolicyEvaluation)
  | reporting (regions : List PolicyRegion) (place : ℕ) (oldMode : PolicyMode)
      (verdict : PolicyVerdict) (todo : List ℕ) (results : List PolicyEvaluation)
  | done

inductive PolicyRequest
  | registerPolicy (policy : AdaptivePolicy)
  | removePolicy (policyId : String)
  | evaluateAll (regions : List PolicyRegion)

def PolicyRequest.task : PolicyRequest → PolicyTask
  | registerPolicy policy => .registering policy
  | removePolicy policyId => .removing policyId
  | evaluateAll regions => .selecting regions

def policyNext (s : PolicyState) (t : PolicyTask) (now : ℚ) : PolicyState × PolicyTask :=
  match t with
  | .registering policy => (s.registerPolicy now policy,.done)
  | .removing policyId => (s.removePolicy policyId,.done)
  | .selecting regions => (s,.evaluating regions (s.policies.entries.map PolicyRef.place) [])
  | .evaluating regions (place :: todo) results =>
    match s.objects[place]? with
    | none => (s,.evaluating regions todo results)
    | some p =>
      match if p.enabled then p.assess regions else none with
      | none => (s,.evaluating regions todo results)
      | some verdict => (s,.adapting regions place p.mode verdict todo results)
  | .evaluating _ [] results => (s.record results,.done)
  | .adapting regions place oldMode verdict todo results =>
    (s.adapt place verdict,.counting regions place oldMode verdict todo results)
  | .counting regions place oldMode verdict todo results =>
    (s.countTrigger now place oldMode,.reporting regions place oldMode verdict todo results)
  | .reporting regions place oldMode verdict todo results =>
    match s.objects[place]? with
    | none => (s,.evaluating regions todo results)
    | some p =>
      (s,.evaluating regions todo (results ++ [⟨p.policyId,oldMode,p.mode,verdict,now⟩]))
  | .done => (s,.done)

/-- Each step of a call reads the clock where it needs it. Nothing happens outside of the calls. -/
def adaptivePolicies : Program PolicyState PolicyTask Empty PolicyRequest ℚ :=
  ⟨fun s _ => s,PolicyRequest.task,policyNext⟩

abbrev AdaptivePolicyManager := Pool PolicyState PolicyTask

abbrev PolicyEvent := PoolEvent Empty PolicyRequest ℚ

/-! Whatever passes run at the same time, the mode of a policy changes only to one that evaluations
of policies of its type ask for. -/

/-- The modes that evaluations of such policies ask for. -/
def PolicyType.modes : PolicyType → List PolicyMode
  | scaling => [.emergency,.aggressive,.conservative]
  | failover => [.emergency]
  | _ => []

theorem PolicyType.modes_eq_nil {t : PolicyType} (hscaling : t ≠ .scaling)
    (hfailover : t ≠ .failover) : t.modes = [] := by
  cases t <;> trivial

theorem AdaptivePolicy.mode_exceeding (p : AdaptivePolicy) {quantity : PolicyRegion → ℚ}
    {name : String} {default : ℚ} {action : String} {reason : ℚ → ℚ → String}
    {regions : List PolicyRegion} {v : PolicyVerdict}
    (h : p.exceeding quantity name default action reason regions = some v) : v.mode = none := by
  rw [exceeding] at h
  split_ifs at h
  cases h
  rfl

theorem AdaptivePolicy.mode_assess (p : AdaptivePolicy) {regions : List PolicyRegion}
    {v : PolicyVerdict} (h : p.assess regions = some v) {m : PolicyMode} (hm : v.mode = some m) :
    m ∈ p.policyType.modes := by
  unfold assess at h
  split_ifs at h
  cases htype : p.policyType with
  | scaling =>
    rw [htype] at h
    simp only [scaling] at h
    split_ifs at h with hup hlarge hdown
    all_goals
      cases h
      cases hm
      simp [PolicyType.modes]
  | routing =>
    rw [htype] at h
    rw [p.mode_exceeding h] at hm
    cases hm
  | failover =>
    rw [htype] at h
    simp only [failover] at h
    split_ifs at h
    cases h
    cases hm
    simp [PolicyType.modes]
  | energy =>
    rw [htype] at h
    rw [p.mode_exceeding h] at hm
    cases hm
  | carbon =>
    rw [htype] at h
    cases h
  | thermal =>
    rw [htype] at h
    simp only [thermal] at h
    split_ifs at h
    cases h
    cases hm
  | cost =>
    rw [htype] at h
    rw [p.mode_exceeding h] at hm
    cases hm
  | security =>
    rw [htype] at h
    cases h

/-- What becomes of a policy: its mode stays or is one of those that its type allows. -/
def AdaptivePolicy.Becomes (p q : AdaptivePolicy) : Prop :=
  q.policyId = p.policyId ∧ q.policyType = p.policyType ∧
    (q.mode = p.mode ∨ q.mode ∈ p.policyType.modes)

theorem AdaptivePolicy.Becomes.refl (p : AdaptivePolicy) : p.Becomes p :=
  ⟨rfl,rfl,Or.inl rfl⟩

theorem AdaptivePolicy.Becomes.trans {p q r : AdaptivePolicy} (hpq : p.Becomes q)
    (hqr : q.Becomes r) : p.Becomes r := by
  obtain ⟨hid,htype,hmode⟩ := hpq
  obtain ⟨hid',htype',hmode'⟩ := hqr
  refine ⟨hid'.trans hid,htype'.trans htype,?_⟩
  rw [htype] at hmode'
  obtain heq | hmem := hmode'
  · rwa [heq]
  · exact Or.inr hmem

namespace PolicyState

/-- All policies are still there, as what has become of them. -/
def Evolves (s t : PolicyState) : Prop :=
  ∀ (place : ℕ) (p : AdaptivePolicy), s.objects[place]? = some p →
    ∃ q, t.objects[place]? = some q ∧ p.Becomes q

variable {s t u : PolicyState}

theorem evolves_of_eq (h : t.objects = s.objects) : s.Evolves t :=
  fun _ p hp => ⟨p,h.symm ▸ hp,.refl p⟩

theorem Evolves.refl (s : PolicyState) : s.Evolves s := evolves_of_eq rfl

theorem Evolves.trans (hst : s.Evolves t) (htu : t.Evolves u) : s.Evolves u := by
  intro place p hp
  obtain ⟨q,hq,hpq⟩ := hst place p hp
  obtain ⟨r,hr,hqr⟩ := htu place q hq
  exact ⟨r,hr,hpq.trans hqr⟩

theorem getElem?_registerPolicy {place : ℕ} {p : AdaptivePolicy}
    (hp : s.objects[place]? = some p) (now : ℚ) (policy : AdaptivePolicy) :
    (s.registerPolicy now policy).objects[place]? = some p :=
  (List.getElem?_append_left (List.getElem?_eq_some_iff.mp hp).1).trans hp

theorem evolves_registerPolicy (now : ℚ) (policy : AdaptivePolicy) :
    s.Evolves (s.registerPolicy now policy) :=
  fun _ p hp => ⟨p,getElem?_registerPolicy hp now policy,.refl p⟩

/-- A policy that is set anew where it stands. -/
theorem evolves_set {place : ℕ} {p q : AdaptivePolicy} (hp : s.objects[place]? = some p)
    (hpq : p.Becomes q) (ht : t.objects = s.objects.set place q) : s.Evolves t := by
  intro place' p' hp'
  rw [ht, List.getElem?_set]
  split_ifs with heq hlt
  · rw [← heq, hp, Option.some.injEq] at hp'
    exact ⟨q,rfl,hp' ▸ hpq⟩
  · exact absurd (List.getElem?_eq_some_iff.mp hp).1 hlt
  · exact ⟨p',hp',.refl p'⟩

theorem evolves_adapt {place : ℕ} {p : AdaptivePolicy} {verdict : PolicyVerdict}
    (hp : s.objects[place]? = some p) (hmode : ∀ m ∈ verdict.mode, m ∈ p.policyType.modes) :
    s.Evolves (s.adapt place verdict) := by
  unfold adapt
  rw [hp]
  cases hm : verdict.mode with
  | none => exact .refl s
  | some m => exact evolves_set (q := { p with mode := m }) hp ⟨rfl,rfl,Or.inr (hmode m hm)⟩ rfl

theorem evolves_countTrigger (now : ℚ) (place : ℕ) (oldMode : PolicyMode) :
    s.Evolves (s.countTrigger now place oldMode) := by
  unfold countTrigger
  cases hp : s.objects[place]? with
  | none => exact .refl s
  | some p =>
    refine evolves_set (q := { p with
      triggersCount := p.triggersCount+1
      lastTriggered := now
      lastAdapted := if oldMode = p.mode then p.lastAdapted else now }) hp ⟨rfl,rfl,Or.inl rfl⟩ ?_
    rfl

end PolicyState

/-- The mode that a pass is about to set is one that its policy may get. -/
def PolicyTask.Asked (s : PolicyState) : PolicyTask → Prop
  | adapting _ place _ verdict _ _ =>
    ∃ p, s.objects[place]? = some p ∧ ∀ m ∈ verdict.mode, m ∈ p.policyType.modes
  | _ => True

theorem PolicyTask.Asked.evolves {s t : PolicyState} (hst : s.Evolves t) {task : PolicyTask}
    (h : task.Asked s) : task.Asked t := by
  cases task with
  | adapting regions place oldMode verdict todo results =>
    obtain ⟨p,hp,hmode⟩ := h
    obtain ⟨q,hq,hpq⟩ := hst place p hp
    exact ⟨q,hq,fun m hm => hpq.2.1.symm ▸ hmode m hm⟩
  | registering policy => trivial
  | removing policyId => trivial
  | selecting regions => trivial
  | evaluating regions todo results => trivial
  | counting regions place oldMode verdict todo results => trivial
  | reporting regions place oldMode verdict todo results => trivial
  | done => trivial

theorem policyNext_evolves {s : PolicyState} {task : PolicyTask} (h : task.Asked s) (now : ℚ) :
    s.Evolves (policyNext s task now).1 ∧
      (policyNext s task now).2.Asked (policyNext s task now).1 := by
  cases task with
  | registering policy => exact ⟨PolicyState.evolves_registerPolicy now policy,trivial⟩
  | removing policyId => exact ⟨PolicyState.evolves_of_eq rfl,trivial⟩
  | selecting regions => exact ⟨.refl s,trivial⟩
  | evaluating regions todo results =>
    cases todo with
    | nil => exact ⟨PolicyState.evolves_of_eq rfl,trivial⟩
    | cons place todo =>
      rw [policyNext]
      cases hp : s.objects[place]? with
      | none => exact ⟨.refl s,trivial⟩
      | some p =>
        dsimp only
        cases hv : (if p.enabled then p.assess regions else none) with
        | none => exact ⟨.refl s,trivial⟩
        | some verdict =>
          refine ⟨.refl s,p,hp,fun m hm => ?_⟩
          split_ifs at hv
          exact p.mode_assess hv hm
  | adapting regions place oldMode verdict todo results =>
    obtain ⟨p,hp,hmode⟩ := h
    exact ⟨PolicyState.evolves_adapt hp hmode,trivial⟩
  | counting regions place oldMode verdict todo results =>
    exact ⟨PolicyState.evolves_countTrigger now place oldMode,trivial⟩
  | reporting regions place oldMode verdict todo results =>
    rw [policyNext]
    cases s.objects[place]? with
    | none => exact ⟨.refl s,trivial⟩
    | some p => exact ⟨.refl s,trivial⟩
  | done => exact ⟨.refl s,trivial⟩

namespace AdaptivePolicyManager

def AllAsked (s : AdaptivePolicyManager) : Prop := s.Holds (fun _ => True) fun s t => t.Asked s

theorem AllAsked.step {s : AdaptivePolicyManager} (h : s.AllAsked) (e : PolicyEvent) :
    AllAsked (Pool.step adaptivePolicies s e) ∧
      s.shared.Evolves (Pool.step adaptivePolicies s e).shared := by
  cases e with
  | outside e => exact ⟨h,.refl _⟩
  | start request =>
    refine ⟨Pool.Holds.start h ?_,.refl _⟩
    cases request <;> trivial
  | advance i now =>
    refine ⟨Pool.Holds.advance h fun p _ hp => ?_,?_⟩
    · obtain ⟨hevolves,hasked⟩ := policyNext_evolves hp now
      exact ⟨trivial,hasked,fun q hq => hq.evolves hevolves⟩
    · cases hi : s.procs[i]? with
      | none =>
        rw [Pool.step_advance_none hi]
        exact .refl _
      | some p =>
        rw [Pool.step_advance hi]
        exact (policyNext_evolves (h.2 p (Pool.mem_of_getElem? hi)) now).1

theorem AllAsked.run {s : AdaptivePolicyManager} (h : s.AllAsked) (events : List PolicyEvent) :
    s.shared.Evolves (Library.run (Pool.step adaptivePolicies) s events).shared := by
  induction events generalizing s with
  | nil => exact .refl _
  | cons e events ih =>
    obtain ⟨hnext,hevolves⟩ := h.step e
    exact hevolves.trans (ih hnext)

def reach (now : ℚ) (maxHistory : ℤ) (events : List PolicyEvent) : AdaptivePolicyManager :=
  Library.run (Pool.step adaptivePolicies) ⟨.init now maxHistory,[]⟩ events

end AdaptivePolicyManager

open AdaptivePolicyManager

/-- Whatever is registered, removed and evaluated, and in whatever order the steps of the passes are
taken: a policy keeps its mode, unless it is one of scaling, whose mode never gets balanced again, or
one of failover, whose mode becomes that of an emergency for good. -/
theorem modes_after (now : ℚ) (maxHistory : ℤ) (before after : List PolicyEvent) {place : ℕ}
    {p : AdaptivePolicy} (hp : (reach now maxHistory before).shared.objects[place]? = some p) :
    ∃ q, (reach now maxHistory (before ++ after)).shared.objects[place]? = some q ∧
      q.policyId = p.policyId ∧ q.policyType = p.policyType ∧
      (p.policyType ≠ .scaling → p.policyType ≠ .failover → q.mode = p.mode) ∧
      (p.policyType = .scaling → p.mode ≠ .balanced → q.mode ≠ .balanced) ∧
      (p.policyType = .failover → q.mode = p.mode ∨ q.mode = .emergency) := by
  have hstart : AllAsked ⟨.init now maxHistory,[]⟩ := ⟨trivial,fun _ h => absurd h List.not_mem_nil⟩
  have hasked : (reach now maxHistory before).AllAsked :=
    run_always (I := AllAsked) (fun _ e hs => (hs.step e).1) hstart before
  have hevolves := hasked.run after
  rw [reach, ← run_append, ← reach] at hevolves
  obtain ⟨q,hq,hid,htype,hmode⟩ := hevolves place p hp
  refine ⟨q,hq,hid,htype,fun hscaling hfailover => ?_,fun hscaling hbalanced => ?_,
    fun hfailover => ?_⟩
  · refine hmode.resolve_right ?_
    rw [PolicyType.modes_eq_nil hscaling hfailover]
    exact List.not_mem_nil
  · rw [hscaling] at hmode
    obtain heq | hmem := hmode
    · rwa [heq]
    · rintro heq
      rw [heq] at hmem
      simp [PolicyType.modes] at hmem
  · rw [hfailover] at hmode
    exact hmode.imp_right fun hmem => List.mem_singleton.mp hmem

/-- A pass over one saturated region, in as many steps as it takes. -/
def saturatedPass (i : ℕ) : List PolicyEvent :=
  .start (.evaluateAll [{ regionId := "eu", workloadSaturation := 9/10 }]) ::
    List.replicate 11 (.advance i 5)

theorem modes_after_saturated :
    ∃ q, (reach 0 500 ([] ++ saturatedPass 0)).shared.objects[(0 : ℕ)]? = some q ∧
      q.policyId = "scaling-auto" ∧ q.policyType = .scaling ∧
      (PolicyType.scaling ≠ .scaling → PolicyType.scaling ≠ .failover → q.mode = .balanced) ∧
      (PolicyType.scaling = .scaling → PolicyMode.balanced ≠ .balanced → q.mode ≠ .balanced) ∧
      (PolicyType.scaling = .failover → q.mode = .balanced ∨ q.mode = .emergency) :=
  modes_after 0 500 [] (saturatedPass 0) (p :=
    { policyId := "scaling-auto", thresholds := [("scale_up",4/5),("scale_down",3/10),
        ("cooldown_s",60)] }) (by decide +kernel)

/-! As long as no two passes run at the same time, the adaptations that are counted are the changes of
modes. -/

/-- The call evaluates the policies. -/
def PolicyTask.IsPass : PolicyTask → Prop
  | registering _ => False
  | removing _ => False
  | done => False
  | _ => True

instance : DecidablePred PolicyTask.IsPass
  | .registering _ => .isFalse id
  | .removing _ => .isFalse id
  | .done => .isFalse id
  | .selecting _ => .isTrue trivial
  | .evaluating _ _ _ => .isTrue trivial
  | .adapting _ _ _ _ _ _ => .isTrue trivial
  | .counting _ _ _ _ _ _ => .isTrue trivial
  | .reporting _ _ _ _ _ _ => .isTrue trivial

/-- Each change of a mode is counted. -/
def PolicyState.Settled (s : PolicyState) : Prop := s.totalAdaptations = s.changed.length

/-- What the only pass knows: the mode that it has read is the one that it is about to change, and
then the one from which it was changed. -/
def PolicyTask.Knows (s : PolicyState) : PolicyTask → Prop
  | adapting _ place oldMode _ _ _ =>
    s.Settled ∧ ∃ p, s.objects[place]? = some p ∧ p.mode = oldMode
  | counting _ place oldMode _ _ _ => ∃ p, s.objects[place]? = some p ∧
    s.changed.length = s.totalAdaptations + if oldMode = p.mode then 0 else 1
  | _ => s.Settled

namespace PolicyState
variable {s : PolicyState} {place : ℕ} {p : AdaptivePolicy}

theorem knows_adapt (hs : s.Settled) (hp : s.objects[place]? = some p) (verdict : PolicyVerdict) :
    ∃ q, (s.adapt place verdict).objects[place]? = some q ∧
      (s.adapt place verdict).changed.length =
        (s.adapt place verdict).totalAdaptations + if p.mode = q.mode then 0 else 1 := by
  have hlt := (List.getElem?_eq_some_iff.mp hp).1
  unfold adapt
  rw [hp]
  cases hm : verdict.mode with
  | none => exact ⟨p,hp,by simpa using hs.symm⟩
  | some m =>
    refine ⟨{ p with mode := m },List.getElem?_set_self hlt,?_⟩
    unfold Settled at hs
    by_cases heq : m = p.mode
    · simp [heq, hs]
    · simp [heq, Ne.symm heq, hs]

theorem settled_countTrigger {now : ℚ} {oldMode : PolicyMode} (hp : s.objects[place]? = some p)
    (h : s.changed.length = s.totalAdaptations + if oldMode = p.mode then 0 else 1) :
    (s.countTrigger now place oldMode).Settled := by
  unfold countTrigger
  rw [hp, Settled]
  by_cases heq : oldMode = p.mode
  · simpa [heq] using h.symm
  · simpa [heq] using h.symm

end PolicyState

/-- The step of a pass that is alone. -/
theorem PolicyTask.Knows.next {s : PolicyState} {task : PolicyTask} (h : task.Knows s) (now : ℚ) :
    (policyNext s task now).2.Knows (policyNext s task now).1 := by
  cases task with
  | registering policy => exact h
  | removing policyId => exact h
  | selecting regions => exact h
  | evaluating regions todo results =>
    cases todo with
    | nil => exact h
    | cons place todo =>
      rw [policyNext]
      cases hp : s.objects[place]? with
      | none => exact h
      | some p =>
        dsimp only
        cases (if p.enabled then p.assess regions else none) with
        | none => exact h
        | some verdict => exact ⟨h,p,hp,rfl⟩
  | adapting regions place oldMode verdict todo results =>
    obtain ⟨hs,p,hp,rfl⟩ := h
    exact PolicyState.knows_adapt hs hp verdict
  | counting regions place oldMode verdict todo results =>
    obtain ⟨p,hp,hcount⟩ := h
    exact PolicyState.settled_countTrigger hp hcount
  | reporting regions place oldMode verdict todo results =>
    rw [policyNext]
    cases s.objects[place]? with
    | none => exact h
    | some p => exact h
  | done => exact h

/-- The steps of other calls take nothing away from what the pass knows. -/
theorem PolicyTask.Knows.other {s : PolicyState} {task other : PolicyTask} (h : task.Knows s)
    (hother : ¬ other.IsPass) (now : ℚ) : task.Knows (policyNext s other now).1 := by
  cases other with
  | registering policy =>
    cases task with
    | adapting regions place oldMode verdict todo results =>
      obtain ⟨hs,p,hp,hmode⟩ := h
      exact ⟨hs,p,PolicyState.getElem?_registerPolicy hp now policy,hmode⟩
    | counting regions place oldMode verdict todo results =>
      obtain ⟨p,hp,hcount⟩ := h
      exact ⟨p,PolicyState.getElem?_registerPolicy hp now policy,hcount⟩
    | registering _ => exact h
    | removing _ => exact h
    | selecting _ => exact h
    | evaluating _ _ _ => exact h
    | reporting _ _ _ _ _ _ => exact h
    | done => exact h
  | removing policyId => cases task <;> exact h
  | done => exact h
  | selecting _ => exact absurd trivial hother
  | evaluating _ _ _ => exact absurd trivial hother
  | adapting _ _ _ _ _ _ => exact absurd trivial hother
  | counting _ _ _ _ _ _ => exact absurd trivial hother
  | reporting _ _ _ _ _ _ => exact absurd trivial hother

theorem PolicyTask.Knows.settled {s : PolicyState} {task : PolicyTask} (h : task.Knows s)
    (hpass : ¬ task.IsPass) : s.Settled := by
  cases task with
  | registering _ => exact h
  | removing _ => exact h
  | done => exact h
  | selecting _ => exact h
  | evaluating _ _ _ => exact h
  | reporting _ _ _ _ _ _ => exact h
  | adapting _ _ _ _ _ _ => exact absurd trivial hpass
  | counting _ _ _ _ _ _ => exact absurd trivial hpass

/-- A call that starts knows that each change was counted. -/
theorem PolicyRequest.knows_task {s : PolicyState} (h : s.Settled) (request : PolicyRequest) :
    request.task.Knows s := by
  cases request with
  | registerPolicy policy => exact h
  | removePolicy policyId => exact h
  | evaluateAll regions => exact h

/-- No call becomes a pass. -/
theorem PolicyTask.isPass_of_next {s : PolicyState} {task : PolicyTask} {now : ℚ}
    (h : (policyNext s task now).2.IsPass) : task.IsPass := by
  cases task with
  | registering _ => exact h
  | removing _ => exact h
  | done => exact h
  | selecting _ => trivial
  | evaluating _ _ _ => trivial
  | adapting _ _ _ _ _ _ => trivial
  | counting _ _ _ _ _ _ => trivial
  | reporting _ _ _ _ _ _ => trivial

namespace AdaptivePolicyManager

/-- A pass starts when no other one is under way. -/
def Starts (s : AdaptivePolicyManager) : PolicyEvent → Prop
  | .start (.evaluateAll _) => ∀ t ∈ s.procs, ¬ t.IsPass
  | _ => True

structure Apart (s : AdaptivePolicyManager) : Prop where
  alone : ∀ (i j : ℕ) (t u : PolicyTask), s.procs[i]? = some t → s.procs[j]? = some u →
    t.IsPass → u.IsPass → i = j
  knows : ∀ t ∈ s.procs, t.IsPass → t.Knows s.shared
  idle : (∀ t ∈ s.procs, ¬ t.IsPass) → s.shared.Settled

variable {s : AdaptivePolicyManager}

theorem Starts.free {request : PolicyRequest} (h : s.Starts (.start request))
    (hpass : request.task.IsPass) : ∀ t ∈ s.procs, ¬ t.IsPass := by
  cases request with
  | registerPolicy policy => exact absurd hpass id
  | removePolicy policyId => exact absurd hpass id
  | evaluateAll regions => exact h

theorem Apart.start (h : s.Apart) {request : PolicyRequest} (hstarts : s.Starts (.start request)) :
    Apart (Pool.step adaptivePolicies s (.start request)) := by
  change Apart ⟨s.shared,s.procs ++ [request.task]⟩
  have hold : ∀ i t, (s.procs ++ [request.task])[i]? = some t → t.IsPass →
      s.procs[i]? = some t ∨ i = s.procs.length ∧ ∀ u ∈ s.procs, ¬ u.IsPass := by
    intro i t hi ht
    by_cases hlt : i < s.procs.length
    · rw [List.getElem?_append_left hlt] at hi
      exact Or.inl hi
    · have heq : i = s.procs.length ∧ t = request.task := by
        rw [List.getElem?_append_right (by omega)] at hi
        obtain ⟨hzero,hval⟩ := List.getElem?_eq_some_iff.mp hi
        rw [List.length_singleton] at hzero
        exact ⟨by omega,by simpa using hval.symm⟩
      obtain ⟨rfl,rfl⟩ := heq
      exact Or.inr ⟨rfl,hstarts.free ht⟩
  refine ⟨fun i j t u hi hj ht hu => ?_,fun t hmem ht => ?_,fun hnone => ?_⟩
  · obtain hi | ⟨rfl,hfree⟩ := hold i t hi ht <;> obtain hj | ⟨rfl,hfree'⟩ := hold j u hj hu
    · exact h.alone i j t u hi hj ht hu
    · exact absurd ht (hfree' t (Pool.mem_of_getElem? hi))
    · exact absurd hu (hfree u (Pool.mem_of_getElem? hj))
    · rfl
  · obtain hmem | hmem := List.mem_append.mp hmem
    · exact h.knows t hmem ht
    · obtain rfl := List.mem_singleton.mp hmem
      exact request.knows_task (h.idle (hstarts.free ht))
  · exact h.idle fun t ht => hnone t (List.mem_append_left _ ht)

theorem Apart.advance (h : s.Apart) (i : ℕ) (now : ℚ) :
    Apart (Pool.step adaptivePolicies s (.advance i now)) := by
  cases hi : s.procs[i]? with
  | none =>
    rw [Pool.step_advance_none hi]
    exact h
  | some task =>
    rw [Pool.step_advance hi]
    change Apart ⟨(policyNext s.shared task now).1,s.procs.set i (policyNext s.shared task now).2⟩
    have hlt := (List.getElem?_eq_some_iff.mp hi).1
    have hold : ∀ (j : ℕ) (t : PolicyTask), (s.procs.set i (policyNext s.shared task now).2)[j]? =
        some t → t.IsPass → ∃ u, s.procs[j]? = some u ∧ u.IsPass := by
      intro j t hj ht
      rw [List.getElem?_set] at hj
      split_ifs at hj with heq
      · subst heq
        obtain rfl := Option.some.inj hj
        exact ⟨task,hi,PolicyTask.isPass_of_next ht⟩
      · exact ⟨t,hj,ht⟩
    refine ⟨fun j k t u hj hk ht hu => ?_,fun t hmem ht => ?_,fun hnone => ?_⟩
    · obtain ⟨t',hj',ht'⟩ := hold j t hj ht
      obtain ⟨u',hk',hu'⟩ := hold k u hk hu
      exact h.alone j k t' u' hj' hk' ht' hu'
    · obtain ⟨j,hj⟩ := List.getElem?_of_mem hmem
      by_cases heq : i = j
      · rw [heq, List.getElem?_set_self (heq ▸ hlt)] at hj
        obtain rfl := Option.some.inj hj
        exact (h.knows task (Pool.mem_of_getElem? hi) (PolicyTask.isPass_of_next ht)).next now
      · rw [List.getElem?_set_ne heq] at hj
        exact (h.knows t (Pool.mem_of_getElem? hj) ht).other
          (fun htask => heq (h.alone i j task t hi hj htask ht)) now
    · by_cases htask : task.IsPass
      · exact ((h.knows task (Pool.mem_of_getElem? hi) htask).next now).settled
          (hnone _ (List.mem_set hlt _))
      · have hsettled : s.shared.Settled := by
          refine h.idle fun t hmem ht => ?_
          obtain ⟨j,hj⟩ := List.getElem?_of_mem hmem
          have hne : i ≠ j := by
            rintro rfl
            rw [hi, Option.some.injEq] at hj
            exact htask (hj ▸ ht)
          refine hnone t (List.mem_of_getElem? (i := j) ?_) ht
          rwa [List.getElem?_set_ne hne]
        exact @PolicyTask.Knows.other _ .done _ hsettled htask now

theorem Apart.step (h : s.Apart) {e : PolicyEvent} (hstarts : s.Starts e) :
    Apart (Pool.step adaptivePolicies s e) := by
  cases e with
  | outside e => exact h
  | start request => exact h.start hstarts
  | advance i now => exact h.advance i now

theorem apart_init (now : ℚ) (maxHistory : ℤ) : Apart ⟨.init now maxHistory,[]⟩ where
  alone := fun _ _ _ _ hi => absurd (Pool.mem_of_getElem? hi) List.not_mem_nil
  knows := fun _ ht => absurd ht List.not_mem_nil
  idle := fun _ => rfl

end AdaptivePolicyManager

/-- In every run in which a pass starts only when none is under way, as many adaptations are counted
by the end of the pass as modes were changed. -/
theorem adaptations_counted {now : ℚ} {maxHistory : ℤ} {events : List PolicyEvent}
    (h : Along (Pool.step adaptivePolicies) Starts ⟨.init now maxHistory,[]⟩ events)
    (hidle : ∀ t ∈ (reach now maxHistory events).procs, ¬ t.IsPass) :
    (reach now maxHistory events).shared.totalAdaptations =
      (reach now maxHistory events).shared.changed.length := by
  have hapart : (reach now maxHistory events).Apart :=
    run_invariant (fun _ _ hstarts hs => hs.step hstarts) h (apart_init now maxHistory)
  exact hapart.idle hidle

theorem starts_saturatedPass :
    Along (Pool.step adaptivePolicies) Starts ⟨.init 0 500,[]⟩ (saturatedPass 0) :=
  ⟨fun _ h => absurd h List.not_mem_nil,trivial,trivial,trivial,trivial,trivial,trivial,trivial,
    trivial,trivial,trivial,trivial,trivial⟩

theorem adaptations_counted_saturated :
    (reach 0 500 (saturatedPass 0)).shared.totalAdaptations =
      (reach 0 500 (saturatedPass 0)).shared.changed.length :=
  adaptations_counted starts_saturatedPass (by decide +kernel)

/-- Two passes that have both read the mode before either sets it count one change twice. -/
example :
    let s := reach 0 500 ((saturatedPass 0).take 3 ++ (saturatedPass 1).take 3 ++
      List.replicate 9 (.advance 0 5) ++ List.replicate 9 (.advance 1 5))
    s.shared.totalAdaptations = 2 ∧ s.shared.changed = [(0,.balanced,.aggressive)] := by
  decide +kernel

end Arsonist.Coordination
