import Arsonist.Regions.RegionRegistry
import Arsonist.Routing.SmartFailover

/-! The failovers of a region over any run of the failover monitor, the health monitor, heartbeats
and recoveries. Only the status of a region tells that it was failed over, and a pass asks for its
status no more than for its metrics. -/
namespace Arsonist.Routing
open Arsonist.Library Arsonist.Regions

inductive RegionActivity
  | heartbeat (now : ℚ) (id : String) (updates : Metrics)
  | healthCheck (now : ℚ)
  | failoverCheck
  | recover (id : String)

namespace SmartFailover

def exec (monitor : RegionHealthMonitor) (s : SmartFailover) : RegionActivity → SmartFailover
  | .heartbeat now id updates => { s with registry := (s.registry.heartbeat now id updates).1 }
  | .healthCheck now => { s with registry := (monitor.checkAll s.registry now).1 }
  | .failoverCheck => s.checkAll.1
  | .recover id => (s.recoverRegion id).1

def produced (s : SmartFailover) : RegionActivity → List FailoverEvent
  | .failoverCheck => s.checkAll.2
  | _ => []

variable (monitor : RegionHealthMonitor) (regionId : String)

/-- How many events of a run have the region as their source. -/
def failoversOf (s : SmartFailover) (activity : List RegionActivity) : ℕ :=
  ((steps (exec monitor) s activity).flatMap fun x => x.1.produced x.2).countP fun event =>
    event.sourceRegion = regionId

/-- The region was failed over, and not recovered since. -/
def FailedOver (s : SmartFailover) (activity : List RegionActivity) : Prop :=
  ∃ p q, activity = p ++ q ∧ .recover regionId ∉ q ∧
    0 < failoversOf monitor regionId (run (exec monitor) s p) q

/-- When the turn of the region comes in a pass, its metrics are within their thresholds or no
other region can take over. -/
def Quiet (s : SmartFailover) : Prop :=
  ∀ x ∈ s.turns, x.2.regionId = regionId → Overloaded x.2 → ¬HasTarget x.1.registry x.2

variable {monitor regionId} {s : SmartFailover}

theorem failoversOf_concat (activity : List RegionActivity) (a : RegionActivity) :
    failoversOf monitor regionId s (activity ++ [a]) =
      failoversOf monitor regionId s activity+
        ((run (exec monitor) s activity).produced a).countP fun event =>
          event.sourceRegion = regionId := by
  rw [failoversOf, steps_concat, List.flatMap_append, List.countP_append]
  simp [failoversOf]

/-- One activity produces at most one event of a region. -/
theorem countP_produced_le (a : RegionActivity) :
    ((s.produced a).countP fun event => event.sourceRegion = regionId) ≤ 1 := by
  cases a with
  | failoverCheck =>
    have hcount := List.nodup_iff_count_le_one.mp s.sources_nodup regionId
    rw [List.count, List.countP_map] at hcount
    exact hcount
  | heartbeat now id updates => exact Nat.zero_le 1
  | healthCheck now => exact Nat.zero_le 1
  | recover id => exact Nat.zero_le 1

/-- An event of a region is that of its turn. -/
theorem countP_produced_pos_iff {a : RegionActivity} :
    0 < ((s.produced a).countP fun event => event.sourceRegion = regionId) ↔
      a = .failoverCheck ∧
        ∃ x ∈ s.turns, x.2.regionId = regionId ∧ (x.1.checkRegion x.2).2.isSome := by
  rw [List.countP_pos_iff]
  cases a with
  | failoverCheck =>
    rw [and_iff_right rfl]
    constructor
    · rintro ⟨event,hevent,hsource⟩
      obtain ⟨x,hx,hturn⟩ := mem_checkAll.mp hevent
      rw [decide_eq_true_iff, sourceRegion_of_event hturn] at hsource
      exact ⟨x,hx,hsource,by rw [hturn]; rfl⟩
    · rintro ⟨x,hx,hid,hsome⟩
      obtain ⟨event,hturn⟩ := Option.isSome_iff_exists.mp hsome
      exact ⟨event,mem_checkAll.mpr ⟨x,hx,hturn⟩,
        decide_eq_true ((sourceRegion_of_event hturn).trans hid)⟩
  | heartbeat now id updates => simp [produced]
  | healthCheck now => simp [produced]
  | recover id => simp [produced]

def Draining (regionId : String) (s : SmartFailover) : Prop :=
  ∃ r, s.registry.get regionId = some r ∧ r.status = .draining

theorem draining_of_event {a : RegionActivity}
    (h : 0 < ((s.produced a).countP fun event => event.sourceRegion = regionId)) :
    (s.exec monitor a).Draining regionId := by
  obtain ⟨rfl,⟨t,r⟩,hx,rfl,hsome⟩ := countP_produced_pos_iff.mp h
  obtain ⟨-,-,hend⟩ := get_of_turn hx
  rw [if_pos hsome] at hend
  exact ⟨_,hend,rfl⟩

/-- Only a recovery ends the draining of a region. -/
theorem draining_exec {a : RegionActivity} (hrecover : a ≠ .recover regionId)
    (h : s.Draining regionId) : (s.exec monitor a).Draining regionId := by
  obtain ⟨r,hget,hdraining⟩ := h
  cases a with
  | heartbeat now id updates =>
    have hnext : (s.exec monitor (.heartbeat now id updates)).registry.get regionId = _ :=
      RegionRegistry.get_heartbeat now id regionId updates
    by_cases hid : regionId = id
    · subst hid
      rw [if_pos rfl, hget] at hnext
      exact ⟨_,hnext,hdraining⟩
    · rw [if_neg hid] at hnext
      exact ⟨r,hnext.trans hget,hdraining⟩
  | healthCheck now =>
    have hnext : (s.exec monitor (.healthCheck now)).registry.get regionId = _ :=
      RegionHealthMonitor.get_checkAll regionId
    rw [hget] at hnext
    refine ⟨_,hnext,?_⟩
    exact if_pos hdraining
  | failoverCheck =>
    obtain rfl := RegionRegistry.regionId_of_get hget
    obtain ⟨t,hx⟩ := exists_turn hget
    obtain ⟨-,-,hend⟩ := get_of_turn hx
    refine ⟨_,hend,?_⟩
    split_ifs
    · rfl
    · exact hdraining
  | recover id =>
    have hid : regionId ≠ id := by
      rintro rfl
      exact hrecover rfl
    have hnext : (s.exec monitor (.recover id)).registry.get regionId = _ :=
      RegionRegistry.get_updateStatus id regionId .active
    rw [if_neg hid] at hnext
    exact ⟨r,hnext.trans hget,hdraining⟩

/-- A region that was failed over drains until it is recovered. -/
theorem draining_of_failedOver {activity : List RegionActivity}
    (h : FailedOver monitor regionId s activity) :
    (run (exec monitor) s activity).Draining regionId := by
  obtain ⟨p,q,rfl,hrecover,hpos⟩ := h
  induction q using List.reverseRecOn with
  | nil => exact absurd hpos (Nat.lt_irrefl 0)
  | append_singleton q a ih =>
    rw [List.mem_append, not_or, List.mem_singleton] at hrecover
    rw [← List.append_assoc, run_concat]
    rw [failoversOf_concat, ← run_append] at hpos
    obtain hearlier | hnow := Nat.add_pos_iff_pos_or_pos.mp hpos
    · exact draining_exec (Ne.symm hrecover.2) (ih hrecover.1 hearlier)
    · exact draining_of_event hnow

/-- A region that was failed over is failed over again by a pass that finds it not quiet. -/
theorem failsAgain_iff {activity : List RegionActivity}
    (h : FailedOver monitor regionId s activity) :
    0 < (((run (exec monitor) s activity).produced .failoverCheck).countP fun event =>
      event.sourceRegion = regionId) ↔ ¬(run (exec monitor) s activity).Quiet regionId := by
  obtain ⟨r,hget,hdraining⟩ := draining_of_failedOver h
  rw [countP_produced_pos_iff, and_iff_right rfl, Quiet]
  push Not
  refine exists_congr fun x => and_congr_right fun hx => and_congr_right fun hid => ?_
  obtain ⟨t,r'⟩ := x
  obtain ⟨hstored,-,-⟩ := get_of_turn hx
  dsimp only at hid ⊢
  rw [hid, hget, Option.some.injEq] at hstored
  subst hstored
  have honline : r.status ≠ .offline := by
    rw [hdraining]
    decide
  rw [checkRegion_isSome_iff, Failing, or_iff_right honline]

/-- A region is failed over at most once between two recoveries exactly when every pass after its
failover finds it quiet. -/
theorem oneFailover_iff (monitor : RegionHealthMonitor) (regionId : String) (s : SmartFailover)
    (activity : List RegionActivity) :
    (∀ p q r, activity = p ++ q ++ r → .recover regionId ∉ q →
      failoversOf monitor regionId (run (exec monitor) s p) q ≤ 1) ↔
      ∀ p q, activity = p ++ .failoverCheck :: q → FailedOver monitor regionId s p →
        (run (exec monitor) s p).Quiet regionId := by
  constructor
  · rintro hone p q hp hfailed
    by_contra hquiet
    have hagain := (failsAgain_iff hfailed).mpr hquiet
    obtain ⟨p₁,p₂,rfl,hrecover,hpos⟩ := hfailed
    have hle := hone p₁ (p₂ ++ [.failoverCheck]) q (by rw [hp]; simp) (by simp [hrecover])
    rw [failoversOf_concat, ← run_append] at hle
    omega
  · intro hquiet p q r hp hrecover
    induction q using List.reverseRecOn generalizing r with
    | nil => exact Nat.zero_le 1
    | append_singleton q a ih =>
      have hrest := ih (a :: r) (by rw [hp]; simp) (by simp_all)
      rw [failoversOf_concat, ← run_append]
      by_cases hzero : failoversOf monitor regionId (run (exec monitor) s p) q = 0
      · rw [hzero, Nat.zero_add]
        exact countP_produced_le a
      · have hfailed : FailedOver monitor regionId s (p ++ q) :=
          ⟨p,q,rfl,by simp_all,Nat.pos_of_ne_zero hzero⟩
        have hnone : ¬0 < (((run (exec monitor) s (p ++ q)).produced a).countP fun event =>
            event.sourceRegion = regionId) := by
          intro hpos
          obtain ⟨rfl,-⟩ := countP_produced_pos_iff.mp hpos
          exact (failsAgain_iff hfailed).mp hpos (hquiet (p ++ q) r (by rw [hp]; simp) hfailed)
        omega

/-- A slow region with another one to take over. -/
def slowRegion : SmartFailover where
  registry :=
    (({} : RegionRegistry).register 0
      { regionId := "eu", avgLatencyMs := .number 2000, failoverTarget := some "us" }).register 0
      { regionId := "us", avgLatencyMs := .number 25 }

/-- A region that stays slow is failed over by each pass, though it drains. -/
theorem failedOver_twice :
    ¬∀ (monitor : RegionHealthMonitor) (regionId : String) (s : SmartFailover)
      (activity p q r : List RegionActivity), activity = p ++ q ++ r → .recover regionId ∉ q →
        failoversOf monitor regionId (run (exec monitor) s p) q ≤ 1 := by
  intro h
  have hle := h {} "eu" slowRegion _ []
    [.failoverCheck,.heartbeat 5 "eu" {},.healthCheck 10,.failoverCheck] [] rfl (by simp)
  revert hle
  decide +kernel

end SmartFailover
end Arsonist.Routing
