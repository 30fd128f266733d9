import Arsonist.Federation.Failover
import Arsonist.Library.Grouping

/-! What holds once a failover is over, from its loop over the listed jobs: where each job of the
dead cluster went, what was pushed, and that nothing else was touched. -/
namespace Arsonist.Federation
open Arsonist.Library Arsonist.Mesh

/-- The variables of the loop: the registry, the counter and the pushes. -/
structure Rerouting where
  reg : FederationRegistry
  rerouted : ℕ := 0
  pushes : List (GlobalJobRecord × ClusterRecord) := []

namespace Rerouting

/-- One turn of the loop. -/
def turn (now : ℚ) (dead : ClusterId) (others : List ClusterRecord) (s : Rerouting)
    (job : GlobalJobRecord) : Rerouting :=
  if job.assignedClusterId ≠ some dead then s
  else if !job.status.active then s
  else
    let gjr := { job with
      executionLogs := job.executionLogs ++ [⟨now,"failover from " ++ dead⟩] }
    match (bestCluster gjr others).1 with
    | none =>
      { s with reg :=
          s.reg.saveGlobalJob now { gjr with status := .queued, assignedClusterId := none } }
    | some pick =>
      let gjr := { gjr with
        assignedClusterId := some pick.clusterId
        status := .migrated
        executionLogs := gjr.executionLogs ++
          [⟨now,"rerouted to " ++ pick.clusterId ++ " (failover)"⟩] }
      { reg := s.reg.saveGlobalJob now gjr
        rerouted := s.rerouted+1
        -- saving has stamped the record that is pushed
        pushes := s.pushes ++ [(gjr.stamp now,pick)] }

/-- The whole call, over the jobs as they were listed before the first turn. -/
def loop (reg : FederationRegistry) (now : ℚ) (dead : ClusterId) : Rerouting :=
  reg.listGlobalJobs.foldl (turn now dead (otherClusters reg dead)) { reg := reg }

def event (now : ℚ) (dead : ClusterId) (s : Rerouting) : FailoverEvent :=
  { ts := now, deadClusterId := dead, jobsRerouted := s.rerouted }

variable {now : ℚ} {dead : ClusterId} {others : List ClusterRecord}

theorem turn_of_not_affected (s : Rerouting) {job : GlobalJobRecord}
    (h : affected dead job = false) : turn now dead others s job = s := by
  rw [affected, Bool.and_eq_false_iff] at h
  unfold turn
  by_cases hassigned : job.assignedClusterId = some dead
  · have hactive : job.status.active = false := by simpa [hassigned] using h
    rw [if_neg (not_not_intro hassigned), hactive]
    rfl
  · rw [if_pos hassigned]

theorem turn_of_affected (s : Rerouting) {job : GlobalJobRecord}
    (h : affected dead job = true) :
    turn now dead others s job =
      { reg := s.reg.saveGlobalJob now (rerouteJob now dead others job).1
        rerouted := s.rerouted+(reroutePush now dead others job).length
        pushes := s.pushes ++ reroutePush now dead others job } := by
  rw [affected, Bool.and_eq_true, decide_eq_true_iff] at h
  obtain ⟨hassigned,hactive⟩ := h
  unfold turn reroutePush rerouteJob
  rw [if_neg (not_not_intro hassigned), hactive]
  dsimp only
  rw [Bool.not_true, if_neg Bool.false_ne_true]
  generalize (bestCluster { job with
    executionLogs := job.executionLogs ++ [⟨now,"failover from " ++ dead⟩] } others).1 = best
  cases best with
  | none => simp
  | some pick => simp

/-- The loop does what the affected jobs ask for, in the order of the list. -/
theorem foldl_turn (jobs : List GlobalJobRecord) (s : Rerouting) :
    jobs.foldl (turn now dead others) s =
      { reg := (jobs.filter (affected dead)).foldl
          (fun reg job => reg.saveGlobalJob now (rerouteJob now dead others job).1) s.reg
        rerouted := s.rerouted +
          ((jobs.filter (affected dead)).flatMap (reroutePush now dead others)).length
        pushes := s.pushes ++
          (jobs.filter (affected dead)).flatMap (reroutePush now dead others) } := by
  induction jobs generalizing s with
  | nil => simp
  | cons job jobs ih =>
    rw [List.foldl_cons, ih]
    by_cases h : affected dead job = true
    · rw [turn_of_affected s h, List.filter_cons_of_pos h, List.foldl_cons, List.flatMap_cons,
        List.length_append, List.append_assoc, Nat.add_assoc]
    · rw [turn_of_not_affected s (Bool.not_eq_true _ ▸ h), List.filter_cons_of_neg h]

/-- The loop and the call without a loop agree on all three results. -/
theorem loop_eq (reg : FederationRegistry) (now : ℚ) (dead : ClusterId) :
    ((loop reg now dead).reg,(loop reg now dead).event now dead,(loop reg now dead).pushes) =
      rerouteJobsFromDeadCluster reg now dead := by
  rw [loop, foldl_turn]
  simp [event, rerouteJobsFromDeadCluster]

end Rerouting

/-- A cluster to which the failover may send the job. -/
structure Eligible (reg : FederationRegistry) (dead : ClusterId) (job : GlobalJobRecord)
    (c : ClusterRecord) : Prop where
  stored : reg.getCluster c.clusterId = some c
  alive : c.clusterId ≠ dead
  online : c.healthState ≠ .offline
  score : 0 ≤ scoreCluster job c

theorem eligible_iff {reg : FederationRegistry} {dead : ClusterId} {job : GlobalJobRecord}
    {c : ClusterRecord} :
    Eligible reg dead job c ↔
      c ∈ otherClusters reg dead ∧ c.healthState ≠ .offline ∧ 0 ≤ scoreCluster job c := by
  rw [otherClusters, List.mem_filter, FederationRegistry.mem_listClusters, Bool.and_eq_true,
    decide_eq_true_iff, decide_eq_true_iff]
  constructor
  · intro h
    exact ⟨⟨h.stored,h.alive,h.online⟩,h.online,h.score⟩
  · rintro ⟨⟨hstored,halive,honline⟩,-,hscore⟩
    exact ⟨hstored,halive,honline,hscore⟩

theorem bestCluster_eq_none_iff {job : GlobalJobRecord} {clusters : List ClusterRecord} :
    (bestCluster job clusters).1 = none ↔
      ∀ c ∈ clusters, c.healthState ≠ .offline → scoreCluster job c < 0 := by
  change (rankClusters job clusters).head?.map Prod.fst = none ↔ _
  rw [Option.map_eq_none_iff, List.head?_eq_none_iff, List.eq_nil_iff_forall_not_mem]
  constructor
  · intro h c hc honline
    by_contra hscore
    exact h (c,scoreCluster job c) (mem_rankClusters.mpr ⟨hc,honline,not_lt.mp hscore,rfl⟩)
  · intro h p hp
    obtain ⟨hmem,honline,hscore,he⟩ := mem_rankClusters.mp hp
    exact absurd (he ▸ hscore) (h p.1 hmem honline).not_ge

/-- The chosen cluster has passed both checks. -/
theorem bestCluster_eligible {job : GlobalJobRecord} {clusters : List ClusterRecord}
    {c : ClusterRecord} (h : (bestCluster job clusters).1 = some c) :
    c ∈ clusters ∧ c.healthState ≠ .offline ∧ 0 ≤ scoreCluster job c := by
  obtain ⟨p,hp,rfl⟩ := Option.map_eq_some_iff.mp h
  obtain ⟨hmem,honline,hscore,he⟩ := mem_rankClusters.mp (List.mem_of_head? hp)
  exact ⟨hmem,honline,he ▸ hscore⟩

/-- The failover leaves a job without a target exactly when no cluster is eligible. -/
theorem rerouteJob_eq_none_iff {reg : FederationRegistry} {now : ℚ} {dead : ClusterId}
    {job : GlobalJobRecord} :
    (rerouteJob now dead (otherClusters reg dead) job).2 = none ↔
      ¬∃ c, Eligible reg dead job c := by
  unfold rerouteJob
  dsimp only
  cases hbest : (bestCluster { job with
    executionLogs := job.executionLogs ++ [⟨now,"failover from " ++ dead⟩] }
      (otherClusters reg dead)).1 with
  | none =>
    refine iff_of_true rfl ?_
    rintro ⟨c,hc⟩
    obtain ⟨hmem,honline,hscore⟩ := eligible_iff.mp hc
    exact absurd (bestCluster_eq_none_iff.mp hbest c hmem honline) hscore.not_gt
  | some pick =>
    refine iff_of_false (Option.some_ne_none pick) (not_not_intro ⟨pick,?_⟩)
    exact eligible_iff.mpr (bestCluster_eligible hbest)

/-- The target of a job is eligible, and no eligible cluster scores better. -/
theorem eligible_of_rerouteJob {reg : FederationRegistry} {now : ℚ} {dead : ClusterId}
    {job : GlobalJobRecord} {pick : ClusterRecord}
    (h : (rerouteJob now dead (otherClusters reg dead) job).2 = some pick) :
    Eligible reg dead job pick ∧
      ∀ c, Eligible reg dead job c → scoreCluster job c ≤ scoreCluster job pick := by
  unfold rerouteJob at h
  dsimp only at h
  cases hbest : (bestCluster { job with
    executionLogs := job.executionLogs ++ [⟨now,"failover from " ++ dead⟩] }
      (otherClusters reg dead)).1 with
  | none => rw [hbest] at h; cases h
  | some best =>
    rw [hbest] at h
    obtain rfl : best = pick := Option.some.inj h
    refine ⟨eligible_iff.mpr (bestCluster_eligible hbest),fun c hc => ?_⟩
    obtain ⟨hmem,honline,hscore⟩ := eligible_iff.mp hc
    exact bestCluster_best hbest hmem honline hscore

section Pushes
variable {reg : FederationRegistry} {now : ℚ} {dead : ClusterId}

theorem id_of_mem_reroutePush {others : List ClusterRecord} {job : GlobalJobRecord}
    {push : GlobalJobRecord × ClusterRecord} (h : push ∈ reroutePush now dead others job) :
    push.1.id = job.id := by
  obtain ⟨pick,-,rfl⟩ := List.mem_map.mp h
  exact rerouteJob_id now dead others job

/-- A push is about a stored job that the failover moves. -/
theorem affected_of_mem_pushes {push : GlobalJobRecord × ClusterRecord}
    (h : push ∈ (rerouteJobsFromDeadCluster reg now dead).2.2) :
    ∃ job, reg.getGlobalJob push.1.id = some job ∧ affected dead job = true := by
  obtain ⟨job,hjob,hpush⟩ := List.mem_flatMap.mp h
  obtain ⟨hmem,haffected⟩ := List.mem_filter.mp hjob
  rw [id_of_mem_reroutePush hpush]
  exact ⟨job,FederationRegistry.mem_listGlobalJobs.mp hmem,haffected⟩

/-- The pushes about one of the jobs that are moved. -/
theorem pushes_about {job : GlobalJobRecord} (h : reg.getGlobalJob job.id = some job)
    (haffected : affected dead job = true) :
    (rerouteJobsFromDeadCluster reg now dead).2.2.filter (fun push => push.1.id = job.id) =
      reroutePush now dead (otherClusters reg dead) job := by
  have hmem : job ∈ reg.listGlobalJobs.filter (affected dead) :=
    List.mem_filter.mpr ⟨FederationRegistry.mem_listGlobalJobs.mpr h,haffected⟩
  have hnodup : ((reg.listGlobalJobs.filter (affected dead)).map fun job => job.id).Nodup :=
    reg.listGlobalJobs_nodup.sublist (List.filter_sublist.map _)
  change ((reg.listGlobalJobs.filter (affected dead)).flatMap
    (reroutePush now dead (otherClusters reg dead))).filter _ = _
  rw [List.filter_flatMap, flatMap_eq_of_nodup hnodup hmem]
  · apply List.filter_eq_self.mpr
    intro push hpush
    exact decide_eq_true (id_of_mem_reroutePush hpush)
  · intro other _ hne
    apply List.filter_eq_nil_iff.mpr
    intro push hpush he
    exact hne ((id_of_mem_reroutePush hpush).symm.trans (of_decide_eq_true he))

end Pushes

/-- What a failover owes the registry it found, in terms of what it leaves and returns. -/
structure Rerouted (reg : FederationRegistry) (dead : ClusterId) (after : FederationRegistry)
    (ev : FailoverEvent) (pushes : List (GlobalJobRecord × ClusterRecord)) : Prop where
  /-- No active job is with the dead cluster any more. -/
  vacated : ∀ id job, after.getGlobalJob id = some job →
    job.status ∈ [.queued,.routed,.running,.migrated] → job.assignedClusterId ≠ some dead
  /-- A job of another cluster, or with an outcome, is as it was, and no job is new. -/
  kept : ∀ id, (∀ job, reg.getGlobalJob id = some job → job.assignedClusterId ≠ some dead ∨
    job.status = .completed ∨ job.status = .failed) →
      after.getGlobalJob id = reg.getGlobalJob id
  /-- With an eligible cluster the job is migrated to a best one, and pushed there once. -/
  migrated : ∀ job, reg.getGlobalJob job.id = some job → affected dead job = true →
    (∃ c, Eligible reg dead job c) → ∃ target saved,
      Eligible reg dead job target ∧
      (∀ c, Eligible reg dead job c → scoreCluster job c ≤ scoreCluster job target) ∧
      after.getGlobalJob job.id = some saved ∧ saved.status = .migrated ∧
      saved.assignedClusterId = some target.clusterId ∧
      pushes.filter (fun push => push.1.id = job.id) = [(saved,target)]
  /-- Without one it is queued, with no cluster and no push. -/
  requeued : ∀ job, reg.getGlobalJob job.id = some job → affected dead job = true →
    (¬∃ c, Eligible reg dead job c) → ∃ saved,
      after.getGlobalJob job.id = some saved ∧ saved.status = .queued ∧
      saved.assignedClusterId = none ∧ pushes.filter (fun push => push.1.id = job.id) = []
  pushedAffected : ∀ push ∈ pushes,
    ∃ job, reg.getGlobalJob push.1.id = some job ∧ affected dead job = true
  counted : ev.jobsRerouted = pushes.length

/-- A job that the failover moves, afterwards. -/
theorem getGlobalJob_of_affected {reg : FederationRegistry} (now : ℚ) {dead : ClusterId}
    {job : GlobalJobRecord} (h : reg.getGlobalJob job.id = some job)
    (haffected : affected dead job = true) :
    (rerouteJobsFromDeadCluster reg now dead).1.getGlobalJob job.id =
      some ((rerouteJob now dead (otherClusters reg dead) job).1.stamp now) := by
  rw [getGlobalJob_rerouteJobs, h, Option.map_some, if_pos haffected]

theorem affected_eq_true_iff {dead : ClusterId} {job : GlobalJobRecord} :
    affected dead job = true ↔
      job.assignedClusterId = some dead ∧ job.status ∈ [.queued,.routed,.running,.migrated] := by
  rw [affected, Bool.and_eq_true, decide_eq_true_iff, GlobalJobStatus.active, decide_eq_true_iff]

/-- A failover, taken as one step, pays what it owes. -/
theorem rerouted_rerouteJobs (reg : FederationRegistry) (now : ℚ) (dead : ClusterId) :
    Rerouted reg dead (rerouteJobsFromDeadCluster reg now dead).1
      (rerouteJobsFromDeadCluster reg now dead).2.1
      (rerouteJobsFromDeadCluster reg now dead).2.2 where
  vacated id job hget hactive hassigned := by
    rw [getGlobalJob_rerouteJobs] at hget
    obtain ⟨old,-,rfl⟩ := Option.map_eq_some_iff.mp hget
    by_cases haffected : affected dead old = true
    · rw [if_pos haffected, GlobalJobRecord.stamp_assignedClusterId] at hassigned
      obtain ⟨-,-,hnone⟩ | ⟨pick,hpick,-,-,-,hsome⟩ :=
        rerouteJob_cases now dead (otherClusters reg dead) old
      · rw [hnone] at hassigned
        cases hassigned
      · rw [hsome, Option.some.injEq] at hassigned
        have halive := (Bool.and_eq_true _ _ ▸ (List.mem_filter.mp hpick).2).1
        exact of_decide_eq_true halive hassigned
    · rw [if_neg haffected] at hactive hassigned
      exact haffected (affected_eq_true_iff.mpr ⟨hassigned,hactive⟩)
  kept id h := by
    rw [getGlobalJob_rerouteJobs]
    cases hget : reg.getGlobalJob id with
    | none => rfl
    | some job =>
      have haffected : ¬affected dead job = true := by
        rw [affected_eq_true_iff]
        rintro ⟨hassigned,hactive⟩
        obtain hne | hst | hst := h job hget
        · exact hne hassigned
        · rw [hst] at hactive
          exact absurd hactive (by decide)
        · rw [hst] at hactive
          exact absurd hactive (by decide)
      rw [Option.map_some, if_neg haffected]
  migrated job h haffected heligible := by
    obtain ⟨hnone,-⟩ | ⟨pick,-,-,hpick,hst,hassigned⟩ :=
      rerouteJob_cases now dead (otherClusters reg dead) job
    · exact absurd heligible (rerouteJob_eq_none_iff.mp hnone)
    · obtain ⟨hpicked,hbest⟩ := eligible_of_rerouteJob hpick
      refine ⟨pick,_,hpicked,hbest,getGlobalJob_of_affected now h haffected,hst,hassigned,?_⟩
      rw [pushes_about h haffected, reroutePush, hpick]
      rfl
  requeued job h haffected hnone := by
    have hpick : (rerouteJob now dead (otherClusters reg dead) job).2 = none :=
      rerouteJob_eq_none_iff.mpr hnone
    obtain ⟨-,hst,hassigned⟩ | ⟨pick,-,-,hsome,-,-⟩ :=
      rerouteJob_cases now dead (otherClusters reg dead) job
    · refine ⟨_,getGlobalJob_of_affected now h haffected,hst,hassigned,?_⟩
      rw [pushes_about h haffected, reroutePush, hpick]
      rfl
    · rw [hpick] at hsome
      cases hsome
  pushedAffected _ h := affected_of_mem_pushes h
  counted := rfl

end Arsonist.Federation
