import Arsonist.Federation.Controller
import Arsonist.Library.Runs

/-! The watch loop, with each operation of the controller taken as a whole: which jobs an
iteration leaves on an offline cluster. -/
namespace Arsonist.Federation
open Arsonist.Library Arsonist.Mesh

/-- An operation, with the time at which it runs and the outcome of its push. -/
inductive ControllerOp
  | register (now : ℚ) (body : ClusterRegistration)
  | heartbeat (now : ℚ) (payload : FederationHeartbeatPayload)
  | submit (now : ℚ) (body : SubmitGlobalJobBody) (fresh : GlobalJobId)
      (pushError : Option String)
  | complete (now : ℚ) (payload : GlobalJobCompletePayload)
  | watch (now timeout : ℚ)

/-- The registry, and as history what the clusters have reported about themselves when they
registered and in their heartbeats, the last report first. -/
structure Observed where
  registry : FederationRegistry := {}
  reports : List (ClusterId × ClusterHealth) := []

namespace Observed

def exec (s : Observed) : ControllerOp → Observed
  | .register now body =>
    match registerCluster s.registry now body with
    | .error _ => s
    | .ok reg => ⟨reg,(body.clusterId,body.healthState) :: s.reports⟩
  | .heartbeat now payload =>
    match applyHeartbeat s.registry now payload with
    | none => s
    | some written => ⟨written.1,(payload.clusterId,payload.healthState) :: s.reports⟩
  | .submit now body fresh pushError =>
    { s with registry := (submitGlobalJob s.registry now body fresh pushError).1 }
  | .complete now payload =>
    match globalJobComplete s.registry now payload with
    | .error _ => s
    | .ok reg => { s with registry := reg }
  | .watch now timeout => { s with registry := (watchIteration s.registry now timeout).1 }

/-- The health that a cluster has reported last. -/
def lastReport (s : Observed) (c : ClusterId) : Option ClusterHealth :=
  (s.reports.find? fun r => r.1 = c).map Prod.snd

end Observed

namespace FederationRegistry
variable (reg : FederationRegistry)

/-- A job is stored as queued, routed, running or migrated and assigned to the cluster. -/
def Occupies (id : GlobalJobId) (c : ClusterId) : Prop :=
  ∃ job, reg.getGlobalJob id = some job ∧ job.status.active = true ∧
    job.assignedClusterId = some c

def Offline (c : ClusterId) : Prop :=
  ∃ cluster, reg.getCluster c = some cluster ∧ cluster.healthState = .offline

def Online (c : ClusterId) : Prop :=
  ∃ cluster, reg.getCluster c = some cluster ∧ cluster.healthState ≠ .offline

variable {reg}

theorem Online.not_offline {c : ClusterId} (h : reg.Online c) : ¬ reg.Offline c := by
  rintro ⟨d,hd,hoff⟩
  obtain ⟨e,he,hon⟩ := h
  rw [hd] at he
  exact hon (Option.some.inj he ▸ hoff)

/-- A job that occupies a cluster after the failover does so because it was moved there and the
cluster is online, or because it did before and the cluster is not the dead one. -/
theorem Occupies.of_reroute {now : ℚ} {dead : ClusterId} {id : GlobalJobId} {c : ClusterId}
    (h : (rerouteJobsFromDeadCluster reg now dead).1.Occupies id c) :
    reg.Online c ∨ c ≠ dead ∧ reg.Occupies id c := by
  obtain ⟨job,hget,hactive,hassigned⟩ := h
  rw [getGlobalJob_rerouteJobs] at hget
  obtain ⟨old,hold,rfl⟩ := Option.map_eq_some_iff.mp hget
  by_cases haffected : affected dead old = true
  · rw [if_pos haffected] at hassigned
    rcases rerouteJob_cases now dead (otherClusters reg dead) old with
      ⟨-,-,hnone⟩ | ⟨pick,hmem,honline,-,-,hpick⟩
    · rw [GlobalJobRecord.stamp_assignedClusterId, hnone] at hassigned
      cases hassigned
    · rw [GlobalJobRecord.stamp_assignedClusterId, hpick] at hassigned
      obtain rfl := Option.some.inj hassigned
      exact Or.inl ⟨pick,mem_otherClusters hmem,honline⟩
  · rw [if_neg haffected] at hassigned hactive
    refine Or.inr ⟨?_,old,hold,hactive,hassigned⟩
    rintro rfl
    exact haffected (by simp [affected, hassigned, hactive])

/-- A job on another cluster is left alone. -/
theorem Occupies.reroute {now : ℚ} {dead : ClusterId} {id : GlobalJobId} {c : ClusterId}
    (h : reg.Occupies id c) (hne : c ≠ dead) :
    (rerouteJobsFromDeadCluster reg now dead).1.Occupies id c := by
  obtain ⟨job,hget,hactive,hassigned⟩ := h
  have haffected : ¬ affected dead job = true := by
    simp [affected, hassigned, hne]
  refine ⟨job,?_,hactive,hassigned⟩
  rw [getGlobalJob_rerouteJobs, hget, Option.map_some, if_neg haffected]

theorem getCluster_reroute (now : ℚ) (dead c : ClusterId) :
    (rerouteJobsFromDeadCluster reg now dead).1.getCluster c = reg.getCluster c := by
  rw [getCluster, clusters_rerouteJobs]
  rfl

theorem getCluster_failoverAll (now : ℚ) (dead : List ClusterId) (c : ClusterId) :
    (failoverAll now reg dead).1.getCluster c = reg.getCluster c := by
  induction dead generalizing reg with
  | nil => rfl
  | cons d rest ih => exact ih.trans (getCluster_reroute now d c)

/-- After the failover of several clusters: a job occupies an online cluster, or the one that it
occupied before, which is none of the dead ones. -/
theorem Occupies.of_failoverAll {now : ℚ} {dead : List ClusterId} {id : GlobalJobId}
    {c : ClusterId} (h : (failoverAll now reg dead).1.Occupies id c) :
    reg.Online c ∨ c ∉ dead ∧ reg.Occupies id c := by
  induction dead generalizing reg with
  | nil => exact Or.inr ⟨List.not_mem_nil,h⟩
  | cons d rest ih =>
    have hcluster : (rerouteJobsFromDeadCluster reg now d).1.getCluster c = reg.getCluster c :=
      getCluster_reroute now d c
    obtain honline | ⟨hrest,hmid⟩ := ih h
    · rw [Online, hcluster] at honline
      exact Or.inl honline
    · obtain honline | ⟨hne,hold⟩ := hmid.of_reroute
      · exact Or.inl honline
      · exact Or.inr ⟨List.not_mem_cons_of_ne_of_not_mem hne hrest,hold⟩

theorem Occupies.failoverAll {now : ℚ} {dead : List ClusterId} {id : GlobalJobId}
    {c : ClusterId} (h : reg.Occupies id c) (hc : c ∉ dead) :
    (failoverAll now reg dead).1.Occupies id c := by
  induction dead generalizing reg with
  | nil => exact h
  | cons d rest ih =>
    exact ih (h.reroute (List.ne_of_not_mem_cons hc)) (List.not_mem_of_not_mem_cons hc)

variable {now timeout : ℚ}

theorem getCluster_watchIteration (c : ClusterId) :
    (watchIteration reg now timeout).1.getCluster c =
      (reg.getCluster c).map fun c => if stale timeout now c then offlineRecord c else c :=
  (getCluster_failoverAll now _ c).trans (getCluster_sweepStaleClusters reg now timeout c)

/-- A cluster is offline after the iteration if it was before or has gone stale. -/
theorem offline_watchIteration {c : ClusterId} :
    (watchIteration reg now timeout).1.Offline c ↔
      reg.Offline c ∨ c ∈ (sweepStaleClusters reg now timeout).2 := by
  rw [Offline, getCluster_watchIteration, mem_sweepStaleClusters]
  constructor
  · rintro ⟨after,hafter,hoff⟩
    obtain ⟨before,hbefore,rfl⟩ := Option.map_eq_some_iff.mp hafter
    by_cases hstale : stale timeout now before = true
    · exact Or.inr ⟨before,hbefore,hstale⟩
    · rw [if_neg hstale] at hoff
      exact Or.inl ⟨before,hbefore,hoff⟩
  · rintro (⟨before,hbefore,hoff⟩ | ⟨before,hbefore,hstale⟩)
    · refine ⟨_,by rw [hbefore, Option.map_some],?_⟩
      split
      · rfl
      · exact hoff
    · exact ⟨_,by rw [hbefore, Option.map_some, if_pos hstale],rfl⟩

theorem occupies_sweep {id : GlobalJobId} {c : ClusterId} :
    (sweepStaleClusters reg now timeout).1.Occupies id c ↔ reg.Occupies id c := by
  rw [Occupies, getGlobalJob, globalJobs_sweepStaleClusters]
  rfl

/-- A cluster that the sweep passes over because it is offline is not in the failover. -/
theorem Offline.not_swept {c : ClusterId} (h : reg.Offline c) :
    c ∉ (sweepStaleClusters reg now timeout).2 := by
  rw [mem_sweepStaleClusters]
  rintro ⟨d,hd,hstale⟩
  obtain ⟨e,he,hoff⟩ := h
  rw [hd] at he
  rw [Option.some.inj he] at hstale
  simp [stale, hoff] at hstale

/-- The jobs that an iteration leaves on offline clusters are the jobs that were on clusters
that were offline before. -/
theorem stranded_watchIteration {id : GlobalJobId} {c : ClusterId} :
    (watchIteration reg now timeout).1.Occupies id c ∧
      (watchIteration reg now timeout).1.Offline c ↔
    reg.Occupies id c ∧ reg.Offline c := by
  constructor
  · rintro ⟨hocc,hoff⟩
    obtain honline | ⟨hnot,hbefore⟩ := Occupies.of_failoverAll hocc
    · rw [Online, ← getCluster_failoverAll now] at honline
      exact absurd hoff (Online.not_offline honline)
    · obtain hold | hswept := offline_watchIteration.mp hoff
      · exact ⟨occupies_sweep.mp hbefore,hold⟩
      · exact absurd hswept hnot
  · rintro ⟨hocc,hoff⟩
    exact ⟨(occupies_sweep.mpr hocc).failoverAll hoff.not_swept,
      offline_watchIteration.mpr (Or.inl hoff)⟩

/-- After a save: the record that was saved, or a job with another id. -/
theorem Occupies.of_save {job : GlobalJobRecord} {id : GlobalJobId} {c : ClusterId}
    (h : (reg.saveGlobalJob now job).Occupies id c) :
    job.assignedClusterId = some c ∧ job.status.active = true ∨ reg.Occupies id c := by
  obtain ⟨stored,hget,hactive,hassigned⟩ := h
  rw [getGlobalJob_saveGlobalJob] at hget
  split at hget
  · obtain rfl := Option.some.inj hget
    exact Or.inl ⟨hassigned,hactive⟩
  · exact Or.inr ⟨stored,hget,hactive,hassigned⟩

/-- A submission assigns jobs to online clusters only. -/
theorem Occupies.of_submit {body : SubmitGlobalJobBody} {fresh id : GlobalJobId}
    {pushError : Option String} {c : ClusterId}
    (h : (submitGlobalJob reg now body fresh pushError).1.Occupies id c) :
    reg.Online c ∨ reg.Occupies id c := by
  let gj := (acceptedJob now (submittedId body fresh) body).stamp now
  have haccepted : ∀ {id c}, (reg.saveGlobalJob now gj).Occupies id c → reg.Occupies id c := by
    intro id c hocc
    obtain ⟨hassigned,-⟩ | hold := hocc.of_save
    · cases hassigned
    · exact hold
  unfold submitGlobalJob at h
  dsimp only at h
  split at h
  · exact Or.inr (haccepted h)
  · rename_i htarget
    obtain ⟨target,hget,honline⟩ := getCluster_decideRoute htarget
    have hrouted : ∀ {routed : GlobalJobRecord} {id c}, routed.assignedClusterId =
        some (decideRoute (reg.saveGlobalJob now gj) gj).targetClusterId →
        ((reg.saveGlobalJob now gj).saveGlobalJob now routed).Occupies id c →
        reg.Online c ∨ reg.Occupies id c := by
      intro routed id c hassign hocc
      obtain ⟨hassigned,-⟩ | hold := hocc.of_save
      · rw [hassign] at hassigned
        exact Or.inl ⟨target,Option.some.inj hassigned ▸ hget,honline⟩
      · exact Or.inr (haccepted hold)
    split at h
    · exact hrouted rfl h
    · split at h
      · exact hrouted rfl h
      · obtain ⟨hassigned,-⟩ | hold := h.of_save
        · cases hassigned
        · exact hrouted rfl hold

theorem getCluster_submitGlobalJob (body : SubmitGlobalJobBody) (fresh : GlobalJobId)
    (pushError : Option String) (c : ClusterId) :
    (submitGlobalJob reg now body fresh pushError).1.getCluster c = reg.getCluster c := by
  unfold submitGlobalJob
  dsimp only
  split
  · rfl
  · split
    · rfl
    · split <;> rfl

/-- A recorded outcome ends the occupation. -/
theorem Occupies.of_complete {payload : GlobalJobCompletePayload} {after : FederationRegistry}
    {id : GlobalJobId} {c : ClusterId} (h : globalJobComplete reg now payload = .ok after)
    (hocc : after.Occupies id c) : reg.Occupies id c := by
  unfold globalJobComplete at h
  split at h
  · cases h
  · obtain rfl := Except.ok.inj h
    obtain ⟨-,hactive⟩ | hold := hocc.of_save
    · simp only [doneJob, reportedStatus] at hactive
      split at hactive <;> cases hactive
    · exact hold

end FederationRegistry

namespace Observed
open FederationRegistry

/-- Where the offline clusters that hold a job come from: they have reported it themselves. -/
structure Sound (s : Observed) : Prop where
  offline_of_report : ∀ c, s.lastReport c = some .offline → s.registry.Offline c
  report_of_offline : ∀ c id, s.registry.Offline c → s.registry.Occupies id c →
    s.lastReport c = some .offline

theorem lastReport_cons (reg : FederationRegistry) (reports : List (ClusterId × ClusterHealth))
    (c d : ClusterId) (health : ClusterHealth) :
    lastReport ⟨reg,(d,health) :: reports⟩ c =
      if c = d then some health else lastReport ⟨reg,reports⟩ c := by
  unfold lastReport
  dsimp only
  by_cases hcd : c = d
  · simp [hcd]
  · rw [List.find?_cons_of_neg (by simpa using Ne.symm hcd), if_neg hcd]

/-- A report is written with the health that it reports. -/
theorem Sound.report {s : Observed} (h : s.Sound) (written : ClusterRecord) :
    Sound ⟨s.registry.upsertCluster written,
      (written.clusterId,written.healthState) :: s.reports⟩ := by
  refine ⟨fun c hlast => ?_,fun c id hoff hocc => ?_⟩
  · rw [lastReport_cons] at hlast
    rw [Offline, getCluster_upsertCluster]
    by_cases hc : c = written.clusterId
    · rw [if_pos hc] at hlast ⊢
      exact ⟨written,rfl,Option.some.inj hlast⟩
    · rw [if_neg hc] at hlast ⊢
      exact h.offline_of_report c hlast
  · rw [lastReport_cons]
    rw [Offline, getCluster_upsertCluster] at hoff
    by_cases hc : c = written.clusterId
    · rw [if_pos hc] at hoff ⊢
      obtain ⟨d,hd,hoff⟩ := hoff
      obtain rfl := Option.some.inj hd
      rw [hoff]
    · rw [if_neg hc] at hoff ⊢
      exact h.report_of_offline c id hoff hocc

/-- A change of the jobs that brings jobs to online clusters only. -/
theorem Sound.jobs {s : Observed} (h : s.Sound) {reg : FederationRegistry}
    (hclusters : ∀ c, reg.getCluster c = s.registry.getCluster c)
    (hjobs : ∀ id c, reg.Occupies id c → s.registry.Online c ∨ s.registry.Occupies id c) :
    Sound { s with registry := reg } := by
  have hoff : ∀ c, reg.Offline c ↔ s.registry.Offline c := fun c => by
    rw [Offline, hclusters, Offline]
  refine ⟨fun c hlast => (hoff c).mpr (h.offline_of_report c hlast),fun c id hc hocc => ?_⟩
  obtain honline | hold := hjobs id c hocc
  · exact absurd ((hoff c).mp hc) honline.not_offline
  · exact h.report_of_offline c id ((hoff c).mp hc) hold

/-- An iteration of the watch loop takes the jobs away from the clusters that it turns
offline. -/
theorem Sound.watch {s : Observed} (h : s.Sound) (now timeout : ℚ) :
    Sound { s with registry := (watchIteration s.registry now timeout).1 } := by
  refine ⟨fun c hlast => ?_,fun c id hoff hocc => ?_⟩
  · exact offline_watchIteration.mpr (Or.inl (h.offline_of_report c hlast))
  · obtain ⟨hold,hbefore⟩ := stranded_watchIteration.mp ⟨hocc,hoff⟩
    exact h.report_of_offline c id hbefore hold

theorem Sound.exec {s : Observed} (h : s.Sound) (op : ControllerOp) : (s.exec op).Sound := by
  cases op with
  | register now body =>
    rw [Observed.exec, registerCluster]
    cases urlHolder s.registry body with
    | some c => exact h
    | none => exact h.report (registrationRecord s.registry now body)
  | heartbeat now payload =>
    rw [Observed.exec, applyHeartbeat]
    cases hget : s.registry.getCluster payload.clusterId with
    | none => exact h
    | some existing =>
      have hid : existing.clusterId = payload.clusterId := clusterId_of_getCluster hget
      have hreport := h.report (beatRecord now existing payload)
      rw [beatRecord_clusterId, hid] at hreport
      exact hreport
  | submit now body fresh pushError =>
    exact h.jobs (getCluster_submitGlobalJob body fresh pushError) fun _ _ => Occupies.of_submit
  | complete now payload =>
    rw [Observed.exec]
    cases hdone : globalJobComplete s.registry now payload with
    | error e => exact h
    | ok reg =>
      refine h.jobs (fun c => ?_) fun id c hocc => Or.inr (hocc.of_complete hdone)
      unfold globalJobComplete at hdone
      split at hdone
      · cases hdone
      · rw [← Except.ok.inj hdone]
        rfl
  | watch now timeout => exact h.watch now timeout

/-- An iteration starts when no job is on a cluster that has last reported to be offline. -/
def ReportedFree (s : Observed) : ControllerOp → Prop
  | .watch _ _ => ∀ id c, s.registry.Occupies id c → s.lastReport c ≠ some .offline
  | _ => True

/-- Right after every iteration, no job is on an offline cluster. -/
def NoneStranded (ops : List ControllerOp) : Prop :=
  ∀ p now timeout q, ops = p ++ .watch now timeout :: q →
    ∀ id c, (run exec {} (p ++ [.watch now timeout])).registry.Occupies id c →
      ¬ (run exec {} (p ++ [.watch now timeout])).registry.Offline c

theorem sound_run (ops : List ControllerOp) : (run exec {} ops).Sound := by
  apply run_always (I := Sound) fun s op h => h.exec op
  refine ⟨fun c hlast => ?_,fun c id hoff => ?_⟩
  · cases hlast
  · obtain ⟨d,hd,-⟩ := hoff
    cases hd

end Observed

end Arsonist.Federation
