import Arsonist.Federation.CrossClusterScheduler

/-! The failover of `federation/failover.py`: the active jobs of a dead cluster go to the best
of the others, or back to the queue when there is none. -/
namespace Arsonist.Federation
open Arsonist.Library Arsonist.Mesh

structure FailoverEvent where
  ts : ℚ
  deadClusterId : ClusterId
  jobsRerouted : ℕ
  detail : String := ""
  deriving DecidableEq

def otherClusters (reg : FederationRegistry) (dead : ClusterId) : List ClusterRecord :=
  reg.listClusters.filter fun c => c.clusterId ≠ dead && c.healthState ≠ .offline

/-- The jobs that the failover moves. -/
def affected (dead : ClusterId) (job : GlobalJobRecord) : Bool :=
  job.assignedClusterId = some dead && job.status.active

/-- The record that the failover writes for a job, and where the job is pushed to. -/
def rerouteJob (now : ℚ) (dead : ClusterId) (others : List ClusterRecord)
    (job : GlobalJobRecord) : GlobalJobRecord × Option ClusterRecord :=
  let gjr := { job with
    executionLogs := job.executionLogs ++ [⟨now,"failover from " ++ dead⟩] }
  match (bestCluster gjr others).1 with
  | none => ({ gjr with status := .queued, assignedClusterId := none },none)
  | some pick =>
    ({ gjr with
        assignedClusterId := some pick.clusterId
        status := .migrated
        executionLogs := gjr.executionLogs ++
          [⟨now,"rerouted to " ++ pick.clusterId ++ " (failover)"⟩] },
      some pick)

/-- The push of a job that the failover has saved. -/
def reroutePush (now : ℚ) (dead : ClusterId) (others : List ClusterRecord)
    (job : GlobalJobRecord) : List (GlobalJobRecord × ClusterRecord) :=
  let moved := rerouteJob now dead others job
  moved.2.toList.map fun pick => (moved.1.stamp now,pick)

/-- The registry afterwards, the event, and the pushes that are left to do. -/
def rerouteJobsFromDeadCluster (reg : FederationRegistry) (now : ℚ) (dead : ClusterId) :
    FederationRegistry × FailoverEvent × List (GlobalJobRecord × ClusterRecord) :=
  let others := otherClusters reg dead
  let todo := reg.listGlobalJobs.filter (affected dead)
  let pushes := todo.flatMap (reroutePush now dead others)
  (todo.foldl (fun reg job => reg.saveGlobalJob now (rerouteJob now dead others job).1) reg,
    ⟨now,dead,pushes.length,""⟩,pushes)

@[simp] theorem rerouteJob_id (now : ℚ) (dead : ClusterId) (others : List ClusterRecord)
    (job : GlobalJobRecord) : (rerouteJob now dead others job).1.id = job.id := by
  unfold rerouteJob
  dsimp only
  split <;> rfl

/-- What the failover writes: the job is queued without a cluster, or it is migrated to one of
the others and a push to that cluster follows. -/
theorem rerouteJob_cases (now : ℚ) (dead : ClusterId) (others : List ClusterRecord)
    (job : GlobalJobRecord) :
    (rerouteJob now dead others job).2 = none ∧
      (rerouteJob now dead others job).1.status = .queued ∧
      (rerouteJob now dead others job).1.assignedClusterId = none ∨
    ∃ pick ∈ others, pick.healthState ≠ .offline ∧
      (rerouteJob now dead others job).2 = some pick ∧
      (rerouteJob now dead others job).1.status = .migrated ∧
      (rerouteJob now dead others job).1.assignedClusterId = some pick.clusterId := by
  unfold rerouteJob
  dsimp only
  split
  · exact Or.inl ⟨rfl,rfl,rfl⟩
  · rename_i pick hpick
    obtain ⟨hmem,honline⟩ := bestCluster_mem hpick
    exact Or.inr ⟨pick,hmem,honline,rfl,rfl,rfl⟩

theorem globalJobs_rerouteJobs (reg : FederationRegistry) (now : ℚ) (dead : ClusterId) :
    (rerouteJobsFromDeadCluster reg now dead).1.globalJobs =
      (reg.listGlobalJobs.filter (affected dead)).foldl
        (fun t job => t.replace ((rerouteJob now dead (otherClusters reg dead) job).1.stamp now))
        reg.globalJobs :=
  (List.foldl_hom FederationRegistry.globalJobs fun _ _ => rfl).symm

theorem clusters_rerouteJobs (reg : FederationRegistry) (now : ℚ) (dead : ClusterId) :
    (rerouteJobsFromDeadCluster reg now dead).1.clusters = reg.clusters := by
  unfold rerouteJobsFromDeadCluster
  dsimp only
  generalize reg.listGlobalJobs.filter (affected dead) = todo
  generalize otherClusters reg dead = others
  induction todo generalizing reg with
  | nil => rfl
  | cons job todo ih => exact ih _

/-- The failover rewrites the affected jobs and touches no other. -/
theorem getGlobalJob_rerouteJobs (reg : FederationRegistry) (now : ℚ) (dead : ClusterId)
    (id : GlobalJobId) :
    (rerouteJobsFromDeadCluster reg now dead).1.getGlobalJob id =
      (reg.getGlobalJob id).map fun job =>
        if affected dead job then
          (rerouteJob now dead (otherClusters reg dead) job).1.stamp now
        else job := by
  have hmem : ∀ job, job ∈ reg.listGlobalJobs.filter (affected dead) ↔
      reg.globalJobs.get? (Keyed.key job) = some job ∧ affected dead job = true := by
    intro job
    rw [List.mem_filter, FederationRegistry.mem_listGlobalJobs]
    rfl
  rw [FederationRegistry.getGlobalJob, globalJobs_rerouteJobs,
    Table.get?_foldl_replace
      (fun job => (rerouteJob now dead (otherClusters reg dead) job).1.stamp now)
      (fun job => rerouteJob_id now dead _ job) _
      (reg.listGlobalJobs_nodup.sublist (List.filter_sublist.map _)),
    Table.find?_of_mem_iff hmem]
  change _ = (reg.globalJobs.get? id).map _
  cases reg.globalJobs.get? id with
  | none => rfl
  | some job =>
    rw [Option.filter_some, Option.map_some]
    by_cases haffected : affected dead job = true
    · rw [if_pos haffected, if_pos haffected]
      rfl
    · rw [if_neg haffected, if_neg haffected]
      rfl

theorem mem_otherClusters {reg : FederationRegistry} {dead : ClusterId} {c : ClusterRecord}
    (h : c ∈ otherClusters reg dead) : reg.getCluster c.clusterId = some c :=
  FederationRegistry.mem_listClusters.mp (List.mem_filter.mp h).1

end Arsonist.Federation
