import Arsonist.Federation.Rerouting
import Arsonist.Library.StableSort

/-! Which cluster a job that needs a GPU is given: having one is a term of the score and not a
condition, as it is for the nodes of a cluster. -/
namespace Arsonist.Federation
open Arsonist.Library Arsonist.Mesh Arsonist.Scheduler

/-- The cluster takes part in the ranking. -/
structure Candidate (job : GlobalJobRecord) (c : ClusterRecord) : Prop where
  online : c.healthState ≠ .offline
  score : 0 ≤ scoreCluster job c

/-- A cluster with its score, where it is a candidate. -/
def scored (job : GlobalJobRecord) (c : ClusterRecord) : Option (ClusterRecord × ℚ) :=
  if c.healthState ≠ .offline ∧ 0 ≤ scoreCluster job c then some (c,scoreCluster job c) else none

theorem scored_eq_some_iff {job : GlobalJobRecord} {c : ClusterRecord} {p : ClusterRecord × ℚ} :
    scored job c = some p ↔ Candidate job c ∧ p = (c,scoreCluster job c) := by
  unfold scored
  split_ifs with h
  · exact ⟨fun he => ⟨⟨h.1,h.2⟩,(Option.some.inj he).symm⟩,fun he => he.2 ▸ rfl⟩
  · exact iff_of_false nofun fun he => h ⟨he.1.online,he.1.score⟩

theorem rankClusters_eq (job : GlobalJobRecord) (clusters : List ClusterRecord) :
    rankClusters job clusters =
      (clusters.filterMap (scored job)).insertionSort fun a b => b.2 ≤ a.2 := by
  unfold rankClusters
  dsimp only
  congr 1
  induction clusters with
  | nil => rfl
  | cons c clusters ih =>
    rw [List.filterMap_cons, scored, List.filter_cons]
    by_cases honline : c.healthState = .offline
    · simpa [honline] using ih
    · by_cases hscore : 0 ≤ scoreCluster job c
      · simpa [honline,hscore] using ih
      · simpa [honline,hscore] using ih

/-- The chosen cluster beats the candidates before it, and those behind it do not beat it. -/
theorem bestCluster_split {job : GlobalJobRecord} {clusters : List ClusterRecord}
    {b : ClusterRecord} (h : (bestCluster job clusters).1 = some b) :
    ∃ p q, clusters = p ++ b :: q ∧ Candidate job b ∧
      (∀ c ∈ p, Candidate job c → scoreCluster job c < scoreCluster job b) ∧
      ∀ c ∈ q, Candidate job c → scoreCluster job c ≤ scoreCluster job b := by
  obtain ⟨best,hbest,rfl⟩ := Option.map_eq_some_iff.mp h
  rw [rankClusters_eq] at hbest
  have hr : ∀ a ∈ clusters.filterMap (scored job), ∀ b ∈ clusters.filterMap (scored job),
      (b.2 ≤ a.2 ↔ OrderDual.toDual a.2 ≤ OrderDual.toDual b.2) := fun _ _ _ _ => Iff.rfl
  obtain ⟨ps,qs,hsplit,hps,hqs⟩ := head?_insertionSort hr hbest
  obtain ⟨p,rest,rfl,rfl,hrest⟩ := List.filterMap_eq_append_iff.mp hsplit
  obtain ⟨skip,c,q,rfl,hskip,hc,rfl⟩ := List.filterMap_eq_cons_iff.mp hrest
  obtain ⟨hcandidate,rfl⟩ := scored_eq_some_iff.mp hc
  have hscored : ∀ d, Candidate job d → scored job d = some (d,scoreCluster job d) :=
    fun d hcand => scored_eq_some_iff.mpr ⟨hcand,rfl⟩
  refine ⟨p ++ skip,q,by rw [List.append_assoc],hcandidate,fun d hd hcand => ?_,
    fun d hd hcand => ?_⟩
  · obtain hd | hd := List.mem_append.mp hd
    · have hlt := hps (d,scoreCluster job d) (List.mem_filterMap.mpr ⟨d,hd,hscored d hcand⟩)
      exact OrderDual.toDual_lt_toDual.mp hlt
    · have hsome := hscored d hcand
      rw [hskip d hd] at hsome
      cases hsome
  · have hle := hqs (d,scoreCluster job d) (List.mem_filterMap.mpr ⟨d,hd,hscored d hcand⟩)
    exact OrderDual.toDual_le_toDual.mp hle

/-- Every candidate without a GPU is beaten by one that has one: by a better score, or by an
earlier place at the same score. -/
def GpuOutranks (job : GlobalJobRecord) (clusters : List ClusterRecord) : Prop :=
  ∀ p c q, clusters = p ++ c :: q → Candidate job c → c.gpuCapacity ≤ 0 →
    ∃ g ∈ clusters, Candidate job g ∧ 0 < g.gpuCapacity ∧
      (scoreCluster job c < scoreCluster job g ∨
        scoreCluster job c = scoreCluster job g ∧ g ∈ p)

theorem gpuOutranks_of_best {job : GlobalJobRecord} {clusters : List ClusterRecord}
    (h : ∀ b, (bestCluster job clusters).1 = some b → 0 < b.gpuCapacity) :
    GpuOutranks job clusters := by
  rintro p c q rfl hc hgpu
  cases hbest : (bestCluster job (p ++ c :: q)).1 with
  | none =>
    exact absurd (bestCluster_eq_none_iff.mp hbest c (by simp) hc.online) hc.score.not_gt
  | some b =>
    have hb := h b hbest
    obtain ⟨p',q',hsplit,hcandidate,hp',hq'⟩ := bestCluster_split hbest
    have hne : c ≠ b := by
      rintro rfl
      exact hb.not_ge hgpu
    refine ⟨b,hsplit ▸ by simp,hcandidate,hb,?_⟩
    -- whether `c` stands before the chosen cluster or behind it
    obtain ⟨m,rfl,hm⟩ | ⟨m,rfl,hm⟩ := List.append_eq_append_iff.mp hsplit
    · cases m with
      | nil => exact absurd (List.cons.inj hm).1 hne
      | cons d m =>
        obtain ⟨rfl,-⟩ := List.cons.inj hm
        exact Or.inl (hp' c (by simp) hc)
    · cases m with
      | nil => exact absurd (List.cons.inj hm).1.symm hne
      | cons d m =>
        obtain ⟨rfl,rfl⟩ := List.cons.inj hm
        obtain hlt | heq := (hq' c (by simp) hc).lt_or_eq
        · exact Or.inl hlt
        · exact Or.inr ⟨heq,by simp⟩

theorem gpu_of_gpuOutranks {job : GlobalJobRecord} {clusters : List ClusterRecord}
    {b : ClusterRecord} (h : GpuOutranks job clusters)
    (hbest : (bestCluster job clusters).1 = some b) : 0 < b.gpuCapacity := by
  obtain ⟨p,q,hsplit,hcandidate,hp,-⟩ := bestCluster_split hbest
  by_contra hgpu
  obtain ⟨g,hg,hcand,-,hlt | ⟨heq,hbefore⟩⟩ := h p b q hsplit hcandidate (not_lt.mp hgpu)
  · exact (bestCluster_best hbest hg hcand.online hcand.score).not_gt hlt
  · exact absurd heq (hp g hbefore hcand).ne'

/-- Jobs with the same scores have the same candidates, in the same order. -/
theorem GpuOutranks.of_scores {job job' : GlobalJobRecord} {clusters : List ClusterRecord}
    (h : GpuOutranks job clusters) (hscore : ∀ c, scoreCluster job' c = scoreCluster job c) :
    GpuOutranks job' clusters := by
  intro p c q hsplit hc hgpu
  obtain ⟨g,hg,hcand,hg',hrest⟩ := h p c q hsplit ⟨hc.online,by rw [← hscore]; exact hc.score⟩ hgpu
  refine ⟨g,hg,⟨hcand.online,by rw [hscore]; exact hcand.score⟩,hg',?_⟩
  rw [hscore, hscore]
  exact hrest

def gpuJob : GlobalJobRecord := { id := "j", type := "code", task := "train", gpuRequired := true }

def cpuCluster : ClusterRecord :=
  { clusterId := "cpu", controlPlaneUrl := "http://cpu:8000", nodeCount := 4 }

/-- A route that is decided for such a job then leads to a cluster with a GPU. -/
theorem gpu_of_decideRoute {reg : FederationRegistry} {job : GlobalJobRecord}
    (h : GpuOutranks job (reg.listClusters.filter fun c => c.healthState ≠ .offline))
    (hroute : (decideRoute reg job).targetClusterId ≠ "") :
    ∃ c, reg.getCluster (decideRoute reg job).targetClusterId = some c ∧ 0 < c.gpuCapacity := by
  unfold decideRoute at hroute ⊢
  dsimp only at hroute ⊢
  cases hbest : (bestCluster job
      (reg.listClusters.filter fun c => c.healthState ≠ .offline)).1 with
  | none => rw [hbest] at hroute; exact absurd rfl hroute
  | some c =>
    have hmem := (List.mem_filter.mp (bestCluster_mem hbest).1).1
    exact ⟨c,FederationRegistry.mem_listClusters.mp hmem,gpu_of_gpuOutranks h hbest⟩

/-- So does the failover: the line it adds to the record has no part in the score. -/
theorem gpu_of_rerouteJob {now : ℚ} {dead : ClusterId} {others : List ClusterRecord}
    {job : GlobalJobRecord} {pick : ClusterRecord} (h : GpuOutranks job others)
    (hpick : (rerouteJob now dead others job).2 = some pick) : 0 < pick.gpuCapacity := by
  have hlogged : GpuOutranks { job with
      executionLogs := job.executionLogs ++ [⟨now,"failover from " ++ dead⟩] } others :=
    h.of_scores fun c => by unfold scoreCluster; rfl
  unfold rerouteJob at hpick
  dsimp only at hpick
  cases hbest : (bestCluster { job with
    executionLogs := job.executionLogs ++ [⟨now,"failover from " ++ dead⟩] } others).1 with
  | none => rw [hbest] at hpick; cases hpick
  | some best =>
    rw [hbest] at hpick
    obtain rfl : best = pick := Option.some.inj hpick
    exact gpu_of_gpuOutranks hlogged hbest

/-- A node without a GPU is never selected for a job that needs one. -/
theorem hasGpu_of_mem_selectNodes {job : Shared.JobRequest} {nodes : List Shared.NodeState}
    {n : Shared.NodeState} (hgpu : job.gpuRequired = true) (h : n ∈ selectNodes job nodes) :
    n.hasGpu = true := by
  obtain ⟨p,hp,rfl⟩ := List.mem_map.mp h
  have hranked := List.mem_of_mem_take hp
  rw [rankNodes, List.mem_insertionSort, List.mem_map] at hranked
  obtain ⟨n,hn,rfl⟩ := hranked
  rw [if_pos hgpu] at hn
  exact (List.mem_filter.mp hn).2

end Arsonist.Federation
