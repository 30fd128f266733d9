import Mathlib.Algebra.BigOperators.Group.Finset.Basic
import Arsonist.Runtime.JobAccounts

/-! The tokens that the runtime counts. Each report of a running job is a total of this job, and the
runtime adds the whole of it to its own total. -/
namespace Arsonist.Runtime.UltraScaleRuntime
open Arsonist.Library

/-- The count that a call reports for a running job. -/
def reportedBy (m : UltraScaleRuntime) : RuntimeCall → List (String × ℤ)
  | .updateTokens jobId tokens _ =>
    if (m.running.get? jobId).isSome then [(jobId,tokens)] else []
  | _ => []

/-- The counts that were reported in a run. -/
def reports (m : UltraScaleRuntime) (calls : List RuntimeCall) : List (String × ℤ) :=
  (steps exec m calls).flatMap fun x => x.1.reportedBy x.2

/-- The count that was reported last for a job. -/
def lastReport (reports : List (String × ℤ)) (jobId : String) : ℤ :=
  (((reports.filter fun r => r.1 = jobId).getLast?).map Prod.snd).getD 0

/-- The jobs that were ever dispatched in a run. -/
def dispatchedIds (m : UltraScaleRuntime) (calls : List RuntimeCall) : Finset String :=
  ((m.dispatched calls).map RuntimeJob.jobId).toFinset

/-- The last reports of all jobs that were ever dispatched, together. -/
def generated (m : UltraScaleRuntime) (calls : List RuntimeCall) : ℤ :=
  ∑ jobId ∈ m.dispatchedIds calls, lastReport (m.reports calls) jobId

/-- The counts that are reported for a job do not decrease. -/
def Cumulative (m : UltraScaleRuntime) (calls : List RuntimeCall) : Prop :=
  ∀ before c after, calls = before ++ c :: after →
    ∀ r ∈ (run exec m before).reportedBy c, lastReport (m.reports before) r.1 ≤ r.2

/-- Whenever a count is reported for a job, the one before it was `0`, or there was none. -/
def ReportedOnce (m : UltraScaleRuntime) (calls : List RuntimeCall) : Prop :=
  ∀ before c after, calls = before ++ c :: after →
    ∀ r ∈ (run exec m before).reportedBy c, lastReport (m.reports before) r.1 = 0

instance (m : UltraScaleRuntime) (calls : List RuntimeCall) : Decidable (m.Cumulative calls) :=
  inferInstanceAs (Decidable (∀ before c after, calls = before ++ c :: after → _))

variable {m : UltraScaleRuntime} {calls : List RuntimeCall} {c : RuntimeCall}

section Reports

theorem lastReport_concat (reports : List (String × ℤ)) (jobId id : String) (tokens : ℤ) :
    lastReport (reports ++ [(jobId,tokens)]) id =
      if id = jobId then tokens else lastReport reports id := by
  rw [lastReport, List.filter_append]
  by_cases h : id = jobId
  · subst h
    simp
  · simp [lastReport, h, Ne.symm h]

theorem lastReport_of_not_mem {reports : List (String × ℤ)} {jobId : String}
    (h : jobId ∉ reports.map Prod.fst) : lastReport reports jobId = 0 := by
  have hnone : (reports.filter fun r => r.1 = jobId) = [] := by
    rw [List.filter_eq_nil_iff]
    intro r hr hid
    exact h (List.mem_map.mpr ⟨r,hr,of_decide_eq_true hid⟩)
  rw [lastReport, hnone]
  rfl

theorem reports_concat :
    m.reports (calls ++ [c]) = m.reports calls ++ (run exec m calls).reportedBy c := by
  rw [reports, steps_concat, List.flatMap_append, List.flatMap_singleton]
  rfl

theorem dispatchedIds_concat : m.dispatchedIds (calls ++ [c]) =
    m.dispatchedIds calls ∪ (((run exec m calls).returned c).map RuntimeJob.jobId).toFinset := by
  rw [dispatchedIds, dispatched, steps_concat, List.flatMap_append, List.flatMap_singleton,
    List.map_append, List.toFinset_append]
  rfl

end Reports

section Places

theorem running_dispatchLoop (now : ℚ) (n : ℕ) (m : UltraScaleRuntime) {jobId : String}
    (h : ((dispatchLoop now n m).1.running.get? jobId).isSome) :
    (m.running.get? jobId).isSome ∨
      jobId ∈ (dispatchLoop now n m).2.map RuntimeJob.jobId := by
  induction n generalizing m with
  | zero => exact Or.inl h
  | succ n ih =>
    rw [dispatchLoop] at h ⊢
    cases hq : m.queued with
    | nil =>
      rw [hq] at h
      exact Or.inl h
    | cons id rest =>
      rw [hq] at h
      dsimp only at h ⊢
      cases hget : m.jobs.get? id with
      | none =>
        rw [hget] at h
        exact ih _ h
      | some job =>
        rw [hget] at h
        obtain hrun | hmem := ih _ h
        · dsimp only at hrun
          rw [Table.get?_put] at hrun
          split_ifs at hrun with heq
          · right
            rw [heq]
            exact List.mem_cons_self
          · exact Or.inl hrun
        · exact Or.inr (List.mem_cons_of_mem _ hmem)

theorem running_update {job old : RuntimeJob} (hget : m.running.get? job.jobId = some old)
    {jobId : String} (h : ((m.update job).running.get? jobId).isSome) :
    (m.running.get? jobId).isSome := (isSome_get?_put hget jobId).mp h

theorem isSome_of_erase {t : Table RuntimeJob} {id jobId : String}
    (h : ((t.erase id).get? jobId).isSome) : (t.get? jobId).isSome := by
  rw [Table.get?_erase] at h
  split_ifs at h
  · cases h
  · exact h

/-- A job is running after a call when it was before, or when the call returns it. -/
theorem running_exec {jobId : String} (h : ((m.exec c).running.get? jobId).isSome) :
    (m.running.get? jobId).isSome ∨ jobId ∈ (m.returned c).map RuntimeJob.jobId := by
  cases c with
  | submit now job =>
    left
    change ((m.submit now job).1.running.get? jobId).isSome at h
    rwa [running_submit] at h
  | submitBatch now jobs =>
    left
    change ((m.submitBatch now jobs).1.running.get? jobId).isSome at h
    rwa [submitBatch_fst, running_submitAll] at h
  | dispatch now maxDispatch => exact running_dispatchLoop now _ _ h
  | markRunning id streaming =>
    left
    change ((m.markRunning id streaming).1.running.get? jobId).isSome at h
    rw [markRunning] at h
    cases hget : m.running.get? id with
    | none => rwa [hget] at h
    | some job =>
      rw [hget] at h
      have hkey : job.jobId = id := Table.key_of_get? hget
      exact running_update (hkey ▸ hget) h
  | updateTokens id tokens tps =>
    left
    change ((m.updateTokens id tokens tps).1.running.get? jobId).isSome at h
    rw [updateTokens] at h
    cases hget : m.running.get? id with
    | none => rwa [hget] at h
    | some job =>
      rw [hget] at h
      have hkey : job.jobId = id := Table.key_of_get? hget
      have hrun : m.running.get? ({ job with
          tokensGenerated := tokens, tokensPerSecond := tps } : RuntimeJob).jobId = some job :=
        hkey ▸ hget
      exact running_update hrun h
  | completeJob now id success =>
    left
    change ((m.completeJob now id success).1.running.get? jobId).isSome at h
    rw [completeJob] at h
    cases hget : m.running.get? id with
    | none => rwa [hget] at h
    | some job =>
      rw [hget] at h
      exact isSome_of_erase h
  | cancelJob id =>
    left
    change ((m.cancelJob id).1.running.get? jobId).isSome at h
    rw [cancelJob] at h
    split_ifs at h
    · exact isSome_of_erase h
    · exact h
    · exact h

/-- The running jobs were dispatched. -/
theorem running_dispatched (hnone : m.running = Table.empty) {jobId : String}
    (h : ((run exec m calls).running.get? jobId).isSome) : jobId ∈ m.dispatchedIds calls := by
  induction calls using List.reverseRecOn with
  | nil =>
    rw [run_nil, hnone] at h
    cases h
  | append_singleton calls c ih =>
    rw [run_concat] at h
    rw [dispatchedIds_concat, Finset.mem_union, List.mem_toFinset]
    exact (running_exec h).imp_left ih

/-- Only of jobs that were dispatched is anything reported. -/
theorem reported_dispatched (hnone : m.running = Table.empty) {jobId : String}
    (h : jobId ∈ (m.reports calls).map Prod.fst) : jobId ∈ m.dispatchedIds calls := by
  induction calls using List.reverseRecOn with
  | nil => cases h
  | append_singleton calls c ih =>
    rw [reports_concat, List.map_append] at h
    rw [dispatchedIds_concat, Finset.mem_union]
    left
    obtain h | h := List.mem_append.mp h
    · exact ih h
    · cases c with
      | updateTokens id tokens tps =>
        rw [reportedBy] at h
        split_ifs at h with hrun
        · rw [List.mem_singleton.mp h]
          exact running_dispatched hnone hrun
        · cases h
      | _ => cases h

end Places

section Totals

theorem totalTokens_submitAll (now : ℚ) (jobs : List RuntimeJob) :
    (m.submitAll now jobs).totalTokens = m.totalTokens := by
  induction jobs generalizing m with
  | nil => rfl
  | cons job jobs ih =>
    have hone : (m.submit now job).1.totalTokens = m.totalTokens := by
      rw [submit]
      split_ifs <;> rfl
    exact (ih (m := (m.submit now job).1)).trans hone

theorem totalTokens_dispatchLoop (now : ℚ) (n : ℕ) (m : UltraScaleRuntime) :
    (dispatchLoop now n m).1.totalTokens = m.totalTokens := by
  induction n generalizing m with
  | zero => rfl
  | succ n ih =>
    rw [dispatchLoop]
    cases m.queued with
    | nil => rfl
    | cons jobId rest =>
      dsimp only
      cases m.jobs.get? jobId with
      | none => exact ih _
      | some job => exact ih _

/-- The total grows by what is reported. -/
theorem totalTokens_exec :
    (m.exec c).totalTokens = m.totalTokens+((m.reportedBy c).map Prod.snd).sum := by
  cases c with
  | submit now job => exact (totalTokens_submitAll now [job]).trans (add_zero _).symm
  | submitBatch now jobs =>
    change (m.submitBatch now jobs).1.totalTokens = _
    rw [submitBatch_fst]
    exact (totalTokens_submitAll now (batchOrder jobs)).trans (add_zero _).symm
  | dispatch now maxDispatch => exact (totalTokens_dispatchLoop _ _ _).trans (add_zero _).symm
  | markRunning jobId streaming =>
    change (m.markRunning jobId streaming).1.totalTokens = m.totalTokens+0
    rw [markRunning, add_zero]
    split <;> rfl
  | updateTokens jobId tokens tps =>
    change (m.updateTokens jobId tokens tps).1.totalTokens = _
    rw [updateTokens, reportedBy]
    cases m.running.get? jobId with
    | none => exact (add_zero _).symm
    | some job => exact congrArg (m.totalTokens+·) (add_zero tokens).symm
  | completeJob now jobId success =>
    change (m.completeJob now jobId success).1.totalTokens = m.totalTokens+0
    rw [completeJob, add_zero]
    split <;> rfl
  | cancelJob jobId =>
    change (m.cancelJob jobId).1.totalTokens = m.totalTokens+0
    rw [cancelJob, add_zero]
    split_ifs <;> rfl

/-- The sum over the jobs changes by the difference of the last report of a job and the one before
it. -/
theorem generated_concat (hnone : m.running = Table.empty) :
    m.generated (calls ++ [c]) = m.generated calls+
      (((run exec m calls).reportedBy c).map fun r =>
        r.2-lastReport (m.reports calls) r.1).sum := by
  have hzero : ∀ id ∈ m.dispatchedIds (calls ++ [c]), id ∉ m.dispatchedIds calls →
      lastReport (m.reports calls) id = 0 := fun id _ hid =>
    lastReport_of_not_mem fun hmem => hid (reported_dispatched hnone hmem)
  have hsub : m.dispatchedIds calls ⊆ m.dispatchedIds (calls ++ [c]) := by
    rw [dispatchedIds_concat]
    exact Finset.subset_union_left
  have hsame : ∑ id ∈ m.dispatchedIds (calls ++ [c]), lastReport (m.reports calls) id =
      m.generated calls := (Finset.sum_subset hsub hzero).symm
  rw [← hsame, generated, reports_concat]
  cases hrep : (run exec m calls).reportedBy c with
  | nil => rw [List.append_nil, List.map_nil, List.sum_nil, add_zero]
  | cons r rest =>
    have hone : rest = [] ∧ r.1 ∈ m.dispatchedIds calls := by
      cases c with
      | updateTokens id tokens tps =>
        rw [reportedBy] at hrep
        split_ifs at hrep with hrun
        obtain ⟨rfl,rfl⟩ := List.cons.inj hrep
        exact ⟨rfl,running_dispatched hnone hrun⟩
      | _ => cases hrep
    obtain ⟨rfl,hmem⟩ := hone
    rw [List.map_singleton, List.sum_singleton, ← sub_eq_iff_eq_add', ← Finset.sum_sub_distrib]
    have hdiff : ∀ id ∈ m.dispatchedIds (calls ++ [c]),
        lastReport (m.reports calls ++ [r]) id-lastReport (m.reports calls) id =
          if id = r.1 then r.2-lastReport (m.reports calls) r.1 else 0 := by
      intro id _
      rw [lastReport_concat]
      by_cases h : id = r.1
      · rw [if_pos h, if_pos h, h]
      · rw [if_neg h, if_neg h, sub_self]
    rw [Finset.sum_congr rfl hdiff, Finset.sum_ite_eq', if_pos (hsub hmem)]

theorem lastReport_nonneg (h : m.Cumulative calls) (jobId : String) :
    0 ≤ lastReport (m.reports calls) jobId := by
  induction calls using List.reverseRecOn with
  | nil => exact le_rfl
  | append_singleton calls c ih =>
    obtain ⟨hbefore,hlast⟩ := forall_split_concat.mp h
    rw [reports_concat]
    cases c with
    | updateTokens id tokens tps =>
      rw [reportedBy] at hlast ⊢
      by_cases hrun : ((run exec m calls).running.get? id).isSome
      · rw [if_pos hrun] at hlast ⊢
        rw [lastReport_concat]
        split_ifs with hid
        · have hle := hlast (id,tokens) (List.mem_singleton.mpr rfl)
          exact (hid ▸ ih hbefore).trans hle
        · exact ih hbefore
      · rw [if_neg hrun, List.append_nil]
        exact ih hbefore
    | _ => simpa [reportedBy] using ih hbefore

/-- The total is what the jobs have generated and, for each report, the one before it. -/
theorem totalTokens_run (hnone : m.running = Table.empty) (h : m.Cumulative calls) :
    m.totalTokens+m.generated calls ≤ (run exec m calls).totalTokens ∧
      ((run exec m calls).totalTokens = m.totalTokens+m.generated calls ↔
        m.ReportedOnce calls) := by
  induction calls using List.reverseRecOn with
  | nil =>
    have hstart : m.generated [] = 0 := rfl
    rw [run_nil, hstart, add_zero]
    exact ⟨le_rfl,iff_of_true rfl fun before c after hnil => by simp at hnil⟩
  | append_singleton calls c ih =>
    obtain ⟨hbefore,hlast⟩ := forall_split_concat.mp h
    obtain ⟨hle,hiff⟩ := ih hbefore
    rw [ReportedOnce, forall_split_concat, ← ReportedOnce, ← hiff, run_concat, totalTokens_exec,
      generated_concat hnone]
    cases hrep : (run exec m calls).reportedBy c with
    | nil => simpa using hle
    | cons r rest =>
      have hone : rest = [] := by
        cases c with
        | updateTokens id tokens tps =>
          rw [reportedBy] at hrep
          split_ifs at hrep
          exact (List.cons.inj hrep).2.symm
        | _ => cases hrep
      subst hone
      have hpos := lastReport_nonneg hbefore r.1
      simp only [List.map_singleton, List.sum_singleton, List.forall_mem_singleton]
      constructor
      · omega
      · constructor
        · intro heq
          constructor <;> omega
        · rintro ⟨heq,hzero⟩
          omega

end Totals

/-- The total is that of the last reports of all jobs exactly when no job with a count above `0` is
reported on again. -/
theorem totalTokens_eq_generated_iff (maxConcurrent maxQueue maxHistory : ℤ)
    (calls : List RuntimeCall) (h : (init maxConcurrent maxQueue maxHistory).Cumulative calls) :
    (run exec (init maxConcurrent maxQueue maxHistory) calls).totalTokens =
        (init maxConcurrent maxQueue maxHistory).generated calls ↔
      (init maxConcurrent maxQueue maxHistory).ReportedOnce calls := by
  have hrun := (totalTokens_run (m := init maxConcurrent maxQueue maxHistory) rfl h).2
  rwa [zero_add] at hrun

/-- Two jobs, each reported on once, and one of them completed. -/
def reportedInTurn : List RuntimeCall :=
  [.submit 0 { jobId := "a" },.submit 0 { jobId := "b" },.dispatch 1 5,.updateTokens "a" 10 1,
    .updateTokens "b" 7 1,.completeJob 2 "a" true]

theorem totalTokens_reportedInTurn :
    (run exec (init 10 10 10) reportedInTurn).totalTokens =
        (init 10 10 10).generated reportedInTurn ↔
      (init 10 10 10).ReportedOnce reportedInTurn :=
  totalTokens_eq_generated_iff 10 10 10 reportedInTurn (by decide +kernel)

/-- A job that is reported on while it runs, first with 10 tokens and then with 20. -/
def reportedTwice : List RuntimeCall :=
  [.submit 0 { jobId := "a" },.dispatch 1 5,.updateTokens "a" 10 1,.updateTokens "a" 20 1]

theorem not_totalTokens_eq_generated :
    ¬ ∀ (maxConcurrent maxQueue maxHistory : ℤ) (calls : List RuntimeCall),
      (calls.flatMap submittedBy).Nodup →
      (init maxConcurrent maxQueue maxHistory).Cumulative calls →
      (run exec (init maxConcurrent maxQueue maxHistory) calls).totalTokens =
        (init maxConcurrent maxQueue maxHistory).generated calls := by
  intro h
  have htwice := h 1000000 5000000 1000 reportedTwice (by decide) (by decide +kernel)
  have htotal : (run exec (init 1000000 5000000 1000) reportedTwice).totalTokens = 30 := by
    decide +kernel
  have hgenerated : (init 1000000 5000000 1000).generated reportedTwice = 20 := by decide +kernel
  rw [htotal, hgenerated] at htwice
  exact absurd htwice (by decide)

end Arsonist.Runtime.UltraScaleRuntime
