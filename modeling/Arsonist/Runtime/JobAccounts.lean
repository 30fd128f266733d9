import Arsonist.Runtime.AtMostOnce

/-! The accounts of the runtime. Jobs with different ids are neither lost nor counted twice, and
the queue and the running jobs keep to their limits. -/
namespace Arsonist.Runtime.UltraScaleRuntime
open Arsonist.Library

/-- The ids that a call submits. -/
def submittedBy : RuntimeCall → List String
  | .submit _ job => [job.jobId]
  | .submitBatch _ jobs => jobs.map RuntimeJob.jobId
  | _ => []

/-- The ids that a run has accepted. -/
def acceptedIn (m : UltraScaleRuntime) (calls : List RuntimeCall) : List String :=
  (steps exec m calls).flatMap fun x => x.1.acceptedBy x.2

/-- The ids whose jobs were completed, failed or cancelled in a run. -/
def endedIn (m : UltraScaleRuntime) (calls : List RuntimeCall) : List String :=
  (steps exec m calls).flatMap fun x => x.1.endedBy x.2

/-- The call cancels a job. -/
def Cancels (m : UltraScaleRuntime) : RuntimeCall → Prop
  | .cancelJob jobId => (m.cancelJob jobId).2
  | _ => False

instance (m : UltraScaleRuntime) : ∀ c, Decidable (m.Cancels c)
  | .cancelJob jobId => inferInstanceAs (Decidable ((m.cancelJob jobId).2 = true))
  | .submit _ _ => .isFalse id
  | .submitBatch _ _ => .isFalse id
  | .dispatch _ _ => .isFalse id
  | .markRunning _ _ => .isFalse id
  | .updateTokens _ _ _ => .isFalse id
  | .completeJob _ _ _ => .isFalse id

/-- The accounts of a run, from its start to the state that it leads to. -/
structure Conserved (m : UltraScaleRuntime) (calls : List RuntimeCall) : Prop where
  total : (run exec m calls).totalSubmitted =
    (run exec m calls).queued.length+(run exec m calls).running.entries.length+
      (run exec m calls).totalCompleted+(run exec m calls).totalFailed+
      occurrences exec Cancels m calls
  queue : (run exec m calls).queued.Nodup
  places : ∀ jobId, jobId ∈ m.acceptedIn calls ∧ jobId ∉ m.endedIn calls ↔
    Xor' (jobId ∈ (run exec m calls).queued) ((run exec m calls).running.get? jobId).isSome
  known : ∀ jobId, ((run exec m calls).jobs.get? jobId).isSome ↔
    jobId ∈ m.acceptedIn calls ∧ jobId ∉ m.endedIn calls
  concurrent : (run exec m calls).running.entries.length ≤ m.maxConcurrent
  queueSize : (run exec m calls).queued.length ≤ m.maxQueue

variable {m : UltraScaleRuntime}

section Counters

theorem totalSubmitted_submitAll (now : ℚ) (jobs : List RuntimeJob) :
    (m.submitAll now jobs).totalSubmitted = m.totalSubmitted+(m.accepted jobs).length := by
  induction jobs generalizing m with
  | nil => simp [submitAll, accepted]
  | cons job jobs ih =>
    have hcons : m.submitAll now (job :: jobs) = (m.submit now job).1.submitAll now jobs := rfl
    rw [hcons, ih]
    by_cases hroom : m.maxQueue ≤ m.queued.length
    · rw [submit_of_full hroom, accepted_cons_of_full hroom, accepted_cons_of_full hroom]
    · rw [totalSubmitted_submit hroom, accepted_cons hroom now, List.length_cons]
      omega

/-- The counters of the ends of jobs. -/
def ends (m : UltraScaleRuntime) : ℕ := m.totalCompleted+m.totalFailed

theorem ends_submitAll (now : ℚ) (jobs : List RuntimeJob) :
    (m.submitAll now jobs).ends = m.ends := by
  induction jobs generalizing m with
  | nil => rfl
  | cons job jobs ih =>
    have hone : (m.submit now job).1.ends = m.ends := by
      rw [submit]
      split_ifs <;> rfl
    exact (ih (m := (m.submit now job).1)).trans hone

theorem ends_dispatchLoop (now : ℚ) (n : ℕ) (m : UltraScaleRuntime) :
    (dispatchLoop now n m).1.ends = m.ends := by
  induction n generalizing m with
  | zero => rfl
  | succ n ih =>
    rw [dispatchLoop]
    cases m.queued with
    | nil => rfl
    | cons jobId rest =>
      dsimp only
      cases m.jobs.get? jobId with
      | none => exact ih _
      | some job => exact ih _

/-- A call counts the jobs that it accepts. -/
theorem totalSubmitted_exec (c : RuntimeCall) :
    (m.exec c).totalSubmitted = m.totalSubmitted+(m.acceptedBy c).length := by
  cases c with
  | submit now job => exact totalSubmitted_submitAll now [job]
  | submitBatch now jobs =>
    change (m.submitBatch now jobs).1.totalSubmitted = _
    rw [submitBatch_fst]
    exact totalSubmitted_submitAll now (batchOrder jobs)
  | dispatch now maxDispatch => exact totalSubmitted_dispatchLoop _ _
  | markRunning jobId streaming =>
    change (m.markRunning jobId streaming).1.totalSubmitted = _
    rw [markRunning]
    split <;> rfl
  | updateTokens jobId tokens tps =>
    change (m.updateTokens jobId tokens tps).1.totalSubmitted = _
    rw [updateTokens]
    split <;> rfl
  | completeJob now jobId success =>
    change (m.completeJob now jobId success).1.totalSubmitted = _
    rw [completeJob]
    split <;> rfl
  | cancelJob jobId =>
    change (m.cancelJob jobId).1.totalSubmitted = _
    rw [cancelJob]
    split_ifs <;> rfl

/-- A job that a call ends is counted as completed or failed, or cancelled. -/
theorem ends_exec (c : RuntimeCall) :
    (m.exec c).ends+(if m.Cancels c then 1 else 0) = m.ends+(m.endedBy c).length := by
  cases c with
  | submit now job => exact ends_submitAll now [job]
  | submitBatch now jobs =>
    change (m.submitBatch now jobs).1.ends = _
    rw [submitBatch_fst]
    exact ends_submitAll now (batchOrder jobs)
  | dispatch now maxDispatch => exact ends_dispatchLoop _ _ _
  | markRunning jobId streaming =>
    change (m.markRunning jobId streaming).1.ends = _
    rw [markRunning]
    split <;> rfl
  | updateTokens jobId tokens tps =>
    change (m.updateTokens jobId tokens tps).1.ends = _
    rw [updateTokens]
    split <;> rfl
  | completeJob now jobId success =>
    change (m.completeJob now jobId success).1.ends =
      m.ends+(if (m.completeJob now jobId success).2.isSome then [jobId] else []).length
    rw [completeJob]
    cases m.running.get? jobId with
    | none => rfl
    | some job =>
      cases success
      · rfl
      · change m.totalCompleted+1+m.totalFailed = m.totalCompleted+m.totalFailed+1
        omega
  | cancelJob jobId =>
    change (m.cancelJob jobId).1.ends+(if (m.cancelJob jobId).2 then 1 else 0) =
      m.ends+(if (m.cancelJob jobId).2 then [jobId] else []).length
    have hends : (m.cancelJob jobId).1.ends = m.ends := by
      rw [cancelJob]
      split_ifs <;> rfl
    rw [hends]
    split_ifs <;> rfl

end Counters

section Limits

/-- The queue and the running jobs are within the limits. -/
structure Within (m : UltraScaleRuntime) : Prop where
  queueSize : m.queued.length ≤ m.maxQueue
  concurrent : m.running.entries.length ≤ m.maxConcurrent

/-- A call keeps to the limits, and does not change them. -/
structure KeepsLimits (m m' : UltraScaleRuntime) : Prop where
  within : m.Within → m'.Within
  maxQueue : m'.maxQueue = m.maxQueue
  maxConcurrent : m'.maxConcurrent = m.maxConcurrent

theorem KeepsLimits.of_le {m' : UltraScaleRuntime} (hqueued : m'.queued.length ≤ m.queued.length)
    (hrunning : m'.running.entries.length ≤ m.running.entries.length)
    (hq : m'.maxQueue = m.maxQueue) (hc : m'.maxConcurrent = m.maxConcurrent) :
    KeepsLimits m m' := by
  refine ⟨fun h => ⟨?_,?_⟩,hq,hc⟩
  · have hsize := h.queueSize
    omega
  · have hsize := h.concurrent
    omega

theorem maxConcurrent_submit (now : ℚ) (job : RuntimeJob) :
    (m.submit now job).1.maxConcurrent = m.maxConcurrent := by
  rw [submit]
  split_ifs <;> rfl

theorem limits_submitAll (now : ℚ) (jobs : List RuntimeJob) :
    (m.submitAll now jobs).maxQueue = m.maxQueue ∧
      (m.submitAll now jobs).maxConcurrent = m.maxConcurrent := by
  induction jobs generalizing m with
  | nil => exact ⟨rfl,rfl⟩
  | cons job jobs ih =>
    obtain ⟨hqueue,hconcurrent⟩ := ih (m := (m.submit now job).1)
    exact ⟨hqueue.trans (maxQueue_submit job),hconcurrent.trans (maxConcurrent_submit now job)⟩

theorem keepsLimits_submitAll (now : ℚ) (jobs : List RuntimeJob) :
    KeepsLimits m (m.submitAll now jobs) := by
  obtain ⟨hq,hc⟩ := limits_submitAll (m := m) now jobs
  refine ⟨fun h => ⟨?_,?_⟩,hq,hc⟩
  · have hroom : (m.accepted jobs).length ≤ (m.maxQueue-m.queued.length).toNat :=
      List.length_take_le _ _
    have hsize := h.queueSize
    rw [queued_submitAll, hq, List.length_append]
    omega
  · rw [running_submitAll, hc]
    exact h.concurrent

/-- Each turn of the loop takes at most one job from the queue. -/
theorem dispatchLoop_sizes (now : ℚ) (n : ℕ) (m : UltraScaleRuntime) :
    (dispatchLoop now n m).1.queued.length ≤ m.queued.length ∧
      (dispatchLoop now n m).1.running.entries.length ≤ m.running.entries.length+n ∧
      (dispatchLoop now n m).1.maxQueue = m.maxQueue ∧
      (dispatchLoop now n m).1.maxConcurrent = m.maxConcurrent := by
  induction n generalizing m with
  | zero => exact ⟨le_rfl,le_rfl,rfl,rfl⟩
  | succ n ih =>
    rw [dispatchLoop]
    cases hqueue : m.queued with
    | nil => exact ⟨(congrArg List.length hqueue).le,Nat.le_add_right _ _,rfl,rfl⟩
    | cons jobId rest =>
      dsimp only
      cases m.jobs.get? jobId with
      | none =>
        obtain ⟨hqueued,hrunning,hq,hc⟩ := ih { m with queued := rest }
        exact ⟨hqueued.trans (Nat.le_succ _),hrunning.trans (Nat.le_succ _),hq,hc⟩
      | some job =>
        have hput := Table.length_put m.running (job.dispatched now)
        obtain ⟨hqueued,hrunning,hq,hc⟩ := ih { m with
          queued := rest,
          jobs := m.jobs.put (job.dispatched now),
          running := m.running.put (job.dispatched now) }
        refine ⟨hqueued.trans (Nat.le_succ _),hrunning.trans ?_,hq,hc⟩
        dsimp only
        rw [hput]
        split_ifs <;> omega

theorem keepsLimits_dispatch (now : ℚ) (maxDispatch : ℤ) :
    KeepsLimits m (m.dispatch now maxDispatch).1 := by
  obtain ⟨hqueued,hrunning,hq,hc⟩ := dispatchLoop_sizes now (m.toDispatch maxDispatch).toNat
    { m with queued := m.queued.insertionSort fun a b => m.queueOrder a ≤ m.queueOrder b }
  rw [List.length_insertionSort] at hqueued
  have hroom : m.toDispatch maxDispatch ≤ m.maxConcurrent-m.running.entries.length :=
    (min_le_left _ _).trans (min_le_left _ _)
  refine ⟨fun h => ⟨?_,?_⟩,hq,hc⟩
  · have hsize := h.queueSize
    rw [dispatch, hq]
    dsimp only at hqueued ⊢
    omega
  · have hsize := h.concurrent
    rw [dispatch, hc]
    dsimp only at hrunning ⊢
    omega

theorem keepsLimits_update {job old : RuntimeJob} (hget : m.running.get? job.jobId = some old) :
    KeepsLimits m (m.update job) := by
  refine KeepsLimits.of_le le_rfl ?_ rfl rfl
  rw [update]
  dsimp only
  rw [Table.length_put, key_job, hget, Option.isSome_some, if_pos rfl, Nat.add_zero]

theorem keepsLimits_exec (c : RuntimeCall) : KeepsLimits m (m.exec c) := by
  cases c with
  | submit now job => exact keepsLimits_submitAll now [job]
  | submitBatch now jobs =>
    change KeepsLimits m (m.submitBatch now jobs).1
    rw [submitBatch_fst]
    exact keepsLimits_submitAll now (batchOrder jobs)
  | dispatch now maxDispatch => exact keepsLimits_dispatch now maxDispatch
  | markRunning jobId streaming =>
    change KeepsLimits m (m.markRunning jobId streaming).1
    rw [markRunning]
    cases hget : m.running.get? jobId with
    | none => exact KeepsLimits.of_le le_rfl le_rfl rfl rfl
    | some job =>
      have hkey : job.jobId = jobId := Table.key_of_get? hget
      exact keepsLimits_update (hkey ▸ hget)
  | updateTokens jobId tokens tps =>
    change KeepsLimits m (m.updateTokens jobId tokens tps).1
    rw [updateTokens]
    cases hget : m.running.get? jobId with
    | none => exact KeepsLimits.of_le le_rfl le_rfl rfl rfl
    | some job =>
      have hkey : job.jobId = jobId := Table.key_of_get? hget
      have hrun : m.running.get? ({ job with
          tokensGenerated := tokens, tokensPerSecond := tps } : RuntimeJob).jobId = some job :=
        hkey ▸ hget
      have hkeeps := keepsLimits_update hrun
      exact ⟨fun h => ⟨(hkeeps.within h).queueSize,(hkeeps.within h).concurrent⟩,rfl,rfl⟩
  | completeJob now jobId success =>
    change KeepsLimits m (m.completeJob now jobId success).1
    rw [completeJob]
    split
    · exact KeepsLimits.of_le le_rfl le_rfl rfl rfl
    · exact KeepsLimits.of_le le_rfl (List.length_filter_le _ _) rfl rfl
  | cancelJob jobId =>
    change KeepsLimits m (m.cancelJob jobId).1
    rw [cancelJob]
    split_ifs
    · exact KeepsLimits.of_le le_rfl (List.length_filter_le _ _) rfl rfl
    · exact KeepsLimits.of_le (List.erase_sublist.length_le) le_rfl rfl rfl
    · exact KeepsLimits.of_le le_rfl le_rfl rfl rfl

theorem keepsLimits_run (calls : List RuntimeCall) : KeepsLimits m (run exec m calls) := by
  induction calls generalizing m with
  | nil => exact ⟨id,rfl,rfl⟩
  | cons c calls ih =>
    have hone := keepsLimits_exec (m := m) c
    have hrest := ih (m := m.exec c)
    exact ⟨fun h => hrest.within (hone.within h),hrest.maxQueue.trans hone.maxQueue,
      hrest.maxConcurrent.trans hone.maxConcurrent⟩

end Limits

section Ledger
variable {calls : List RuntimeCall} {c : RuntimeCall}

/-- What a run has submitted, accepted and ended, and what is live after it. -/
structure Ledger (m : UltraScaleRuntime) (calls : List RuntimeCall) : Prop where
  sound : (run exec m calls).Sound
  live : ((run exec m calls).live ++ m.endedIn calls).Perm (m.acceptedIn calls)
  submitted : (m.acceptedIn calls).Subperm (calls.flatMap submittedBy)

theorem acceptedIn_concat :
    m.acceptedIn (calls ++ [c]) = m.acceptedIn calls ++ (run exec m calls).acceptedBy c := by
  rw [acceptedIn, steps_concat, List.flatMap_append, List.flatMap_singleton]
  rfl

theorem endedIn_concat :
    m.endedIn (calls ++ [c]) = m.endedIn calls ++ (run exec m calls).endedBy c := by
  rw [endedIn, steps_concat, List.flatMap_append, List.flatMap_singleton]
  rfl

/-- Only what is submitted is accepted. -/
theorem acceptedBy_subperm (m : UltraScaleRuntime) (c : RuntimeCall) :
    (m.acceptedBy c).Subperm (submittedBy c) := by
  cases c with
  | submit now job => exact (List.take_sublist _ _).subperm
  | submitBatch now jobs =>
    have hperm : ((batchOrder jobs).map RuntimeJob.jobId).Perm (jobs.map RuntimeJob.jobId) :=
      (List.perm_insertionSort _ jobs).map _
    exact (List.take_sublist _ _).subperm.trans hperm.subperm
  | dispatch now maxDispatch => exact List.Subperm.refl _
  | markRunning jobId streaming => exact List.Subperm.refl _
  | updateTokens jobId tokens tps => exact List.Subperm.refl _
  | completeJob now jobId success => exact List.Subperm.refl _
  | cancelJob jobId => exact List.Subperm.refl _

theorem nodup_of_subperm {l l' : List String} (h : l.Subperm l') (hn : l'.Nodup) : l.Nodup :=
  List.nodup_iff_count_le_one.mpr fun a =>
    (h.count_le a).trans (List.nodup_iff_count_le_one.mp hn a)

/-- A job that is submitted under an id of its own is not live. -/
theorem Ledger.fresh (h : m.Ledger calls) (hn : ((calls ++ [c]).flatMap submittedBy).Nodup) :
    (run exec m calls).Fresh c := by
  have hlive : (run exec m calls).live.Subperm (calls.flatMap submittedBy) :=
    (List.sublist_append_left _ _).subperm.trans (h.live.subperm.trans h.submitted)
  have hboth := hlive.append (acceptedBy_subperm (run exec m calls) c)
  refine nodup_of_subperm hboth ?_
  rwa [List.flatMap_append, List.flatMap_singleton] at hn

theorem ledger_run (h : m.Sound) (hnone : m.live = [])
    (hn : (calls.flatMap submittedBy).Nodup) : m.Ledger calls := by
  induction calls using List.reverseRecOn with
  | nil =>
    refine ⟨h,?_,List.Subperm.refl _⟩
    rw [run_nil, hnone]
    exact List.Perm.refl _
  | append_singleton calls c ih =>
    have hledger := ih (hn.sublist ((List.sublist_append_left calls [c]).flatMap submittedBy))
    have hmoves := moves_exec hledger.sound (hledger.fresh hn)
    refine ⟨?_,?_,?_⟩
    · rw [run_concat]
      exact hmoves.sound
    · rw [run_concat, endedIn_concat, acceptedIn_concat]
      have hended : (((run exec m calls).exec c).live ++
          (m.endedIn calls ++ (run exec m calls).endedBy c)).Perm
          (((run exec m calls).exec c).live ++ (run exec m calls).endedBy c ++
            m.endedIn calls) := by
        rw [List.append_assoc]
        exact List.perm_append_comm.append_left _
      have hswap : ((run exec m calls).live ++ (run exec m calls).acceptedBy c ++
          m.endedIn calls).Perm ((run exec m calls).live ++ m.endedIn calls ++
            (run exec m calls).acceptedBy c) := by
        rw [List.append_assoc, List.append_assoc]
        exact List.perm_append_comm.append_left _
      calc List.Perm _ (((run exec m calls).exec c).live ++ (run exec m calls).endedBy c ++
            m.endedIn calls) := hended
        List.Perm _ ((run exec m calls).live ++ (run exec m calls).acceptedBy c ++
            m.endedIn calls) := hmoves.live.append_right _
        List.Perm _ ((run exec m calls).live ++ m.endedIn calls ++
            (run exec m calls).acceptedBy c) := hswap
        List.Perm _ (m.acceptedIn calls ++ (run exec m calls).acceptedBy c) :=
          hledger.live.append_right _
    · rw [acceptedIn_concat, List.flatMap_append, List.flatMap_singleton]
      exact hledger.submitted.append (acceptedBy_subperm _ c)

/-- Accepted jobs are counted as submitted, ended ones as completed, failed or cancelled. -/
theorem counters_run (calls : List RuntimeCall) :
    (run exec m calls).totalSubmitted = m.totalSubmitted+(m.acceptedIn calls).length ∧
      (run exec m calls).ends+occurrences exec Cancels m calls =
        m.ends+(m.endedIn calls).length := by
  induction calls using List.reverseRecOn with
  | nil => exact ⟨rfl,rfl⟩
  | append_singleton calls c ih =>
    have hends := ends_exec (m := run exec m calls) c
    rw [run_concat, totalSubmitted_exec, acceptedIn_concat, endedIn_concat, occurrences_concat,
      List.length_append, List.length_append]
    constructor
    · omega
    · omega

/-- The live jobs are those that were accepted and have not ended. -/
theorem Ledger.mem_live (h : m.Ledger calls) (hn : (calls.flatMap submittedBy).Nodup)
    (jobId : String) : jobId ∈ (run exec m calls).live ↔
      jobId ∈ m.acceptedIn calls ∧ jobId ∉ m.endedIn calls := by
  have hnodup := h.live.nodup_iff.mpr (nodup_of_subperm h.submitted hn)
  rw [← h.live.mem_iff, List.mem_append]
  constructor
  · intro hlive
    exact ⟨Or.inl hlive,List.disjoint_of_nodup_append hnodup hlive⟩
  · rintro ⟨hlive | hended,hnot⟩
    · exact hlive
    · exact absurd hended hnot

end Ledger

theorem mem_live_iff_xor (h : m.Sound) (jobId : String) :
    jobId ∈ m.live ↔ Xor' (jobId ∈ m.queued) (m.running.get? jobId).isSome := by
  have hdisjoint := List.disjoint_of_nodup_append h.nodup
  rw [live, List.mem_append, ← mem_runningIds, Xor']
  constructor
  · rintro (hq | hr)
    · exact Or.inl ⟨hq,hdisjoint hq⟩
    · exact Or.inr ⟨hr,fun hq => hdisjoint hq hr⟩
  · rintro (⟨hq,-⟩ | ⟨hr,-⟩)
    · exact Or.inl hq
    · exact Or.inr hr

/-- Jobs that are submitted under different ids are neither lost nor counted twice, and the
limits are kept. -/
theorem conserved (maxConcurrent maxQueue maxHistory : ℤ) (calls : List RuntimeCall)
    (hconcurrent : 0 ≤ maxConcurrent) (hqueue : 0 ≤ maxQueue)
    (hn : (calls.flatMap submittedBy).Nodup) :
    Conserved (init maxConcurrent maxQueue maxHistory) calls := by
  have hledger := ledger_run (sound_init maxConcurrent maxQueue maxHistory) rfl hn
  have hlimits := keepsLimits_run (m := init maxConcurrent maxQueue maxHistory) calls
  have hwithin := hlimits.within ⟨hqueue,hconcurrent⟩
  obtain ⟨hsubmitted,hends⟩ := counters_run (m := init maxConcurrent maxQueue maxHistory) calls
  have hlength := hledger.live.length_eq
  refine ⟨?_,?_,fun jobId => ?_,fun jobId => ?_,?_,?_⟩
  · rw [List.length_append, live, List.length_append, runningIds, List.length_map] at hlength
    have hzero : (init maxConcurrent maxQueue maxHistory).ends = 0 := rfl
    rw [hzero, ends] at hends
    rw [hsubmitted]
    dsimp only at hlength ⊢
    omega
  · exact (List.nodup_append.mp hledger.sound.nodup).1
  · rw [← hledger.mem_live hn, mem_live_iff_xor hledger.sound]
  · rw [hledger.sound.known, hledger.mem_live hn]
  · exact hlimits.maxConcurrent ▸ hwithin.concurrent
  · exact hlimits.maxQueue ▸ hwithin.queueSize

theorem conserved_cancelled : Conserved (init 1 2 1000)
    [.submitBatch 0 [{ jobId := "a" },{ jobId := "b", priority := .high },{ jobId := "c" }],
     .dispatch 1 (-1),.dispatch 2 5,.cancelJob "a",.completeJob 3 "b" true] :=
  conserved 1 2 1000 _ (by decide) (by decide) (by decide)

end Arsonist.Runtime.UltraScaleRuntime
