import Arsonist.Library.StableSort
import Arsonist.Runtime.JobAccounts

/-! The order in which the runtime dispatches. The queue is sorted by priority at each dispatch and
added to at its end in between, so that jobs of one priority always stand in the order in which
they were submitted. -/
namespace Arsonist.Runtime
open Arsonist.Library

/-- The place of a job in the order: its priority, and then its submission. -/
def RuntimeJob.rank (job : RuntimeJob) : ℕ × ℕ := (job.priority.order,job.serial)

/-- A job comes before another one: it has the higher priority, or the same and was submitted
before. -/
def RuntimeJob.Precedes (a b : RuntimeJob) : Prop :=
  a.priority.order < b.priority.order ∨
    a.priority.order = b.priority.order ∧ a.serial < b.serial

theorem RuntimeJob.Precedes.asymm {a b : RuntimeJob} (h : a.Precedes b) : ¬ b.Precedes a := by
  unfold RuntimeJob.Precedes at *
  omega

namespace UltraScaleRuntime

/-- Queued jobs of one priority stand in the order of their submission. -/
def InOrder (m : UltraScaleRuntime) : Prop :=
  (m.queuedBy RuntimeJob.rank).Pairwise fun a b => a.1 = b.1 → a.2 < b.2

variable {m : UltraScaleRuntime}

theorem rank_dispatched (now : ℚ) (job : RuntimeJob) : (job.dispatched now).rank = job.rank := rfl

theorem InOrder.of_sublist {m' : UltraScaleRuntime} (h : m.InOrder)
    (hsub : (m'.queuedBy RuntimeJob.rank).Sublist (m.queuedBy RuntimeJob.rank)) : m'.InOrder :=
  h.sublist hsub

/-- A queued job has a number that was given to a submission. -/
theorem Numbered.rank_lt {returned : List ℕ} (h : m.Numbered returned) {a : ℕ × ℕ}
    (ha : a ∈ m.queuedBy RuntimeJob.rank) : a.2 < m.totalSubmitted := by
  refine h.below a.2 (List.mem_append_right _ ?_)
  obtain ⟨jobId,hid,hjob⟩ := List.mem_filterMap.mp ha
  obtain ⟨job,hget,rfl⟩ := Option.map_eq_some_iff.mp hjob
  exact List.mem_filterMap.mpr ⟨jobId,hid,by rw [hget]; rfl⟩

/-- A submission comes after those before it. -/
theorem InOrder.submit (h : m.InOrder) {returned : List ℕ} (hn : m.Numbered returned) (now : ℚ)
    {job : RuntimeJob} (hroom : ¬ m.maxQueue ≤ m.queued.length) (hnew : job.jobId ∉ m.live) :
    (m.submit now job).1.InOrder := by
  rw [InOrder, queuedBy_submit RuntimeJob.rank hroom hnew, List.pairwise_append]
  refine ⟨h,List.pairwise_singleton _ _,fun a ha b hb _ => ?_⟩
  rw [List.mem_singleton.mp hb]
  exact hn.rank_lt ha

theorem InOrder.submitAll (h : m.InOrder) (hsound : m.Sound) {returned : List ℕ}
    (hn : m.Numbered returned) (now : ℚ) (jobs : List RuntimeJob)
    (hnew : (m.live ++ m.accepted jobs).Nodup) : (m.submitAll now jobs).InOrder := by
  induction jobs generalizing m with
  | nil => exact h
  | cons job jobs ih =>
    have hcons : m.submitAll now (job :: jobs) = (m.submit now job).1.submitAll now jobs := rfl
    rw [hcons]
    by_cases hroom : m.maxQueue ≤ m.queued.length
    · rw [submit_of_full hroom]
      rw [accepted_cons_of_full hroom] at hnew
      exact ih h hsound hn (by rwa [accepted_cons_of_full hroom])
    · rw [accepted_cons hroom now, List.append_cons] at hnew
      have hfresh : job.jobId ∉ m.live := fun hmem =>
        List.disjoint_of_nodup_append (List.nodup_append.mp hnew).1 hmem
          (List.mem_singleton_self _)
      have hperm : (m.submit now job).1.live.Perm (m.live ++ [job.jobId]) := by
        have hone := live_submitAll (m := m) now [job]
        rwa [accepted_cons hroom now, accepted, List.map_nil, List.take_nil] at hone
      exact ih (h.submit hn now hroom hfresh) (sound_submit hsound hroom hfresh)
        (hn.submit hroom hfresh) ((hperm.append_right _).nodup_iff.mpr hnew)

/-- The sorted queue is ordered by priority and submission. -/
theorem InOrder.sorted (h : m.InOrder) :
    (queuedBy RuntimeJob.rank { m with
      queued := m.queued.insertionSort fun a b => m.queueOrder a ≤ m.queueOrder b }).Pairwise
      fun a b => a.1 < b.1 ∨ a.1 = b.1 ∧ a.2 < b.2 := by
  have hkey : ∀ jobId, ∀ a ∈ (m.jobs.get? jobId).map RuntimeJob.rank, a.1 = m.queueOrder jobId := by
    intro jobId a ha
    obtain ⟨job,hget,rfl⟩ := Option.map_eq_some_iff.mp ha
    rw [queueOrder, hget]
    rfl
  rw [InOrder, queuedBy, List.pairwise_filterMap] at h
  rw [queuedBy, List.pairwise_filterMap]
  have hstable : m.queued.Pairwise fun i j => m.queueOrder i = m.queueOrder j →
      ∀ a ∈ (m.jobs.get? i).map RuntimeJob.rank, ∀ b ∈ (m.jobs.get? j).map RuntimeJob.rank,
        a.2 < b.2 :=
    h.imp fun hij hsame a ha b hb =>
      hij a ha b hb ((hkey _ a ha).trans (hsame.trans (hkey _ b hb).symm))
  refine (pairwise_insertionSort_lex (fun a b => Iff.rfl) hstable).imp ?_
  intro i j hij a ha b hb
  rw [hkey i a ha, hkey j b hb]
  exact hij.imp_right fun hsame => ⟨hsame.1,hsame.2 a ha b hb⟩

/-- What is dispatched, and after it what stays in the queue, is in order. -/
theorem InOrder.dispatch (h : m.InOrder) (now : ℚ) (maxDispatch : ℤ) :
    ((m.dispatch now maxDispatch).2.map RuntimeJob.rank ++
      (m.dispatch now maxDispatch).1.queuedBy RuntimeJob.rank).Pairwise
      fun a b => a.1 < b.1 ∨ a.1 = b.1 ∧ a.2 < b.2 := by
  rw [UltraScaleRuntime.dispatch, queuedBy_dispatchLoop (rank_dispatched now)]
  exact h.sorted

theorem queuedBy_update {job old : RuntimeJob} (h : m.Sound)
    (hget : m.running.get? job.jobId = some old) :
    (m.update job).queuedBy RuntimeJob.rank = m.queuedBy RuntimeJob.rank := by
  refine List.filterMap_congr fun jobId hid => ?_
  have hne : jobId ≠ job.jobId := by
    rintro rfl
    exact List.disjoint_of_nodup_append h.nodup hid
      (mem_runningIds.mpr (Option.isSome_of_mem hget))
  rw [update]
  dsimp only
  split_ifs
  · rw [Table.get?_put, key_job, if_neg hne]
  · rfl

theorem InOrder.update (h : m.InOrder) (hsound : m.Sound) {job old : RuntimeJob}
    (hget : m.running.get? job.jobId = some old) : (m.update job).InOrder := by
  rw [InOrder, queuedBy_update hsound hget]
  exact h

theorem InOrder.exec (h : m.InOrder) (hsound : m.Sound) {returned : List ℕ}
    (hn : m.Numbered returned) {c : RuntimeCall} (hfresh : m.Fresh c) : (m.exec c).InOrder := by
  cases c with
  | submit now job => exact h.submitAll hsound hn now [job] hfresh
  | submitBatch now jobs =>
    change (m.submitBatch now jobs).1.InOrder
    rw [submitBatch_fst]
    exact h.submitAll hsound hn now (batchOrder jobs) hfresh
  | dispatch now maxDispatch =>
    have hall := (List.pairwise_append.mp (h.dispatch now maxDispatch)).2.1
    exact hall.imp fun hab hsame => by omega
  | markRunning jobId streaming =>
    change (m.markRunning jobId streaming).1.InOrder
    rw [markRunning]
    cases hget : m.running.get? jobId with
    | none => exact h
    | some job =>
      have hkey : job.jobId = jobId := Table.key_of_get? hget
      exact h.update hsound (hkey ▸ hget)
  | updateTokens jobId tokens tps =>
    change (m.updateTokens jobId tokens tps).1.InOrder
    rw [updateTokens]
    cases hget : m.running.get? jobId with
    | none => exact h
    | some job =>
      have hkey : job.jobId = jobId := Table.key_of_get? hget
      have hrun : m.running.get? ({ job with
          tokensGenerated := tokens, tokensPerSecond := tps } : RuntimeJob).jobId = some job :=
        hkey ▸ hget
      exact h.update hsound hrun
  | completeJob now jobId success =>
    exact h.of_sublist (queuedBy_completeJob RuntimeJob.rank hsound now jobId success)
  | cancelJob jobId => exact h.of_sublist (queuedBy_cancelJob RuntimeJob.rank hsound jobId)

theorem inOrder_run {calls : List RuntimeCall} (h : m.InOrder) (hsound : m.Sound)
    {returned : List ℕ} (hn : m.Numbered returned)
    (hfresh : Along UltraScaleRuntime.exec Fresh m calls) :
    (run UltraScaleRuntime.exec m calls).InOrder := by
  induction calls generalizing m returned with
  | nil => exact h
  | cons c calls ih =>
    have hmoves := moves_exec hsound hfresh.1
    exact ih (h.exec hsound hn hfresh.1) hmoves.sound (hmoves.numbered hn) hfresh.2

section New
variable (maxConcurrent maxQueue maxHistory : ℤ)

/-- Nothing is accepted under a live id when all ids differ. -/
theorem fresh_run {calls : List RuntimeCall} (hids : (calls.flatMap submittedBy).Nodup) :
    Along UltraScaleRuntime.exec Fresh (init maxConcurrent maxQueue maxHistory) calls := by
  rw [along_iff]
  rintro p c q rfl
  have hpart : ((p ++ [c]).flatMap submittedBy).Nodup := by
    rw [List.append_cons, List.flatMap_append] at hids
    exact (List.nodup_append.mp hids).1
  have hbefore : (p.flatMap submittedBy).Nodup := by
    rw [List.flatMap_append] at hpart
    exact (List.nodup_append.mp hpart).1
  exact (ledger_run (sound_init maxConcurrent maxQueue maxHistory) rfl hbefore).fresh hpart

/-- Each dispatch returns jobs in the order of their priority and submission, and none of the jobs
that stay in the queue precedes one of them. -/
theorem dispatches_in_order (calls : List RuntimeCall)
    (hids : (calls.flatMap submittedBy).Nodup) (now : ℚ) (maxDispatch : ℤ) :
    let m := run UltraScaleRuntime.exec (init maxConcurrent maxQueue maxHistory) calls
    (m.dispatch now maxDispatch).2.Pairwise RuntimeJob.Precedes ∧
      ∀ job ∈ (m.dispatch now maxDispatch).2, ∀ jobId ∈ (m.dispatch now maxDispatch).1.queued,
        ∃ left, (m.dispatch now maxDispatch).1.jobs.get? jobId = some left ∧
          ¬ left.Precedes job := by
  intro m
  have hfresh := fresh_run maxConcurrent maxQueue maxHistory hids
  have hsound : m.Sound := (places_run (sound_init maxConcurrent maxQueue maxHistory)
    (numbered_init maxConcurrent maxQueue maxHistory) hfresh).1
  have horder : m.InOrder := inOrder_run List.Pairwise.nil
    (sound_init maxConcurrent maxQueue maxHistory)
    (numbered_init maxConcurrent maxQueue maxHistory) hfresh
  obtain ⟨hreturned,-,hleft⟩ := List.pairwise_append.mp (horder.dispatch now maxDispatch)
  rw [List.pairwise_map] at hreturned
  refine ⟨hreturned,fun job hjob jobId hid => ?_⟩
  have hknown := ((sound_dispatch hsound now maxDispatch).2.known jobId).mpr
    (List.mem_append_left _ hid)
  obtain ⟨left,hget⟩ := Option.isSome_iff_exists.mp hknown
  refine ⟨left,hget,RuntimeJob.Precedes.asymm ?_⟩
  refine hleft job.rank (List.mem_map_of_mem hjob) left.rank ?_
  exact List.mem_filterMap.mpr ⟨jobId,hid,by rw [hget]; rfl⟩

end New

/-- Two partial dispatches with a batch, a cancellation and further submissions in between. -/
def threeWaves : List RuntimeCall :=
  [.submit 0 { jobId := "a" },.submit 1 { jobId := "b", priority := .high },
    .submit 2 { jobId := "c" },.dispatch 3 1,
    .submitBatch 4 [{ jobId := "d", priority := .low },{ jobId := "e", priority := .critical }],
    .submit 5 { jobId := "f" },.cancelJob "a"]

theorem dispatches_threeWaves :
    let m := run UltraScaleRuntime.exec (init 10 10 10) threeWaves
    (m.dispatch 6 3).2.map RuntimeJob.jobId = ["e","c","f"] ∧
      (m.dispatch 6 3).2.Pairwise RuntimeJob.Precedes ∧
        ∀ job ∈ (m.dispatch 6 3).2, ∀ jobId ∈ (m.dispatch 6 3).1.queued,
          ∃ left, (m.dispatch 6 3).1.jobs.get? jobId = some left ∧ ¬ left.Precedes job :=
  ⟨by decide +kernel,dispatches_in_order 10 10 10 threeWaves (by decide) 6 3⟩

end UltraScaleRuntime
end Arsonist.Runtime
