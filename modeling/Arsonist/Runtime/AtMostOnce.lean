import Arsonist.Runtime.JobPlaces

/-! Which runs return each submission at most once: those in which nothing is accepted under the id
of a job that is still queued or running. -/
namespace Arsonist.Runtime.UltraScaleRuntime
open Arsonist.Library

/-- No id is queued twice, or queued and running. -/
structure Apart (m : UltraScaleRuntime) : Prop where
  queue : m.queued.Nodup
  running : ∀ jobId ∈ m.queued, m.running.get? jobId = none

/-- No id is in two places in any state of the run, and no submission is returned twice. -/
structure AtMostOnce (m : UltraScaleRuntime) (calls : List RuntimeCall) : Prop where
  places : ∀ p q, calls = p ++ q → (run exec m p).Apart
  returns : ((m.dispatched calls).map RuntimeJob.serial).Nodup

variable {m : UltraScaleRuntime}

theorem apart_iff : m.Apart ↔ m.live.Nodup := by
  have hrun : ∀ jobId, jobId ∉ m.runningIds ↔ m.running.get? jobId = none := fun jobId => by
    rw [mem_runningIds, Bool.not_eq_true, Option.isSome_eq_false_iff, Option.isNone_iff_eq_none]
  constructor
  · rintro ⟨hqueue,hnone⟩
    refine hqueue.append m.running.nodup fun jobId hid hmem => ?_
    exact (hrun jobId).mpr (hnone jobId hid) hmem
  · intro h
    refine ⟨(List.nodup_append.mp h).1,fun jobId hid => (hrun jobId).mp fun hmem => ?_⟩
    exact List.disjoint_of_nodup_append h hid hmem

theorem dispatched_cons (c : RuntimeCall) (calls : List RuntimeCall) :
    m.dispatched (c :: calls) = m.returned c ++ (m.exec c).dispatched calls := by
  rw [dispatched, steps_cons, List.flatMap_cons]
  rfl

theorem fresh_of_apart (h : m.Apart) {c : RuntimeCall} (hnext : (m.exec c).Apart) :
    m.Fresh c := by
  rw [apart_iff] at h hnext
  have hnone : (m.live ++ []).Nodup := by rwa [List.append_nil]
  cases c with
  | submit now job => exact (live_submitAll now [job]).nodup_iff.mp hnext
  | submitBatch now jobs =>
    have hbatch : ((m.submitBatch now jobs).1).live.Nodup := hnext
    rw [submitBatch_fst] at hbatch
    exact (live_submitAll now (batchOrder jobs)).nodup_iff.mp hbatch
  | dispatch now maxDispatch => exact hnone
  | markRunning jobId streaming => exact hnone
  | updateTokens jobId tokens tps => exact hnone
  | completeJob now jobId success => exact hnone
  | cancelJob jobId => exact hnone

/-- Throughout a run that accepts nothing under a live id, jobs are in one place and submissions
numbered. -/
theorem places_run {calls : List RuntimeCall} (h : m.Sound) {returned : List ℕ}
    (hn : m.Numbered returned) (hfresh : Along exec Fresh m calls) :
    (run exec m calls).Sound ∧
      (run exec m calls).Numbered (returned ++ (m.dispatched calls).map RuntimeJob.serial) := by
  induction calls generalizing m returned with
  | nil => exact ⟨h,by rwa [run_nil, dispatched, steps_nil, List.flatMap_nil, List.map_nil,
      List.append_nil]⟩
  | cons c calls ih =>
    have hmoves := moves_exec h hfresh.1
    rw [run_cons, dispatched_cons, List.map_append, ← List.append_assoc]
    exact ih hmoves.sound (hmoves.numbered hn) hfresh.2

section New
variable (maxConcurrent maxQueue maxHistory : ℤ)

theorem sound_init : (init maxConcurrent maxQueue maxHistory).Sound :=
  ⟨List.nodup_nil,fun jobId => iff_of_false (by simp) List.not_mem_nil⟩

theorem numbered_init : (init maxConcurrent maxQueue maxHistory).Numbered [] :=
  ⟨List.nodup_nil,fun _ hk => absurd hk List.not_mem_nil⟩

/-- No id is in two places and no submission is returned twice exactly when nothing is accepted
under a live id. -/
theorem atMostOnce_iff (calls : List RuntimeCall) :
    AtMostOnce (init maxConcurrent maxQueue maxHistory) calls ↔
      Along exec Fresh (init maxConcurrent maxQueue maxHistory) calls := by
  have hsound := sound_init maxConcurrent maxQueue maxHistory
  have hnumbered := numbered_init maxConcurrent maxQueue maxHistory
  constructor
  · intro h
    rw [along_iff]
    intro p c q hp
    have hnext := h.places (p ++ [c]) q (by rw [hp, List.append_assoc]; rfl)
    rw [run_concat] at hnext
    exact fresh_of_apart (h.places p (c :: q) hp) hnext
  · intro h
    refine ⟨fun p q hp => ?_,?_⟩
    · rw [hp, along_append] at h
      exact apart_iff.mpr (places_run hsound hnumbered h.1).1.nodup
    · have hall := (places_run hsound hnumbered h).2.nodup
      rw [List.nil_append] at hall
      exact (List.nodup_append.mp hall).1

end New

/-- A job that is submitted again while it is queued. -/
def submittedTwice : List RuntimeCall :=
  [.submit 0 { jobId := "a" },.submit 1 { jobId := "a" },.dispatch 2 2]

theorem not_atMostOnce : ¬ ∀ (maxConcurrent maxQueue maxHistory : ℤ) (calls : List RuntimeCall),
    AtMostOnce (init maxConcurrent maxQueue maxHistory) calls := by
  intro h
  have hserials : ((init 1000000 5000000 1000).dispatched submittedTwice).map RuntimeJob.serial =
      [1,1] := by decide +kernel
  have hreturns := (h 1000000 5000000 1000 submittedTwice).returns
  rw [hserials] at hreturns
  exact absurd hreturns (by decide)

end Arsonist.Runtime.UltraScaleRuntime
