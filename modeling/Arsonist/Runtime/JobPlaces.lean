import Arsonist.Runtime.UltraScaleRuntime

/-! Where the jobs of the runtime are. A job that is accepted under an id that is neither queued nor
running is in one place from then on, and leaves it once. -/
namespace Arsonist.Runtime.UltraScaleRuntime
open Arsonist.Library

/-- The ids of the running jobs. -/
def runningIds (m : UltraScaleRuntime) : List String := m.running.entries.map RuntimeJob.jobId

/-- The ids of the live jobs, in the queue or running. -/
def live (m : UltraScaleRuntime) : List String := m.queued ++ m.runningIds

/-- The ids that are accepted when these jobs are submitted one after the other. -/
def accepted (m : UltraScaleRuntime) (jobs : List RuntimeJob) : List String :=
  (jobs.map RuntimeJob.jobId).take (m.maxQueue-m.queued.length).toNat

/-- The ids that a call accepts. -/
def acceptedBy (m : UltraScaleRuntime) : RuntimeCall → List String
  | .submit _ job => m.accepted [job]
  | .submitBatch _ jobs => m.accepted (batchOrder jobs)
  | _ => []

/-- The ids that a call takes away, from the running jobs or from the queue. -/
def endedBy (m : UltraScaleRuntime) : RuntimeCall → List String
  | .completeJob now jobId success =>
    if (m.completeJob now jobId success).2.isSome then [jobId] else []
  | .cancelJob jobId => if (m.cancelJob jobId).2 then [jobId] else []
  | _ => []

/-- Nothing is accepted under an id that is live, or twice. -/
def Fresh (m : UltraScaleRuntime) (c : RuntimeCall) : Prop := (m.live ++ m.acceptedBy c).Nodup

instance (m : UltraScaleRuntime) (c : RuntimeCall) : Decidable (m.Fresh c) :=
  inferInstanceAs (Decidable (List.Nodup _))

/-- Each live job is in one place, and the table of jobs holds the live ones. -/
structure Sound (m : UltraScaleRuntime) : Prop where
  nodup : m.live.Nodup
  known : ∀ jobId, (m.jobs.get? jobId).isSome ↔ jobId ∈ m.live

/-- The submissions that wait in the queue. -/
def queuedSerials (m : UltraScaleRuntime) : List ℕ :=
  m.queued.filterMap fun jobId => (m.jobs.get? jobId).map RuntimeJob.serial

/-- What `f` says of the queued jobs, in the order of the queue. -/
def queuedBy {β : Type*} (f : RuntimeJob → β) (m : UltraScaleRuntime) : List β :=
  m.queued.filterMap fun jobId => (m.jobs.get? jobId).map f

/-- Submissions that were returned, and those that are still queued, are all different. -/
structure Numbered (returned : List ℕ) (m : UltraScaleRuntime) : Prop where
  nodup : (returned ++ m.queuedSerials).Nodup
  below : ∀ k ∈ returned ++ m.queuedSerials, k < m.totalSubmitted

/-- The jobs submitted one after the other. -/
def submitAll (m : UltraScaleRuntime) (now : ℚ) (jobs : List RuntimeJob) : UltraScaleRuntime :=
  jobs.foldl (fun m job => (m.submit now job).1) m

variable {m : UltraScaleRuntime} {now : ℚ}

theorem key_job (job : RuntimeJob) : Keyed.key job = job.jobId := rfl

theorem submitBatch_fst (jobs : List RuntimeJob) :
    (m.submitBatch now jobs).1 = m.submitAll now (batchOrder jobs) := by
  rw [submitBatch, submitAll]
  have hfst : ∀ (js : List RuntimeJob) (x : UltraScaleRuntime × ℕ),
      (js.foldl (fun x job =>
        ((x.1.submit now job).1,if (x.1.submit now job).2 then x.2+1 else x.2)) x).1 =
      js.foldl (fun m job => (m.submit now job).1) x.1 := by
    intro js
    induction js with
    | nil => exact fun x => rfl
    | cons j js ih => exact fun x => ih _
  exact hfst _ _

section Submit

theorem submit_of_full {job : RuntimeJob} (h : m.maxQueue ≤ m.queued.length) :
    (m.submit now job).1 = m := by
  rw [submit, if_pos h]

theorem queued_submit {job : RuntimeJob} (h : ¬ m.maxQueue ≤ m.queued.length) :
    (m.submit now job).1.queued = m.queued ++ [job.jobId] := by
  rw [submit, if_neg h]

theorem running_submit (job : RuntimeJob) : (m.submit now job).1.running = m.running := by
  rw [submit]
  split_ifs <;> rfl

theorem maxQueue_submit (job : RuntimeJob) : (m.submit now job).1.maxQueue = m.maxQueue := by
  rw [submit]
  split_ifs <;> rfl

theorem accepted_cons_of_full (h : m.maxQueue ≤ m.queued.length) (jobs : List RuntimeJob) :
    m.accepted jobs = [] := by
  rw [accepted, Int.toNat_of_nonpos (by omega), List.take_zero]

/-- The first job is accepted, the others as after it. -/
theorem accepted_cons {job : RuntimeJob} (h : ¬ m.maxQueue ≤ m.queued.length) (now : ℚ)
    (jobs : List RuntimeJob) :
    m.accepted (job :: jobs) = job.jobId :: (m.submit now job).1.accepted jobs := by
  have hroom : (m.maxQueue-m.queued.length).toNat =
      (m.maxQueue-(m.queued.length+1 : ℕ)).toNat+1 := by omega
  rw [accepted, accepted, maxQueue_submit, queued_submit h, List.map_cons, hroom,
    List.take_succ_cons, List.length_append]
  rfl

theorem running_submitAll (jobs : List RuntimeJob) :
    (m.submitAll now jobs).running = m.running := by
  induction jobs generalizing m with
  | nil => rfl
  | cons job jobs ih => exact (ih (m := (m.submit now job).1)).trans (running_submit job)

theorem queued_submitAll (jobs : List RuntimeJob) :
    (m.submitAll now jobs).queued = m.queued ++ m.accepted jobs := by
  induction jobs generalizing m with
  | nil => rw [accepted, List.map_nil, List.take_nil, List.append_nil]; rfl
  | cons job jobs ih =>
    have hstep : (m.submitAll now (job :: jobs)).queued =
      (m.submit now job).1.queued ++ (m.submit now job).1.accepted jobs := ih
    rw [hstep]
    by_cases h : m.maxQueue ≤ m.queued.length
    · rw [submit_of_full h, accepted_cons_of_full h, accepted_cons_of_full h]
    · rw [queued_submit h, accepted_cons h now, List.append_assoc]
      rfl

theorem live_submitAll (now : ℚ) (jobs : List RuntimeJob) :
    (m.submitAll now jobs).live.Perm (m.live ++ m.accepted jobs) := by
  rw [live, live, runningIds, runningIds, queued_submitAll, running_submitAll,
    List.append_assoc, List.append_assoc]
  exact List.Perm.append_left _ List.perm_append_comm

/-- A job that is accepted under a new id gets a place and the next number. -/
theorem sound_submit {job : RuntimeJob} (h : m.Sound) (hroom : ¬ m.maxQueue ≤ m.queued.length)
    (hnew : job.jobId ∉ m.live) : (m.submit now job).1.Sound := by
  have hperm : (m.submit now job).1.live.Perm (job.jobId :: m.live) := by
    rw [live, live, queued_submit hroom, runningIds, running_submit, List.append_assoc]
    exact List.perm_middle
  refine ⟨hperm.nodup_iff.mpr (List.nodup_cons.mpr ⟨hnew,h.nodup⟩),fun jobId => ?_⟩
  rw [hperm.mem_iff, List.mem_cons, ← h.known, submit, if_neg hroom]
  dsimp only
  rw [Table.get?_put, key_job]
  split_ifs with heq
  · exact iff_of_true rfl (Or.inl heq)
  · rw [or_iff_right heq]

theorem queuedBy_submit {β : Type*} (f : RuntimeJob → β) {job : RuntimeJob}
    (hroom : ¬ m.maxQueue ≤ m.queued.length) (hnew : job.jobId ∉ m.live) :
    (m.submit now job).1.queuedBy f = m.queuedBy f ++
      [f { job with state := .queued, createdAt := now, serial := m.totalSubmitted }] := by
  rw [submit, if_neg hroom, queuedBy, queuedBy]
  dsimp only
  rw [List.filterMap_append]
  refine congrArg₂ _ (List.filterMap_congr fun jobId hid => ?_) ?_
  · rw [Table.get?_put, if_neg]
    exact fun heq : jobId = job.jobId => hnew (heq ▸ List.mem_append_left _ hid)
  · simp [Table.get?_put, key_job]

theorem queuedSerials_submit {job : RuntimeJob} (hroom : ¬ m.maxQueue ≤ m.queued.length)
    (hnew : job.jobId ∉ m.live) :
    (m.submit now job).1.queuedSerials = m.queuedSerials ++ [m.totalSubmitted] :=
  queuedBy_submit RuntimeJob.serial hroom hnew

theorem totalSubmitted_submit {job : RuntimeJob} (hroom : ¬ m.maxQueue ≤ m.queued.length) :
    (m.submit now job).1.totalSubmitted = m.totalSubmitted+1 := by
  rw [submit, if_neg hroom]

theorem Numbered.submit {job : RuntimeJob} {returned : List ℕ} (h : m.Numbered returned)
    (hroom : ¬ m.maxQueue ≤ m.queued.length) (hnew : job.jobId ∉ m.live) :
    (m.submit now job).1.Numbered returned := by
  refine ⟨?_,fun k hk => ?_⟩
  · rw [queuedSerials_submit hroom hnew, ← List.append_assoc]
    refine h.nodup.append (List.nodup_singleton _) (List.disjoint_singleton.mpr fun hmem => ?_)
    exact absurd (h.below _ hmem) (lt_irrefl _)
  · rw [queuedSerials_submit hroom hnew, ← List.append_assoc] at hk
    rw [totalSubmitted_submit hroom]
    obtain hold | hlast := List.mem_append.mp hk
    · exact (h.below k hold).trans (Nat.lt_succ_self _)
    · rw [List.mem_singleton.mp hlast]
      exact Nat.lt_succ_self _

/-- Jobs that are accepted under new ids get a place and a number each. -/
theorem places_submitAll (now : ℚ) (jobs : List RuntimeJob) (h : m.Sound)
    (hnew : (m.live ++ m.accepted jobs).Nodup) :
    (m.submitAll now jobs).Sound ∧
      ∀ {returned}, m.Numbered returned → (m.submitAll now jobs).Numbered returned := by
  induction jobs generalizing m with
  | nil => exact ⟨h,fun hn => hn⟩
  | cons job jobs ih =>
    have hcons : m.submitAll now (job :: jobs) = (m.submit now job).1.submitAll now jobs := rfl
    rw [hcons]
    by_cases hroom : m.maxQueue ≤ m.queued.length
    · rw [submit_of_full hroom]
      refine ih h ?_
      rwa [accepted_cons_of_full hroom] at hnew ⊢
    · rw [accepted_cons hroom now, List.append_cons] at hnew
      have hone := (List.nodup_append.mp hnew).1
      have hfresh : job.jobId ∉ m.live := fun hmem =>
        List.disjoint_of_nodup_append hone hmem (List.mem_singleton_self _)
      have hperm : (m.submit now job).1.live.Perm (m.live ++ [job.jobId]) := by
        rw [live, live, queued_submit hroom, runningIds, running_submit, List.append_assoc,
          List.append_assoc]
        exact List.Perm.append_left _ List.perm_append_comm
      obtain ⟨hsound,hnumbered⟩ := ih (sound_submit h hroom hfresh)
        ((hperm.append_right _).nodup_iff.mpr hnew)
      exact ⟨hsound,fun hn => hnumbered (hn.submit hroom hfresh)⟩

end Submit

section Dispatch

/-- What a job that is stored in a changed form keeps. -/
theorem map_get?_put {β : Type*} {f : RuntimeJob → β} {t : Table RuntimeJob}
    {job old : RuntimeJob} (hget : t.get? job.jobId = some old) (hf : f job = f old)
    (jobId : String) : ((t.put job).get? jobId).map f = (t.get? jobId).map f := by
  rw [Table.get?_put, key_job]
  split_ifs with h
  · rw [h, hget]
    exact congrArg some hf
  · rfl

theorem isSome_get?_put {t : Table RuntimeJob} {job old : RuntimeJob}
    (hget : t.get? job.jobId = some old) (jobId : String) :
    ((t.put job).get? jobId).isSome ↔ (t.get? jobId).isSome := by
  rw [Table.get?_put, key_job]
  split_ifs with h
  · rw [h, hget]
    exact iff_of_true rfl rfl
  · rfl

/-- What the loop returns leaves the front of the queue. -/
theorem queuedBy_dispatchLoop {β : Type*} {f : RuntimeJob → β}
    {now : ℚ} (hf : ∀ job, f (job.dispatched now) = f job) (n : ℕ) (m : UltraScaleRuntime) :
    (dispatchLoop now n m).2.map f ++ (dispatchLoop now n m).1.queuedBy f = m.queuedBy f := by
  induction n generalizing m with
  | zero => rfl
  | succ n ih =>
    rw [dispatchLoop]
    cases hq : m.queued with
    | nil => rfl
    | cons jobId rest =>
      dsimp only
      cases hget : m.jobs.get? jobId with
      | none =>
        dsimp only
        rw [ih, queuedBy, queuedBy, hq, List.filterMap_cons, hget]
        rfl
      | some job =>
        have hkey : job.jobId = jobId := Table.key_of_get? hget
        have hput : ∀ id, ((m.jobs.put (job.dispatched now)).get? id).map f =
            (m.jobs.get? id).map f :=
          map_get?_put (show m.jobs.get? (job.dispatched now).jobId = some job from hkey ▸ hget)
            (hf job)
        dsimp only
        rw [List.map_cons, List.cons_append, ih, queuedBy, queuedBy, hq, List.filterMap_cons, hget]
        simp only [hput, hf]
        rfl

/-- The loop moves jobs from the queue to the running ones. -/
theorem sound_dispatchLoop (now : ℚ) (n : ℕ) {m : UltraScaleRuntime} (h : m.Sound) :
    (dispatchLoop now n m).1.live.Perm m.live ∧ (dispatchLoop now n m).1.Sound := by
  induction n generalizing m with
  | zero => exact ⟨List.Perm.refl _,h⟩
  | succ n ih =>
    rw [dispatchLoop]
    cases hq : m.queued with
    | nil => exact ⟨List.Perm.refl _,h⟩
    | cons jobId rest =>
      have hlive : m.live = jobId :: (rest ++ m.runningIds) := by rw [live, hq]; rfl
      obtain ⟨job,hget⟩ := Option.isSome_iff_exists.mp
        ((h.known jobId).mpr (hlive ▸ List.mem_cons_self))
      have hkey : job.jobId = jobId := Table.key_of_get? hget
      have hnew : m.running.get? (Keyed.key (job.dispatched now)) = none := by
        have hnodup := h.nodup
        rw [hlive] at hnodup
        refine Table.get?_eq_none_iff.mpr fun hrun => (List.nodup_cons.mp hnodup).1 ?_
        rw [← hkey]
        exact List.mem_append_right rest hrun
      dsimp only
      rw [hget]
      dsimp only
      set next : UltraScaleRuntime := { m with
        queued := rest,
        jobs := m.jobs.put (job.dispatched now),
        running := m.running.put (job.dispatched now) } with hnext
      have hids : next.runningIds = m.runningIds ++ [jobId] :=
        (Table.keys_put_of_none hnew).trans (congrArg (m.runningIds ++ [·]) hkey)
      have hperm : next.live.Perm m.live := by
        rw [hlive, live, hids, ← List.append_assoc]
        exact List.perm_append_singleton jobId _
      have hsound : next.Sound := by
        refine ⟨hperm.nodup_iff.mpr h.nodup,fun id => ?_⟩
        rw [hperm.mem_iff, ← h.known]
        exact isSome_get?_put
          (show m.jobs.get? (job.dispatched now).jobId = some job from hkey ▸ hget) id
      obtain ⟨hloop,hend⟩ := ih hsound
      exact ⟨hloop.trans hperm,hend⟩

/-- The queue in another order. -/
theorem Sound.of_perm (h : m.Sound) {queue : List String} (hperm : queue.Perm m.queued) :
    Sound { m with queued := queue } := by
  have hlive : (queue ++ m.runningIds).Perm m.live := hperm.append_right _
  exact ⟨hlive.nodup_iff.mpr h.nodup,fun jobId => (h.known jobId).trans hlive.mem_iff.symm⟩

theorem sound_dispatch (h : m.Sound) (now : ℚ) (maxDispatch : ℤ) :
    (m.dispatch now maxDispatch).1.live.Perm m.live ∧ (m.dispatch now maxDispatch).1.Sound := by
  have hperm := List.perm_insertionSort (fun a b => m.queueOrder a ≤ m.queueOrder b) m.queued
  obtain ⟨hloop,hsound⟩ := sound_dispatchLoop now (m.toDispatch maxDispatch).toNat
    (h.of_perm hperm)
  exact ⟨hloop.trans (hperm.append_right _),hsound⟩

theorem serials_dispatch (m : UltraScaleRuntime) (now : ℚ) (maxDispatch : ℤ) :
    ((m.dispatch now maxDispatch).2.map RuntimeJob.serial ++
      (m.dispatch now maxDispatch).1.queuedSerials).Perm m.queuedSerials := by
  have hkeep : ∀ job : RuntimeJob, (job.dispatched now).serial = job.serial := fun _ => rfl
  have hloop := queuedBy_dispatchLoop hkeep (m.toDispatch maxDispatch).toNat { m with
      queued := m.queued.insertionSort fun a b => m.queueOrder a ≤ m.queueOrder b }
  refine (List.Perm.of_eq hloop).trans ?_
  exact (List.perm_insertionSort _ m.queued).filterMap _

theorem totalSubmitted_dispatchLoop (n : ℕ) (m : UltraScaleRuntime) :
    (dispatchLoop now n m).1.totalSubmitted = m.totalSubmitted := by
  induction n generalizing m with
  | zero => rfl
  | succ n ih =>
    rw [dispatchLoop]
    cases m.queued with
    | nil => rfl
    | cons jobId rest =>
      dsimp only
      cases m.jobs.get? jobId with
      | none => exact ih _
      | some job => exact ih _

end Dispatch

section Running

/-- A change of a running job that keeps its id and its serial number moves nothing. -/
theorem update_places {job old : RuntimeJob} (hget : m.running.get? job.jobId = some old) :
    (m.update job).live = m.live ∧ (m.update job).queuedSerials = m.queuedSerials ∧
      ∀ jobId, ((m.update job).jobs.get? jobId).isSome ↔ (m.jobs.get? jobId).isSome := by
  have hids : (m.update job).runningIds = m.runningIds := Table.keys_put_of_some hget
  refine ⟨congrArg (m.queued ++ ·) hids,?_,fun jobId => ?_⟩
  · rw [queuedSerials, queuedSerials, update]
    dsimp only
    congr 1
    funext jobId
    split_ifs with h
    · obtain ⟨stored,hstored,hserial⟩ := Option.map_eq_some_iff.mp h
      exact map_get?_put hstored hserial.symm jobId
    · rfl
  · rw [update]
    dsimp only
    split_ifs with h
    · obtain ⟨stored,hstored,-⟩ := Option.map_eq_some_iff.mp h
      exact isSome_get?_put hstored jobId
    · rfl

theorem Sound.update {job old : RuntimeJob} (h : m.Sound)
    (hget : m.running.get? job.jobId = some old) : (m.update job).Sound := by
  obtain ⟨hlive,-,hsome⟩ := update_places hget
  exact ⟨hlive.symm ▸ h.nodup,fun jobId => by rw [hsome, hlive, h.known]⟩

theorem mem_runningIds {jobId : String} : jobId ∈ m.runningIds ↔ (m.running.get? jobId).isSome := by
  rw [Option.isSome_iff_ne_none, ne_eq, Table.get?_eq_none_iff, not_not]
  rfl

/-- An id that leaves the table of jobs and the queue takes no other job with it. -/
theorem queuedBy_erase_sublist {β : Type*} (f : RuntimeJob → β) {m' : UltraScaleRuntime}
    (jobId : String) (h : jobId ∉ m'.queued) (hsub : m'.queued.Sublist m.queued)
    (hjobs : m'.jobs = m.jobs.erase jobId) : (m'.queuedBy f).Sublist (m.queuedBy f) := by
  have hcongr : m'.queuedBy f = m'.queued.filterMap fun id => (m.jobs.get? id).map f := by
    refine List.filterMap_congr fun id hid => ?_
    rw [hjobs, Table.get?_erase, if_neg fun heq : id = jobId => h (heq ▸ hid)]
  rw [hcongr]
  exact hsub.filterMap _

/-- A job that is no longer live is no longer known. -/
theorem Sound.of_erase (h : m.Sound) {m' : UltraScaleRuntime} {jobId : String}
    (hperm : (m'.live ++ [jobId]).Perm m.live) (hjobs : m'.jobs = m.jobs.erase jobId) :
    m'.Sound := by
  have hnodup := hperm.nodup_iff.mpr h.nodup
  refine ⟨(List.nodup_append.mp hnodup).1,fun id => ?_⟩
  have hmem : id ∈ m.live ↔ id ∈ m'.live ∨ id = jobId := by
    rw [← hperm.mem_iff, List.mem_append, List.mem_singleton]
  rw [hjobs, Table.get?_erase]
  split_ifs with heq
  · refine iff_of_false (by simp) fun hid => ?_
    exact List.disjoint_of_nodup_append hnodup hid (List.mem_singleton.mpr heq)
  · rw [h.known, hmem, or_iff_left heq]

/-- What a running job's end changes. -/
theorem erase_running (h : m.Sound) (m' : UltraScaleRuntime) {jobId : String}
    (hrun : (m.running.get? jobId).isSome) (hqueued : m'.queued = m.queued)
    (hrunning : m'.running = m.running.erase jobId) (hjobs : m'.jobs = m.jobs.erase jobId) :
    (m'.live ++ [jobId]).Perm m.live ∧ m'.Sound := by
  have hids : m'.runningIds = m.runningIds.erase jobId := by
    rw [runningIds, hrunning]
    exact Table.keys_erase _ _
  have hmem : jobId ∈ m.runningIds := mem_runningIds.mpr hrun
  have hperm : (m'.live ++ [jobId]).Perm m.live := by
    rw [live, live, hqueued, hids, List.append_assoc]
    refine List.Perm.append_left _ ?_
    exact (List.perm_append_singleton jobId _).trans (List.perm_cons_erase hmem).symm
  exact ⟨hperm,h.of_erase hperm hjobs⟩

/-- What the end of a queued job changes. -/
theorem erase_queued (h : m.Sound) (m' : UltraScaleRuntime) {jobId : String}
    (hmem : jobId ∈ m.queued) (hqueued : m'.queued = m.queued.erase jobId)
    (hrunning : m'.running = m.running) (hjobs : m'.jobs = m.jobs.erase jobId) :
    (m'.live ++ [jobId]).Perm m.live ∧ m'.Sound := by
  have hperm : (m'.live ++ [jobId]).Perm m.live := by
    rw [live, live, hqueued, runningIds, hrunning]
    refine (List.perm_append_singleton jobId _).trans ?_
    exact ((List.perm_cons_erase hmem).append_right _).symm
  exact ⟨hperm,h.of_erase hperm hjobs⟩

/-- The end of a live job takes no other one from the queue. -/
theorem queuedBy_completeJob {β : Type*} (f : RuntimeJob → β) (h : m.Sound) (now : ℚ)
    (jobId : String) (success : Bool) :
    ((m.completeJob now jobId success).1.queuedBy f).Sublist (m.queuedBy f) := by
  rw [completeJob]
  cases hget : m.running.get? jobId with
  | none => exact List.Sublist.refl _
  | some job =>
    refine queuedBy_erase_sublist f jobId ?_ (List.Sublist.refl _) rfl
    exact fun hq => List.disjoint_of_nodup_append h.nodup hq
      (mem_runningIds.mpr (Option.isSome_of_mem hget))

theorem queuedBy_cancelJob {β : Type*} (f : RuntimeJob → β) (h : m.Sound) (jobId : String) :
    ((m.cancelJob jobId).1.queuedBy f).Sublist (m.queuedBy f) := by
  rw [cancelJob]
  by_cases hrun : (m.running.get? jobId).isSome
  · rw [if_pos hrun]
    refine queuedBy_erase_sublist f jobId ?_ (List.Sublist.refl _) rfl
    exact fun hq => List.disjoint_of_nodup_append h.nodup hq (mem_runningIds.mpr hrun)
  · rw [if_neg hrun]
    by_cases hqueued : jobId ∈ m.queued
    · rw [if_pos hqueued]
      exact queuedBy_erase_sublist f jobId (List.nodup_append.mp h.nodup).1.not_mem_erase
        List.erase_sublist rfl
    · rw [if_neg hqueued]

end Running

/-- What a call does to the places of the jobs and to the submissions in the queue. -/
structure Moves (m m' : UltraScaleRuntime) (acceptedIds endedIds : List String)
    (serials : List ℕ) : Prop where
  live : (m'.live ++ endedIds).Perm (m.live ++ acceptedIds)
  sound : m'.Sound
  numbered : ∀ {returned}, m.Numbered returned → m'.Numbered (returned ++ serials)

section Calls

theorem Numbered.of_sublist {m' : UltraScaleRuntime} {returned : List ℕ} (h : m.Numbered returned)
    (hsub : m'.queuedSerials.Sublist m.queuedSerials)
    (htotal : m'.totalSubmitted = m.totalSubmitted) : m'.Numbered (returned ++ []) := by
  rw [List.append_nil]
  have hall := hsub.append_left returned
  exact ⟨h.nodup.sublist hall,fun k hk => htotal ▸ h.below k (hall.subset hk)⟩

theorem Moves.refl (h : m.Sound) : Moves m m [] [] [] :=
  ⟨List.Perm.refl _,h,fun hn => hn.of_sublist (List.Sublist.refl _) rfl⟩

theorem moves_submitAll (h : m.Sound) {jobs : List RuntimeJob}
    (hnew : (m.live ++ m.accepted jobs).Nodup) :
    Moves m (m.submitAll now jobs) (m.accepted jobs) [] [] := by
  have hlive := live_submitAll (m := m) now jobs
  rw [← List.append_nil (m.submitAll now jobs).live] at hlive
  obtain ⟨hsound,hnumbered⟩ := places_submitAll now jobs h hnew
  exact ⟨hlive,hsound,fun hn => by rw [List.append_nil]; exact hnumbered hn⟩

theorem moves_dispatch (h : m.Sound) (maxDispatch : ℤ) :
    Moves m (m.dispatch now maxDispatch).1 [] []
      ((m.dispatch now maxDispatch).2.map RuntimeJob.serial) := by
  obtain ⟨hlive,hsound⟩ := sound_dispatch h now maxDispatch
  have hserials := serials_dispatch m now maxDispatch
  refine ⟨hlive.append_right [],hsound,fun {returned} hn => ?_⟩
  have hperm := hserials.append_left returned
  rw [← List.append_assoc] at hperm
  refine ⟨hperm.nodup_iff.mpr hn.nodup,fun k hk => ?_⟩
  rw [dispatch, totalSubmitted_dispatchLoop]
  exact hn.below k (hperm.mem_iff.mp hk)

theorem moves_update (h : m.Sound) {job old : RuntimeJob}
    (hget : m.running.get? job.jobId = some old) : Moves m (m.update job) [] [] [] := by
  obtain ⟨hlive,hserials,-⟩ := update_places hget
  exact ⟨List.Perm.of_eq (congrArg (· ++ []) hlive),h.update hget,
    fun hn => hn.of_sublist (hserials ▸ List.Sublist.refl _) rfl⟩

theorem moves_completeJob (h : m.Sound) (now : ℚ) (jobId : String) (success : Bool) :
    Moves m (m.completeJob now jobId success).1 []
      (if (m.completeJob now jobId success).2.isSome then [jobId] else []) [] := by
  have hserials := queuedBy_completeJob RuntimeJob.serial h now jobId success
  rw [completeJob] at hserials ⊢
  cases hget : m.running.get? jobId with
  | none => exact Moves.refl h
  | some job =>
    rw [hget] at hserials
    obtain ⟨hlive,hsound⟩ := erase_running h (m.completeJob now jobId success).1
      (Option.isSome_iff_exists.mpr ⟨job,hget⟩) (by rw [completeJob, hget])
      (by rw [completeJob, hget]) (by rw [completeJob, hget])
    rw [completeJob, hget] at hlive hsound
    exact ⟨by rwa [List.append_nil],hsound,fun hn => hn.of_sublist hserials rfl⟩

theorem moves_cancelJob (h : m.Sound) (jobId : String) :
    Moves m (m.cancelJob jobId).1 [] (if (m.cancelJob jobId).2 then [jobId] else []) [] := by
  have hserials := queuedBy_cancelJob RuntimeJob.serial h jobId
  rw [cancelJob] at hserials ⊢
  by_cases hrun : (m.running.get? jobId).isSome
  · obtain ⟨hlive,hsound⟩ := erase_running h
      { m with running := m.running.erase jobId, jobs := m.jobs.erase jobId } hrun rfl rfl rfl
    rw [if_pos hrun] at hserials ⊢
    exact ⟨by rwa [List.append_nil],hsound,fun hn => hn.of_sublist hserials rfl⟩
  · rw [if_neg hrun] at hserials ⊢
    by_cases hqueued : jobId ∈ m.queued
    · obtain ⟨hlive,hsound⟩ := erase_queued h
        { m with queued := m.queued.erase jobId, jobs := m.jobs.erase jobId } hqueued rfl rfl rfl
      rw [if_pos hqueued] at hserials ⊢
      exact ⟨by rwa [List.append_nil],hsound,fun hn => hn.of_sublist hserials rfl⟩
    · rw [if_neg hqueued]
      exact Moves.refl h

/-- What a call accepts becomes live, what it ends was live, and what it returns was queued. -/
theorem moves_exec (h : m.Sound) {c : RuntimeCall} (hfresh : m.Fresh c) :
    Moves m (m.exec c) (m.acceptedBy c) (m.endedBy c) ((m.returned c).map RuntimeJob.serial) := by
  cases c with
  | submit now job => exact moves_submitAll h hfresh
  | submitBatch now jobs =>
    change Moves m (m.submitBatch now jobs).1 (m.accepted (batchOrder jobs)) [] []
    rw [submitBatch_fst]
    exact moves_submitAll h hfresh
  | dispatch now maxDispatch => exact moves_dispatch h maxDispatch
  | markRunning jobId streaming =>
    change Moves m (m.markRunning jobId streaming).1 [] [] []
    rw [markRunning]
    cases hget : m.running.get? jobId with
    | none => exact Moves.refl h
    | some job =>
      have hkey : job.jobId = jobId := Table.key_of_get? hget
      exact moves_update h (hkey ▸ hget)
  | updateTokens jobId tokens tps =>
    change Moves m (m.updateTokens jobId tokens tps).1 [] [] []
    rw [updateTokens]
    cases hget : m.running.get? jobId with
    | none => exact Moves.refl h
    | some job =>
      have hkey : job.jobId = jobId := Table.key_of_get? hget
      have hrun : m.running.get? ({ job with
          tokensGenerated := tokens, tokensPerSecond := tps } : RuntimeJob).jobId = some job :=
        hkey ▸ hget
      have hmoves := moves_update h hrun
      exact ⟨hmoves.live,⟨hmoves.sound.nodup,hmoves.sound.known⟩,
        fun hn => ⟨(hmoves.numbered hn).nodup,(hmoves.numbered hn).below⟩⟩
  | completeJob now jobId success => exact moves_completeJob h now jobId success
  | cancelJob jobId => exact moves_cancelJob h jobId

end Calls
end Arsonist.Runtime.UltraScaleRuntime
