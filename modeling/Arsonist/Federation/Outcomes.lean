import Arsonist.Federation.Processes

/-! The outcome of a global job. Every handler writes whole records, so that an outcome stays
exactly when no write of an older record finds one. -/
namespace Arsonist.Federation
open Arsonist.Library Arsonist.Mesh

namespace ControllerState

/-- The stored status of a job. -/
def status (s : ControllerState) (id : GlobalJobId) : Option GlobalJobStatus :=
  (s.registry.getGlobalJob id).map GlobalJobRecord.status

/-- The job is stored as completed or failed. -/
def Finished (s : ControllerState) (id : GlobalJobId) : Prop :=
  ∃ st, s.status id = some st ∧ st.finished = true

/-- The step writes no record over an outcome: the writes of a submission, the write-back of a
failed push and the writes of the failover find the job not finished, and a report finds it not
finished or with the outcome that it reports. -/
def SparesOutcome (s : ControllerState) (p : Process) (pushError : Option String) : Prop :=
  match p with
  | .submitting id _ => ¬ s.Finished id
  | .routing gj _ => ¬ s.Finished gj.id
  | .pushing routed _ => pushError = none ∨ ¬ s.Finished routed.id
  | .rerouting _ _ (job :: _) _ _ => ¬ s.Finished job.id
  | .recording payload job => ¬ s.Finished job.id ∨ s.status job.id = some (reportedStatus payload)
  | _ => True

end ControllerState

theorem status_next (s : ControllerState) (p : Process) (pushError : Option String)
    (id : GlobalJobId) :
    (next s p pushError).1.status id =
      match savedJob s p pushError with
      | some job => if id = job.id then some job.status else s.status id
      | none => s.status id := by
  rw [ControllerState.status, getGlobalJob_next]
  cases savedJob s p pushError with
  | none => rfl
  | some job =>
    dsimp only
    split <;> rfl

/-- A job whose outcome is known keeps its status in the step. -/
def KeepsOutcomes (s t : ControllerState) : Prop :=
  ∀ id st, s.status id = some st → st.finished = true → t.status id = some st

/-- A record that is saved keeps an outcome if it has the same status. -/
theorem keepsOutcomes_saved {s : ControllerState} {p : Process} {pushError : Option String}
    {job : GlobalJobRecord} (h : savedJob s p pushError = some job) :
    KeepsOutcomes s (next s p pushError).1 ↔
      ∀ st, s.status job.id = some st → st.finished = true → job.status = st := by
  constructor
  · intro hkeep st hst hfinished
    have hnext := hkeep job.id st hst hfinished
    rw [status_next, h] at hnext
    dsimp only at hnext
    rw [if_pos rfl] at hnext
    exact Option.some.inj hnext
  · intro hjob id st hst hfinished
    rw [status_next, h]
    dsimp only
    by_cases hid : id = job.id
    · rw [if_pos hid, hjob st (hid ▸ hst) hfinished]
    · rw [if_neg hid, hst]

/-- Without a saved record, every outcome stays. -/
theorem keepsOutcomes_idle {s : ControllerState} {p : Process} {pushError : Option String}
    (h : savedJob s p pushError = none) : KeepsOutcomes s (next s p pushError).1 := by
  intro id st hst _
  rw [status_next, h]
  exact hst

/-- A record of an active job keeps an outcome only if there is none. -/
theorem active_keeps_iff {s : ControllerState} {job : GlobalJobRecord}
    (h : job.status.finished = false) :
    (∀ st, s.status job.id = some st → st.finished = true → job.status = st) ↔
      ¬ s.Finished job.id := by
  constructor
  · rintro hkeep ⟨st,hst,hfinished⟩
    rw [← hkeep st hst hfinished, h] at hfinished
    cases hfinished
  · intro hnot st hst hfinished
    exact absurd ⟨st,hst,hfinished⟩ hnot

/-- A record with an outcome keeps the same outcome, and no other. -/
theorem finished_keeps_iff {s : ControllerState} {job : GlobalJobRecord} :
    (∀ st, s.status job.id = some st → st.finished = true → job.status = st) ↔
      ¬ s.Finished job.id ∨ s.status job.id = some job.status := by
  constructor
  · intro hkeep
    by_cases hfin : s.Finished job.id
    · obtain ⟨st,hst,hfinished⟩ := hfin
      rw [hkeep st hst hfinished]
      exact Or.inr hst
    · exact Or.inl hfin
  · rintro (hnot | hsame) st hst hfinished
    · exact absurd ⟨st,hst,hfinished⟩ hnot
    · rw [hsame] at hst
      exact Option.some.inj hst

/-- A step of a process keeps the outcomes exactly when it spares them. -/
theorem keepsOutcomes_next (s : ControllerState) (p : Process) (pushError : Option String) :
    KeepsOutcomes s (next s p pushError).1 ↔ s.SparesOutcome p pushError := by
  cases p with
  | submitting id body => exact (keepsOutcomes_saved rfl).trans (active_keeps_iff rfl)
  | routing gj target =>
    have hsaved : savedJob s (.routing gj target) pushError = some (routedJob s.now gj target) :=
      rfl
    exact (keepsOutcomes_saved hsaved).trans (active_keeps_iff rfl)
  | pushing routed cluster =>
    cases pushError with
    | none => exact iff_of_true (keepsOutcomes_idle rfl) (Or.inl rfl)
    | some exc =>
      rw [keepsOutcomes_saved rfl, active_keeps_iff rfl, ControllerState.SparesOutcome]
      exact (or_iff_right (by simp)).symm
  | recording payload job => exact (keepsOutcomes_saved rfl).trans finished_keeps_iff
  | rerouting dead others todo pushes rest =>
    cases todo with
    | nil => exact iff_of_true (keepsOutcomes_idle rfl) trivial
    | cons job todo =>
      have hactive : (rerouteJob s.now dead others job).1.status.finished = false := by
        obtain ⟨-,hst,-⟩ | ⟨pick,-,-,-,hst,-⟩ := rerouteJob_cases s.now dead others job
        · rw [hst]; rfl
        · rw [hst]; rfl
      rw [keepsOutcomes_saved rfl, active_keeps_iff hactive, rerouteJob_id]
      rfl
  | _ => exact iff_of_true (keepsOutcomes_idle rfl) trivial

theorem status_outside (s : ControllerState) (e : Outside) (id : GlobalJobId) :
    (outside s e).status id = s.status id := by
  cases e with
  | clock now => rfl
  | register body =>
    rw [outside]
    cases urlHolder s.registry body <;> rfl

namespace Controller

/-- Whenever a job is stored as completed or failed, it is so from then on. -/
def OutcomesAbsorbing (events : List ControllerEvent) : Prop :=
  ∀ p q r, events = p ++ q ++ r → ∀ id st, st.finished = true →
    (reach p).shared.status id = some st → (reach (p ++ q)).shared.status id = some st

/-- All steps of the run spare the outcomes. -/
def SparesOutcomes (events : List ControllerEvent) : Prop :=
  Along (Pool.step controller)
    (Pool.AtAdvance fun s _ p pushError => s.shared.SparesOutcome p pushError) ⟨{},[]⟩ events

theorem keepsOutcomes_step (s : Controller) (e : ControllerEvent) :
    KeepsOutcomes s.shared (s.step controller e).shared ↔
      Pool.AtAdvance (fun s _ p pushError => s.shared.SparesOutcome p pushError) s e := by
  cases e with
  | outside e =>
    exact iff_of_true (fun id st hst _ => (status_outside s.shared e id).trans hst) trivial
  | start request => exact iff_of_true (fun _ _ hst _ => hst) trivial
  | advance i pushError =>
    refine Pool.advance_iff_atAdvance (R := fun t : Controller => KeepsOutcomes s.shared t.shared)
      (fun _ _ hst _ => hst) fun p hp => ?_
    rw [Pool.step_advance hp]
    exact keepsOutcomes_next s.shared p pushError

/-- Outcomes are absorbing in a run if and only if all its steps spare them. -/
theorem outcomesAbsorbing_iff (events : List ControllerEvent) :
    OutcomesAbsorbing events ↔ SparesOutcomes events := by
  have hstay := @stays_iff _ _ (Pool.step controller) _
    (fun (x : GlobalJobId × GlobalJobStatus) (s : Controller) =>
      x.2.finished = true ∧ s.shared.status x.1 = some x.2) ⟨{},[]⟩ events
  have hstep : Along (Pool.step controller) (fun s e => ∀ x : GlobalJobId × GlobalJobStatus,
      x.2.finished = true ∧ s.shared.status x.1 = some x.2 →
      x.2.finished = true ∧ (s.step controller e).shared.status x.1 = some x.2) ⟨{},[]⟩ events ↔
      SparesOutcomes events := by
    refine along_congr (I := fun _ => True) (fun _ _ _ _ => trivial) (fun s e _ => ?_) trivial
    rw [← keepsOutcomes_step]
    constructor
    · intro h id st hst hfinished
      exact (h (id,st) ⟨hfinished,hst⟩).2
    · intro h x hx
      exact ⟨hx.1,h x.1 x.2 hx.2 hx.1⟩
  rw [← hstep, ← hstay]
  constructor
  · intro h p q r hp x hx
    exact ⟨hx.1,h p q r hp x.1 x.2 hx.1 hx.2⟩
  · intro h p q r hp id st hfinished hst
    exact (h p q r hp (id,st) ⟨hfinished,hst⟩).2

end Controller

/-- Cluster `c` registers at time 1, with no load. -/
def clusterC : ClusterRegistration := { clusterId := "c", controlPlaneUrl := "http://c:8000" }

/-- Job `j` is submitted and its push to `c` is on the way. -/
def pushUnderWay : List ControllerEvent :=
  [.outside (.clock 1),.outside (.register clusterC),
   .start (.submit { id := some "j", requiredNodes_bounds := oneNode_bounds } "f"),
   .advance 0 none,.advance 0 none,.advance 0 none,.advance 0 none]

/-- The cluster reports the job while the controller still waits for the answer to the push,
which then times out: the handler of the submission puts the job back into the queue. -/
theorem not_outcomesAbsorbing :
    ¬ ∀ events : List ControllerEvent, Controller.OutcomesAbsorbing events := by
  intro h
  let reported : List ControllerEvent := pushUnderWay ++
    [.start (.complete { jobId := "j", clusterId := "c", ok := true }),
     .advance 1 none,.advance 1 none]
  have hdone : (Controller.reach reported).shared.status "j" = some .completed := by
    decide +kernel
  have hafter := h (reported ++ [.advance 0 (some "ReadTimeout")]) reported
    [.advance 0 (some "ReadTimeout")] [] (by simp) "j" .completed rfl hdone
  have hqueued : (Controller.reach (reported ++ [.advance 0 (some "ReadTimeout")])).shared.status
      "j" = some .queued := by decide +kernel
  rw [hqueued] at hafter
  cases hafter

end Arsonist.Federation
