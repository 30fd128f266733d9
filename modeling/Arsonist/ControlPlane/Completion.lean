import Arsonist.ControlPlane.Ledger

/-! Completed jobs. A scheduler step drops them, but neither `job_result` nor the recovery
from dead nodes looks at the status of the job before it writes a new one. -/
namespace Arsonist.ControlPlane
open Arsonist.Library Arsonist.Shared

namespace State
variable (cfg : Config)

/-- The steps that put a job back into play whatever its status is: a node reports that it
failed, or a node that lists it is found dead. -/
def Revives (s : State) (job : JobId) : Op → Prop
  | .jobResult _ id payload _ => id = job ∧ reportsOk payload = false
  | .checkNodesOnce deadAfterSec =>
    ∃ n ∈ deadNodes s.now deadAfterSec s.memory.nodes.entries, job ∈ n.runningJobs
  | _ => False

/-- Actions that leave a completed job completed and do not touch it otherwise. -/
def Spares (job : JobId) (as : List Action) : Prop :=
  ∀ a ∈ as, a.job = job → a = .finished job true ∨ ∃ r, a = .reported r

theorem Spares.keep {job : JobId} {as : List Action} (h : Spares job as) :
    ∀ a ∈ as, a.job = job → a.sets = none ∨ a.sets = some .completed := by
  intro a ha hj
  obtain rfl | ⟨r,rfl⟩ := h a ha hj
  · exact .inr rfl
  · exact .inl rfl

theorem Spares.not_dispatched {job : JobId} {as : List Action} (h : Spares job as)
    (node : NodeId) : .dispatched node job ∉ as := by
  intro hn
  rcases h _ hn rfl with he | ⟨r,he⟩ <;> exact absurd he (by simp)

/-- What an operation that does not revive a completed job does to it. -/
theorem opActions_spares {s : State} {op : Op} {job : JobId} (hk : s.jobSide.Known)
    (hfresh : s.Fresh op) (hc : s.status job = some .completed) (hr : ¬s.Revives job op) :
    Spares job (s.opActions cfg op) := by
  obtain ⟨c,hphase,hterm⟩ := Option.map_eq_some_iff.mp ((status_eq s job).symm.trans hc)
  refine opActions_of_terminal cfg hk hfresh hphase (.inl hterm)
    (P := fun a => a = .finished job true ∨ ∃ r, a = .reported r) ?_ ?_ ?_
  · rintro node payload env record rfl hrecord a ha
    have hkey : record.id = job := Table.key_of_get? hrecord
    have hok : reportsOk payload = true := by
      by_contra hfalse
      exact hr ⟨rfl,by simpa using hfalse⟩
    obtain rfl | ⟨-,rfl⟩ | ⟨hfalse,-⟩ := mem_recordActions cfg ha
    · left
      rw [hok, hkey]
    · exact .inr ⟨_,rfl⟩
    · rw [hok] at hfalse
      exact absurd hfalse (by simp)
  · rintro deadAfterSec rfl hlisted
    exact absurd hlisted hr
  · rintro a (rfl | ⟨r,rfl⟩) st hst
    · exact .inl (Option.some.inj hst).symm
    · exact absurd hst (by simp [Action.sets])

/-- A step that revives a completed job ends with another status. -/
theorem status_of_revives {s : State} {op : Op} {job : JobId} (hk : s.jobSide.Known)
    (hc : s.status job = some .completed) (hr : s.Revives job op) :
    (s.exec cfg op).status job ≠ some .completed := by
  obtain ⟨c,hphase,-⟩ : ∃ c, s.jobSide.phase job = some c ∧ c.status = .completed :=
    Option.map_eq_some_iff.mp ((status_eq s job).symm.trans hc)
  rw [status_eq, (edits_exec cfg s op hk).phase]
  cases op with
  | jobResult node id payload env =>
    obtain ⟨rfl,hok⟩ := hr
    obtain ⟨record,hrec,-⟩ : ∃ record, s.job? id = some record ∧ phaseOf record = c :=
      Option.map_eq_some_iff.mp hphase
    have hkey : record.id = id := Table.key_of_get? hrec
    unfold opActions recordActions
    dsimp only
    rw [hrec]
    dsimp only
    rw [hok, List.cons_append, List.cons_append]
    refine status_replay_last (a := .finished record.id false) hkey ⟨.failed,rfl,by simp⟩ ?_ _
    intro b hb _
    obtain hb | hb := List.mem_append.mp hb
    · obtain hb | hb := List.mem_append.mp hb
      · split_ifs at hb
        · rw [List.mem_singleton.mp hb]
          simp [Action.sets]
        · exact absurd hb (by simp)
      · rcases asideActions_job hb with rfl | rfl <;> simp [Action.sets]
    · exact scheduleActions_sets cfg _ hb
  | checkNodesOnce deadAfterSec =>
    obtain ⟨n,hn,hmem⟩ := hr
    have hsets : ∀ a ∈ s.opActions cfg (.checkNodesOnce deadAfterSec),
        a.sets = some .queued ∨ a.sets = some .failed := by
      intro a ha
      obtain ⟨_,-,_,-,_,-,ha⟩ := mem_checkActions.mp ha
      obtain rfl | rfl := asideActions_job ha
      · exact .inr rfl
      · exact .inl rfl
    obtain ⟨a,ha,hj⟩ : ∃ a ∈ s.opActions cfg (.checkNodesOnce deadAfterSec), a.job = job := by
      have hne : ∃ a ∈ asideActions job c.attempts, a.job = job := by
        unfold asideActions
        split_ifs
        · exact ⟨_,List.mem_singleton_self _,rfl⟩
        · exact ⟨_,List.mem_singleton_self _,rfl⟩
      obtain ⟨a,ha,hj⟩ := hne
      exact ⟨a,mem_checkActions.mpr ⟨n,hn,job,hmem,c,hphase,ha⟩,hj⟩
    obtain ⟨l,r,hsplit⟩ := List.append_of_mem ha
    rw [hsplit, replay_append]
    have hcomp : ∀ b ∈ s.opActions cfg (.checkNodesOnce deadAfterSec),
        ∃ x, b.sets = some x ∧ x ≠ .completed := by
      intro b hb
      obtain hb | hb := hsets b hb
      · exact ⟨_,hb,by simp⟩
      · exact ⟨_,hb,by simp⟩
    refine status_replay_last hj (hcomp a ha) ?_ _
    intro b hb _
    obtain ⟨x,hx,hne⟩ := hcomp b (by rw [hsplit]; simp [hb])
    rw [hx]
    simpa using hne
  | clock now => exact absurd hr id
  | registerNode payload => exact absurd hr id
  | submitJob payload env => exact absurd hr id
  | inboundJob payload origin env => exact absurd hr id
  | scheduleOnce env => exact absurd hr id
  | heartbeat node payload => exact absurd hr id
  | executionEnds node id => exact absurd hr (fun h => h)

/-- No step of a run that follows the completion of a job changes its status or dispatches
it. -/
def Absorbing (ops : List Op) : Prop :=
  ∀ p q r, ops = p ++ q ++ r → ∀ job, (run (exec cfg) {} p).status job = some .completed →
    (run (exec cfg) {} (p ++ q)).status job = some .completed ∧
    ∃ new, (run (exec cfg) {} (p ++ q)).actions = (run (exec cfg) {} p).actions ++ new ∧
      ∀ node, .dispatched node job ∉ new

/-- The condition of a step: it revives no completed job. -/
def RevivesNone (s : State) (op : Op) : Prop :=
  ∀ job, s.status job = some .completed → ¬s.Revives job op

theorem known_run (ops : List Op) : (run (exec cfg) {} ops).jobSide.Known :=
  run_always (fun s op h => known_exec cfg s op h) known_init ops

/-- A run in which no completed job is revived spares the jobs that are completed at its
start. -/
theorem run_spares {s : State} {q : List Op} {job : JobId} (hk : s.jobSide.Known)
    (hc : s.status job = some .completed)
    (hq : Along (exec cfg) (fun s op => s.Fresh op ∧ s.RevivesNone op) s q) :
    (run (exec cfg) s q).status job = some .completed ∧
      ∃ new, (run (exec cfg) s q).actions = s.actions ++ new ∧
        ∀ node, .dispatched node job ∉ new := by
  induction q generalizing s with
  | nil => exact ⟨hc,[],by simp,by simp⟩
  | cons op q ih =>
    obtain ⟨⟨hfresh,hnone⟩,hq⟩ := hq
    have hedits := edits_exec cfg s op hk
    have hspares := opActions_spares cfg hk hfresh hc (hnone job hc)
    have hc' : (s.exec cfg op).status job = some .completed := by
      rw [status_eq, hedits.phase]
      exact status_replay_keep hspares.keep ((status_eq s job).symm.trans hc)
    obtain ⟨hend,new,hact,hnot⟩ := ih (known_exec cfg s op hk) hc' hq
    refine ⟨hend,s.opActions cfg op ++ new,?_,?_⟩
    · rw [run_cons, hact, ← List.append_assoc]
      exact congrArg (· ++ new) hedits.actions
    · intro node hmem
      obtain hmem | hmem := List.mem_append.mp hmem
      · exact hspares.not_dispatched node hmem
      · exact hnot node hmem

/-- Completion is absorbing in exactly the runs in which no node reports the failure of a
completed job, and no node that lists a completed job is found dead. -/
theorem completion_absorbing_iff (ops : List Op)
    (hfresh : Along (exec cfg) Fresh {} ops) :
    Absorbing cfg ops ↔ Along (exec cfg) RevivesNone {} ops := by
  constructor
  · intro h
    rw [along_iff]
    intro p op q hops job hc hr
    have hops' : ops = p ++ [op] ++ q := by rw [hops, List.append_assoc]; rfl
    have hend := (h p [op] q hops' job hc).1
    rw [run_concat] at hend
    exact status_of_revives cfg (known_run cfg p) hc hr hend
  · intro h p q r hops job hc
    have hboth : Along (exec cfg) (fun s op => s.Fresh op ∧ s.RevivesNone op) {} ops := by
      rw [along_iff] at h hfresh ⊢
      exact fun p op q he => ⟨hfresh p op q he,h p op q he⟩
    rw [hops, along_append, along_append] at hboth
    rw [run_append]
    exact run_spares cfg (known_run cfg p) hc hboth.1.2

/-- Both nodes of a job report, the second one a failure. -/
def lateFailure : List Op :=
  [.registerNode (cpuNode "a"),.registerNode (cpuNode "b"),.submitJob (pairJob "j") allAccept,
   .jobResult "a" "j" succeeded allAccept,.jobResult "b" "j" notSucceeded allAccept]

theorem completion_absorbing_iff_lateFailure :
    Absorbing {} lateFailure ↔ Along (exec {}) RevivesNone {} lateFailure :=
  completion_absorbing_iff {} lateFailure (by decide +kernel)

/-- The late failure starts the completed job once more. -/
theorem completion_not_absorbing :
    ¬∀ (cfg : Config) (ops : List Op), Along (exec cfg) Fresh {} ops → Absorbing cfg ops := by
  intro h
  have hrun := h {} lateFailure (by decide +kernel) (lateFailure.take 4) (lateFailure.drop 4) []
    (by simp) "j" (by decide +kernel)
  have hend : (run (exec {}) {} (lateFailure.take 4 ++ lateFailure.drop 4)).status "j" =
      some .running := by decide +kernel
  rw [hend] at hrun
  exact absurd hrun.1 (by simp)

end State
end Arsonist.ControlPlane
