import Arsonist.ControlPlane.Memory

/-! The life of a job, read off the actions of the control plane. A job's phase is its
status, the attempts it has used and whether a federation waits for it. The actions
determine the phase: replaying them is the abstract account of what the operations do to
the job map, whatever they write around it. -/
namespace Arsonist.ControlPlane
open Arsonist.Library Arsonist.Shared

structure Phase where
  status : JobStatus
  attempts : ℕ
  federated : Bool
  deriving DecidableEq, Repr

def phaseOf (job : JobRecord) : Phase := ⟨job.status,job.attempts,job.reportToFederation⟩

/-- The job that an action is about. -/
def Action.job : Action → JobId
  | submitted j _ => j
  | requeued j => j
  | exhausted j => j
  | started j => j
  | dispatched _ j => j
  | finished j _ => j
  | reported r => r.jobId

/-- What an action does to the phase of the job that it is about. -/
def Action.next : Action → Option Phase → Option Phase
  | submitted _ fed, _ => some ⟨.queued,0,fed⟩
  | requeued _, p => p.map fun c => { c with status := .queued }
  | exhausted _, p => p.map fun c => { c with status := .failed }
  | started _, p => p.map fun c => { c with status := .running, attempts := c.attempts+1 }
  | dispatched _ _, p => p
  | finished _ ok, p => p.map fun c => { c with status := if ok then .completed else .failed }
  | reported _, p => p

def Action.apply (k : JobId) (p : Option Phase) (a : Action) : Option Phase :=
  if a.job = k then a.next p else p

/-- The phase of job `k` after a list of actions. -/
def replay (k : JobId) (p : Option Phase) (as : List Action) : Option Phase :=
  as.foldl (Action.apply k) p

@[simp] theorem replay_nil (k : JobId) (p : Option Phase) : replay k p [] = p := rfl

@[simp] theorem replay_cons (k : JobId) (p : Option Phase) (a : Action) (as : List Action) :
    replay k p (a :: as) = replay k (a.apply k p) as := rfl

theorem replay_append (k : JobId) (p : Option Phase) (as bs : List Action) :
    replay k p (as ++ bs) = replay k (replay k p as) bs := List.foldl_append

/-- Actions about other jobs leave a job alone. -/
theorem replay_of_other {k : JobId} {as : List Action} (h : ∀ a ∈ as, a.job ≠ k)
    (p : Option Phase) : replay k p as = p := by
  induction as generalizing p with
  | nil => rfl
  | cons a as ih =>
    rw [replay_cons, Action.apply, if_neg (h a (by simp))]
    exact ih (fun b hb => h b (by simp [hb])) p

/-- Dispatching changes no phase. -/
@[simp] theorem replay_dispatched (k j : JobId) (p : Option Phase) (nodes : List NodeId) :
    replay k p (nodes.map fun n => .dispatched n j) = p := by
  induction nodes with
  | nil => rfl
  | cons n nodes ih => simpa [Action.apply, Action.next] using ih

/-- The status that an action gives to the job that it is about. -/
def Action.sets : Action → Option JobStatus
  | submitted _ _ => some .queued
  | requeued _ => some .queued
  | exhausted _ => some .failed
  | started _ => some .running
  | dispatched _ _ => none
  | finished _ ok => some (if ok then .completed else .failed)
  | reported _ => none

/-- An action sets the status that it is said to set, or leaves the status alone. -/
theorem Action.status_next (a : Action) (c : Phase) :
    (a.next (some c)).map Phase.status = some (a.sets.getD c.status) := by
  cases a <;> rfl

/-- An unknown job becomes known by a submission only. -/
theorem Action.status_next_none (a : Action) :
    (a.next none).map Phase.status = none ∨ (a.next none).map Phase.status = a.sets := by
  cases a
  case submitted j fed => exact .inr rfl
  all_goals exact .inl rfl

/-- A status comes up only if the action sets it, or sets none and finds it. -/
theorem Action.status_next_ne {a : Action} {st : JobStatus} {p : Option Phase}
    (hset : a.sets ≠ some st) (hp : a.sets = none → p.map Phase.status ≠ some st) :
    (a.next p).map Phase.status ≠ some st := by
  cases p with
  | none =>
    obtain h | h := a.status_next_none
    · rw [h]; simp
    · rw [h]; exact hset
  | some c =>
    rw [a.status_next]
    cases hs : a.sets with
    | none => simpa using hp hs
    | some x =>
      rw [hs] at hset
      exact hset

/-- A status stays as long as the actions about the job set no other. -/
theorem status_replay_keep {k : JobId} {as : List Action} {st : JobStatus}
    (h : ∀ a ∈ as, a.job = k → a.sets = none ∨ a.sets = some st) {p : Option Phase}
    (hp : p.map Phase.status = some st) : (replay k p as).map Phase.status = some st := by
  induction as generalizing p with
  | nil => exact hp
  | cons a as ih =>
    rw [replay_cons]
    apply ih fun b hb => h b (by simp [hb])
    unfold Action.apply
    split_ifs with hk
    · obtain ⟨c,rfl,hc⟩ := Option.map_eq_some_iff.mp hp
      rw [a.status_next]
      obtain hs | hs := h a (by simp) hk
      · rw [hs, Option.getD_none, hc]
      · rw [hs, Option.getD_some]
    · exact hp

/-- A finished job stays finished as long as the actions about it set final states only. -/
theorem terminal_replay {k : JobId} {as : List Action}
    (h : ∀ a ∈ as, a.job = k → ∀ st, a.sets = some st → st.terminal) {c : Phase}
    (hc : c.status.terminal) :
    ∃ d, replay k (some c) as = some d ∧ d.status.terminal := by
  induction as generalizing c with
  | nil => exact ⟨c,rfl,hc⟩
  | cons a as ih =>
    rw [replay_cons, Action.apply]
    have has := fun b hb => h b (List.mem_cons_of_mem a hb)
    split_ifs with hk
    · obtain ⟨d,hd,hds⟩ := Option.map_eq_some_iff.mp (a.status_next c)
      rw [hd]
      apply ih has
      rw [hds]
      cases hs : a.sets with
      | none => exact hc
      | some st => exact h a (by simp) hk st hs
    · exact ih has hc

/-- A status that the actions about the job do not set does not come up. -/
theorem status_replay_avoid {k : JobId} {as : List Action} {st : JobStatus}
    (h : ∀ a ∈ as, a.job = k → a.sets ≠ some st) {p : Option Phase}
    (hp : p.map Phase.status ≠ some st) : (replay k p as).map Phase.status ≠ some st := by
  induction as generalizing p with
  | nil => exact hp
  | cons a as ih =>
    rw [replay_cons]
    apply ih fun b hb => h b (by simp [hb])
    unfold Action.apply
    split_ifs with hk
    · exact Action.status_next_ne (h a (by simp) hk) fun _ => hp
    · exact hp

/-- A status that has come up was there before, or some action set it. -/
theorem status_of_replay {k : JobId} {as : List Action} {st : JobStatus} {p : Option Phase}
    (h : (replay k p as).map Phase.status = some st) :
    p.map Phase.status = some st ∨ ∃ a ∈ as, a.job = k ∧ a.sets = some st := by
  by_contra hne
  rw [not_or, not_exists] at hne
  exact status_replay_avoid (fun a ha hj hs => hne.2 a ⟨ha,hj,hs⟩) hne.1 h

/-- Only a submission decides whether a federation waits for a job. -/
theorem federated_replay {k : JobId} {as : List Action} {b : Bool}
    (h : ∀ fed, .submitted k fed ∈ as → fed = b) {c : Phase} (hc : c.federated = b) :
    ∃ d, replay k (some c) as = some d ∧ d.federated = b := by
  induction as generalizing c with
  | nil => exact ⟨c,rfl,hc⟩
  | cons a as ih =>
    have hrest : ∀ fed, .submitted k fed ∈ as → fed = b := fun fed hmem => h fed (by simp [hmem])
    rw [replay_cons, Action.apply]
    split_ifs with hk
    · cases a with
      | submitted j fed =>
        obtain rfl : j = k := hk
        exact ih hrest (h fed (by simp))
      | requeued j => exact ih hrest hc
      | exhausted j => exact ih hrest hc
      | started j => exact ih hrest hc
      | dispatched n j => exact ih hrest hc
      | finished j ok => exact ih hrest hc
      | reported r => exact ih hrest hc
    · exact ih hrest hc

/-- The last status set is the status. -/
theorem status_replay_last {k : JobId} {a : Action} {as : List Action} {st : JobStatus}
    (ha : a.job = k) (hset : ∃ x, a.sets = some x ∧ x ≠ st)
    (h : ∀ b ∈ as, b.job = k → b.sets ≠ some st) (p : Option Phase) :
    (replay k p (a :: as)).map Phase.status ≠ some st := by
  obtain ⟨x,hx,hne⟩ := hset
  rw [replay_cons, Action.apply, if_pos ha]
  apply status_replay_avoid h
  apply Action.status_next_ne
  · rw [hx]
    simpa using hne
  · rw [hx]
    intro hnone
    exact absurd hnone (by simp)

/-- The queue after the actions: a job that is submitted or requeued is appended, unless it
is there. -/
def queueAfter (q : List JobId) (as : List Action) : List JobId :=
  as.foldl (fun q a => match a with
    | .submitted j _ => if j ∈ q then q else q ++ [j]
    | .requeued j => if j ∈ q then q else q ++ [j]
    | _ => q) q

@[simp] theorem queueAfter_nil (q : List JobId) : queueAfter q [] = q := rfl

theorem queueAfter_append (q : List JobId) (as bs : List Action) :
    queueAfter q (as ++ bs) = queueAfter (queueAfter q as) bs := List.foldl_append

theorem queueAfter_cons (q : List JobId) (a : Action) (as : List Action) :
    queueAfter q (a :: as) =
      queueAfter (if a.sets = some .queued ∧ a.job ∉ q then q ++ [a.job] else q) as := by
  cases a with
  | submitted j fed =>
    by_cases h : j ∈ q <;> simp [queueAfter, Action.sets, Action.job, h]
  | requeued j =>
    by_cases h : j ∈ q <;> simp [queueAfter, Action.sets, Action.job, h]
  | finished j ok => cases ok <;> rfl
  | exhausted j => rfl
  | started j => rfl
  | dispatched n j => rfl
  | reported r => rfl

theorem queueAfter_nodup {q : List JobId} (h : q.Nodup) (as : List Action) :
    (queueAfter q as).Nodup := by
  induction as generalizing q with
  | nil => exact h
  | cons a as ih =>
    rw [queueAfter_cons]
    split_ifs with ha
    · exact ih (List.Nodup.append h (List.nodup_singleton _) (by simpa using ha.2))
    · exact ih h

theorem mem_queueAfter {q : List JobId} {as : List Action} {k : JobId} :
    k ∈ queueAfter q as ↔ k ∈ q ∨ ∃ a ∈ as, a.job = k ∧ a.sets = some .queued := by
  induction as generalizing q with
  | nil => simp
  | cons a as ih =>
    rw [queueAfter_cons, ih, List.exists_mem_cons_iff]
    split_ifs with ha
    · rw [List.mem_append, List.mem_singleton, or_assoc]
      simp [ha.1, eq_comm]
    · rw [not_and_or, not_not] at ha
      constructor
      · rintro (h | h)
        · exact .inl h
        · exact .inr (.inr h)
      · rintro (h | ⟨hj,hs⟩ | h)
        · exact .inl h
        · exact .inl (hj ▸ ha.resolve_left (not_not.mpr hs))
        · exact .inr h

/-- A job stays known. -/
theorem replay_ne_none {k : JobId} {p : Option Phase} (h : p ≠ none) (as : List Action) :
    replay k p as ≠ none := by
  induction as generalizing p with
  | nil => exact h
  | cons a as ih =>
    rw [replay_cons]
    apply ih
    unfold Action.apply
    split_ifs
    · obtain ⟨c,rfl⟩ := Option.ne_none_iff_exists'.mp h
      cases a <;> simp [Action.next]
    · exact h

/-- A job that is submitted is known from then on. -/
theorem replay_submitted {k : JobId} {fed : Bool} {as : List Action} (h : .submitted k fed ∈ as)
    (p : Option Phase) : replay k p as ≠ none := by
  obtain ⟨l,r,rfl⟩ := List.append_of_mem h
  rw [replay_append, replay_cons]
  exact replay_ne_none (by simp [Action.apply, Action.job, Action.next]) r

/-- A status that every action about a known job sets is its status in the end. -/
theorem status_replay_all {k : JobId} {as : List Action} {st : JobStatus}
    (h : ∀ a ∈ as, a.job = k → a.sets = some st) (hex : ∃ a ∈ as, a.job = k)
    {p : Option Phase} (hp : p ≠ none) : (replay k p as).map Phase.status = some st := by
  obtain ⟨a,ha,hj⟩ := hex
  obtain ⟨l,r,rfl⟩ := List.append_of_mem ha
  obtain ⟨c,hc⟩ := Option.ne_none_iff_exists'.mp (replay_ne_none hp l)
  rw [replay_append, replay_cons, hc, Action.apply, if_pos hj]
  apply status_replay_keep fun b hb hbj => .inr (h b (by simp [hb]) hbj)
  rw [a.status_next, h a ha hj]
  rfl

/-- A job that ends up queued was queued all along, or the actions put it in the queue. -/
theorem queued_of_replay {k : JobId} {as : List Action} {p : Option Phase}
    (h : (replay k p as).map Phase.status = some .queued) :
    (p.map Phase.status = some .queued ∧ ∀ a ∈ as, a.job = k → a.sets = none) ∨
      ∃ a ∈ as, a.job = k ∧ a.sets = some .queued := by
  induction as generalizing p with
  | nil => exact .inl ⟨h,by simp⟩
  | cons a as ih =>
    rw [replay_cons] at h
    obtain ⟨hp,has⟩ | ⟨b,hb,hj⟩ := ih h
    · unfold Action.apply at hp
      split_ifs at hp with hk
      · cases hs : a.sets with
        | none =>
          left
          refine ⟨?_,by simpa [hs] using has⟩
          by_contra hne
          exact Action.status_next_ne (by rw [hs]; simp) (fun _ => hne) hp
        | some st =>
          right
          refine ⟨a,by simp,hk,?_⟩
          by_contra hne
          exact Action.status_next_ne hne (fun hnone => absurd (hs.symm.trans hnone) (by simp)) hp
      · left
        refine ⟨hp,?_⟩
        simpa [hk] using has
    · exact .inr ⟨b,by simp [hb],hj⟩

/-- Only a start uses up an attempt. -/
theorem attempts_replay {k : JobId} {as : List Action} (h : .started k ∉ as) {p : Option Phase}
    {n : ℕ} (hp : ∀ c, p = some c → c.attempts ≤ n) :
    ∀ c, replay k p as = some c → c.attempts ≤ n := by
  induction as generalizing p with
  | nil => exact hp
  | cons a as ih =>
    rw [replay_cons]
    apply ih (fun hmem => h (by simp [hmem]))
    intro c hc
    unfold Action.apply at hc
    split_ifs at hc with hk
    · cases a with
      | submitted j fed =>
        simp only [Action.next, Option.some.injEq] at hc
        simp [← hc]
      | started j => exact absurd hk fun he => h (by simp [← he, Action.job])
      | dispatched node j => exact hp c hc
      | reported r => exact hp c hc
      | requeued j =>
        obtain ⟨d,hd,rfl⟩ := Option.map_eq_some_iff.mp hc
        exact hp d hd
      | exhausted j =>
        obtain ⟨d,hd,rfl⟩ := Option.map_eq_some_iff.mp hc
        exact hp d hd
      | finished j ok =>
        obtain ⟨d,hd,rfl⟩ := Option.map_eq_some_iff.mp hc
        exact hp d hd
    · exact hp c hc

namespace JobSide

def phase (v : JobSide) (k : JobId) : Option Phase := (v.jobs.get? k).map phaseOf

def row (job : JobRecord) : Row := ⟨job.id,job.modelDump⟩

/-- The saved row of a job is its live record, or both are missing. -/
def SyncedAt (v : JobSide) (k : JobId) : Prop := v.jobRows.get? k = (v.jobs.get? k).map row

end JobSide

/-- The records move from `v` to `w` by exactly the actions `new`. Every job is either left
alone, in memory and in its row, or saved as it is in memory. -/
structure Edits (v : JobSide) (new : List Action) (w : JobSide) : Prop where
  actions : w.actions = v.actions ++ new
  phase : ∀ k, w.phase k = replay k (v.phase k) new
  saved : ∀ k, w.SyncedAt k ∨
    (w.jobs.get? k = v.jobs.get? k ∧ w.jobRows.get? k = v.jobRows.get? k)

/-- Records and queue move by exactly the actions `new`, and the durable queue keeps up. -/
structure Does (v : JobSide) (new : List Action) (w : JobSide) : Prop extends Edits v new w where
  queue : w.queue = queueAfter v.queue new
  durable : v.queueRows = v.queue → w.queueRows = w.queue

namespace Edits
variable {u v w : JobSide} {as bs : List Action}

theorem refl (v : JobSide) : Edits v [] v := ⟨by simp, fun _ => rfl, fun _ => .inr ⟨rfl,rfl⟩⟩

theorem trans (huv : Edits u as v) (hvw : Edits v bs w) : Edits u (as ++ bs) w where
  actions := by rw [hvw.actions, huv.actions, List.append_assoc]
  phase k := by rw [hvw.phase, huv.phase, replay_append]
  saved k := by
    obtain h | ⟨hj,hr⟩ := hvw.saved k
    · exact .inl h
    · obtain h | ⟨hj',hr'⟩ := huv.saved k
      · left
        rw [JobSide.SyncedAt, hr, hj]
        exact h
      · exact .inr ⟨hj.trans hj',hr.trans hr'⟩

/-- Only the records, their rows and the history matter. -/
theorem of_same (h : Edits u as v) (jobs : w.jobs = v.jobs) (rows : w.jobRows = v.jobRows)
    (actions : w.actions = v.actions) : Edits u as w where
  actions := actions.trans h.actions
  phase k := by rw [JobSide.phase, jobs]; exact h.phase k
  saved k := by rw [JobSide.SyncedAt, jobs, rows]; exact h.saved k

/-- What was synchronised stays so. -/
theorem synced (h : Edits v as w) {k : JobId} (hk : v.SyncedAt k) : w.SyncedAt k := by
  obtain hs | ⟨hj,hr⟩ := h.saved k
  · exact hs
  · rw [JobSide.SyncedAt, hr, hj]
    exact hk

/-- A job without a record has no row, and this stays so. -/
theorem known (h : Edits v as w)
    (hv : ∀ k, v.jobs.get? k = none → v.jobRows.get? k = none) :
    ∀ k, w.jobs.get? k = none → w.jobRows.get? k = none := by
  intro k hk
  obtain hs | ⟨hj,hr⟩ := h.saved k
  · rw [hs, hk]; rfl
  · rw [hr]
    exact hv k (hj ▸ hk)

/-- Whether a federation waits for a job does not change without a submission. -/
theorem federated (h : Edits v as w) {k : JobId} (hno : ∀ fed, .submitted k fed ∉ as)
    {c d : Phase} (hc : v.phase k = some c) (hd : w.phase k = some d) :
    d.federated = c.federated := by
  obtain ⟨e,he,hfed⟩ := federated_replay (fun fed hm => absurd hm (hno fed))
    (rfl : c.federated = c.federated)
  rw [← hc, ← h.phase, hd, Option.some.injEq] at he
  rw [he, hfed]

end Edits

namespace Does
variable {u v w : JobSide} {as bs : List Action}

theorem refl (v : JobSide) : Does v [] v := ⟨.refl v,rfl,fun h => h⟩

theorem of_eq (h : w = v) : Does v [] w := h ▸ refl v

theorem trans (huv : Does u as v) (hvw : Does v bs w) : Does u (as ++ bs) w where
  toEdits := huv.toEdits.trans hvw.toEdits
  queue := by rw [hvw.queue, huv.queue, queueAfter_append]
  durable h := hvw.durable (huv.durable h)

/-- A step without actions may follow. -/
theorem quiet (huv : Does u as v) (hvw : Does v [] w) : Does u as w := by
  simpa using huv.trans hvw

theorem then_eq (huv : Does u as v) (h : w = v) : Does u as w := h ▸ huv

/-- Edits that leave both queues alone, by actions that no queue hears of. -/
theorem of_edits (h : Edits v as w) (queue : w.queue = v.queue)
    (rows : w.queueRows = v.queueRows) (as_quiet : queueAfter v.queue as = v.queue) :
    Does v as w where
  toEdits := h
  queue := queue.trans as_quiet.symm
  durable hv := by rw [rows, queue, hv]

end Does

namespace State

def status (s : State) (id : JobId) : Option JobStatus := (s.job? id).map fun job => job.status

theorem status_eq (s : State) (id : JobId) :
    s.status id = (s.jobSide.phase id).map Phase.status := by
  unfold status JobSide.phase
  rw [Option.map_map]
  rfl

/-- The rule for an operation that changes one record in place and saves it at the end. -/
theorem edits_saveJob {s t : State} {id : JobId} {new : List Action}
    (other : ∀ k, k ≠ id → t.job? k = s.job? k) (missing : t.job? id = none → s.job? id = none)
    (rows : t.db.jobs = s.db.jobs) (actions : t.actions = s.actions ++ new)
    (phase : ∀ k, (t.job? k).map phaseOf = replay k ((s.job? k).map phaseOf) new) :
    Edits s.jobSide new (t.saveJob id).jobSide where
  actions := by simpa [jobSide] using actions
  phase k := by simpa [jobSide, JobSide.phase] using phase k
  saved k := by
    cases h : t.job? id with
    | none =>
      right
      have hs : t.saveJob id = t := by unfold saveJob; rw [h]
      rw [hs]
      refine ⟨?_,by simp [jobSide, rows]⟩
      by_cases hk : k = id
      · subst hk; exact h.trans (missing h).symm
      · exact other k hk
    | some job =>
      have hid : job.id = id := Table.key_of_get? h
      have hmem : ∀ k, (t.saveJob id).job? k = t.job? k := fun k => by rw [job?, saveJob_memory]
      have hrows : (t.saveJob id).db.jobs = t.db.jobs.replace (JobSide.row job) := by
        unfold saveJob; rw [h]; rfl
      by_cases hk : k = id
      · subst hk
        left
        change (t.saveJob k).db.jobs.get? k = ((t.saveJob k).job? k).map JobSide.row
        rw [hrows, Table.get?_replace, hmem, h]
        simp [JobSide.row, hid]
      · right
        change (t.saveJob id).job? k = s.job? k ∧ (t.saveJob id).db.jobs.get? k = s.db.jobs.get? k
        rw [hrows, Table.get?_replace, hmem, rows]
        refine ⟨other k hk,if_neg ?_⟩
        simpa [JobSide.row, hid] using hk

end State
end Arsonist.ControlPlane
