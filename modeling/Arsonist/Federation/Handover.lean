import Arsonist.Federation.Processes
import Mathlib.Data.Set.Basic

/-! The hand-over of a global job to a cluster: the record is written before the push, and a
push that fails has to be undone. -/
namespace Arsonist.Federation
open Arsonist.Library Arsonist.Mesh

/-- The job waits in the queue of the controller. -/
def GlobalJobRecord.Waiting (job : GlobalJobRecord) : Prop :=
  job.status = .queued ∧ job.assignedClusterId = none

/-- The job is said to be with a cluster. -/
def GlobalJobRecord.HandedTo (job : GlobalJobRecord) (c : ClusterId) : Prop :=
  job.status.handedOver = true ∧ job.assignedClusterId = some c

theorem GlobalJobRecord.Waiting.not_handedTo {job : GlobalJobRecord} (h : job.Waiting)
    (c : ClusterId) : ¬ job.HandedTo c := by
  rintro ⟨hstatus,-⟩
  rw [h.1] at hstatus
  cases hstatus

/-- What is known of one job: its stored record, the clusters that have accepted it, those to
which a push is under way, and how the last push that has ended went. -/
structure Delivery where
  stored : Option GlobalJobRecord
  accepted : Set ClusterId
  pending : Set ClusterId
  last : Option Bool

namespace Delivery

/-- A job that is said to be with a cluster was accepted there or is on its way there, and a job
whose last push failed waits in the queue. -/
def Honest (d : Delivery) : Prop :=
  (∀ job c, d.stored = some job → job.HandedTo c → c ∈ d.accepted ∨ c ∈ d.pending) ∧
  (d.last = some false → d.pending = ∅ → ∃ job, d.stored = some job ∧ job.Waiting)

variable {job : GlobalJobRecord} {accepted pending : Set ClusterId} {last : Option Bool}

theorem honest_of_waiting (h : job.Waiting) : Honest ⟨some job,accepted,pending,last⟩ := by
  refine ⟨fun stored c hstored hhanded => ?_,fun _ _ => ⟨job,rfl,h⟩⟩
  obtain rfl := Option.some.inj hstored
  exact absurd hhanded (h.not_handedTo c)

/-- A push under way to the cluster of the record. -/
theorem honest_of_pending {c : ClusterId} (h : job.assignedClusterId = some c)
    (hc : c ∈ pending) : Honest ⟨some job,accepted,pending,last⟩ := by
  refine ⟨fun stored d hstored hhanded => ?_,fun _ hempty => ?_⟩
  · obtain rfl := Option.some.inj hstored
    obtain rfl : c = d := Option.some.inj (h.symm.trans hhanded.2)
    exact Or.inr hc
  · dsimp only at hempty
    rw [hempty] at hc
    exact absurd hc (Set.notMem_empty c)

/-- The record of an outcome, which says nothing about the way to it. -/
theorem honest_finished_iff (h : job.status.finished = true) :
    Honest ⟨some job,accepted,pending,last⟩ ↔ last ≠ some false ∨ pending.Nonempty := by
  obtain ⟨hqueued,hnot⟩ := GlobalJobStatus.not_queued_of_finished h
  constructor
  · rintro ⟨-,hlast⟩
    by_cases hempty : pending = ∅
    · left
      intro hfalse
      obtain ⟨stored,hstored,hwait,-⟩ := hlast hfalse hempty
      obtain rfl := Option.some.inj hstored
      exact hqueued hwait
    · exact Or.inr (Set.nonempty_iff_ne_empty.mpr hempty)
  · intro hcond
    refine ⟨fun stored c hstored hhanded => ?_,fun hfalse hempty => ?_⟩
    · obtain rfl := Option.some.inj hstored
      exact absurd hhanded.1 (by simp [hnot])
    · obtain hlast | hpending := hcond
      · exact absurd hfalse hlast
      · exact absurd hempty (Set.nonempty_iff_ne_empty.mp hpending)

/-- A push to `c` ends with success. -/
theorem Honest.succeed {d : Delivery} (h : d.Honest) {c : ClusterId} {left : Set ClusterId}
    (hpending : d.pending ⊆ insert c left) :
    Honest ⟨d.stored,insert c d.accepted,left,some true⟩ := by
  refine ⟨fun job b hstored hhanded => ?_,fun hfalse => by cases hfalse⟩
  obtain haccepted | hpend := h.1 job b hstored hhanded
  · exact Or.inl (Set.mem_insert_of_mem c haccepted)
  · obtain rfl | hleft := Set.mem_insert_iff.mp (hpending hpend)
    · exact Or.inl (Set.mem_insert b d.accepted)
    · exact Or.inr hleft

/-- A push to `c` ends with a failure, and the record stays as it is. -/
theorem Honest.fail_iff {d : Delivery} (h : d.Honest) {c : ClusterId} {left : Set ClusterId}
    (hpending : d.pending = insert c left) :
    Honest ⟨d.stored,d.accepted,left,some false⟩ ↔
      ((∃ job, d.stored = some job ∧ job.HandedTo c) → c ∈ d.accepted ∨ c ∈ left) ∧
      (left.Nonempty ∨ ∃ job, d.stored = some job ∧ job.Waiting) := by
  constructor
  · rintro ⟨hhanded,hlast⟩
    refine ⟨fun ⟨job,hstored,hjob⟩ => hhanded job c hstored hjob,?_⟩
    by_cases hempty : left = ∅
    · exact Or.inr (hlast rfl hempty)
    · exact Or.inl (Set.nonempty_iff_ne_empty.mpr hempty)
  · rintro ⟨hcluster,hwait⟩
    refine ⟨fun job b hstored hjob => ?_,fun _ hempty => ?_⟩
    · by_cases hb : b = c
      · subst hb
        exact hcluster ⟨job,hstored,hjob⟩
      · obtain haccepted | hpend := h.1 job b hstored hjob
        · exact Or.inl haccepted
        · rw [hpending] at hpend
          exact Or.inr (Set.mem_of_mem_insert_of_ne hpend hb)
    · obtain hleft | hwait := hwait
      · exact absurd hempty (Set.nonempty_iff_ne_empty.mp hleft)
      · exact hwait

end Delivery

/-- How the last push of a job that has ended went. -/
def ControllerState.lastPush (s : ControllerState) (id : GlobalJobId) : Option Bool :=
  (s.pushes.find? fun push => push.job = id).map Push.accepted

def pushKeys (pushes : PendingPushes) : List (GlobalJobId × ClusterId) :=
  pushes.map fun p => (p.1.id,p.2.clusterId)

theorem pushKeys_reroutePush (now : ℚ) (dead : ClusterId) (others : List ClusterRecord)
    (job : GlobalJobRecord) :
    pushKeys (reroutePush now dead others job) =
      (rerouteJob now dead others job).2.toList.map fun pick => (job.id,pick.clusterId) := by
  rw [pushKeys, reroutePush, List.map_map]
  apply List.map_congr_left
  intro pick _
  change ((rerouteJob now dead others job).1.id,pick.clusterId) = (job.id,pick.clusterId)
  rw [rerouteJob_id]

/-- The pushes of a process that are under way, from the write of the record on. -/
def Process.pending : Process → List (GlobalJobId × ClusterId)
  | .fetching routed target => [(routed.id,target)]
  | .pushing routed cluster => [(routed.id,cluster.clusterId)]
  | .rerouting _ _ _ pushes _ => pushKeys pushes
  | .handing pushes _ => pushKeys pushes
  | _ => []

namespace Controller

/-- The clusters to which another process pushes the job. -/
def elsewhere (s : Controller) (i : ℕ) (id : GlobalJobId) : Set ClusterId :=
  {c | Pool.Others s i fun q => (id,c) ∈ q.pending}

def delivery (s : Controller) (id : GlobalJobId) : Delivery where
  stored := s.shared.registry.getGlobalJob id
  accepted := {c | ⟨id,c,true⟩ ∈ s.shared.pushes}
  pending := {c | ∃ p ∈ s.procs, (id,c) ∈ p.pending}
  last := s.shared.lastPush id

/-- Every job has been handed over as its record says. -/
def Honest (s : Controller) : Prop := ∀ id, (s.delivery id).Honest

/-- The pushes under way before a step are those of the process and those elsewhere. -/
theorem pending_delivery {s : Controller} {i : ℕ} {p : Process} (h : s.procs[i]? = some p)
    (id : GlobalJobId) :
    (s.delivery id).pending = {c | (id,c) ∈ p.pending} ∪ s.elsewhere i id := by
  ext c
  exact Pool.exists_iff_others h _

theorem delivery_step {s : Controller} {i : ℕ} {p : Process} (h : s.procs[i]? = some p)
    (pushError : Option String) (id : GlobalJobId) :
    delivery (s.step controller (.advance i pushError)) id =
      ⟨(next s.shared p pushError).1.registry.getGlobalJob id,
        {c | ⟨id,c,true⟩ ∈ (next s.shared p pushError).1.pushes},
        {c | (id,c) ∈ (next s.shared p pushError).2.pending} ∪ s.elsewhere i id,
        (next s.shared p pushError).1.lastPush id⟩ := by
  rw [Pool.step_advance h, delivery]
  congr 1
  ext c
  exact Pool.exists_set_iff_others h _

/-- The step leaves no record behind that nothing stands for: a report finds that the last push
of the job did not fail or that one is under way, and when a push of the watch loop fails, its
cluster is not that of the stored record, or has accepted the job before, or is pushed to by
another process, and the job waits already or is pushed by another process. -/
def StandsFor (s : Controller) (i : ℕ) (p : Process) (pushError : Option String) : Prop :=
  match p with
  | .recording _ job =>
    s.shared.lastPush job.id ≠ some false ∨ (s.elsewhere i job.id).Nonempty
  | .handing ((job,cluster) :: pushes) _ =>
    let left := {c | (job.id,c) ∈ pushKeys pushes} ∪ s.elsewhere i job.id
    let stored := s.shared.registry.getGlobalJob job.id
    pushError = none ∨
      ((∃ j, stored = some j ∧ j.HandedTo cluster.clusterId) →
        ⟨job.id,cluster.clusterId,true⟩ ∈ s.shared.pushes ∨ cluster.clusterId ∈ left) ∧
      (left.Nonempty ∨ ∃ j, stored = some j ∧ j.Waiting)
  | _ => True

/-- The cluster that a submission is about to push to is stored. -/
def TargetStored (s : ControllerState) : Process → Prop
  | .routing _ target => (s.registry.getCluster target).isSome
  | .fetching _ target => (s.registry.getCluster target).isSome
  | _ => True

section step
variable {s : Controller} {i : ℕ} {p : Process} {pushError : Option String}

/-- What the step does not touch: a job that is not saved, whose pushes do not begin or end. -/
theorem delivery_frame (h : s.procs[i]? = some p) {id : GlobalJobId}
    (hstored : (next s.shared p pushError).1.registry.getGlobalJob id =
      s.shared.registry.getGlobalJob id)
    (hpushes : (next s.shared p pushError).1.pushes = s.shared.pushes ∨
      ∃ push, push.job ≠ id ∧ (next s.shared p pushError).1.pushes = push :: s.shared.pushes)
    (hpending : ∀ c, (id,c) ∈ (next s.shared p pushError).2.pending ↔ (id,c) ∈ p.pending) :
    delivery (s.step controller (.advance i pushError)) id = s.delivery id := by
  have hmine : {c | (id,c) ∈ (next s.shared p pushError).2.pending} =
      {c | (id,c) ∈ p.pending} := by
    ext c
    exact hpending c
  rw [delivery_step h, hstored, hmine, ← pending_delivery h, ControllerState.lastPush]
  obtain hsame | ⟨push,hne,hcons⟩ := hpushes
  · rw [hsame]
    rfl
  · have haccepted : {c | ⟨id,c,true⟩ ∈ push :: s.shared.pushes} =
        {c | ⟨id,c,true⟩ ∈ s.shared.pushes} := by
      ext c
      have hpush : (⟨id,c,true⟩ : Push) ≠ push := by
        rintro rfl
        exact hne rfl
      simp [hpush]
    rw [hcons, haccepted, List.find?_cons_of_neg (by simpa using hne)]
    rfl

/-- A step that saves no job and ends no push, and keeps its own pushes. -/
theorem honest_idle (h : s.procs[i]? = some p) (hsaved : savedJob s.shared p pushError = none)
    (hpushes : (next s.shared p pushError).1.pushes = s.shared.pushes)
    (hpending : (next s.shared p pushError).2.pending = p.pending) (hs : s.Honest) :
    Honest (s.step controller (.advance i pushError)) := by
  intro id
  rw [delivery_frame h (by rw [getGlobalJob_next, hsaved]) (Or.inl hpushes)
    fun c => by rw [hpending]]
  exact hs id

/-- A step that saves a job and ends no push. Only what is known of that job can change. -/
theorem honest_saved_iff {job : GlobalJobRecord} (h : s.procs[i]? = some p)
    (hsaved : savedJob s.shared p pushError = some job)
    (hpushes : (next s.shared p pushError).1.pushes = s.shared.pushes)
    (hpending : ∀ id c, id ≠ job.id →
      ((id,c) ∈ (next s.shared p pushError).2.pending ↔ (id,c) ∈ p.pending)) (hs : s.Honest) :
    Honest (s.step controller (.advance i pushError)) ↔
      Delivery.Honest ⟨some (job.stamp s.shared.now),{c | ⟨job.id,c,true⟩ ∈ s.shared.pushes},
        {c | (job.id,c) ∈ (next s.shared p pushError).2.pending} ∪ s.elsewhere i job.id,
        s.shared.lastPush job.id⟩ := by
  have hthis : delivery (s.step controller (.advance i pushError)) job.id =
      ⟨some (job.stamp s.shared.now),{c | ⟨job.id,c,true⟩ ∈ s.shared.pushes},
        {c | (job.id,c) ∈ (next s.shared p pushError).2.pending} ∪ s.elsewhere i job.id,
        s.shared.lastPush job.id⟩ := by
    rw [delivery_step h, getGlobalJob_next, hsaved, ControllerState.lastPush, hpushes]
    dsimp only
    rw [if_pos rfl]
    rfl
  rw [← hthis]
  refine ⟨fun hnext => hnext job.id,fun hjob id => ?_⟩
  by_cases hid : id = job.id
  · rw [hid]
    exact hjob
  · rw [delivery_frame h _ (Or.inl hpushes) fun c => hpending id c hid]
    · exact hs id
    · rw [getGlobalJob_next, hsaved]
      exact if_neg hid

variable (pushError) in
/-- A step that ends a push. Only what is known of its job can change. -/
theorem honest_ended_iff (push : Push) (h : s.procs[i]? = some p)
    (hsaved : ∀ job, savedJob s.shared p pushError = some job → job.id = push.job)
    (hpushes : (next s.shared p pushError).1.pushes = push :: s.shared.pushes)
    (hpending : ∀ id c, id ≠ push.job →
      ((id,c) ∈ (next s.shared p pushError).2.pending ↔ (id,c) ∈ p.pending)) (hs : s.Honest) :
    Honest (s.step controller (.advance i pushError)) ↔
      Delivery.Honest ⟨(next s.shared p pushError).1.registry.getGlobalJob push.job,
        {c | ⟨push.job,c,true⟩ ∈ push :: s.shared.pushes},
        {c | (push.job,c) ∈ (next s.shared p pushError).2.pending} ∪ s.elsewhere i push.job,
        some push.accepted⟩ := by
  have hthis : delivery (s.step controller (.advance i pushError)) push.job =
      ⟨(next s.shared p pushError).1.registry.getGlobalJob push.job,
        {c | ⟨push.job,c,true⟩ ∈ push :: s.shared.pushes},
        {c | (push.job,c) ∈ (next s.shared p pushError).2.pending} ∪ s.elsewhere i push.job,
        some push.accepted⟩ := by
    rw [delivery_step h, ControllerState.lastPush, hpushes, List.find?_cons_of_pos (by simp)]
    rfl
  rw [← hthis]
  refine ⟨fun hnext => hnext push.job,fun hjob id => ?_⟩
  by_cases hid : id = push.job
  · rw [hid]
    exact hjob
  · rw [delivery_frame h _ (Or.inr ⟨push,Ne.symm hid,hpushes⟩) fun c => hpending id c hid]
    · exact hs id
    · rw [getGlobalJob_next]
      cases hsave : savedJob s.shared p pushError with
      | none => rfl
      | some job => exact if_neg fun he => hid (he.trans (hsaved job hsave))

/-- A push is accepted, and the record stays as it is. -/
theorem honest_accepted {job : GlobalJobRecord} {cluster : ClusterRecord}
    (h : s.procs[i]? = some p) (hsaved : savedJob s.shared p pushError = none)
    (hpushes : (next s.shared p pushError).1.pushes =
      ⟨job.id,cluster.clusterId,true⟩ :: s.shared.pushes)
    (hpending : ∀ id c, (id,c) ∈ p.pending ↔
      (id,c) = (job.id,cluster.clusterId) ∨ (id,c) ∈ (next s.shared p pushError).2.pending)
    (hs : s.Honest) : Honest (s.step controller (.advance i pushError)) := by
  have hsave : ∀ j, savedJob s.shared p pushError = some j → j.id = job.id := by
    intro j hj
    rw [hsaved] at hj
    cases hj
  rw [honest_ended_iff pushError _ h hsave hpushes fun id c hid => by simp [hpending, hid]]
  swap
  · exact hs
  rw [getGlobalJob_next, hsaved]
  have hin : (s.delivery job.id).pending ⊆ insert cluster.clusterId
      ({c | (job.id,c) ∈ (next s.shared p pushError).2.pending} ∪ s.elsewhere i job.id) := by
    rw [pending_delivery h]
    rintro c (hc | hc)
    · obtain he | hleft := (hpending job.id c).mp hc
      · exact Or.inl (Prod.mk.inj he).2
      · exact Or.inr (Or.inl hleft)
    · exact Or.inr (Or.inr hc)
  have hsucceed := (hs job.id).succeed hin
  have haccepted : {c | (⟨job.id,c,true⟩ : Push) ∈
      ⟨job.id,cluster.clusterId,true⟩ :: s.shared.pushes} =
      insert cluster.clusterId {c | ⟨job.id,c,true⟩ ∈ s.shared.pushes} := by
    ext c
    simp [Push.mk.injEq]
  rw [haccepted]
  exact hsucceed

/-- A push of the watch loop fails: nothing is written. -/
theorem honest_handing_failed_iff {job : GlobalJobRecord} {cluster : ClusterRecord}
    {pushes : PendingPushes} {rest : List ClusterId} {exc : String}
    (h : s.procs[i]? = some (.handing ((job,cluster) :: pushes) rest)) (hs : s.Honest) :
    Honest (s.step controller (.advance i (some exc))) ↔
      s.StandsFor i (.handing ((job,cluster) :: pushes) rest) (some exc) := by
  have hpending : (s.delivery job.id).pending = insert cluster.clusterId
      ({c | (job.id,c) ∈ pushKeys pushes} ∪ s.elsewhere i job.id) := by
    rw [pending_delivery h, ← Set.insert_union]
    congr 1
    ext c
    simp [Process.pending, pushKeys]
  have haccepted : {c | (⟨job.id,c,true⟩ : Push) ∈
      ⟨job.id,cluster.clusterId,false⟩ :: s.shared.pushes} =
      {c | ⟨job.id,c,true⟩ ∈ s.shared.pushes} := by
    ext c
    simp [Push.mk.injEq]
  have hended := honest_ended_iff (some exc) ⟨job.id,cluster.clusterId,false⟩ h
    (fun j hj => by cases hj) rfl
    (fun id c hid => by
      change _ ∈ pushKeys pushes ↔ _ ∈ (job.id,cluster.clusterId) :: pushKeys pushes
      simp [hid]) hs
  have hfail := (hs job.id).fail_iff hpending
  rw [hended]
  dsimp only
  rw [haccepted]
  refine hfail.trans ?_
  unfold StandsFor
  exact (or_iff_right (by simp)).symm

/-- The route is written: the push to the cluster begins. -/
theorem honest_routing {gj : GlobalJobRecord} {target : ClusterId}
    (h : s.procs[i]? = some (.routing gj target)) (hs : s.Honest) :
    Honest (s.step controller (.advance i pushError)) := by
  have hsaved : savedJob s.shared (.routing gj target) pushError =
      some (routedJob s.shared.now gj target) := rfl
  refine (honest_saved_iff h hsaved rfl (fun id c hid => ?_) hs).mpr ?_
  · change (id,c) ∈ [(gj.id,target)] ↔ (id,c) ∈ []
    have hne : id ≠ gj.id := hid
    simp [hne]
  · apply Delivery.honest_of_pending (c := target) rfl
    exact Or.inl (List.mem_singleton.mpr rfl)

theorem honest_fetching {routed : GlobalJobRecord} {target : ClusterId}
    (htarget : (s.shared.registry.getCluster target).isSome)
    (h : s.procs[i]? = some (.fetching routed target)) (hs : s.Honest) :
    Honest (s.step controller (.advance i pushError)) := by
  obtain ⟨cluster,hget⟩ := Option.isSome_iff_exists.mp htarget
  have hid : cluster.clusterId = target := FederationRegistry.clusterId_of_getCluster hget
  have hnext : next s.shared (.fetching routed target) pushError =
      (s.shared,.pushing routed cluster) := by
    rw [next, hget]
  apply honest_idle h rfl
  · rw [hnext]
  · rw [hnext, Process.pending, Process.pending, hid]
  · exact hs

/-- A submission undoes its record when its push fails. -/
theorem honest_pushing {routed : GlobalJobRecord} {cluster : ClusterRecord}
    (h : s.procs[i]? = some (.pushing routed cluster)) (hs : s.Honest) :
    Honest (s.step controller (.advance i pushError)) := by
  cases pushError with
  | none =>
    refine honest_accepted h rfl rfl (fun id c => ?_) hs
    change (id,c) ∈ [(routed.id,cluster.clusterId)] ↔ _ ∨ (id,c) ∈ []
    simp
  | some exc =>
    have hsaved : savedJob s.shared (.pushing routed cluster) (some exc) =
        some (pushFailedJob s.shared.now routed exc) := rfl
    refine (honest_ended_iff (some exc) ⟨routed.id,cluster.clusterId,false⟩ h
      (fun j hj => ?_) rfl (fun id c hid => ?_) hs).mpr ?_
    · rw [hsaved] at hj
      rw [← Option.some.inj hj]
      rfl
    · change (id,c) ∈ [] ↔ (id,c) ∈ [(routed.id,cluster.clusterId)]
      have hne : id ≠ routed.id := hid
      simp [hne]
    · rw [getGlobalJob_next, hsaved]
      have hid : routed.id = (pushFailedJob s.shared.now routed exc).id := rfl
      dsimp only
      rw [if_pos hid]
      exact Delivery.honest_of_waiting ⟨rfl,rfl⟩

theorem honest_recording_iff {payload : GlobalJobCompletePayload} {job : GlobalJobRecord}
    (h : s.procs[i]? = some (.recording payload job)) (hs : s.Honest) :
    Honest (s.step controller (.advance i pushError)) ↔
      s.shared.lastPush job.id ≠ some false ∨ (s.elsewhere i job.id).Nonempty := by
  have hsaved : savedJob s.shared (.recording payload job) pushError =
      some (doneJob s.shared.now payload job) := rfl
  have hfinished : (reportedStatus payload).finished = true := by
    unfold reportedStatus
    split <;> rfl
  rw [honest_saved_iff h hsaved rfl (fun _ _ _ => Iff.rfl) hs,
    Delivery.honest_finished_iff hfinished]
  change _ ∨ (({c | (job.id,c) ∈ []} : Set ClusterId) ∪ s.elsewhere i job.id).Nonempty ↔ _
  have hmine : ({c | (job.id,c) ∈ []} : Set ClusterId) = ∅ := by simp
  rw [hmine, Set.empty_union]
  rfl

/-- The failover puts the job back into the queue or collects its push. -/
theorem honest_rerouting {dead : ClusterId} {others : List ClusterRecord} {job : GlobalJobRecord}
    {todo : List GlobalJobRecord} {pushes : PendingPushes} {rest : List ClusterId}
    (h : s.procs[i]? = some (.rerouting dead others (job :: todo) pushes rest))
    (hs : s.Honest) : Honest (s.step controller (.advance i pushError)) := by
  have hsaved : savedJob s.shared (.rerouting dead others (job :: todo) pushes rest)
      pushError = some (rerouteJob s.shared.now dead others job).1 := rfl
  have hnext : (next s.shared (.rerouting dead others (job :: todo) pushes rest)
      pushError).2.pending =
      pushKeys pushes ++ pushKeys (reroutePush s.shared.now dead others job) := List.map_append
  refine (honest_saved_iff h hsaved rfl (fun id c hid => ?_) hs).mpr ?_
  · have hnot : (id,c) ∉ pushKeys (reroutePush s.shared.now dead others job) := by
      intro hmem
      rw [pushKeys_reroutePush] at hmem
      obtain ⟨pick,-,he⟩ := List.mem_map.mp hmem
      exact hid ((Prod.mk.inj he).1.symm.trans (rerouteJob_id _ _ _ _).symm)
    rw [hnext, List.mem_append, or_iff_left hnot]
    rfl
  · rcases rerouteJob_cases s.shared.now dead others job with
      ⟨-,hstatus,hnone⟩ | ⟨pick,-,-,hpick,-,hassigned⟩
    · exact Delivery.honest_of_waiting ⟨hstatus,hnone⟩
    · rw [← GlobalJobRecord.stamp_assignedClusterId s.shared.now] at hassigned
      apply Delivery.honest_of_pending hassigned
      left
      change _ ∈ (next s.shared (.rerouting dead others (job :: todo) pushes rest)
        pushError).2.pending
      rw [hnext, pushKeys_reroutePush, hpick, rerouteJob_id]
      exact List.mem_append_right _ (List.mem_singleton.mpr rfl)

/-- A step stays honest exactly when it leaves no record behind that nothing stands for. -/
theorem honest_step (htarget : TargetStored s.shared p) (h : s.procs[i]? = some p)
    (hs : s.Honest) :
    Honest (s.step controller (.advance i pushError)) ↔ s.StandsFor i p pushError := by
  cases p with
  | submitting id body =>
    refine iff_of_true ((honest_saved_iff h rfl rfl (fun _ _ _ => Iff.rfl) hs).mpr ?_) trivial
    exact Delivery.honest_of_waiting ⟨rfl,rfl⟩
  | deciding gj =>
    refine iff_of_true (honest_idle h rfl ?_ ?_ hs) trivial
    · rw [next]
      split <;> rfl
    · rw [next]
      split <;> rfl
  | routing gj target => exact iff_of_true (honest_routing h hs) trivial
  | fetching routed target => exact iff_of_true (honest_fetching htarget h hs) trivial
  | pushing routed cluster => exact iff_of_true (honest_pushing h hs) trivial
  | recording payload job => exact honest_recording_iff h hs
  | completing payload =>
    refine iff_of_true (honest_idle h rfl ?_ ?_ hs) trivial
    · rw [next]
      split <;> rfl
    · rw [next]
      split <;> rfl
  | beating payload =>
    refine iff_of_true (honest_idle h rfl ?_ ?_ hs) trivial
    · rw [next]
      split <;> rfl
    · rw [next]
      split <;> rfl
  | rerouting dead others todo pushes rest =>
    cases todo with
    | nil => exact iff_of_true (honest_idle h rfl rfl rfl hs) trivial
    | cons job todo => exact iff_of_true (honest_rerouting h hs) trivial
  | handing pushes rest =>
    cases pushes with
    | nil => exact iff_of_true (honest_idle h rfl rfl rfl hs) trivial
    | cons push pushes =>
      obtain ⟨job,cluster⟩ := push
      cases pushError with
      | none =>
        refine iff_of_true (honest_accepted h rfl rfl (fun id c => ?_) hs) (Or.inl rfl)
        exact List.mem_cons
      | some exc => exact honest_handing_failed_iff h hs
  | sweeping timeout todo dead =>
    cases todo <;> exact iff_of_true (honest_idle h rfl rfl rfl hs) trivial
  | failover dead =>
    cases dead <;> exact iff_of_true (honest_idle h rfl rfl rfl hs) trivial
  | _ => exact iff_of_true (honest_idle h rfl rfl rfl hs) trivial

end step

/-- No cluster is ever deleted. -/
theorem getCluster_next_isSome {s : ControllerState} {c : ClusterId} (p : Process)
    (pushError : Option String) (h : (s.registry.getCluster c).isSome) :
    ((next s p pushError).1.registry.getCluster c).isSome := by
  rw [getCluster_next]
  cases writtenCluster p with
  | none => exact h
  | some d =>
    dsimp only
    split
    · rfl
    · exact h

theorem getCluster_outside_isSome {s : ControllerState} {c : ClusterId} (e : Outside)
    (h : (s.registry.getCluster c).isSome) :
    ((outside s e).registry.getCluster c).isSome := by
  cases e with
  | clock now => exact h
  | register body =>
    rw [outside]
    cases urlHolder s.registry body with
    | some d => exact h
    | none =>
      change ((s.registry.upsertCluster _).getCluster c).isSome
      rw [FederationRegistry.getCluster_upsertCluster]
      split
      · rfl
      · exact h

theorem TargetStored.mono {s t : ControllerState} {p : Process}
    (hst : ∀ c, (s.registry.getCluster c).isSome → (t.registry.getCluster c).isSome)
    (h : TargetStored s p) : TargetStored t p := by
  cases p with
  | routing gj target => exact hst target h
  | fetching routed target => exact hst target h
  | _ => trivial

/-- A route leads to a stored cluster. -/
theorem targetStored_next {s : ControllerState} {p : Process} (pushError : Option String)
    (h : TargetStored s p) :
    TargetStored (next s p pushError).1 (next s p pushError).2 := by
  cases p with
  | deciding gj =>
    rw [next]
    split
    · trivial
    · rename_i htarget
      obtain ⟨c,hget,-⟩ := getCluster_decideRoute htarget
      exact Option.isSome_of_eq_some hget
  | routing gj target => exact h
  | fetching routed target =>
    rw [next]
    split <;> trivial
  | pushing routed cluster => cases pushError <;> trivial
  | completing payload =>
    rw [next]
    split <;> trivial
  | beating payload =>
    rw [next]
    split <;> trivial
  | sweeping timeout todo dead => cases todo <;> trivial
  | failover dead => cases dead <;> trivial
  | rerouting dead others todo pushes rest => cases todo <;> trivial
  | handing pushes rest => cases pushes <;> trivial
  | _ => trivial

/-- In every state, submissions push to stored clusters. -/
theorem targetsStored_step (s : Controller) (e : ControllerEvent)
    (h : s.Holds (fun _ => True) TargetStored) :
    (s.step controller e).Holds (fun _ => True) TargetStored := by
  cases e with
  | outside e =>
    exact h.outside trivial fun p hp => hp.mono fun c => getCluster_outside_isSome e
  | start request =>
    refine h.start ?_
    cases request <;> trivial
  | advance i pushError =>
    exact h.advance fun p _ hp => ⟨trivial,targetStored_next pushError hp,
      fun q hq => hq.mono fun c => getCluster_next_isSome p pushError⟩

/-- What happens outside of the processes, and the start of one, ends no push and saves no
job. -/
theorem delivery_outside (s : Controller) (e : Outside) (id : GlobalJobId) :
    delivery (s.step controller (.outside e)) id = s.delivery id := by
  cases e with
  | clock now => rfl
  | register body =>
    rw [Pool.step]
    change delivery ⟨outside s.shared (.register body),s.procs⟩ id = _
    rw [outside]
    cases urlHolder s.shared.registry body <;> rfl

theorem delivery_start (s : Controller) (request : Request) (id : GlobalJobId) :
    delivery (s.step controller (.start request)) id = s.delivery id := by
  rw [Pool.step, delivery, delivery]
  congr 1
  ext c
  have hnone : (enter request).pending = [] := by cases request <;> rfl
  have hentry : controller.enter request = enter request := rfl
  simp only [Set.mem_ofPred_eq, List.mem_append, List.mem_singleton, or_and_right, exists_or]
  rw [or_iff_left_iff_imp]
  rintro ⟨p,rfl,hp⟩
  rw [hentry, hnone] at hp
  cases hp

/-- Every record of a handed-over job is honest in every state of a run if and only if no step
of the run leaves one behind that nothing stands for. -/
theorem honest_iff (events : List ControllerEvent) :
    (∀ p q, events = p ++ q → Honest (reach p)) ↔
      Along (Pool.step controller) (Pool.AtAdvance StandsFor) ⟨{},[]⟩ events := by
  have hstart : Honest ⟨{},[]⟩ := fun id =>
    ⟨fun job c hstored => (by cases hstored),fun hlast => (by cases hlast)⟩
  have hpool : Pool.Holds (fun _ => True) TargetStored (⟨{},[]⟩ : Controller) :=
    ⟨trivial,fun p hp => (by cases hp)⟩
  refine (always_iff hstart events).trans ?_
  refine along_congr (I := fun s => Honest s ∧ s.Holds (fun _ => True) TargetStored)
    (fun s e hnext h => ⟨hnext,targetsStored_step s e h.2⟩) (fun s e h => ?_) ⟨hstart,hpool⟩
  cases e with
  | outside e => exact iff_of_true (fun id => by rw [delivery_outside]; exact h.1 id) trivial
  | start request => exact iff_of_true (fun id => by rw [delivery_start]; exact h.1 id) trivial
  | advance i pushError =>
    refine Pool.advance_iff_atAdvance (R := fun t : Controller => Honest t) h.1 fun p hp => ?_
    exact honest_step (h.2.2 p (Pool.mem_of_getElem? hp)) hp h.1

end Controller

/-- Process `i` takes `n` steps; its pushes are accepted. -/
def advances (i n : ℕ) : List ControllerEvent := List.replicate n (.advance i none)

/-- Job `j` has been accepted by cluster `c`, which is then silent for longer than the timeout;
the watch loop moves the job to `d` and the push to `d` fails. -/
def failoverPushFails : List ControllerEvent := List.flatten [
  [.outside (.clock 1),
   .outside (.register { clusterId := "c", controlPlaneUrl := "http://c:8000" }),
   .outside (.register { clusterId := "d", controlPlaneUrl := "http://d:8000" }),
   .start (.submit { id := some "j" } "f")],advances 0 5,
  [.outside (.clock 100),.start (.heartbeat { clusterId := "d" })],advances 1 3,
  [.start (.watch 45)],advances 2 8,[.advance 2 (some "ConnectError")]]

/-- The record of the job says that it is with `d`, where nobody has it. -/
theorem not_honest :
    ¬ ∀ events p q : List ControllerEvent, events = p ++ q → Controller.Honest (.reach p) := by
  intro h
  let s : Controller := .reach failoverPushFails
  have hjob : (s.shared.registry.getGlobalJob "j").map
      (fun job => (job.status,job.assignedClusterId)) = some (.migrated,some "d") := by
    decide +kernel
  have hpushes : s.shared.pushes = [⟨"j","d",false⟩,⟨"j","c",true⟩] := by decide +kernel
  have hpending : ∀ p ∈ s.procs, p.pending = [] := by decide +kernel
  have hs : s.Honest := h failoverPushFails failoverPushFails [] (List.append_nil _).symm
  clear_value s
  obtain ⟨job,hget,hmigrated⟩ := Option.map_eq_some_iff.mp hjob
  obtain ⟨hstatus,hassigned⟩ := Prod.mk.inj hmigrated
  obtain haccepted | ⟨p,hp,hin⟩ := (hs "j").1 job "d" hget ⟨by rw [hstatus]; rfl,hassigned⟩
  · change _ ∈ s.shared.pushes at haccepted
    rw [hpushes] at haccepted
    revert haccepted
    decide
  · rw [hpending p hp] at hin
    cases hin

end Arsonist.Federation
