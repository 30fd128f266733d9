import Arsonist.DistributedQueue.QueueDeltas

/-! What claims and orphan marks make of replicated jobs: of those that are over, and of those
whose owner is gone. -/
namespace Arsonist.DistributedQueue
open Arsonist.Library Arsonist.Shared Arsonist.Mesh

variable (leaseSec : ℚ)

/-- `reconcile_orphan`. -/
def ReplicatedQueue.reconcileOrphan (now : ℚ) (id : JobId) (rq : ReplicatedQueue) :
    ReplicatedQueue :=
  match rq.job? id with
  | none => rq
  | some st => rq.upsert leaseSec now { st with state := "orphaned" }

/-- A call on the queue, with the times that it reads. -/
inductive QueueCall
  | tryClaim (checked written : ℚ) (id : JobId) (cluster : ClusterId)
  | reconcileOrphan (now : ℚ) (id : JobId)

def QueueCall.apply (rq : ReplicatedQueue) : QueueCall → ReplicatedQueue
  | .tryClaim checked written id cluster => (rq.tryClaim leaseSec checked written id cluster).1
  | .reconcileOrphan now id => rq.reconcileOrphan leaseSec now id

namespace ReplicatedQueue
variable {leaseSec} {rq : ReplicatedQueue} {id : JobId} {row : RepJob}

theorem standing_upsert (now : ℚ) (st : ReplicatedJobState) (rq : ReplicatedQueue) (id : JobId) :
    standing (rq.upsert leaseSec now st) id =
      if id = st.jobId then some (st.state,st.ownerClusterId) else standing rq id := by
  rw [standing, upsert, Table.get?_put]
  change Option.map _ (if id = st.jobId then _ else _) = _
  by_cases hid : id = st.jobId
  · rw [if_pos hid, if_pos hid]
    rfl
  · rw [if_neg hid, if_neg hid]
    rfl

theorem jobId_of_get? (h : rq.get? id = some row) : row.state.jobId = id := Table.key_of_get? h

theorem tryClaim_none (h : rq.get? id = none) (checked written : ℚ) (cluster : ClusterId) :
    rq.tryClaim leaseSec checked written id cluster = (rq,none) := by
  rw [tryClaim, h]

theorem tryClaim_refused {checked : ℚ} {cluster : ClusterId} (h : rq.get? id = some row)
    (hmay : ¬ mayClaim row.state row.leaseUntil checked cluster) (written : ℚ) :
    rq.tryClaim leaseSec checked written id cluster = (rq,none) := by
  rw [tryClaim, h]
  exact if_neg hmay

theorem tryClaim_granted {checked : ℚ} {cluster : ClusterId} (h : rq.get? id = some row)
    (hmay : mayClaim row.state row.leaseUntil checked cluster) (written : ℚ) :
    rq.tryClaim leaseSec checked written id cluster =
      (rq.upsert leaseSec written (claimed row.state cluster),
        some { claimed row.state cluster with updatedAt := written }) := by
  rw [tryClaim, h]
  exact if_pos hmay

theorem reconcileOrphan_none (h : rq.get? id = none) (now : ℚ) :
    rq.reconcileOrphan leaseSec now id = rq := by
  rw [reconcileOrphan, job?, h]
  rfl

theorem reconcileOrphan_some (h : rq.get? id = some row) (now : ℚ) :
    rq.reconcileOrphan leaseSec now id =
      rq.upsert leaseSec now { row.state with state := "orphaned" } := by
  rw [reconcileOrphan, job?, h]
  rfl

end ReplicatedQueue

/-! ### Jobs that are over -/

/-- A job that is over, with its state and its owner. -/
structure Finished where
  id : JobId
  state : String
  owner : ClusterId
  terminal : Terminal state

/-- The queue has the job so. -/
def Finished.In (job : Finished) (rq : ReplicatedQueue) : Prop :=
  standing rq job.id = some (job.state,job.owner)

/-- A claim on a job that is over is refused. -/
def Refuses (rq : ReplicatedQueue) : QueueCall → Prop
  | .tryClaim checked written id cluster =>
    ∀ job : Finished, job.id = id → job.In rq →
      (rq.tryClaim leaseSec checked written id cluster).2 = none
  | .reconcileOrphan _ _ => True

/-- No claim on a job that is over passes the claim check, and no such job is marked as an
orphan. -/
def LeavesFinished (rq : ReplicatedQueue) : QueueCall → Prop
  | .tryClaim checked _ id cluster =>
    ∀ row, rq.get? id = some row → Terminal row.state.state →
      ¬ ReplicatedQueue.mayClaim row.state row.leaseUntil checked cluster
  | .reconcileOrphan _ id =>
    ∀ row, rq.get? id = some row → ¬ Terminal row.state.state

/-- The jobs that are over stay so in every run of the calls, and claims on them are refused. -/
def FinishedStay (rq : ReplicatedQueue) (calls : List QueueCall) : Prop :=
  (∀ before between after, calls = before ++ between ++ after →
    ∀ job : Finished, job.In (run (QueueCall.apply leaseSec) rq before) →
      job.In (run (QueueCall.apply leaseSec) rq (before ++ between))) ∧
  ∀ before call after, calls = before ++ call :: after →
    Refuses leaseSec (run (QueueCall.apply leaseSec) rq before) call

variable {leaseSec} {rq : ReplicatedQueue} {id : JobId} {row : RepJob}

theorem standing_of_get? (h : rq.get? id = some row) :
    standing rq id = some (row.state.state,row.state.ownerClusterId) := by
  rw [standing, h]
  rfl

/-- A job that is over does not survive a write of its row with a state that is not. -/
theorem keeps_upsert_iff (st : ReplicatedJobState) {now : ℚ} (h : rq.get? id = some row)
    (hid : st.jobId = id) (hst : ¬ Terminal st.state) :
    (∀ job : Finished, job.In rq → job.In (rq.upsert leaseSec now st)) ↔
      ¬ Terminal row.state.state := by
  constructor
  · intro hkeeps hterminal
    have hin := hkeeps ⟨id,row.state.state,row.state.ownerClusterId,hterminal⟩
      (standing_of_get? h)
    rw [Finished.In, ReplicatedQueue.standing_upsert, if_pos hid.symm] at hin
    obtain ⟨hstate,_⟩ := Prod.mk.inj (Option.some.inj hin)
    rw [hstate] at hst
    exact hst hterminal
  · intro hrow job hin
    rw [Finished.In, ReplicatedQueue.standing_upsert]
    by_cases hjob : job.id = st.jobId
    · rw [Finished.In, hjob, hid, standing_of_get? h] at hin
      obtain ⟨hstate,_⟩ := Prod.mk.inj (Option.some.inj hin)
      rw [hstate] at hrow
      exact absurd job.terminal hrow
    · rw [if_neg hjob]
      exact hin

variable (leaseSec)

/-- What one call does to the jobs that are over. -/
theorem keeps_finished_iff (rq : ReplicatedQueue) (call : QueueCall) :
    (∀ job : Finished, job.In rq → job.In (call.apply leaseSec rq)) ↔ LeavesFinished rq call := by
  cases call with
  | tryClaim checked written id cluster =>
    rw [QueueCall.apply, LeavesFinished]
    cases hrow : rq.get? id with
    | none =>
      rw [ReplicatedQueue.tryClaim_none hrow]
      exact iff_of_true (fun _ hin => hin) nofun
    | some row =>
      by_cases hmay : ReplicatedQueue.mayClaim row.state row.leaseUntil checked cluster
      · rw [ReplicatedQueue.tryClaim_granted hrow hmay,
          keeps_upsert_iff (ReplicatedQueue.claimed row.state cluster) hrow
            (ReplicatedQueue.jobId_of_get? hrow) (by decide : ¬ Terminal "assigned")]
        constructor
        · intro hrow' r hr hterminal
          obtain rfl := Option.some.inj hr
          exact absurd hterminal hrow'
        · intro h hterminal
          exact h row rfl hterminal hmay
      · rw [ReplicatedQueue.tryClaim_refused hrow hmay]
        refine iff_of_true (fun _ hin => hin) fun r hr _ => ?_
        obtain rfl := Option.some.inj hr
        exact hmay
  | reconcileOrphan now id =>
    rw [QueueCall.apply, LeavesFinished]
    cases hrow : rq.get? id with
    | none =>
      rw [ReplicatedQueue.reconcileOrphan_none hrow]
      exact iff_of_true (fun _ hin => hin) nofun
    | some row =>
      rw [ReplicatedQueue.reconcileOrphan_some hrow,
        keeps_upsert_iff { row.state with state := "orphaned" } hrow
          (ReplicatedQueue.jobId_of_get? hrow) (by decide : ¬ Terminal "orphaned")]
      constructor
      · intro hrow' r hr
        obtain rfl := Option.some.inj hr
        exact hrow'
      · intro h
        exact h row rfl

/-- A call that leaves the jobs that are over alone refuses claims on them. -/
theorem refuses_of_leaves {call : QueueCall} (h : LeavesFinished rq call) :
    Refuses leaseSec rq call := by
  cases call with
  | reconcileOrphan now id => trivial
  | tryClaim checked written id cluster =>
    rintro job rfl hin
    obtain ⟨row,hrow,hstanding⟩ := Option.map_eq_some_iff.mp hin
    obtain ⟨hstate,_⟩ := Prod.mk.inj hstanding
    rw [ReplicatedQueue.tryClaim_refused hrow (h row hrow (hstate ▸ job.terminal))]

/-- In a run of claims and orphan marks the jobs that are over stay so exactly when no claim on one
of them passes the claim check and none of them is marked as an orphan. -/
theorem finishedStay_iff (rq : ReplicatedQueue) (calls : List QueueCall) :
    FinishedStay leaseSec rq calls ↔
      Along (QueueCall.apply leaseSec) LeavesFinished rq calls := by
  have hkeeps : Along (QueueCall.apply leaseSec)
      (fun s call => ∀ job : Finished, job.In s → job.In (call.apply leaseSec s)) rq calls ↔
      Along (QueueCall.apply leaseSec) LeavesFinished rq calls :=
    along_congr (I := fun _ => True) (fun _ _ _ _ => trivial)
      (fun s call _ => keeps_finished_iff leaseSec s call) trivial
  rw [FinishedStay, stays_iff Finished.In rq calls, hkeeps]
  refine and_iff_left_of_imp fun h before call after hcalls => ?_
  exact refuses_of_leaves leaseSec ((along_iff _ _ _).mp h before call after hcalls)

/-- A finished job is claimed again once its lease is over. -/
theorem finished_claimed_again :
    ¬ FinishedStay 45
      (Table.empty.put ⟨{ jobId := "j", state := "completed", ownerClusterId := "eu"
                          claimToken := "t" },45⟩) [.tryClaim 45 45 "j" "us"] := by
  intro h
  have hin : standing _ "j" = some ("completed","eu") :=
    h.1 [] [.tryClaim 45 45 "j" "us"] [] rfl ⟨"j","completed","eu",Or.inl rfl⟩ rfl
  revert hin
  decide

/-! ### Jobs whose owner is gone -/

/-- After the job is marked as an orphan, a claim on it is granted. -/
def PicksUp (marked checked written : ℚ) (id : JobId) (cluster : ClusterId)
    (rq : ReplicatedQueue) : Prop :=
  ∀ row, rq.get? id = some row →
    (((rq.reconcileOrphan leaseSec marked id).tryClaim leaseSec checked written id
      cluster).2).isSome = true

/-- A marked job can be claimed by its owner, by everybody if it has none, and otherwise once the
lease is over that the mark has renewed. -/
theorem picksUp_iff (marked checked written : ℚ) (id : JobId) (cluster : ClusterId)
    (rq : ReplicatedQueue) :
    PicksUp leaseSec marked checked written id cluster rq ↔
      ∀ row, rq.get? id = some row →
        row.state.ownerClusterId = "" ∨ row.state.ownerClusterId = cluster ∨
          marked+leaseSec ≤ checked := by
  refine forall₂_congr fun row hrow => ?_
  have hmarked : (rq.reconcileOrphan leaseSec marked id).get? id =
      some (freshRow leaseSec marked { row.state with state := "orphaned" }) := by
    rw [ReplicatedQueue.reconcileOrphan_some hrow]
    change Table.get? (Table.put rq _) id = _
    rw [Table.get?_put]
    exact if_pos (ReplicatedQueue.jobId_of_get? hrow).symm
  by_cases hmay : ReplicatedQueue.mayClaim { row.state with state := "orphaned" }
      (marked+leaseSec) checked cluster
  · rw [ReplicatedQueue.tryClaim_granted hmarked hmay]
    refine iff_of_true rfl ?_
    by_contra hnot
    obtain ⟨hunowned,hrest⟩ := not_or.mp hnot
    obtain ⟨hother,hearly⟩ := not_or.mp hrest
    exact hmay ⟨hunowned,hother,not_le.mp hearly⟩
  · rw [ReplicatedQueue.tryClaim_refused hmarked hmay]
    obtain ⟨hunowned,hother,hearly⟩ := not_not.mp hmay
    refine iff_of_false (by simp) ?_
    rintro (h | h | h)
    · exact hunowned h
    · exact hother h
    · exact h.not_gt hearly

/-- The mark has renewed the lease of the cluster that is gone. -/
theorem orphan_not_claimed :
    ¬ PicksUp 45 100 100 100 "j" "us"
      (Table.empty.put ⟨{ jobId := "j", state := "running", ownerClusterId := "eu"
                          claimToken := "t" },45⟩) := by
  intro h
  have hgranted := h _ rfl
  revert hgranted
  decide +kernel

end Arsonist.DistributedQueue
