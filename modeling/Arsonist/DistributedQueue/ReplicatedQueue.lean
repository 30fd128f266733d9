import Arsonist.Library.JsonText
import Arsonist.Library.Keyed
import Arsonist.Mesh.MeshProtocol
import Arsonist.Shared.Models

/-! The replicated jobs of a mesh (`distributed_queue/replicated_queue.py`) and the deltas that
carry them from one cluster to another (`distributed_queue/queue_sync.py`). -/
namespace Arsonist.DistributedQueue
open Arsonist.Library Arsonist.Shared Arsonist.Mesh Json

structure ReplicatedJobState where
  jobId : JobId
  state : String := "queued"
  ownerClusterId : ClusterId := ""
  claimToken : String
  updatedAt : ℚ := 0
  payloadDigest : String := ""
  deriving DecidableEq

namespace ReplicatedJobState

def modelDump (st : ReplicatedJobState) : Json.Object :=
  [("job_id",str st.jobId),
   ("state",str st.state),
   ("owner_cluster_id",str st.ownerClusterId),
   ("claim_token",str st.claimToken),
   ("updated_at",float st.updatedAt),
   ("payload_digest",str st.payloadDigest)]

/-- `ReplicatedJobState(**o)`, with the token that it draws if none is given. -/
def ofJson (token : String) (o : Json.Object) : Option ReplicatedJobState := do
  let jobId ← required o "job_id" asStr
  let state ← defaulted o "state" asStr "queued"
  let ownerClusterId ← defaulted o "owner_cluster_id" asStr ""
  let claimToken ← defaulted o "claim_token" asStr token
  let updatedAt ← defaulted o "updated_at" asFloat 0
  let payloadDigest ← defaulted o "payload_digest" asStr ""
  some { jobId := jobId, state := state, ownerClusterId := ownerClusterId
         claimToken := claimToken, updatedAt := updatedAt, payloadDigest := payloadDigest }

@[simp] theorem ofJson_modelDump (token : String) (st : ReplicatedJobState) :
    ofJson token st.modelDump = some st := rfl

end ReplicatedJobState

/-- A row of `rep_jobs`. Its payload is the JSON text of a state, which reads back as the
state. -/
structure RepJob where
  state : ReplicatedJobState
  leaseUntil : ℚ
  deriving DecidableEq

instance : Keyed RepJob JobId := ⟨fun row => row.state.jobId⟩

@[simp] theorem RepJob.key_eq (row : RepJob) : Keyed.key row = row.state.jobId := rfl

/-- The text of a payload reads back as the state. -/
theorem decode_payload {st : ReplicatedJobState} (h : IsDecimal st.updatedAt) (token : String) :
    ((decode (encode (obj st.modelDump))).bind asObject).bind
      (ReplicatedJobState.ofJson token) = some st := by
  have hwell : wellFormed (obj st.modelDump) := by
    rw [wellFormed, Bool.and_eq_true, decide_eq_true_iff]
    refine ⟨by simp [ReplicatedJobState.modelDump],?_⟩
    simp only [ReplicatedJobState.modelDump, membersWellFormed, Bool.and_true, Bool.and_eq_true]
    exact ⟨rfl,rfl,rfl,rfl,decide_eq_true h,rfl⟩
  rw [decode_encode hwell]
  rfl

abbrev ReplicatedQueue := Table RepJob

namespace ReplicatedQueue
variable (leaseSec : ℚ)

/-- `upsert`: the state gets the present time, and the row a new lease. -/
def upsert (now : ℚ) (st : ReplicatedJobState) (rq : ReplicatedQueue) : ReplicatedQueue :=
  rq.put ⟨{ st with updatedAt := now },now+leaseSec⟩

/-- `get`. -/
def job? (rq : ReplicatedQueue) (id : JobId) : Option ReplicatedJobState :=
  (rq.get? id).map RepJob.state

/-- The claim check of `try_claim`. -/
def mayClaim (st : ReplicatedJobState) (leaseUntil now : ℚ) (cluster : ClusterId) : Prop :=
  ¬ (st.ownerClusterId ≠ "" ∧ st.ownerClusterId ≠ cluster ∧ now < leaseUntil)

instance (st : ReplicatedJobState) (leaseUntil now : ℚ) (cluster : ClusterId) :
    Decidable (mayClaim st leaseUntil now cluster) :=
  inferInstanceAs (Decidable (¬ (_ ∧ _ ∧ _)))

/-- The state that `try_claim` stores. -/
def claimed (st : ReplicatedJobState) (cluster : ClusterId) : ReplicatedJobState :=
  { st with ownerClusterId := cluster, state := "assigned" }

/-- `try_claim` with the table to itself. The time is read for the check and again for the
write. -/
def tryClaim (checked written : ℚ) (id : JobId) (cluster : ClusterId) (rq : ReplicatedQueue) :
    ReplicatedQueue × Option ReplicatedJobState :=
  match rq.get? id with
  | none => (rq,none)
  | some row =>
    if mayClaim row.state row.leaseUntil checked cluster then
      (rq.upsert leaseSec written (claimed row.state cluster),
        some { claimed row.state cluster with updatedAt := written })
    else (rq,none)

/-- `list_states`: ordered by job. A negative limit is none. -/
def listStates (rq : ReplicatedQueue) (limit : ℤ) : List ReplicatedJobState :=
  let states := (rq.entries.map RepJob.state).insertionSort fun a b => a.jobId ≤ b.jobId
  if limit < 0 then states else states.take limit.toNat

end ReplicatedQueue

/-- `build_queue_delta`. -/
def buildQueueDelta (rq : ReplicatedQueue) (sinceJobId : Option JobId) : List Json :=
  let states := rq.listStates 200
  let states :=
    match sinceJobId with
    | none => states
    | some since => if since = "" then states else states.filter fun s => since < s.jobId
  (states.take 200).map fun s => obj s.modelDump

/-- An element of a delta as a replica takes it up: at a time, and with the token that it draws
if the element has none. -/
structure Incoming where
  body : Json
  now : ℚ
  token : String

/-- The state that an element stands for: `none` if the constructor raises. -/
def Incoming.state? (e : Incoming) : Option ReplicatedJobState :=
  (asObject e.body).bind (ReplicatedJobState.ofJson e.token)

/-- One turn of the loop in `apply_queue_delta`. -/
def applyState (leaseSec : ℚ) (s : ReplicatedQueue × ℕ) (e : Incoming) : ReplicatedQueue × ℕ :=
  match e.state? with
  | none => s
  | some st => (s.1.upsert leaseSec e.now st,s.2+1)

/-- `apply_queue_delta`. -/
def applyQueueDelta (leaseSec : ℚ) (rq : ReplicatedQueue) (jobs : List Incoming) :
    ReplicatedQueue × ℕ :=
  jobs.foldl (applyState leaseSec) (rq,0)

end Arsonist.DistributedQueue
