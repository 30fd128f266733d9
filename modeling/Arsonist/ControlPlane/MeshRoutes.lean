import Arsonist.ControlPlane.App
import Arsonist.Mesh.MeshRouter

/-! The mesh routes that hand jobs from one control plane to another
(`control_plane/mesh_routes.py`). Forwarding a job is two steps with a request to the peer
between them; other requests are served while it waits. -/
namespace Arsonist.ControlPlane
open Arsonist.Library Arsonist.Shared Arsonist.Mesh Arsonist.Federation

/-- Who may send: the secrets, and `ARSONIST_MESH_TRUSTED_PEERS`. -/
structure MeshGate where
  mac : IdealMac
  secrets : SecretEnv := {}
  trustedPeers : String := ""

/-- A row of `distributed_queue/replicated_queue.py`. -/
structure ReplicatedJobState where
  jobId : JobId
  state : String := "queued"
  ownerClusterId : ClusterId := ""
  updatedAt : ℚ := 0

instance : Keyed ReplicatedJobState JobId := ⟨fun st => st.jobId⟩

structure MeshRuntime where
  clusterId : ClusterId
  region : String
  registry : PeerRegistry := .empty
  replicated : Table ReplicatedJobState := .empty
  eventLog : List (String × Json.Object) := []
  routesAttempted : ℕ := 0
  routesSucceeded : ℕ := 0
  routesFailed : ℕ := 0

/-- A control plane and its mesh runtime, if the mesh is enabled. -/
structure MeshCluster where
  state : State
  runtime : Option MeshRuntime

/-- Why a body does not give a job request. -/
inductive BodyError
  | valueError (field : String)
  | typeError

/-- What a mesh route answers. `invalid` is status 400 with the text of the exception that
the field causes, `raised` an exception outside of `HTTPException`. -/
inductive Answer
  | status (status : String) (jobId : JobId)
  | forwarded (target : String) (score : ℚ)
  | refused (code : ℕ) (detail : String)
  | invalid (field : String)
  | raised
  deriving DecidableEq

/-- The status code of the HTTP response. -/
def Answer.code : Answer → ℕ
  | status _ _ => 200
  | forwarded _ _ => 200
  | refused code _ => code
  | invalid _ => 400
  | raised => 500

/-- `_peer_trusted`. -/
def peerTrusted (trustedPeers : String) (clusterId : ClusterId) : Bool :=
  let raw := Text.stripped trustedPeers.toList
  if raw = [] then true
  else
    let allowed := (raw.splitOn ',').map Text.stripped
    clusterId.toList ∈ allowed.filter (· ≠ [])

/-! ### Reading a body -/

/-- `str(value)`. -/
def textOf : Json → String
  | .str s => s
  | .null => "None"
  | .bool true => "True"
  | .bool false => "False"
  | v => v.dumps

/-- `body.get(name, default)`. -/
def field (body : Json.Object) (name : String) (default : Json) : Json :=
  (body.lookup name).getD default

/-- `int(value)`. -/
def intOf (name : String) : Json → Except BodyError ℤ
  | .int n => .ok n
  | .bool b => .ok (if b then 1 else 0)
  | .float q => .ok (Text.truncate q)
  | .str s =>
    match Text.parseInt s with
    | some n => .ok n
    | none => .error (.valueError name)
  | _ => .error .typeError

theorem one_le_toNat {n : ℤ} (h : 1 ≤ n ∧ n ≤ 5) : 1 ≤ n.toNat := by omega

theorem toNat_le_five {n : ℤ} (h : 1 ≤ n ∧ n ≤ 5) : n.toNat ≤ 5 := by omega

/-- The job request of a routed job. The arguments are read in this order, and the number of
nodes is validated last. -/
def routedRequest (body : Json.Object) (id : JobId) : Except BodyError JobRequest :=
  match Json.asEnum (α := JobType) (field body "type" (.str "code")) with
  | none => .error (.valueError "type")
  | some type =>
    match intOf "required_nodes" (field body "required_nodes" (.int 1)) with
    | .error e => .error e
    | .ok n =>
      match Json.asEnum (α := JobPower) (field body "power" (.str "low")) with
      | none => .error (.valueError "power")
      | some power =>
        if h : 1 ≤ n ∧ n ≤ 5 then
          .ok {
            id := id
            type := type
            task := textOf (field body "task" (.str ""))
            requiredNodes := n.toNat
            power := power
            gpuRequired := (field body "gpu_required" (.bool false)).truthy
            requiredNodes_ge := one_le_toNat h
            requiredNodes_le := toNat_le_five h }
        else .error (.valueError "required_nodes")

def sourceOf (body : Json.Object) : ClusterId := textOf (field body "source_cluster_id" (.str ""))

/-- The payload that `forward_job` sends. -/
def routedPayload (clusterId : ClusterId) (job : JobRecord) : Json.Object :=
  [("id",.str job.id),
   ("type",.str (StrEnum.value job.type)),
   ("task",.str job.task),
   ("required_nodes",.int job.requiredNodes),
   ("power",.str (StrEnum.value job.power)),
   ("gpu_required",.bool job.gpuRequired),
   ("source_cluster_id",.str clusterId)]

/-- A request that `forward_job` has sent. -/
structure Outgoing where
  jobId : JobId
  decision : RouteDecision
  payload : Json.Object
  signature : String
  timestamp : String

namespace MeshCluster
variable (cfg : Config) (gate : MeshGate)

/-- The signature check of a route, at the time of the request. -/
def verified (c : MeshCluster) (body : Json.Object) (sig ts : Option String) : Option Answer :=
  match verifyIncomingGossip gate.mac gate.secrets c.state.now body sig ts with
  | some true => none
  | some false => some (.refused 403 "invalid mesh signature or timestamp")
  | none => some .raised

/-- The checks of `receive_routed_job`, up to the job request. -/
def readRouted (c : MeshCluster) (body : Json.Object) (sig ts : Option String) :
    Except Answer (MeshRuntime × JobRequest) :=
  match c.runtime with
  | none => .error (.refused 503 "mesh disabled")
  | some rt =>
    match c.verified gate body sig ts with
    | some answer => .error answer
    | none =>
      if peerTrusted gate.trustedPeers (sourceOf body) = false then
        .error (.refused 403 "untrusted source")
      else
        let id := Text.strip (textOf (field body "id" (.str "")))
        if id = "" then .error (.refused 400 "job id required")
        else
          match routedRequest body id with
          | .ok jr => .ok (rt,jr)
          | .error (.valueError name) => .error (.invalid name)
          | .error .typeError => .error .raised

/-- The record of a routed job. -/
def routedRecord (s : State) (jr : JobRequest) (source : ClusterId) : JobRecord :=
  { buildJobRecord s.now jr with originatingClusterId := some source }

/-- The part of `receive_routed_job` between the duplicate check and the scheduler. -/
def acceptRouted (c : MeshCluster) (rt : MeshRuntime) (jr : JobRequest) (source : ClusterId) :
    MeshCluster where
  state := c.state.enqueueJob cfg (routedRecord c.state jr source)
  runtime := some { rt with
    replicated := rt.replicated.put
      { jobId := jr.id, state := "queued", ownerClusterId := rt.clusterId
        updatedAt := c.state.now }
    eventLog := rt.eventLog ++
      [("JOB_CREATED",[("job_id",.str jr.id),("via",.str "mesh_route")])] }

def scheduled (env : Surroundings) (c : MeshCluster) : MeshCluster :=
  { c with state := c.state.scheduleOnce cfg env }

def count (f : MeshRuntime → MeshRuntime) (c : MeshCluster) : MeshCluster :=
  { c with runtime := c.runtime.map f }

def routeSucceeded (rt : MeshRuntime) : MeshRuntime :=
  { rt with routesSucceeded := rt.routesSucceeded+1 }

def routeFailed (rt : MeshRuntime) : MeshRuntime := { rt with routesFailed := rt.routesFailed+1 }

def routeAttempted (rt : MeshRuntime) : MeshRuntime :=
  { rt with routesAttempted := rt.routesAttempted+1 }

/-- The replicated state of a job that a peer has taken. -/
def migrated (now : ℚ) (out : Outgoing) (rt : MeshRuntime) : MeshRuntime :=
  { rt with
    replicated := rt.replicated.put
      { jobId := out.jobId, state := "migrated"
        ownerClusterId := out.decision.targetClusterId, updatedAt := now } }

def receiveRoutedJob (c : MeshCluster) (body : Json.Object) (sig ts : Option String)
    (env : Surroundings) : MeshCluster × Answer :=
  match c.readRouted gate body sig ts with
  | .error answer => (c,answer)
  | .ok (rt,jr) =>
    match c.state.job? jr.id with
    | some _ => (c,.status "duplicate" jr.id)
    | none =>
      (((c.acceptRouted cfg rt jr (sourceOf body)).scheduled cfg env).count routeSucceeded,
        .status "accepted" jr.id)

/-- `forward_job` up to its request to the peer. -/
def forwardJob (c : MeshCluster) (body : Json.Object) (sig ts : Option String) :
    MeshCluster × Except Answer Outgoing :=
  match c.runtime with
  | none => (c,.error (.refused 503 "mesh disabled"))
  | some rt =>
    match c.verified gate body sig ts with
    | some answer => (c,.error answer)
    | none =>
      match c.state.job? (textOf (field body "job_id" (.str ""))) with
      | none => (c,.error (.refused 404 "job not found"))
      | some job =>
        let router : MeshRouter :=
          { registry := rt.registry, localClusterId := rt.clusterId, localRegion := rt.region }
        match router.bestForward job with
        | none => (c.count routeFailed,.error (.refused 409 "no eligible peer"))
        | some decision =>
          let payload := routedPayload rt.clusterId job
          let headers := meshAuthHeaders gate.mac gate.secrets c.state.now payload
          (c.count routeAttempted,.ok
            { jobId := job.id, decision := decision, payload := payload
              signature := headers.1, timestamp := headers.2 })

/-- `forward_job` from the response of the peer on: its status code, or the text of the
exception that the request has ended with. -/
def forwardEnds (c : MeshCluster) (out : Outgoing) (reply : ℕ ⊕ String) : MeshCluster × Answer :=
  match reply with
  | .inl code =>
    if 400 ≤ code then
      (c.count routeFailed,.refused 502 ("peer returned " ++ toString code))
    else
      ((c.count routeSucceeded).count (migrated c.state.now out),
        .forwarded out.decision.targetPublicUrl out.decision.score)
  | .inr error => (c.count routeFailed,.refused 502 error)

/-! ### What the routes do to the jobs -/

theorem routedRequest_id {body : Json.Object} {id : JobId} {jr : JobRequest}
    (h : routedRequest body id = .ok jr) : jr.id = id := by
  unfold routedRequest at h
  cases htype : Json.asEnum (α := JobType) (field body "type" (.str "code")) with
  | none => rw [htype] at h; simp at h
  | some type =>
    rw [htype] at h
    dsimp only at h
    cases hn : intOf "required_nodes" (field body "required_nodes" (.int 1)) with
    | error e => rw [hn] at h; simp at h
    | ok n =>
      rw [hn] at h
      dsimp only at h
      cases hpower : Json.asEnum (α := JobPower) (field body "power" (.str "low")) with
      | none => rw [hpower] at h; simp at h
      | some power =>
        rw [hpower] at h
        dsimp only at h
        split_ifs at h
        rw [← Except.ok.inj h]

section
variable (c : MeshCluster)

/-- The job request carries the id that the body names. -/
theorem readRouted_id {body : Json.Object} {sig ts : Option String} {rt : MeshRuntime}
    {jr : JobRequest} (h : c.readRouted gate body sig ts = .ok (rt,jr)) :
    jr.id = Text.strip (textOf (field body "id" (.str ""))) := by
  unfold readRouted at h
  cases hrt : c.runtime with
  | none => rw [hrt] at h; simp at h
  | some rt' =>
    rw [hrt] at h
    dsimp only at h
    cases hv : c.verified gate body sig ts with
    | some answer => rw [hv] at h; simp at h
    | none =>
      rw [hv] at h
      dsimp only at h
      split_ifs at h
      cases hreq : routedRequest body (Text.strip (textOf (field body "id" (.str "")))) with
      | ok jr' =>
        rw [hreq] at h
        have hpair := Prod.mk.inj (Except.ok.inj h)
        rw [← hpair.2]
        exact routedRequest_id hreq
      | error e => rw [hreq] at h; cases e <;> simp at h

@[simp] theorem count_state (f : MeshRuntime → MeshRuntime) : (c.count f).state = c.state := rfl

/-- Forwarding reads the job and leaves the control plane as it is. -/
theorem forwardJob_state (body : Json.Object) (sig ts : Option String) :
    (c.forwardJob gate body sig ts).1.state = c.state := by
  unfold forwardJob
  cases c.runtime with
  | none => rfl
  | some rt =>
    dsimp only
    cases c.verified gate body sig ts with
    | some answer => rfl
    | none =>
      dsimp only
      cases c.state.job? (textOf (field body "job_id" (.str ""))) with
      | none => rfl
      | some job =>
        dsimp only
        cases MeshRouter.bestForward _ job <;> rfl

theorem forwardEnds_state (out : Outgoing) (reply : ℕ ⊕ String) :
    (c.forwardEnds out reply).1.state = c.state := by
  unfold forwardEnds
  cases reply with
  | inl code =>
    dsimp only
    split_ifs <;> rfl
  | inr error => rfl

end

end MeshCluster
end Arsonist.ControlPlane
