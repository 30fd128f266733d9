import Arsonist.ControlPlane.Ledger
import Arsonist.ControlPlane.MeshRoutes

/-! The three ways in which a job enters a cluster, under an id that may be known already:
`submit_job`, the inbound route of `control_plane/federation_api.py` and the route of the
mesh. Two of them look for the id; `submit_job` stores a new record over the old one. -/
namespace Arsonist.ControlPlane
open Arsonist.Library Arsonist.Shared Arsonist.Mesh Arsonist.Federation

/-- The envelope of a job that the federation controller pushes. -/
structure FederationInboundPayload where
  globalJobId : JobId
  originatingClusterId : Option String := none
  preferredRegion : Option String := none
  type : String := "code"
  task : String := ""
  requiredNodes : ℤ := 1
  power : String := "low"
  gpuRequired : Bool := false

/-- `FederationInboundPayload(**body)`. -/
def FederationInboundPayload.ofJson (body : Json.Object) : Option FederationInboundPayload := do
  let globalJobId ← Json.required body "global_job_id" Json.asStr
  let originatingClusterId ←
    Json.defaulted body "originating_cluster_id" (Json.asOption Json.asStr) none
  let preferredRegion ← Json.defaulted body "preferred_region" (Json.asOption Json.asStr) none
  let type ← Json.defaulted body "type" Json.asStr "code"
  let task ← Json.defaulted body "task" Json.asStr ""
  let requiredNodes ← Json.defaulted body "required_nodes" Json.asInt 1
  let power ← Json.defaulted body "power" Json.asStr "low"
  let gpuRequired ← Json.defaulted body "gpu_required" Json.asBool false
  some {
    globalJobId, originatingClusterId, preferredRegion, type, task, requiredNodes, power,
    gpuRequired }

/-- The job request of an inbound job, or the field that a `ValueError` is about. -/
def inboundRequest (payload : FederationInboundPayload) : Except String JobRequest :=
  match (StrEnum.ofValue payload.type : Option JobType) with
  | none => .error "type"
  | some type =>
    match (StrEnum.ofValue payload.power : Option JobPower) with
    | none => .error "power"
    | some power =>
      if h : 1 ≤ payload.requiredNodes ∧ payload.requiredNodes ≤ 5 then
        .ok {
          id := payload.globalJobId
          type := type
          task := payload.task
          requiredNodes := payload.requiredNodes.toNat
          power := power
          gpuRequired := payload.gpuRequired
          requiredNodes_ge := one_le_toNat h
          requiredNodes_le := toNat_le_five h }
      else .error "required_nodes"

theorem inboundRequest_id {payload : FederationInboundPayload} {jr : JobRequest}
    (h : inboundRequest payload = .ok jr) : jr.id = payload.globalJobId := by
  unfold inboundRequest at h
  cases htype : (StrEnum.ofValue payload.type : Option JobType) with
  | none => rw [htype] at h; simp at h
  | some type =>
    rw [htype] at h
    dsimp only at h
    cases hpower : (StrEnum.ofValue payload.power : Option JobPower) with
    | none => rw [hpower] at h; simp at h
    | some power =>
      rw [hpower] at h
      dsimp only at h
      split_ifs at h
      rw [← Except.ok.inj h]

/-- `_federation_enabled`. -/
def federationEnabled (value : String) : Bool := Text.lower value ∈ ["1","true","yes"]

/-- A request that brings a job. -/
inductive Entry
  | submitJob (payload : JobRequest)
  | inboundJob (body : Json.Object) (sig ts : Option String)
  | receiveRoutedJob (body : Json.Object) (sig ts : Option String)

/-- The id under which the job would be stored, if the body has one. -/
def Entry.jobId : Entry → Option JobId
  | submitJob payload => some payload.id
  | inboundJob body _ _ => (FederationInboundPayload.ofJson body).map fun p => p.globalJobId
  | receiveRoutedJob body _ _ => some (Text.strip (textOf (field body "id" (.str ""))))

namespace MeshCluster
variable (cfg : Config) (gate : MeshGate) (inbound : String)

/-- The checks of the inbound route and of the job request, around the duplicate check. -/
def readInbound (c : MeshCluster) (body : Json.Object) (sig ts : Option String) :
    Except Answer FederationInboundPayload :=
  if federationEnabled inbound = false then
    .error (.refused 404 "federation inbound disabled")
  else
    match verifySignedClusterRequest gate.mac gate.secrets c.state.now body sig ts with
    | none => .error .raised
    | some false => .error (.refused 403 "invalid federation signature or timestamp")
    | some true =>
      match FederationInboundPayload.ofJson body with
      | none => .error .raised
      | some payload => .ok payload

/-- What a request does before it calls the scheduler, and whether it calls it. -/
def intake (c : MeshCluster) : Entry → MeshCluster × Answer × Bool
  | .submitJob payload =>
    ({ c with state := c.state.acceptJob cfg payload },.status "accepted" payload.id,true)
  | .inboundJob body sig ts =>
    match c.readInbound gate inbound body sig ts with
    | .error answer => (c,answer,false)
    | .ok payload =>
      match c.state.job? payload.globalJobId with
      | some _ => (c,.status "duplicate" payload.globalJobId,false)
      | none =>
        match inboundRequest payload with
        | .error name => (c,.invalid name,false)
        | .ok jr =>
          let record := c.state.inboundRecord cfg jr payload.originatingClusterId
          ({ c with state := c.state.enqueueJob cfg record },
            .status "accepted" payload.globalJobId,true)
  | .receiveRoutedJob body sig ts =>
    match c.readRouted gate body sig ts with
    | .error answer => (c,answer,false)
    | .ok (rt,jr) =>
      match c.state.job? jr.id with
      | some _ => (c,.status "duplicate" jr.id,false)
      | none =>
        (c.acceptRouted cfg rt jr (sourceOf body),.status "accepted" jr.id,true)

/-- A request that brings a job, as a whole. -/
def enter (env : Surroundings) (c : MeshCluster) (entry : Entry) : MeshCluster × Answer :=
  match c.intake cfg gate inbound entry with
  | (c,answer,true) =>
    match entry with
    | .receiveRoutedJob _ _ _ => ((c.scheduled cfg env).count routeSucceeded,answer)
    | _ => (c.scheduled cfg env,answer)
  | (c,answer,false) => (c,answer)

/-- A known job keeps its record, and is not started again unless it still waits. -/
def RespectsKnown (env : Surroundings) (c : MeshCluster) (entry : Entry) : Prop :=
  ∀ id ∈ entry.jobId, ∀ job, c.state.job? id = some job →
    (c.intake cfg gate inbound entry).1.state.job? id = some job ∧
    (job.status ≠ .queued → ∀ new,
      (c.enter cfg gate inbound env entry).1.state.actions = c.state.actions ++ new →
      .started id ∉ new)

variable (c : MeshCluster)

/-! ### The handlers as they are written -/

theorem enter_submitJob (env : Surroundings) (payload : JobRequest) :
    (c.enter cfg gate inbound env (.submitJob payload)).1.state =
      (c.state.submitJob cfg payload env).1 := rfl

theorem enter_receiveRoutedJob (env : Surroundings) (body : Json.Object)
    (sig ts : Option String) :
    c.enter cfg gate inbound env (.receiveRoutedJob body sig ts) =
      c.receiveRoutedJob cfg gate body sig ts env := by
  unfold enter intake receiveRoutedJob
  dsimp only
  cases c.readRouted gate body sig ts with
  | error answer => rfl
  | ok read =>
    obtain ⟨rt,jr⟩ := read
    dsimp only
    cases c.state.job? jr.id <;> rfl

/-- The inbound route of a well-formed request is the operation of the control plane. -/
theorem enter_inboundJob (env : Surroundings) {body : Json.Object} {sig ts : Option String}
    {payload : FederationInboundPayload} {jr : JobRequest}
    (hread : c.readInbound gate inbound body sig ts = .ok payload)
    (hjr : inboundRequest payload = .ok jr) :
    (c.enter cfg gate inbound env (.inboundJob body sig ts)).1.state =
      (c.state.inboundJob cfg jr payload.originatingClusterId env).1 := by
  unfold enter intake State.inboundJob
  dsimp only
  rw [hread]
  dsimp only
  rw [hjr, inboundRequest_id hjr]
  cases c.state.job? payload.globalJobId <;> rfl

/-! ### Known ids -/

/-- The routes of the federation and of the mesh leave a cluster that knows the id alone. -/
theorem intake_of_known {entry : Entry} {id : JobId} {job : JobRecord}
    (hid : entry.jobId = some id) (hjob : c.state.job? id = some job)
    (hroute : ∀ payload, entry ≠ .submitJob payload) :
    (c.intake cfg gate inbound entry).1 = c ∧ (c.intake cfg gate inbound entry).2.2 = false := by
  cases entry with
  | submitJob payload => exact absurd rfl (hroute payload)
  | inboundJob body sig ts =>
    unfold intake readInbound
    dsimp only
    split_ifs
    · exact ⟨rfl,rfl⟩
    · cases verifySignedClusterRequest gate.mac gate.secrets c.state.now body sig ts with
      | none => exact ⟨rfl,rfl⟩
      | some ok =>
        cases ok with
        | false => exact ⟨rfl,rfl⟩
        | true =>
          dsimp only
          cases hp : FederationInboundPayload.ofJson body with
          | none => exact ⟨rfl,rfl⟩
          | some payload =>
            rw [Entry.jobId, hp] at hid
            dsimp only
            rw [show c.state.job? payload.globalJobId = some job by
              rw [show payload.globalJobId = id from Option.some.inj hid, hjob]]
            exact ⟨rfl,rfl⟩
  | receiveRoutedJob body sig ts =>
    unfold intake
    dsimp only
    cases hread : c.readRouted gate body sig ts with
    | error answer => exact ⟨rfl,rfl⟩
    | ok read =>
      obtain ⟨rt,jr⟩ := read
      have hjr : jr.id = id := (readRouted_id gate c hread).trans (Option.some.inj hid)
      dsimp only
      rw [show c.state.job? jr.id = some job by rw [hjr, hjob]]
      exact ⟨rfl,rfl⟩

theorem respectsKnown_of_left (env : Surroundings) {entry : Entry} {id : JobId}
    {job : JobRecord} (hjob : c.state.job? id = some job)
    (h : (c.intake cfg gate inbound entry).1 = c ∧
      (c.intake cfg gate inbound entry).2.2 = false) :
    (c.intake cfg gate inbound entry).1.state.job? id = some job ∧
    (job.status ≠ .queued → ∀ new,
      (c.enter cfg gate inbound env entry).1.state.actions = c.state.actions ++ new →
      .started id ∉ new) := by
  obtain ⟨hcluster,hno⟩ := h
  have henter : (c.enter cfg gate inbound env entry).1 = c := by
    unfold enter
    rcases hin : c.intake cfg gate inbound entry with ⟨d,answer,called⟩
    rw [hin] at hcluster hno
    dsimp only at hcluster hno
    rw [hno]
    exact hcluster
  refine ⟨by rw [hcluster, hjob],fun _ new hnew => ?_⟩
  rw [henter] at hnew
  rw [List.self_eq_append_right.mp hnew]
  simp

/-- `enqueue_job` stores the record, whatever is stored under its id. -/
theorem job?_enqueueJob (s : State) (job : JobRecord) :
    (s.enqueueJob cfg job).job? job.id = some job := by
  have happend : ∀ t : State, (t.appendQueue job.id).memory.jobs = t.memory.jobs := by
    intro t
    unfold State.appendQueue
    split <;> rfl
  have hjobs : (s.enqueueJob cfg job).memory.jobs = s.memory.jobs.put job := by
    unfold State.enqueueJob
    dsimp only
    rw [State.writeQueue_memory]
    change (State.saveJob _ job.id).memory.jobs = _
    rw [State.saveJob_memory]
    exact happend _
  rw [State.job?, hjobs, Table.get?_put]
  exact if_pos rfl

/-- A request respects a known id if and only if it comes through one of the routes, or the
record that `submit_job` builds is the stored one. -/
theorem respectsKnown_iff (env : Surroundings) (entry : Entry) :
    c.RespectsKnown cfg gate inbound env entry ↔
      ∀ payload, entry = .submitJob payload → ∀ job, c.state.job? payload.id = some job →
        job = buildJobRecord c.state.now payload := by
  constructor
  · rintro h payload rfl job hjob
    have hkeep := (h payload.id rfl job hjob).1
    change (c.state.enqueueJob cfg (buildJobRecord c.state.now payload)).job? payload.id =
      some job at hkeep
    have hnew := job?_enqueueJob cfg c.state (buildJobRecord c.state.now payload)
    exact Option.some.inj (hkeep.symm.trans hnew)
  · intro h id hid job hjob
    cases entry with
    | submitJob payload =>
      obtain rfl : payload.id = id := Option.some.inj hid
      have hfresh := h payload rfl job hjob
      refine ⟨?_,fun hrun => absurd ?_ hrun⟩
      · rw [hfresh]
        exact job?_enqueueJob cfg c.state (buildJobRecord c.state.now payload)
      · rw [hfresh]
        rfl
    | inboundJob body sig ts =>
      exact c.respectsKnown_of_left cfg gate inbound env hjob
        (c.intake_of_known cfg gate inbound hid hjob (by simp))
    | receiveRoutedJob body sig ts =>
      exact c.respectsKnown_of_left cfg gate inbound env hjob
        (c.intake_of_known cfg gate inbound hid hjob (by simp))

end MeshCluster

/-- The mesh is open to everyone. -/
def openGate : MeshGate := { mac := countingMac }

/-- Node `a` has completed job `j`. -/
def completedOps : List Op :=
  [.registerNode (cpuNode "a"),.submitJob (soloJob "j") allAccept,
   .jobResult "a" "j" succeeded allAccept]

/-- A completed job is submitted again: a new, queued record takes the place of its own. -/
theorem not_respectsKnown :
    ¬ ∀ (cfg : Config) (gate : MeshGate) (inbound : String) (ops : List Op)
      (runtime : Option MeshRuntime) (env : Surroundings) (entry : Entry),
      MeshCluster.RespectsKnown cfg gate inbound env
        ⟨run (State.exec cfg) {} ops,runtime⟩ entry := by
  intro h
  let c : MeshCluster := ⟨run (State.exec {}) {} completedOps,none⟩
  let again : Entry := .submitJob (soloJob "j")
  have hdone : (c.state.job? "j").map JobRecord.status = some .completed := by decide +kernel
  have hreset : ((c.intake {} openGate "true" again).1.state.job? "j").map JobRecord.status =
      some .queued := by decide +kernel
  obtain ⟨job,hjob,hstatus⟩ := Option.map_eq_some_iff.mp hdone
  have hkept := (h {} openGate "true" completedOps none allAccept again "j" rfl job hjob).1
  rw [hkept, Option.map_some, hstatus] at hreset
  simp at hreset

end Arsonist.ControlPlane
